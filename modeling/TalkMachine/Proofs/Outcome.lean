import Mathlib.Data.List.Forall2

/-!
# Outcomes of sequences

A sequence of steps that may fail succeeds just when each of its steps does. These are the forms in
which that is used: for one step and the rest (`bind_eq_ok_iff`), for a check and the rest
(`guard_eq_ok_iff`), for both where the steps change a state (`run_bind_eq_ok_iff`,
`run_guard_eq_ok_iff`), and for a function mapped over a list or an array (`mapM_eq_ok_iff`,
`array_mapM_eq_ok_iff`).

Three properties of steps are kept by sequences: to lead to a related state, also when refused
(`Ensures`), to keep a property of the state (`Maintains`), and to succeed as soon as there is so much
room (`Affords`).
-/

namespace TalkMachine

/-! ### One step and the rest -/

/-- A step and what follows succeed just when the step does and what follows succeeds with its
result. -/
lemma bind_eq_ok_iff {ε α β : Type} {x : Except ε α} {f : α → Except ε β} {b : β} :
    (x >>= f) = .ok b ↔ ∃ a, x = .ok a ∧ f a = .ok b := by
  cases x <;> simp [bind, Except.bind]

/-- The same for steps that change a state. -/
lemma run_bind_eq_ok_iff {ε σ α β : Type} {x : EStateM ε σ α} {f : α → EStateM ε σ β} {b : β}
    {s u : σ} : (x >>= f) s = .ok b u ↔ ∃ a t, x s = .ok a t ∧ f a t = .ok b u := by
  show EStateM.bind x f s = .ok b u ↔ _
  unfold EStateM.bind
  cases x s <;> simp

/-- They are refused just when one of the two is. -/
lemma run_bind_eq_error_iff {ε σ α β : Type} {x : EStateM ε σ α} {f : α → EStateM ε σ β} {e : ε}
    {s u : σ} : (x >>= f) s = .error e u ↔
      x s = .error e u ∨ ∃ a t, x s = .ok a t ∧ f a t = .error e u := by
  show EStateM.bind x f s = .error e u ↔ _
  unfold EStateM.bind
  cases x s <;> simp

/-- A step that answers, and what follows. -/
lemma run_bind_of_ok {ε σ α β : Type} {x : EStateM ε σ α} {f : α → EStateM ε σ β} {a : α} {s t : σ}
    (h : x s = .ok a t) : (x >>= f) s = f a t := by
  show EStateM.bind x f s = _
  simp only [EStateM.bind, h]

/-- A step that is refused, so that nothing follows. -/
lemma run_bind_of_error {ε σ α β : Type} {x : EStateM ε σ α} {f : α → EStateM ε σ β} {e : ε}
    {s t : σ} (h : x s = .error e t) : (x >>= f) s = .error e t := by
  show EStateM.bind x f s = _
  simp only [EStateM.bind, h]

/-- What follows does not depend on how a step has come to its result. -/
lemma run_bind_congr {ε σ α β : Type} {x y : EStateM ε σ α} {f : α → EStateM ε σ β} {s : σ}
    (h : x s = y s) : (x >>= f) s = (y >>= f) s := by
  show EStateM.bind x f s = EStateM.bind y f s
  simp only [EStateM.bind, h]

/-- A check and what follows succeed just when the check finds nothing and what follows succeeds. -/
lemma guard_eq_ok_iff {ε α β : Type} {c : Prop} [Decidable c] {e : ε} {f : β → Except ε α}
    {x : Except ε α} {b : α} :
    (if c then throw e >>= f else x) = .ok b ↔ ¬c ∧ x = .ok b := by
  by_cases hc : c
  · simp [hc, throw, throwThe, MonadExceptOf.throw, bind, Except.bind]
  · simp [hc]

/-- The same for a check before steps that change a state. -/
lemma run_guard_eq_ok_iff {ε σ α β : Type} {c : Prop} [Decidable c] {e : ε}
    {f : β → EStateM ε σ α} {x : EStateM ε σ α} {b : α} {s u : σ} :
    (if c then throw e >>= f else x) s = .ok b u ↔ ¬c ∧ x s = .ok b u := by
  by_cases hc : c
  · rw [if_pos hc, run_bind_eq_ok_iff]
    constructor
    · rintro ⟨_, _, hthrow, -⟩
      cases hthrow
    · exact fun h => absurd hc h.1
  · simp [hc]

/-- What a refusal is turned into does not matter to a success. -/
lemma adaptExcept_eq_ok_iff {ε ε' σ α : Type} {x : EStateM ε σ α} {f : ε → ε'} {a : α} {s t : σ} :
    x.adaptExcept f s = .ok a t ↔ x s = .ok a t := by
  unfold EStateM.adaptExcept
  cases x s <;> simp

/-! ### Steps that change a state -/

/-- What a step answers, or why it was refused. -/
def outcome {ε σ α : Type} : EStateM.Result ε σ α → Except ε α
  | .ok a _ => .ok a
  | .error e _ => .error e

/-- The state that a step leaves, also when it was refused. -/
def stateAfter {ε σ α : Type} : EStateM.Result ε σ α → σ
  | .ok _ s => s
  | .error _ s => s

/-- To answer something else leaves the same state. -/
lemma stateAfter_map {ε σ α β : Type} (f : α → β) (x : EStateM ε σ α) (s : σ) :
    stateAfter ((f <$> x) s) = stateAfter (x s) := by
  show stateAfter (EStateM.map f x s) = _
  unfold EStateM.map
  cases x s <;> rfl

/-- So does an answer behind the step. -/
lemma stateAfter_bind_pure {ε σ α β : Type} (x : EStateM ε σ α) (b : β) (s : σ) :
    stateAfter ((x >>= fun _ => pure b) s) = stateAfter (x s) := by
  show stateAfter (EStateM.bind x (fun _ => pure b) s) = _
  unfold EStateM.bind
  cases x s <;> rfl

/-- A step whose answer is wrapped is refused just when the step is. -/
lemma run_map_eq_error_iff {ε σ α β : Type} {f : α → β} {x : EStateM ε σ α} {e : ε} {s u : σ} :
    (f <$> x) s = .error e u ↔ x s = .error e u := by
  show EStateM.map f x s = _ ↔ _
  unfold EStateM.map
  cases x s <;> simp

/-- One that answers does so with its answer wrapped. -/
lemma run_map_of_ok {ε σ α β : Type} {f : α → β} {x : EStateM ε σ α} {a : α} {s u : σ}
    (h : x s = .ok a u) : (f <$> x) s = .ok (f a) u := by
  show EStateM.map f x s = _
  simp only [EStateM.map, h]

/-- A step whose answer is replaced answers just when the step does. -/
lemma run_map_const_eq_ok_iff {ε σ β : Type} {b b' : β} {x : EStateM ε σ Unit} {t u : σ} :
    ((fun _ => b) <$> x) t = .ok b' u ↔ b = b' ∧ x t = .ok () u := by
  show EStateM.map _ x t = _ ↔ _
  unfold EStateM.map
  cases x t <;> simp

/-! ### What steps lead to -/

section Ensures

variable {ε σ γ α β : Type} {related : σ → γ → σ → γ → Prop} {x : EStateM ε σ α} {t : σ} {g : γ}
  {Q : α → σ → γ → Prop}

/-- Whether a step leads to a related state, also when it is refused, and what it answers has the
property `Q`. What a state stands for is known beside it. -/
def Ensures (related : σ → γ → σ → γ → Prop) (x : EStateM ε σ α) (t : σ) (g : γ)
    (Q : α → σ → γ → Prop) : Prop :=
  match x t with
  | .ok a t' => ∃ g', related t g t' g' ∧ Q a t' g'
  | .error _ t' => ∃ g', related t g t' g'

/-- A step that answered has led to a related state. -/
lemma Ensures.of_ok (h : Ensures related x t g Q) {a : α} {t' : σ} (hok : x t = .ok a t') :
    ∃ g', related t g t' g' ∧ Q a t' g' := by
  rw [Ensures, hok] at h
  exact h

/-- The state that a step leaves is related. -/
lemma Ensures.exists_stateAfter (h : Ensures related x t g Q) :
    ∃ g', related t g (stateAfter (x t)) g' := by
  rw [Ensures] at h
  cases hx : x t with
  | ok a t' =>
    rw [hx] at h
    exact h.imp fun _ => And.left
  | error e t' =>
    rw [hx] at h
    exact h

/-- What follows from a property of an answer. -/
lemma Ensures.imp (h : Ensures related x t g Q) {R : α → σ → γ → Prop}
    (hR : ∀ a t' g', related t g t' g' → Q a t' g' → R a t' g') : Ensures related x t g R := by
  rw [Ensures] at h ⊢
  cases hx : x t with
  | ok a t' =>
    rw [hx] at h
    obtain ⟨g', hrelated, hQ⟩ := h
    exact ⟨g', hrelated, hR a t' g' hrelated hQ⟩
  | error e t' =>
    rw [hx] at h
    exact h

/-- A wider relation, where more is known of an answer. -/
lemma Ensures.mono (h : Ensures related x t g Q) {related' : σ → γ → σ → γ → Prop}
    (hrelated : ∀ t' g', related t g t' g' → related' t g t' g') :
    Ensures related' x t g fun a t' g' => related t g t' g' ∧ Q a t' g' := by
  rw [Ensures] at h ⊢
  cases hx : x t with
  | ok a t' =>
    rw [hx] at h
    obtain ⟨g', hstep, hQ⟩ := h
    exact ⟨g', hrelated t' g' hstep, hstep, hQ⟩
  | error e t' =>
    rw [hx] at h
    exact h.imp (hrelated t')

/-- One step after the other leads to where the second one leads from where the first has led. -/
lemma Ensures.bind {f : α → EStateM ε σ β} {R : β → σ → γ → Prop}
    (htrans : ∀ {t' g' t'' g''}, related t g t' g' → related t' g' t'' g'' → related t g t'' g'')
    (hx : Ensures related x t g Q)
    (hf : ∀ a t' g', related t g t' g' → Q a t' g' → Ensures related (f a) t' g' R) :
    Ensures related (x >>= f) t g R := by
  rw [Ensures] at hx ⊢
  cases hxt : x t with
  | error e t' =>
    rw [hxt] at hx
    rw [run_bind_of_error hxt]
    exact hx
  | ok a t' =>
    rw [hxt] at hx
    obtain ⟨g', hrelated, hQ⟩ := hx
    have hrest := hf a t' g' hrelated hQ
    rw [Ensures] at hrest
    rw [run_bind_of_ok hxt]
    cases hft : f a t' with
    | error e t'' =>
      rw [hft] at hrest
      exact hrest.imp fun _ => htrans hrelated
    | ok b t'' =>
      rw [hft] at hrest
      exact hrest.imp fun _ h => ⟨htrans hrelated h.1, h.2⟩

/-- A step that comes to the same as another one in a related state. -/
lemma Ensures.of_run {y : EStateM ε σ α} {t' : σ} {g' : γ} (hrun : x t = y t')
    (htrans : ∀ {t'' g''}, related t' g' t'' g'' → related t g t'' g'')
    (hy : Ensures related y t' g' Q) : Ensures related x t g Q := by
  rw [Ensures] at hy ⊢
  rw [hrun]
  cases hyt : y t' with
  | ok a t'' =>
    rw [hyt] at hy
    exact hy.imp fun _ h => ⟨htrans h.1, h.2⟩
  | error e t'' =>
    rw [hyt] at hy
    exact hy.imp fun _ => htrans

/-- To answer without a step leads nowhere. -/
lemma Ensures.pure {a : α} (hrefl : related t g t g) (hQ : Q a t g) :
    Ensures related (pure a : EStateM ε σ α) t g Q :=
  ⟨g, hrefl, hQ⟩

/-- An error by another name makes no difference. -/
lemma Ensures.adaptExcept {ε' : Type} (h : Ensures related x t g Q) (f : ε → ε') :
    Ensures related (x.adaptExcept f) t g Q := by
  rw [Ensures] at h ⊢
  unfold EStateM.adaptExcept
  cases hx : x t <;> rw [hx] at h <;> exact h

end Ensures

/-! ### What steps maintain -/

section Maintains

variable {ε σ α β : Type} {P : σ → Prop}

/-- Whether a step keeps a property of the state, also when it is refused. -/
def Maintains (P : σ → Prop) (x : EStateM ε σ α) : Prop :=
  ∀ ⦃t⦄, P t → P (stateAfter (x t))

/-- To answer without a step keeps everything. -/
lemma Maintains.pure (a : α) : Maintains P (pure a : EStateM ε σ α) :=
  fun _ => id

/-- So does a refusal. -/
lemma Maintains.throw (e : ε) : Maintains P (throw e : EStateM ε σ α) :=
  fun _ => id

/-- One step after the other keeps what each of them keeps. -/
lemma Maintains.bind {x : EStateM ε σ α} {f : α → EStateM ε σ β} (hx : Maintains P x)
    (hf : ∀ a, Maintains P (f a)) : Maintains P (x >>= f) := by
  intro t ht
  have hfirst := hx ht
  cases hrun : x t with
  | error e t' =>
    rw [run_bind_of_error hrun]
    rwa [hrun] at hfirst
  | ok a t' =>
    rw [run_bind_of_ok hrun]
    rw [hrun] at hfirst
    exact hf a hfirst

/-- A check and what follows keep what follows keeps. -/
lemma Maintains.guard {c : Prop} [Decidable c] {e : ε} {f : β → EStateM ε σ α} {x : EStateM ε σ α}
    (hx : Maintains P x) : Maintains P (if c then MonadExcept.throw e >>= f else x) := by
  split
  · exact fun _ => id
  · exact hx

/-- What is answered makes no difference. -/
lemma Maintains.of_map {f : α → β} {x : EStateM ε σ α} (h : Maintains P (f <$> x)) :
    Maintains P x := fun t ht => by
  have hmapped := h ht
  rwa [stateAfter_map] at hmapped

/-- Nor does an error by another name. -/
lemma Maintains.adaptExcept {ε' : Type} {x : EStateM ε σ α} (hx : Maintains P x) (f : ε → ε') :
    Maintains P (x.adaptExcept f) := fun t ht => by
  have hkept := hx ht
  unfold EStateM.adaptExcept
  cases hrun : x t <;> rw [hrun] at hkept <;> exact hkept

end Maintains

/-! ### Steps that there is room for -/

section Affords

variable {ε σ α β : Type} {room : σ → ℕ} {c d : ℕ} {x : EStateM ε σ α} {t : σ}

/-- Whether a step succeeds as soon as there is room for `c` more, and takes no more than that. -/
def Affords (room : σ → ℕ) (c : ℕ) (x : EStateM ε σ α) (t : σ) : Prop :=
  c ≤ room t → ∃ a t', x t = .ok a t' ∧ room t ≤ room t' + c

/-- A step that succeeds and takes nothing. -/
lemma Affords.of_ok {a : α} {t' : σ} (hok : x t = .ok a t') (hroom : room t ≤ room t') :
    Affords room 0 x t :=
  fun _ => ⟨a, t', hok, hroom⟩

/-- To answer without a step takes nothing. -/
lemma Affords.pure (a : α) : Affords room 0 (pure a : EStateM ε σ α) t :=
  .of_ok rfl (Nat.le_refl _)

/-- There may be more room than a step takes. -/
lemma Affords.mono (h : Affords room c x t) (hle : c ≤ d) : Affords room d x t := fun hroom => by
  obtain ⟨a, t', hok, htaken⟩ := h (Nat.le_trans hle hroom)
  exact ⟨a, t', hok, by omega⟩

/-- Two steps take what each of them takes. -/
lemma Affords.bind {f : α → EStateM ε σ β} (hx : Affords room c x t)
    (hf : ∀ a t', x t = .ok a t' → Affords room d (f a) t') : Affords room (c + d) (x >>= f) t := by
  intro hroom
  obtain ⟨a, t', hok, htaken⟩ := hx (by omega)
  obtain ⟨b, t'', hok', htaken'⟩ := hf a t' hok (by omega)
  exact ⟨b, t'', (run_bind_of_ok hok).trans hok', by omega⟩

/-- A step that takes nothing, and what follows. -/
lemma Affords.bind_free {f : α → EStateM ε σ β} (hx : Affords room 0 x t)
    (hf : ∀ a t', x t = .ok a t' → Affords room d (f a) t') : Affords room d (x >>= f) t :=
  (hx.bind hf).mono (by omega)

/-- A step that is known to succeed and takes nothing, and what follows. -/
lemma Affords.bind_of_ok {f : α → EStateM ε σ β} {a : α} {t' : σ} (hok : x t = .ok a t')
    (hroom : room t ≤ room t') (hf : Affords room d (f a) t') : Affords room d (x >>= f) t :=
  (Affords.of_ok hok hroom).bind_free fun b u hok' => by
    obtain ⟨rfl, rfl⟩ := EStateM.Result.ok.inj (hok.symm.trans hok')
    exact hf

/-- An error by another name makes no difference. -/
lemma Affords.adaptExcept {ε' : Type} (hx : Affords room c x t) (f : ε → ε') :
    Affords room c (x.adaptExcept f) t := fun hroom => by
  obtain ⟨a, t', hok, htaken⟩ := hx hroom
  refine ⟨a, t', ?_, htaken⟩
  unfold EStateM.adaptExcept
  rw [hok]

end Affords

/-! ### Mapping -/

/-- Mapping a list succeeds just when each element does. -/
lemma mapM_eq_ok_iff {α β ε : Type} (f : α → Except ε β) (xs : List α) (ys : List β) :
    xs.mapM f = .ok ys ↔ List.Forall₂ (fun x y => f x = .ok y) xs ys := by
  induction xs generalizing ys with
  | nil => simp [pure, Except.pure, eq_comm]
  | cons x xs ih =>
    rw [List.mapM_cons, bind_eq_ok_iff, List.forall₂_cons_left_iff]
    refine exists_congr fun y => ?_
    rw [bind_eq_ok_iff]
    simp [ih, pure, Except.pure, eq_comm]

/-- Mapping an array is mapping the list of its elements. -/
lemma array_mapM_eq_ok_iff_forall₂ {α β ε : Type} (f : α → Except ε β) (xs : Array α)
    (ys : Array β) :
    xs.mapM f = .ok ys ↔ List.Forall₂ (fun x y => f x = .ok y) xs.toList ys.toList := by
  rw [← mapM_eq_ok_iff, Array.mapM_eq_mapM_toList]
  cases hxs : xs.toList.mapM f with
  | error e => simp [Functor.map, Except.map]
  | ok rest =>
    simp only [Functor.map, Except.map, Except.ok.injEq]
    exact ⟨fun h => h ▸ rfl, fun h => h ▸ rfl⟩

/-- Mapping an array succeeds just when each element does, and the results keep their places. -/
lemma array_mapM_eq_ok_iff {α β ε : Type} (f : α → Except ε β) (xs : Array α) (ys : Array β) :
    xs.mapM f = .ok ys ↔ ys.size = xs.size ∧
      ∀ (k : ℕ) (x : α), xs[k]? = some x → ∃ y, f x = .ok y ∧ ys[k]? = some y := by
  rw [array_mapM_eq_ok_iff_forall₂, List.forall₂_iff_get]
  constructor
  · rintro ⟨hsize, hget⟩
    have hsize' : ys.size = xs.size := by simpa using hsize.symm
    refine ⟨hsize', fun k x hx => ?_⟩
    obtain ⟨hk, rfl⟩ := Array.getElem?_eq_some_iff.mp hx
    have hk' : k < ys.size := hsize'.symm ▸ hk
    exact ⟨ys[k], hget k hk hk', Array.getElem?_eq_getElem hk'⟩
  · rintro ⟨hsize, hget⟩
    refine ⟨by simpa using hsize.symm, fun k hk hk' => ?_⟩
    obtain ⟨y, hok, hyk⟩ := hget k _ (Array.getElem?_eq_getElem hk)
    obtain ⟨_, rfl⟩ := Array.getElem?_eq_some_iff.mp hyk
    exact hok

/-- When each element of an array succeeds, so does mapping it. -/
lemma exists_array_mapM {α β ε : Type} {f : α → Except ε β} {xs : Array α}
    (h : ∀ x ∈ xs, ∃ y, f x = .ok y) : ∃ ys, xs.mapM f = .ok ys := by
  have hlist : ∀ xs : List α, (∀ x ∈ xs, ∃ y, f x = .ok y) →
      ∃ ys, List.Forall₂ (fun x y => f x = .ok y) xs ys := by
    intro xs h
    induction xs with
    | nil => exact ⟨[], .nil⟩
    | cons x xs ih =>
      obtain ⟨y, hy⟩ := h x List.mem_cons_self
      obtain ⟨ys, hys⟩ := ih fun x hx => h x (List.mem_cons_of_mem _ hx)
      exact ⟨y :: ys, .cons hy hys⟩
  obtain ⟨ys, hys⟩ := hlist xs.toList fun x hx => h x (by simpa using hx)
  exact ⟨ys.toArray, (array_mapM_eq_ok_iff_forall₂ f xs ys.toArray).mpr hys⟩

end TalkMachine
