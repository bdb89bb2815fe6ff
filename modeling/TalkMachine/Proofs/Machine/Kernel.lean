import TalkMachine.Proofs.Machine.Fresh
import TalkMachine.Proofs.Machine.Lookup
import TalkMachine.Proofs.Machine.Tracking

/-!
# The methods of a fresh machine

A fresh machine is tracked (`Machine.exists_tracks_of_new`). It begins with nil, true and false and
without classes; then it gets the kernel classes, the symbols of the special selectors and the native
methods.
-/

namespace TalkMachine

namespace Machine

variable {m m' : Machine} {s : ObjectMap} {owner : Value → Option Value}
  {methods : Value → Option ClassMethods}

/-- A symbol can be a selector. -/
lemma Tracks.isSelector_of_symbol (tracks : m.Tracks s owner methods) {name : String}
    {symbol : Value} (hsymbol : m.symbols[name]? = some symbol) : m.IsSelector symbol := by
  obtain ⟨hnil, o, ho⟩ := tracks.equipped.symbol hsymbol
  have hshows := (tracks.equipped.rep.holds ho).shows tracks.equipped.rep.usedBytes_lt
  exact ⟨tracks.equipped.nil_eq ▸ hnil, _, hshows.hash⟩

/-! ### Building the kernel -/

/-- A bare machine is tracked. -/
lemma tracks_bare {h : Heap} {nil yes no : Value} (rep : h.Represents s) (fills : s.Fills)
    (hnil : s.nil = nil) (hconstants : ∀ value ∈ [nil, yes, no], ∃ o, s.objects value = some o) :
    (bare h nil yes no).Tracks s (fun _ => none) (fun _ => none) where
  equipped :=
    { rep, nil_eq := hnil, constant := hconstants
      symbol := fun h => by simp [bare] at h
      name_eq := fun h => by simp [bare] at h
      hasMethods := fun h => by cases h
      owner_eq := fun h => by cases h
      owned := fun h => by cases h }
  complete := fun index cls h => by
    rw [classAt?_bare] at h
    cases h
  numbered := ⟨[], List.nodup_nil, rfl, List.forall_mem_nil _⟩
  fills

/-- Kernel classes are made, without methods. -/
lemma Tracks.exists_of_createKernelClasses (tracks : m.Tracks s owner methods)
    (hempty : ∀ cls own, methods cls = some own → own.puts = [])
    {kernel : List KernelClass} (hindices : ∀ k ∈ kernel, k.index < ClassIndex.firstDynamic)
    (hok : createKernelClasses kernel m = .ok () m') :
    ∃ s' owner' methods', m'.Tracks s' owner' methods' ∧
      ∀ cls own, methods' cls = some own → own.puts = [] := by
  induction kernel generalizing m s owner methods with
  | nil =>
    cases hok
    exact ⟨s, owner, methods, tracks, hempty⟩
  | cons k rest ih =>
    rw [List.forall_mem_cons] at hindices
    rw [createKernelClasses] at hok
    simp only [run_bind_eq_ok_iff, ask_eq_ok_iff] at hok
    obtain ⟨superclass, _, ⟨-, rfl⟩, cls, m₁, hcreate, hrest⟩ := hok
    obtain ⟨s₁, owner₁, metaclass, dictionary, metaDictionary, makes⟩ :=
      tracks.equipped.exists_of_createClass tracks.complete
        (hindices.1.trans_le (le_max_right _ _)) hcreate
    refine ih (tracks.of_makesPair makes) (fun other own hother => ?_) hindices.2 hrest
    rw [withNewPair, Function.update_apply, Function.update_apply] at hother
    split at hother
    · exact Option.some.inj hother ▸ rfl
    · split at hother
      · exact Option.some.inj hother ▸ rfl
      · exact hempty other own hother

/-- Linking the metaclass of Object to Class puts no methods anywhere. -/
lemma Tracks.exists_of_linkObjectMetaclass (tracks : m.Tracks s owner methods)
    (hok : linkObjectMetaclass m = .ok () m') : ∃ s', m'.Tracks s' owner methods := by
  rw [linkObjectMetaclass] at hok
  obtain ⟨⟨metaclass, classClass⟩, _, hask, hchange⟩ := run_bind_eq_ok_iff.mp hok
  obtain ⟨hanswer, rfl⟩ := ask_eq_ok_iff.mp hask
  obtain ⟨object, -, hanswer⟩ := bind_eq_ok_iff.mp hanswer
  obtain ⟨_, -, hanswer⟩ := bind_eq_ok_iff.mp hanswer
  obtain ⟨metaclass', hclassOf, hanswer⟩ := bind_eq_ok_iff.mp hanswer
  obtain ⟨rfl, -⟩ := Prod.mk.inj (Except.ok.inj hanswer)
  obtain ⟨index, hat⟩ := exists_classAt?_of_classOf hclassOf
  obtain ⟨own, hmetaclass⟩ := tracks.complete index _ hat
  obtain ⟨h', hstore, rfl⟩ := change_eq_ok_iff.mp hchange
  obtain ⟨s', equipped', hretains⟩ := tracks.equipped.exists_of_store hmetaclass (by decide) hstore
  exact ⟨s', equipped', tracks.complete, tracks.numbered.keep rfl hretains.toKeeps,
    hretains.fills tracks.fills⟩

/-- Special selectors get symbols, and no methods are put anywhere. -/
lemma Tracks.exists_of_internSpecialSelectors (tracks : m.Tracks s owner methods)
    {selectors : List SpecialSelector} (hok : internSpecialSelectors selectors m = .ok () m') :
    ∃ s', m'.Tracks s' owner methods ∧ m.Remembers m' ∧
      ∀ selector ∈ selectors, ∃ symbol, m'.symbols[selector.name]? = some symbol := by
  induction selectors generalizing m s with
  | nil =>
    cases hok
    exact ⟨s, tracks, .refl _, List.forall_mem_nil _⟩
  | cons selector rest ih =>
    rw [internSpecialSelectors] at hok
    simp only [run_bind_eq_ok_iff] at hok
    obtain ⟨symbol, m₁, hintern, _, m₂, henter, hrest⟩ := hok
    obtain ⟨s₁, tracks₁, remembers₁, -, hsymbol⟩ := tracks.exists_of_intern hintern
    cases henter
    have tracks₂ : ({ m₁ with specialSelectors := m₁.specialSelectors.push symbol } : Machine).Tracks
        s₁ owner methods :=
      ⟨tracks₁.equipped.keep tracks₁.equipped.rep (.refl [] s₁) (List.forall_mem_nil _) rfl rfl,
        tracks₁.complete, tracks₁.numbered, tracks₁.fills⟩
    obtain ⟨s', tracks', remembers', hsymbols⟩ := ih tracks₂ hrest
    have remembers₂ : m₁.Remembers { m₁ with specialSelectors := m₁.specialSelectors.push symbol } :=
      ⟨rfl, rfl, id, id⟩
    exact ⟨s', tracks', (remembers₁.trans remembers₂).trans remembers',
      List.forall_mem_cons.mpr ⟨⟨symbol, remembers'.symbol hsymbol⟩, hsymbols⟩⟩

/-- Native methods are put into the kernel classes. -/
lemma Tracks.exists_of_installKernelNatives (tracks : m.Tracks s owner methods)
    {table : List (ℕ × List NativeEntry)} (hok : installKernelNatives table m = .ok () m') :
    ∃ s' owner' methods', m'.Tracks s' owner' methods' ∧ m.Remembers m' := by
  induction table generalizing m s owner methods with
  | nil =>
    cases hok
    exact ⟨s, owner, methods, tracks, .refl _⟩
  | cons row rest ih =>
    obtain ⟨index, entries⟩ := row
    rw [installKernelNatives] at hok
    simp only [run_bind_eq_ok_iff, ask_eq_ok_iff] at hok
    obtain ⟨cls, _, ⟨-, rfl⟩, _, m₁, hinstall, hrest⟩ := hok
    obtain ⟨s₁, owner₁, own, new, -, tracks₁, installs⟩ := tracks.exists_of_installNatives hinstall
    obtain ⟨s', owner', methods', tracks', remembers'⟩ := ih tracks₁ hrest
    exact ⟨s', owner', methods', tracks', installs.remembers.trans remembers'⟩

/-! ### The fresh machine -/

/-- Before a fresh machine gets its native methods, it is tracked, none of its classes has methods, and
its special selectors have symbols. -/
lemma exists_tracks_before_natives {limit : ℕ} (hlimit : limit < 2 ^ 64)
    (hnew : Machine.new limit = .ok m) :
    ∃ m₀ s owner methods, m₀.Tracks s owner methods ∧
      (∀ cls own, methods cls = some own → own.puts = []) ∧
      (∀ selector ∈ SpecialSelector.all, ∃ symbol, m₀.symbols[selector.name]? = some symbol) ∧
      installKernelNatives NativeTable.kernel m₀ = .ok () m := by
  obtain ⟨nil, yes, no, h, hconstants, hboot⟩ := new_eq_ok_iff.mp hnew
  obtain ⟨s, rep, -, fills, hnil, hobjects⟩ := exists_of_allocateConstants hlimit hconstants
  have tracks₀ := tracks_bare rep fills hnil hobjects
  rw [bootstrap] at hboot
  simp only [run_bind_eq_ok_iff] at hboot
  obtain ⟨_, m₁, hkernel, _, m₂, hlink, _, m₃, hselectors, hnatives⟩ := hboot
  obtain ⟨s₁, owner₁, methods₁, tracks₁, hempty⟩ :=
    tracks₀.exists_of_createKernelClasses (fun _ _ h => by cases h) (by decide) hkernel
  obtain ⟨s₂, tracks₂⟩ := tracks₁.exists_of_linkObjectMetaclass hlink
  obtain ⟨s₃, tracks₃, -, hsymbols⟩ := tracks₂.exists_of_internSpecialSelectors hselectors
  exact ⟨m₃, s₃, owner₁, methods₁, tracks₃, hempty, hsymbols, hnatives⟩

/-- A fresh machine is tracked. -/
theorem exists_tracks_of_new {limit : ℕ} (hlimit : limit < 2 ^ 64)
    (hnew : Machine.new limit = .ok m) : ∃ s owner methods, m.Tracks s owner methods := by
  obtain ⟨m₀, s₀, owner₀, methods₀, tracks, -, -, hnatives⟩ := exists_tracks_before_natives hlimit hnew
  obtain ⟨s, owner, methods, tracks', -⟩ := tracks.exists_of_installKernelNatives hnatives
  exact ⟨s, owner, methods, tracks'⟩

end Machine

end TalkMachine
