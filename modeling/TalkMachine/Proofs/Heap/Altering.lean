import TalkMachine.Proofs.Heap.Slots

/-!
# What a change may alter

`ObjectMap.Alters` bounds a change: it says which objects the change may have stored into, by their
names and class indices, and of which class indices the objects are that it has made. All other
objects are as they were, and immutable ones are so in any case. The operations of the heap come with
such bounds also when they are refused (`Heap.ensures_allocate`, `Heap.ensures_store`); an object that
is made of bytes holds just these bytes, or nothing has happened (`Heap.allocateBytes_cases`).
-/

namespace TalkMachine

namespace ObjectMap

variable {s s' s'' : ObjectMap} {name : Value} {o o' : Object} {values : List Value}
  {allowed allowed' : Value → ℕ → Prop} {made made' : ℕ → Prop}

/-- Whether a change has stored into mutable objects only for which this was allowed, by name and
class index, and has made objects of certain class indices only. -/
structure Alters (allowed : Value → ℕ → Prop) (made : ℕ → Prop) (s s' : ObjectMap) : Prop where
  limit_eq : s'.limit = s.limit
  nil_eq : s'.nil = s.nil
  fills : s.Fills → s'.Fills
  kept : ∀ {name : Value} {o : Object}, s.objects name = some o →
    ∃ o', s'.objects name = some o' ∧ o.SameShape o' ∧ o'.flags = o.flags ∧
      (o' = o ∨ allowed name o.classIndex ∧ o.flags.immutable = false)
  new : ∀ {name : Value} {o' : Object}, s'.objects name = some o' → s.objects name = none →
    made o'.classIndex

namespace Alters

/-- Nothing is changed. -/
lemma refl (s : ObjectMap) : s.Alters allowed made s :=
  ⟨rfl, rfl, id, fun ho => ⟨_, ho, .refl _, rfl, .inl rfl⟩, fun ho hnone => by
    rw [hnone] at ho
    cases ho⟩

/-- One change after the other. -/
lemma trans (h : s.Alters allowed made s') (h' : s'.Alters allowed made s'') :
    s.Alters allowed made s'' := by
  refine ⟨h'.limit_eq.trans h.limit_eq, h'.nil_eq.trans h.nil_eq,
    fun fills => h'.fills (h.fills fills), fun {name o} ho => ?_, fun {name o''} ho'' hnone => ?_⟩
  · obtain ⟨o', ho', hshape, hflags, hcase⟩ := h.kept ho
    obtain ⟨o'', ho'', hshape', hflags', hcase'⟩ := h'.kept ho'
    refine ⟨o'', ho'', hshape.trans hshape', hflags'.trans hflags, ?_⟩
    rcases hcase with rfl | hcase
    · exact hcase'
    · exact .inr hcase
  · cases ho' : s'.objects name with
    | none => exact h'.new ho'' ho'
    | some o' =>
      obtain ⟨_, hsame, hshape, -⟩ := h'.kept ho'
      obtain rfl := Option.some.inj (ho''.symm.trans hsame)
      exact hshape.classIndex ▸ h.new ho' hnone

/-- What is allowed for the objects from before may be said in other words. -/
lemma mono (h : s.Alters allowed made s')
    (hallowed : ∀ {name o}, s.objects name = some o → allowed name o.classIndex →
      allowed' name o.classIndex) (hmade : ∀ index, made index → made' index) :
    s.Alters allowed' made' s' := by
  refine ⟨h.limit_eq, h.nil_eq, h.fills, fun {name o} ho => ?_,
    fun ho hnone => hmade _ (h.new ho hnone)⟩
  obtain ⟨o', ho', hshape, hflags, hcase⟩ := h.kept ho
  exact ⟨o', ho', hshape, hflags, hcase.imp_right fun hcase => ⟨hallowed ho hcase.1, hcase.2⟩⟩

/-- Objects keep their shape. -/
lemma toKeeps (h : s.Alters allowed made s') : s.Keeps s' := by
  refine ⟨h.nil_eq, fun {name o} ho => ?_, h.fills⟩
  obtain ⟨o', ho', hshape, -⟩ := h.kept ho
  exact ⟨o', ho', hshape⟩

/-- An object that nothing may be stored into stays as it is. -/
lemma objects_eq (h : s.Alters allowed made s') (ho : s.objects name = some o)
    (hnot : allowed name o.classIndex → o.flags.immutable = true) : s'.objects name = some o := by
  obtain ⟨o', ho', -, -, rfl | ⟨hallowed, hmutable⟩⟩ := h.kept ho
  · exact ho'
  · rw [hnot hallowed] at hmutable
    cases hmutable

/-- An object that is made. -/
lemma put_new (hnone : s.objects name = none) (hmade : made o.classIndex) {used : ℕ}
    (hfills : s.Fills → { s.put name o with used := used }.Fills) :
    s.Alters allowed made { s.put name o with used := used } := by
  refine ⟨rfl, rfl, hfills, fun {other p} hp => ⟨p, (follows_put_of_none hnone o used).same hp nofun,
    .refl p, rfl, .inl rfl⟩, fun {other p} hp hother => ?_⟩
  rcases objects_put_cases hp with ⟨-, rfl⟩ | ⟨-, hold⟩
  · exact hmade
  · rw [hother] at hold
    cases hold

/-- An object that is stored into. -/
lemma put (ho : s.objects name = some o) (hshape : o.SameShape o') (hflags : o'.flags = o.flags)
    (hallowed : allowed name o.classIndex) (hmutable : o.flags.immutable = false) :
    s.Alters allowed made (s.put name o') := by
  refine ⟨rfl, rfl, fun fills => fills.put ho hshape, fun {other p} hp => ?_,
    fun {other p} hp hother => ?_⟩
  · by_cases hsame : other = name
    · subst hsame
      obtain rfl := Option.some.inj (ho.symm.trans hp)
      exact ⟨o', objects_put_self s other o', hshape, hflags, .inr ⟨hallowed, hmutable⟩⟩
    · exact ⟨p, (objects_put_of_ne s hsame o').trans hp, .refl p, rfl, .inl rfl⟩
  · rcases objects_put_cases hp with ⟨rfl, -⟩ | ⟨-, hold⟩
    · rw [ho] at hother
      cases hother
    · rw [hother] at hold
      cases hold

end Alters

end ObjectMap

/-! ### Bytes of a new object -/

namespace Object

/-- Bytes that are stored into a new object for as many are what it holds. -/
lemma exists_storeBytes_fresh (name : Value) (contents : List UInt8) (classIndex hash : ℕ)
    (fill : UInt64) {o : Object}
    (ho : o = ObjectMap.fresh 0 contents.length .indexable8 classIndex hash fill) :
    ∃ o', o.storeBytes name 0 contents = .ok (contents.length, o') ∧ o.SameShape o' ∧
      o'.flags = .none ∧ o'.bytes name = .ok contents := by
  have hcount : o.byteCount = contents.length := ho ▸ Heap.byteCount_fresh _ _ _ _ _ rfl
  have hbytes : o.format.isBytes = true := ho ▸ rfl
  have hfitting : contents.take (o.byteCount - 0) = contents := by
    rw [hcount, Nat.sub_zero, List.take_length]
  have hstore : o.storeBytes name 0 contents = .ok (contents.length, o.overwrite 0 contents) := by
    rw [storeBytes, hbytes]
    simp only [hfitting]
    rw [if_neg (by rw [ho]; exact Bool.false_ne_true)]
    rfl
  have hlength : (o.overwrite 0 contents).body.length = o.body.length :=
    (sameShape_storeBytes hstore).length
  refine ⟨_, hstore, sameShape_storeBytes hstore, ho ▸ rfl, ?_⟩
  have hcount' : (o.overwrite 0 contents).byteCount = contents.length := by
    rw [byteCount, hlength, ← hcount]
    rfl
  have hbytes' : (o.overwrite 0 contents).format.isBytes = true := hbytes
  rw [bytes, if_pos hbytes', hcount']
  simp [overwrite]

end Object

namespace Heap

open ObjectMap

variable {h h' : Heap} {s s' s'' : ObjectMap} {name value : Value} {o : Object}
  {allowed : Value → ℕ → Prop} {made : ℕ → Prop}

/-! ### One step, whatever it leads to -/

/-- Allocation leads along a relation that holds when nothing has happened and when a fresh object has
been put under a new name. -/
lemma ensures_allocate {related : Heap → ObjectMap → Heap → ObjectMap → Prop}
    {Q : Value → Heap → ObjectMap → Prop} (rep : h.Represents s) {fixed indexed classIndex : ℕ}
    {format : ObjectFormat} (hash : Option ℕ) (hrefl : related h s h s)
    (hok : ∀ {h' name address used}, classIndex ≤ Header.maxClassIndex → s.objects name = none →
      (s.Fills → { s.put name (fresh fixed indexed format classIndex (hash.getD address)
        (if format.isPointers then s.nil.raw else 0)) with used := used }.Fills) →
      h'.Represents { s.put name (fresh fixed indexed format classIndex (hash.getD address)
        (if format.isPointers then s.nil.raw else 0)) with used := used } →
      related h s h' { s.put name (fresh fixed indexed format classIndex (hash.getD address)
        (if format.isPointers then s.nil.raw else 0)) with used := used } ∧
      Q name h' { s.put name (fresh fixed indexed format classIndex (hash.getD address)
        (if format.isPointers then s.nil.raw else 0)) with used := used }) :
    Ensures related (allocate fixed indexed format classIndex hash) h s Q := by
  rw [Ensures]
  cases hallocate : allocate fixed indexed format classIndex hash h with
  | error e h' =>
    obtain rfl := Heap.state_eq_of_allocate_error hallocate
    exact ⟨s, hrefl⟩
  | ok name h' =>
    obtain ⟨hclass, hnone, address, used, s', rfl, rep', hfills⟩ :=
      exists_fresh_of_allocate rep hallocate
    exact ⟨_, hok hclass hnone hfills rep'⟩

/-- A change of one object leads along a relation that holds when nothing has happened and when the
object has been changed. -/
lemma ensures_change {related : Heap → ObjectMap → Heap → ObjectMap → Prop} {α : Type}
    {Q : α → Heap → ObjectMap → Prop} {x : HeapM α}
    {f : Object → Except HeapError (α × Object)} (ho : s.objects name = some o)
    (hagree : Agree (x h) (ObjectMap.change name f s))
    (hrefl : ∀ {h'}, h'.Represents s → related h s h' s)
    (hok : ∀ {a o' h'}, f o = .ok (a, o') → h'.Represents (s.put name o') →
      related h s h' (s.put name o') ∧ Q a h' (s.put name o')) : Ensures related x h s Q := by
  rw [Ensures]
  rw [ObjectMap.change, ho] at hagree
  cases hx : x h with
  | error e h' =>
    rw [hx] at hagree
    cases hfo : f o with
    | ok result => simp only [hfo, Agree] at hagree
    | error e' =>
      simp only [hfo] at hagree
      exact ⟨s, hrefl hagree.2⟩
  | ok a h' =>
    rw [hx] at hagree
    cases hfo : f o with
    | error e' => simp only [hfo, Agree] at hagree
    | ok result =>
      obtain ⟨a', o'⟩ := result
      simp only [hfo] at hagree
      obtain ⟨rfl, rep'⟩ := hagree
      exact ⟨s.put name o', hok hfo rep'⟩

/-! ### Bounded changes -/

/-- Whether a heap represents objects that have been altered within bounds. -/
structure Altered (allowed : Value → ℕ → Prop) (made : ℕ → Prop) (s : ObjectMap) (h' : Heap)
    (s' : ObjectMap) : Prop where
  rep : h'.Represents s'
  alters : s.Alters allowed made s'

/-- Nothing is changed. -/
lemma Altered.refl (rep : h.Represents s) : Altered allowed made s h s :=
  ⟨rep, .refl s⟩

/-- One change after the other. -/
lemma Altered.trans {h'' : Heap} (ha : Altered allowed made s h' s')
    (ha' : Altered allowed made s' h'' s'') : Altered allowed made s h'' s'' :=
  ⟨ha'.rep, ha.alters.trans ha'.alters⟩

/-- Whether a change to a heap stays within bounds, also if it is refused, and what it answers has a
property together with the objects then. -/
def StaysWithin {ε α : Type} (allowed : Value → ℕ → Prop) (made : ℕ → Prop) (x : EStateM ε Heap α)
    (h : Heap) (s : ObjectMap) (Q : α → ObjectMap → Prop) : Prop :=
  Ensures (fun _ s h' s' => Altered allowed made s h' s') x h s fun a _ s' => Q a s'

namespace StaysWithin

variable {ε α β : Type} {x : EStateM ε Heap α} {Q : α → ObjectMap → Prop}

/-- One change after the other. -/
lemma bind {f : α → EStateM ε Heap β} {R : β → ObjectMap → Prop}
    (hx : StaysWithin allowed made x h s Q) (hf : ∀ a h' s', Altered allowed made s h' s' →
      Q a s' → StaysWithin allowed made (f a) h' s' R) :
    StaysWithin allowed made (x >>= f) h s R :=
  Ensures.bind (fun ha ha' => ha.trans ha') hx hf

/-- An answer without a change. -/
lemma pure {a : α} (rep : h.Represents s) (hQ : Q a s) :
    StaysWithin allowed made (pure a : EStateM ε Heap α) h s Q :=
  Ensures.pure (.refl rep) hQ

/-- A weaker property of the answer. -/
lemma imp (hx : StaysWithin allowed made x h s Q) {R : α → ObjectMap → Prop}
    (hR : ∀ a s', s.Alters allowed made s' → Q a s' → R a s') :
    StaysWithin allowed made x h s R :=
  Ensures.imp hx fun a _ s' ha hQ => hR a s' ha.alters hQ

end StaysWithin

/-- Allocation makes one object. -/
lemma staysWithin_allocate (rep : h.Represents s) (fixed indexed : ℕ) (format : ObjectFormat)
    {classIndex : ℕ} (hash : Option ℕ) (hmade : made classIndex) :
    StaysWithin allowed made (allocate fixed indexed format classIndex hash) h s fun name s' =>
      classIndex ≤ Header.maxClassIndex ∧ s.objects name = none ∧ ∃ address,
        s'.objects name = some (fresh fixed indexed format classIndex (hash.getD address)
          (if format.isPointers then s.nil.raw else 0)) :=
  ensures_allocate rep hash (.refl rep) fun {_ _ address _} hclass hnone hfills rep' =>
    ⟨⟨rep', .put_new hnone hmade hfills⟩, hclass, hnone, address, objects_put_self s _ _⟩

/-- A store changes one object, which is mutable. -/
lemma mutable_of_storeWord {o' : Object} {index : ℕ} {word : UInt64}
    (hok : o.storeWord name index word = .ok ((), o')) : o.flags.immutable = false := by
  rw [Object.storeWord] at hok
  split at hok
  · cases hok
  · exact Bool.eq_false_iff.mpr ‹_›

/-- A store stays within bounds when it is allowed. -/
lemma staysWithin_store (rep : h.Represents s) (ho : s.objects name = some o)
    (hallowed : allowed name o.classIndex) (index : ℕ) (value : Value) :
    StaysWithin allowed made (store name index value) h s fun _ s' =>
      ∃ o', o.storeWord name index value.raw = .ok ((), o') ∧ s' = s.put name o' :=
  ensures_change ho (agree_store rep ho index value) .refl fun hok rep' =>
    ⟨⟨rep', .put ho (Object.sameShape_storeWord hok) (Object.flags_storeWord hok) hallowed
      (mutable_of_storeWord hok)⟩, _, hok, rfl⟩

/-- A store of a byte stays within bounds when it is allowed. -/
lemma staysWithin_storeByte (rep : h.Represents s) (ho : s.objects name = some o)
    (hallowed : allowed name o.classIndex) (index : ℕ) (byte : UInt8) :
    StaysWithin allowed made (storeByte name index byte) h s fun _ _ => True := by
  refine ensures_change ho (agree_storeByte rep ho index byte) .refl fun {_ o' _} hok rep' => ?_
  have hshape := Object.sameShape_storeByte hok
  obtain ⟨hmutable, -, -, rfl⟩ := Object.storeByte_eq_ok_iff.mp hok
  exact ⟨⟨rep', .put ho hshape rfl hallowed hmutable⟩, trivial⟩

/-! ### Bytes -/

/-- To allocate bytes makes one object that holds them, or does nothing because the room is not
left. -/
lemma allocateBytes_cases (rep : h.Represents s) (contents : List UInt8) {classIndex : ℕ}
    (hclass : classIndex ≤ Header.maxClassIndex) :
    (∃ requested limit, allocateBytes contents .indexable8 classIndex h =
      .error (.outOfMemory requested limit) h) ∨
    ∃ name h' used o s', allocateBytes contents .indexable8 classIndex h = .ok name h' ∧
      h'.Represents s' ∧ s.objects name = none ∧ s' = { s.put name o with used := used } ∧
      (s.Fills → s'.Fills) ∧ o.classIndex = classIndex ∧ o.flags = .none ∧
      o.bytes name = .ok contents := by
  cases hallocate : allocate 0 contents.length .indexable8 classIndex none h with
  | error e h' =>
    obtain rfl := Heap.state_eq_of_allocate_error hallocate
    obtain ⟨requested, limit, rfl⟩ : ∃ requested limit, e = .outOfMemory requested limit := by
      rw [allocate, if_neg (Nat.not_lt.mpr hclass)] at hallocate
      simp only [ObjectFormat.admits, beq_self_eq_true, Bool.not_true, Bool.false_eq_true,
        if_false] at hallocate
      split at hallocate <;> cases hallocate
      exact ⟨_, _, rfl⟩
    exact .inl ⟨requested, limit, by rw [allocateBytes, run_bind_of_error hallocate]⟩
  | ok name h₁ =>
    obtain ⟨-, hnone, address, used, s₁, hs₁, rep₁, hfills₁⟩ :=
      exists_fresh_of_allocate rep hallocate
    generalize hfresh : fresh 0 contents.length .indexable8 classIndex
      ((none : Option ℕ).getD address) (if ObjectFormat.indexable8.isPointers then s.nil.raw else 0)
      = o₁ at hs₁
    have ho₁ : s₁.objects name = some o₁ := hs₁ ▸ objects_put_self s name o₁
    obtain ⟨o, hstore, hshape, hflags, hbytes⟩ :=
      Object.exists_storeBytes_fresh name contents classIndex _ _ hfresh.symm
    have hagree := agree_storeBytes rep₁ ho₁ 0 contents
    rw [ObjectMap.change, ho₁] at hagree
    simp only [hstore] at hagree
    cases hwrite : storeBytes name 0 contents h₁ with
    | error e h₂ =>
      rw [hwrite] at hagree
      exact hagree.elim
    | ok count h₂ =>
      rw [hwrite] at hagree
      have hput : s₁.put name o = { s.put name o with used := used } := by
        rw [hs₁]
        simp only [put, Function.update_idem]
      refine .inr ⟨name, h₂, used, o, _, ?_, hagree.2, hnone, hput, fun fills =>
        (hfills₁ fills).put ho₁ hshape, hshape.classIndex.trans (hfresh ▸ rfl), hflags, hbytes⟩
      rw [allocateBytes, run_bind_of_ok hallocate, run_bind_of_ok hwrite]
      rfl

end Heap

end TalkMachine
