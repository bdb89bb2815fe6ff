import TalkMachine.Proofs.Heap.Filling

/-!
# Objects made of slots

`ObjectMap.HasSlots` is the view that clients of the heap have of an object whose body holds values:
the list of these values. Reading is answered from the list, a store that was not refused replaces
one element, and a fresh object is a list of nils. Any operation that does not store into the object
keeps the list, and every operation keeps the identity hashes of all objects (`ObjectMap.Keeps`).
-/

namespace TalkMachine

/-! ### Bodies as lists of values -/

namespace Object

/-- Whether an object holds pointers, and these are its slots. -/
structure HasSlots (o : Object) (values : List Value) : Prop where
  isPointers : o.format.isPointers = true
  length : o.slotCount = values.length
  word : ∀ {index : ℕ} {value : Value}, values[index]? = some value → ⟨o.word index⟩ = value

variable {o o' : Object} {name : Value} {values : List Value}

/-- A slot is read from the list. -/
lemma HasSlots.fetch_eq (h : o.HasSlots values) {index : ℕ} {value : Value}
    (hvalue : values[index]? = some value) : o.fetch name index = .ok value := by
  obtain ⟨hindex, -⟩ := List.getElem?_eq_some_iff.mp hvalue
  rw [fetch, if_neg (by rw [h.length]; omega), h.word hvalue]

/-- An object with the same body and format has the same slots. -/
lemma HasSlots.congr (h : o.HasSlots values) (hformat : o'.format = o.format)
    (hbody : o'.body = o.body) : o'.HasSlots values := by
  refine ⟨hformat ▸ h.isPointers, ?_, fun hvalue => ?_⟩
  · rw [slotCount, hbody]
    exact h.length
  · rw [Object.word, hbody]
    exact h.word hvalue

/-- A store that is not refused replaces one slot. -/
lemma HasSlots.storeWord (h : o.HasSlots values) (hwell : o.WellFormed) {index : ℕ} {value : Value}
    (hok : o.storeWord name index value.raw = .ok ((), o')) :
    index < values.length ∧ o'.HasSlots (values.set index value) := by
  have hshape := sameShape_storeWord hok
  have hslots : o'.slotCount = o.slotCount := by rw [slotCount, slotCount, hshape.length]
  have hindex : index < values.length := by
    have hfound := fetch_storeWord hwell hok index
    rw [if_pos rfl, fetch] at hfound
    split at hfound
    · cases hfound
    · rw [← h.length, ← hslots]
      omega
  refine ⟨hindex, hshape.format ▸ h.isPointers, by rw [hslots, h.length, List.length_set], ?_⟩
  intro other found hfound
  obtain ⟨hother, -⟩ := List.getElem?_eq_some_iff.mp hfound
  rw [List.length_set] at hother
  have hword : o'.fetch name other = .ok ⟨o'.word other⟩ := by
    rw [fetch, if_neg (by rw [hslots, h.length]; omega)]
  rw [fetch_storeWord hwell hok] at hword
  rw [List.getElem?_set] at hfound
  by_cases hsame : other = index
  · rw [if_pos hsame.symm, if_pos hindex] at hfound
    rw [if_pos hsame] at hword
    exact (Except.ok.inj hword).symm.trans (Option.some.inj hfound)
  · rw [if_neg (Ne.symm hsame)] at hfound
    rw [if_neg hsame, h.fetch_eq hfound] at hword
    exact (Except.ok.inj hword).symm

/-- A store keeps the flags. -/
lemma flags_storeWord {index : ℕ} {word : UInt64}
    (hok : o.storeWord name index word = .ok ((), o')) : o'.flags = o.flags := by
  rw [storeWord] at hok
  split at hok
  · cases hok
  · split at hok <;> cases hok
    rfl

/-- The slots of a fresh object that holds pointers are all the same. -/
lemma hasSlots_fresh {fixed indexed : ℕ} {format : ObjectFormat} {classIndex hash : ℕ}
    (fill : Value) (hpointers : format.isPointers = true)
    (hclass : classIndex ≤ Header.maxClassIndex) :
    (ObjectMap.fresh fixed indexed format classIndex hash fill.raw).HasSlots
      (List.replicate (fixed + format.slotsFor indexed) fill) := by
  have hslots := Heap.slotCount_fresh fixed indexed format classIndex hash fill.raw
  refine ⟨hpointers, by rw [hslots, List.length_replicate], fun {index value} hvalue => ?_⟩
  obtain ⟨hindex, rfl⟩ := List.getElem?_eq_some_iff.mp hvalue
  rw [List.length_replicate] at hindex
  rw [List.getElem_replicate]
  exact congrArg Value.mk (Heap.word_fresh _ _ _ _ _ _ hclass hindex)

end Object

/-! ### Objects in a map -/

namespace ObjectMap

/-- Whether a name stands for an object that holds pointers, and these are its slots. -/
def HasSlots (s : ObjectMap) (name : Value) (values : List Value) : Prop :=
  ∃ o, s.objects name = some o ∧ o.HasSlots values

/-- Whether a value is no object, or one that has been allocated. -/
def Knows (s : ObjectMap) (value : Value) : Prop :=
  value.isImmediate = true ∨ ∃ o, s.objects value = some o

/-- What every change keeps when no other nil is set: the nil, each object in its shape, and that the
objects take up all bytes in use. -/
structure Keeps (s s' : ObjectMap) : Prop where
  nil_eq : s'.nil = s.nil
  shape : ∀ {name : Value} {o : Object}, s.objects name = some o →
    ∃ o', s'.objects name = some o' ∧ o.SameShape o'
  fills : s.Fills → s'.Fills

variable {s s' s'' : ObjectMap} {name : Value} {values : List Value}

/-- Nothing changed. -/
lemma Keeps.refl (s : ObjectMap) : s.Keeps s :=
  ⟨rfl, fun ho => ⟨_, ho, Object.SameShape.refl _⟩, id⟩

/-- One change after the other. -/
lemma Keeps.trans (h : s.Keeps s') (h' : s'.Keeps s'') : s.Keeps s'' := by
  refine ⟨h'.nil_eq.trans h.nil_eq, fun {name o} ho => ?_, fun fills => h'.fills (h.fills fills)⟩
  obtain ⟨o', ho', hshape⟩ := h.shape ho
  obtain ⟨o'', ho'', hshape'⟩ := h'.shape ho'
  exact ⟨o'', ho'', hshape.trans hshape'⟩

/-- An object with slots has another name than what stands for no object. -/
lemma HasSlots.ne_of_none (h : s.HasSlots name values) {other : Value}
    (hnone : s.objects other = none) : other ≠ name := by
  rintro rfl
  obtain ⟨o, ho, -⟩ := h
  rw [hnone] at ho
  cases ho

/-- Objects remain objects. -/
lemma Keeps.exists_object (h : s.Keeps s') {o : Object} (ho : s.objects name = some o) :
    ∃ o', s'.objects name = some o' :=
  (h.shape ho).imp fun _ => And.left

/-- Objects remain objects beside those that are new. -/
lemma Keeps.exists_object_append (h : s.Keeps s') {names new : List Value}
    (hnames : ∀ name ∈ names, ∃ o, s.objects name = some o)
    (hnew : ∀ name ∈ new, ∃ o, s'.objects name = some o) :
    ∀ name ∈ names ++ new, ∃ o, s'.objects name = some o :=
  List.forall_mem_append.mpr
    ⟨fun name hname => (hnames name hname).elim fun _ => h.exists_object, hnew⟩

/-- What is known stays known. -/
lemma Keeps.knows (h : s.Keeps s') {value : Value} (hvalue : s.Knows value) : s'.Knows value :=
  hvalue.imp_right fun ⟨_, ho⟩ => h.exists_object ho

/-- What stands for no object afterwards stood for none before. -/
lemma Keeps.objects_eq_none (h : s.Keeps s') (hnone : s'.objects name = none) :
    s.objects name = none := by
  by_contra hsome
  obtain ⟨o, ho⟩ := Option.ne_none_iff_exists'.mp hsome
  obtain ⟨o', ho', -⟩ := h.shape ho
  rw [hnone] at ho'
  cases ho'

/-- A change that keeps the slots of all objects but those listed. -/
structure KeepsBut (changed : List Value) (s s' : ObjectMap) : Prop extends s.Keeps s' where
  slots : ∀ {name : Value} {values : List Value}, name ∉ changed → s.HasSlots name values →
    s'.HasSlots name values

/-- Nothing changed. -/
lemma KeepsBut.refl (changed : List Value) (s : ObjectMap) : KeepsBut changed s s :=
  ⟨Keeps.refl s, fun _ h => h⟩

/-- One change after the other changes what either changes. -/
lemma KeepsBut.trans {changed changed' : List Value} (h : KeepsBut changed s s')
    (h' : KeepsBut changed' s' s'') (hsub : changed' ⊆ changed) : KeepsBut changed s s'' :=
  ⟨h.toKeeps.trans h'.toKeeps,
    fun hname hslots => h'.slots (fun hname' => hname (hsub hname')) (h.slots hname hslots)⟩

/-- Whether stores into an object are accepted. -/
def IsMutable (s : ObjectMap) (name : Value) : Prop :=
  ∃ o, s.objects name = some o ∧ o.flags.immutable = false

/-- A change that stores into the objects listed at most: it keeps the slots of all others, and no
object becomes immutable by it. -/
structure Retains (changed : List Value) (s s' : ObjectMap) : Prop
    extends s.KeepsBut changed s' where
  isMutable : ∀ {name : Value}, s.IsMutable name → s'.IsMutable name

/-- Nothing changed. -/
lemma Retains.refl (changed : List Value) (s : ObjectMap) : Retains changed s s :=
  ⟨.refl changed s, id⟩

/-- One change after the other. What the second one does to objects allocated by the first changes
no object from before. -/
lemma Retains.trans_new {changed changed' : List Value} (h : Retains changed s s')
    (h' : Retains changed' s' s'') (hnew : ∀ name ∈ changed', name ∈ changed ∨ s.objects name = none) :
    Retains changed s s'' := by
  refine ⟨⟨h.toKeeps.trans h'.toKeeps, fun {name values} hname hslots => ?_⟩,
    fun hmutable => h'.isMutable (h.isMutable hmutable)⟩
  refine h'.slots (fun hname' => ?_) (h.slots hname hslots)
  exact (hnew name hname').elim hname fun hnone => hslots.ne_of_none hnone rfl

/-- One change after the other changes what either changes. -/
lemma Retains.trans {changed changed' : List Value} (h : Retains changed s s')
    (h' : Retains changed' s' s'') (hsub : changed' ⊆ changed) : Retains changed s s'' :=
  h.trans_new h' fun _ hname => .inl (hsub hname)

/-- What changes some objects changes at most more of them. -/
lemma Retains.mono {changed changed' : List Value} (h : Retains changed s s')
    (hsub : changed ⊆ changed') : Retains changed' s s' :=
  (Retains.refl changed' s).trans h hsub

/-- Allocation keeps nil. -/
lemma nil_allocate (fixed indexed : ℕ) (format : ObjectFormat) (classIndex : ℕ) (hash : Option ℕ)
    (s : ObjectMap) : (stateAfter (allocate fixed indexed format classIndex hash s)).nil = s.nil := by
  cases hallocate : allocate fixed indexed format classIndex hash s with
  | error e s' => rw [state_eq_of_allocate_error hallocate, stateAfter]
  | ok name s' =>
    obtain ⟨hash', fill, used, rfl⟩ := exists_of_allocate hallocate
    rfl

/-- A change of one object keeps nil. -/
lemma nil_change {α : Type} (name : Value) (f : Object → Except HeapError (α × Object))
    (s : ObjectMap) : (stateAfter (change name f s)).nil = s.nil := by
  rw [change]
  cases s.objects name with
  | none => rfl
  | some o =>
    simp only
    cases f o <;> rfl

/-- Whether objects are some of those known before, or have been allocated since and can be stored
into. -/
def Renews (s s' : ObjectMap) (names names' : List Value) : Prop :=
  ∀ name ∈ names', name ∈ names ∨ (s.objects name = none ∧ s'.IsMutable name)

/-- All of them can be stored into if those from before could. -/
lemma Renews.isMutable {changed names names' : List Value} (h : s.Renews s' names names')
    (hretains : s.Retains changed s') (hmutable : ∀ name ∈ names, s.IsMutable name) :
    ∀ name ∈ names', s'.IsMutable name := fun name hname =>
  (h name hname).elim (fun hold => hretains.isMutable (hmutable name hold)) And.right

/-- They are so after any further change. -/
lemma Renews.retains {changed names names' : List Value} (h : s.Renews s' names names')
    (hretains : s'.Retains changed s'') : s.Renews s'' names names' := fun name hname =>
  (h name hname).imp_right fun ⟨hnone, hmutable⟩ => ⟨hnone, hretains.isMutable hmutable⟩

/-- What is then done to them changes no other object from before than those listed. -/
lemma Retains.trans_renews {changed names names' : List Value} (h : s.Retains changed s')
    (hrenews : s.Renews s' names names') (h' : s'.Retains names' s'') :
    s.Retains (changed ++ names) s'' :=
  (h.mono (List.subset_append_left _ _)).trans_new h' fun name hname =>
    (hrenews name hname).imp (List.mem_append_right _) And.left

/-- They are none of those from before if these are not listed. -/
lemma Renews.objects_eq_none {names' : List Value} (h : s.Renews s' [] names') {name : Value}
    (hname : name ∈ names') : s.objects name = none :=
  ((h name hname).resolve_left List.not_mem_nil).1

/-- A change to another object keeps the slots of this one. -/
lemma HasSlots.follows (h : s.HasSlots name values) {target? : Option Value}
    (hfollows : s.Follows target? s') (hother : target? ≠ some name) : s'.HasSlots name values :=
  have ⟨o, ho, hslots⟩ := h
  ⟨o, hfollows.same ho hother, hslots⟩

/-- Where all objects are still the same, none has changed. -/
lemma Retains.of_same (hnil : s'.nil = s.nil)
    (hsame : ∀ {name : Value} {o : Object}, s.objects name = some o → s'.objects name = some o)
    (hfills : s.Fills → s'.Fills) : Retains [] s s' :=
  ⟨⟨⟨hnil, fun ho => ⟨_, hsame ho, .refl _⟩, hfills⟩, fun _ ⟨o, ho, hslots⟩ => ⟨o, hsame ho, hslots⟩⟩,
    fun ⟨o, ho, hmutable⟩ => ⟨o, hsame ho, hmutable⟩⟩

/-- An object that is put under a new name changes no other. -/
lemma Retains.put_new (hnone : s.objects name = none) (o : Object) (used : ℕ)
    (hfills : s.Fills → { s.put name o with used := used }.Fills) :
    Retains [] s { s.put name o with used := used } :=
  .of_same rfl (fun ho => (follows_put_of_none hnone o used).same ho nofun) hfills

end ObjectMap

/-! ### On the heap -/

namespace Heap

open ObjectMap

variable {h h' : Heap} {s s' : ObjectMap} {name value : Value} {values : List Value}

/-- A slot is read from the list. -/
lemma fetch_eq_of_hasSlots (rep : h.Represents s) (hslots : s.HasSlots name values) {index : ℕ}
    (hvalue : values[index]? = some value) : h.fetch name index = .ok value := by
  obtain ⟨o, ho, hslots⟩ := hslots
  rw [((rep.holds ho).shows rep.usedBytes_lt).fetch, hslots.fetch_eq hvalue]

/-- The number of elements is that of the list. -/
lemma elementCount_eq_of_hasSlots (rep : h.Represents s) (hslots : s.HasSlots name values) :
    h.elementCount name = .ok values.length := by
  obtain ⟨o, ho, hslots⟩ := hslots
  have hshows := (rep.holds ho).shows rep.usedBytes_lt
  simp only [elementCount, hshows.format, hshows.slotCount, Bind.bind, Except.bind, pure,
    Except.pure, hslots.isPointers, if_true, hslots.length]

/-- An object has fewer slots than there are bytes in the arena. -/
lemma length_lt_of_hasSlots (rep : h.Represents s) (hslots : s.HasSlots name values) :
    8 * values.length < 2 ^ 64 := by
  obtain ⟨o, ho, hslots⟩ := hslots
  have hlt := rep.usedBytes_lt
  have hend := (rep.holds ho).fits
  have hlength := (rep.holds ho).wellFormed.length_eq
  rw [← hslots.length]
  omega

/-- A store that is not refused replaces one slot and leaves the other objects as they are. -/
lemma exists_of_store (rep : h.Represents s) (hslots : s.HasSlots name values) {index : ℕ}
    (hok : store name index value h = .ok () h') :
    ∃ s', h'.Represents s' ∧ Retains [name] s s' ∧ index < values.length ∧
      s'.HasSlots name (values.set index value) := by
  obtain ⟨o, ho, hslots⟩ := hslots
  obtain ⟨o', hstore, rep'⟩ := Agree.of_change_ok ho (hok ▸ agree_store rep ho index value)
  obtain ⟨hindex, hslots'⟩ := hslots.storeWord (rep.holds ho).wellFormed hstore
  have hfollows : s.Follows (some name) (s.put name o') := by
    have hchange := follows_change (s := s) name
      (f := fun o => o.storeWord name index value.raw) fun _ _ _ h => Object.sameShape_storeWord h
    simpa only [ObjectMap.change, ho, hstore, stateAfter] using hchange
  refine ⟨s.put name o', rep', ⟨⟨⟨rfl, hfollows.shape, fun fills => fills.of_shape rfl hfollows.shape⟩,
    fun hother hslots => ?_⟩, ?_⟩, hindex, o', objects_put_self s name o', hslots'⟩
  · exact hslots.follows hfollows fun heq => hother (by simp [Option.some.inj heq])
  · rintro other ⟨p, hp, hmutable⟩
    by_cases hsame : other = name
    · subst hsame
      obtain rfl := Option.some.inj (ho.symm.trans hp)
      exact ⟨o', objects_put_self s other o', Object.flags_storeWord hstore ▸ hmutable⟩
    · exact ⟨p, (objects_put_of_ne s hsame o').trans hp, hmutable⟩

/-- Allocation that is not refused puts a fresh object under a name that stood for nothing. -/
lemma exists_fresh_of_allocate (rep : h.Represents s) {fixed indexed classIndex : ℕ}
    {format : ObjectFormat} {hash : Option ℕ}
    (hok : allocate fixed indexed format classIndex hash h = .ok name h') :
    classIndex ≤ Header.maxClassIndex ∧ s.objects name = none ∧ ∃ address used s', s' =
      { s.put name (fresh fixed indexed format classIndex (hash.getD address)
          (if format.isPointers then s.nil.raw else 0)) with used := used } ∧
      h'.Represents s' ∧ (s.Fills → s'.Fills) := by
  obtain ⟨hagree, hnew⟩ := agree_allocate rep fixed indexed format classIndex hash
  have hfills := fun fills => fills_allocate rep fills fixed indexed format classIndex hash
  rw [hok] at hagree
  cases hallocate : ObjectMap.allocate fixed indexed format classIndex hash s with
  | error e s' =>
    rw [hallocate] at hagree
    exact hagree.elim
  | ok name' s' =>
    rw [hallocate] at hagree hfills
    obtain ⟨rfl, rep'⟩ := hagree
    obtain ⟨hclass, address, used, heq⟩ := ObjectMap.exists_fresh_of_allocate hallocate
    exact ⟨hclass, hnew name _ hallocate, address, used, s', heq, rep', hfills⟩

/-- Allocation that is not refused answers a name that stood for nothing, and leaves all objects as
they are. The slots of a new object that holds pointers are nil. -/
lemma exists_of_allocate (rep : h.Represents s) {fixed indexed classIndex : ℕ}
    {format : ObjectFormat} {hash : Option ℕ} (hpointers : format.isPointers = true)
    (hok : allocate fixed indexed format classIndex hash h = .ok name h') :
    ∃ s', h'.Represents s' ∧ Retains [] s s' ∧ s.objects name = none ∧ s'.IsMutable name ∧
      s'.HasSlots name (List.replicate (fixed + format.slotsFor indexed) s.nil) := by
  obtain ⟨hclass, hnone, address, used, s', hs', rep', hfills⟩ := exists_fresh_of_allocate rep hok
  rw [if_pos hpointers] at hs'
  subst hs'
  have hfresh := objects_put_self s name
    (fresh fixed indexed format classIndex (hash.getD address) s.nil.raw)
  exact ⟨_, rep', .put_new hnone _ used hfills, hnone, ⟨_, hfresh, rfl⟩, _, hfresh,
    Object.hasSlots_fresh s.nil hpointers hclass⟩

/-- Bytes that are allocated are a new object beside the others. -/
lemma exists_of_allocateBytes (rep : h.Represents s) {contents : List UInt8} {format : ObjectFormat}
    {classIndex : ℕ} (hok : allocateBytes contents format classIndex h = .ok name h') :
    ∃ s' o, h'.Represents s' ∧ s.objects name = none ∧ s'.objects name = some o ∧ s'.nil = s.nil ∧
      (∀ other, other ≠ name → s'.objects other = s.objects other) ∧ (s.Fills → s'.Fills) := by
  rw [allocateBytes] at hok
  simp only [run_bind_eq_ok_iff] at hok
  obtain ⟨_, h₂, hnew, count, _, hbytes, ⟨⟩⟩ := hok
  obtain ⟨-, hnone, address, used, s₂, hs₂, rep₂, hfills₂⟩ := exists_fresh_of_allocate rep hnew
  obtain ⟨o₂, ho₂, hnil₂, hother₂⟩ : ∃ o₂, s₂.objects name = some o₂ ∧ s₂.nil = s.nil ∧
      ∀ other, other ≠ name → s₂.objects other = s.objects other :=
    hs₂ ▸ ⟨_, objects_put_self s name _, rfl, fun _ hother => objects_put_of_ne s hother _⟩
  obtain ⟨o', hstore, rep'⟩ := Agree.of_change_ok ho₂ (hbytes ▸ agree_storeBytes rep₂ ho₂ 0 contents)
  exact ⟨_, o', rep', hnone, objects_put_self s₂ name o', hnil₂,
    fun other hother => (objects_put_of_ne s₂ hother o').trans (hother₂ other hother),
    fun fills => (hfills₂ fills).put ho₂ (Object.sameShape_storeBytes hstore)⟩

/-- Bytes that are allocated and given flags are a new object beside the others. -/
lemma exists_of_allocateBytes_setFlags (rep : h.Represents s) {contents : List UInt8}
    {format : ObjectFormat} {classIndex : ℕ} {flags : HeaderFlags} {h₁ : Heap}
    (hallocate : allocateBytes contents format classIndex h = .ok name h₁)
    (hflags : setFlags name flags h₁ = .ok () h') :
    ∃ s' o, h'.Represents s' ∧ Retains [] s s' ∧ s.objects name = none ∧
      s'.objects name = some o := by
  obtain ⟨s₁, o₁, rep₁, hnone, ho₁, hnil, hother, hfills⟩ := exists_of_allocateBytes rep hallocate
  obtain ⟨o', hset, rep'⟩ := Agree.of_change_ok ho₁ (hflags ▸ agree_setFlags rep₁ ho₁ flags)
  refine ⟨_, o', rep', .of_same hnil (fun {other p} hp => ?_) fun fills => (hfills fills).put ho₁
    (Object.sameShape_setFlags hset), hnone, objects_put_self s₁ name o'⟩
  have hne : other ≠ name := by
    rintro rfl
    rw [hnone] at hp
    cases hp
  rw [objects_put_of_ne _ hne, hother other hne, hp]

/-- An operation that does not store into an object keeps its slots. -/
lemma hasSlots_of_action (rep : h.Represents s) {action : Action}
    (hstore : ¬action.StoresInto name) (hslots : s.HasSlots name values) :
    (stateAfter (action.onMap s)).HasSlots name values := by
  by_cases htarget : action.target? = some name
  · cases action with
    | setFlags object flags =>
      obtain rfl : object = name := Option.some.inj htarget
      obtain ⟨o, ho, hslots⟩ := hslots
      refine ⟨{ o with flags := flags }, ?_, hslots.congr rfl rfl⟩
      simp [Action.onMap, Functor.map, EStateM.map, ObjectMap.change, ho, Object.setFlags,
        stateAfter]
    | store | storeWord | storeByte | storeBytes =>
      exact absurd (Option.some.inj htarget) hstore
    | allocate | allocateBytes | setNil => cases htarget
  · exact hslots.follows (follows_action rep action) htarget

/-- Every operation but the setting of another nil keeps nil and the shapes of all objects. -/
lemma keeps_action (rep : h.Represents s) {action : Action}
    (hnil : ∀ nil, action ≠ .setNil nil) : s.Keeps (stateAfter (action.onMap s)) := by
  refine ⟨?_, (follows_action rep action).shape, fun fills => fills_action rep fills action⟩
  cases action with
  | allocate =>
    rw [Action.onMap, stateAfter_map]
    exact nil_allocate ..
  | allocateBytes contents format classIndex =>
    rw [Action.onMap, stateAfter_map]
    have hallocated := nil_allocate 0 contents.length format classIndex none s
    rw [ObjectMap.allocateBytes]
    simp only [Bind.bind, EStateM.bind]
    cases hallocate : ObjectMap.allocate 0 contents.length format classIndex none s with
    | error e s' => rwa [hallocate] at hallocated
    | ok name s' =>
      rw [hallocate] at hallocated
      have hchanged := nil_change name (fun o => o.storeBytes name 0 contents) s'
      simp only
      cases hchange : change name (fun o => o.storeBytes name 0 contents) s' <;>
        rw [hchange] at hchanged <;> exact hchanged.trans hallocated
  | store | storeWord | storeByte | storeBytes | setFlags =>
    rw [Action.onMap, stateAfter_map]
    exact nil_change ..
  | setNil nil => exact absurd rfl (hnil nil)

/-- An operation stores into one object at most. -/
lemma Action.eq_of_storesInto {action : Action} {other : Value} (h : action.StoresInto name)
    (hother : action.StoresInto other) : other = name := by
  cases action with
  | store | storeWord | storeByte | storeBytes => exact hother.symm.trans h
  | allocate | allocateBytes | setFlags | setNil => exact h.elim

/-- Every operation but the setting of another nil keeps the slots of the objects that it does not
store into. -/
lemma exists_keepsBut_action (rep : h.Represents s) {action : Action}
    (hnil : ∀ nil, action ≠ .setNil nil) :
    ∃ changed, s.KeepsBut changed (stateAfter (action.onMap s)) ∧
      ∀ name ∈ changed, action.StoresInto name := by
  have hkeeps := keeps_action rep hnil
  by_cases hstores : ∃ name, action.StoresInto name
  · obtain ⟨name, hname⟩ := hstores
    refine ⟨[name], ⟨hkeeps, fun {other values} hother hslots => ?_⟩, by simpa using hname⟩
    refine hasSlots_of_action rep (fun hstore => hother ?_) hslots
    simp [Action.eq_of_storesInto hname hstore]
  · exact ⟨[], ⟨hkeeps, fun _ hslots => hasSlots_of_action rep (fun h => hstores ⟨_, h⟩) hslots⟩,
      by simp⟩

/-! ### Nil and identity hashes -/

/-- Changes that set no other nil leave the nil of the heap. -/
lemma nil_eq_of_keeps (rep : h.Represents s) (rep' : h'.Represents s') (hkeeps : s.Keeps s') :
    h'.nil = h.nil := by
  rw [rep'.nil_eq, rep.nil_eq, hkeeps.nil_eq]

/-- A value that is no object has its own identity hash, and an object that has been allocated keeps
the hash in its header. -/
lemma exists_identityHashOf (rep : h.Represents s) (rep' : h'.Represents s') (hkeeps : s.Keeps s')
    (hvalue : s.Knows value) :
    ∃ hash, h.identityHashOf value = .ok hash ∧ h'.identityHashOf value = .ok hash := by
  rcases hvalue with himmediate | ⟨o, ho⟩
  · exact ⟨_, if_pos himmediate, if_pos himmediate⟩
  · obtain ⟨o', ho', hshape⟩ := hkeeps.shape ho
    refine ⟨o.hash, ((rep.holds ho).shows rep.usedBytes_lt).hash, ?_⟩
    rw [((rep'.holds ho').shows rep'.usedBytes_lt).hash, hshape.hash]

end Heap

end TalkMachine
