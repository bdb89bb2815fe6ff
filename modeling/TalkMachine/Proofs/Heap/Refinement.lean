import TalkMachine.Proofs.Heap.Operations

/-!
# The heap refines the object map

`Heap.Run` is any sequence of operations on a new heap, each about a value that an earlier
allocation has answered, side by side with the same operations on an object map. After every run the
heap represents the map (`Heap.Run.represents`). What follows for the users of the heap is
`Heap.Run.refines`.
-/

namespace TalkMachine

/-! ### Operations on object maps -/

/-- Whether an operation with this target may lead from one object map to another: other objects
stay as they are, and the target keeps its shape. -/
structure ObjectMap.Follows (target? : Option Value) (s s' : ObjectMap) : Prop where
  same : ∀ {name : Value} {o : Object}, s.objects name = some o → target? ≠ some name →
    s'.objects name = some o
  shape : ∀ {name : Value} {o : Object}, s.objects name = some o →
    ∃ o', s'.objects name = some o' ∧ o.SameShape o'

namespace ObjectMap

variable {s : ObjectMap}

/-- Nothing changed. -/
lemma follows_refl (target? : Option Value) (s : ObjectMap) : Follows target? s s :=
  ⟨fun ho _ => ho, fun ho => ⟨_, ho, Object.SameShape.refl _⟩⟩

/-- A change that keeps the shape of its object. -/
lemma follows_change {α : Type} (name : Value) {f : Object → Except HeapError (α × Object)}
    (hf : ∀ o a o', f o = .ok (a, o') → o.SameShape o') :
    Follows (some name) s (stateAfter (change name f s)) := by
  rw [change]
  cases ho : s.objects name with
  | none => exact follows_refl _ s
  | some o =>
    simp only
    cases hfo : f o with
    | error e => exact follows_refl _ s
    | ok result =>
      obtain ⟨a, o'⟩ := result
      refine ⟨fun {other p} hp hother => ?_, fun {other p} hp => ?_⟩
      · rw [← hp]
        exact objects_put_of_ne s (fun heq => hother (congrArg some heq.symm)) o'
      · by_cases hother : other = name
        · subst hother
          obtain rfl : o = p := Option.some.inj (ho.symm.trans hp)
          exact ⟨o', objects_put_self s other o', hf _ _ _ hfo⟩
        · exact ⟨p, (objects_put_of_ne s hother o').trans hp, Object.SameShape.refl p⟩

/-- An object under a new name leaves all others as they are. -/
lemma follows_put_of_none {name : Value} (hnone : s.objects name = none) (o : Object) (used : ℕ) :
    Follows none s { s.put name o with used := used } := by
  have hsame : ∀ {other : Value} {p : Object}, s.objects other = some p →
      (s.put name o).objects other = some p := by
    intro other p hp
    have hother : other ≠ name := by
      rintro rfl
      rw [hnone] at hp
      cases hp
    rw [objects_put_of_ne s hother, hp]
  exact ⟨fun hp _ => hsame hp, fun hp => ⟨_, hsame hp, Object.SameShape.refl _⟩⟩

/-- Allocation under a new name leaves all other objects as they are. -/
lemma follows_allocate {fixed indexed : ℕ} {format : ObjectFormat} {classIndex : ℕ}
    {hash : Option ℕ} (hnew : ∀ name s', allocate fixed indexed format classIndex hash s =
      .ok name s' → s.objects name = none) :
    Follows none s (stateAfter (allocate fixed indexed format classIndex hash s)) := by
  cases hallocate : allocate fixed indexed format classIndex hash s with
  | error e s' =>
    rw [state_eq_of_allocate_error hallocate]
    exact follows_refl none s
  | ok name s' =>
    obtain ⟨hash', fill, used, rfl⟩ := exists_of_allocate hallocate
    exact follows_put_of_none (hnew name _ hallocate) _ used

/-- Where allocation of an object with given bytes ends when there is no room for the object. -/
lemma stateAfter_allocateBytes_of_error {contents : List UInt8} {format : ObjectFormat}
    {classIndex : ℕ} {e : HeapError} {s' : ObjectMap}
    (hallocate : allocate 0 contents.length format classIndex none s = .error e s') :
    stateAfter (allocateBytes contents format classIndex s) = s' := by
  simp only [allocateBytes, Bind.bind, EStateM.bind, hallocate, stateAfter]

/-- Where it ends when the object has been allocated. -/
lemma stateAfter_allocateBytes_of_ok {contents : List UInt8} {format : ObjectFormat}
    {classIndex : ℕ} {name : Value} {s' : ObjectMap}
    (hallocate : allocate 0 contents.length format classIndex none s = .ok name s') :
    stateAfter (allocateBytes contents format classIndex s) =
      stateAfter (change name (fun o => o.storeBytes name 0 contents) s') := by
  simp only [allocateBytes, Bind.bind, EStateM.bind, hallocate, pure, EStateM.pure]
  cases change name (fun o => o.storeBytes name 0 contents) s' <;> rfl

/-- Allocation of an object with given bytes leaves all other objects as they are too: it changes only
the object it has just allocated. -/
lemma follows_allocateBytes {contents : List UInt8} {format : ObjectFormat} {classIndex : ℕ}
    (hnew : ∀ name s', allocate 0 contents.length format classIndex none s = .ok name s' →
      s.objects name = none) :
    Follows none s (stateAfter (allocateBytes contents format classIndex s)) := by
  have hallocated := follows_allocate hnew
  cases hallocate : allocate 0 contents.length format classIndex none s with
  | error e s' =>
    rw [hallocate] at hallocated
    rwa [stateAfter_allocateBytes_of_error hallocate]
  | ok name s' =>
    have hchanged := follows_change (s := s') name
      (f := fun o => o.storeBytes name 0 contents) fun _ _ _ h => Object.sameShape_storeBytes h
    rw [hallocate] at hallocated
    rw [stateAfter_allocateBytes_of_ok hallocate]
    have hsame : ∀ {other : Value} {o : Object}, s.objects other = some o →
        (stateAfter (change name (fun o => o.storeBytes name 0 contents) s')).objects other =
          some o := by
      intro other o ho
      refine hchanged.same (hallocated.same ho (by simp)) ?_
      rintro ⟨⟩
      rw [hnew name s' hallocate] at ho
      cases ho
    exact ⟨fun ho _ => hsame ho, fun ho => ⟨_, hsame ho, Object.SameShape.refl _⟩⟩

end ObjectMap

namespace Heap

variable {h : Heap} {s : ObjectMap}

/-- An operation and its counterpart agree also after their answers are wrapped. -/
lemma agree_map {α β : Type} {x : HeapM α} {y : ObjectMapM α} (f : α → β)
    (hx : Agree (x h) (y s)) : Agree ((f <$> x) h) ((f <$> y) s) := by
  show Agree (EStateM.map f x h) (EStateM.map f y s)
  unfold EStateM.map
  cases hxh : x h <;> cases hys : y s <;> rw [hxh, hys] at hx
  · exact ⟨congrArg f hx.1, hx.2⟩
  · exact hx
  · exact hx
  · exact hx

/-- Each operation on a heap agrees with its counterpart on the object map. -/
theorem agree_action (rep : h.Represents s) (action : Action)
    (htarget : ∀ name ∈ action.target?, ∃ o, s.objects name = some o) :
    Agree (action.onHeap h) (action.onMap s) := by
  cases action with
  | allocate fixed indexed format classIndex hash =>
    exact agree_map _ (agree_allocate rep fixed indexed format classIndex hash).1
  | allocateBytes contents format classIndex =>
    exact agree_map _ (agree_allocateBytes rep contents format classIndex)
  | store object index value =>
    obtain ⟨o, ho⟩ := htarget object rfl
    exact agree_map _ (agree_store rep ho index value)
  | storeWord object index word =>
    obtain ⟨o, ho⟩ := htarget object rfl
    exact agree_map _ (agree_store rep ho index ⟨word⟩)
  | storeByte object index byte =>
    obtain ⟨o, ho⟩ := htarget object rfl
    exact agree_map _ (agree_storeByte rep ho index byte)
  | storeBytes object offset bytes =>
    obtain ⟨o, ho⟩ := htarget object rfl
    exact agree_map _ (agree_storeBytes rep ho offset bytes)
  | setFlags object flags =>
    obtain ⟨o, ho⟩ := htarget object rfl
    exact agree_map _ (agree_setFlags rep ho flags)
  | setNil nil => exact ⟨rfl, (agree_setNil rep nil).2⟩

/-- What an operation changes in the object map. -/
theorem follows_action (rep : h.Represents s) (action : Action) :
    ObjectMap.Follows action.target? s (stateAfter (action.onMap s)) := by
  cases action with
  | allocate fixed indexed format classIndex hash =>
    rw [Action.onMap, stateAfter_map]
    exact ObjectMap.follows_allocate (agree_allocate rep fixed indexed format classIndex hash).2
  | allocateBytes contents format classIndex =>
    rw [Action.onMap, stateAfter_map]
    exact ObjectMap.follows_allocateBytes
      (agree_allocate rep 0 contents.length format classIndex none).2
  | store object index value =>
    rw [Action.onMap, stateAfter_map]
    exact ObjectMap.follows_change object fun _ _ _ h => Object.sameShape_storeWord h
  | storeWord object index word =>
    rw [Action.onMap, stateAfter_map]
    exact ObjectMap.follows_change object fun _ _ _ h => Object.sameShape_storeWord h
  | storeByte object index byte =>
    rw [Action.onMap, stateAfter_map]
    exact ObjectMap.follows_change object fun _ _ _ h => Object.sameShape_storeByte h
  | storeBytes object offset bytes =>
    rw [Action.onMap, stateAfter_map]
    exact ObjectMap.follows_change object fun _ _ _ h => Object.sameShape_storeBytes h
  | setFlags object flags =>
    rw [Action.onMap, stateAfter_map]
    exact ObjectMap.follows_change object fun _ _ _ h => Object.sameShape_setFlags h
  | setNil nil => exact ⟨fun ho _ => ho, fun ho => ⟨_, ho, Object.SameShape.refl _⟩⟩

/-- Every store into an immutable object is refused and leaves the whole heap as it is. -/
theorem onHeap_eq_error_of_immutable {name : Value} {o : Object}
    (hshows : h.Shows name o) (himmutable : o.flags.immutable = true) {action : Action}
    (hstore : action.StoresInto name) : action.onHeap h = .error (.immutable name) h := by
  have hask : h.isImmutable name = .ok true := himmutable ▸ hshows.immutable
  have haddress : ∀ index, h.storeAddress name index = .error (.immutable name) := by
    intro index
    rw [storeAddress, hask]
    rfl
  have hrange : h.storeBytesRange name = .error (.immutable name) := by
    rw [storeBytesRange, hask]
    rfl
  cases action with
  | store object index value =>
    obtain rfl : object = name := hstore
    simp only [Action.onHeap, Functor.map, EStateM.map, store, haddress]
  | storeWord object index word =>
    obtain rfl : object = name := hstore
    simp only [Action.onHeap, Functor.map, EStateM.map, storeWord, store, haddress]
  | storeByte object index byte =>
    obtain rfl : object = name := hstore
    simp only [Action.onHeap, Functor.map, EStateM.map, storeByte, hrange]
  | storeBytes object offset bytes =>
    obtain rfl : object = name := hstore
    simp only [Action.onHeap, Functor.map, EStateM.map, storeBytes, hrange]
  | allocate | allocateBytes | setFlags | setNil => exact hstore.elim

/-! ### Runs -/

/-- The objects that an outcome answers: the one that was allocated, if it is one. -/
def answered : Except HeapError Answer → List Value
  | .ok (.object object) => [object]
  | _ => []

/-- A sequence of operations on a new heap, and the same operations on an object map. Each is about
no object or about one of the values that allocations before it have answered, which are listed. -/
inductive Run (limit : ℕ) : List Value → Heap → ObjectMap → Prop
  | start : Run limit [] (Heap.new limit) (ObjectMap.new limit)
  | step {names : List Value} {h : Heap} {s : ObjectMap} (run : Run limit names h s)
      (action : Action) (htarget : ∀ name ∈ action.target?, name ∈ names) :
      Run limit (names ++ answered (outcome (action.onHeap h))) (stateAfter (action.onHeap h))
        (stateAfter (action.onMap s))

/-- What agreement says about outcomes and states. -/
lemma Agree.outcome_eq {α : Type} {r : EStateM.Result HeapError Heap α}
    {r' : EStateM.Result HeapError ObjectMap α} (hagree : Agree r r') :
    outcome r = outcome r' ∧ (stateAfter r).Represents (stateAfter r') := by
  cases r <;> cases r'
  · exact ⟨congrArg Except.ok hagree.1, hagree.2⟩
  · exact hagree.elim
  · exact hagree.elim
  · exact ⟨congrArg Except.error hagree.1, hagree.2⟩

/-- A change of one object that was not refused on a heap was not refused on the map either. -/
lemma Agree.of_change_ok {α : Type} {a : α} {h' : Heap} {name : Value} {o : Object}
    {f : Object → Except HeapError (α × Object)} (ho : s.objects name = some o)
    (hagree : Agree (.ok a h') (ObjectMap.change name f s)) :
    ∃ o', f o = .ok (a, o') ∧ h'.Represents (s.put name o') := by
  rw [ObjectMap.change, ho] at hagree
  simp only at hagree
  cases hfo : f o with
  | error e =>
    rw [hfo] at hagree
    exact hagree.elim
  | ok result =>
    obtain ⟨b, o'⟩ := result
    rw [hfo] at hagree
    obtain ⟨rfl, rep⟩ := hagree
    exact ⟨o', rfl, rep⟩

/-- A change of one object that the map accepts is accepted on a heap too. -/
lemma Agree.exists_of_change_eq_ok {α : Type} {a : α} {r : EStateM.Result HeapError Heap α}
    {name : Value} {o o' : Object} {f : Object → Except HeapError (α × Object)}
    (ho : s.objects name = some o) (hfo : f o = .ok (a, o'))
    (hagree : Agree r (ObjectMap.change name f s)) :
    ∃ h', r = .ok a h' ∧ h'.Represents (s.put name o') := by
  rw [ObjectMap.change, ho] at hagree
  simp only [hfo] at hagree
  cases r with
  | error e h' => exact hagree.elim
  | ok b h' =>
    obtain ⟨rfl, rep⟩ := hagree
    exact ⟨h', rfl, rep⟩

/-- A value that an operation answers as an object named none before, and names one now. -/
lemma exists_of_answered (rep : h.Represents s) {action : Action} {name : Value}
    (hanswer : outcome (action.onMap s) = .ok (.object name)) :
    s.objects name = none ∧ ∃ o, (stateAfter (action.onMap s)).objects name = some o := by
  cases action with
  | allocate fixed indexed format classIndex hash =>
    have hnew := (agree_allocate rep fixed indexed format classIndex hash).2
    rw [Action.onMap] at hanswer ⊢
    simp only [Functor.map, EStateM.map] at hanswer ⊢
    cases hallocate : ObjectMap.allocate fixed indexed format classIndex hash s with
    | error e s' =>
      rw [hallocate] at hanswer
      cases hanswer
    | ok other s' =>
      rw [hallocate] at hanswer
      cases hanswer
      obtain ⟨hash', fill, used, rfl⟩ := ObjectMap.exists_of_allocate hallocate
      exact ⟨hnew name _ hallocate, _, ObjectMap.objects_put_self s name _⟩
  | allocateBytes contents format classIndex =>
    have hnew := (agree_allocate rep 0 contents.length format classIndex none).2
    rw [Action.onMap] at hanswer ⊢
    simp only [Functor.map, EStateM.map, ObjectMap.allocateBytes, Bind.bind, EStateM.bind]
      at hanswer ⊢
    cases hallocate : ObjectMap.allocate 0 contents.length format classIndex none s with
    | error e s' =>
      rw [hallocate] at hanswer
      cases hanswer
    | ok other s' =>
      simp only [hallocate] at hanswer ⊢
      have hfollows := ObjectMap.follows_change (s := s') other
        (f := fun o => o.storeBytes other 0 contents) fun _ _ _ h => Object.sameShape_storeBytes h
      cases hchange : ObjectMap.change other (fun o => o.storeBytes other 0 contents) s' with
      | error e s'' =>
        rw [hchange] at hanswer
        cases hanswer
      | ok count s'' =>
        rw [hchange] at hanswer hfollows
        cases hanswer
        obtain ⟨hash', fill, used, rfl⟩ := ObjectMap.exists_of_allocate hallocate
        obtain ⟨o', ho', -⟩ := hfollows.shape (ObjectMap.objects_put_self s name _)
        exact ⟨hnew name _ hallocate, o', ho'⟩
  | store | storeWord | storeByte | storeBytes | setFlags =>
    simp only [Action.onMap, Functor.map, EStateM.map] at hanswer
    split at hanswer <;> cases hanswer
  | setNil nil => cases hanswer

/-- After an operation the heap represents the object map again, and each value that was answered
names an object. -/
lemma represents_step (rep : h.Represents s) {names : List Value}
    (hnames : ∀ name ∈ names, ∃ o, s.objects name = some o) {action : Action}
    (htarget : ∀ name ∈ action.target?, name ∈ names) :
    (stateAfter (action.onHeap h)).Represents (stateAfter (action.onMap s)) ∧
      ∀ name ∈ names ++ answered (outcome (action.onHeap h)),
        ∃ o, (stateAfter (action.onMap s)).objects name = some o := by
  obtain ⟨houtcome, rep'⟩ := (agree_action rep action fun name hname =>
    hnames name (htarget name hname)).outcome_eq
  refine ⟨rep', fun name hname => ?_⟩
  rcases List.mem_append.mp hname with hold | hnew
  · obtain ⟨o, ho⟩ := hnames name hold
    obtain ⟨o', ho', -⟩ := (follows_action rep action).shape ho
    exact ⟨o', ho'⟩
  · have hanswer : outcome (action.onHeap h) = .ok (.object name) := by
      unfold answered at hnew
      split at hnew
      · rename_i object heq
        rw [heq, List.mem_singleton.mp hnew]
      · cases hnew
    exact (exists_of_answered rep (houtcome ▸ hanswer)).2

/-- After every run the heap represents the object map, and each value that was answered names an
object. -/
theorem Run.represents {limit : ℕ} (hlimit : limit < 2 ^ 64) {names : List Value} {h : Heap}
    {s : ObjectMap} (run : Run limit names h s) :
    h.Represents s ∧ ∀ name ∈ names, ∃ o, s.objects name = some o := by
  induction run with
  | start => exact ⟨Represents.new hlimit, by simp⟩
  | step run action htarget ih => exact represents_step ih.1 ih.2 htarget

/-- After a store that was not refused, the slot holds what was stored and the other slots of the
object hold what they held. -/
theorem Run.fetch_store {limit : ℕ} (hlimit : limit < 2 ^ 64) {names : List Value} {h h' : Heap}
    {s : ObjectMap} (run : Run limit names h s) {name value : Value} (hname : name ∈ names)
    {index : ℕ} (hok : store name index value h = .ok () h') (other : ℕ) :
    h'.fetch name other = if other = index then .ok value else h.fetch name other := by
  obtain ⟨rep, hnames⟩ := run.represents hlimit
  obtain ⟨o, ho⟩ := hnames name hname
  obtain ⟨o', hstore, rep'⟩ := Agree.of_change_ok ho (hok ▸ agree_store rep ho index value)
  have hold' := rep'.holds (ObjectMap.objects_put_self s name o')
  rw [hold'.fetch_eq rep'.usedBytes_lt, (rep.holds ho).fetch_eq rep.usedBytes_lt,
    Object.fetch_storeWord (rep.holds ho).wellFormed hstore]

/-- After a store of a byte that was not refused, the place holds what was stored and the other
bytes of the object are what they were. -/
theorem Run.fetchByte_storeByte {limit : ℕ} (hlimit : limit < 2 ^ 64) {names : List Value}
    {h h' : Heap} {s : ObjectMap} (run : Run limit names h s) {name : Value} (hname : name ∈ names)
    {index : ℕ} {byte : UInt8} (hok : storeByte name index byte h = .ok () h') (other : ℕ) :
    h'.fetchByte name other = if other = index then .ok byte else h.fetchByte name other := by
  obtain ⟨rep, hnames⟩ := run.represents hlimit
  obtain ⟨o, ho⟩ := hnames name hname
  obtain ⟨o', hstore, rep'⟩ := Agree.of_change_ok ho (hok ▸ agree_storeByte rep ho index byte)
  have hold' := rep'.holds (ObjectMap.objects_put_self s name o')
  rw [hold'.fetchByte_eq rep'.usedBytes_lt, (rep.holds ho).fetchByte_eq rep.usedBytes_lt,
    Object.fetchByte_storeByte hstore]

/-- The heap does what the object map does. After any run, each further operation has the same
outcome on both, and an allocation answers a value that no earlier one has answered. All questions
about an object are answered from the map. No operation changes the class index, the format, the
hash or the slot count of an object; none changes a byte of its slot count word, header or body
unless it is about that object; and every store into an immutable object is refused and leaves the
whole heap as it is. -/
theorem Run.refines {limit : ℕ} (hlimit : limit < 2 ^ 64) {names : List Value} {h : Heap}
    {s : ObjectMap} (run : Run limit names h s) :
    (∀ action : Action, (∀ name ∈ action.target?, name ∈ names) →
      outcome (action.onHeap h) = outcome (action.onMap s) ∧
        ∀ name, outcome (action.onHeap h) = .ok (.object name) → name ∉ names) ∧
    ∀ name ∈ names, ∃ o, s.objects name = some o ∧ h.Shows name o ∧
      ∀ action : Action, (∀ name ∈ action.target?, name ∈ names) →
        (stateAfter (action.onHeap h)).classIndexOf name = h.classIndexOf name ∧
        (stateAfter (action.onHeap h)).format name = h.format name ∧
        (stateAfter (action.onHeap h)).identityHashOf name = h.identityHashOf name ∧
        (stateAfter (action.onHeap h)).slotCount name = h.slotCount name ∧
        (action.target? ≠ some name → ∀ b, o.Covers name.raw.toNat b →
          (stateAfter (action.onHeap h)).byteAt b = h.byteAt b) ∧
        (o.flags.immutable = true → action.StoresInto name →
          action.onHeap h = .error (.immutable name) h) := by
  obtain ⟨rep, hnames⟩ := run.represents hlimit
  have hstep : ∀ action : Action, (∀ name ∈ action.target?, name ∈ names) →
      outcome (action.onHeap h) = outcome (action.onMap s) ∧
        (stateAfter (action.onHeap h)).Represents (stateAfter (action.onMap s)) :=
    fun action htarget => (agree_action rep action fun name hname =>
      hnames name (htarget name hname)).outcome_eq
  refine ⟨fun action htarget => ⟨(hstep action htarget).1, fun name hanswer hname => ?_⟩,
    fun name hname => ?_⟩
  · obtain ⟨o, ho⟩ := hnames name hname
    rw [(hstep action htarget).1] at hanswer
    rw [(exists_of_answered rep hanswer).1] at ho
    cases ho
  · obtain ⟨o, ho⟩ := hnames name hname
    have hold := rep.holds ho
    have hshows := hold.shows rep.usedBytes_lt
    refine ⟨o, ho, hshows, fun action htarget => ?_⟩
    have rep' := (hstep action htarget).2
    have hfollows := follows_action rep action
    obtain ⟨o', ho', hshape⟩ := hfollows.shape ho
    have hshows' := (rep'.holds ho').shows rep'.usedBytes_lt
    refine ⟨?_, ?_, ?_, ?_, fun hother b hb => ?_, fun himmutable hstore => ?_⟩
    · rw [hshows'.classIndex, hshows.classIndex, hshape.classIndex]
    · rw [hshows'.format, hshows.format, hshape.format, hshape.unused]
    · rw [hshows'.hash, hshows.hash, hshape.hash]
    · rw [hshows'.slotCount, hshows.slotCount, Object.slotCount, Object.slotCount, hshape.length]
    · exact hold.byteAt_eq (rep'.holds (hfollows.same ho hother)) hb
    · exact onHeap_eq_error_of_immutable hshows himmutable hstore

/-- An allocation, a refused allocation and a store: the slot holds what was stored into it, the
other one zero. -/
theorem run_refines_store : (64 : ℕ) < 2 ^ 64 ∧ ∃ names h s, Run 64 names h s ∧
    Value.ofAddress 8 ∈ names ∧ h.fetch (Value.ofAddress 8) 0 = .ok Value.zero ∧
    h.fetch (Value.ofAddress 8) 1 = .ok (Value.ofInt 7) ∧
    ∃ o, s.objects (Value.ofAddress 8) = some o ∧ h.Shows (Value.ofAddress 8) o := by
  have hstart : Run 64 [] (Heap.new 64) (ObjectMap.new 64) := .start
  have hallocated := hstart.step (.allocate 2 0 .fixedSize 40 none) (by simp [Action.target?])
  have hrefused := hallocated.step (.allocate 0 200 .indexable8 41 none) (by simp [Action.target?])
  have hstored := hrefused.step (.store (Value.ofAddress 8) 1 (Value.ofInt 7)) (by
    intro name hname
    cases hname
    decide)
  refine ⟨by decide, _, _, _, hstored, by decide, by decide, by decide, ?_⟩
  obtain ⟨o, ho, hshows, -⟩ := (Run.refines (by decide) hstored).2 (Value.ofAddress 8) (by decide)
  exact ⟨o, ho, hshows⟩

end Heap

end TalkMachine
