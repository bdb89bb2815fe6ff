import TalkMachine.Proofs.Heap.Refinement

/-!
# All objects of a heap

The objects of a heap take up all bytes in use but those of the first word (`ObjectMap.Fills`). An
object is allocated when it is one of them, however the heap is divided into objects
(`Heap.Allocated`). There is only one way to do that: a heap of less than 2^59 bytes has just one
division, so that its allocated objects are those of the object map that it represents
(`Heap.Represents.allocated_iff`), after every run of operations those that were allocated in it.
-/

namespace TalkMachine

/-! ### Object maps that fill the bytes in use -/

namespace ObjectMap

variable {s s' : ObjectMap}

/-- Whether the objects take up all bytes in use but those of the first word. -/
def Fills (s : ObjectMap) : Prop :=
  ∀ b, 8 ≤ b → b < s.used → ∃ name o, s.objects name = some o ∧ o.Covers name.raw.toNat b

/-- There are no bytes to take up at first. -/
lemma fills_new (limit : ℕ) : (ObjectMap.new limit).Fills :=
  fun _ hge hlt => absurd hlt (Nat.not_lt.mpr hge)

/-- Objects that keep their shape take up the same bytes. -/
lemma Fills.of_shape (fills : s.Fills) (hused : s'.used = s.used)
    (hshape : ∀ {name : Value} {o : Object}, s.objects name = some o →
      ∃ o', s'.objects name = some o' ∧ o.SameShape o') : s'.Fills := by
  intro b hge hlt
  obtain ⟨name, o, ho, hcovers⟩ := fills b hge (hused ▸ hlt)
  obtain ⟨o', ho', same⟩ := hshape ho
  refine ⟨name, o', ho', ?_⟩
  rwa [Object.Covers, Object.slotCount, same.length]

/-- An object that is put behind all others takes up the bytes that come into use. -/
lemma Fills.put_new (fills : s.Fills) {name : Value} {o : Object} {slots : ℕ}
    (hnone : s.objects name = none) (hcount : o.slotCount = slots)
    (hlength : o.body.length = 8 * slots)
    (hstart : name.raw.toNat + 8 = s.used + 8 * Heap.headerWords slots) :
    { s.put name o with used := s.used + 8 * (Heap.headerWords slots + slots) }.Fills := by
  subst hcount
  intro b hge hlt
  replace hlt : b < s.used + 8 * (Heap.headerWords o.slotCount + o.slotCount) := hlt
  rcases Nat.lt_or_ge b s.used with hold | hnew
  · obtain ⟨other, p, hp, hcovers⟩ := fills b hge hold
    exact ⟨other, p, (follows_put_of_none hnone o 0).same hp nofun, hcovers⟩
  · exact ⟨name, o, objects_put_self s name o, by omega, by omega⟩

/-- Another object of the same shape takes up the same bytes. -/
lemma Fills.put (fills : s.Fills) {name : Value} {o o' : Object} (ho : s.objects name = some o)
    (same : o.SameShape o') : (s.put name o').Fills := by
  refine fills.of_shape rfl fun {other p} hp => ?_
  by_cases hother : other = name
  · subst hother
    obtain rfl := Option.some.inj (ho.symm.trans hp)
    exact ⟨o', objects_put_self s other o', same⟩
  · exact ⟨p, (objects_put_of_ne s hother o').trans hp, .refl p⟩

/-- A change of one object that keeps its shape leaves the bytes taken up. -/
lemma Fills.change (fills : s.Fills) {α : Type} (name : Value)
    {f : Object → Except HeapError (α × Object)}
    (hf : ∀ o a o', f o = .ok (a, o') → o.SameShape o') : (stateAfter (change name f s)).Fills := by
  rw [ObjectMap.change]
  cases ho : s.objects name with
  | none => exact fills
  | some o =>
    simp only
    cases hfo : f o with
    | error e => exact fills
    | ok result => exact fills.put ho (hf _ _ _ hfo)

end ObjectMap

namespace Heap

variable {h : Heap} {s s' : ObjectMap} {name : Value} {o o' : Object} {address : ℕ}

/-- Allocation takes up the bytes that come into use. -/
lemma fills_allocate (rep : h.Represents s) (fills : s.Fills) (fixed indexed : ℕ)
    (format : ObjectFormat) (classIndex : ℕ) (hash : Option ℕ) :
    (stateAfter (ObjectMap.allocate fixed indexed format classIndex hash s)).Fills := by
  have hnew := (agree_allocate rep fixed indexed format classIndex hash).2
  cases hallocate : ObjectMap.allocate fixed indexed format classIndex hash s with
  | error e s' =>
    rw [ObjectMap.state_eq_of_allocate_error hallocate]
    exact fills
  | ok name s' =>
    have hnone := hnew name s' hallocate
    have hlimit := rep.limit_lt
    rw [ObjectMap.allocate] at hallocate
    split at hallocate
    · cases hallocate
    split at hallocate
    · cases hallocate
    simp only [wordSize] at hallocate
    split at hallocate
    · cases hallocate
    rename_i hroom
    cases hallocate
    have hwords : 1 ≤ headerWords (fixed + format.slotsFor indexed) := by
      rw [headerWords]
      split <;> omega
    refine fills.put_new hnone (slotCount_fresh ..) (by simp [ObjectMap.fresh, wordSize]) ?_
    show (UInt64.ofNat _).toNat + 8 = _
    rw [UInt64.toNat_ofNat_of_lt' (by simp only [UInt64.size]; omega)]
    omega

/-- Every operation leaves the bytes in use taken up. -/
theorem fills_action (rep : h.Represents s) (fills : s.Fills) (action : Action) :
    (stateAfter (action.onMap s)).Fills := by
  cases action with
  | allocate fixed indexed format classIndex hash =>
    rw [Action.onMap, stateAfter_map]
    exact fills_allocate rep fills _ _ _ _ _
  | allocateBytes contents format classIndex =>
    rw [Action.onMap, stateAfter_map]
    have hallocated := fills_allocate rep fills 0 contents.length format classIndex none
    cases hallocate : ObjectMap.allocate 0 contents.length format classIndex none s with
    | error e s' =>
      rw [hallocate] at hallocated
      rwa [ObjectMap.stateAfter_allocateBytes_of_error hallocate]
    | ok name s' =>
      rw [hallocate] at hallocated
      rw [ObjectMap.stateAfter_allocateBytes_of_ok hallocate]
      exact hallocated.change name fun _ _ _ h => Object.sameShape_storeBytes h
  | store object index value =>
    rw [Action.onMap, stateAfter_map]
    exact fills.change object fun _ _ _ h => Object.sameShape_storeWord h
  | storeWord object index word =>
    rw [Action.onMap, stateAfter_map]
    exact fills.change object fun _ _ _ h => Object.sameShape_storeWord h
  | storeByte object index byte =>
    rw [Action.onMap, stateAfter_map]
    exact fills.change object fun _ _ _ h => Object.sameShape_storeByte h
  | storeBytes object offset bytes =>
    rw [Action.onMap, stateAfter_map]
    exact fills.change object fun _ _ _ h => Object.sameShape_storeBytes h
  | setFlags object flags =>
    rw [Action.onMap, stateAfter_map]
    exact fills.change object fun _ _ _ h => Object.sameShape_setFlags h
  | setNil nil => exact fills

/-! ### Allocated objects -/

/-- Whether a value is an object of a heap, however the heap is divided into objects. -/
def Allocated (h : Heap) (name : Value) : Prop :=
  ∀ s, h.Represents s → s.Fills → ∃ o, s.objects name = some o

/-- The slot count in a header is the top byte of the word. -/
lemma slotCount_of_raw (o : Object) : o.header.raw.toNat / 2 ^ 56 % 256 = min o.slotCount 255 :=
  o.slotCount_header

/-- An object of a heap that is not too large has a slot count without a top byte. -/
lemma Holds.slotCount_lt (hold : h.Holds address o) (hused : h.usedBytes < 2 ^ 59) :
    o.slotCount < 2 ^ 56 := by
  have hlength := hold.wellFormed.length_eq
  have hfits := hold.fits
  omega

/-- No object with one word before its body begins where another division has one with two. The
slot count in the first word would be the header of an object without slots; and what begins at the
next word would have a header, or a slot count, with the greatest top byte. -/
lemma not_begins_large (rep : h.Represents s) (fills : s.Fills) (hused : h.usedBytes < 2 ^ 59)
    (ho : s.objects name = some o) (hsmall : o.slotCount < 255)
    (hold' : h.Holds (name.raw.toNat + 8) o') (hlarge : 255 ≤ o'.slotCount) : False := by
  have hold := rep.holds ho
  have hlt' := hold'.slotCount_lt hused
  have hcount : UInt64.ofNat o'.slotCount = o.header.raw := by
    rw [← hold.header, ← hold'.extended hlarge, Nat.add_sub_cancel]
  have hempty : o.slotCount = 0 := by
    have htop := slotCount_of_raw o
    rw [← hcount, UInt64.toNat_ofNat_of_lt' (by simp only [UInt64.size]; omega)] at htop
    omega
  have hlength := hold.wellFormed.length_eq
  have hfits' := hold'.fits
  have hwords := o.headerWords_cases
  obtain ⟨next, p, hp, hcovers⟩ := fills (name.raw.toNat + 8) (by omega)
    (by rw [← rep.used_eq]; omega)
  have holdp := rep.holds hp
  have hltp := holdp.slotCount_lt hused
  have halignedp := holdp.aligned
  have haligned := hold.aligned
  have hne : next ≠ name := by
    rintro rfl
    obtain rfl := Option.some.inj (ho.symm.trans hp)
    have := hcovers.2
    omega
  have hbegin : ¬p.Covers next.raw.toNat name.raw.toNat :=
    rep.disjoint ho hp hne.symm _ ⟨by omega, by omega⟩
  have hheader : h.wordAt (name.raw.toNat + 8) = o'.header.raw := hold'.header
  have htop := slotCount_of_raw o'
  have hwordsp := p.headerWords_cases
  rw [Object.Covers] at hcovers hbegin
  rcases hwordsp with ⟨hwordsp, hsmallp⟩ | ⟨hwordsp, hlargep⟩
  · have hplace : next.raw.toNat = name.raw.toNat + 8 := by omega
    have htopp := slotCount_of_raw p
    rw [← holdp.header, hplace, hheader] at htopp
    omega
  · have hplace : next.raw.toNat - 8 = name.raw.toNat + 8 := by omega
    have hcountp := holdp.extended hlargep
    rw [hplace, hheader] at hcountp
    rw [hcountp, UInt64.toNat_ofNat_of_lt' (by simp only [UInt64.size]; omega)] at htop
    omega

/-- Objects of two divisions that begin at one place are the same, with as many slots. -/
lemma eq_of_begins_eq (rep : h.Represents s) (fills : s.Fills) (rep' : h.Represents s')
    (fills' : s'.Fills) (hused : h.usedBytes < 2 ^ 59) {name' : Value}
    (ho : s.objects name = some o) (ho' : s'.objects name' = some o')
    (hbegins : name.raw.toNat + 8 * headerWords o'.slotCount =
      name'.raw.toNat + 8 * headerWords o.slotCount) :
    name' = name ∧ o'.slotCount = o.slotCount := by
  have hold := rep.holds ho
  have hold' := rep'.holds ho'
  have hname : name'.raw.toNat = name.raw.toNat → name' = name := fun heq =>
    congrArg Value.mk (UInt64.toNat_inj.mp heq)
  rcases o.headerWords_cases with ⟨hwords, hsmall⟩ | ⟨hwords, hlarge⟩ <;>
    rcases o'.headerWords_cases with ⟨hwords', hsmall'⟩ | ⟨hwords', hlarge'⟩
  · have heq : name'.raw.toNat = name.raw.toNat := by omega
    refine ⟨hname heq, ?_⟩
    have hheader := hold'.header
    rw [heq, hold.header] at hheader
    have htop := slotCount_of_raw o
    rw [hheader, slotCount_of_raw] at htop
    omega
  · have heq : name'.raw.toNat = name.raw.toNat + 8 := by omega
    exact (not_begins_large rep fills hused ho hsmall (heq ▸ hold') hlarge').elim
  · have heq : name.raw.toNat = name'.raw.toNat + 8 := by omega
    exact (not_begins_large rep' fills' hused ho' hsmall' (heq ▸ hold) hlarge).elim
  · have heq : name'.raw.toNat = name.raw.toNat := by omega
    refine ⟨hname heq, ?_⟩
    have hlt := hold.slotCount_lt hused
    have hlt' := hold'.slotCount_lt hused
    have hcount := hold'.extended hlarge'
    rw [heq, hold.extended hlarge] at hcount
    have htoNat := congrArg UInt64.toNat hcount
    rw [UInt64.toNat_ofNat_of_lt' (by simp only [UInt64.size]; omega),
      UInt64.toNat_ofNat_of_lt' (by simp only [UInt64.size]; omega)] at htoNat
    exact htoNat.symm

/-- Two divisions of a heap that is not too large have the same objects. -/
lemma exists_object_of_divisions (hused : h.usedBytes < 2 ^ 59) {place : ℕ} :
    ∀ {s s' : ObjectMap} {name : Value} {o : Object}, h.Represents s → s.Fills → h.Represents s' →
      s'.Fills → s.objects name = some o →
      name.raw.toNat + 8 = place + 8 * headerWords o.slotCount →
      ∃ o', s'.objects name = some o' ∧ o'.slotCount = o.slotCount := by
  induction place using Nat.strong_induction_on with
  | _ place ih =>
    intro s s' name o rep fills rep' fills' ho hplace
    have hold := rep.holds ho
    have hfront := hold.front
    have hfits := hold.fits
    have hwords := o.headerWords_cases
    -- What begins before the place is the same in both; so the place is not in the middle of it.
    obtain ⟨name', o', ho', hcovers⟩ := fills' place (by omega) (by rw [← rep'.used_eq]; omega)
    have hfront' := (rep'.holds ho').front
    have hlength' := (rep'.holds ho').wellFormed.length_eq
    rw [Object.Covers] at hcovers
    obtain ⟨place', hplace'⟩ : ∃ place', name'.raw.toNat + 8 =
        place' + 8 * headerWords o'.slotCount :=
      ⟨name'.raw.toNat + 8 - 8 * headerWords o'.slotCount, by omega⟩
    rcases Nat.lt_or_eq_of_le (show place' ≤ place by omega) with hlt | rfl
    · obtain ⟨p, hp, hcount⟩ := ih place' hlt rep' fills' rep fills ho' hplace'
      have hlengthp := (rep.holds hp).wellFormed.length_eq
      have hne : name ≠ name' := by
        rintro rfl
        obtain rfl := Option.some.inj (ho.symm.trans hp)
        rw [hcount] at hplace
        omega
      exact absurd (show p.Covers name'.raw.toNat place by rw [Object.Covers, hcount]; omega)
        (rep.disjoint ho hp hne place (by rw [Object.Covers]; omega))
    · obtain ⟨rfl, hcount⟩ := eq_of_begins_eq rep fills rep' fills' hused ho ho' (by omega)
      exact ⟨o', ho', hcount⟩

/-- The allocated objects of a heap that is not too large are those of the object map that it
represents. -/
theorem Represents.allocated_iff (rep : h.Represents s) (fills : s.Fills)
    (hused : h.usedBytes < 2 ^ 59) : h.Allocated name ↔ ∃ o, s.objects name = some o := by
  refine ⟨fun allocated => allocated s rep fills, fun ⟨o, ho⟩ s' rep' fills' => ?_⟩
  have hfront := (rep.holds ho).front
  obtain ⟨o', ho', -⟩ := exists_object_of_divisions hused rep fills rep' fills' ho
    (Nat.sub_add_cancel (hfront.trans (Nat.le_add_right _ 8))).symm
  exact ⟨o', ho'⟩

/-- After every run the allocated objects are those that have been allocated in it. -/
theorem Run.allocated_iff {limit : ℕ} (hlimit : limit < 2 ^ 64) {names : List Value}
    (run : Run limit names h s) (hused : h.usedBytes < 2 ^ 59) :
    h.Allocated name ↔ ∃ o, s.objects name = some o := by
  refine (run.represents hlimit).1.allocated_iff ?_ hused
  clear hused
  induction run with
  | start => exact ObjectMap.fills_new limit
  | step run action _ ih => exact fills_action (run.represents hlimit).1 ih action

end Heap

end TalkMachine
