import TalkMachine.Proofs.Heap.Allocation

/-!
# Operations that are refused

An operation that is refused leaves the heap as it was, with one exception: an object for given bytes
is allocated before it is asked whether its format is one of bytes (`Action.Strands`). If it is not, an
object is left that nothing has been stored into. `Heap.Reached.refuses` says of every heap that
operations lead to that there is no other exception, and what is left in this one.
-/

namespace TalkMachine

namespace Heap

variable {h h' : Heap} {object value : Value} {e : HeapError} {format : ObjectFormat}
  {contents : List UInt8} {fixed indexed classIndex : ℕ} {hash : Option ℕ}

/-! ### Refused stores -/

/-- A store of bytes that is refused changes nothing. -/
lemma state_eq_of_storeBytes_error {offset : ℕ}
    (herror : storeBytes object offset contents h = .error e h') : h' = h := by
  rw [storeBytes] at herror
  split at herror <;> cases herror
  rfl

/-- Nor does a store of one byte. -/
lemma state_eq_of_storeByte_error {index : ℕ} {byte : UInt8}
    (herror : storeByte object index byte h = .error e h') : h' = h := by
  rw [storeByte] at herror
  split at herror
  · cases herror
    rfl
  · split at herror <;> cases herror
    rfl

/-- Nor does a change of flags. -/
lemma state_eq_of_setFlags_error {flags : HeaderFlags}
    (herror : setFlags object flags h = .error e h') : h' = h := by
  rw [setFlags] at herror
  split at herror <;> cases herror
  rfl

/-! ### Objects for given bytes -/

/-- An allocation counts one object more. -/
lemma objectCount_of_allocate
    (hok : allocate fixed indexed format classIndex hash h = .ok object h') :
    h'.objectCount = h.objectCount + 1 := by
  rw [allocate] at hok
  split at hok
  · cases hok
  split at hok
  · cases hok
  simp only at hok
  split at hok <;> cases hok
  rfl

/-- The bytes of a fresh object can be stored into just when its format is one of bytes. -/
lemma Allocates.storeBytes_eq (contents : List UInt8) (hbounded : h.Bounded)
    (hallocates : h.Allocates fixed indexed format classIndex hash object h') :
    storeBytes object 0 contents h' = .error (.notBytes object) h' ∧ format.isBytes = false ∨
      (∃ count h'', storeBytes object 0 contents h' = .ok count h'') ∧ format.isBytes = true := by
  have rep := (hallocates.bounded hbounded).represents_put hallocates.holds
  have hrange := storeBytesRange_eq rep (ObjectMap.objects_put_self _ object _)
  rw [storeBytes, hrange]
  cases hbytes : format.isBytes with
  | false => exact .inl ⟨by simp [ObjectMap.fresh, hbytes, HeaderFlags.none], rfl⟩
  | true => exact .inr ⟨by simp [ObjectMap.fresh, hbytes, HeaderFlags.none], rfl⟩

/-- Whether an operation is refused only after it has allocated an object: there is nothing against an
object for so many elements, but they are not bytes. -/
def Action.Strands (h : Heap) : Action → Prop
  | .allocateBytes contents format classIndex =>
    format.isBytes = false ∧ classIndex ≤ Header.maxClassIndex ∧
      format.admits 0 contents.length = true ∧
      h.usedBytes + objectSize (format.slotsFor contents.length) ≤ h.limit
  | _ => False

/-- An operation that strands is refused, and leaves an object that no bytes have been stored into. -/
lemma Bounded.exists_of_strands (hbounded : h.Bounded)
    (hstrands : (Action.allocateBytes contents format classIndex).Strands h) :
    ∃ object h', (Action.allocateBytes contents format classIndex).onHeap h =
        .error (.notBytes object) h' ∧
      h.Allocates 0 contents.length format classIndex none object h' ∧
      h'.objectCount = h.objectCount + 1 := by
  obtain ⟨hbytes, hclass, hadmits, hroom⟩ := hstrands
  rw [← Nat.zero_add (format.slotsFor contents.length)] at hroom
  obtain ⟨object, h', hok, hallocates⟩ := hbounded.exists_allocates none hclass hadmits hroom
  have hstore : storeBytes object 0 contents h' = .error (.notBytes object) h' := by
    rcases hallocates.storeBytes_eq contents hbounded with ⟨hstore, -⟩ | ⟨-, hbytes'⟩
    · exact hstore
    · rw [hbytes] at hbytes'
      cases hbytes'
  have herror : allocateBytes contents format classIndex h = .error (.notBytes object) h' := by
    rw [allocateBytes, run_bind_of_ok hok, run_bind_of_error hstore]
  exact ⟨object, h', run_map_eq_error_iff.mpr herror, hallocates, objectCount_of_allocate hok⟩

/-- If it is refused for any other reason, it changes nothing. -/
lemma Bounded.state_eq_of_allocateBytes_error (hbounded : h.Bounded)
    (hstrands : ¬ (Action.allocateBytes contents format classIndex).Strands h)
    (herror : allocateBytes contents format classIndex h = .error e h') : h' = h := by
  rcases run_bind_eq_error_iff.mp herror with hallocate | ⟨object, h₁, hok, hstore⟩
  · exact state_eq_of_allocate_error hallocate
  · refine absurd ?_ hstrands
    obtain ⟨hclass, hadmits, hroom⟩ := hbounded.exists_allocate_iff.mp ⟨object, h₁, hok⟩
    rw [Nat.zero_add] at hroom
    refine ⟨?_, hclass, hadmits, hroom⟩
    rcases (hbounded.allocates_of_ok hok).storeBytes_eq contents hbounded with
      ⟨-, hbytes⟩ | ⟨⟨count, h₂, hstored⟩, -⟩
    · exact hbytes
    · rw [run_bind_of_ok hstored] at hstore
      cases hstore

/-! ### All operations -/

/-- An operation that is refused changes nothing, unless it strands. -/
lemma Bounded.state_eq_of_onHeap_error (hbounded : h.Bounded) {action : Action}
    (hstrands : ¬ action.Strands h) (herror : action.onHeap h = .error e h') : h' = h := by
  cases action with
  | allocate fixed indexed format classIndex hash =>
    exact state_eq_of_allocate_error (run_map_eq_error_iff.mp herror)
  | allocateBytes contents format classIndex =>
    exact hbounded.state_eq_of_allocateBytes_error hstrands (run_map_eq_error_iff.mp herror)
  | store object index value => exact state_eq_of_store_error (run_map_eq_error_iff.mp herror)
  | storeWord object index word => exact state_eq_of_store_error (run_map_eq_error_iff.mp herror)
  | storeByte object index byte =>
    exact state_eq_of_storeByte_error (run_map_eq_error_iff.mp herror)
  | storeBytes object offset bytes =>
    exact state_eq_of_storeBytes_error (run_map_eq_error_iff.mp herror)
  | setFlags object flags => exact state_eq_of_setFlags_error (run_map_eq_error_iff.mp herror)
  | setNil nil => cases run_map_eq_error_iff.mp herror

/-- On every heap that operations lead to, an operation that is refused leaves the whole heap as it
was, the bytes in use and the number of objects included, whatever value it is about. The one
exception is an object for given bytes whose format has none, if nothing else speaks against it: then
the refusal leaves a fresh object behind. -/
theorem Reached.refuses {limit : ℕ} (hlimit : limit < 2 ^ 64) (hreached : Reached limit h) :
    (∀ (action : Action) (e : HeapError) (h' : Heap), ¬ action.Strands h →
      action.onHeap h = .error e h' → h' = h) ∧
    ∀ (contents : List UInt8) (format : ObjectFormat) (classIndex : ℕ),
      (Action.allocateBytes contents format classIndex).Strands h →
      ∃ object h', (Action.allocateBytes contents format classIndex).onHeap h =
          .error (.notBytes object) h' ∧
        h.Allocates 0 contents.length format classIndex none object h' ∧
        h'.objectCount = h.objectCount + 1 := by
  obtain ⟨hbounded, -⟩ := hreached.bounded hlimit
  exact ⟨fun _ _ _ => hbounded.state_eq_of_onHeap_error,
    fun _ _ _ => hbounded.exists_of_strands⟩

/-- Behind three bytes, a store of a fourth one is refused and changes nothing, but an object for three
words of given bytes is left behind. -/
theorem refuses_behind_bytes : (4096 : ℕ) < 2 ^ 64 ∧ ∃ h, Reached 4096 h ∧ h.usedBytes = 24 ∧
    (Action.storeByte (Value.ofAddress 8) 3 7).onHeap h =
      .error (.indexOutOfBounds (Value.ofAddress 8) 3 3) h ∧
    ∃ object h', (Action.allocateBytes [1, 2, 3] .indexable64 40).onHeap h =
        .error (.notBytes object) h' ∧
      h'.usedBytes = 24 + 8 * (1 + 3) ∧ h'.objectCount = h.objectCount + 1 := by
  have hreached := (Reached.new : Reached 4096 (Heap.new 4096)).step
    (.allocateBytes [1, 2, 3] .indexable8 41)
  obtain ⟨hsame, hleft⟩ := hreached.refuses (by decide)
  obtain ⟨h', herror⟩ : ∃ h', (Action.storeByte (Value.ofAddress 8) 3 7).onHeap
      (stateAfter ((Action.allocateBytes [1, 2, 3] .indexable8 41).onHeap (Heap.new 4096))) =
      .error (.indexOutOfBounds (Value.ofAddress 8) 3 3) h' := ⟨_, rfl⟩
  obtain rfl := hsame _ _ _ id herror
  obtain ⟨object, h'', hstranded, hallocates, hcount⟩ :=
    hleft [1, 2, 3] .indexable64 40 ⟨rfl, by decide, rfl, by decide⟩
  exact ⟨by decide, _, hreached, by decide, herror, object, h'', hstranded,
    hallocates.used_eq, hcount⟩

/-- On the new heap, an array for no bytes is refused, and the heap has grown. -/
theorem exists_stranded : ∃ h, Reached 4096 h ∧ ∃ object h',
    (Action.allocateBytes [] .variableSize 40).onHeap h = .error (.notBytes object) h' ∧
      h.usedBytes = 8 ∧ h'.usedBytes = 16 ∧ h.objectCount = 0 ∧ h'.objectCount = 1 :=
  ⟨_, .new, _, _, rfl, by decide, by decide, by decide, by decide⟩

end Heap

end TalkMachine
