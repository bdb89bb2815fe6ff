import TalkMachine.Proofs.Machine.Kernel
import TalkMachine.Proofs.Machine.Room

/-!
# Room for a machine

There is a fresh machine as soon as there is room for its kernel (`Machine.exists_new`). While it is
being built, a kernel class is made at a free index behind its superclass, and native methods are put
into classes that have been made.
-/

namespace TalkMachine

namespace Machine

open Heap (objectSize)

variable {m m' : Machine} {s s' : ObjectMap} {placed : List ℕ} {count index limit : ℕ}

/-! ### What a fresh machine takes -/

/-- Whether kernel classes can be made one after the other: each at an index that is free then, and
behind its superclass. -/
def IsOrdered (placed : List ℕ) : List KernelClass → Prop
  | [] => True
  | k :: rest => (k.index < ClassIndex.firstDynamic ∧ k.index ∉ placed ∧
      ∀ index ∈ k.superclass, index < ClassIndex.firstDynamic ∧ index ∈ placed) ∧
    IsOrdered (k.index :: placed) rest

/-- The order of kernel classes can be checked. -/
instance decidableIsOrdered : (placed : List ℕ) → (kernel : List KernelClass) →
    Decidable (IsOrdered placed kernel)
  | _, [] => inferInstanceAs (Decidable True)
  | placed, k :: rest =>
    have := decidableIsOrdered (k.index :: placed) rest
    inferInstanceAs (Decidable (_ ∧ _))

/-- The bytes that kernel classes take at most. -/
def kernelCost (kernel : List KernelClass) : ℕ :=
  (kernel.map fun k => classCost k.name).sum

/-- The bytes that the symbols of special selectors take at most. -/
def selectorsCost (selectors : List SpecialSelector) : ℕ :=
  (selectors.map fun selector => symbolCost selector.name).sum

/-- The bytes that tables of native methods take at most, when so many methods have been put into a
class before. -/
def nativesCost : (count : ℕ) → List (ℕ × List NativeEntry) → ℕ
  | _, [] => 0
  | count, row :: rest => installCost count row.2 + nativesCost (count + row.2.length) rest

/-- The number of native methods in tables. -/
def nativesCount (table : List (ℕ × List NativeEntry)) : ℕ :=
  (table.map fun row => row.2.length).sum

/-- The bytes that a fresh machine takes at most. -/
def freshCost : ℕ :=
  wordSize + (objectSize 0 + (objectSize 0 + objectSize 0)) + kernelCost KernelClass.all +
    selectorsCost SpecialSelector.all + nativesCost 0 NativeTable.kernel

/-! ### Machines that are being built -/

/-- Whether a machine is one that is being built: its classes form a hierarchy and are tracked, it
has the kernel classes at these indices, and at most so many methods have been put into a class. -/
structure Building (m : Machine) (placed : List ℕ) (count : ℕ) : Prop where
  hierarchy : m.Hierarchy
  stored : ∃ s, m.Stored s
  tracks : ∃ s owner methods, m.Tracks s owner methods ∧
    ∀ cls own, methods cls = some own → own.puts.length ≤ count
  placed_iff : ∀ index, index < ClassIndex.firstDynamic →
    (index ∈ placed ↔ ∃ cls, m.classAt? index = some cls)
  size_ge : ClassIndex.firstDynamic ≤ m.classTable.size
  size_le : m.classTable.size ≤ ClassIndex.firstDynamic + placed.length

namespace Building

/-- A change that leaves the classes alone goes on with the building. -/
lemma keep {count' : ℕ} (building : m.Building placed count) (stored : m.Stored s)
    (hq : m.Quiet s m' s') (htable : m'.classTable = m.classTable)
    (htracks : ∃ s owner methods, m'.Tracks s owner methods ∧
      ∀ cls own, methods cls = some own → own.puts.length ≤ count') : m'.Building placed count' where
  hierarchy := building.hierarchy.keep (hq.relinked stored)
  stored := ⟨s', hq.stored⟩
  tracks := htracks
  placed_iff index hindex := by
    rw [hq.classAt?_eq]
    exact building.placed_iff index hindex
  size_ge := htable ▸ building.size_ge
  size_le := htable ▸ building.size_le

/-- A kernel class that has been made. -/
lemma exists_kernelClass (building : m.Building placed count)
    (hindex : index < ClassIndex.firstDynamic) (hmem : index ∈ placed) :
    ∃ cls, m.kernelClass index = .ok cls ∧ m.Ordinary cls := by
  obtain ⟨cls, hat⟩ := (building.placed_iff index hindex).mp hmem
  exact ⟨cls, kernelClass_eq_ok_iff.mpr hat, building.hierarchy.kernel hindex hat⟩

/-! ### Kernel classes -/

/-- A kernel class is made at a free index. -/
lemma exists_of_createClass (building : m.Building placed 0) {k : KernelClass} {superclass : Value}
    (hindex : k.index < ClassIndex.firstDynamic) (hnew : k.index ∉ placed)
    (hmax : ClassIndex.firstDynamic + placed.length ≤ Header.maxClassIndex)
    (hmay : m.MayInherit superclass) (hroom : classCost k.name ≤ m.room) :
    ∃ cls m', createClass k.index k.name superclass k.spec m = .ok cls m' ∧
      m.room ≤ m'.room + classCost k.name ∧ m'.Building (k.index :: placed) 0 := by
  obtain ⟨s, stored⟩ := building.stored
  obtain ⟨s₁, owner, methods, tracks, hcount⟩ := building.tracks
  have hge := building.size_ge
  have hle := building.size_le
  have hfree : m.classAt? k.index = none := by
    rw [Option.eq_none_iff_forall_ne_some]
    exact fun cls hat => hnew ((building.placed_iff _ hindex).mpr ⟨cls, hat⟩)
  obtain ⟨cls, m', hok, htaken⟩ := affords_createClass stored building.hierarchy
    (hindex.trans_le hge) hfree (by omega) hmay k.name k.spec hroom
  have hfixed : k.index < ClassIndex.firstDynamic → k.index = k.index := fun _ => rfl
  obtain ⟨s', hd, -⟩ := (develops_createClass stored building.hierarchy (hindex.trans_le hge)
    (hindex.le.trans (by decide)) hfree hfixed hmay.isMetaclass_eq k.name k.spec).of_ok hok
  obtain ⟨s₂, owner₂, metaclass, dictionary, metaDictionary, makes⟩ :=
    tracks.equipped.exists_of_createClass tracks.complete (hindex.trans_le (le_max_right _ _)) hok
  refine ⟨cls, m', hok, htaken, hd.hierarchy, ⟨s', hd.stored⟩, ⟨s₂, owner₂, _,
    tracks.of_makesPair makes, fun other own hother => ?_⟩, fun index hlt => ?_,
    hge.trans hd.size_le, ?_⟩
  · simp only [withNewPair, Function.update_apply] at hother
    split at hother
    · exact Option.some.inj hother ▸ le_rfl
    · split at hother
      · exact Option.some.inj hother ▸ le_rfl
      · exact hcount other own hother
  · rw [makes.classAt?_eq, if_neg (hlt.trans_le (le_max_right _ _)).ne, List.mem_cons,
      building.placed_iff index hlt]
    by_cases hsame : index = k.index <;> simp [hsame]
  · rw [makes.size_eq, List.length_cons]
    omega

/-- A kernel class whose superclass is known is made before the others. -/
lemma createKernelClasses_cons {k : KernelClass} {rest : List KernelClass} {superclass : Value}
    (hanswer : k.superclass.elim (.ok m.nil) m.kernelClass = .ok superclass) :
    createKernelClasses (k :: rest) m = (do
      let _ ← createClass k.index k.name superclass k.spec
      createKernelClasses rest) m := by
  rw [createKernelClasses, run_bind_of_ok (run_ask_of_ok ?_)]
  cases hk : k.superclass <;> rw [hk] at hanswer <;> exact hanswer

/-- Kernel classes in order are made one after the other. -/
lemma exists_of_createKernelClasses (building : m.Building placed 0) {kernel : List KernelClass}
    (hordered : IsOrdered placed kernel)
    (hmax : ClassIndex.firstDynamic + placed.length + kernel.length ≤ Header.maxClassIndex)
    (hroom : kernelCost kernel ≤ m.room) :
    ∃ m', createKernelClasses kernel m = .ok () m' ∧ m.room ≤ m'.room + kernelCost kernel ∧
      m'.Building ((kernel.map KernelClass.index).reverse ++ placed) 0 := by
  induction kernel generalizing m placed with
  | nil => exact ⟨m, rfl, Nat.le_add_right _ _, building⟩
  | cons k rest ih =>
    obtain ⟨⟨hindex, hnew, hsuperclass⟩, hordered⟩ := hordered
    simp only [kernelCost, List.map_cons, List.sum_cons, List.length_cons] at hroom hmax ⊢
    obtain ⟨superclass, hanswer, hmay⟩ : ∃ superclass,
        k.superclass.elim (.ok m.nil) m.kernelClass = .ok superclass ∧ m.MayInherit superclass := by
      cases hk : k.superclass with
      | none => exact ⟨m.nil, rfl, .inl rfl⟩
      | some index =>
        obtain ⟨hlt, hmem⟩ := hsuperclass index hk
        obtain ⟨cls, hcls, hordinary⟩ := building.exists_kernelClass hlt hmem
        exact ⟨cls, hcls, .inr hordinary⟩
    obtain ⟨cls, m₁, hok, htaken, building₁⟩ :=
      building.exists_of_createClass hindex hnew (by omega) hmay (by omega)
    obtain ⟨m', hrest, htaken', building'⟩ := ih building₁ hordered
      (by rw [List.length_cons]; omega) (by rw [kernelCost]; omega)
    refine ⟨m', ?_, by rw [kernelCost] at htaken'; omega, by simpa using building'⟩
    rw [createKernelClasses_cons hanswer, run_bind_of_ok hok, hrest]

/-- Object and Class that have been made are linked. -/
lemma exists_of_linkObjectMetaclass (building : m.Building placed count)
    (hobject : ClassIndex.object ∈ placed) (hclass : ClassIndex.classClass ∈ placed) :
    ∃ m', linkObjectMetaclass m = .ok () m' ∧ m.room ≤ m'.room ∧ m'.Building placed count := by
  obtain ⟨s, stored⟩ := building.stored
  obtain ⟨s₁, owner, methods, tracks, hcount⟩ := building.tracks
  obtain ⟨object, hkernel, hordinary⟩ := building.exists_kernelClass (by decide) hobject
  obtain ⟨classClass, hkernel', hordinary'⟩ := building.exists_kernelClass (by decide) hclass
  obtain ⟨metaclass, hclassOf, hmeta, -⟩ := building.hierarchy.exists_metaclass hordinary
  obtain ⟨m₁, s', hstore, stored', htable, relinked⟩ :=
    stored.exists_store_superclass (isClass_of_isMetaclass hmeta) classClass
  have hok : linkObjectMetaclass m = .ok () m₁ := by
    rw [linkObjectMetaclass, run_bind_of_ok (run_ask_of_ok (a := (metaclass, classClass)) ?_)]
    · exact hstore
    · simp only [hkernel, hkernel', hclassOf, Bind.bind, Except.bind, pure, Except.pure]
  obtain ⟨s₂, tracks'⟩ := tracks.exists_of_linkObjectMetaclass hok
  obtain ⟨h', hheap, rfl⟩ := change_eq_ok_iff.mp hstore
  exact ⟨_, hok, (Heap.room_of_store hheap).ge,
    building.hierarchy.relink_metaclass relinked hmeta (.inr hordinary'), ⟨s', stored'⟩,
    ⟨s₂, owner, methods, tracks', hcount⟩, building.placed_iff, building.size_ge, building.size_le⟩

/-! ### Symbols and native methods -/

/-- Symbols of special selectors are made. -/
lemma exists_of_internSpecialSelectors (building : m.Building placed count)
    {selectors : List SpecialSelector} (hroom : selectorsCost selectors ≤ m.room) :
    ∃ m', internSpecialSelectors selectors m = .ok () m' ∧
      m.room ≤ m'.room + selectorsCost selectors ∧ m'.Building placed count := by
  induction selectors generalizing m with
  | nil => exact ⟨m, rfl, Nat.le_add_right _ _, building⟩
  | cons selector rest ih =>
    simp only [selectorsCost, List.map_cons, List.sum_cons] at hroom ⊢
    obtain ⟨s, stored⟩ := building.stored
    obtain ⟨s₁, owner, methods, tracks, hcount⟩ := building.tracks
    obtain ⟨symbol, m₁, hintern, htaken⟩ :=
      affords_intern stored.rep selector.name (by omega : symbolCost selector.name ≤ m.room)
    obtain ⟨s₂, hq, -⟩ := (settles_intern stored selector.name).of_ok hintern
    obtain ⟨s₃, tracks', remembers, -⟩ := tracks.exists_of_intern hintern
    obtain ⟨m₂, henter, hm₂⟩ : ∃ m₂, enterSpecialSelector symbol m₁ = .ok () m₂ ∧
        m₂ = { m₁ with specialSelectors := m₁.specialSelectors.push symbol } := ⟨_, rfl, rfl⟩
    have hq₂ : m₁.Quiet s₂ m₂ s₂ := hq.stored.quiet_of_heap_eq (hm₂ ▸ rfl) (hm₂ ▸ rfl)
      (fun _ => hm₂ ▸ rfl) (hm₂ ▸ le_rfl)
    have building₂ : m₂.Building placed count := by
      refine building.keep stored (hq.trans hq₂) (hm₂ ▸ remembers.classTable_eq)
        ⟨s₃, owner, methods, ⟨?_, ?_, ?_, ?_⟩, hcount⟩
      · exact tracks'.equipped.keep (hm₂ ▸ tracks'.equipped.rep) (.refl [] s₃) nofun (hm₂ ▸ rfl)
          (hm₂ ▸ rfl)
      · exact hm₂ ▸ tracks'.complete
      · exact hm₂ ▸ tracks'.numbered
      · exact tracks'.fills
    have hroom₂ : m₂.room = m₁.room := hm₂ ▸ rfl
    obtain ⟨m', hrest, htaken', building'⟩ := ih building₂ (by rw [selectorsCost]; omega)
    refine ⟨m', ?_, by rw [selectorsCost] at htaken'; omega, building'⟩
    rw [internSpecialSelectors, run_bind_of_ok hintern, run_bind_of_ok henter, hrest]

/-- Native methods are put into kernel classes that have been made. -/
lemma exists_of_installKernelNatives (building : m.Building placed count)
    {table : List (ℕ × List NativeEntry)}
    (hplaced : ∀ row ∈ table, row.1 < ClassIndex.firstDynamic ∧ row.1 ∈ placed)
    (hroom : nativesCost count table ≤ m.room) :
    ∃ m', installKernelNatives table m = .ok () m' ∧
      m.room ≤ m'.room + nativesCost count table ∧
        m'.Building placed (count + nativesCount table) := by
  induction table generalizing m count with
  | nil => exact ⟨m, rfl, Nat.le_add_right _ _, building⟩
  | cons row rest ih =>
    obtain ⟨index, entries⟩ := row
    rw [List.forall_mem_cons] at hplaced
    simp only [nativesCost] at hroom ⊢
    obtain ⟨s, stored⟩ := building.stored
    obtain ⟨s₁, owner, methods, tracks, hcount⟩ := building.tracks
    obtain ⟨cls, hkernel, hordinary⟩ := building.exists_kernelClass hplaced.1.1 hplaced.1.2
    obtain ⟨dictionary, hdictionary⟩ := tracks.exists_methodDictionary hordinary.1
    obtain ⟨_, m₁, hok, htaken⟩ :=
      tracks.affords_installNatives hdictionary (hcount cls) entries (by omega)
    obtain ⟨s₂, hq, -⟩ := (settles_installNatives stored cls entries).of_ok hok
    obtain ⟨s₃, owner₃, own, new, hcls, tracks', installs⟩ := tracks.exists_of_installNatives hok
    have hlength : new.length = entries.length :=
      installs.puts.length_eq.symm.trans List.length_reverse
    have building₁ : m₁.Building placed (count + entries.length) := by
      refine building.keep stored hq installs.remembers.classTable_eq
        ⟨s₃, owner₃, _, tracks', fun other own' hother => ?_⟩
      rw [Function.update_apply] at hother
      split at hother
      · obtain rfl := Option.some.inj hother
        have := hcount cls own hcls
        rw [List.length_append]
        omega
      · exact (hcount other own' hother).trans (Nat.le_add_right _ _)
    obtain ⟨m', hrest, htaken', building'⟩ := ih building₁ hplaced.2 (by omega)
    refine ⟨m', ?_, by omega, ?_⟩
    · rw [installKernelNatives, run_bind_of_ok (run_ask_of_ok hkernel), run_bind_of_ok hok, hrest]
    · rwa [nativesCount, List.map_cons, List.sum_cons, ← Nat.add_assoc]

end Building

/-! ### The fresh machine -/

/-- Nil, true and false take a header each. -/
lemma affords_allocateConstants (h : Heap) :
    Affords Heap.room (objectSize 0 + (objectSize 0 + objectSize 0)) allocateConstants h := by
  have hnil : ClassIndex.undefinedObject ≤ Header.maxClassIndex := by decide
  have hyes : ClassIndex.trueClass ≤ Header.maxClassIndex := by decide
  have hno : ClassIndex.falseClass ≤ Header.maxClassIndex := by decide
  have hadmits : ObjectFormat.empty.admits 0 0 = true := rfl
  rw [allocateConstants]
  refine (Heap.affords_allocate hnil hadmits none h).bind fun nil h₁ _ => ?_
  have hset : Heap.setNil nil h₁ = .ok () { h₁ with nil := nil } := rfl
  refine .bind_of_ok hset le_rfl ?_
  refine (Heap.affords_allocate hyes hadmits none _).bind fun yes h₂ _ => ?_
  exact (Heap.affords_allocate hno hadmits none h₂).bind (d := 0) fun no h₃ _ => .pure _

/-- There is a fresh machine as soon as there is room for it. -/
theorem exists_new (hlimit : limit < 2 ^ 64) (hroom : freshCost ≤ limit) :
    ∃ m, Machine.new limit = .ok m ∧ limit ≤ m.room + freshCost ∧
      m.Building (KernelClass.all.map KernelClass.index).reverse
        (nativesCount NativeTable.kernel) := by
  have hinitial : (Heap.new limit).room = max limit wordSize - wordSize := by
    simp [Heap.room, Heap.new, Heap.usedBytes]
  rw [freshCost] at hroom
  obtain ⟨⟨nil, yes, no⟩, h, hconstants, htaken⟩ := affords_allocateConstants (Heap.new limit)
    (by rw [hinitial]; omega)
  obtain ⟨s, rep, orderly, fills, hnil, hobjects⟩ := exists_of_allocateConstants hlimit hconstants
  obtain ⟨stored, hierarchy⟩ : (bare h nil yes no).Stored s ∧ (bare h nil yes no).Hierarchy :=
    exists_stored_bare rep orderly hnil
  have building₀ : (bare h nil yes no).Building [] 0 :=
    { hierarchy, stored := ⟨s, stored⟩, tracks := ⟨s, _, _, tracks_bare rep fills hnil hobjects, fun _ _ h =>
        absurd h.symm (Option.some_ne_none _)⟩
      placed_iff := fun index _ => by simp [classAt?_bare]
      size_ge := by simp [bare]
      size_le := by simp [bare] }
  have hroom₀ : (bare h nil yes no).room = h.room := rfl
  have hordered : IsOrdered [] KernelClass.all := by decide
  obtain ⟨m₁, hkernel, htaken₁, building₁⟩ :=
    building₀.exists_of_createKernelClasses hordered (by decide) (by omega)
  obtain ⟨m₂, hlink, htaken₂, building₂⟩ :=
    building₁.exists_of_linkObjectMetaclass (by decide) (by decide)
  have hroom₃ : selectorsCost SpecialSelector.all ≤ m₂.room := by omega
  obtain ⟨m₃, hselectors, htaken₃, building₃⟩ := building₂.exists_of_internSpecialSelectors hroom₃
  have hplaced : ∀ row ∈ NativeTable.kernel, row.1 < ClassIndex.firstDynamic ∧
      row.1 ∈ (KernelClass.all.map KernelClass.index).reverse ++ [] := by decide
  obtain ⟨m, hnatives, htaken₄, building⟩ :=
    building₃.exists_of_installKernelNatives hplaced (by omega)
  refine ⟨m, new_eq_ok_iff.mpr ⟨nil, yes, no, h, hconstants, ?_⟩, ?_, ?_⟩
  · rw [bootstrap, run_bind_of_ok hkernel, run_bind_of_ok hlink, run_bind_of_ok hselectors, hnatives]
  · rw [freshCost]
    omega
  · simpa using building

/-- The class table of a fresh machine is far from full. -/
lemma Building.size_lt (building : m.Building (KernelClass.all.map KernelClass.index).reverse count) :
    m.classTable.size < Header.maxClassIndex :=
  building.size_le.trans_lt (by decide)

end Machine

end TalkMachine
