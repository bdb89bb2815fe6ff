import TalkMachine.Dictionary
import TalkMachine.Proofs.Heap.ObjectMap

/-!
# The steps of changes to dictionaries

A change to a dictionary allocates a table or arrays, stores into tables and into their arrays, and
does nothing else. So it leads, also where it is refused half way, along every relation that these
steps lead along (`Dictionary.Steps`): for each such relation it is enough to look at the steps, and
`Dictionary.Steps.new` and `Dictionary.TableSteps.insert` say the rest. The latter only needs the
steps that do not make a table (`Dictionary.TableSteps`).
-/

namespace TalkMachine

namespace Dictionary

variable {ready : Heap → ObjectMap → Prop} {related : Heap → ObjectMap → Heap → ObjectMap → Prop}
  {isTable isArray : ObjectMap → Value → Prop} {h : Heap} {s : ObjectMap}
  {d keyArray valueArray : Value}

/-- What is asked of a relation between heaps for the sake of tables that there are: that it can be
followed from step to step, that tables and their arrays remain such along it, and that arrays can
be made and stored into along it. -/
structure TableSteps (ready : Heap → ObjectMap → Prop)
    (related : Heap → ObjectMap → Heap → ObjectMap → Prop)
    (isTable isArray : ObjectMap → Value → Prop) : Prop where
  refl : ∀ {h s}, ready h s → related h s h s
  trans : ∀ {h s h' s' h'' s''}, related h s h' s' → related h' s' h'' s'' → related h s h'' s''
  ready_of : ∀ {h s h' s'}, related h s h' s' → ready h' s'
  isTable_of : ∀ {h s h' s' d}, related h s h' s' → isTable s d → isTable s' d
  isArray_of : ∀ {h s h' s' array}, related h s h' s' → isArray s array → isArray s' array
  keys : ∀ {h s d array}, ready h s → isTable s d → keys h d = .ok array → isArray s array
  values : ∀ {h s d array}, ready h s → isTable s d → values h d = .ok array → isArray s array
  allocateArray : ∀ {h s} (size : ℕ), ready h s → Ensures related
    (Heap.allocate 0 size .variableSize ClassIndex.array) h s fun array _ s' => isArray s' array
  storeTable : ∀ {h s d} (index : ℕ) (value : Value), ready h s → isTable s d →
    index = tallySlot ∨ isArray s value → Ensures related (Heap.store d index value) h s
    fun _ _ _ => True
  storeArray : ∀ {h s array} (index : ℕ) (value : Value), ready h s → isArray s array →
    Ensures related (Heap.store array index value) h s fun _ _ _ => True

/-- What is asked of a relation between heaps: that all steps of changes to dictionaries lead along
it, those that make a table included. -/
structure Steps (ready : Heap → ObjectMap → Prop)
    (related : Heap → ObjectMap → Heap → ObjectMap → Prop)
    (isTable isArray : ObjectMap → Value → Prop) : Prop
    extends TableSteps ready related isTable isArray where
  allocateTable : ∀ {h s}, ready h s → Ensures related
    (Heap.allocate slotCount 0 .fixedSize ClassIndex.methodDictionary) h s
    fun d _ s' => isTable s' d

namespace TableSteps

variable (steps : TableSteps ready related isTable isArray)
include steps

/-- One change after the other. -/
lemma bind {ε α β : Type} {x : EStateM ε Heap α} {f : α → EStateM ε Heap β}
    {Q : α → Heap → ObjectMap → Prop} {R : β → Heap → ObjectMap → Prop}
    (hx : Ensures related x h s Q) (hf : ∀ a h' s', related h s h' s' → Q a h' s' →
      Ensures related (f a) h' s' R) : Ensures related (x >>= f) h s R :=
  Ensures.bind steps.trans hx hf

/-- A question leads nowhere. -/
lemma ask (hready : ready h s) {α : Type} {question : Heap → Except MachineError α}
    {Q : α → Heap → ObjectMap → Prop} (hQ : ∀ a, question h = .ok a → Q a h s) :
    Ensures related (ask question) h s Q := by
  rw [Ensures, Dictionary.ask]
  cases hanswer : question h with
  | ok a => exact ⟨s, steps.refl hready, hQ a hanswer⟩
  | error e => exact ⟨s, steps.refl hready⟩

/-- A question whose answer does not matter. -/
lemma ask_bind (hready : ready h s) {α β : Type} {question : Heap → Except MachineError α}
    {f : α → DictionaryM β} {R : β → Heap → ObjectMap → Prop}
    (hf : ∀ a, Ensures related (f a) h s R) : Ensures related (Dictionary.ask question >>= f) h s R := by
  cases hanswer : question h with
  | ok a =>
    have hask : Dictionary.ask question h = .ok a h := by simp only [Dictionary.ask, hanswer]
    rw [Ensures, run_bind_of_ok hask]
    exact hf a
  | error e =>
    have hask : Dictionary.ask question h = .error e h := by simp only [Dictionary.ask, hanswer]
    rw [Ensures, run_bind_of_error hask]
    exact ⟨s, steps.refl hready⟩

/-- A new array. -/
lemma newArray (hready : ready h s) (size : ℕ) :
    Ensures related (newArray size) h s fun array _ s' => isArray s' array :=
  (steps.allocateArray size hready).adaptExcept _

/-- Giving arrays to a table. -/
lemma storeArrays (hready : ready h s) (hd : isTable s d) (hkeys : isArray s keyArray)
    (hvalues : isArray s valueArray) :
    Ensures related (do
      Heap.store d keysSlot keyArray
      Heap.store d valuesSlot valueArray : HeapM Unit) h s fun _ _ _ => True :=
  steps.bind (steps.storeTable _ _ hready hd (.inr hkeys)) fun _ _ _ hr₁ _ =>
    steps.storeTable _ _ (steps.ready_of hr₁) (steps.isTable_of hr₁ hd)
      (.inr (steps.isArray_of hr₁ hvalues))

/-- Putting an entry into arrays. -/
lemma storeEntry (hready : ready h s) (hkeys : isArray s keyArray) (hvalues : isArray s valueArray)
    (place : ℕ) (key value : Value) :
    Ensures related (do
      change (Heap.store keyArray place key)
      change (Heap.store valueArray place value) : DictionaryM Unit) h s fun _ _ _ => True :=
  steps.bind ((steps.storeArray place key hready hkeys).adaptExcept _) fun _ _ _ hr₁ _ =>
    (steps.storeArray place value (steps.ready_of hr₁) (steps.isArray_of hr₁ hvalues)).adaptExcept _

/-- Filling two arrays. -/
lemma fill (hready : ready h s) (hkeys : isArray s keyArray) (hvalues : isArray s valueArray)
    (entries : List (Value × Value)) :
    Ensures related (fill keyArray valueArray entries) h s fun _ _ _ => True := by
  induction entries generalizing h s with
  | nil => exact Ensures.pure (steps.refl hready) trivial
  | cons entry rest ih =>
    obtain ⟨key, value⟩ := entry
    rw [Dictionary.fill]
    refine steps.ask_bind hready fun place => ?_
    refine steps.bind ((steps.storeArray place key hready hkeys).adaptExcept _)
      fun _ h₁ s₁ hr₁ _ => ?_
    have hvalues₁ := steps.isArray_of hr₁ hvalues
    refine steps.bind ((steps.storeArray place value (steps.ready_of hr₁) hvalues₁).adaptExcept _)
      fun _ h₂ s₂ hr₂ _ => ?_
    exact ih (steps.ready_of hr₂) (steps.isArray_of hr₂ (steps.isArray_of hr₁ hkeys))
      (steps.isArray_of hr₂ hvalues₁)

/-- A dictionary that grows. -/
lemma grow (hready : ready h s) (hd : isTable s d) :
    Ensures related (grow d) h s fun _ _ _ => True := by
  rw [Dictionary.grow]
  refine steps.ask_bind hready fun old => steps.ask_bind hready fun entries => ?_
  refine steps.bind (steps.newArray hready _) fun keys h₁ s₁ hr₁ hkeys => ?_
  refine steps.bind (steps.newArray (steps.ready_of hr₁) _) fun values h₂ s₂ hr₂ hvalues => ?_
  have hkeys₂ := steps.isArray_of hr₂ hkeys
  refine steps.bind (steps.fill (steps.ready_of hr₂) hkeys₂ hvalues entries) fun _ h₃ s₃ hr₃ _ => ?_
  have hd₃ := steps.isTable_of hr₃ (steps.isTable_of hr₂ (steps.isTable_of hr₁ hd))
  refine steps.bind ((steps.storeTable _ _ (steps.ready_of hr₃) hd₃
    (.inr (steps.isArray_of hr₃ hkeys₂))).adaptExcept _) fun _ h₄ s₄ hr₄ _ => ?_
  exact (steps.storeTable _ _ (steps.ready_of hr₄) (steps.isTable_of hr₄ hd₃)
    (.inr (steps.isArray_of hr₄ (steps.isArray_of hr₃ hvalues)))).adaptExcept _

/-- The search for a place to put a key in. -/
lemma placeFor (hready : ready h s) (hd : isTable s d) (key : Value) :
    Ensures related (placeFor d key) h s fun _ _ _ => True := by
  rw [Dictionary.placeFor]
  refine steps.ask_bind hready fun place? => ?_
  cases place? with
  | some place => exact Ensures.pure (steps.refl hready) trivial
  | none =>
    exact steps.bind (steps.grow hready hd) fun _ h₁ s₁ hr₁ _ =>
      steps.ask (steps.ready_of hr₁) fun _ _ => trivial

/-- Setting the value of a key. -/
theorem insert (hready : ready h s) (hd : isTable s d) (key value : Value) :
    Ensures related (insert d key value) h s fun _ _ _ => True := by
  rw [Dictionary.insert]
  refine steps.bind (steps.placeFor hready hd key) fun place h₁ s₁ hr₁ _ => ?_
  have hready₁ := steps.ready_of hr₁
  have hd₁ := steps.isTable_of hr₁ hd
  refine steps.bind (Q := fun keys _ s' => s' = s₁ ∧ isArray s₁ keys)
    (steps.ask hready₁ fun _ hkeys => ⟨rfl, steps.keys hready₁ hd₁ hkeys⟩) ?_
  rintro keys h₂ s₂ hr₂ ⟨rfl, hkeys⟩
  have hready₂ := steps.ready_of hr₂
  refine steps.bind (Q := fun values _ s' => s' = s₂ ∧ isArray s₂ values)
    (steps.ask hready₂ fun _ hvalues => ⟨rfl, steps.values hready₂ hd₁ hvalues⟩) ?_
  rintro values h₃ s₃ hr₃ ⟨rfl, hvalues⟩
  have hready₃ := steps.ready_of hr₃
  refine steps.ask_bind hready₃ fun isFree => ?_
  split
  · refine steps.ask_bind hready₃ fun tally => ?_
    refine steps.bind ((steps.storeTable _ _ hready₃ hd₁ (.inl rfl)).adaptExcept _)
      fun _ h₄ s₄ hr₄ _ => ?_
    exact steps.storeEntry (steps.ready_of hr₄) (steps.isArray_of hr₄ hkeys)
      (steps.isArray_of hr₄ hvalues) place key value
  · exact steps.storeEntry hready₃ hkeys hvalues place key value

end TableSteps

/-- A new dictionary is a table. -/
theorem Steps.new (steps : Steps ready related isTable isArray) (hready : ready h s) (capacity : ℕ) :
    Ensures related (new capacity) h s fun d _ s' => isTable s' d := by
  rw [Dictionary.new]
  refine steps.bind ((steps.allocateTable hready).adaptExcept _) fun d h₁ s₁ hr₁ hd₁ => ?_
  refine steps.bind (steps.newArray (steps.ready_of hr₁) capacity) fun keys h₂ s₂ hr₂ hkeys => ?_
  refine steps.bind (steps.newArray (steps.ready_of hr₂) capacity) fun values h₃ s₃ hr₃ hvalues => ?_
  have hd₃ := steps.isTable_of hr₃ (steps.isTable_of hr₂ hd₁)
  refine steps.bind (Q := fun _ _ _ => True) (.adaptExcept ?_ _) fun _ h₄ s₄ hr₄ _ =>
    Ensures.pure (steps.refl (steps.ready_of hr₄)) (steps.isTable_of hr₄ hd₃)
  refine steps.bind (steps.storeTable _ _ (steps.ready_of hr₃) hd₃ (.inl rfl)) fun _ h₄ s₄ hr₄ _ => ?_
  exact steps.storeArrays (steps.ready_of hr₄) (steps.isTable_of hr₄ hd₃)
    (steps.isArray_of hr₄ (steps.isArray_of hr₃ hkeys)) (steps.isArray_of hr₄ hvalues)

/-- What has no array of keys has no place for a key, and stays as it is. -/
lemma insert_eq_error {e : MachineError} (hkeys : keys h d = .error e) (key value : Value) :
    insert d key value h = .error e h := by
  have hplace : findPlace h d key = .error e := by
    rw [findPlace, hkeys]
    rfl
  rw [insert, placeFor]
  exact run_bind_of_error (run_bind_of_error (by simp only [ask, hplace]))

end Dictionary

end TalkMachine
