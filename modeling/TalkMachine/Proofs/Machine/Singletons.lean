import TalkMachine.Proofs.Machine.Classification
import TalkMachine.Proofs.Machine.Interning

/-!
# Objects that are the only ones of their kind

Nil, true and false are compared by what they are, and so are symbols. Therefore each of the first
three should be the only object of its class, and a symbol should be immutable and the only one that
spells its name (`Machine.Singular`). This is so as long as no instances of UndefinedObject, True, False
and Symbol are made (`Machine.Reached.isSingular`). Nothing prevents it, though: only the classes of
immediate values refuse to make instances (`Machine.not_isSingular_of_instantiate`).
-/

namespace TalkMachine

open Machine

namespace Operation

/-- Whether an operation makes an instance of a class. -/
def MakesInstanceOf (cls : Value) : Operation → Prop
  | instantiate cls' _ => cls' = cls
  | native _ _ _ method receiver _ => Instantiates method ∧ receiver = cls
  | _ => False

/-- Whether an operation makes objects and classes, or carries out a native method of the kernel on
something that exists. -/
def IsOrdinary (m : Machine) : Operation → Prop
  | native _ _ _ method receiver _ => (∀ number, method ≠ .foreign number) ∧ m.Contains receiver
  | addMethod .. | installNatives .. => False
  | _ => True

end Operation

namespace Machine

variable {m m' : Machine} {s s' : ObjectMap} {value : Value} {scope : Scope} {limit : ℕ}
  {op : Operation}

/-! ### Reserved classes -/

/-- The indices of UndefinedObject, True, False and Symbol. -/
def reservedIndices : List ℕ :=
  [ClassIndex.undefinedObject, ClassIndex.trueClass, ClassIndex.falseClass, ClassIndex.symbol]

/-- The scope in which anything happens but that instances of these four are made. -/
def Scope.reserving : Scope :=
  ⟨fun _ _ => True, fun index => index ∉ reservedIndices, True, False⟩

/-- Classes may be made there. -/
lemma Scope.builds_reserving : Scope.reserving.Builds := by
  refine ⟨⟨fun _ _ _ => trivial, fun index hlt hmem => ?_⟩, fun _ _ => trivial, trivial⟩
  have hle : ∀ index ∈ reservedIndices, index ≤ ClassIndex.symbol := by decide
  exact absurd (hle index hmem) (Nat.not_le.mpr hlt)

/-- An operation that makes no instances of the four stays within that scope. -/
lemma fits_reserving (based : m.Based s) (hordinary : op.IsOrdinary m)
    (hreserved : ∀ cls index, op.MakesInstanceOf cls → m.classAt? index = some cls →
      index ∉ reservedIndices) : op.Fits .reserving m s := by
  cases op with
  | native host send stack method receiver arguments =>
    obtain ⟨hkernel, contains⟩ := hordinary
    refine ⟨Scope.builds_reserving.toTends, hkernel, ?_, ?_⟩
    · intro hmakes index
      exact hreserved receiver index ⟨hmakes, rfl⟩
    · intro _
      exact contains.mayStore based (fun _ => trivial) False.elim
  | instantiate cls => exact fun index => hreserved cls index rfl
  | intern => trivial
  | defineClass | setSuperclass => exact Scope.builds_reserving
  | newString | newArray | newAssociation => exact Scope.builds_reserving.toTends
  | addMethod | installNatives => exact hordinary.elim

/-! ### The only ones of their kind -/

/-- Whether an object with a class index is what it must be: nil, true or false with the index of
UndefinedObject, True or False, and with that of Symbol one that has been entered under a name. -/
structure Befits (m : Machine) (value : Value) (index : ℕ) : Prop where
  undefinedObject : index = ClassIndex.undefinedObject → value = m.nil
  trueClass : index = ClassIndex.trueClass → value = m.trueObject
  falseClass : index = ClassIndex.falseClass → value = m.falseObject
  symbol : index = ClassIndex.symbol → ∃ name : String, m.symbols[name]? = some value

namespace Befits

variable {index : ℕ}

/-- With any other index an object may be what it is. -/
lemma of_not_mem (hindex : index ∉ reservedIndices) : m.Befits value index := by
  refine ⟨?_, ?_, ?_, ?_⟩ <;> rintro rfl <;> exact absurd (by decide) hindex

/-- An object that is what it must be stays so. -/
lemma evolves (h : m.Befits value index) (he : m.Evolves scope s m' s') : m'.Befits value index where
  undefinedObject hindex := (h.undefinedObject hindex).trans he.nil_eq.symm
  trueClass hindex := (h.trueClass hindex).trans he.trueObject_eq.symm
  falseClass hindex := (h.falseClass hindex).trans he.falseObject_eq.symm
  symbol hindex := (h.symbol hindex).imp fun _ => he.symbol

end Befits

/-- Whether all objects are what they must be by their class indices. -/
def Reserved (m : Machine) (s : ObjectMap) : Prop :=
  ∀ value o, s.objects value = some o → m.Befits value o.classIndex

/-- They are where there is nothing but nil, true and false. -/
lemma IsBare.reserved (isBare : m.IsBare s) : m.Reserved s := by
  intro value o ho
  rcases isBare.cases ho with ⟨rfl, hindex⟩ | ⟨rfl, hindex⟩ | ⟨rfl, hindex⟩ <;> rw [hindex]
  · exact ⟨fun _ => rfl, (absurd · (by decide)), (absurd · (by decide)), (absurd · (by decide))⟩
  · exact ⟨(absurd · (by decide)), fun _ => rfl, (absurd · (by decide)), (absurd · (by decide))⟩
  · exact ⟨(absurd · (by decide)), (absurd · (by decide)), fun _ => rfl, (absurd · (by decide))⟩

/-- They stay so within a scope in which no instances of the four classes are made. -/
theorem Reserved.evolves (reserved : m.Reserved s) (he : m.Evolves scope s m' s')
    (hmakes : ∀ index, scope.makes index → index ∉ reservedIndices) : m'.Reserved s' := by
  intro value o' ho'
  cases ho : s.objects value with
  | some o =>
    obtain ⟨_, hsame, hshape⟩ := he.alters.toKeeps.shape ho
    obtain rfl := Option.some.inj (ho'.symm.trans hsame)
    rw [hshape.classIndex]
    exact (reserved value o ho).evolves he
  | none =>
    rcases he.makes ho' ho with hmade | ⟨name, hname⟩
    · exact .of_not_mem (hmakes _ hmade)
    · obtain ⟨_, hsame, hindex, -⟩ := he.based.symbol hname
      obtain rfl := Option.some.inj (ho'.symm.trans hsame)
      rw [hindex]
      exact ⟨(absurd · (by decide)), (absurd · (by decide)), (absurd · (by decide)),
        fun _ => ⟨name, hname⟩⟩

/-- They are in a fresh machine. -/
lemma Founded.reserved (founded : m.Founded s) : m.Reserved s := by
  obtain ⟨m₀, s₀, isBare, he⟩ := founded.origin
  exact isBare.reserved.evolves he Scope.builds_reserving.toTends.makes

/-- Whether a value, if it is an instance of UndefinedObject, True or False, is nil, true or false; and
if it is one of Symbol, is immutable and has been entered under the name that it spells. -/
structure Singular (m : Machine) (value : Value) : Prop where
  undefinedObject : ∀ {cls : Value}, m.classAt? ClassIndex.undefinedObject = some cls →
    m.classOf value = .ok cls → value = m.nil
  trueClass : ∀ {cls : Value}, m.classAt? ClassIndex.trueClass = some cls →
    m.classOf value = .ok cls → value = m.trueObject
  falseClass : ∀ {cls : Value}, m.classAt? ClassIndex.falseClass = some cls →
    m.classOf value = .ok cls → value = m.falseObject
  symbol : ∀ {cls : Value}, m.classAt? ClassIndex.symbol = some cls → m.classOf value = .ok cls →
    m.heap.isImmutable value = .ok true ∧
      ∃ name : String, m.heap.bytes value = .ok (Text.utf8 name) ∧ m.symbols[name]? = some value

/-- An object that is what it must be is the only one of its kind. -/
lemma Befits.singular {o : Object} (h : m.Befits value o.classIndex) (based : m.Based s)
    (ho : s.objects value = some o) : m.Singular value := by
  have hindex : ∀ {index cls}, m.classAt? index = some cls → m.classOf value = .ok cls →
      o.classIndex = index := fun hat hclassOf =>
    based.index_eq ((based.classOf_eq_ok_iff ho).mp hclassOf) hat
  refine ⟨fun hat hof => h.undefinedObject (hindex hat hof), fun hat hof => h.trueClass (hindex hat hof),
    fun hat hof => h.falseClass (hindex hat hof), fun hat hof => ?_⟩
  obtain ⟨name, hname⟩ := h.symbol (hindex hat hof)
  have interned := based.interned hname
  exact ⟨interned.isImmutable, name, interned.bytes, hname⟩

/-- Whether the heap is made up of objects that are the only ones of their kind if they are to be. -/
def IsSingular (m : Machine) : Prop :=
  ∃ s, m.heap.Represents s ∧ s.Fills ∧ ∀ value o, s.objects value = some o → m.Singular value

/-! ### As long as the classes are reserved -/

/-- Whether an operation is ordinary and makes no instance of UndefinedObject, True, False or Symbol. -/
def MayMake (m : Machine) (op : Operation) : Prop :=
  op.IsOrdinary m ∧ ∀ cls index, op.MakesInstanceOf cls → m.classAt? index = some cls →
    index ∉ reservedIndices

/-- Objects are what they must be again after such an operation. -/
theorem Reserved.step (reserved : m.Reserved s) (based : m.Based s) (hmay : MayMake m op) :
    ∃ s', (stateAfter (op.run m)).Based s' ∧ (stateAfter (op.run m)).Reserved s' := by
  have hfits : op.Fits .reserving m s := fits_reserving based hmay.1 hmay.2
  obtain ⟨s', he⟩ := (op.ensures_run based hfits).exists_stateAfter
  exact ⟨s', he.based, reserved.evolves he fun _ => id⟩

/-- Nil, true and false are the only objects of their classes, and symbols are immutable and the only
ones of their names, in a machine that has been reached by such operations. -/
theorem Reached.isSingular (hlimit : limit < 2 ^ 64) (reached : Reached MayMake limit m) :
    m.IsSingular := by
  obtain ⟨s, based, reserved⟩ := reached.induction (P := fun m s => m.Based s ∧ m.Reserved s) hlimit
    (fun founded => ⟨founded.based, founded.reserved⟩) fun h hmay => h.2.step h.1 hmay
  refine ⟨s, based.rep, based.fills, ?_⟩
  intro value o ho
  exact (reserved value o ho).singular based ho

/-! ### Instances of kernel classes -/

/-- Whether a value is an object that a fresh machine has made as an instance of the class at an index:
mutable, and other than nil. -/
structure MadeAt (index : ℕ) (m : Machine) (cls value : Value) (m' : Machine) : Prop where
  new_eq : Machine.new 1048576 = .ok m
  classAt?_eq : m.classAt? index = some cls
  instantiate_eq : instantiate cls 0 m = .ok value m'
  classAt?_eq' : m'.classAt? index = some cls
  classOf_eq : m'.classOf value = .ok cls
  allocated : m'.heap.Allocated value
  isImmutable_eq : m'.heap.isImmutable value = .ok false
  ne_nil : value ≠ m'.nil

/-- A fresh machine makes instances of its kernel classes, unless these are immediate. -/
lemma exists_madeAt {k : KernelClass} (hk : k ∈ KernelClass.all)
    (hunpack : InstanceSpec.unpack? k.spec.pack = some k.spec)
    (hindex : ClassIndex.smallFloat < k.index)
    (hadmits : k.spec.format.admits k.spec.fixedFields 0 = true)
    (hcost : freshCost + Heap.objectSize (k.spec.fixedFields + k.spec.format.slotsFor 0) ≤ 1048576) :
    ∃ m cls value m' s, MadeAt k.index m cls value m' ∧ m.Based s := by
  obtain ⟨m, hnew, hroom, -⟩ := exists_new (show 1048576 < 2 ^ 64 by norm_num) (by omega)
  obtain ⟨s, founded, hlimit⟩ := exists_founded_of_new (by norm_num) hnew
  obtain ⟨cls, hat, haffords⟩ := (founded.kernel k hk).affords_instantiate founded.based hunpack hindex
    0 hadmits
  obtain ⟨value, m', hok, -⟩ := haffords (by omega)
  have hmakes : ∀ index, m.classAt? index = some cls → Scope.quiet.makes index := fun _ _ => trivial
  obtain ⟨s', he, -, index, o, hindex, hnone, ho, rfl, hmutable⟩ :=
    (ensures_instantiate founded.based cls 0 hmakes).of_ok hok
  have shows := (he.based.rep.holds ho).shows he.based.rep.usedBytes_lt
  refine ⟨m, cls, value, m', s,
    ⟨hnew, hat, hok, he.classAt?_of hat, ?_, ?_, hmutable ▸ shows.immutable, ?_⟩, founded.based⟩
  · exact (he.based.classOf_eq_ok_iff ho).mpr (he.classAt?_of hindex)
  · refine (he.based.rep.allocated_iff he.based.fills ?_).mpr ⟨o, ho⟩
    have hle := he.based.rep.used_le
    rw [he.alters.limit_eq, hlimit] at hle
    exact (he.based.rep.used_eq.trans_le hle).trans_lt (by decide)
  · rw [he.nil_eq]
    exact founded.based.ne_nil_of_none hnone

/-- The object that has been made is the only one of its kind if all are. -/
lemma MadeAt.singular {index : ℕ} {cls : Value} (made : MadeAt index m cls value m')
    (isSingular : m'.IsSingular) : m'.Singular value := by
  obtain ⟨s', rep', fills', hall⟩ := isSingular
  obtain ⟨o, ho⟩ := made.allocated s' rep' fills'
  exact hall value o ho

/-- The objects of a fresh machine are the only ones of their kind after an instance of Object has been
made. -/
theorem Reached.isSingular_object :
    ∃ m, (1048576 : ℕ) < 2 ^ 64 ∧ Reached MayMake 1048576 m ∧ m.IsSingular := by
  have hlimit : (1048576 : ℕ) < 2 ^ 64 := by norm_num
  have hobject : (⟨ClassIndex.object, "Object", none, ⟨.fixedSize, 0⟩⟩ : KernelClass) ∈
    KernelClass.all := .head _
  obtain ⟨m, object, value, m', s, made, based⟩ := exists_madeAt hobject (by decide) (by decide)
    (by decide) (by decide +kernel)
  have hmay : MayMake m (.instantiate object 0) := by
    refine ⟨trivial, ?_⟩
    rintro _ index rfl hat
    rw [based.index_eq hat made.classAt?_eq]
    decide
  have hrun : (Operation.instantiate object 0).run m = .ok () m' :=
    run_bind_eq_ok_iff.mpr ⟨value, m', made.instantiate_eq, rfl⟩
  have reached : Reached MayMake 1048576 m' :=
    ⟨m, made.new_eq, .single ⟨.instantiate object 0, hmay, by rw [hrun]; rfl⟩⟩
  exact ⟨m', hlimit, reached, Reached.isSingular hlimit reached⟩

/-- Without that condition it is otherwise: a fresh machine makes an instance of UndefinedObject that is
not nil, and an instance of Symbol that is mutable. -/
theorem not_isSingular_of_instantiate :
    (∃ m undefinedObject value m', MadeAt ClassIndex.undefinedObject m undefinedObject value m' ∧
      ¬m'.IsSingular) ∧
    ∃ m symbol value m', MadeAt ClassIndex.symbol m symbol value m' ∧ ¬m'.IsSingular := by
  have hundefined : (⟨ClassIndex.undefinedObject, "UndefinedObject", some ClassIndex.object,
    ⟨.empty, 0⟩⟩ : KernelClass) ∈ KernelClass.all := by simp [KernelClass.all]
  have hsymbol : (⟨ClassIndex.symbol, "Symbol", some ClassIndex.string, ⟨.indexable8, 0⟩⟩ :
    KernelClass) ∈ KernelClass.all := by simp [KernelClass.all]
  constructor
  · obtain ⟨m, cls, value, m', -, made, -⟩ := exists_madeAt hundefined (by decide) (by decide)
      (by decide) (by decide +kernel)
    refine ⟨m, cls, value, m', made, fun isSingular => made.ne_nil ?_⟩
    exact (made.singular isSingular).undefinedObject made.classAt?_eq' made.classOf_eq
  · obtain ⟨m, cls, value, m', -, made, -⟩ := exists_madeAt hsymbol (by decide) (by decide)
      (by decide) (by decide +kernel)
    refine ⟨m, cls, value, m', made, fun isSingular => ?_⟩
    have himmutable := ((made.singular isSingular).symbol made.classAt?_eq' made.classOf_eq).1
    rw [made.isImmutable_eq] at himmutable
    cases himmutable

end Machine

end TalkMachine
