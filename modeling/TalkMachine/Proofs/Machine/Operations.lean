import Mathlib.Logic.Relation
import TalkMachine.Proofs.Machine.Founding

/-!
# Operations on a machine

What can be done to a machine from outside, apart from running code on it: symbols, strings, arrays,
associations and instances are made, classes are defined and get other superclasses, methods are put
into classes, and native methods are carried out. An operation stays within any scope that fits it,
also where it is refused (`Operation.ensures_run`).

`Machine.Reached` is what becomes of a fresh machine by operations of which it is said in each case
which ones are allowed. What each of these keeps holds of every machine that is reached
(`Machine.Reached.induction`).
-/

namespace TalkMachine

open Machine

/-- An operation on a machine. -/
inductive Operation
  | intern (name : String)
  | defineClass (name : String) (superclass : Value) (spec : InstanceSpec)
  | setSuperclass (cls superclass : Value)
  | addMethod (cls selector method : Value)
  | installNatives (cls : Value) (entries : List NativeEntry)
  | newString (text : String)
  | newArray (elements : List Value)
  | newAssociation (key : String) (value : Value)
  | instantiate (cls : Value) (indexed : ℕ)
  /-- A native method is carried out beside a stack. -/
  | native (host : Host) (send : Sender) (stack : Stack) (native : Native) (receiver : Value)
    (arguments : List Value)

namespace Operation

variable {op : Operation} {m m' : Machine} {s : ObjectMap} {scope : Scope}

/-- Carries out an operation. -/
def run : Operation → MachineM Unit
  | intern name => do let _ ← Machine.intern name
  | defineClass name superclass spec => do let _ ← Machine.defineClass name superclass spec
  | setSuperclass cls superclass => Machine.setSuperclass cls superclass
  | addMethod cls selector method => Machine.addMethod cls selector method
  | installNatives cls entries => Machine.installNatives cls entries
  | newString text => do let _ ← Machine.newString text
  | newArray elements => do let _ ← Machine.newArray elements
  | newAssociation key value => do let _ ← Machine.newAssociation key value
  | instantiate cls indexed => do let _ ← Machine.instantiate cls indexed
  | native host send stack method receiver arguments => do
    let _ ← performNative host send stack method receiver arguments

/-- Whether an operation is not refused. -/
def Succeeds (op : Operation) (m : Machine) : Prop :=
  ∃ m', op.run m = .ok () m'

/-! ### Operations within a scope -/

/-- Whether a scope allows for what an operation does. -/
def Fits (scope : Scope) (m : Machine) (s : ObjectMap) : Operation → Prop
  | intern _ => True
  | defineClass _ _ _ | setSuperclass _ _ => scope.Builds
  | addMethod _ _ _ | installNatives _ _ => scope.Tends ∧ m.Sheltered s
  | newString _ | newArray _ | newAssociation _ _ => scope.Tends
  | instantiate cls _ => ∀ index, m.classAt? index = some cls → scope.makes index
  | native _ _ _ method receiver _ => scope.Tends ∧ (∀ number, method ≠ .foreign number) ∧
    (Instantiates method → ∀ index, m.classAt? index = some receiver → scope.makes index) ∧
    (Stores method → m.MayStore s scope receiver)

/-- An operation and nothing else. -/
lemma ensures_discard {α : Type} {x : MachineM α} {Q : α → Machine → ObjectMap → Prop}
    (hx : Ensures (Evolves scope) x m s Q) :
    Ensures (Evolves scope) (do let _ ← x) m s fun _ _ _ => True :=
  Evolves.bind hx fun _ _ _ he _ => .pure (.refl he.based) trivial

/-- An operation stays within a scope that fits it. -/
theorem ensures_run (based : m.Based s) (hfits : op.Fits scope m s) :
    Ensures (Evolves scope) op.run m s fun _ _ _ => True := by
  cases op with
  | intern name => exact ensures_discard (ensures_intern based name)
  | defineClass name superclass spec =>
    exact ensures_discard ((ensures_defineClass based name superclass spec).mono fun _ _ h =>
      h.mono (fun _ _ => hfits.altersAll _ _) hfits.makes (fun _ => hfits.defines) fun _ => trivial)
  | setSuperclass cls superclass =>
    exact (ensures_setSuperclass based (fun value index _ => hfits.altersAll value index) cls
      superclass).imp fun _ _ _ _ _ => trivial
  | addMethod cls selector method => exact ensures_addMethod based hfits.2 hfits.1 cls selector method
  | installNatives cls entries => exact ensures_installNatives based hfits.2 hfits.1 cls entries
  | newString text => exact ensures_discard (ensures_newString based (hfits.makes _ (by decide)) text)
  | newArray elements =>
    exact ensures_discard (ensures_newArray based (hfits.makes _ (by decide)) elements)
  | newAssociation key value =>
    exact ensures_discard (ensures_newAssociation based (hfits.makes _ (by decide)) key value)
  | instantiate cls indexed => exact ensures_discard (ensures_instantiate based cls indexed hfits)
  | native host send stack method receiver arguments =>
    obtain ⟨tends, hkernel, hinstantiates, hstores⟩ := hfits
    exact ensures_discard (ensures_performNative based hkernel (tends.makes _ (by decide))
      hinstantiates hstores)

end Operation

namespace Machine

variable {allows : Machine → Operation → Prop} {limit : ℕ} {m m' : Machine} {s : ObjectMap}

/-! ### Machines that are reached -/

/-- Whether a machine comes out of another one by an operation that is allowed, refused or not. -/
def Leads (allows : Machine → Operation → Prop) (m m' : Machine) : Prop :=
  ∃ op, allows m op ∧ stateAfter (op.run m) = m'

/-- Whether a machine comes out of a fresh one by operations that are allowed. -/
def Reached (allows : Machine → Operation → Prop) (limit : ℕ) (m : Machine) : Prop :=
  ∃ m₀, Machine.new limit = .ok m₀ ∧ Relation.ReflTransGen (Leads allows) m₀ m

/-- What each operation that is allowed keeps is kept by any number of them. -/
theorem exists_of_leads {P : Machine → ObjectMap → Prop}
    (steps : Relation.ReflTransGen (Leads allows) m m') (hs : P m s)
    (hstep : ∀ {m s op}, P m s → allows m op → ∃ s', P (stateAfter (op.run m)) s') :
    ∃ s', P m' s' := by
  induction steps with
  | refl => exact ⟨s, hs⟩
  | tail _ step ih =>
    obtain ⟨op, hallows, rfl⟩ := step
    obtain ⟨s', hs'⟩ := ih
    exact hstep hs' hallows

/-- What holds of fresh machines and is kept by each operation that is allowed holds of all machines
that are reached. -/
theorem Reached.induction {P : Machine → ObjectMap → Prop} (reached : Reached allows limit m)
    (hlimit : limit < 2 ^ 64) (hnew : ∀ {m s}, m.Founded s → P m s)
    (hstep : ∀ {m s op}, P m s → allows m op → ∃ s', P (stateAfter (op.run m)) s') : ∃ s, P m s := by
  obtain ⟨m₀, hok, steps⟩ := reached
  obtain ⟨s₀, founded, -⟩ := exists_founded_of_new hlimit hok
  exact exists_of_leads steps (hnew founded) hstep

end Machine

end TalkMachine
