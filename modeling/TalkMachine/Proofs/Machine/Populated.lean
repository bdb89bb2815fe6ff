import TalkMachine.Proofs.Machine.KernelMethods

/-!
# Machines that have been populated

`Machine.Populated` is what becomes of a fresh machine as symbols, classes, methods and objects are
added to it, while nothing is put into a class under some names. All its classes stay in their pairs,
below the superclasses that the kernel is listed with (`Machine.Populated.exists_standard`), and under
these names they have just the native methods of the kernel (`Machine.Populated.offersAll`).
-/

namespace TalkMachine

namespace Machine

variable {m m' : Machine} {s : ObjectMap} {table : List (ℕ × List NativeEntry)} {names : List String}
  {limit : ℕ}

/-! ### Steps -/

/-- A machine with other stacks and another number of calls of the handler. -/
def withStacks (m : Machine) (registry : StackRegistry) (handlerCalls : ℕ) : Machine :=
  { m with registry, handlerCalls }

/-- An operation that succeeds leaves a machine standard unless it replaces superclasses. -/
lemma Standard.exists_of_operation (h : m.Standard s) (op : Operation) (hdirect : op.IsDirect)
    (hop : ∀ cls superclass, op ≠ .setSuperclass cls superclass) (hok : op.run m = .ok () m') :
    ∃ s', m'.Standard s' := by
  obtain ⟨s', sheltered', advances⟩ := op.exists_advances h.based h.classified.sheltered hdirect hok
  cases advances with
  | keeps rewires => exact ⟨s', h.rewires rewires sheltered'⟩
  | redirects => exact absurd rfl (hop _ _)
  | admits admits => exact ⟨s', h.admits admits sheltered'⟩

/-- Stacks are nothing to the classes. -/
lemma Standard.withStacks (h : m.Standard s) (registry : StackRegistry) (handlerCalls : ℕ) :
    (m.withStacks registry handlerCalls).Standard s := by
  have he : m.Evolves .quiet s (m.withStacks registry handlerCalls) s :=
    h.based.evolves_alike ⟨rfl, rfl, rfl, rfl, fun _ => rfl⟩ rfl
  exact h.rewires (he.rewires (fun _ => id) id) (he.sheltered trivial h.classified.sheltered)

/-- They are nothing to the methods either. -/
lemma OffersAll.withStacks (offersAll : m.OffersAll table names) (registry : StackRegistry)
    (handlerCalls : ℕ) : (m.withStacks registry handlerCalls).OffersAll table names := by
  obtain ⟨s, owner, methods, tracks, hoffers⟩ := offersAll
  have tracks' : (m.withStacks registry handlerCalls).Tracks s owner methods :=
    ⟨tracks.equipped.keep tracks.equipped.rep (.refl [] s) nofun rfl rfl, tracks.complete,
      tracks.numbered, tracks.fills⟩
  exact ⟨s, owner, methods, tracks', fun name hname => (hoffers name hname).imp fun symbol offers =>
    offers.keep ⟨rfl, rfl, id, id⟩ (fun _ => rfl) fun _ _ howner native => ⟨howner, native⟩⟩

/-! ### Runs -/

/-- Whether a machine has come out of a fresh one as symbols, classes, methods and objects were added
to it. Nothing has been put into a class under one of the names. On the heap, anything may be allocated
and any object stored into but those that the machine shows and the methods with these names, refused
or not; and any stacks may be registered. -/
inductive Populated (names : List String) (limit : ℕ) : Machine → Prop
  | new {m : Machine} (hok : Machine.new limit = .ok m) : Populated names limit m
  | intern {m m' : Machine} (populated : Populated names limit m) {name : String} {symbol : Value}
    (hok : Machine.intern name m = .ok symbol m') : Populated names limit m'
  | defineClass {m m' : Machine} (populated : Populated names limit m) {name : String}
    {superclass cls : Value} {spec : InstanceSpec}
    (hok : Machine.defineClass name superclass spec m = .ok cls m') : Populated names limit m'
  | addMethod {m m' : Machine} (populated : Populated names limit m) {cls selector method : Value}
    (hselector : m.MaySelect selector) (hother : ∀ name ∈ names, m.symbols[name]? ≠ some selector)
    (hok : Machine.addMethod cls selector method m = .ok () m') : Populated names limit m'
  | installNatives {m m' : Machine} (populated : Populated names limit m) {cls : Value}
    {entries : List NativeEntry} (hother : ∀ entry ∈ entries, entry.selector ∉ names)
    (hok : Machine.installNatives cls entries m = .ok () m') : Populated names limit m'
  | onHeap {m : Machine} (populated : Populated names limit m) {action : Heap.Action}
    (hnil : ∀ nil, action ≠ .setNil nil)
    (htarget : ∀ target ∈ action.target?, m.heap.Allocated target ∧ ¬m.Shows target ∧
      ∀ name ∈ names, ¬m.IsMethodNamed name target) :
    Populated names limit (m.withHeap (stateAfter (action.onHeap m.heap)))
  | withStacks {m : Machine} (populated : Populated names limit m) (registry : StackRegistry)
    (handlerCalls : ℕ) : Populated names limit (m.withStacks registry handlerCalls)

namespace Populated

variable (populated : Populated names limit m) (hlimit : limit < 2 ^ 64)
include populated hlimit

/-- Its classes are in pairs, the kernel classes below the superclasses that they are listed with. -/
theorem exists_standard : ∃ s, m.Standard s := by
  induction populated with
  | new hok => exact exists_standard_of_new hlimit hok
  | intern _ hok ih =>
    obtain ⟨s, standard⟩ := ih
    exact standard.exists_of_operation (.intern _) trivial nofun
      (run_bind_eq_ok_iff.mpr ⟨_, _, hok, rfl⟩)
  | defineClass _ hok ih =>
    obtain ⟨s, standard⟩ := ih
    exact standard.exists_of_operation (.defineClass _ _ _) trivial nofun
      (run_bind_eq_ok_iff.mpr ⟨_, _, hok, rfl⟩)
  | addMethod _ _ _ hok ih =>
    obtain ⟨s, standard⟩ := ih
    exact standard.exists_of_operation (.addMethod _ _ _) trivial nofun hok
  | installNatives _ _ hok ih =>
    obtain ⟨s, standard⟩ := ih
    exact standard.exists_of_operation (.installNatives _ _) trivial nofun hok
  | onHeap _ hnil htarget ih =>
    obtain ⟨s, standard⟩ := ih
    exact standard.exists_of_action hnil fun target hmem =>
      ⟨(htarget target hmem).1, (htarget target hmem).2.1⟩
  | withStacks _ registry handlerCalls ih =>
    obtain ⟨s, standard⟩ := ih
    exact ⟨s, standard.withStacks registry handlerCalls⟩

/-- Under the names its classes have just the native methods of the kernel. -/
theorem offersAll (hnames : ∀ name ∈ names, ∃ selector ∈ SpecialSelector.all, selector.name = name) :
    m.OffersAll NativeTable.kernel names := by
  induction populated with
  | new hok => exact exists_offers_of_new hlimit hok hnames
  | intern _ hok ih => exact ih.of_intern hok
  | defineClass _ hok ih => exact ih.of_defineClass (by decide) hok
  | addMethod _ hselector hother hok ih => exact ih.of_addMethod hselector hother hok
  | installNatives _ hother hok ih => exact ih.of_installNatives hother hok
  | onHeap populated hnil htarget ih =>
    obtain ⟨s, standard⟩ := populated.exists_standard hlimit
    exact ih.of_action (fun hat => standard.based.isClass_iff.mpr ⟨_, hat⟩) hnil htarget
  | withStacks _ registry handlerCalls ih => exact ih.withStacks registry handlerCalls

end Populated

end Machine

end TalkMachine
