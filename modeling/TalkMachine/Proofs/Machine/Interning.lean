import TalkMachine.Proofs.Machine.Operations
import TalkMachine.Proofs.Machine.Provision

/-!
# Names and their symbols

A name that has been interned has one symbol from then on (`Machine.Reached.interns`): whatever is done
to the machine, the same name is answered with the same symbol and nothing is made, no other name is
answered with it, and it spells the name and stays immutable. For want of room a name may be refused;
then nothing has happened. Only classes and their method dictionaries must not be stored into, since
what is put into a method dictionary that has been spoilt may end up anywhere.
-/

namespace TalkMachine

open Machine

/-- Whether an operation spares classes: a native method is one of the kernel that is carried out on
something that exists, and stores neither into a class nor into the method dictionary of one. -/
def Operation.SparesClasses (m : Machine) : Operation → Prop
  | .native _ _ _ method receiver _ => (∀ number, method ≠ .foreign number) ∧
    m.Contains receiver ∧ (Stores method → ¬m.BelongsToClass receiver)
  | _ => True

namespace Machine

variable {m m' : Machine} {s : ObjectMap} {name : String} {symbol : Value} {limit : ℕ}

/-! ### Sparing classes -/

/-- The scope in which anything may be altered and made, and classes are spared. -/
def Scope.sparing : Scope :=
  ⟨fun _ _ => True, fun _ => True, True, True⟩

/-- Classes may be made there. -/
lemma Scope.builds_sparing : Scope.sparing.Builds :=
  ⟨⟨fun _ _ _ => trivial, fun _ _ => trivial⟩, fun _ _ => trivial, trivial⟩

/-- An operation that spares classes stays within that scope. -/
lemma fits_of_sparesClasses {op : Operation} (based : m.Based s) (sheltered : m.Sheltered s)
    (hspares : op.SparesClasses m) : op.Fits .sparing m s := by
  cases op with
  | native host send stack method receiver arguments =>
    obtain ⟨hkernel, contains, hstores⟩ := hspares
    refine ⟨Scope.builds_sparing.toTends, hkernel, fun _ _ _ => trivial, ?_⟩
    intro hstore
    exact contains.mayStore based (fun _ => trivial) fun _ => hstores hstore
  | intern => trivial
  | defineClass | setSuperclass => exact Scope.builds_sparing
  | addMethod | installNatives => exact ⟨Scope.builds_sparing.toTends, sheltered⟩
  | newString | newArray | newAssociation => exact Scope.builds_sparing.toTends
  | instantiate => exact fun _ _ => trivial

/-- Operations that spare classes lead to a machine within that scope. -/
theorem exists_evolves_of_leads (based : m.Based s) (sheltered : m.Sheltered s)
    (steps : Relation.ReflTransGen (Leads Operation.SparesClasses) m m') :
    ∃ s', m.Evolves .sparing s m' s' := by
  refine exists_of_leads (P := m.Evolves .sparing s) steps (.refl based) ?_
  intro m₁ s₁ op he hspares
  have hfits := fits_of_sparesClasses he.based (he.sheltered trivial sheltered) hspares
  obtain ⟨s', he'⟩ := (op.ensures_run he.based hfits).exists_stateAfter
  exact ⟨s', he.trans he'⟩

/-! ### Interned names -/

/-- Whether a name has a symbol: it is answered with it, and nothing happens; no other name is; and the
symbol spells the name and is immutable. -/
structure Interned (m : Machine) (name : String) (symbol : Value) : Prop where
  intern_eq : intern name m = .ok symbol m
  name_eq : ∀ {other : String} {found : Value} {m' : Machine},
    intern other m = .ok found m' → (found = symbol ↔ other = name)
  symbolName?_eq : m.symbolName? symbol = some name
  isImmutable : m.heap.isImmutable symbol = .ok true
  bytes : m.heap.bytes symbol = .ok (Text.utf8 name)

/-- A name with a symbol is interned. -/
theorem Based.interned (based : m.Based s) (hsymbol : m.symbols[name]? = some symbol) :
    m.Interned name symbol := by
  obtain ⟨o, ho, -, himmutable, hbytes⟩ := based.symbol hsymbol
  have shows := (based.rep.holds ho).shows based.rep.usedBytes_lt
  refine ⟨intern_eq_of_symbol hsymbol, fun {other found m'} hok => ?_, based.symbolName?_eq hsymbol,
    himmutable ▸ shows.immutable, shows.bytes.trans hbytes⟩
  obtain ⟨s', (he : m.Evolves .sparing s m' s'), hfound, -⟩ := (ensures_intern based other).of_ok hok
  constructor
  · rintro rfl
    exact (he.based.symbol hfound).name_eq (he.based.symbol (he.symbol hsymbol))
  · rintro rfl
    exact Option.some.inj (hfound.symm.trans (he.symbol hsymbol))

/-- In a machine that has been reached by operations that spare classes, a name may be refused for want
of room only, and then nothing has happened. Otherwise it has one symbol, and keeps it whatever such
operations follow, refused ones among them. -/
theorem Reached.interns (hlimit : limit < 2 ^ 64) (reached : Reached Operation.SparesClasses limit m)
    (name : String) :
    (∀ e m₁, intern name m = .error e m₁ →
      m₁ = m ∧ ∃ requested available, e = .heap (.outOfMemory requested available)) ∧
    ∀ symbol m₁, intern name m = .ok symbol m₁ →
      ∀ m₂, Relation.ReflTransGen (Leads Operation.SparesClasses) m₁ m₂ → m₂.Interned name symbol := by
  obtain ⟨m₀, hnew, steps⟩ := reached
  obtain ⟨s₀, founded, -⟩ := exists_founded_of_new hlimit hnew
  obtain ⟨s, he⟩ := exists_evolves_of_leads founded.based founded.sheltered steps
  refine ⟨fun e m₁ herror => ?_, fun symbol m₁ hok m₂ later => ?_⟩
  · rcases intern_cases he.based name with ⟨_, -, hok⟩ | ⟨-, requested, available, hrefused⟩ |
      ⟨_, _, _, hok, -⟩
    · rw [hok] at herror
      cases herror
    · rw [hrefused] at herror
      cases herror
      exact ⟨rfl, requested, available, rfl⟩
    · rw [hok] at herror
      cases herror
  · obtain ⟨s₁, (he₁ : m.Evolves .sparing s m₁ s₁), hsymbol, -⟩ :=
      (ensures_intern he.based name).of_ok hok
    obtain ⟨s₂, he₂⟩ := exists_evolves_of_leads he₁.based
      (he₁.sheltered trivial (he.sheltered trivial founded.sheltered)) later
    exact he₂.based.interned (he₂.symbol hsymbol)

/-- A name that is interned in a fresh machine has its symbol after a string has been made. -/
theorem Reached.interns_foo :
    ∃ m m₁ m₂ symbol, (1048576 : ℕ) < 2 ^ 64 ∧ Reached Operation.SparesClasses 1048576 m ∧
      intern "foo" m = .ok symbol m₁ ∧ Leads Operation.SparesClasses m₁ m₂ ∧
      m₂.Interned "foo" symbol := by
  have hlimit : (1048576 : ℕ) < 2 ^ 64 := by norm_num
  have hcost : freshCost + symbolCost "foo" ≤ 1048576 := by decide +kernel
  obtain ⟨m, hnew, hroom, building⟩ := exists_new hlimit (by omega)
  obtain ⟨s, stored⟩ := building.stored
  obtain ⟨symbol, m₁, hok, -⟩ := affords_intern stored.rep "foo" (by omega)
  have reached : Reached Operation.SparesClasses 1048576 m := ⟨m, hnew, .refl⟩
  have leads : Leads Operation.SparesClasses m₁ (stateAfter ((Operation.newString "foo").run m₁)) :=
    ⟨.newString "foo", trivial, rfl⟩
  exact ⟨m, m₁, _, symbol, hlimit, reached, hok, leads,
    (Reached.interns hlimit reached "foo").2 symbol m₁ hok _ (.single leads)⟩

end Machine

end TalkMachine
