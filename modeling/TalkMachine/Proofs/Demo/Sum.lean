import Mathlib.Data.Nat.Choose.Basic
import TalkMachine.Demo
import TalkMachine.Proofs.Interpreter.Calling

/-!
# The method that loops

The method of the demonstration that adds up numbers is followed from the head of its loop
(`Demo.goes_sum_head`). The invariant is that the first temporary holds the sum of the numbers up to
some `j` and the second one `j + 1`, where `j` is not above the argument; so the loop is left with
the sum of all numbers up to the argument, unless one of the sums is no small integer. Then the
addition fails.
-/

namespace TalkMachine

namespace Demo

open Interpreter

/-- What the methods of the demonstration need of a machine: truth values that differ, and what the
kernel has for small integers under two selectors. -/
structure Provides (m : Machine) : Prop where
  distinct : m.trueObject ≠ m.falseObject
  adds : ∃ selector, m.specialSelectors[SpecialSelector.add]? = some selector ∧
    ∀ n, ∃ entry, FindsKernel m (Value.ofInt n) selector "+" entry
  multiplies : ∃ selector, m.specialSelectors[SpecialSelector.multiply]? = some selector ∧
    ∀ n, ∃ entry, FindsKernel m (Value.ofInt n) selector "*" entry

/-! ### The code -/

/-- The code that adds up numbers. -/
def sumListing : Code where
  nodes := #[
    .instruction (.pushInteger 0),
    .instruction (.store .temporary 1 true),
    .instruction (.pushInteger 1),
    .instruction (.store .temporary 2 true),
    .bind ⟨0⟩,
    .instruction (.pushVariable .temporary 2),
    .instruction (.pushVariable .temporary 0),
    .instruction (.sendSpecial SpecialSelector.lessEqual),
    .jump .ifFalse ⟨1⟩,
    .instruction (.pushVariable .temporary 1),
    .instruction (.pushVariable .temporary 2),
    .instruction (.sendSpecial SpecialSelector.add),
    .instruction (.store .temporary 1 true),
    .instruction (.pushVariable .temporary 2),
    .instruction (.pushInteger 1),
    .instruction (.sendSpecial SpecialSelector.add),
    .instruction (.store .temporary 2 true),
    .jump .always ⟨0⟩,
    .bind ⟨1⟩,
    .instruction (.pushVariable .temporary 1),
    .instruction (.return .top)]
  literals := #[]
  bound := #[true, true]

/-- The construction leads to this code. -/
lemma sumCode_eq : sumCode Code.empty = .ok () sumListing :=
  rfl

/-- The head of the loop is in one place. -/
lemma eq_of_bind_head {t : ℕ} (ht : sumListing.nodes[t]? = some (.bind ⟨0⟩)) : t = 4 := by
  have hlt : t < 21 := (Array.getElem?_eq_some_iff.mp ht).1
  have hall : ∀ t < 21, sumListing.nodes[t]? = some (.bind ⟨0⟩) → t = 4 := by decide
  exact hall t hlt ht

/-- The end of the loop is in one place. -/
lemma eq_of_bind_done {t : ℕ} (ht : sumListing.nodes[t]? = some (.bind ⟨1⟩)) : t = 18 := by
  have hlt : t < 21 := (Array.getElem?_eq_some_iff.mp ht).1
  have hall : ∀ t < 21, sumListing.nodes[t]? = some (.bind ⟨1⟩) → t = 18 := by decide
  exact hall t hlt ht

/-! ### The sums -/

/-- The sum of the numbers from 1 to a number. -/
def triangle (n : ℕ) : ℕ :=
  n * (n + 1) / 2

/-- The next sum. -/
lemma triangle_succ (n : ℕ) : triangle (n + 1) = triangle n + (n + 1) := by
  have h := Nat.triangle_succ (n + 1)
  rw [Nat.add_sub_cancel, Nat.add_sub_cancel, Nat.mul_comm, Nat.mul_comm (n + 1) n] at h
  exact h

/-- The sums grow. -/
lemma triangle_mono : Monotone triangle :=
  monotone_nat_of_le_succ fun n => by
    rw [triangle_succ]
    omega

/-- A number is at most the sum of the numbers up to it. -/
lemma le_triangle (n : ℕ) : n ≤ triangle n := by
  cases n with
  | zero => exact Nat.zero_le _
  | succ n =>
    rw [triangle_succ]
    omega

/-- One above a number whose sum is a small integer is a small integer as well. -/
lemma succ_lt_of_triangle_lt {n : ℕ} (h : triangle n < 2 ^ 62) : n + 1 < 2 ^ 62 := by
  cases n with
  | zero => exact Nat.one_lt_two_pow (by decide)
  | succ n =>
    have hle := le_triangle n
    rw [triangle_succ] at h
    omega

/-! ### The loop -/

variable {host : Host} {m : Machine} {method : Value} {a : Activation} {base : Stack}
  {P : Demand Unit} {n : ℤ}

/-- A natural number is a small integer if it lies in their range. -/
lemma fitsSmallInteger_natCast {k : ℕ} :
    Value.fitsSmallInteger k = true ↔ k < 2 ^ 62 := by
  rw [Value.fitsSmallInteger_iff]
  omega

/-- The number 0 is a small integer. -/
lemma toInt?_zero : (Value.ofInt 0).toInt? = some 0 :=
  Value.toInt?_ofInt (by decide)

/-- The number 1 is a small integer. -/
lemma toInt?_one : (Value.ofInt 1).toInt? = some 1 :=
  Value.toInt?_ofInt (by decide)

/-- The sum of two natural numbers is answered if it is a small integer. -/
lemma arithmetic_add (m : Machine) {i j : ℕ} (h : i + j < 2 ^ 62) :
    arithmetic m SpecialSelector.add i j = some (Value.ofInt (i + j : ℕ)) :=
  Value.ofInt?_eq_some_iff.mpr (Value.toInt?_ofInt_natCast h)

/-- The sum of two natural numbers is not answered if it is none. -/
lemma arithmetic_add_eq_none (m : Machine) {i j : ℕ} (h : 2 ^ 62 ≤ i + j) :
    arithmetic m SpecialSelector.add i j = none := by
  refine Value.ofInt?_eq_none_iff.mpr ?_
  rw [Value.fitsSmallInteger_iff]
  omega

/-- The variables of the method: its argument, the sum, and the number that is added next. -/
def sumLocals (n : ℤ) (j : ℕ) : List Value :=
  [Value.ofInt n, Value.ofInt (triangle j), Value.ofInt (j + 1 : ℕ)]

section Sum

variable (g : Generated m sumListing method ⟨0, 2, 1⟩) (provides : Provides m)
  (hn : Value.fitsSmallInteger n = true)
  (hfull : base.sp < 96 → ∀ q, P (.error (.stack .overflow) q)) {j : ℕ}

include provides hn hfull in
/-- At the head of the loop the number that is added next is compared with the argument. -/
lemma goes_sum_test (hsum : triangle j < 2 ^ 62) (hlocals : a.locals = sumLocals n j)
    (hbody : 96 ≤ base.sp → (j + 1 : ℕ) ≤ n → g.Goes host 9 a base [] P)
    (hdone : 96 ≤ base.sp → n < (j + 1 : ℕ) → g.Goes host 18 a base [] P) :
    g.Goes host 4 a base [] P := by
  have hpushed (k : ℕ) : a.locals[k]? = (sumLocals n j)[k]? := by rw [hlocals]
  refine g.goes_bind rfl ?_
  refine g.goes_push rfl (hpushed 2) (Generated.overflow_of_room hfull (by simp)) ?_
  refine g.goes_push rfl (hpushed 0) (Generated.overflow_of_room hfull (by simp)) ?_
  rcases Nat.lt_or_ge base.sp 96 with hlt | hge
  · exact g.goes_of_lt hlt
  have hnext := Value.toInt?_ofInt_natCast (succ_lt_of_triangle_lt hsum)
  refine g.goes_arithmetic rfl (by decide) hnext (Value.toInt?_ofInt hn) rfl ?_
  refine g.goes_jumpIfFalse rfl (Generated.condition_boolean provides.distinct _)
    (fun hle => hbody hge (of_decide_eq_true hle)) fun hgt t ht => ?_
  obtain rfl := eq_of_bind_done ht
  exact hdone hge (Int.not_le.mp (of_decide_eq_false hgt))

include hfull in
/-- A pass through the loop adds the next number, if the sum is a small integer. -/
lemma goes_sum_pass (hsum : triangle (j + 1) < 2 ^ 62) (hlocals : a.locals = sumLocals n j)
    (h : g.Goes host 4 ((a.assign 1 (Value.ofInt (triangle (j + 1)))).assign 2
      (Value.ofInt (j + 1 + 1 : ℕ))) base [] P) : g.Goes host 9 a base [] P := by
  have hle := le_triangle j
  have hsucc := triangle_succ j
  have hpushed (k : ℕ) : a.locals[k]? = (sumLocals n j)[k]? := by rw [hlocals]
  have hlocals' : (a.assign 1 (Value.ofInt (triangle (j + 1)))).locals =
      (sumLocals n j).set 1 (Value.ofInt (triangle (j + 1))) := by
    rw [Activation.locals_assign, hlocals]
  have hpushed' (k : ℕ) : (a.assign 1 (Value.ofInt (triangle (j + 1)))).locals[k]? =
      ((sumLocals n j).set 1 (Value.ofInt (triangle (j + 1))))[k]? := by rw [hlocals']
  have hlength : a.locals.length = 3 := by rw [hlocals, sumLocals]; rfl
  have hlength' : (a.assign 1 (Value.ofInt (triangle (j + 1)))).locals.length = 3 := by
    rw [hlocals', List.length_set, sumLocals]
    rfl
  have hindex := Value.toInt?_ofInt_natCast (n := j + 1) (by omega)
  have hadd := arithmetic_add m (i := triangle j) (j := j + 1) (by omega)
  rw [← hsucc] at hadd
  have hnext := arithmetic_add m (i := j + 1) (j := 1) (succ_lt_of_triangle_lt hsum)
  refine g.goes_push rfl (hpushed 1) (Generated.overflow_of_room hfull (by simp)) ?_
  refine g.goes_push rfl (hpushed 2) (Generated.overflow_of_room hfull (by simp)) ?_
  refine g.goes_arithmetic rfl (by decide) (Value.toInt?_ofInt_natCast (by omega)) hindex hadd ?_
  refine g.goes_store rfl (hlength ▸ by decide) ?_
  refine g.goes_push rfl (hpushed' 2) (Generated.overflow_of_room hfull (by simp)) ?_
  refine g.goes_push rfl (Value.ofInt?_eq_some_iff.mpr toInt?_one)
    (Generated.overflow_of_room hfull (by simp)) ?_
  refine g.goes_arithmetic rfl (by decide) hindex toInt?_one hnext ?_
  refine g.goes_store rfl (hlength' ▸ by decide) ?_
  refine g.goes_jump rfl fun t ht => ?_
  obtain rfl := eq_of_bind_head ht
  exact h

include provides hfull in
/-- A pass through the loop fails if the sum is no small integer. -/
lemma goes_sum_fails (hsum : triangle j < 2 ^ 62)
    (hlarge : 2 ^ 62 ≤ triangle (j + 1)) (hlocals : a.locals = sumLocals n j)
    (hfails : ∀ x q, P (.error (.nativeFailed "+" x) q)) : g.Goes host 9 a base [] P := by
  have hpushed (k : ℕ) : a.locals[k]? = (sumLocals n j)[k]? := by rw [hlocals]
  obtain ⟨selector, hselector, hfinds⟩ := provides.adds
  obtain ⟨entry, finds⟩ := hfinds (triangle j)
  rw [triangle_succ] at hlarge
  refine g.goes_push rfl (hpushed 1) (Generated.overflow_of_room hfull (by simp)) ?_
  refine g.goes_push rfl (hpushed 2) (Generated.overflow_of_room hfull (by simp)) ?_
  have hspecial : SpecialSelector.table[SpecialSelector.add]? = some ⟨"+", 1⟩ := rfl
  exact g.goes_arithmetic_fails rfl (by decide) (Value.toInt?_ofInt_natCast hsum)
    (Value.toInt?_ofInt_natCast (succ_lt_of_triangle_lt hsum)) hspecial hselector finds
    (arithmetic_add_eq_none m hlarge) fun q => hfails _ q

include provides hn hfull in
/-- From the head of the loop on, the numbers behind `j` up to the argument are added to the sum of
those up to `j`. -/
theorem goes_sum_head (hj : j ≤ n.toNat) (hsum : triangle j < 2 ^ 62)
    (hlocals : a.locals = sumLocals n j)
    (hfails : 96 ≤ base.sp → 2 ^ 62 ≤ triangle n.toNat →
      ∀ x q, P (.error (.nativeFailed "+" x) q))
    (hreturns : 96 ≤ base.sp → triangle n.toNat < 2 ^ 62 →
      Returns host m a base P (Value.ofInt (triangle n.toNat))) :
    g.Goes host 4 a base [] P := by
  obtain ⟨d, hd⟩ := Nat.exists_eq_add_of_le hj
  -- The induction is on how many numbers are still to be added.
  induction d generalizing j a with
  | zero =>
    obtain rfl : j = n.toNat := by omega
    refine goes_sum_test g provides hn hfull hsum hlocals (fun _ hle => by omega)
      fun hroom hgt => ?_
    have hpushed : a.locals[1]? = (sumLocals n n.toNat)[1]? := by rw [hlocals]
    refine g.goes_bind rfl ?_
    refine g.goes_push rfl hpushed (Generated.overflow_of_room hfull (by simp)) ?_
    exact g.goes_return rfl (hreturns hroom hsum)
  | succ d ih =>
    refine goes_sum_test g provides hn hfull hsum hlocals (fun hroom hle => ?_)
      fun _ hgt => by omega
    rcases Nat.lt_or_ge (triangle (j + 1)) (2 ^ 62) with hlt | hge
    · refine goes_sum_pass g hfull hlt hlocals ?_
      refine ih (by omega) hlt ?_ (fun hroom h => ?_) (by omega)
      · rw [Activation.locals_assign, Activation.locals_assign, hlocals]
        rfl
      · simpa using hreturns hroom h
    · refine goes_sum_fails g provides hfull hsum hge hlocals (hfails hroom ?_)
      exact hge.trans (triangle_mono (by omega))

include provides hn hfull in
/-- The method adds up the numbers from 1 to its argument, or fails at the first sum that is no
small integer. -/
theorem goes_sum {second third : Value} (hlocals : a.locals = [Value.ofInt n, second, third])
    (hfails : 96 ≤ base.sp → 2 ^ 62 ≤ triangle n.toNat →
      ∀ x q, P (.error (.nativeFailed "+" x) q))
    (hreturns : 96 ≤ base.sp → triangle n.toNat < 2 ^ 62 →
      Returns host m a base P (Value.ofInt (triangle n.toNat))) :
    g.Goes host 0 a base [] P := by
  have hlocals' : (a.assign 1 (Value.ofInt 0)).locals = [Value.ofInt n, Value.ofInt 0, third] := by
    rw [Activation.locals_assign, hlocals]
    rfl
  have hzero : Value.ofInt? 0 = some (Value.ofInt 0) := Value.ofInt?_eq_some_iff.mpr toInt?_zero
  refine g.goes_push rfl hzero (Generated.overflow_of_room hfull (by simp)) ?_
  refine g.goes_store rfl (by rw [hlocals]; exact Nat.le_succ 2) ?_
  refine g.goes_push rfl (Value.ofInt?_eq_some_iff.mpr toInt?_one)
    (Generated.overflow_of_room hfull (by simp)) ?_
  refine g.goes_store rfl (by rw [hlocals']; exact Nat.le_refl 3) ?_
  refine goes_sum_head g provides hn hfull (Nat.zero_le _) (Nat.two_pow_pos 62) ?_ hfails
    fun hroom h => ?_
  · rw [Activation.locals_assign, hlocals']
    rfl
  · simpa using hreturns hroom h

end Sum

end Demo

end TalkMachine
