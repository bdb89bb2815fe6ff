import Mathlib.Data.Nat.Factorial.Basic
import TalkMachine.Proofs.Demo.Sum

/-!
# The method that recurs

The method of the demonstration that computes factorials is followed through all of its frames
(`Demo.goes_factorial`). A frame that sends the method again keeps the factor that is its own on the
stack, 72 bytes in all, so that the room that is needed grows with the argument. The factorials up
to that of 20 are small integers. That of 21 is none, and the multiplication fails which comes to
it.
-/

namespace TalkMachine

namespace Demo

open Interpreter Nat

/-! ### The code -/

/-- The code that computes factorials. -/
def factorialListing (selector : Value) : Code where
  nodes := #[
    .instruction (.pushVariable .temporary 0),
    .instruction (.pushInteger 1),
    .instruction (.sendSpecial SpecialSelector.lessEqual),
    .jump .ifFalse ⟨0⟩,
    .instruction (.pushInteger 1),
    .instruction (.return .top),
    .bind ⟨0⟩,
    .instruction (.pushVariable .temporary 0),
    .instruction (.pushConstant .receiver),
    .instruction (.pushVariable .temporary 0),
    .instruction (.pushInteger 1),
    .instruction (.sendSpecial SpecialSelector.subtract),
    .instruction (.send 0 1),
    .instruction (.sendSpecial SpecialSelector.multiply),
    .instruction (.return .top)]
  literals := #[selector]
  bound := #[true]

variable {host : Host} {m : Machine} {selector method receiver : Value} {a : Activation}
  {base : Stack} {P : Demand Unit} {n : ℤ} {k : ℕ}

/-- The construction leads to this code. -/
lemma factorialCode_eq (selector : Value) :
    factorialCode selector Code.empty = .ok () (factorialListing selector) := by
  with_unfolding_all rfl

/-- The label is in one place. -/
lemma eq_of_bind_recur {t : ℕ}
    (ht : (factorialListing selector).nodes[t]? = some (.bind ⟨0⟩)) : t = 6 := by
  have hlt : t < 15 := (Array.getElem?_eq_some_iff.mp ht).1
  have hall : ∀ t < 15,
      (factorialListing Value.zero).nodes[t]? = some (.bind ⟨0⟩) → t = 6 := by decide
  exact hall t hlt ht

/-! ### The products -/

/-- The factorials of the numbers up to 20, and no others, are small integers. -/
lemma factorial_lt_iff : k ! < 2 ^ 62 ↔ k ≤ 20 := by
  constructor
  · intro h
    by_contra hgt
    have hle : 21 ! ≤ k ! := factorial_le (Nat.not_le.mp hgt)
    have hlarge : 2 ^ 62 < 21 ! := by decide +kernel
    omega
  · intro hle
    have hsmall : 20 ! < 2 ^ 62 := by decide +kernel
    exact (factorial_le hle).trans_lt hsmall

/-- One less than a positive number is answered. -/
lemma arithmetic_pred (m : Machine) (h : k < 2 ^ 62) :
    arithmetic m SpecialSelector.subtract (k + 1 : ℕ) 1 = some (Value.ofInt k) := by
  have hpred : ((k + 1 : ℕ) : ℤ) - 1 = k := by omega
  refine Value.ofInt?_eq_some_iff.mpr ?_
  rw [hpred]
  exact Value.toInt?_ofInt_natCast h

/-- The product of two natural numbers is answered if it is a small integer. -/
lemma arithmetic_multiply (m : Machine) {i j : ℕ} (h : i * j < 2 ^ 62) :
    arithmetic m SpecialSelector.multiply i j = some (Value.ofInt (i * j : ℕ)) :=
  Value.ofInt?_eq_some_iff.mpr (Value.toInt?_ofInt_natCast h)

/-- The product of two natural numbers is not answered if it is none. -/
lemma arithmetic_multiply_eq_none (m : Machine) {i j : ℕ} (h : 2 ^ 62 ≤ i * j) :
    arithmetic m SpecialSelector.multiply i j = none := by
  refine Value.ofInt?_eq_none_iff.mpr fun hfits => ?_
  have hlt := (Value.fitsSmallInteger_iff.mp hfits).2
  rw [← Int.natCast_mul] at hlt
  omega

/-! ### One frame -/

variable (g : Generated m (factorialListing selector) method ⟨1, 0, 1⟩)

/-- The argument is compared with 1. -/
lemma goes_factorial_test (hdistinct : m.trueObject ≠ m.falseObject)
    (hn : Value.fitsSmallInteger n = true) (hlocals : a.locals = [Value.ofInt n])
    (hfull : base.sp < 80 → ∀ q, P (.error (.stack .overflow) q))
    (hone : 80 ≤ base.sp → n ≤ 1 → g.Goes host 4 a base [] P)
    (hmore : 1 < n → g.Goes host 6 a base [] P) :
    g.Goes host 0 a base [] P := by
  have hpushed : a.locals[0]? = [Value.ofInt n][0]? := by rw [hlocals]
  refine g.goes_push rfl hpushed (Generated.overflow_of_room hfull (by simp)) ?_
  refine g.goes_push rfl (Value.ofInt?_eq_some_iff.mpr toInt?_one)
    (Generated.overflow_of_room hfull (by simp)) ?_
  rcases Nat.lt_or_ge base.sp 80 with hlt | hge
  · exact g.goes_of_lt hlt
  refine g.goes_arithmetic rfl (by decide) (Value.toInt?_ofInt hn) toInt?_one rfl ?_
  refine g.goes_jumpIfFalse rfl (Generated.condition_boolean hdistinct _)
    (fun hle => hone hge (of_decide_eq_true hle)) fun hgt t ht => ?_
  obtain rfl := eq_of_bind_recur ht
  exact hmore (Int.not_le.mp (of_decide_eq_false hgt))

/-- For arguments up to 1 the answer is 1. -/
lemma goes_factorial_one (hdistinct : m.trueObject ≠ m.falseObject)
    (hn : Value.fitsSmallInteger n = true) (hone : n ≤ 1) (hlocals : a.locals = [Value.ofInt n])
    (hfull : base.sp < 80 → ∀ q, P (.error (.stack .overflow) q))
    (hreturns : 80 ≤ base.sp → Returns host m a base P (Value.ofInt 1)) :
    g.Goes host 0 a base [] P := by
  refine goes_factorial_test g hdistinct hn hlocals hfull (fun hroom _ => ?_)
    fun hmore => by omega
  refine g.goes_push rfl (Value.ofInt?_eq_some_iff.mpr toInt?_one)
    (Generated.overflow_of_room hfull (by simp)) ?_
  exact g.goes_return rfl (hreturns hroom)

/-- For greater arguments the method is sent again, with one less. -/
lemma goes_factorial_more (hdistinct : m.trueObject ≠ m.falseObject)
    (hfits : k + 2 < 2 ^ 62) (hlocals : a.locals = [Value.ofInt (k + 2 : ℕ)])
    (hfind : m.find a.receiver selector = .ok (some (.compiled method)))
    (hfull : base.sp < 152 → ∀ q, P (.error (.stack .overflow) q))
    (h : ∀ base', a.Of method ⟨1, 0, 1⟩ → a.On base [Value.ofInt (k + 2 : ℕ)] base' →
      g.Goes host 0 (.entered m method ⟨1, 0, 1⟩ a.receiver [Value.ofInt (k + 1 : ℕ)] base'.fp
        (g.registers 13).pc) base' [] P) : g.Goes host 0 a base [] P := by
  have hn : Value.fitsSmallInteger (k + 2 : ℕ) = true := fitsSmallInteger_natCast.mpr hfits
  have hpushed : a.locals[0]? = [Value.ofInt (k + 2 : ℕ)][0]? := by rw [hlocals]
  have hsubtract := arithmetic_pred m (k := k + 1) (by omega)
  refine goes_factorial_test g hdistinct hn hlocals (fun hlt => hfull (by omega))
    (fun _ hone => by omega) fun _ => ?_
  refine g.goes_bind rfl ?_
  refine g.goes_push rfl hpushed (Generated.overflow_of_room hfull (by simp)) ?_
  refine g.goes_push rfl rfl (Generated.overflow_of_room hfull (by simp)) ?_
  refine g.goes_push rfl hpushed (Generated.overflow_of_room hfull (by simp)) ?_
  refine g.goes_push rfl (Value.ofInt?_eq_some_iff.mpr toInt?_one)
    (Generated.overflow_of_room hfull (by simp)) ?_
  refine g.goes_arithmetic rfl (by decide) (Value.toInt?_ofInt hn) toInt?_one hsubtract ?_
  exact g.goes_send g [Value.ofInt (k + 1 : ℕ)] rfl rfl hfind rfl
    (fun hlt => hfull (by simpa using hlt.trans_le (by simp))) h

/-- The answer for one less is multiplied with the argument. -/
lemma goes_factorial_product (provides : Provides m) (hfits : k + 1 < 2 ^ 62) (hless : k ! < 2 ^ 62)
    (hfails : 20 ≤ k → ∀ x q, P (.error (.nativeFailed "*" x) q))
    (hreturns : k < 20 → Returns host m a base P (Value.ofInt (k + 1)!)) :
    g.Goes host 13 a base [Value.ofInt k !, Value.ofInt (k + 1 : ℕ)] P := by
  have hx := Value.toInt?_ofInt_natCast hfits
  have hy := Value.toInt?_ofInt_natCast hless
  rcases Nat.lt_or_ge k 20 with hlt | hge
  · have hproduct := arithmetic_multiply m (i := k + 1) (j := k !) (factorial_lt_iff.mpr hlt)
    refine g.goes_arithmetic rfl (by decide) hx hy hproduct ?_
    exact g.goes_return rfl (hreturns hlt)
  · have hlarge : 2 ^ 62 ≤ (k + 1)! := Nat.not_lt.mp fun hlt => by
      have hle := factorial_lt_iff.mp hlt
      omega
    have hproduct := arithmetic_multiply_eq_none m (i := k + 1) (j := k !) hlarge
    obtain ⟨selector', hselector, hfinds⟩ := provides.multiplies
    obtain ⟨entry, finds⟩ := hfinds (k + 1 : ℕ)
    have hspecial : SpecialSelector.table[SpecialSelector.multiply]? = some ⟨"*", 1⟩ := rfl
    exact g.goes_arithmetic_fails rfl (by decide) hx hy hspecial hselector finds hproduct
      fun q => hfails hge _ q

/-! ### All frames -/

/-- The bytes that the computation of a factorial takes on the stack. -/
def factorialRoom (n : ℕ) : ℕ :=
  72 * max n 1 + 8

/-- The method computes the factorial of its argument, or fails with the first product that is no
small integer. -/
theorem goes_factorial_succ (provides : Provides m) (hfits : k + 1 < 2 ^ 62)
    (hlocals : a.locals = [Value.ofInt (k + 1 : ℕ)])
    (hfind : m.find a.receiver selector = .ok (some (.compiled method)))
    (hfull : base.sp < factorialRoom (k + 1) → ∀ q, P (.error (.stack .overflow) q))
    (hfails : factorialRoom (k + 1) ≤ base.sp → 20 ≤ k →
      ∀ x q, P (.error (.nativeFailed "*" x) q))
    (hreturns : factorialRoom (k + 1) ≤ base.sp → k < 20 →
      Returns host m a base P (Value.ofInt (k + 1)!)) :
    g.Goes host 0 a base [] P := by
  -- The induction is on how often the method is still sent; the frame of the sender waits below.
  induction k generalizing a base with
  | zero =>
    have hn : Value.fitsSmallInteger (0 + 1 : ℕ) = true := fitsSmallInteger_natCast.mpr hfits
    exact goes_factorial_one g provides.distinct hn (Int.le_refl 1) hlocals hfull
      fun hroom => hreturns hroom (by decide)
  | succ k ih =>
    unfold factorialRoom at hfull hfails hreturns ih
    refine goes_factorial_more g provides.distinct hfits hlocals hfind
      (fun hlt => hfull (by omega)) fun base' of on => ?_
    have hsp : base'.sp + 72 = base.sp := by
      have hsp := on.topped.sp
      rw [List.length_append, of.length_words] at hsp
      exact hsp
    refine ih (by omega) rfl hfind (fun hlt => hfull (by omega))
      (fun hroom hk => hfails (by omega) (by omega)) fun hroom hk => ?_
    refine g.returns_of_goes of on ?_
    refine goes_factorial_product g provides hfits (factorial_lt_iff.mpr (by omega))
      (fun hk' => hfails (by omega) hk') fun hk' => hreturns (by omega) hk'

end Demo

end TalkMachine
