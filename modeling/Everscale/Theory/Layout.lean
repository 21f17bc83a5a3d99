/-
# Theory.Layout -- ranges of addresses and alignment

Ranges lie apart or within one another.  A number is rounded up to a multiple of a power of two
by masking its low bits.
-/
import Mathlib.Tactic.Common
import Mathlib.Data.List.Basic
import Mathlib.Data.Nat.Bitwise

namespace Everscale.Theory

set_option autoImplicit false

structure Range where
  start : Nat
  length : Nat
  deriving DecidableEq, Repr

namespace Range

/-- No address is in both. -/
def Apart (r s : Range) : Prop := r.start + r.length ≤ s.start ∨ s.start + s.length ≤ r.start

def Within (r s : Range) : Prop := s.start ≤ r.start ∧ r.start + r.length ≤ s.start + s.length

instance (r s : Range) : Decidable (Apart r s) := inferInstanceAs (Decidable (_ ∨ _))

instance (r s : Range) : Decidable (Within r s) := inferInstanceAs (Decidable (_ ∧ _))

theorem Apart.symm {r s : Range} (apart : Apart r s) : Apart s r := Or.symm apart

theorem Within.trans {r s t : Range} (inner : Within r s) (outer : Within s t) : Within r t := by
  unfold Within at *
  omega

/-- What lies within ranges that are apart is apart. -/
theorem Within.apart {r s t u : Range} (left : Within r t) (right : Within s u) (apart : Apart t u) :
    Apart r s := by
  unfold Within at left right
  unfold Apart at apart ⊢
  omega

end Range

/-! ## Alignment -/

/-- The mask of all bits but the lowest `a` leaves the multiple of `2 ^ a` below. -/
theorem and_mask {w a value : Nat} (le : a ≤ w) (bound : value < 2 ^ w) :
    value &&& (2 ^ w - 2 ^ a) = value / 2 ^ a * 2 ^ a := by
  have low : 2 ^ a ≤ 2 ^ w := Nat.pow_le_pow_right (by decide) le
  have pos := Nat.two_pow_pos a
  have mask : 2 ^ w - 2 ^ a = 2 ^ w - ((2 ^ a - 1) + 1) := by omega
  apply Nat.eq_of_testBit_eq
  intro i
  rw [Nat.testBit_and, mask, Nat.testBit_two_pow_sub_succ (by omega), Nat.testBit_two_pow_sub_one,
    Nat.testBit_mul_two_pow, Nat.testBit_div_two_pow]
  by_cases high : w ≤ i
  · have zero : value.testBit i = false :=
      Nat.testBit_lt_two_pow (Nat.lt_of_lt_of_le bound (Nat.pow_le_pow_right (by decide) high))
    by_cases small : a ≤ i
    · simp [zero, small, Nat.sub_add_cancel small]
    · simp [zero, small]
  · by_cases small : a ≤ i
    · have sum : i - a + a = i := Nat.sub_add_cancel small
      have inside : i < w := by omega
      have notLow : ¬ i < a := by omega
      simp [small, sum, inside, notLow]
    · have isLow : i < a := by omega
      simp [small, isLow]

end Everscale.Theory
