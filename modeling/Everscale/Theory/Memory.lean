/-
# Theory.Memory -- a byte-addressed memory

Every address holds an octet.  A number of several octets is stored with its lowest octet
first.  What a store leaves alone is anything outside its range.
-/
import Mathlib.Tactic.Common
import Mathlib.Tactic.Ring

namespace Everscale.Theory

set_option autoImplicit false

/-- The octet at every address. -/
abbrev Memory := Nat → UInt8

namespace Memory

/-- The number in the `n` octets at `a`. -/
def load (m : Memory) (a : Nat) : Nat → Nat
  | 0 => 0
  | n + 1 => (m a).toNat + 256 * load m (a + 1) n

/-- The `n` octets at `a` become those of `v`. -/
def store (m : Memory) (a n v : Nat) : Memory := fun x =>
  if a ≤ x ∧ x < a + n then UInt8.ofNat (v / 256 ^ (x - a)) else m x

/-- `memcpy(target, src, n)`. -/
def copy (m : Memory) (target src n : Nat) : Memory := fun x =>
  if target ≤ x ∧ x < target + n then m (src + (x - target)) else m x

theorem store_outside (m : Memory) {a n x : Nat} (v : Nat) (outside : x < a ∨ a + n ≤ x) :
    m.store a n v x = m x := by
  unfold store
  rw [if_neg (by omega)]

theorem copy_outside (m : Memory) {target n x : Nat} (src : Nat) (outside : x < target ∨ target + n ≤ x) :
    m.copy target src n x = m x := by
  unfold copy
  rw [if_neg (by omega)]

theorem copy_inside (m : Memory) {target n i : Nat} (src : Nat) (inside : i < n) :
    m.copy target src n (target + i) = m (src + i) := by
  unfold copy
  rw [if_pos (by omega), Nat.add_sub_cancel_left]

/-- A number depends on its own octets. -/
theorem load_congr {m m' : Memory} {a n : Nat} (same : ∀ x, a ≤ x → x < a + n → m' x = m x) :
    m'.load a n = m.load a n := by
  induction n generalizing a with
  | zero => rfl
  | succ n ih =>
      have rest := ih (a := a + 1) fun x low high => same x (by omega) (by omega)
      rw [load, load, rest, same a (Nat.le_refl _) (by omega)]

theorem load_store_apart (m : Memory) {a n b k : Nat} (v : Nat) (apart : b + k ≤ a ∨ a + n ≤ b) :
    (m.store a n v).load b k = m.load b k :=
  load_congr fun _ _ _ => store_outside m v (by omega)

/-- The octets of `v` from place `i` on. -/
theorem load_store_from (m : Memory) (a n v i : Nat) (inside : i ≤ n) :
    (m.store a n v).load (a + i) (n - i) = v / 256 ^ i % 256 ^ (n - i) := by
  obtain ⟨d, rfl⟩ := Nat.exists_eq_add_of_le inside
  rw [Nat.add_sub_cancel_left]
  induction d generalizing i with
  | zero => simp [load, Nat.mod_one]
  | succ d ih =>
      have octet : (m.store a (i + (d + 1)) v (a + i)).toNat = v / 256 ^ i % 256 := by
        unfold store
        rw [if_pos (by omega), Nat.add_sub_cancel_left]
        simp
      have rest := ih (i + 1) (by omega)
      rw [show i + 1 + d = i + (d + 1) by omega, show a + (i + 1) = a + i + 1 by omega] at rest
      rw [load, octet, rest, pow_succ 256 i, ← Nat.div_div_eq_div_mul, Nat.pow_succ', Nat.mod_mul]

theorem load_store_same (m : Memory) (a n v : Nat) : (m.store a n v).load a n = v % 256 ^ n := by
  simpa using load_store_from m a n v 0 (Nat.zero_le _)

theorem load_lt (m : Memory) (a n : Nat) : m.load a n < 256 ^ n := by
  induction n generalizing a with
  | zero => simp [load]
  | succ n ih =>
      have rest := ih (a + 1)
      have octet := (m a).toNat_lt
      rw [load, Nat.pow_succ]
      omega

end Memory

end Everscale.Theory
