/-
# Theory.Ledger -- everything that was handed out is held once

Things are numbered in the order in which they are handed out, and the ledger tallies if what is held
is each of them once.  A step that hands out at most one thing, and loses some of what was held, keeps
it tallying if and only if it loses nothing and hands out the thing that is due (`Tallied.step_iff`).
-/
import Mathlib.Data.Multiset.Range
import Mathlib.Algebra.Order.Group.Multiset
import Mathlib.Tactic.Abel

namespace Everscale.Theory

set_option autoImplicit false

variable {β : Type*} {due : Nat → β}

def Tallied (due : Nat → β) (n : Nat) (held : Multiset β) : Prop := held = (Multiset.range n).map due

namespace Tallied

variable {n : Nat} {held held' new lost : Multiset β}

theorem card_eq (h : Tallied due n held) : held.card = n := by
  rw [h, Multiset.card_map, Multiset.card_range]

theorem step_iff (h : Tallied due n held) (moves : held' + lost = held + new) (one : new.card ≤ 1) :
    Tallied due (n + new.card) held' ↔ lost = 0 ∧ ∀ thing ∈ new, thing = due n := by
  constructor
  · intro after
    have cards := congrArg Multiset.card moves
    rw [Multiset.card_add, Multiset.card_add, after.card_eq, h.card_eq] at cards
    obtain rfl : lost = 0 := Multiset.card_eq_zero.mp (by omega)
    refine ⟨rfl, fun thing member => ?_⟩
    obtain ⟨other, rfl⟩ := Multiset.card_eq_one.mp
      (le_antisymm one (Multiset.card_pos_iff_exists_mem.mpr ⟨thing, member⟩))
    obtain rfl := Multiset.mem_singleton.mp member
    rw [Multiset.card_singleton, Tallied, Multiset.range_succ, Multiset.map_cons, ← Multiset.singleton_add] at after
    rw [add_zero, after, h, add_comm] at moves
    exact (Multiset.singleton_inj.mp (add_left_cancel moves)).symm
  · rintro ⟨rfl, owing⟩
    rw [add_zero] at moves
    subst moves
    rcases Nat.le_one_iff_eq_zero_or_eq_one.mp one with none | single
    · rw [Multiset.card_eq_zero.mp none, Multiset.card_zero, add_zero, add_zero]
      exact h
    · obtain ⟨thing, rfl⟩ := Multiset.card_eq_one.mp single
      rw [owing thing (Multiset.mem_singleton_self _), Multiset.card_singleton, Tallied, Multiset.range_succ,
        Multiset.map_cons, ← Multiset.singleton_add, h, add_comm]

end Tallied

end Everscale.Theory
