/-
# Theory.Comparison -- comparators that answer with a signed integer

A comparator of the C kind says with a negative number, zero or a positive number how its
first argument stands to its second.  `OrdersOn compare S` says that this is a total preorder
of `S`.  A comparator that compares a key in a linear order is one (`OrdersOn.of_key`), and so is
one that goes on to a second comparator where the first says zero (`OrdersOn.thenBy`); the second
one need only order the elements that the first does not tell apart.
-/
import Mathlib.Algebra.Order.Group.Int
import Mathlib.Data.Set.Finite.Basic
import Mathlib.Tactic.Common

namespace Everscale.Theory

set_option autoImplicit false

variable {α β κ : Type*}

/-- Swapping the arguments swaps the sign, and "at most" is transitive. -/
structure OrdersOn (compare : α → α → Int) (S : Set α) : Prop where
  opposite : ∀ a ∈ S, ∀ b ∈ S, (compare b a).sign = -(compare a b).sign
  trans : ∀ a ∈ S, ∀ b ∈ S, ∀ c ∈ S, compare a b ≤ 0 → compare b c ≤ 0 → compare a c ≤ 0

/-- The first comparator, and the second one where the first says zero. -/
def thenBy (first second : α → α → Int) (a b : α) : Int :=
  if first a b ≠ 0 then first a b else second a b

theorem thenBy_eq_zero_iff (first second : α → α → Int) (a b : α) :
    thenBy first second a b = 0 ↔ first a b = 0 ∧ second a b = 0 := by
  unfold thenBy
  by_cases tie : first a b = 0 <;> simp [tie]

theorem sign_eq_neg_sign_iff (i j : Int) :
    j.sign = -i.sign ↔ (i < 0 ↔ 0 < j) ∧ (0 < i ↔ j < 0) := by
  rcases lt_trichotomy i 0 with neg | rfl | pos
  · rw [Int.sign_eq_neg_one_of_neg neg, neg_neg, Int.sign_eq_one_iff_pos]
    omega
  · rw [Int.sign_zero, neg_zero, Int.sign_eq_zero_iff_zero]
    omega
  · rw [Int.sign_eq_one_of_pos pos, Int.sign_eq_neg_one_iff_neg]
    omega

namespace OrdersOn

variable {compare first second : α → α → Int} {S T : Set α}

theorem neg_iff (h : OrdersOn compare S) {a b : α} (ha : a ∈ S) (hb : b ∈ S) :
    compare a b < 0 ↔ 0 < compare b a :=
  ((sign_eq_neg_sign_iff _ _).1 (h.opposite a ha b hb)).1

theorem zero_comm (h : OrdersOn compare S) {a b : α} (ha : a ∈ S) (hb : b ∈ S)
    (tie : compare a b = 0) : compare b a = 0 := by
  have opposite := h.opposite a ha b hb
  rw [tie, Int.sign_zero, neg_zero] at opposite
  exact Int.sign_eq_zero_iff_zero.1 opposite

theorem zero_trans (h : OrdersOn compare S) {a b c : α} (ha : a ∈ S) (hb : b ∈ S) (hc : c ∈ S)
    (tie : compare a b = 0) (tie' : compare b c = 0) : compare a c = 0 := by
  have forth := h.trans a ha b hb c hc tie.le tie'.le
  have back := h.trans c hc b hb a ha (h.zero_comm hb hc tie').le (h.zero_comm ha hb tie).le
  have := h.neg_iff ha hc
  omega

/-- An element is told apart from both of two that are not told apart, or from neither. -/
theorem zero_congr (h : OrdersOn compare S) {a b c : α} (ha : a ∈ S) (hb : b ∈ S) (hc : c ∈ S)
    (tie : compare a c = 0) : compare b c = 0 ↔ compare a b = 0 := by
  constructor
  · intro tie'
    exact h.zero_trans ha hc hb tie (h.zero_comm hb hc tie')
  · intro tie'
    exact h.zero_trans hb ha hc (h.zero_comm ha hb tie') tie

/-- A strict step on the left makes the whole step strict. -/
theorem neg_of_neg_of_le (h : OrdersOn compare S) {a b c : α} (ha : a ∈ S) (hb : b ∈ S)
    (hc : c ∈ S) (below : compare a b < 0) (le : compare b c ≤ 0) : compare a c < 0 := by
  by_contra above
  have back : compare c a ≤ 0 := by
    have := h.neg_iff ha hc
    omega
  have := h.trans b hb c hc a ha le back
  have := h.neg_iff ha hb
  omega

/-- A strict step on the right makes the whole step strict. -/
theorem neg_of_le_of_neg (h : OrdersOn compare S) {a b c : α} (ha : a ∈ S) (hb : b ∈ S)
    (hc : c ∈ S) (le : compare a b ≤ 0) (below : compare b c < 0) : compare a c < 0 := by
  by_contra above
  have back : compare c a ≤ 0 := by
    have := h.neg_iff ha hc
    omega
  have := h.trans c hc a ha b hb back le
  have := h.neg_iff hb hc
  omega

theorem mono (h : OrdersOn compare S) (sub : T ⊆ S) : OrdersOn compare T where
  opposite a ha b hb := h.opposite a (sub ha) b (sub hb)
  trans a ha b hb c hc := h.trans a (sub ha) b (sub hb) c (sub hc)

theorem congr (h : OrdersOn first S) (same : ∀ a ∈ S, ∀ b ∈ S, second a b = first a b) :
    OrdersOn second S where
  opposite a ha b hb := by rw [same b hb a ha, same a ha b hb]; exact h.opposite a ha b hb
  trans a ha b hb c hc := by
    rw [same a ha b hb, same b hb c hc, same a ha c hc]
    exact h.trans a ha b hb c hc

/-- The comparison of what `f` gives. -/
theorem comap {compare : β → β → Int} {S : Set α} {T : Set β} (h : OrdersOn compare T) (f : α → β)
    (maps : ∀ a ∈ S, f a ∈ T) : OrdersOn (fun a b => compare (f a) (f b)) S where
  opposite a ha b hb := h.opposite _ (maps a ha) _ (maps b hb)
  trans a ha b hb c hc := h.trans _ (maps a ha) _ (maps b hb) _ (maps c hc)

/-- Two elements compare as their keys do. -/
theorem of_key [LinearOrder κ] (key : α → κ)
    (neg : ∀ a ∈ S, ∀ b ∈ S, compare a b < 0 ↔ key a < key b)
    (pos : ∀ a ∈ S, ∀ b ∈ S, 0 < compare a b ↔ key b < key a) : OrdersOn compare S where
  opposite a ha b hb := by
    rw [sign_eq_neg_sign_iff, neg a ha b hb, pos b hb a ha, pos a ha b hb, neg b hb a ha]
    exact ⟨Iff.rfl, Iff.rfl⟩
  trans a ha b hb c hc le le' := by
    rw [← not_lt, pos a ha b hb, not_lt] at le
    rw [← not_lt, pos b hb c hc, not_lt] at le'
    rw [← not_lt, pos a ha c hc, not_lt]
    exact le.trans le'

/-- The difference of two numbers orders them. -/
theorem sub_key (key : α → Int) : OrdersOn (fun a b => key a - key b) S :=
  of_key key (fun a _ b _ => by omega) fun a _ b _ => by omega

theorem self (h : OrdersOn compare S) {a : α} (ha : a ∈ S) : compare a a = 0 := by
  have := h.neg_iff ha ha
  omega

theorem le_total (h : OrdersOn compare S) {a b : α} (ha : a ∈ S) (hb : b ∈ S) :
    compare a b ≤ 0 ∨ compare b a ≤ 0 := by
  have := h.neg_iff hb ha
  omega

/-- A finite set has a least element. -/
theorem exists_least (h : OrdersOn compare S) (finite : S.Finite) (some : S.Nonempty) :
    ∃ least ∈ S, ∀ a ∈ S, compare least a ≤ 0 := by
  induction S, finite using Set.Finite.induction_on with
  | empty => exact absurd some Set.not_nonempty_empty
  | @insert a T _ _ ih =>
      have sub := Set.subset_insert a T
      have here := Set.mem_insert a T
      rcases T.eq_empty_or_nonempty with rfl | some
      · exact ⟨a, here, fun b hb => by rw [Set.mem_insert_iff.1 hb |>.resolve_right id]; exact (h.self here).le⟩
      obtain ⟨least, inside, below⟩ := ih (h.mono sub) some
      rcases h.le_total (sub inside) here with le | ge
      · refine ⟨least, sub inside, fun b hb => ?_⟩
        rcases hb with rfl | hb
        · exact le
        · exact below b hb
      · refine ⟨a, here, fun b hb => ?_⟩
        rcases hb with rfl | hb
        · exact (h.self here).le
        · exact h.trans a here least (sub inside) b (sub hb) ge (below b hb)

theorem thenBy (h : OrdersOn first S) (next : ∀ a ∈ S, OrdersOn second {b ∈ S | first a b = 0}) :
    OrdersOn (thenBy first second) S where
  opposite a ha b hb := by
    unfold Theory.thenBy
    by_cases tie : first a b = 0
    · have back := h.zero_comm ha hb tie
      simp only [tie, back, ne_eq, not_true_eq_false, if_false]
      exact (next a ha).opposite a ⟨ha, h.self ha⟩ b ⟨hb, tie⟩
    · have back : first b a ≠ 0 := fun zero => tie (h.zero_comm hb ha zero)
      simp only [tie, back, ne_eq, not_false_eq_true, if_true]
      exact h.opposite a ha b hb
  trans a ha b hb c hc le le' := by
    -- the first comparator never goes up along the two steps
    have low : first a b ≤ 0 := by
      unfold Theory.thenBy at le
      split at le <;> omega
    have low' : first b c ≤ 0 := by
      unfold Theory.thenBy at le'
      split at le' <;> omega
    have sum := h.trans a ha b hb c hc low low'
    unfold Theory.thenBy
    by_cases tie : first a c = 0
    · -- then neither of the steps is strict, and the second comparator decides all three
      have tie₁ : first a b = 0 := by
        have := fun below => h.neg_of_neg_of_le ha hb hc below low'
        omega
      have tie₂ : first b c = 0 := by
        have := fun below => h.neg_of_le_of_neg ha hb hc low below
        omega
      simp only [Theory.thenBy, tie₁, tie₂, ne_eq, not_true_eq_false, if_false] at le le'
      simp only [tie, ne_eq, not_true_eq_false, if_false]
      exact (next b hb).trans a ⟨ha, h.zero_comm ha hb tie₁⟩ b ⟨hb, h.self hb⟩ c ⟨hc, tie₂⟩ le le'
    · simp only [tie, ne_eq, not_false_eq_true, if_true]
      exact sum

end OrdersOn

end Everscale.Theory
