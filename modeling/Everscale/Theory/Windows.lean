/-
# Theory.Windows -- the most recent windows of a sequence of observations

A span is a half-open interval of a linear order.  `Windowed` says that some spans stand one behind
another, that an observation fell into each, and that every observation that fell into none is older
than all of them, which are then as many as may be kept.  A new observation falls into the newest span
(`Windowed.stay`) or opens a span behind it (`Windowed.grow`), for which the oldest may have to go
(`Windowed.slide`).
-/
import Mathlib.Algebra.BigOperators.Group.List.Basic
import Mathlib.Algebra.Ring.Nat
import Mathlib.Order.Lattice

namespace Everscale.Theory

set_option autoImplicit false

variable {τ : Type} [LinearOrder τ]

/-- From `start` on, and before `stop`. -/
structure Span (τ : Type) where
  start : τ
  stop : τ

namespace Span

def Has (w : Span τ) (t : τ) : Prop := w.start ≤ t ∧ t < w.stop

instance (w : Span τ) (t : τ) : Decidable (w.Has t) := inferInstanceAs (Decidable (_ ∧ _))

/-- The first ends before the second starts. -/
def Before (v w : Span τ) : Prop := v.stop ≤ w.start

theorem Before.not_has {v w : Span τ} (h : v.Before w) {t : τ} (inside : v.Has t) : ¬ w.Has t :=
  fun other => absurd (lt_of_lt_of_le inside.2 (h.trans other.1)) (lt_irrefl t)

end Span

/-- The spans that are kept of those that the observations fell into. -/
structure Windowed (most : Nat) (ws : List (Span τ)) (seen : List τ) : Prop where
  ascending : ws.Pairwise Span.Before
  used : ∀ w ∈ ws, ∃ t ∈ seen, w.Has t
  bounded : ws.length ≤ most
  recent : ∀ t ∈ seen, (∃ w ∈ ws, w.Has t) ∨ ws.length = most ∧ ∀ w ∈ ws, t < w.start

/-- How many observations fell into each of the spans. -/
def tally (ws : List (Span τ)) (seen : List τ) : List Nat := ws.map fun w => seen.countP (w.Has ·)

namespace Windowed

variable {most : Nat} {ws : List (Span τ)} {seen : List τ} {v w : Span τ} {t : τ}

theorem nil (most : Nat) : Windowed most ([] : List (Span τ)) [] :=
  ⟨.nil, nofun, Nat.zero_le _, nofun⟩

/-- An observation falls into one span at most. -/
theorem unique (h : Windowed most ws seen) {i j : Nat} (hi : i < ws.length) (hj : j < ws.length)
    (inI : ws[i].Has t) (inJ : ws[j].Has t) : i = j := by
  have ordered := List.pairwise_iff_getElem.1 h.ascending
  rcases Nat.lt_trichotomy i j with less | same | more
  · exact absurd inJ ((ordered i j hi hj less).not_has inI)
  · exact same
  · exact absurd inI ((ordered j i hj hi more).not_has inJ)

/-- The spans that are already there do not have what comes behind them. -/
theorem apart (h : Windowed most (ws ++ [w]) seen) (inside : w.Has t) : ∀ v ∈ ws, ¬ v.Has t := by
  intro v member early
  have before : v.Before w := (List.pairwise_append.1 h.ascending).2.2 v member w (List.mem_singleton_self w)
  exact before.not_has early inside

/-- The newest span has a later observation that comes before its end. -/
theorem newest_has (h : Windowed most (ws ++ [w]) seen) (ordered : ∀ u ∈ seen, u ≤ t) (before : t < w.stop) :
    w.Has t := by
  obtain ⟨u, member, inside⟩ := h.used w (List.mem_append_right _ (List.mem_singleton_self w))
  exact ⟨inside.1.trans (ordered u member), before⟩

/-- The observation falls into the newest span. -/
theorem stay (h : Windowed most (ws ++ [w]) seen) (inside : w.Has t) :
    Windowed most (ws ++ [w]) (seen ++ [t]) where
  ascending := h.ascending
  used v member := by
    obtain ⟨u, seenU, has⟩ := h.used v member
    exact ⟨u, List.mem_append_left _ seenU, has⟩
  bounded := h.bounded
  recent u member := by
    rcases List.mem_append.1 member with old | new
    · exact h.recent u old
    · cases List.mem_singleton.1 new
      exact .inl ⟨w, List.mem_append_right _ (List.mem_singleton_self w), inside⟩

/-- No observation was in a span that starts behind all that are kept. -/
theorem fresh (h : Windowed most ws seen) (room : 0 < most) (behind : ∀ v ∈ ws, v.Before w) :
    ∀ u ∈ seen, ¬ w.Has u := by
  intro u member inside
  rcases h.recent u member with ⟨v, kept, has⟩ | ⟨full, early⟩
  · exact (behind v kept).not_has has inside
  · obtain ⟨v, kept⟩ := List.exists_mem_of_length_pos (full ▸ room)
    -- a span that is kept starts after `u`, and ends before `w` starts
    obtain ⟨u', -, has⟩ := h.used v kept
    have start : v.start < v.stop := lt_of_le_of_lt has.1 has.2
    have later : u < w.start := ((early v kept).trans start).trans_le (behind v kept)
    exact absurd inside.1 (not_le.2 later)

theorem ascending_concat (ascending : ws.Pairwise Span.Before) (behind : ∀ v ∈ ws, v.Before w) :
    (ws ++ [w]).Pairwise Span.Before := by
  refine List.pairwise_append.2 ⟨ascending, List.pairwise_singleton .., fun v member u last => ?_⟩
  cases List.mem_singleton.1 last
  exact behind v member

theorem used_concat (used : ∀ v ∈ ws, ∃ u ∈ seen, v.Has u) (inside : w.Has t) :
    ∀ v ∈ ws ++ [w], ∃ u ∈ seen ++ [t], v.Has u := by
  intro v member
  rcases List.mem_append.1 member with old | new
  · obtain ⟨u, seenU, has⟩ := used v old
    exact ⟨u, List.mem_append_left _ seenU, has⟩
  · cases List.mem_singleton.1 new
    exact ⟨t, List.mem_append_right _ (List.mem_singleton_self t), inside⟩

/-- A span is added behind the others. -/
theorem grow (h : Windowed most ws seen) (room : ws.length < most) (behind : ∀ v ∈ ws, v.Before w)
    (inside : w.Has t) : Windowed most (ws ++ [w]) (seen ++ [t]) where
  ascending := ascending_concat h.ascending behind
  used := used_concat h.used inside
  bounded := by
    rw [List.length_append, List.length_singleton]
    exact room
  recent u member := by
    rcases List.mem_append.1 member with old | new
    · rcases h.recent u old with ⟨v, kept, has⟩ | ⟨full, -⟩
      · exact .inl ⟨v, List.mem_append_left _ kept, has⟩
      · exact absurd full (Nat.ne_of_lt room)
    · cases List.mem_singleton.1 new
      exact .inl ⟨w, List.mem_append_right _ (List.mem_singleton_self w), inside⟩

/-- The oldest span goes when there are as many as may be kept. -/
theorem slide (h : Windowed most (v :: ws) seen) (full : (v :: ws).length = most)
    (behind : ∀ u ∈ v :: ws, u.Before w) (inside : w.Has t) :
    Windowed most (ws ++ [w]) (seen ++ [t]) where
  ascending := ascending_concat (List.pairwise_cons.1 h.ascending).2 fun u member => behind u (.tail v member)
  used := used_concat (fun u member => h.used u (.tail v member)) inside
  bounded := by
    have length : (ws ++ [w]).length = most := by rw [List.length_append, List.length_singleton, ← full, List.length_cons]
    exact Nat.le_of_eq length
  recent u member := by
    have length : (ws ++ [w]).length = most := by
      rw [List.length_append, List.length_singleton, ← full, List.length_cons]
    have first : ∀ a ∈ ws ++ [w], v.stop ≤ a.start := by
      intro a kept
      rcases List.mem_append.1 kept with old | new
      · exact (List.pairwise_cons.1 h.ascending).1 a old
      · cases List.mem_singleton.1 new
        exact behind v List.mem_cons_self
    rcases List.mem_append.1 member with old | new
    · rcases h.recent u old with ⟨a, kept, has⟩ | ⟨-, early⟩
      · rcases List.mem_cons.1 kept with oldest | other
        · subst oldest
          exact .inr ⟨length, fun b later => lt_of_lt_of_le has.2 (first b later)⟩
        · exact .inl ⟨a, List.mem_append_left _ other, has⟩
      · obtain ⟨a, -, has⟩ := h.used v List.mem_cons_self
        have start : v.start < v.stop := lt_of_le_of_lt has.1 has.2
        refine .inr ⟨length, fun b later => ?_⟩
        exact ((early v List.mem_cons_self).trans start).trans_le (first b later)
    · cases List.mem_singleton.1 new
      exact .inl ⟨w, List.mem_append_right _ (List.mem_singleton_self w), inside⟩

end Windowed

/-! ## Counting -/

section

variable {ws : List (Span τ)} {seen : List τ} {w : Span τ} {t : τ}

theorem countP_has (w : Span τ) (seen : List τ) (inside : w.Has t) :
    (seen ++ [t]).countP (w.Has ·) = seen.countP (w.Has ·) + 1 := by
  rw [List.countP_append, List.countP_singleton, if_pos (decide_eq_true inside)]

theorem countP_misses (w : Span τ) (seen : List τ) (outside : ¬ w.Has t) :
    (seen ++ [t]).countP (w.Has ·) = seen.countP (w.Has ·) := by
  have missed : ¬ decide (w.Has t) = true := fun inside => outside (of_decide_eq_true inside)
  rw [List.countP_append, List.countP_singleton, if_neg missed, Nat.add_zero]

theorem tally_misses (outside : ∀ v ∈ ws, ¬ v.Has t) : tally ws (seen ++ [t]) = tally ws seen := by
  apply List.map_congr_left
  intro v member
  exact countP_misses v seen (outside v member)

theorem tally_append (ws : List (Span τ)) (w : Span τ) (seen : List τ) :
    tally (ws ++ [w]) seen = tally ws seen ++ [seen.countP (w.Has ·)] := List.map_append

/-- The observations in one of the spans are those in the first and those in the others. -/
theorem sum_tally (ordered : ws.Pairwise Span.Before) (seen : List τ) :
    (tally ws seen).sum = seen.countP fun t => ∃ w ∈ ws, w.Has t := by
  induction ws with
  | nil =>
      symm
      apply List.countP_eq_zero.2
      simp
  | cons w ws ih =>
      have split := List.pairwise_cons.1 ordered
      have more : tally (w :: ws) seen = seen.countP (w.Has ·) :: tally ws seen := rfl
      rw [more, List.sum_cons, ih split.2]
      clear ih more
      induction seen with
      | nil => rfl
      | cons t seen ih =>
          simp only [List.countP_cons, List.exists_mem_cons_iff] at ih ⊢
          by_cases inside : w.Has t
          · have others : ¬ ∃ v ∈ ws, v.Has t := by
              rintro ⟨v, member, has⟩
              exact (split.1 v member).not_has inside has
            simp only [inside, others, decide_true, decide_false, true_or, if_true]
            rw [← ih]
            simp
            omega
          · simp only [inside, false_or]
            rw [← ih]
            simp
            omega

end

end Everscale.Theory
