/-
# Theory.Glob -- patterns with a star

A star stands for any run of letters, every other letter for itself.  With one star at most, a
pattern is a literal or a front and a back with anything between them.
-/
import Mathlib.Data.List.Basic
import Mathlib.Tactic.Common

namespace Everscale.Theory

set_option autoImplicit false

variable {α : Type*}

/-- The pattern matches the word. -/
inductive Glob (star : α) : List α → List α → Prop where
  | nil : Glob star [] []
  | letter {c p w} : c ≠ star → Glob star p w → Glob star (c :: p) (c :: w)
  | nothing {p w} : Glob star p w → Glob star (star :: p) w
  | more {c p w} : Glob star (star :: p) w → Glob star (star :: p) (c :: w)

variable {star : α} {p u v w : List α}

theorem glob_literal (plain : star ∉ p) : Glob star p w ↔ p = w := by
  induction p generalizing w with
  | nil =>
      constructor
      · intro glob
        cases glob
        rfl
      · rintro rfl
        exact .nil
  | cons c p ih =>
      obtain ⟨ne, plain⟩ := not_or.mp (List.mem_cons.not.mp plain)
      constructor
      · intro glob
        cases glob with
        | letter _ glob => rw [(ih plain).mp glob]
        | nothing => exact absurd rfl ne
        | more => exact absurd rfl ne
      · rintro rfl
        exact .letter (Ne.symm ne) ((ih plain).mpr rfl)

theorem glob_star_back (plain : star ∉ v) : Glob star (star :: v) w ↔ ∃ m, w = m ++ v := by
  constructor
  · intro glob
    induction w with
    | nil =>
        cases glob with
        | nothing glob => exact ⟨[], ((glob_literal plain).mp glob).symm⟩
    | cons c w ih =>
        cases glob with
        | letter ne => exact absurd rfl ne
        | nothing glob => exact ⟨[], ((glob_literal plain).mp glob).symm⟩
        | more glob =>
            obtain ⟨m, rfl⟩ := ih glob
            exact ⟨c :: m, rfl⟩
  · rintro ⟨m, rfl⟩
    induction m with
    | nil => exact .nothing ((glob_literal plain).mpr rfl)
    | cons c m ih => exact .more ih

theorem glob_star (front : star ∉ u) (back : star ∉ v) :
    Glob star (u ++ star :: v) w ↔ ∃ m, w = u ++ m ++ v := by
  induction u generalizing w with
  | nil => exact glob_star_back back
  | cons c u ih =>
      obtain ⟨ne, front⟩ := not_or.mp (List.mem_cons.not.mp front)
      constructor
      · intro glob
        cases glob with
        | letter _ glob =>
            obtain ⟨m, rfl⟩ := (ih front).mp glob
            exact ⟨m, rfl⟩
        | nothing => exact absurd rfl ne
        | more => exact absurd rfl ne
      · rintro ⟨m, rfl⟩
        exact .letter (Ne.symm ne) ((ih front).mpr ⟨m, rfl⟩)

/-- The front and the back may not overlap in the word. -/
theorem exists_between : (∃ m, w = u ++ m ++ v) ↔ u <+: w ∧ v <:+ w ∧ u.length + v.length ≤ w.length := by
  constructor
  · rintro ⟨m, rfl⟩
    refine ⟨⟨m ++ v, by simp⟩, ⟨u ++ m, rfl⟩, ?_⟩
    simp only [List.length_append]
    omega
  · rintro ⟨⟨rest, rfl⟩, ⟨first, same⟩, apart⟩
    rw [List.length_append] at apart
    have long : u.length ≤ first.length := by
      have := congrArg List.length same
      simp only [List.length_append] at this
      omega
    obtain ⟨m, rfl⟩ : u <+: first :=
      List.prefix_of_prefix_length_le ⟨rest, rfl⟩ ⟨v, same⟩ long
    exact ⟨m, same.symm⟩

end Everscale.Theory
