/-
# Theory.Lines -- text that is cut into lines by a mark of two characters

`splitLines` cuts a text wherever the mark stands.  Text with marks behind each of its lines is
cut where they were put (`splitLines_unlines`), and no more is said about what a mark is than
that its two characters differ.
-/
import Mathlib.Data.List.Infix

namespace Everscale.Theory

set_option autoImplicit false

variable {α : Type*} {cr lf : α}

/-- Lines, each with the mark behind it. -/
def unlines (cr lf : α) (lines : List (List α)) : List α := lines.flatMap (· ++ [cr, lf])

theorem unlines_cons (line : List α) (lines : List (List α)) :
    unlines cr lf (line :: lines) = line ++ cr :: lf :: unlines cr lf lines := by
  rw [unlines, List.flatMap_cons, List.append_assoc]
  rfl

/-- A mark does not stand across another character. -/
theorem marked_append_cons {front back : List α} {c : α} (ne : c ≠ cr ∧ c ≠ lf)
    (marked : [cr, lf] <:+: front ++ c :: back) : [cr, lf] <:+: front ∨ [cr, lf] <:+: back := by
  induction front with
  | nil =>
      rcases List.infix_cons_iff.mp marked with here | later
      · exact absurd (List.cons_prefix_cons.mp here).1.symm ne.1
      · exact .inr later
  | cons d rest ih =>
      rcases List.infix_cons_iff.mp marked with here | later
      · obtain ⟨rfl, behind⟩ := List.cons_prefix_cons.mp here
        cases rest with
        | nil => exact absurd (List.cons_prefix_cons.mp behind).1.symm ne.2
        | cons e more =>
            obtain ⟨rfl, -⟩ := List.cons_prefix_cons.mp behind
            exact .inl ⟨[], more, rfl⟩
      · exact (ih later).imp (fun inside => inside.trans (List.suffix_cons d rest).isInfix) id

variable [DecidableEq α]

/-- The lines of a text; behind the last mark there is one more. -/
def splitLines (cr lf : α) : List α → List (List α)
  | [] => [[]]
  | [c] => [[c]]
  | c :: d :: rest =>
      if c = cr ∧ d = lf then [] :: splitLines cr lf rest
      else
        match splitLines cr lf (d :: rest) with
        | [] => [[c]]
        | line :: lines => (c :: line) :: lines

theorem splitLines_mark (rest : List α) : splitLines cr lf (cr :: lf :: rest) = [] :: splitLines cr lf rest := by
  rw [splitLines, if_pos ⟨rfl, rfl⟩]

theorem splitLines_cons {c d : α} {rest line : List α} {lines : List (List α)} (mark : ¬ (c = cr ∧ d = lf))
    (split : splitLines cr lf (d :: rest) = line :: lines) :
    splitLines cr lf (c :: d :: rest) = (c :: line) :: lines := by
  rw [splitLines, if_neg mark, split]

theorem splitLines_ne_nil (text : List α) : splitLines cr lf text ≠ [] := by
  induction text using splitLines.induct cr lf with
  | case1 => exact List.cons_ne_nil _ _
  | case2 c => exact List.cons_ne_nil _ _
  | case3 c d rest mark ih => rw [splitLines, if_pos mark]; exact List.cons_ne_nil _ _
  | case4 c d rest mark none ih => exact absurd none ih
  | case5 c d rest mark line lines some ih => rw [splitLines_cons mark some]; exact List.cons_ne_nil _ _

/-- A text without the second character of the mark is one line. -/
theorem splitLines_plain {text : List α} (plain : lf ∉ text) : splitLines cr lf text = [text] := by
  induction text using splitLines.induct cr lf with
  | case1 => rfl
  | case2 c => rfl
  | case3 c d rest mark ih => exact absurd (by rw [mark.2]; simp) plain
  | case4 c d rest mark none ih => exact absurd none (splitLines_ne_nil _)
  | case5 c d rest mark line lines some ih =>
      rw [splitLines, if_neg mark, ih fun inside => plain (List.mem_cons_of_mem c inside)]

/-- A mark ends a line wherever it stands. -/
theorem splitLines_append (differ : cr ≠ lf) (text behind : List α) :
    splitLines cr lf (text ++ cr :: lf :: behind) = splitLines cr lf text ++ splitLines cr lf behind := by
  induction text using splitLines.induct cr lf with
  | case1 => exact splitLines_mark behind
  | case2 c => exact splitLines_cons (fun mark => differ mark.2) (splitLines_mark behind)
  | case3 c d rest mark ih =>
      obtain ⟨rfl, rfl⟩ := mark
      rw [splitLines_mark, List.cons_append, List.cons_append, splitLines_mark, ih]
      rfl
  | case4 c d rest mark none ih => exact absurd none (splitLines_ne_nil _)
  | case5 c d rest mark line lines some ih =>
      rw [splitLines_cons mark some]
      exact splitLines_cons mark (ih.trans (by rw [some]; rfl))

/-- The first line is the front of the text. -/
theorem splitLines_head {text line : List α} {lines : List (List α)} (split : splitLines cr lf text = line :: lines) :
    line <+: text := by
  induction text using splitLines.induct cr lf generalizing line lines with
  | case1 => cases split; exact List.prefix_rfl
  | case2 c => cases split; exact List.prefix_rfl
  | case3 c d rest mark ih =>
      rw [splitLines, if_pos mark] at split
      cases split
      exact List.nil_prefix
  | case4 c d rest mark none ih => exact absurd none (splitLines_ne_nil _)
  | case5 c d rest mark line' lines' some ih =>
      rw [splitLines, if_neg mark, some] at split
      cases split
      exact List.cons_prefix_cons.mpr ⟨rfl, ih some⟩

/-- A text is one line exactly when the mark does not stand in it. -/
theorem splitLines_eq_singleton_iff (differ : cr ≠ lf) {text : List α} :
    splitLines cr lf text = [text] ↔ ¬ [cr, lf] <:+: text := by
  constructor
  · rintro one ⟨front, behind, rfl⟩
    have two := congrArg List.length one
    rw [List.append_assoc, List.cons_append, List.singleton_append, splitLines_append differ, List.length_append,
      List.length_singleton] at two
    have before : 0 < (splitLines cr lf front).length := List.length_pos_iff.mpr (splitLines_ne_nil front)
    have after : 0 < (splitLines cr lf behind).length := List.length_pos_iff.mpr (splitLines_ne_nil behind)
    omega
  · intro unmarked
    induction text using splitLines.induct cr lf with
    | case1 => rfl
    | case2 c => rfl
    | case3 c d rest mark ih =>
        obtain ⟨rfl, rfl⟩ := mark
        exact absurd ⟨[], rest, rfl⟩ unmarked
    | case4 c d rest mark none ih => exact absurd none (splitLines_ne_nil _)
    | case5 c d rest mark line lines some ih =>
        rw [splitLines, if_neg mark, ih fun inside => unmarked (inside.trans (List.suffix_cons c _).isInfix)]

/-- Lines without the mark are cut where it was put. -/
theorem splitLines_unlines (differ : cr ≠ lf) (behind : List α) :
    ∀ lines : List (List α), (∀ line ∈ lines, lf ∉ line) →
      splitLines cr lf (unlines cr lf lines ++ behind) = lines ++ splitLines cr lf behind
  | [], _ => rfl
  | line :: lines, plain => by
      have rest := splitLines_unlines differ behind lines fun line inside => plain line (List.mem_cons_of_mem _ inside)
      rw [unlines_cons, List.append_assoc, List.cons_append, List.cons_append, splitLines_append differ,
        splitLines_plain (plain line List.mem_cons_self), rest]
      rfl

end Everscale.Theory
