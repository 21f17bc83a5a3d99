/-
# Everscale.Base.WildcardScore -- `StringWildcardMatch` on strings of any length

The functions of `ESBString.cpp` with their indices as the `int`s they are, in a debug build, which has
the assertion, and in a release build, which has not.  What lies behind the pattern is not part of it:
`JudgesWithin` asks that the result is right and the same whatever lies there, and also if nothing does.

That is so for few patterns (`judgesWithin_iff`).  A pattern without a star is read once too far as soon
as the string begins with it, and with a star the assertion reads there; where nothing is read outside,
the front and the back may still overlap by one character, and from `2 ^ 31` on the indices end.
-/
import Mathlib.Data.List.TakeWhile
import Everscale.Base.String

namespace Everscale.IntIndexed

set_option autoImplicit false

/-- The walk of `ForwardMatch`; the three counters stay equal. -/
def forwardLoop : List UInt8 → Nat → List UInt8 → Nat → Option (Int × Bool)
  | [], _, _, _ => none
  | c :: pattern, left, str, matchedChars =>
      if c = star then some (matchedChars, true)
      else
        match str with
        | [] => some (if left = 0 then matchedChars else -1, false)
        | x :: str =>
            if left = 0 then some (-1, false)
            else if c ≠ x then some (-1, false)
            -- an `int` counts no further
            else if matchedChars + 1 = 2 ^ 31 then none
            else forwardLoop pattern (left - 1) str (matchedChars + 1)

def ForwardMatch (pattern : List UInt8) (patternLength : Nat) (str : List UInt8) : Option (Int × Bool) :=
  if patternLength = 0 ∨ str.length = 0 then some (if patternLength = str.length then 0 else -1, false)
  else forwardLoop pattern patternLength str 0

def ReverseMatch (pattern : List UInt8) (patternLength : Nat) (str : List UInt8) : Option Int :=
  if patternLength = 0 ∨ str.length = 0 then some (if patternLength = str.length then 0 else -1)
  -- `patternIdx` is negative
  else if 2 ^ 31 < patternLength then none
  else if 2 ^ 31 < str.length then
    -- `strIdx` is negative, and is neither 0 nor in the string
    match pattern[patternLength - 1]? with
    | none => none
    | some c => if c = star then some 0 else if patternLength = 1 then some (-1) else none
  else reverseLoop (pattern.take patternLength).reverse str.reverse 0

def StringWildcardMatch (debug : Bool) (pattern : List UInt8) (patternLength : Nat) (str : List UInt8) :
    Option Int :=
  match ForwardMatch pattern patternLength str with
  | none => none
  | some (forwardResult, hasWildcard) =>
      if forwardResult < 0 then some (-1)
      else if hasWildcard = false then some (toInt (str.length - forwardResult))
      else
        match ReverseMatch pattern patternLength str with
        | none => none
        | some reverseResult =>
            let result :=
              if reverseResult < 0 then some (-1)
              else some (toInt (str.length - forwardResult - reverseResult + 1))
            if debug = false then result
            else
              match pattern[patternLength]? with
              | none => none
              | some behind => if behind = star ∧ 1 < patternLength then none else result

/-! ## Counters that end -/

variable {u v p str pattern rest : List UInt8} {left n : Nat} {debug : Bool}

/-- The loop has compared `2 ^ 31` characters in all. -/
def Overruns (pattern : List UInt8) (left : Nat) (str : List UInt8) (n : Nat) : Prop :=
  ∃ front : List UInt8, n + front.length = 2 ^ 31 ∧ front.length ≤ left ∧ front <+: pattern ∧
    front <+: str ∧ star ∉ front

theorem overruns_cons {c : UInt8} (more : n + 1 < 2 ^ 31) (_ : left ≠ 0) (plain : c ≠ star) :
    Overruns (c :: pattern) left (c :: str) n ↔ Overruns pattern (left - 1) str (n + 1) := by
  constructor
  · rintro ⟨front, count, fits, before, before', noStar⟩
    cases front with
    | nil => rw [List.length_nil] at count; omega
    | cons d front =>
        rw [List.length_cons] at count fits
        rw [List.mem_cons, not_or] at noStar
        exact ⟨front, by omega, by omega, (List.cons_prefix_cons.1 before).2,
          (List.cons_prefix_cons.1 before').2, noStar.2⟩
  · rintro ⟨front, count, fits, before, before', noStar⟩
    refine ⟨c :: front, ?_, ?_, List.cons_prefix_cons.2 ⟨rfl, before⟩, List.cons_prefix_cons.2 ⟨rfl, before'⟩, ?_⟩
    · rw [List.length_cons]; omega
    · rw [List.length_cons]; omega
    · rw [List.mem_cons, not_or]
      exact ⟨Ne.symm plain, noStar⟩

/-- Only a character that both begin with is compared. -/
theorem Overruns.head {c : UInt8} (h : Overruns (c :: pattern) left str n) (more : n < 2 ^ 31) :
    c ≠ star ∧ left ≠ 0 ∧ ∃ str', str = c :: str' := by
  obtain ⟨front, count, fits, before, before', noStar⟩ := h
  cases front with
  | nil => rw [List.length_nil] at count; omega
  | cons d front =>
      obtain rfl := (List.cons_prefix_cons.1 before).1
      rw [List.length_cons] at fits
      rw [List.mem_cons, not_or] at noStar
      refine ⟨Ne.symm noStar.1, by omega, ?_⟩
      cases str with
      | nil => simp at before'
      | cons x str => exact ⟨str, by rw [(List.cons_prefix_cons.1 before').1]⟩

open Classical in
/-- But for the end of its counters the loop is that of unbounded ones. -/
theorem forwardLoop_eq (more : n < 2 ^ 31) :
    forwardLoop pattern left str n =
      if Overruns pattern left str n then none else Everscale.forwardLoop pattern left str n := by
  induction pattern generalizing left str n with
  | nil => simp [forwardLoop, Everscale.forwardLoop]
  | cons c pattern ih =>
      by_cases here : c ≠ star ∧ left ≠ 0 ∧ ∃ str', str = c :: str'
      · obtain ⟨plain, some, str, rfl⟩ := here
        rw [forwardLoop, Everscale.forwardLoop]
        simp only [plain, some, if_false, ne_eq, not_true_eq_false]
        by_cases last : n + 1 = 2 ^ 31
        · have overruns : Overruns (c :: pattern) left (c :: str) n :=
            ⟨[c], last, Nat.pos_of_ne_zero some, by simp, by simp, by simpa using Ne.symm plain⟩
          rw [if_pos last, if_pos overruns]
        · have more : n + 1 < 2 ^ 31 := by omega
          rw [if_neg last, ih more]
          simp only [overruns_cons more some plain]
      · rw [if_neg fun overruns => here (overruns.head more), forwardLoop.eq_def, Everscale.forwardLoop.eq_def]
        dsimp only
        by_cases wild : c = star
        · simp only [wild, if_true]
        · simp only [wild, if_false]
          cases str with
          | nil => rfl
          | cons x str =>
              dsimp only
              by_cases none : left = 0
              · simp only [none, if_true]
              · have differ : c ≠ x := fun same => here ⟨wild, none, str, by rw [same]⟩
                simp only [none, if_false, differ, ne_eq, not_false_eq_true, if_true]

/-! ## Forwards -/

/-- The strings begin with the same `2 ^ 31` characters. -/
def SharesFront (u str : List UInt8) : Prop := ∃ front : List UInt8, front.length = 2 ^ 31 ∧ front <+: u ∧ front <+: str

theorem overruns_iff (plain : star ∉ u) (enough : u.length ≤ left)
    (ends : ∀ front : List UInt8, front <+: u ++ rest → front.length ≤ left → star ∉ front → front <+: u) :
    Overruns (u ++ rest) left str 0 ↔ SharesFront u str := by
  constructor
  · rintro ⟨front, count, fits, before, before', noStar⟩
    exact ⟨front, by omega, ends front before fits noStar, before'⟩
  · rintro ⟨front, count, before, before'⟩
    exact ⟨front, by omega, Nat.le_trans before.length_le enough, before.trans (List.prefix_append ..), before',
      fun inside => plain (before.subset inside)⟩

/-- The walk ends at the star. -/
theorem overruns_star (plain : star ∉ u) (enough : u.length ≤ left) :
    Overruns (u ++ star :: rest) left str 0 ↔ SharesFront u str := by
  refine overruns_iff plain enough fun front before _ noStar => ?_
  refine List.prefix_of_prefix_length_le before (List.prefix_append ..) (Nat.le_of_not_lt fun longer => ?_)
  obtain ⟨behind, same⟩ := before
  have here : (u ++ star :: rest)[u.length]? = some star := by simp
  rw [← same, List.getElem?_append_left longer] at here
  exact noStar (List.mem_of_getElem? here)

/-- The walk ends with the pattern. -/
theorem overruns_literal (rest str : List UInt8) (plain : star ∉ p) : Overruns (p ++ rest) p.length str 0 ↔ SharesFront p str :=
  overruns_iff plain (Nat.le_refl _) fun _ before fits _ =>
    List.prefix_of_prefix_length_le before (List.prefix_append ..) fits

open Classical in
theorem ForwardMatch_star (rest str : List UInt8) (plain : star ∉ u) :
    ForwardMatch (u ++ star :: v ++ rest) (u ++ star :: v).length str =
      if str ≠ [] ∧ SharesFront u str then none
      else some (if str ≠ [] ∧ u <+: str then ((u.length : Int), true) else (-1, false)) := by
  rw [ForwardMatch]
  by_cases none : str = []
  · subst none
    simp
  · have long : ¬ ((u ++ star :: v).length = 0 ∨ str.length = 0) := by simp [none]
    have enough : u.length < (u ++ star :: v).length := by
      rw [length_behind]
      omega
    rw [if_neg long, forwardLoop_eq (by decide), List.append_assoc, List.cons_append,
      forwardLoop_star plain enough, Nat.zero_add]
    simp only [overruns_star plain (Nat.le_of_lt enough), none, ne_eq, not_false_eq_true, true_and]

/-- A pattern that the string does not begin with is given up, whatever lies behind it. -/
theorem forwardLoop_differs (plain : star ∉ p) (differs : ¬ p <+: str) (matched : Nat) :
    Everscale.forwardLoop (p ++ rest) p.length str matched = some (-1, false) := by
  induction p generalizing str matched with
  | nil => exact absurd List.nil_prefix differs
  | cons c p ih =>
      obtain ⟨ne, plain⟩ := not_or.mp (List.mem_cons.not.mp plain)
      rw [List.cons_append, Everscale.forwardLoop.eq_def]
      dsimp only [List.length_cons]
      rw [if_neg (Ne.symm ne)]
      cases str with
      | nil => simp
      | cons x str =>
          dsimp only
          rw [if_neg (Nat.succ_ne_zero _), Nat.add_sub_cancel]
          by_cases same : c = x
          · subst same
            rw [if_neg (not_not.mpr rfl)]
            exact ih plain (fun before => differs (List.cons_prefix_cons.2 ⟨rfl, before⟩)) _
          · rw [if_pos same]

/-- A pattern that the string begins with is read to its end and once more. -/
theorem forwardLoop_reads_on (plain : star ∉ p) (before : p <+: str) (matched : Nat) :
    Everscale.forwardLoop p p.length str matched = none := by
  induction p generalizing str matched with
  | nil => rfl
  | cons c p ih =>
      obtain ⟨ne, plain⟩ := not_or.mp (List.mem_cons.not.mp plain)
      obtain ⟨str, rfl⟩ : ∃ str', str = c :: str' := by
        obtain ⟨behind, rfl⟩ := before
        exact ⟨p ++ behind, rfl⟩
      rw [Everscale.forwardLoop.eq_def]
      dsimp only [List.length_cons]
      rw [if_neg (Ne.symm ne), if_neg (Nat.succ_ne_zero _), if_neg (not_not.mpr rfl), Nat.add_sub_cancel]
      exact ih plain (List.cons_prefix_cons.1 before).2 _

/-! ## Backwards -/

/-- What lies behind the pattern does not matter backwards. -/
theorem unbounded_ReverseMatch (x : List UInt8) :
    Everscale.ReverseMatch (x ++ rest) x.length str = Everscale.ReverseMatch (x ++ [0]) x.length str := by
  simp only [Everscale.ReverseMatch, List.take_left]

/-- The last character of the pattern. -/
theorem last_of_pattern (x : List UInt8) (c : UInt8) : (x ++ [c] ++ rest)[(x ++ [c]).length - 1]? = some c := by
  simp

open Classical in
theorem ReverseMatch_star (plain : star ∉ v) (some : str ≠ []) :
    ReverseMatch (u ++ star :: v ++ rest) (u ++ star :: v).length str =
      if (u ++ star :: v).length ≤ 2 ^ 31 ∧ (str.length ≤ 2 ^ 31 ∨ v = []) then
        Option.some (if Ends v str then (v.length : Int) else -1)
      else none := by
  have long : ¬ ((u ++ star :: v).length = 0 ∨ str.length = 0) := by simp [some]
  rw [ReverseMatch, if_neg long]
  by_cases wide : 2 ^ 31 < (u ++ star :: v).length
  · rw [if_pos wide, if_neg fun both => Nat.not_le.2 wide both.1]
  · have short := Nat.not_lt.1 wide
    rw [if_neg wide]
    by_cases huge : 2 ^ 31 < str.length
    · rw [if_pos huge]
      rcases List.eq_nil_or_concat v with rfl | ⟨v, c, rfl⟩
      · have ends : Ends [] str := .inl ⟨List.nil_suffix, List.length_pos_of_ne_nil some⟩
        rw [last_of_pattern]
        dsimp only
        rw [if_pos rfl, if_pos ⟨short, .inr rfl⟩, if_pos ends]
        rfl
      · have same : u ++ star :: (v ++ [c]) = u ++ star :: v ++ [c] := by simp
        have other : c ≠ star := fun eq => plain (by simp [eq])
        have several : ¬ (u ++ star :: v ++ [c]).length = 1 := by
          simp only [List.length_append, List.length_cons]
          omega
        rw [List.concat_eq_append, same, last_of_pattern]
        dsimp only
        rw [if_neg other, if_neg several, if_neg]
        rintro ⟨-, small | empty⟩
        · exact Nat.not_le.2 huge small
        · simp at empty
    · have unbounded : Everscale.ReverseMatch (u ++ star :: v ++ rest) (u ++ star :: v).length str =
          reverseLoop ((u ++ star :: v ++ rest).take (u ++ star :: v).length).reverse str.reverse 0 := by
        rw [Everscale.ReverseMatch, if_neg long]
      rw [if_neg huge, if_pos ⟨short, .inl (Nat.not_lt.1 huge)⟩, ← unbounded, unbounded_ReverseMatch,
        Everscale.ReverseMatch_star plain some]

/-! ## Judgements -/

/-- The result is right, and is the same whatever lies behind the pattern. -/
def JudgesWithin (debug : Bool) (p str : List UInt8) : Prop :=
  ∃ result, Judges result p str ∧ ∀ behind, StringWildcardMatch debug (p ++ behind) p.length str = result

theorem judgesWithin_iff_of_same {result : Option Int}
    (same : ∀ behind, StringWildcardMatch debug (p ++ behind) p.length str = result) :
    JudgesWithin debug p str ↔ Judges result p str := by
  constructor
  · rintro ⟨result', judges, same'⟩
    rwa [← same [], same' []]
  · exact fun judges => ⟨result, judges, same⟩

/-- With nothing behind the pattern, nothing outside may be read. -/
theorem not_judgesWithin (outside : StringWildcardMatch debug p p.length str = none) :
    ¬ JudgesWithin debug p str := by
  rintro ⟨result, ⟨k, rfl, -⟩, same⟩
  have alone := same []
  rw [List.append_nil, outside] at alone
  cases alone

/-- Where a pattern without a star is not read to its end. -/
theorem ForwardMatch_literal (plain : star ∉ p) (kept : p = [] ∨ str = [] ∨ ¬ SharesFront p str ∧ ¬ p <+: str) :
    ForwardMatch (p ++ rest) p.length str = some (if p = str then (str.length : Int) else -1, false) := by
  rw [ForwardMatch]
  by_cases empty : p.length = 0 ∨ str.length = 0
  · have same : p = str ↔ p.length = str.length := by
      rw [List.length_eq_zero_iff, List.length_eq_zero_iff] at empty
      rcases empty with rfl | rfl
      · rw [List.length_nil, eq_comm, ← List.length_eq_zero_iff, eq_comm]
      · rw [List.length_nil, ← List.length_eq_zero_iff]
    rw [if_pos empty]
    by_cases equal : p = str
    · rw [if_pos equal, if_pos (same.1 equal)]
      have : str.length = 0 := empty.elim (fun none => (same.1 equal) ▸ none) id
      rw [this]
      rfl
    · rw [if_neg equal, if_neg (same.not.1 equal)]
  · have none : ¬ (p = [] ∨ str = []) := by
      rwa [List.length_eq_zero_iff, List.length_eq_zero_iff] at empty
    obtain ⟨apart, differs⟩ := (or_assoc.2 kept).resolve_left none
    have other : p ≠ str := fun equal => differs (equal ▸ List.prefix_refl p)
    rw [if_neg empty, forwardLoop_eq (by decide), if_neg ((overruns_literal _ _ plain).not.2 apart),
      forwardLoop_differs plain differs, if_neg other]

/-- Where it is, and nothing lies behind it. -/
theorem ForwardMatch_reads_on (plain : star ∉ p) (some : ¬ (p = [] ∨ str = []))
    (lost : ¬ (¬ SharesFront p str ∧ ¬ p <+: str)) : ForwardMatch p p.length str = none := by
  have some : ¬ (p.length = 0 ∨ str.length = 0) := by
    rwa [List.length_eq_zero_iff, List.length_eq_zero_iff]
  have overruns := overruns_literal [] str plain
  rw [List.append_nil] at overruns
  rw [ForwardMatch, if_neg some, forwardLoop_eq (by decide)]
  by_cases shares : SharesFront p str
  · rw [if_pos (overruns.2 shares)]
  · rw [if_neg (overruns.not.2 shares)]
    exact forwardLoop_reads_on plain (not_not.1 fun differs => lost ⟨shares, differs⟩) 0

/-- Patterns without a star. -/
theorem literal_iff (plain : star ∉ p) :
    JudgesWithin debug p str ↔ p = [] ∨ str = [] ∨ ¬ SharesFront p str ∧ ¬ p <+: str := by
  constructor
  · intro judges
    by_contra lost
    obtain ⟨some, lost⟩ := not_or.1 (or_assoc.not.2 lost)
    refine not_judgesWithin ?_ judges
    rw [StringWildcardMatch, ForwardMatch_reads_on plain some lost]
  · intro kept
    refine (judgesWithin_iff_of_same fun behind => ?_).2 (judges_equal plain)
    rw [StringWildcardMatch, ForwardMatch_literal plain kept]
    by_cases equal : p = str
    · simp only [equal, if_true, Int.sub_self]
      rw [if_neg (by omega)]
      rfl
    · simp [equal]

open Classical in
/-- The score as an `int`. -/
theorem judges_toInt_iff (front : star ∉ u) (back : star ∉ v) (some : str ≠ []) (before : u <+: str)
    (short : (u ++ star :: v).length ≤ 2 ^ 31) (bound : str.length < 2 ^ 32) :
    Judges (Option.some (if Ends v str then toInt ((str.length : Int) - u.length - v.length + 1) else -1))
        (u ++ star :: v) str ↔
      ¬ Misjudged u v str ∧
        (Theory.Glob star (u ++ star :: v) str → wildcardScore (u ++ star :: v) str < 2 ^ 31) := by
  have result := judges_result_iff str front back
  simp only [some, before, ne_eq, not_false_eq_true, true_and] at result
  rw [length_behind] at short
  by_cases wide : Ends v str ∧ (2 : Int) ^ 31 ≤ (str.length : Int) - u.length - v.length + 1
  · obtain ⟨ends, wide⟩ := wide
    have glob : Theory.Glob star (u ++ star :: v) str := by
      refine (Theory.glob_star front back).2 (Theory.exists_between.2 ⟨before, ?_, by omega⟩)
      rcases ends with ⟨suffix, -⟩ | ⟨long, -⟩
      · exact suffix
      · omega
    have score := wildcardScore_star (u := u) (v := v) str
    constructor
    · rintro ⟨k, result, -, right⟩
      rw [if_pos ends, Option.some.injEq] at result
      have right := right glob
      rw [← result, toInt, Int.bmod_def, score] at right
      split at right <;> omega
    · rintro ⟨-, fits⟩
      have := fits glob
      omega
  · have same : (if Ends v str then toInt ((str.length : Int) - u.length - v.length + 1) else -1) =
        if Ends v str then (str.length : Int) - u.length - v.length + 1 else -1 := by
      by_cases ends : Ends v str
      · have small := not_and.1 wide ends
        rw [if_pos ends, if_pos ends, toInt_of_small (by omega) (by omega)]
      · rw [if_neg ends, if_neg ends]
    have fits : Theory.Glob star (u ++ star :: v) str → wildcardScore (u ++ star :: v) str < 2 ^ 31 := by
      intro glob
      obtain ⟨-, suffix, apart⟩ := Theory.exists_between.1 ((Theory.glob_star front back).1 glob)
      have small := not_and.1 wide (.of_suffix suffix)
      rw [wildcardScore_star]
      omega
    rw [same, result, and_iff_left fits]

/-- The string does not begin with what stands in front of the star. -/
theorem StringWildcardMatch_refused (front : star ∉ u)
    (refused : str = [] ∨ ¬ SharesFront u str ∧ ¬ u <+: str) :
    StringWildcardMatch debug (u ++ star :: v ++ rest) (u ++ star :: v).length str = some (-1) := by
  have forward : ForwardMatch (u ++ star :: v ++ rest) (u ++ star :: v).length str = some (-1, false) := by
    rw [ForwardMatch_star _ _ front]
    rcases refused with rfl | ⟨apart, differs⟩
    · simp
    · simp [apart, differs]
  rw [StringWildcardMatch, forward]
  rfl

/-- It does, and the back is looked at. -/
theorem ForwardMatch_front (rest : List UInt8) (front : star ∉ u) (some : str ≠ []) (before : u <+: str)
    (apart : ¬ SharesFront u str) :
    ForwardMatch (u ++ star :: v ++ rest) (u ++ star :: v).length str = Option.some ((u.length : Int), true) := by
  rw [ForwardMatch_star _ _ front, if_neg fun both => apart both.2, if_pos ⟨some, before⟩]

open Classical in
theorem StringWildcardMatch_release (front : star ∉ u) (back : star ∉ v) (some : str ≠ []) (before : u <+: str)
    (apart : ¬ SharesFront u str) :
    StringWildcardMatch false (u ++ star :: v ++ rest) (u ++ star :: v).length str =
      if (u ++ star :: v).length ≤ 2 ^ 31 ∧ (str.length ≤ 2 ^ 31 ∨ v = []) then
        Option.some (if Ends v str then toInt ((str.length : Int) - u.length - v.length + 1) else -1)
      else none := by
  have counts : ¬ ((u.length : Int) < 0) := by omega
  rw [StringWildcardMatch, ForwardMatch_front _ front some before apart]
  dsimp only
  rw [if_neg counts, if_neg (by simp), ReverseMatch_star back some]
  by_cases bounded : (u ++ star :: v).length ≤ 2 ^ 31 ∧ (str.length ≤ 2 ^ 31 ∨ v = [])
  · rw [if_pos bounded, if_pos bounded]
    by_cases ends : Ends v str
    · have counts : ¬ ((v.length : Int) < 0) := by omega
      simp only [ends, if_true, counts, if_false]
    · simp [ends]
  · rw [if_neg bounded, if_neg bounded]

/-- The assertion reads behind the pattern. -/
theorem StringWildcardMatch_debug (front : star ∉ u) (some : str ≠ []) (before : u <+: str)
    (apart : ¬ SharesFront u str) :
    StringWildcardMatch true (u ++ star :: v) (u ++ star :: v).length str = none := by
  have forward := ForwardMatch_front (v := v) [] front some before apart
  rw [List.append_nil] at forward
  have counts : ¬ ((u.length : Int) < 0) := by omega
  rw [StringWildcardMatch, forward]
  dsimp only
  rw [if_neg counts, if_neg (by simp)]
  split
  · rfl
  · simp

/-- A pattern with a star is judged by its length, the front and the back, and only in a release
build. -/
theorem starred_iff (front : star ∉ u) (back : star ∉ v) (bound : str.length < 2 ^ 32) :
    JudgesWithin debug (u ++ star :: v) str ↔
      (str = [] ∧ ¬ (u = [] ∧ v = [])) ∨ (str ≠ [] ∧ ¬ SharesFront u str ∧ ¬ u <+: str) ∨
      (debug = false ∧ str ≠ [] ∧ u <+: str ∧ (u ++ star :: v).length ≤ 2 ^ 31 ∧
        (str.length ≤ 2 ^ 31 ∨ v = []) ∧ ¬ Misjudged u v str ∧
        (Theory.Glob star (u ++ star :: v) str → wildcardScore (u ++ star :: v) str < 2 ^ 31)) := by
  have result := judges_result_iff str front back
  by_cases none : str = []
  · subst none
    rw [judgesWithin_iff_of_same fun behind => StringWildcardMatch_refused front (.inl rfl)]
    simpa [Misjudged] using result
  have unstarted : SharesFront u str → ¬ (u ++ star :: v).length ≤ 2 ^ 31 := by
    rintro ⟨shared, count, before, -⟩ short
    have := before.length_le
    rw [length_behind] at short
    omega
  by_cases shares : SharesFront u str
  · have forward := ForwardMatch_star (v := v) [] str front
    rw [List.append_nil, if_pos ⟨none, shares⟩] at forward
    refine iff_of_false (not_judgesWithin ?_) ?_
    · rw [StringWildcardMatch, forward]
    · rintro (⟨empty, -⟩ | ⟨-, apart, -⟩ | ⟨-, -, -, short, -⟩)
      · exact none empty
      · exact apart shares
      · exact unstarted shares short
  by_cases before : u <+: str
  · cases debug with
    | true =>
        refine iff_of_false (not_judgesWithin (StringWildcardMatch_debug front none before shares)) ?_
        rintro (⟨empty, -⟩ | ⟨-, -, differs⟩ | ⟨release, -⟩)
        · exact none empty
        · exact differs before
        · cases release
    | false =>
        rw [judgesWithin_iff_of_same fun behind => StringWildcardMatch_release front back none before shares]
        by_cases bounded : (u ++ star :: v).length ≤ 2 ^ 31 ∧ (str.length ≤ 2 ^ 31 ∨ v = [])
        · rw [if_pos bounded, judges_toInt_iff front back none before bounded.1 bound]
          simp only [none, shares, before, bounded, false_and, not_false_eq_true, true_and, not_true_eq_false,
            and_false, false_or, ne_eq]
        · rw [if_neg bounded]
          refine iff_of_false (by rintro ⟨_, ⟨⟩, _⟩) ?_
          rintro (⟨empty, -⟩ | ⟨-, -, differs⟩ | ⟨-, -, -, short, small, -⟩)
          · exact none empty
          · exact differs before
          · exact bounded ⟨short, small⟩
  · rw [judgesWithin_iff_of_same fun behind => StringWildcardMatch_refused front (.inr ⟨shares, before⟩)]
    simp only [before, false_and, and_false, if_false] at result
    rw [result]
    simp [none, shares, before, Misjudged]

/-- What stands in front of the first star. -/
def front (p : List UInt8) : List UInt8 := p.takeWhile (· != star)

/-- What stands behind it. -/
def back (p : List UInt8) : List UInt8 := (p.dropWhile (· != star)).drop 1

/-- There is nothing to compare; or the string does not begin with the front, by a character that an
`int` can count; or the back is looked at, in a release build. -/
def Judgeable (debug : Bool) (p str : List UInt8) : Prop :=
  p = [] ∨ (str = [] ∧ p ≠ [star]) ∨ (str ≠ [] ∧ ¬ SharesFront (front p) str ∧ ¬ front p <+: str) ∨
    (debug = false ∧ star ∈ p ∧ str ≠ [] ∧ front p <+: str ∧ p.length ≤ 2 ^ 31 ∧
      (str.length ≤ 2 ^ 31 ∨ back p = []) ∧ ¬ Misjudged (front p) (back p) str ∧
      (Theory.Glob star p str → wildcardScore p str < 2 ^ 31))

theorem passes_of_plain (plain : star ∉ u) : ∀ c ∈ u, (c != star) = true := fun c inside => by
  simpa using fun same : c = star => plain (same ▸ inside)

theorem front_starred (plain : star ∉ u) : front (u ++ star :: v) = u := by
  rw [front, List.takeWhile_append_of_pos (passes_of_plain plain)]
  simp

theorem back_starred (plain : star ∉ u) : back (u ++ star :: v) = v := by
  rw [back, List.dropWhile_append_of_pos (passes_of_plain plain)]
  simp

/-- The score is right and nothing outside the pattern is read, exactly where the pattern is judgeable. -/
theorem judgesWithin_iff (one : p.count star ≤ 1) (bound : str.length < 2 ^ 32) :
    JudgesWithin debug p str ↔ Judgeable debug p str := by
  by_cases starred : star ∈ p
  · obtain ⟨u, v, rfl, plain⟩ := List.eq_append_cons_of_mem starred
    have plain' : star ∉ v := by
      rw [List.count_append, List.count_cons_self] at one
      exact List.count_eq_zero.1 (by omega)
    have single : u ++ star :: v = [star] ↔ u = [] ∧ v = [] := by
      cases u <;> simp
    rw [starred_iff plain plain' bound, Judgeable, front_starred plain, back_starred plain]
    simp only [ne_eq, single, starred, List.append_eq_nil_iff, reduceCtorEq, and_false, false_or, true_and]
  · have whole : front p = p := List.takeWhile_eq_self_iff.2 (passes_of_plain starred)
    have other : p ≠ [star] := fun same => starred (by simp [same])
    rw [literal_iff starred, Judgeable, whole]
    simp only [starred, other, ne_eq, not_false_eq_true, and_true, false_and, and_false, or_false]
    by_cases none : str = [] <;> simp [none]

/-- "a*" and "ab". -/
theorem judges_one_star : JudgesWithin false [97, 42] [97, 98] := by
  refine (judgesWithin_iff (by decide) (by decide)).2 (.inr (.inr (.inr ?_)))
  refine ⟨rfl, by decide, by decide, ⟨[98], rfl⟩, by decide, .inl (by decide), ?_, fun _ => by decide⟩
  rintro (⟨none, -⟩ | ⟨-, -, -, long | ⟨none, -⟩⟩)
  · cases none
  · cases long
  · cases none

/-- "*b" is taken to match "a", in either build, and "a" is not judged against "a" without a look behind
it. -/
theorem wrong_first_character :
    StringWildcardMatch false [42, 98, 0] 2 [97] = some 1 ∧ StringWildcardMatch true [42, 98, 0] 2 [97] = some 1 ∧
      ¬ Theory.Glob star [42, 98] [97] ∧ StringWildcardMatch false [97] 1 [97] = none := by
  refine ⟨by decide, by decide, fun glob => ?_, by decide⟩
  obtain ⟨m, same⟩ := (Theory.glob_star_back (by decide)).1 glob
  have last := congrArg List.getLast? same
  simp at last

end Everscale.IntIndexed
