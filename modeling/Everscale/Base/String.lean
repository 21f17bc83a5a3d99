/-
# Everscale.Base.String -- hashes, patterns and pointers in octets

`StringWildcardMatch` compares the front of a pattern up to its star, and the back up to its star,
each with the string on its own.  Where the front and the back would overlap in the string by one
character, or the back is as long as the string, or there is nothing but the star, it is mistaken
(`Misjudged`); elsewhere it is right (`judges_iff`).

`WritePointer` stores a 64-bit pointer with its highest octet first, at any address;
`ReadPointer` reads it back (`read_write`).
-/
import Everscale.Theory.Glob
import Everscale.Theory.Packed

namespace Everscale

set_option autoImplicit false

/-! ## Hashing -/

/-- `h = (a * h + *v) % M`, with `*v` a signed `char`. -/
def hashLoop : List UInt8 → UInt64 → UInt64 → UInt64
  | [], h, _ => h
  | v :: rest, h, a => hashLoop rest ((a * h + v.toInt8.toInt64.toUInt64) % 7919) (a * 27183 % 7918)

def StringHash (str : List UInt8) : UInt64 := hashLoop str 0 31415

/-! ## Patterns -/

/-- `'*'` -/
def star : UInt8 := 42

/-- The walk of `ForwardMatch`, from `patternIdx` and `strIdx` on.  The pattern is read where it
lies, and so is what lies behind it; `left` characters of it are left. -/
def forwardLoop : List UInt8 → Nat → List UInt8 → Nat → Option (Int × Bool)
  | [], _, _, _ => none
  | c :: pattern, left, str, matchedChars =>
      if c = star then some (matchedChars, true)
      else
        match str with
        | [] => some (if left = 0 then matchedChars else -1, false)
        | x :: str =>
            if left = 0 then some (-1, false)
            else if c ≠ x then some (-1, false)
            else forwardLoop pattern (left - 1) str (matchedChars + 1)

/-- The result, and `hasWildcard`. -/
def ForwardMatch (pattern : List UInt8) (patternLength : Nat) (str : List UInt8) : Option (Int × Bool) :=
  if patternLength = 0 ∨ str.length = 0 then some (if patternLength = str.length then 0 else -1, false)
  else forwardLoop pattern patternLength str 0

/-- The walk of `ReverseMatch`, over what lies in front of `patternIdx` and `strIdx`, last first. -/
def reverseLoop : List UInt8 → List UInt8 → Nat → Option Int
  | c :: pattern, x :: str, matchedChars =>
      if c = star then some matchedChars
      else if str = [] then
        -- the first character of the string is not compared
        if pattern = [] ∨ pattern.head? = some star then some (matchedChars + 1) else some (-1)
      else if pattern = [] then some (-1)
      else if c ≠ x then some (-1)
      else reverseLoop pattern str (matchedChars + 1)
  | _, _, _ => none

def ReverseMatch (pattern : List UInt8) (patternLength : Nat) (str : List UInt8) : Option Int :=
  if patternLength = 0 ∨ str.length = 0 then some (if patternLength = str.length then 0 else -1)
  else reverseLoop (pattern.take patternLength).reverse str.reverse 0

/-- A `UInt32` as an `int`. -/
def toInt (n : Int) : Int := n.bmod (2 ^ 32)

/-- Neither pointer is null. -/
def StringWildcardMatch (pattern : List UInt8) (patternLength : Nat) (str : List UInt8) : Option Int :=
  match ForwardMatch pattern patternLength str with
  | none => none
  | some (forwardResult, hasWildcard) =>
      if forwardResult < 0 then some (-1)
      else if hasWildcard = false then some (toInt (str.length - forwardResult))
      else
        match ReverseMatch pattern patternLength str with
        | none => none
        | some reverseResult =>
            -- the assertion looks at the octet behind the pattern, once for each of its characters
            match pattern[patternLength]? with
            | none => none
            | some behind =>
                if behind = star ∧ 1 < patternLength then none
                else if reverseResult < 0 then some (-1)
                else some (toInt (str.length - forwardResult - reverseResult + 1))

/-- The characters that the star stands for and one more, or nothing where there is no star. -/
def wildcardScore (pattern str : List UInt8) : Nat :=
  if star ∈ pattern then str.length + 2 - pattern.length else 0

/-- The result says whether the pattern matches, and if so how loosely. -/
def Judges (result : Option Int) (pattern str : List UInt8) : Prop :=
  ∃ k, result = some k ∧ (0 ≤ k ↔ Theory.Glob star pattern str) ∧
    (Theory.Glob star pattern str → k = wildcardScore pattern str)

/-- What `ReverseMatch` takes for the end of the string. -/
def Ends (v str : List UInt8) : Prop :=
  (v <:+ str ∧ v.length < str.length) ∨ (v.length = str.length ∧ v.tail = str.tail)

/-- Where the pattern `u*v` is taken to match and does not, or the other way round. -/
def Misjudged (u v str : List UInt8) : Prop :=
  (str = [] ∧ u = [] ∧ v = []) ∨
  (str ≠ [] ∧ u <+: str ∧ Ends v str ∧
    (u.length + v.length = str.length + 1 ∨ (u = [] ∧ v.length = str.length ∧ v ≠ str)))

instance (v str : List UInt8) : Decidable (Ends v str) := inferInstanceAs (Decidable (_ ∨ _))

instance (u v str : List UInt8) : Decidable (Misjudged u v str) := inferInstanceAs (Decidable (_ ∨ _))

section

variable {u v str rest : List UInt8} {z : UInt8}

theorem forwardLoop_literal (plain : star ∉ u) (behind : z ≠ star) (matched : Nat) :
    forwardLoop (u ++ z :: rest) u.length str matched =
      some (if u = str then ((matched + u.length : Nat) : Int) else -1, false) := by
  induction u generalizing str matched with
  | nil =>
      rw [List.nil_append, forwardLoop.eq_def]
      dsimp only
      rw [if_neg behind]
      cases str <;> simp
  | cons c u ih =>
      obtain ⟨ne, plain⟩ := not_or.mp (List.mem_cons.not.mp plain)
      rw [List.cons_append, forwardLoop.eq_def]
      dsimp only
      rw [if_neg (Ne.symm ne)]
      cases str with
      | nil => simp
      | cons x str =>
          dsimp only [List.length_cons]
          rw [if_neg (Nat.succ_ne_zero _)]
          by_cases same : c = x
          · subst same
            rw [if_neg (not_not.mpr rfl), Nat.add_sub_cancel, ih plain]
            simp only [List.cons.injEq, true_and]
            rw [Nat.add_assoc, Nat.add_comm 1]
          · rw [if_pos same, if_neg fun equal => same (List.cons.inj equal).1]

theorem forwardLoop_star (plain : star ∉ u) {left : Nat} (enough : u.length < left) (matched : Nat) :
    forwardLoop (u ++ star :: rest) left str matched =
      some (if u <+: str then (((matched + u.length : Nat) : Int), true) else (-1, false)) := by
  induction u generalizing str matched left with
  | nil =>
      rw [List.nil_append, forwardLoop.eq_def]
      dsimp only
      rw [if_pos rfl, if_pos List.nil_prefix]
      rfl
  | cons c u ih =>
      obtain ⟨ne, plain⟩ := not_or.mp (List.mem_cons.not.mp plain)
      rw [List.length_cons] at enough
      have some : left ≠ 0 := by omega
      rw [List.cons_append, forwardLoop.eq_def]
      dsimp only
      rw [if_neg (Ne.symm ne)]
      cases str with
      | nil => simp [some]
      | cons x str =>
          dsimp only
          rw [if_neg some]
          by_cases same : c = x
          · subst same
            rw [if_neg (not_not.mpr rfl), ih plain (by omega)]
            simp only [List.cons_prefix_cons, true_and, List.length_cons]
            rw [Nat.add_assoc, Nat.add_comm 1]
          · rw [if_pos same, if_neg fun before => same (List.cons_prefix_cons.mp before).1]

variable {r s t : List UInt8}

open Classical in
/-- The back of the pattern, read from its end, and the string from its end. -/
theorem reverseLoop_star (plain : star ∉ r) (some : s ≠ []) (matched : Nat) :
    reverseLoop (r ++ star :: t) s matched =
      Option.some (if (r <+: s ∧ r.length < s.length) ∨ (r.length = s.length ∧ r.dropLast = s.dropLast) then
        ((matched + r.length : Nat) : Int) else -1) := by
  induction r generalizing s matched with
  | nil =>
      obtain ⟨x, s, rfl⟩ := List.exists_cons_of_ne_nil some
      rw [List.nil_append, reverseLoop, if_pos rfl, if_pos (.inl ⟨List.nil_prefix, by simp⟩)]
      rfl
  | cons c r ih =>
      obtain ⟨ne, plain⟩ := not_or.mp (List.mem_cons.not.mp plain)
      obtain ⟨x, s, rfl⟩ := List.exists_cons_of_ne_nil some
      rw [List.cons_append, reverseLoop, if_neg (Ne.symm ne)]
      cases s with
      | nil =>
          rw [if_pos rfl]
          cases r with
          | nil => simp
          | cons c' r =>
              have other : ¬ (c' = star) := fun same => plain (same ▸ List.mem_cons_self)
              simp [other]
      | cons y s =>
          rw [if_neg (by simp), if_neg (by simp)]
          by_cases same : c = x
          · subst same
            have shorter : ((c :: r <+: c :: y :: s ∧ (c :: r).length < (c :: y :: s).length) ∨
                ((c :: r).length = (c :: y :: s).length ∧ (c :: r).dropLast = (c :: y :: s).dropLast)) ↔
                ((r <+: y :: s ∧ r.length < (y :: s).length) ∨
                  (r.length = (y :: s).length ∧ r.dropLast = (y :: s).dropLast)) := by
              rw [List.cons_prefix_cons]
              cases r with
              | nil => simp
              | cons c' r => simp
            have more : matched + 1 + r.length = matched + (c :: r).length := by
              rw [List.length_cons]
              omega
            rw [if_neg (not_not.mpr rfl), ih plain (by simp), more]
            by_cases both : (r <+: y :: s ∧ r.length < (y :: s).length) ∨
                (r.length = (y :: s).length ∧ r.dropLast = (y :: s).dropLast)
            · rw [if_pos both, if_pos (shorter.mpr both)]
            · rw [if_neg both, if_neg (shorter.not.mpr both)]
          · have no : ¬ ((c :: r <+: x :: y :: s ∧ (c :: r).length < (x :: y :: s).length) ∨
                ((c :: r).length = (x :: y :: s).length ∧ (c :: r).dropLast = (x :: y :: s).dropLast)) := by
              rintro (⟨before, -⟩ | ⟨long, equal⟩)
              · exact same (List.cons_prefix_cons.mp before).1
              · cases r with
                | nil => simp at long
                | cons c' r => exact same (by simpa using (List.cons.inj equal).1)
            rw [if_pos same, if_neg no]

theorem length_behind : (u ++ star :: v).length = u.length + 1 + v.length := by
  rw [List.length_append, List.length_cons]
  omega

open Classical in
theorem ReverseMatch_star (plain : star ∉ v) (some : str ≠ []) :
    ReverseMatch (u ++ star :: v ++ z :: rest) (u ++ star :: v).length str =
      Option.some (if Ends v str then (v.length : Int) else -1) := by
  have long : ¬ ((u ++ star :: v).length = 0 ∨ str.length = 0) := by
    simp [some]
  rw [ReverseMatch, if_neg long, List.take_left, List.reverse_append, List.reverse_cons, List.append_assoc,
    List.singleton_append, reverseLoop_star (by simpa using plain) (by simpa using some), Nat.zero_add]
  have same : ((v.reverse <+: str.reverse ∧ v.reverse.length < str.reverse.length) ∨
      (v.reverse.length = str.reverse.length ∧ v.reverse.dropLast = str.reverse.dropLast)) ↔ Ends v str := by
    simp only [List.length_reverse, List.reverse_prefix, List.dropLast_reverse, List.reverse_inj, Ends]
  by_cases ends : Ends v str
  · rw [if_pos ends, if_pos (same.mpr ends), List.length_reverse]
  · rw [if_neg ends, if_neg (same.not.mpr ends)]

open Classical in
theorem ForwardMatch_star (plain : star ∉ u) :
    ForwardMatch (u ++ star :: v ++ z :: rest) (u ++ star :: v).length str =
      some (if str ≠ [] ∧ u <+: str then ((u.length : Int), true) else (-1, false)) := by
  rw [ForwardMatch]
  by_cases none : str = []
  · subst none
    simp
  · have long : ¬ ((u ++ star :: v).length = 0 ∨ str.length = 0) := by
      simp [none]
    have enough : u.length < (u ++ star :: v).length := by
      rw [length_behind]
      omega
    rw [if_neg long, List.append_assoc, List.cons_append, forwardLoop_star plain enough, Nat.zero_add]
    by_cases before : u <+: str <;> simp [none, before]

theorem toInt_of_small {n : Int} (low : -2 ^ 31 ≤ n) (high : n < 2 ^ 31) : toInt n = n := by
  rw [toInt, Int.bmod_def]
  omega

open Classical in
theorem StringWildcardMatch_star (front : star ∉ u) (back : star ∉ v) (behind : z ≠ star)
    (small : str.length < 2 ^ 31 - 1) :
    StringWildcardMatch (u ++ star :: v ++ z :: rest) (u ++ star :: v).length str =
      some (if str ≠ [] ∧ u <+: str ∧ Ends v str then (str.length : Int) - u.length - v.length + 1 else -1) := by
  rw [StringWildcardMatch, ForwardMatch_star front]
  by_cases before : str ≠ [] ∧ u <+: str
  · rw [if_pos before]
    have here : (u ++ star :: v ++ z :: rest)[(u ++ star :: v).length]? = some z := by simp
    dsimp only
    rw [if_neg (by omega), if_neg (by simp), ReverseMatch_star back before.1, here]
    dsimp only
    rw [if_neg fun both => behind both.1]
    by_cases ends : Ends v str
    · have short : u.length ≤ str.length := before.2.length_le
      have short' : v.length ≤ str.length := by
        rcases ends with ⟨suffix, -⟩ | ⟨long, -⟩
        · exact suffix.length_le
        · exact Nat.le_of_eq long
      rw [if_pos ends, if_neg (by omega), if_pos ⟨before.1, before.2, ends⟩, toInt_of_small (by omega) (by omega)]
    · rw [if_neg ends, if_pos (by decide), if_neg fun all => ends all.2.2]
  · rw [if_neg before]
    dsimp only
    rw [if_pos (by decide), if_neg fun all => before ⟨all.1, all.2.1⟩]

theorem StringWildcardMatch_literal (plain : star ∉ u) (behind : z ≠ star) :
    StringWildcardMatch (u ++ z :: rest) u.length str = some (if u = str then 0 else -1) := by
  have forward : ForwardMatch (u ++ z :: rest) u.length str =
      some (if u = str then (u.length : Int) else -1, false) := by
    rw [ForwardMatch]
    by_cases empty : u.length = 0 ∨ str.length = 0
    · rw [if_pos empty]
      by_cases same : u = str
      · subst same
        have none : u.length = 0 := empty.elim id id
        simp [none]
      · have differ : ¬ (u.length = str.length) := fun equal => by
          have none : u.length = 0 := empty.elim id fun zero => equal.trans zero
          exact same ((List.eq_nil_of_length_eq_zero none).trans
            (List.eq_nil_of_length_eq_zero (equal ▸ none)).symm)
        rw [if_neg same, if_neg differ]
    · rw [if_neg empty, forwardLoop_literal plain behind, Nat.zero_add]
  rw [StringWildcardMatch, forward]
  dsimp only
  by_cases same : u = str
  · subst same
    rw [if_pos rfl, if_neg (by omega), if_pos rfl, Int.sub_self, if_pos rfl]
    rfl
  · rw [if_neg same, if_pos (by decide), if_neg same]

theorem judges_equal (plain : star ∉ u) : Judges (some (if u = str then 0 else -1)) u str := by
  refine ⟨_, rfl, ?_, ?_⟩
  · rw [Theory.glob_literal plain]
    by_cases same : u = str <;> simp [same]
  · rw [Theory.glob_literal plain]
    rintro rfl
    rw [if_pos rfl, wildcardScore, if_neg plain]
    rfl

/-- Patterns without a star are judged rightly. -/
theorem judges_literal (plain : star ∉ u) (behind : z ≠ star) :
    Judges (StringWildcardMatch (u ++ z :: rest) u.length str) u str := by
  rw [StringWildcardMatch_literal plain behind]
  exact judges_equal plain

theorem Ends.of_suffix (suffix : v <:+ str) : Ends v str := by
  rcases Nat.lt_or_eq_of_le suffix.length_le with shorter | long
  · exact .inl ⟨suffix, shorter⟩
  · exact .inr ⟨long, by rw [suffix.eq_of_length long]⟩

theorem wildcardScore_star (str : List UInt8) :
    wildcardScore (u ++ star :: v) str = str.length + 1 - (u.length + v.length) := by
  rw [wildcardScore, if_pos (by simp), length_behind]
  omega

open Classical in
/-- The result for a pattern with one star is right unless the string is one of those it is mistaken
about. -/
theorem judges_result_iff (str : List UInt8) (front : star ∉ u) (back : star ∉ v) :
    Judges (some (if str ≠ [] ∧ u <+: str ∧ Ends v str then (str.length : Int) - u.length - v.length + 1 else -1))
        (u ++ star :: v) str ↔ ¬ Misjudged u v str := by
  have glob : Theory.Glob star (u ++ star :: v) str ↔ u <+: str ∧ v <:+ str ∧ u.length + v.length ≤ str.length :=
    (Theory.glob_star front back).trans Theory.exists_between
  rw [Judges, glob, wildcardScore_star]
  by_cases accepted : str ≠ [] ∧ u <+: str ∧ Ends v str
  · obtain ⟨some, before, ends⟩ := accepted
    rw [if_pos ⟨some, before, ends⟩]
    have misjudged : Misjudged u v str ↔
        (u.length + v.length = str.length + 1 ∨ (u = [] ∧ v.length = str.length ∧ v ≠ str)) := by
      simp [Misjudged, some, before, ends]
    rw [misjudged]
    have single : (∃ k, Option.some ((str.length : Int) - u.length - v.length + 1) = Option.some k ∧
        (0 ≤ k ↔ u <+: str ∧ v <:+ str ∧ u.length + v.length ≤ str.length) ∧
        (u <+: str ∧ v <:+ str ∧ u.length + v.length ≤ str.length →
          k = ((str.length + 1 - (u.length + v.length) : Nat) : Int))) ↔
        (u.length + v.length ≤ str.length + 1 ↔ v <:+ str ∧ u.length + v.length ≤ str.length) := by
      constructor
      · rintro ⟨k, result, sign, -⟩
        obtain rfl := Option.some.inj result
        rw [and_iff_right before] at sign
        rw [← sign]
        omega
      · intro same
        refine ⟨_, rfl, ?_, fun all => by omega⟩
        rw [and_iff_right before, ← same]
        omega
    rw [single]
    rcases Nat.lt_trichotomy (u.length + v.length) (str.length + 1) with apart | touch | beyond
    · -- the back is an end of the string, or as long as the string
      have fits : u.length + v.length ≤ str.length := Nat.le_of_lt_succ apart
      have onlySuffix : (u.length + v.length ≤ str.length + 1 ↔ v <:+ str ∧ u.length + v.length ≤ str.length) ↔
          v <:+ str := by
        rw [and_iff_left fits]
        exact iff_true_left (by omega)
      rw [onlySuffix]
      rcases ends with ⟨suffix, shorter⟩ | ⟨long, tails⟩
      · rw [iff_true_left suffix]
        rintro (touch | ⟨-, long, -⟩) <;> omega
      · have nothing : u = [] := List.eq_nil_of_length_eq_zero (by omega)
        have whole : v <:+ str ↔ v = str := ⟨fun suffix => suffix.eq_of_length long, fun same => same ▸ List.suffix_refl v⟩
        rw [whole]
        constructor
        · rintro rfl (touch | ⟨-, -, differ⟩)
          · omega
          · exact differ rfl
        · intro right
          by_contra differ
          exact right (.inr ⟨nothing, long, differ⟩)
    · constructor
      · intro same
        have := (same.mp (by omega)).2
        omega
      · intro right
        exact absurd (.inl touch) right
    · constructor
      · rintro - (touch | ⟨rfl, long, -⟩)
        · omega
        · rw [List.length_nil] at beyond
          omega
      · intro _
        constructor <;> intro <;> omega
  · rw [if_neg accepted]
    have nothing : Misjudged u v str ↔ str = [] ∧ u = [] ∧ v = [] := by
      constructor
      · rintro (none | ⟨some, before, ends, -⟩)
        · exact none
        · exact absurd ⟨some, before, ends⟩ accepted
      · exact .inl
    rw [nothing]
    constructor
    · rintro ⟨k, result, sign, -⟩ ⟨rfl, rfl, rfl⟩
      obtain rfl := Option.some.inj result
      exact absurd (sign.mpr ⟨List.nil_prefix, List.suffix_refl _, Nat.le_refl _⟩) (by decide)
    · intro right
      have no : ¬ (u <+: str ∧ v <:+ str ∧ u.length + v.length ≤ str.length) := by
        rintro ⟨before, suffix, apart⟩
        by_cases none : str = []
        · subst none
          exact right ⟨rfl, List.prefix_nil.mp before, List.suffix_nil.mp suffix⟩
        · exact accepted ⟨none, before, .of_suffix suffix⟩
      exact ⟨-1, rfl, iff_of_false (by decide) no, fun all => absurd all no⟩

/-- Patterns with one star are judged rightly, unless the string is one of those they are mistaken
about. -/
theorem judges_iff (front : star ∉ u) (back : star ∉ v) (behind : z ≠ star) (small : str.length < 2 ^ 31 - 1) :
    Judges (StringWildcardMatch (u ++ star :: v ++ z :: rest) (u ++ star :: v).length str) (u ++ star :: v) str ↔
      ¬ Misjudged u v str := by
  rw [StringWildcardMatch_star front back behind small]
  exact judges_result_iff _ front back

end

/-! ## Pointers -/

/-- An address; zero is the null pointer. -/
abbrev Pointer := UInt64

/-- The octets that `WritePointer` stores. -/
def WritePointer (pointer : Pointer) : List UInt8 :=
  [56, 48, 40, 32, 24, 16, 8, 0].map fun (shift : UInt64) => (pointer >>> shift).toUInt8

/-- The pointer that `ReadPointer` reads from eight octets. -/
def ReadPointer : List UInt8 → Pointer
  | [a, b, c, d, e, f, g, h] =>
      a.toUInt64 <<< 56 ||| b.toUInt64 <<< 48 ||| c.toUInt64 <<< 40 ||| d.toUInt64 <<< 32 |||
        e.toUInt64 <<< 24 ||| f.toUInt64 <<< 16 ||| g.toUInt64 <<< 8 ||| h.toUInt64
  | _ => 0

/-- Bit `i` of the octet at `shift`, put back. -/
theorem octet_bit (x : BitVec 64) (shift i : Nat) (hi : i < 64) :
    ((((x >>> shift).setWidth 8).setWidth 64) <<< shift).getLsbD i =
      (decide (shift ≤ i ∧ i < shift + 8) && x.getLsbD i) := by
  simp only [BitVec.getLsbD_shiftLeft, BitVec.getLsbD_setWidth, BitVec.getLsbD_ushiftRight]
  by_cases low : shift ≤ i
  · rw [Nat.add_sub_cancel' low]
    by_cases high : i < shift + 8
    · have : i - shift < 8 := by omega
      have : i - shift < 64 := by omega
      simp [*]
    · have : ¬ i - shift < 8 := by omega
      simp [*]
  · have : i < shift := by omega
    simp [*]

theorem last_bit (x : BitVec 64) (i : Nat) (hi : i < 64) :
    (((x >>> 0).setWidth 8).setWidth 64).getLsbD i = (decide (i < 8) && x.getLsbD i) := by
  have bit := octet_bit x 0 i hi
  simpa using bit

theorem read_write (pointer : Pointer) : ReadPointer (WritePointer pointer) = pointer := by
  apply UInt64.eq_of_toBitVec_eq
  apply BitVec.eq_of_getLsbD_eq
  intro i hi
  simp only [WritePointer, List.map, ReadPointer, UInt64.toBitVec_or, UInt64.toBitVec_shiftLeft,
    UInt8.toBitVec_toUInt64, UInt64.toBitVec_toUInt8, UInt64.toBitVec_shiftRight, BitVec.getLsbD_or,
    BitVec.shiftLeft_eq', BitVec.ushiftRight_eq']
  have bits := octet_bit pointer.toBitVec
  simp only [show (UInt64.toBitVec 56 % 64).toNat = 56 from rfl, show (UInt64.toBitVec 48 % 64).toNat = 48 from rfl,
    show (UInt64.toBitVec 40 % 64).toNat = 40 from rfl, show (UInt64.toBitVec 32 % 64).toNat = 32 from rfl,
    show (UInt64.toBitVec 24 % 64).toNat = 24 from rfl, show (UInt64.toBitVec 16 % 64).toNat = 16 from rfl,
    show (UInt64.toBitVec 8 % 64).toNat = 8 from rfl, show (UInt64.toBitVec 0 % 64).toNat = 0 from rfl]
  rw [bits 56 i hi, bits 48 i hi, bits 40 i hi, bits 32 i hi, bits 24 i hi, bits 16 i hi, bits 8 i hi,
    last_bit pointer.toBitVec i hi]
  cases pointer.toBitVec.getLsbD i with
  | false => simp
  | true =>
      simp only [Bool.and_true, Bool.or_eq_true, decide_eq_true_eq]
      omega

/-- Pointers as the values of packed entries. -/
def pointers : Theory.Codec Pointer where
  width := 8
  encode := WritePointer
  decode := ReadPointer
  length_encode _ := rfl
  decode_encode := read_write

end Everscale
