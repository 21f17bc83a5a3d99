/-
# Everscale.HttpCommon.Util -- skipping, matching and integers

The buffer helpers of `HttpUtil` (`ESHttpUtil.cpp`) that the HTTP/1 parsers call,
each beside what it does to the unread octets.

`SkipLWS` and `SkipLine` look ahead: when the octets run out they put the read
position back to where they found it and ask for more.  Over lists that is `none`,
with the input as it was; `skipLWSOn_append` and `skipLineOn_append` say that
what they decide once is not changed by further octets.
-/
import Everscale.HttpCommon.Message
import Everscale.Base.Reader

namespace Everscale.HttpUtil

set_option autoImplicit false

open Theory

/-! ## Spaces -/

/-- Skips `' '` and `'\\t'`. -/
def SkipSpaces (b : Buffer) : Buffer := b.skipWhile isSpace b.readable

theorem SkipSpaces_spec {b : Buffer} (wf : b.WF) :
    (SkipSpaces b).unread = b.unread.dropWhile isSpace ∧ (SkipSpaces b).WF ∧
      SameOctets b (SkipSpaces b) :=
  Buffer.skipWhile_spec isSpace b.readable wf (by rw [Buffer.unread_length wf])

/-! ## Linear white space -/

/-- The loop of `SkipLWS`; `mark` is the read position it started at. -/
def skipLWSFrom (mark : Nat) : Nat → Bool → Buffer → Error × Buffer
  | 0, _, b => (.again, b.setReadPosition mark)
  | fuel + 1, foundCRLF, b =>
      if b.isReadable then
        let octet := b.peekNext
        let b := b.skipNext
        if octet = CR then
          if foundCRLF then (.success, b.setReadPosition (b.readPosition - 1))
          else skipLWSFrom mark fuel foundCRLF b
        else if octet = LF then
          if foundCRLF then (.success, b.setReadPosition (b.readPosition - 1))
          else skipLWSFrom mark fuel true b
        else if octet = SP ∨ octet = HT then
          -- a line continuation: the line break did not end the field
          skipLWSFrom mark fuel false b
        else if foundCRLF then (.success, b.setReadPosition (b.readPosition - 1))
        else (.inProgress, b.setReadPosition (b.readPosition - 1))
      else (.again, b.setReadPosition mark)

/-- `SkipLWS(buffer, depth)`: the depth is checked once and never counted down. -/
def SkipLWS (b : Buffer) (depth : Int) : Error × Buffer :=
  if depth < 0 then (.overflow, b) else skipLWSFrom b.readPosition b.readable false b

/-- White space, line breaks and continuations at the front: `none` while the octets
do not decide, else whether the field ends here, with what follows. -/
def skipLWSOn : Bool → List Octet → Option (Error × List Octet)
  | _, [] => none
  | foundCRLF, c :: rest =>
      if c = CR then if foundCRLF then some (.success, c :: rest) else skipLWSOn foundCRLF rest
      else if c = LF then if foundCRLF then some (.success, c :: rest) else skipLWSOn true rest
      else if c = SP ∨ c = HT then skipLWSOn false rest
      else if foundCRLF then some (.success, c :: rest)
      else some (.inProgress, c :: rest)

theorem skipLWSOn_suffix {found : Bool} {u : List Octet} {e : Error} {r : List Octet}
    (h : skipLWSOn found u = some (e, r)) : r <:+ u := by
  induction u generalizing found with
  | nil => simp [skipLWSOn] at h
  | cons c rest ih =>
      have here : some (e, r) = some (Error.success, c :: rest) ∨
          some (e, r) = some (Error.inProgress, c :: rest) ∨
          ∃ found', skipLWSOn found' rest = some (e, r) := by
        rw [← h, skipLWSOn]
        split_ifs <;> first | exact .inl rfl | exact .inr (.inl rfl) | exact .inr (.inr ⟨_, rfl⟩)
      rcases here with here | here | ⟨found', later⟩
      · cases here; exact List.suffix_rfl
      · cases here; exact List.suffix_rfl
      · exact (ih later).trans (List.suffix_cons c rest)

theorem skipLWSOn_code {found : Bool} {u : List Octet} {e : Error} {r : List Octet}
    (h : skipLWSOn found u = some (e, r)) : e = .success ∨ e = .inProgress := by
  induction u generalizing found with
  | nil => simp [skipLWSOn] at h
  | cons c rest ih =>
      rw [skipLWSOn] at h
      split_ifs at h <;> first | exact ih h | (cases h; simp)

/-- Only white space and line breaks leave it open whether the field ends. -/
theorem skipLWSOn_eq_none {found : Bool} {u : List Octet} (h : skipLWSOn found u = none) :
    u.all isLWS = true := by
  induction u generalizing found with
  | nil => rfl
  | cons c rest ih =>
      rw [skipLWSOn] at h
      split_ifs at h with cr _ lf _ space <;>
        simp [List.all_cons, isLWS, ih h, *]

theorem skipLWSOn_append {found : Bool} {u : List Octet} {e : Error} {r : List Octet}
    (more : List Octet) (h : skipLWSOn found u = some (e, r)) :
    skipLWSOn found (u ++ more) = some (e, r ++ more) := by
  induction u generalizing found with
  | nil => simp [skipLWSOn] at h
  | cons c rest ih =>
      rw [List.cons_append]
      unfold skipLWSOn at h ⊢
      split_ifs at h ⊢ <;> first | exact ih h | (cases h; rfl)

theorem skipLWSFrom_spec {start : Buffer} (startWF : start.WF) (fuel : Nat) :
    ∀ (found : Bool) (b : Buffer), b.WF → start.SameButRead b → SameOctets start b →
      b.unread.length ≤ fuel →
      match skipLWSOn found b.unread with
      | none => skipLWSFrom start.readPosition fuel found b = (.again, start)
      | some (e, r) => (skipLWSFrom start.readPosition fuel found b).1 = e ∧
          (skipLWSFrom start.readPosition fuel found b).2.unread = r ∧
          (skipLWSFrom start.readPosition fuel found b).2.WF ∧
          SameOctets start (skipLWSFrom start.readPosition fuel found b).2 := by
  induction fuel with
  | zero =>
      intro found b wf since same enough
      have empty : b.unread = [] := List.eq_nil_of_length_eq_zero (by omega)
      simp only [empty, skipLWSOn, skipLWSFrom, since.restore startWF]
  | succ fuel ih =>
      intro found b wf since same enough
      cases unread : b.unread with
      | nil =>
          simp only [skipLWSOn, skipLWSFrom, Buffer.not_isReadable_of_unread wf unread,
            Bool.false_eq_true, if_false, since.restore startWF]
      | cons c rest =>
          have readable := Buffer.isReadable_of_unread wf unread
          have tail := Buffer.skipNext_unread_cons wf unread
          have fits : b.skipNext.unread.length ≤ fuel := by rw [tail]; simpa [unread] using enough
          have next := fun found' => ih found' b.skipNext (Buffer.skipNext_wf wf) since.skipNext
            (same.trans (SameOctets.skipNext b)) fits
          simp only [tail] at next
          simp only [skipLWSOn, skipLWSFrom, readable, if_true, Buffer.peekNext_of_unread wf unread,
            Buffer.setReadPosition_skipNext wf readable]
          split_ifs <;> first | exact next _ | exact ⟨rfl, unread, wf, same⟩

/-- What `SkipLWS` does at the depth the parsers call it with. -/
theorem SkipLWS_spec {b : Buffer} (wf : b.WF) :
    match skipLWSOn false b.unread with
    | none => SkipLWS b 3 = (.again, b)
    | some (e, r) => (SkipLWS b 3).1 = e ∧ (SkipLWS b 3).2.unread = r ∧ (SkipLWS b 3).2.WF ∧
        SameOctets b (SkipLWS b 3).2 :=
  skipLWSFrom_spec wf b.readable false b wf (Buffer.SameButRead.refl b) (SameOctets.refl b)
    (by rw [Buffer.unread_length wf])

/-! ## Lines -/

/-- The loop of `SkipLine`; `position` is the read position it started at. -/
def skipLineFrom (position : Nat) : Nat → Bool → Nat → Buffer → Error × Nat × Buffer
  | 0, _, bytesSkipped, b => (.again, bytesSkipped, b.setReadPosition position)
  | fuel + 1, foundCarriageReturn, bytesSkipped, b =>
      if b.isReadable then
        let octet := b.peekNext
        let b := b.skipNext
        if octet = CR then
          if foundCarriageReturn then skipLineFrom position fuel true (bytesSkipped + 1) b
          else skipLineFrom position fuel true bytesSkipped b
        else if octet = LF then (.success, bytesSkipped, b)
        else if foundCarriageReturn then
          skipLineFrom position fuel false (bytesSkipped + 1 + 1) b
        else skipLineFrom position fuel false (bytesSkipped + 1) b
      else (.again, bytesSkipped, b.setReadPosition position)

/-- `SkipLine`: the result, the number of octets before the line break and the buffer
behind it. -/
def SkipLine (b : Buffer) : Error × Nat × Buffer :=
  skipLineFrom b.readPosition b.readable false 0 b

/-- The first line: the number of its octets, not counting the line break, and what
follows; `none` while no line feed is there. -/
def skipLineOn : Bool → Nat → List Octet → Option (Nat × List Octet)
  | _, _, [] => none
  | foundCarriageReturn, bytesSkipped, c :: rest =>
      if c = CR then
        if foundCarriageReturn then skipLineOn true (bytesSkipped + 1) rest
        else skipLineOn true bytesSkipped rest
      else if c = LF then some (bytesSkipped, rest)
      else if foundCarriageReturn then skipLineOn false (bytesSkipped + 1 + 1) rest
      else skipLineOn false (bytesSkipped + 1) rest

theorem skipLineOn_append {found : Bool} {count : Nat} {u : List Octet} {n : Nat}
    {r : List Octet} (more : List Octet) (h : skipLineOn found count u = some (n, r)) :
    skipLineOn found count (u ++ more) = some (n, r ++ more) := by
  induction u generalizing found count with
  | nil => simp [skipLineOn] at h
  | cons c rest ih =>
      rw [List.cons_append]
      unfold skipLineOn at h ⊢
      split_ifs at h ⊢ <;> first | exact ih h | (cases h; rfl)

theorem skipLineFrom_spec {start : Buffer} (startWF : start.WF) (fuel : Nat) :
    ∀ (found : Bool) (count : Nat) (b : Buffer), b.WF → start.SameButRead b →
      SameOctets start b → b.unread.length ≤ fuel →
      match skipLineOn found count b.unread with
      | none => (skipLineFrom start.readPosition fuel found count b).1 = .again ∧
          (skipLineFrom start.readPosition fuel found count b).2.2 = start
      | some (n, r) => (skipLineFrom start.readPosition fuel found count b).1 = .success ∧
          (skipLineFrom start.readPosition fuel found count b).2.1 = n ∧
          (skipLineFrom start.readPosition fuel found count b).2.2.unread = r ∧
          (skipLineFrom start.readPosition fuel found count b).2.2.WF ∧
          SameOctets start (skipLineFrom start.readPosition fuel found count b).2.2 := by
  induction fuel with
  | zero =>
      intro found count b wf since same enough
      have empty : b.unread = [] := List.eq_nil_of_length_eq_zero (by omega)
      simp only [empty, skipLineOn, skipLineFrom, since.restore startWF, and_self]
  | succ fuel ih =>
      intro found count b wf since same enough
      cases unread : b.unread with
      | nil =>
          simp only [skipLineOn, skipLineFrom, Buffer.not_isReadable_of_unread wf unread,
            Bool.false_eq_true, if_false, since.restore startWF, and_self]
      | cons c rest =>
          have readable := Buffer.isReadable_of_unread wf unread
          have tail := Buffer.skipNext_unread_cons wf unread
          have wf' := Buffer.skipNext_wf wf
          have same' := same.trans (SameOctets.skipNext b)
          have fits : b.skipNext.unread.length ≤ fuel := by rw [tail]; simpa [unread] using enough
          have next := fun found' count' =>
            ih found' count' b.skipNext wf' since.skipNext same' fits
          simp only [tail] at next
          simp only [skipLineOn, skipLineFrom, readable, if_true,
            Buffer.peekNext_of_unread wf unread]
          split_ifs <;> first | exact next _ _ | exact ⟨rfl, rfl, tail, wf', same'⟩

theorem SkipLine_spec {b : Buffer} (wf : b.WF) :
    match skipLineOn false 0 b.unread with
    | none => (SkipLine b).1 = .again ∧ (SkipLine b).2.2 = b
    | some (n, r) => (SkipLine b).1 = .success ∧ (SkipLine b).2.1 = n ∧
        (SkipLine b).2.2.unread = r ∧ (SkipLine b).2.2.WF ∧ SameOctets b (SkipLine b).2.2 :=
  skipLineFrom_spec wf b.readable false 0 b wf (Buffer.SameButRead.refl b) (SameOctets.refl b)
    (by rw [Buffer.unread_length wf])

/-! ## Literals and integers -/

/-- The loop of `IsMatch`: compares octet by octet, reading as it goes.  Past the end
of the buffer `next` reads `0`. -/
def isMatchFrom : List Octet → Buffer → Bool
  | [], _ => true
  | p :: literal, b => if p = b.peekNext then isMatchFrom literal b.skipNext else false

/-- Whether the unread octets begin with the literal; the read position is put back
either way. -/
def IsMatch (b : Buffer) (literal : String) : Bool := isMatchFrom (octets literal) b

theorem isMatchFrom_eq {b : Buffer} (wf : b.WF) {literal : List Octet}
    (enough : literal.length ≤ b.unread.length) :
    isMatchFrom literal b = literal.isPrefixOf b.unread := by
  induction literal generalizing b with
  | nil => rfl
  | cons p literal ih =>
      cases unread : b.unread with
      | nil => simp [unread] at enough
      | cons c rest =>
          have tail := Buffer.skipNext_unread_cons wf unread
          have fits : literal.length ≤ b.skipNext.unread.length := by
            rw [tail]; simpa [unread] using enough
          rw [isMatchFrom, Buffer.peekNext_of_unread wf unread, List.isPrefixOf_cons_cons,
            ih (Buffer.skipNext_wf wf) fits, tail]
          by_cases same : p = c <;> simp [same]

/-- The loop of `ParseInteger`, in 64-bit arithmetic. -/
def parseIntegerFrom : Nat → List Octet → Error × Nat
  | integer, [] => (.success, integer)
  | integer, c :: rest =>
      if isDigit c then parseIntegerFrom ((integer * 10 + (c.toNat - 48)) % 2 ^ 64) rest
      else (.badInteger, integer)

/-- `ParseInteger`: no digits at all is zero, and a value beyond 64 bits wraps. -/
def ParseInteger (str : List Octet) : Error × Nat := parseIntegerFrom 0 (cstr str)

theorem ParseInteger_code (str : List Octet) :
    (ParseInteger str).1 = .success ∨ (ParseInteger str).1 = .badInteger := by
  have loop : ∀ (s : List Octet) (n : Nat),
      (parseIntegerFrom n s).1 = .success ∨ (parseIntegerFrom n s).1 = .badInteger := by
    intro s
    induction s with
    | nil => intro n; exact .inl rfl
    | cons c rest ih =>
        intro n
        rw [parseIntegerFrom]
        split
        · exact ih _
        · exact .inr rfl
  exact loop _ 0

/-- The number that decimal digits spell. -/
def decimal (digits : List Octet) : Nat := digits.foldl (fun n c => n * 10 + (c.toNat - 48)) 0

theorem parseIntegerFrom_spec (str : List Octet) (n : Nat) :
    ((parseIntegerFrom (n % 2 ^ 64) str).1 = .success ↔ str.all isDigit = true) ∧
      (str.all isDigit = true → (parseIntegerFrom (n % 2 ^ 64) str).2 =
        str.foldl (fun n c => n * 10 + (c.toNat - 48)) n % 2 ^ 64) := by
  induction str generalizing n with
  | nil => simp [parseIntegerFrom]
  | cons c rest ih =>
      rw [parseIntegerFrom]
      by_cases digit : isDigit c = true
      · have carried : (n % 2 ^ 64 * 10 + (c.toNat - 48)) % 2 ^ 64 = (n * 10 + (c.toNat - 48)) % 2 ^ 64 := by
          omega
        rw [if_pos digit, carried, List.all_cons, digit, Bool.true_and, List.foldl_cons]
        exact ih _
      · rw [if_neg digit]
        simp [digit]

/-- Digits are read modulo `2 ^ 64`, and no digits are zero. -/
theorem ParseInteger_spec (str : List Octet) :
    ((ParseInteger str).1 = .success ↔ (cstr str).all isDigit = true) ∧
      ((cstr str).all isDigit = true → (ParseInteger str).2 = decimal (cstr str) % 2 ^ 64) :=
  parseIntegerFrom_spec (cstr str) 0

end Everscale.HttpUtil
