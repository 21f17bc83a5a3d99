/-
# Everscale.Base.UniqueId -- a 128-bit identifier and its text

`Format` writes two digits for each of the sixteen bytes, the lowest first, with dashes behind four of
them; `Parse` reads the identifier back (`parse_format`).  `Parse` takes dashes wherever a byte may
begin, and it stops at the sixteenth byte.  So besides the texts of sixteen bytes (`IsText 16`) it
accepts those with dashes in front, and those with anything behind (`accepts_iff`).
-/
import Mathlib.Data.List.Basic
import Mathlib.Tactic.Common
import Everscale.Base.Error
import Everscale.HttpCommon.Octet

namespace Everscale

set_option autoImplicit false

namespace UniqueId

/-- `-1` for an octet that is no digit. -/
def HexToInt (hex : Octet) : Int :=
  if octet '0' ≤ hex ∧ octet '9' ≥ hex then (hex.toNat : Int) - 48
  else if octet 'a' ≤ hex ∧ octet 'f' ≥ hex then (hex.toNat : Int) - 97 + 10
  else if octet 'A' ≤ hex ∧ octet 'F' ≥ hex then (hex.toNat : Int) - 65 + 10
  else -1

def dash : Octet := octet '-'

/-- The byte of two digits. -/
def digit (high low : Int) : BitVec 8 := BitVec.ofInt 8 high <<< 4 ||| BitVec.ofInt 8 low

/-- The loop of `Parse`, over the octets before the text's `NUL`; `none` for what it cannot parse. -/
def parseLoop : List Octet → BitVec 128 → Nat → Option (BitVec 128 × Nat)
  | [], out, bytes => some (out, bytes)
  | p :: rest, out, bytes =>
      if bytes < 16 then
        if p = dash then parseLoop rest out bytes
        else
          match rest with
          | [] => none
          | p' :: rest =>
              if HexToInt p < 0 then none
              else if HexToInt p' < 0 then none
              else parseLoop rest
                (out ||| (digit (HexToInt p) (HexToInt p')).setWidth 128 <<< (bytes * 8)) (bytes + 1)
      else some (out, bytes)

/-- A text and the identifier to set, or null pointers. -/
def Parse (buffer : Option (List Octet)) (uuid : Option (BitVec 128)) : Error × Option (BitVec 128) :=
  match buffer, uuid with
  | some text, some _ =>
      match parseLoop text 0 0 with
      | none => (.cannotParse, uuid)
      | some (out, bytes) => if bytes ≠ 16 then (.cannotParse, uuid) else (.success, some out)
  | _, _ => (.nullPointer, uuid)

def IntToHex (integer : BitVec 8) : Octet :=
  if integer ≤ 9 then octet '0' + UInt8.ofBitVec integer
  else if 10 ≤ integer ∧ integer ≤ 15 then octet 'a' + UInt8.ofBitVec integer - 10
  else 0

/-- What the loop of `Format` writes from byte `i` and from index `idx` on. -/
def formatLoop (uuid : BitVec 128) : Nat → Nat → Nat → List Octet
  | 0, _, _ => []
  | n + 1, i, idx =>
      let digit := (uuid >>> (i * 8)).setWidth 8
      let idx := idx + 2
      IntToHex (digit >>> 4 &&& 0xF) :: IntToHex (digit &&& 0xF) ::
        if idx = 8 ∨ idx = 13 ∨ idx = 18 ∨ idx = 23 then dash :: formatLoop uuid n (i + 1) (idx + 1)
        else formatLoop uuid n (i + 1) idx

def ESB_UUID_PRESENTATION_SIZE : Nat := 37

/-- A buffer of the given size. -/
def Format (buffer : List Octet) (uuid : BitVec 128) : Error × List Octet :=
  if ESB_UUID_PRESENTATION_SIZE > buffer.length then (.overflow, buffer)
  else
    let text := formatLoop uuid 16 0 0
    (.success, (text ++ buffer.drop text.length).set (ESB_UUID_PRESENTATION_SIZE - 1) NUL)

/-- The octets before the first `NUL`. -/
def cString (buffer : List Octet) : List Octet := buffer.takeWhile fun c => c ≠ NUL

/-! ## Digits -/

theorem hexToInt_dash : HexToInt dash = -1 := by decide

theorem hexToInt_intToHex (n : BitVec 8) (small : n ≤ 15) : HexToInt (IntToHex n) = n.toNat := by
  revert n
  decide

theorem intToHex_ne (n : BitVec 8) (small : n ≤ 15) : IntToHex n ≠ NUL ∧ IntToHex n ≠ dash := by
  revert n
  decide

theorem halves (n : BitVec 8) : n >>> 4 &&& 0xF ≤ 15 ∧ n &&& 0xF ≤ 15 ∧
    digit (n >>> 4 &&& 0xF).toNat (n &&& 0xF).toNat = n := by
  revert n
  decide

/-! ## Texts -/

/-- The text of so many bytes: two digits each, and any dashes between them. -/
inductive IsText : Nat → List Octet → Prop where
  | one {high low} : 0 ≤ HexToInt high → 0 ≤ HexToInt low → IsText 1 [high, low]
  | more {high low n text} (dashes : Nat) : 0 ≤ HexToInt high → 0 ≤ HexToInt low → IsText n text →
      IsText (n + 1) (high :: low :: List.replicate dashes dash ++ text)

section

variable {text behind : List Octet} {out : BitVec 128} {bytes n : Nat} {high low : Octet}

theorem digit_ne_dash (isDigit : 0 ≤ HexToInt high) : high ≠ dash := by
  rintro rfl
  rw [hexToInt_dash] at isDigit
  omega

/-- A text of bytes has two digits for each, and nothing else but dashes. -/
theorem IsText.digits (h : IsText n text) :
    (text.filter (· ≠ dash)).length = 2 * n ∧ ∀ c ∈ text, c ≠ dash → 0 ≤ HexToInt c := by
  induction h with
  | one isHigh isLow => simp [digit_ne_dash isHigh, digit_ne_dash isLow, isHigh, isLow]
  | @more high low n text dashes isHigh isLow _ ih =>
      constructor
      · have none : (List.replicate dashes dash).filter (· ≠ dash) = [] := by simp
        have later : (text.filter (· ≠ dash)).length = 2 * n := ih.1
        rw [List.filter_append, List.filter_cons_of_pos (by simpa using digit_ne_dash isHigh),
          List.filter_cons_of_pos (by simpa using digit_ne_dash isLow), none, List.length_append, later,
          List.length_cons, List.length_cons, List.length_nil]
        omega
      · intro c member notDash
        rcases List.mem_append.1 member with front | later
        · rcases List.mem_cons.1 front with rfl | front
          · exact isHigh
          · rcases List.mem_cons.1 front with rfl | front
            · exact isLow
            · exact absurd (List.eq_of_mem_replicate front) notDash
        · exact ih.2 c later notDash

theorem parseLoop_full (full : 16 ≤ bytes) : parseLoop text out bytes = some (out, bytes) := by
  cases text with
  | nil => rfl
  | cons p rest =>
      unfold parseLoop
      rw [if_neg (Nat.not_lt.2 full)]

theorem parseLoop_dash (room : bytes < 16) : parseLoop (dash :: text) out bytes = parseLoop text out bytes := by
  conv => lhs; unfold parseLoop
  rw [if_pos room, if_pos rfl]

theorem parseLoop_dashes (room : bytes < 16) (dashes : Nat) :
    parseLoop (List.replicate dashes dash ++ text) out bytes = parseLoop text out bytes := by
  induction dashes with
  | zero => rfl
  | succ dashes ih =>
      rw [List.replicate_succ, List.cons_append, parseLoop_dash room]
      exact ih

theorem parseLoop_pair (room : bytes < 16) (isHigh : 0 ≤ HexToInt high) (isLow : 0 ≤ HexToInt low) :
    parseLoop (high :: low :: text) out bytes =
      parseLoop text (out ||| (digit (HexToInt high) (HexToInt low)).setWidth 128 <<< (bytes * 8)) (bytes + 1) := by
  conv => lhs; unfold parseLoop
  rw [if_pos room, if_neg (digit_ne_dash isHigh)]
  dsimp only
  rw [if_neg (Int.not_lt.2 isHigh), if_neg (Int.not_lt.2 isLow)]

theorem IsText.pos (h : IsText n text) : 0 < n := by
  cases h <;> omega

/-- The loop reads the bytes that are missing, and nothing behind them. -/
theorem IsText.parsed (h : IsText n text) (behind : List Octet) (count : n + bytes = 16) (out : BitVec 128) :
    ∃ u, parseLoop (text ++ behind) out bytes = some (u, 16) := by
  induction h generalizing bytes out with
  | @one high low isHigh isLow =>
      have last : bytes + 1 = 16 := by omega
      have read : parseLoop (high :: low :: behind) out bytes = _ := parseLoop_pair (by omega) isHigh isLow
      rw [parseLoop_full (Nat.le_of_eq last.symm), last] at read
      exact ⟨_, read⟩
  | @more high low n text dashes isHigh isLow later ih =>
      have pos := later.pos
      have room : bytes + 1 < 16 := by omega
      obtain ⟨u, read⟩ := ih (by omega : n + (bytes + 1) = 16)
        (out ||| (digit (HexToInt high) (HexToInt low)).setWidth 128 <<< (bytes * 8))
      refine ⟨u, ?_⟩
      have shape : high :: low :: List.replicate dashes dash ++ text ++ behind =
          high :: low :: (List.replicate dashes dash ++ (text ++ behind)) := by simp
      rw [shape, parseLoop_pair (by omega) isHigh isLow, parseLoop_dashes room]
      exact read

/-- What the loop accepts is a text with dashes in front and anything behind. -/
theorem parseLoop_ok {u : BitVec 128} (room : bytes < 16) (read : parseLoop text out bytes = some (u, 16)) :
    ∃ dashes middle behind, text = List.replicate dashes dash ++ (middle ++ behind) ∧ IsText (16 - bytes) middle := by
  fun_induction parseLoop text out bytes with
  | case1 out bytes =>
      cases read
      exact absurd room (Nat.lt_irrefl _)
  | case2 rest out bytes _ ih =>
      obtain ⟨dashes, middle, behind, rfl, isText⟩ := ih room read
      exact ⟨dashes + 1, middle, behind, by rw [List.replicate_succ]; rfl, isText⟩
  | case3 => cases read
  | case4 => cases read
  | case5 => cases read
  | case6 high out bytes _ _ low rest isHigh isLow ih =>
      have isHigh := Int.not_lt.1 isHigh
      have isLow := Int.not_lt.1 isLow
      by_cases more : bytes + 1 < 16
      · obtain ⟨dashes, middle, behind, rfl, isText⟩ := ih more read
        refine ⟨0, high :: low :: List.replicate dashes dash ++ middle, behind, by simp, ?_⟩
        have count : 16 - bytes = 16 - (bytes + 1) + 1 := by omega
        rw [count]
        exact .more dashes isHigh isLow isText
      · have last : 16 - bytes = 1 := by omega
        refine ⟨0, [high, low], rest, rfl, ?_⟩
        rw [last]
        exact .one isHigh isLow
  | case7 _ _ _ _ full => exact absurd room full

theorem IsText.ends (h : IsText n text) : ∃ front c, text = front ++ [c] ∧ c ≠ dash := by
  induction h with
  | @one high low _ isLow => exact ⟨[high], low, rfl, digit_ne_dash isLow⟩
  | @more high low _ _ dashes _ _ _ ih =>
      obtain ⟨front, c, rfl, notDash⟩ := ih
      exact ⟨high :: low :: List.replicate dashes dash ++ front, c, by simp, notDash⟩

theorem IsText.begins (h : IsText n text) : ∃ c rest, text = c :: rest ∧ c ≠ dash := by
  cases h with
  | one isHigh _ => exact ⟨_, _, rfl, digit_ne_dash isHigh⟩
  | more _ isHigh _ _ => exact ⟨_, _, rfl, digit_ne_dash isHigh⟩

/-- Nothing stands around a text of as many bytes. -/
theorem IsText.alone {middle : List Octet} {dashes : Nat}
    (h : IsText n (List.replicate dashes dash ++ (middle ++ behind))) (inner : IsText n middle) :
    dashes = 0 ∧ behind = [] := by
  have none : dashes = 0 := by
    cases dashes with
    | zero => rfl
    | succ dashes =>
        obtain ⟨c, rest, shape, notDash⟩ := h.begins
        rw [List.replicate_succ, List.cons_append] at shape
        exact absurd (List.head_eq_of_cons_eq shape).symm notDash
  subst none
  rw [List.replicate_zero, List.nil_append] at h
  refine ⟨rfl, ?_⟩
  -- what stands behind has no digits, and a text does not end in a dash
  have count := h.digits.1
  rw [List.filter_append, List.length_append, inner.digits.1] at count
  have noDigits : behind.filter (· ≠ dash) = [] := List.eq_nil_of_length_eq_zero (by omega)
  rcases List.eq_nil_or_concat behind with empty | ⟨front, c, rfl⟩
  · exact empty
  · obtain ⟨front', c', shape, notDash⟩ := h.ends
    rw [List.concat_eq_append, ← List.append_assoc] at shape
    have same : c = c' := List.head_eq_of_cons_eq (List.append_inj_right' shape rfl)
    have isDash := List.filter_eq_nil_iff.1 noDigits c (by simp)
    rw [same] at isDash
    exact absurd (decide_eq_true notDash) isDash

end

/-- The parser reads an identifier. -/
def Accepts (text : List Octet) : Prop := ∃ u, (Parse (some text) (some 0)) = (.success, some u)

theorem accepts_iff_loop {text : List Octet} : Accepts text ↔ ∃ u, parseLoop text 0 0 = some (u, 16) := by
  unfold Accepts Parse
  dsimp only
  cases parseLoop text 0 0 with
  | none =>
      constructor
      · rintro ⟨u, done⟩
        cases done
      · rintro ⟨u, done⟩
        cases done
  | some result =>
      obtain ⟨out, bytes⟩ := result
      dsimp only
      constructor
      · rintro ⟨u, done⟩
        by_cases all : bytes = 16
        · subst all
          exact ⟨out, rfl⟩
        · rw [if_pos all] at done
          cases done
      · rintro ⟨u, read⟩
        cases read
        exact ⟨out, rfl⟩

theorem accepts_iff {text : List Octet} : Accepts text ↔
    ∃ dashes middle behind, text = List.replicate dashes dash ++ (middle ++ behind) ∧ IsText 16 middle := by
  rw [accepts_iff_loop]
  constructor
  · rintro ⟨u, read⟩
    exact parseLoop_ok (by decide) read
  · rintro ⟨dashes, middle, behind, rfl, isText⟩
    rw [parseLoop_dashes (by decide)]
    exact isText.parsed behind rfl 0

/-- A text of sixteen bytes with dashes in front of it, or with anything behind it. -/
def Surrounded (text : List Octet) : Prop :=
  ∃ dashes middle behind, text = List.replicate dashes dash ++ (middle ++ behind) ∧ IsText 16 middle ∧
    (0 < dashes ∨ behind ≠ [])

theorem accepted_isText_iff (text : List Octet) : (Accepts text → IsText 16 text) ↔ ¬ Surrounded text := by
  constructor
  · rintro correct ⟨dashes, middle, behind, rfl, inner, around⟩
    have isText := correct (accepts_iff.2 ⟨dashes, middle, behind, rfl, inner⟩)
    obtain ⟨none, nothing⟩ := isText.alone inner
    rcases around with some | something
    · exact absurd none (Nat.ne_of_gt some)
    · exact something nothing
  · intro alone accepted
    obtain ⟨dashes, middle, behind, rfl, inner⟩ := accepts_iff.1 accepted
    have none : dashes = 0 := by
      by_contra some
      exact alone ⟨dashes, middle, behind, rfl, inner, .inl (Nat.pos_of_ne_zero some)⟩
    have nothing : behind = [] := by
      by_contra something
      exact alone ⟨dashes, middle, behind, rfl, inner, .inr something⟩
    rw [none, nothing, List.append_nil]
    exact inner

/-! ## Formatted identifiers -/

/-- The lowest bytes of an identifier. -/
def low (uuid : BitVec 128) (i : Nat) : BitVec 128 := (uuid.setWidth (i * 8)).setWidth 128

theorem low_succ (uuid : BitVec 128) (i : Nat) :
    low uuid i ||| ((uuid >>> (i * 8)).setWidth 8).setWidth 128 <<< (i * 8) = low uuid (i + 1) := by
  unfold low
  ext j
  simp
  grind

theorem low_all (uuid : BitVec 128) : low uuid 16 = uuid := by
  unfold low
  simp

/-- What the loop of `Format` writes, the loop of `Parse` reads. -/
theorem parse_formatLoop (uuid : BitVec 128) {n i : Nat} (idx : Nat) (count : i + n = 16) :
    parseLoop (formatLoop uuid n i idx) (low uuid i) i = some (uuid, 16) := by
  induction n generalizing i idx with
  | zero =>
      obtain rfl : i = 16 := count
      rw [formatLoop, parseLoop_full (Nat.le_refl _), low_all]
  | succ n ih =>
      obtain ⟨high, lowest, byte⟩ := halves ((uuid >>> (i * 8)).setWidth 8)
      have isHigh := hexToInt_intToHex _ high
      have isLow := hexToInt_intToHex _ lowest
      have next : ∀ idx, parseLoop (formatLoop uuid n (i + 1) idx) (low uuid (i + 1)) (i + 1) = some (uuid, 16) :=
        fun idx => ih idx (by omega)
      rw [formatLoop, parseLoop_pair (by omega) (isHigh ▸ Int.natCast_nonneg _) (isLow ▸ Int.natCast_nonneg _), isHigh, isLow, byte,
        low_succ]
      by_cases separated : idx + 2 = 8 ∨ idx + 2 = 13 ∨ idx + 2 = 18 ∨ idx + 2 = 23
      · rw [if_pos separated]
        cases n with
        | zero =>
            have last : i + 1 = 16 := count
            rw [parseLoop_full (Nat.le_of_eq last.symm), last, low_all]
        | succ n =>
            rw [parseLoop_dash (by omega)]
            exact next _
      · rw [if_neg separated]
        exact next _

theorem formatLoop_ne (uuid : BitVec 128) (n i idx : Nat) : ∀ c ∈ formatLoop uuid n i idx, c ≠ NUL := by
  induction n generalizing i idx with
  | zero => exact nofun
  | succ n ih =>
      intro c member
      obtain ⟨high, lowest, -⟩ := halves ((uuid >>> (i * 8)).setWidth 8)
      rw [formatLoop] at member
      rcases List.mem_cons.1 member with rfl | member
      · exact (intToHex_ne _ high).1
      · rcases List.mem_cons.1 member with rfl | member
        · exact (intToHex_ne _ lowest).1
        · by_cases separated : idx + 2 = 8 ∨ idx + 2 = 13 ∨ idx + 2 = 18 ∨ idx + 2 = 23
          · rw [if_pos separated] at member
            rcases List.mem_cons.1 member with rfl | member
            · decide
            · exact ih _ _ c member
          · rw [if_neg separated] at member
            exact ih _ _ c member

theorem formatLoop_length (uuid : BitVec 128) : (formatLoop uuid 16 0 0).length = 36 := rfl

/-- A buffer that is large enough holds the text and a `NUL`. -/
theorem format_text {buffer : List Octet} (room : ESB_UUID_PRESENTATION_SIZE ≤ buffer.length) (uuid : BitVec 128) :
    (Format buffer uuid).1 = .success ∧ cString (Format buffer uuid).2 = formatLoop uuid 16 0 0 := by
  unfold Format
  rw [if_neg (Nat.not_lt.2 room)]
  refine ⟨rfl, ?_⟩
  show cString ((formatLoop uuid 16 0 0 ++ buffer.drop 36).set 36 NUL) = _
  have left : 36 < buffer.length := room
  rw [List.set_append_right _ _ (Nat.le_of_eq (formatLoop_length uuid)), formatLoop_length, Nat.sub_self,
    List.drop_eq_getElem_cons left, List.set_cons_zero]
  unfold cString
  rw [List.takeWhile_append_of_pos fun c member => decide_eq_true (formatLoop_ne uuid 16 0 0 c member)]
  simp

theorem parse_format {buffer : List Octet} (room : ESB_UUID_PRESENTATION_SIZE ≤ buffer.length) (uuid : BitVec 128) :
    Parse (some (cString (Format buffer uuid).2)) (some 0) = (.success, some uuid) := by
  have start : low uuid 0 = 0 := by
    apply BitVec.eq_of_toNat_eq
    simp [low, Nat.mod_one]
  have read := parse_formatLoop uuid 0 (Nat.zero_add 16)
  rw [start] at read
  unfold Parse
  rw [(format_text room uuid).2]
  dsimp only
  rw [read]
  rfl

/-- **Texts of identifiers**: what is formatted is read back; and a text that is accepted is one of
sixteen bytes, if and only if it is not such a text with dashes in front or anything behind. -/
theorem uniqueId_text_iff (text : List Octet) :
    ((∀ (uuid : BitVec 128) (buffer : List Octet), ESB_UUID_PRESENTATION_SIZE ≤ buffer.length →
        Parse (some (cString (Format buffer uuid).2)) (some 0) = (.success, some uuid)) ∧
      (Accepts text → IsText 16 text)) ↔ ¬ Surrounded text := by
  rw [← accepted_isText_iff]
  constructor
  · exact fun both => both.2
  · exact fun accepted => ⟨fun uuid _ room => parse_format room uuid, accepted⟩

/-- A digit too many is not noticed. -/
theorem trailing_digit_accepted :
    Parse (some (octets "123e4567-e89b-12d3-a456-4266141740005")) (some 0) =
        Parse (some (octets "123e4567-e89b-12d3-a456-426614174000")) (some 0) ∧
      ¬ (Accepts (octets "123e4567-e89b-12d3-a456-4266141740005") →
        IsText 16 (octets "123e4567-e89b-12d3-a456-4266141740005")) := by
  refine ⟨by decide +kernel, fun correct => ?_⟩
  have accepted : Accepts (octets "123e4567-e89b-12d3-a456-4266141740005") :=
    ⟨0x00401714664256a4d3129be867453e12, by decide +kernel⟩
  exact absurd (correct accepted).digits.1 (by decide)

end UniqueId

end Everscale
