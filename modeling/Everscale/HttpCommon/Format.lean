/-
# Everscale.HttpCommon.Format -- what the formatters write octet by octet

`HttpUtil::FormatInteger` and `HttpUtil::EncodeEscape`, and the loops over a string
that the formatters share, as arguments of `Writer.each`.

`FormatInteger` counts in the signed 32-bit `int`.  That is right as long as the
power of the radix above the integer fits there (`FormatInteger_writes`): for
hexadecimal up to `2 ^ 28`.  Beyond that it writes fewer digits than the integer has, so there it is
right only where it writes nothing for want of room (`FormatInteger_writes_iff`).
-/
import Mathlib.Data.Nat.Digits.Defs
import Mathlib.Data.Nat.Digits.Lemmas
import Everscale.HttpCommon.Util
import Everscale.Base.Writer

namespace Everscale.HttpUtil

set_option autoImplicit false

/-! ## Strings -/

/-- An octet that has to be a token. -/
def emitToken (bad : Error) (_ : Unit) (c : Octet) : Except Error (List Octet × Unit) :=
  if isToken c then .ok ([c], ()) else .error bad

/-- An octet that is copied as it is. -/
def emitRaw (_ : Unit) (c : Octet) : Except Error (List Octet × Unit) := .ok ([c], ())

/-- An upper-case hexadecimal digit, as `EncodeEscape` writes it. -/
def escapeDigit (digit : Nat) : Octet :=
  if 10 ≤ digit then UInt8.ofNat (65 + (digit - 10)) else UInt8.ofNat (48 + digit)

/-- What `EncodeEscape` writes once there is room for all of it. -/
def escape (value : Octet) : List Octet :=
  [octet '%', escapeDigit (value.toNat / 16), escapeDigit (value.toNat % 16)]

/-- An octet that is escaped unless it is plain. -/
def emitEscaped (isPlain : Octet → Bool) (_ : Unit) (c : Octet) :
    Except Error (List Octet × Unit) :=
  .ok (if isPlain c then [c] else escape c, ())

theorem emitToken_ne_nil (bad : Error) (t : Unit) (c : Octet) (text : List Octet) (t' : Unit)
    (h : emitToken bad t c = .ok (text, t')) : text ≠ [] := by
  unfold emitToken at h
  split at h
  · cases h; simp
  · cases h

theorem emitRaw_ne_nil (t : Unit) (c : Octet) (text : List Octet) (t' : Unit)
    (h : emitRaw t c = .ok (text, t')) : text ≠ [] := by
  cases h; simp

theorem emitEscaped_ne_nil (isPlain : Octet → Bool) (t : Unit) (c : Octet) (text : List Octet)
    (t' : Unit) (h : emitEscaped isPlain t c = .ok (text, t')) : text ≠ [] := by
  cases h; split <;> simp [escape]

theorem renderEach_raw (s : List Octet) : Writer.renderEach emitRaw () s = .ok s := by
  induction s with
  | nil => rfl
  | cons c rest ih => simp only [Writer.renderEach, emitRaw, ih]; rfl

theorem renderEach_escaped (isPlain : Octet → Bool) (s : List Octet) :
    Writer.renderEach (emitEscaped isPlain) () s =
      .ok (s.flatMap fun c => if isPlain c then [c] else escape c) := by
  induction s with
  | nil => rfl
  | cons c rest ih => simp only [Writer.renderEach, emitEscaped, ih]; rfl

/-- A string of tokens is written as it is, and no other string is written. -/
theorem renderEach_token (bad : Error) (s : List Octet) :
    Writer.renderEach (emitToken bad) () s =
      if s.all isToken then .ok s else .error bad := by
  induction s with
  | nil => rfl
  | cons c rest ih =>
      cases token : isToken c with
      | false => simp [Writer.renderEach, emitToken, token]
      | true =>
          simp only [Writer.renderEach, emitToken, token, if_true, ih, List.all_cons,
            Bool.true_and]
          cases rest.all isToken <;> rfl

/-! ## Integers -/

/-- A digit as `FormatInteger` writes it. -/
def digitOctet (digit : Nat) : Octet :=
  if digit < 10 then UInt8.ofNat (48 + digit) else UInt8.ofNat (97 + (digit - 10))

/-- A number as the `int` of the source. -/
def int32 (n : Int) : Int := n.bmod (2 ^ 32)

/-- The first loop of `FormatInteger`: the power of the radix above the integer, and its
exponent. -/
def magnitudeLoop (radix : Nat) : Nat → Int → Int → Nat → Int × Nat
  | 0, _, magnitude, length => (magnitude, length)
  | fuel + 1, tmp, magnitude, length =>
      if 0 < tmp then
        magnitudeLoop radix fuel (tmp / radix) (int32 (magnitude * radix)) (length + 1)
      else (magnitude, length)

/-- The second loop: the digits, the most significant first. -/
def digitsLoop (radix integer : Nat) : Nat → Int → List Octet
  | 0, _ => []
  | fuel + 1, magnitude =>
      if radix ≤ magnitude then
        digitOctet (integer % magnitude.toNat / (magnitude / radix).toNat) ::
          digitsLoop radix integer fuel (magnitude / radix)
      else []

/-- `FormatInteger`.  An `int` has 31 digits at most, so the fuel cannot run out. -/
def FormatInteger (integer radix : Nat) : Writer := fun b =>
  if radix < 2 ∨ 16 < radix then (.invalidArgument, b)
  else if integer = 0 then
    if b.isWritable then (.success, b.putNext (octet '0')) else (.again, b)
  else
    let (magnitude, length) := magnitudeLoop radix 32 (int32 integer) 1 0
    if b.writable < length then (.again, b)
    else (.success, Writer.putAll b (digitsLoop radix integer 32 magnitude))

/-- A number in the given radix. -/
def numeral (radix integer : Nat) : List Octet :=
  if integer = 0 then [octet '0'] else (Nat.digits radix integer).reverse.map digitOctet

section integers

variable {radix : Nat}

theorem int32_of_lt {n : Nat} (h : n < 2 ^ 31) : int32 n = n :=
  Int.bmod_eq_of_le (by omega) (by omega)

/-- The first loop counts the digits; the power is taken in the `int` of the source. -/
theorem magnitudeLoop_eq (large : 1 < radix) (fuel : Nat) :
    ∀ (tmp : Nat) (magnitude : Int) (length : Nat), (Nat.digits radix tmp).length ≤ fuel →
      magnitudeLoop radix fuel tmp (int32 magnitude) length =
        (int32 (magnitude * (radix : Int) ^ (Nat.digits radix tmp).length),
          length + (Nat.digits radix tmp).length) := by
  induction fuel with
  | zero =>
      intro tmp magnitude length enough
      have none : (Nat.digits radix tmp).length = 0 := by omega
      simp [magnitudeLoop, none]
  | succ fuel ih =>
      intro tmp magnitude length enough
      by_cases zero : tmp = 0
      · subst zero; simp [magnitudeLoop]
      · have digits := Nat.digits_def' large (Nat.pos_of_ne_zero zero)
        rw [digits, List.length_cons] at enough
        have go := ih (tmp / radix) (magnitude * radix) (length + 1) (by omega)
        have step : int32 (int32 magnitude * radix) = int32 (magnitude * radix) := Int.bmod_mul_bmod
        have some : (0 : Int) < tmp := by omega
        rw [magnitudeLoop, if_pos some, step, ← Int.natCast_ediv, go, digits, List.length_cons,
          pow_succ', mul_assoc]
        simp only [Nat.add_assoc, Nat.add_comm 1]

theorem digitsLoop_zero (large : 1 < radix) (integer fuel : Nat) :
    digitsLoop radix integer fuel ((radix ^ 0 : Nat) : Int) = [] := by
  cases fuel with
  | zero => rfl
  | succ fuel => rw [digitsLoop, if_neg (by simp; omega)]

theorem digitsLoop_succ (large : 1 < radix) (integer fuel length : Nat) :
    digitsLoop radix integer (fuel + 1) ((radix ^ (length + 1) : Nat) : Int) =
      digitOctet (integer / radix ^ length % radix) ::
        digitsLoop radix integer fuel ((radix ^ length : Nat) : Int) := by
  have lower : ((radix ^ (length + 1) : Nat) : Int) / radix = ((radix ^ length : Nat) : Int) := by
    rw [← Int.natCast_ediv, pow_succ, Nat.mul_div_cancel _ (by omega)]
  have above : (radix : Int) ≤ ((radix ^ (length + 1) : Nat) : Int) := by
    exact_mod_cast Nat.le_self_pow (Nat.succ_ne_zero length) radix
  rw [digitsLoop, if_pos above, lower, Int.toNat_natCast, Int.toNat_natCast, pow_succ,
    Nat.mod_mul_right_div_self]

/-- The last digit of the second loop. -/
theorem digitsLoop_last (large : 1 < radix) (length : Nat) :
    ∀ integer fuel : Nat, length < fuel →
      digitsLoop radix integer fuel ((radix ^ (length + 1) : Nat) : Int) =
        digitsLoop radix (integer / radix) (fuel - 1) ((radix ^ length : Nat) : Int) ++
          [digitOctet (integer % radix)] := by
  induction length with
  | zero =>
      intro integer fuel enough
      obtain ⟨fuel, rfl⟩ := Nat.exists_eq_succ_of_ne_zero (Nat.pos_iff_ne_zero.1 enough)
      rw [digitsLoop_succ large, digitsLoop_zero large, digitsLoop_zero large]
      simp
  | succ length ih =>
      intro integer fuel enough
      obtain ⟨fuel, rfl⟩ : ∃ n, fuel = n + 2 := ⟨fuel - 2, by omega⟩
      rw [digitsLoop_succ large, ih integer (fuel + 1) (by omega)]
      have : fuel + 2 - 1 = fuel + 1 := rfl
      rw [this, digitsLoop_succ large, Nat.div_div_eq_div_mul, ← pow_succ']
      rfl

theorem digitsLoop_eq (large : 1 < radix) (integer : Nat) :
    ∀ fuel, (Nat.digits radix integer).length ≤ fuel →
      digitsLoop radix integer fuel ((radix ^ (Nat.digits radix integer).length : Nat) : Int) =
        (Nat.digits radix integer).reverse.map digitOctet := by
  induction integer using Nat.strong_induction_on with
  | _ integer ih =>
      intro fuel enough
      by_cases zero : integer = 0
      · subst zero
        simpa using digitsLoop_zero large 0 fuel
      · have positive := Nat.pos_of_ne_zero zero
        have digits := Nat.digits_def' large positive
        rw [digits, List.length_cons] at enough ⊢
        rw [digitsLoop_last large _ integer fuel (by omega),
          ih (integer / radix) (Nat.div_lt_self positive large) (fuel - 1) (by omega)]
        simp

theorem digits_few {digits limit : Nat} (large : 1 < radix) (fits : radix ^ digits < 2 ^ limit) :
    digits < limit := by
  have power : 2 ^ digits < 2 ^ limit := Nat.lt_of_le_of_lt (Nat.pow_le_pow_left large _) fits
  exact (Nat.pow_lt_pow_iff_right (by decide)).1 power

/-- **`FormatInteger` writes the numeral** when the power of the radix above the integer
fits in an `int`. -/
theorem FormatInteger_eq {integer length : Nat} (large : 1 < radix) (small : radix ≤ 16)
    (below : integer < radix ^ length) (fits : radix ^ length < 2 ^ 31) (b : Buffer) :
    FormatInteger integer radix b =
      if b.writable < (numeral radix integer).length then (.again, b)
      else (.success, Writer.putAll b (numeral radix integer)) := by
  have radixOk : ¬ (radix < 2 ∨ 16 < radix) :=
    fun wrong => wrong.elim (Nat.not_lt.2 large) (Nat.not_lt.2 small)
  by_cases zero : integer = 0
  · subst zero
    have text : numeral radix 0 = [octet '0'] := by simp [numeral]
    rw [text, List.length_singleton]
    simp only [FormatInteger, radixOk, if_false, if_true, Buffer.isWritable, decide_eq_true_eq,
      Writer.putAll, List.foldl_cons, List.foldl_nil]
    by_cases room : 0 < b.writable
    · rw [if_pos room, if_neg (Nat.not_lt.2 room)]
    · rw [if_neg room, if_pos (Nat.lt_of_not_le room)]
  · have count : (Nat.digits radix integer).length ≤ length :=
      (Nat.digits_length_le_iff large integer).2 below
    have power : radix ^ (Nat.digits radix integer).length < 2 ^ 31 :=
      Nat.lt_of_le_of_lt (Nat.pow_le_pow_right (Nat.zero_lt_of_lt large) count) fits
    have few := Nat.le_succ_of_le (Nat.le_of_lt (digits_few large power))
    have magnitude := magnitudeLoop_eq large 32 integer 1 0 few
    rw [one_mul, Nat.zero_add, ← Nat.cast_pow, int32_of_lt power] at magnitude
    have text : numeral radix integer = (Nat.digits radix integer).reverse.map digitOctet := by
      simp [numeral, zero]
    have length_eq : (numeral radix integer).length = (Nat.digits radix integer).length := by
      rw [text]; simp
    rw [length_eq, text, ← digitsLoop_eq large integer 32 few]
    have one : int32 1 = 1 := by decide
    rw [FormatInteger, if_neg radixOk, if_neg zero, int32_of_lt (Nat.lt_trans below fits), ← one,
      magnitude]

theorem FormatInteger_writes {integer length : Nat} (large : 1 < radix) (small : radix ≤ 16)
    (below : integer < radix ^ length) (fits : radix ^ length < 2 ^ 31) :
    Writes (Writer.orRollback (FormatInteger integer radix)) (numeral radix integer) := by
  have runs := FormatInteger_eq large small below fits
  clear below fits
  intro b held mark holds
  have writable := holds.writable
  have within := holds.fits
  by_cases short : b.writable < (numeral radix integer).length
  · rw [Writer.orRollback, runs, if_pos short]
    exact ⟨fun room => by omega, fun _ => rolledBack_of holds⟩
  · obtain ⟨holds', capacity⟩ := holds.putAll (numeral radix integer) (by omega)
    rw [Writer.orRollback, runs, if_neg short]
    exact ⟨fun _ => ⟨rfl, holds', capacity⟩, fun full => by omega⟩

theorem numeral_length_le {integer length : Nat} (large : 1 < radix) (some : 0 < length)
    (below : integer < radix ^ length) : (numeral radix integer).length ≤ length := by
  unfold numeral
  split
  · exact some
  · rw [List.length_map, List.length_reverse]
    exact (Nat.digits_length_le_iff large integer).2 below

/-! ### Reading a numeral -/

/-- A numeral spells its number for whoever reads its digits back. -/
theorem foldl_numeral (large : 1 < radix) (small : radix ≤ 16) {value : Octet → Nat}
    (digits : ∀ d, d < radix → value (digitOctet d) = d) (integer : Nat) :
    (numeral radix integer).foldl (fun n c => n * radix + value c) 0 = integer := by
  unfold numeral
  split
  · rename_i zero
    subst zero
    have := digits 0 (by omega)
    simpa [digitOctet, octet] using this
  · have fold : ∀ l : List Nat, (∀ d ∈ l, d < radix) →
        (l.reverse.map digitOctet).foldl (fun n c => n * radix + value c) 0 =
          Nat.ofDigits radix l := by
      intro l
      induction l with
      | nil => intro _; rfl
      | cons d rest ih =>
          intro below
          have here := ih fun e inside => below e (List.mem_cons_of_mem d inside)
          simp only [List.reverse_cons, List.map_append, List.map_cons, List.map_nil,
            List.foldl_append, List.foldl_cons, List.foldl_nil, here,
            digits d (below d List.mem_cons_self), Nat.ofDigits_cons]
          ring
    rw [fold _ fun d inside => Nat.digits_lt_base large inside, Nat.ofDigits_digits]

theorem numeral_digits {p : Octet → Bool} (large : 1 < radix)
    (digits : ∀ d, d < radix → p (digitOctet d) = true) (integer : Nat) :
    ∀ c ∈ numeral radix integer, p c = true := by
  intro c inside
  unfold numeral at inside
  split at inside
  · have := digits 0 (by omega)
    rw [List.mem_singleton.1 inside]
    simpa [digitOctet, octet] using this
  · obtain ⟨d, member, rfl⟩ := List.mem_map.1 inside
    exact digits d (Nat.digits_lt_base large (List.mem_reverse.1 member))

theorem numeral_ne_nil (radix integer : Nat) : numeral radix integer ≠ [] := by
  unfold numeral
  split
  · simp
  · rename_i some
    simpa [Nat.digits_ne_nil_iff_ne_zero] using some

/-- A decimal numeral of a 64-bit number is read back as that number. -/
theorem ParseInteger_numeral {integer : Nat} (bound : integer < 2 ^ 64) :
    ParseInteger (numeral 10 integer) = (.success, integer) := by
  have digits := numeral_digits (p := isDigit) (show 1 < 10 by omega) (by decide) integer
  have plain : cstr (numeral 10 integer) = numeral 10 integer :=
    cstr_eq_self fun inside => absurd (digits NUL inside) (by decide)
  have all : (cstr (numeral 10 integer)).all isDigit = true := by
    rw [plain]; exact List.all_eq_true.2 digits
  have spells : decimal (numeral 10 integer) = integer :=
    foldl_numeral (by omega) (by omega) (by decide) integer
  have read := ParseInteger_spec (numeral 10 integer)
  have value := read.2 all
  rw [plain, spells, Nat.mod_eq_of_lt bound] at value
  exact Prod.ext (read.1.2 all) value

/-! ### Which integers are written -/

/-- The digits that the first loop counts: those of the integer as an `int`, and none where that is
negative. -/
def countedDigits (radix integer : Nat) : Nat := (Nat.digits radix (int32 integer).toNat).length

theorem int32_le (n : Nat) : int32 n ≤ n := by
  rw [int32, Int.bmod_def]
  split <;> omega

theorem int32_lt (n : Int) : int32 n < 2 ^ 31 := by
  rw [int32, Int.bmod_def]
  split <;> omega

theorem countedDigits_le (large : 1 < radix) (integer : Nat) : countedDigits radix integer ≤ 31 := by
  have bound := int32_lt integer
  refine (Nat.digits_length_le_iff large _).2 ?_
  calc (int32 integer).toNat < 2 ^ 31 := by omega
    _ ≤ radix ^ 31 := Nat.pow_le_pow_left large 31

/-- The first loop on any integer. -/
theorem magnitudeLoop_counted (large : 1 < radix) (integer : Nat) :
    magnitudeLoop radix 32 (int32 integer) 1 0 =
      (int32 ((radix : Int) ^ countedDigits radix integer), countedDigits radix integer) := by
  have one : int32 1 = 1 := by decide
  by_cases positive : 0 < int32 integer
  · have cast : int32 integer = ((int32 integer).toNat : Int) := by omega
    have few := countedDigits_le large integer
    have loop := magnitudeLoop_eq large 32 (int32 integer).toNat 1 0 (Nat.le_succ_of_le few)
    rwa [one, one_mul, Nat.zero_add, ← cast] at loop
  · have none : countedDigits radix integer = 0 := by
      rw [countedDigits, Int.toNat_of_nonpos (by omega)]; simp
    rw [none, pow_zero, one, magnitudeLoop, if_neg positive]

/-- The second loop writes fewer digits than the first power of the radix above the magnitude. -/
theorem digitsLoop_length (large : 1 < radix) (integer fuel : Nat) :
    ∀ (magnitude : Int) (digits : Nat), magnitude < (radix : Int) ^ (digits + 1) →
      (digitsLoop radix integer fuel magnitude).length ≤ digits := by
  induction fuel with
  | zero => intro _ _ _; exact Nat.zero_le _
  | succ fuel ih =>
      intro magnitude digits below
      rw [digitsLoop]
      split
      · rename_i more
        cases digits with
        | zero => rw [zero_add, pow_one] at below; omega
        | succ digits =>
            have lower : magnitude / radix < (radix : Int) ^ (digits + 1) := by
              apply Int.ediv_lt_of_lt_mul (by omega)
              rwa [← pow_succ]
            have := ih _ digits lower
            rw [List.length_cons]
            omega
      · exact Nat.zero_le _

theorem countedDigits_le_numeral (radix integer : Nat) :
    countedDigits radix integer ≤ (numeral radix integer).length := by
  have low := int32_le integer
  have mono := Nat.le_length_digits_le radix (int32 integer).toNat integer (by omega)
  refine mono.trans ?_
  unfold numeral
  split
  · rename_i zero
    simp [zero]
  · simp

theorem lt_pow_numeral (large : 1 < radix) (integer : Nat) :
    integer < radix ^ (numeral radix integer).length := by
  unfold numeral
  split
  · rename_i zero
    rw [zero, List.length_singleton, pow_one]
    omega
  · rw [List.length_map, List.length_reverse]
    exact Nat.lt_base_pow_length_digits large

/-- Where the power of the radix above the integer does not fit in an `int`, fewer digits are
written than the integer has. -/
theorem FormatInteger_short {integer : Nat} (large : 1 < radix) (small : radix ≤ 16)
    (wide : 2 ^ 31 ≤ radix ^ (numeral radix integer).length) {b : Buffer}
    (room : countedDigits radix integer ≤ b.writable) :
    ∃ text : List Octet, text.length < (numeral radix integer).length ∧
      FormatInteger integer radix b = (.success, Writer.putAll b text) := by
  have radixOk : ¬ (radix < 2 ∨ 16 < radix) :=
    fun wrong => wrong.elim (Nat.not_lt.2 large) (Nat.not_lt.2 small)
  have some : integer ≠ 0 := by
    rintro rfl
    rw [numeral, if_pos rfl, List.length_singleton, pow_one] at wide
    omega
  have count := List.length_pos_of_ne_nil (numeral_ne_nil radix integer)
  have below : int32 ((radix : Int) ^ countedDigits radix integer) <
      (radix : Int) ^ ((numeral radix integer).length - 1 + 1) := by
    rw [Nat.sub_add_cancel count]
    exact lt_of_lt_of_le (int32_lt _) (by exact_mod_cast wide)
  have short := digitsLoop_length large integer 32 _ _ below
  refine ⟨digitsLoop radix integer 32 (int32 ((radix : Int) ^ countedDigits radix integer)), by omega, ?_⟩
  rw [FormatInteger, if_neg radixOk, if_neg some, magnitudeLoop_counted large]
  exact if_neg (Nat.not_lt.2 room)

/-- The numeral is written if there is room for it and nothing otherwise, and a decimal numeral is
read back. -/
def WritesNumeral (integer radix : Nat) (b : Buffer) : Prop :=
  FormatInteger integer radix b =
      (if b.writable < (numeral radix integer).length then (.again, b)
        else (.success, Writer.putAll b (numeral radix integer))) ∧
    (radix = 10 → ParseInteger (numeral radix integer) = (.success, integer))

/-- The numeral is written exactly if the power of the radix above the integer fits in an `int`, or
there is not even room for the digits that are counted. -/
theorem FormatInteger_writes_iff {integer : Nat} (bound : integer < 2 ^ 64) (large : 1 < radix)
    (small : radix ≤ 16) (b : Buffer) :
    WritesNumeral integer radix b ↔
      radix ^ (numeral radix integer).length < 2 ^ 31 ∨ b.writable < countedDigits radix integer := by
  have back : radix = 10 → ParseInteger (numeral radix integer) = (.success, integer) := by
    rintro rfl
    exact ParseInteger_numeral bound
  rw [WritesNumeral, and_iff_left back]
  constructor
  · intro writes
    by_contra neither
    obtain ⟨wide, room⟩ := not_or.1 neither
    obtain ⟨text, short, runs⟩ := FormatInteger_short large small (Nat.not_lt.1 wide) (Nat.not_lt.1 room)
    rw [runs] at writes
    split at writes
    · cases writes
    · rename_i fits
      have same : Writer.putAll b text = Writer.putAll b (numeral radix integer) :=
        congrArg Prod.snd writes
      have left := Writer.putAll_writable (show text.length ≤ b.writable by omega)
      have right := Writer.putAll_writable (show (numeral radix integer).length ≤ b.writable by omega)
      rw [same] at left
      omega
  · rintro (fits | full)
    · exact FormatInteger_eq large small (lt_pow_numeral large integer) fits b
    · have counted := countedDigits_le_numeral radix integer
      have some : integer ≠ 0 := by
        rintro rfl
        rw [show countedDigits radix 0 = 0 by simp [countedDigits, int32]] at full
        omega
      rw [if_pos (by omega), FormatInteger, if_neg (not_or.2 ⟨Nat.not_lt.2 large, Nat.not_lt.2 small⟩),
        if_neg some, magnitudeLoop_counted large]
      exact if_pos full

theorem FormatInteger_writes_255 : WritesNumeral 255 16 (Buffer.create 8) :=
  (FormatInteger_writes_iff (by decide) (by decide) (by decide) _).2 (.inl (by simp [numeral]))

/-- 3000000000 is negative as an `int`: nothing is written, and that is a success. -/
theorem FormatInteger_writes_nothing :
    FormatInteger 3000000000 10 (Buffer.create 16) = (.success, Buffer.create 16) := by
  decide

end integers

end Everscale.HttpUtil
