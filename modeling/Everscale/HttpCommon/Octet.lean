/-
# Everscale.HttpCommon.Octet -- the character classes of HTTP

`HttpUtil` classifies octets through one table of bit masks (`ESHttpUtil.cpp`)
and a handful of masks over it (`ESHttpUtil.h`).  The table is copied here as it
stands.  What the parsers and formatters need from it are the relations between
the classes: which are disjoint from the line terminators, which lie inside
which.  Those are facts about 256 octets and are checked on all of them.
-/
import Everscale.Base.Buffer

namespace Everscale

set_option autoImplicit false

/-! ## Octets with a name -/

abbrev NUL : Octet := 0
abbrev HT : Octet := 9
abbrev LF : Octet := 10
abbrev CR : Octet := 13
abbrev SP : Octet := 32

@[simp] theorem CR_ne_LF : CR ≠ LF := by decide

@[simp] theorem LF_ne_CR : LF ≠ CR := by decide

/-- The octets of a string literal of the source. -/
def octets (literal : String) : List Octet := literal.toList.map fun c => UInt8.ofNat c.toNat

/-- The octet of a character literal of the source. -/
def octet (c : Char) : Octet := UInt8.ofNat c.toNat

namespace HttpUtil

/-- `HttpUtil::_Bitmasks`, sixteen octets to a row. -/
def bitmasks : List Nat :=
  [0x0000, 0x0000, 0x0000, 0x0000, 0x0000, 0x0000, 0x0000, 0x0000, 0x0000, 0x0300, 0x0000, 0x0000, 0x0000, 0x0000, 0x0000, 0x0000,
   0x0000, 0x0000, 0x0000, 0x0000, 0x0000, 0x0000, 0x0000, 0x0000, 0x0000, 0x0000, 0x0000, 0x0000, 0x0000, 0x0000, 0x0000, 0x0000,
   0x0300, 0x0508, 0x0300, 0x0500, 0x05C0, 0x0520, 0x05C0, 0x0508, 0x0308, 0x0308, 0x0508, 0x05C0, 0x03C0, 0x0508, 0x0508, 0x0380,
   0x0504, 0x0504, 0x0504, 0x0504, 0x0504, 0x0504, 0x0504, 0x0504, 0x0504, 0x0504, 0x03C0, 0x0380, 0x0300, 0x03C0, 0x0300, 0x0380,
   0x03C0, 0x0512, 0x0512, 0x0512, 0x0512, 0x0512, 0x0512, 0x0502, 0x0502, 0x0502, 0x0502, 0x0502, 0x0502, 0x0502, 0x0502, 0x0502,
   0x0502, 0x0502, 0x0502, 0x0502, 0x0502, 0x0502, 0x0502, 0x0502, 0x0502, 0x0502, 0x0502, 0x0300, 0x0300, 0x0300, 0x0500, 0x0508,
   0x0500, 0x0511, 0x0511, 0x0511, 0x0511, 0x0511, 0x0511, 0x0501, 0x0501, 0x0501, 0x0501, 0x0501, 0x0501, 0x0501, 0x0501, 0x0501,
   0x0501, 0x0501, 0x0501, 0x0501, 0x0501, 0x0501, 0x0501, 0x0501, 0x0501, 0x0501, 0x0501, 0x0300, 0x0500, 0x0300, 0x0508, 0x0000,
   0x0100, 0x0100, 0x0100, 0x0100, 0x0100, 0x0100, 0x0100, 0x0100, 0x0100, 0x0100, 0x0100, 0x0100, 0x0100, 0x0100, 0x0100, 0x0100,
   0x0100, 0x0100, 0x0100, 0x0100, 0x0100, 0x0100, 0x0100, 0x0100, 0x0100, 0x0100, 0x0100, 0x0100, 0x0100, 0x0100, 0x0100, 0x0100,
   0x0100, 0x0100, 0x0100, 0x0100, 0x0100, 0x0100, 0x0100, 0x0100, 0x0100, 0x0100, 0x0100, 0x0100, 0x0100, 0x0100, 0x0100, 0x0100,
   0x0100, 0x0100, 0x0100, 0x0100, 0x0100, 0x0100, 0x0100, 0x0100, 0x0100, 0x0100, 0x0100, 0x0100, 0x0100, 0x0100, 0x0100, 0x0100,
   0x0100, 0x0100, 0x0100, 0x0100, 0x0100, 0x0100, 0x0100, 0x0100, 0x0100, 0x0100, 0x0100, 0x0100, 0x0100, 0x0100, 0x0100, 0x0100,
   0x0100, 0x0100, 0x0100, 0x0100, 0x0100, 0x0100, 0x0100, 0x0100, 0x0100, 0x0100, 0x0100, 0x0100, 0x0100, 0x0100, 0x0100, 0x0100,
   0x0100, 0x0100, 0x0100, 0x0100, 0x0100, 0x0100, 0x0100, 0x0100, 0x0100, 0x0100, 0x0100, 0x0100, 0x0100, 0x0100, 0x0100, 0x0100,
   0x0100, 0x0100, 0x0100, 0x0100, 0x0100, 0x0100, 0x0100, 0x0100, 0x0100, 0x0100, 0x0100, 0x0100, 0x0100, 0x0100, 0x0100, 0x0100]

/-- The mask of an octet. -/
def bitmask (c : Octet) : Nat := bitmasks.getD c.toNat 0

def LOW_ALPHA : Nat := 0x01
def UP_ALPHA : Nat := 0x02
def DIGIT : Nat := 0x04
def ALPHA : Nat := LOW_ALPHA ||| UP_ALPHA
def ALPHA_NUM : Nat := ALPHA ||| DIGIT
def MARK : Nat := 0x08
def UNRESERVED : Nat := ALPHA_NUM ||| MARK
def HEX : Nat := DIGIT ||| 0x10
def ESCAPED : Nat := HEX ||| 0x20
def PCHAR : Nat := UNRESERVED ||| ESCAPED ||| 0x40
def RESERVED : Nat := 0x80
def URIC : Nat := RESERVED ||| UNRESERVED ||| ESCAPED
def TEXT : Nat := 0x100
def SEPARATOR : Nat := 0x200
def TOKEN : Nat := 0x400

/-- Whether an octet's mask meets a class. -/
def inClass (mask : Nat) (c : Octet) : Bool := bitmask c &&& mask != 0

def isPchar : Octet → Bool := inClass PCHAR
def isUric : Octet → Bool := inClass URIC
def isAlpha : Octet → Bool := inClass ALPHA
def isAlphaNum : Octet → Bool := inClass ALPHA_NUM
def isLowAlpha : Octet → Bool := inClass LOW_ALPHA
def isUpAlpha : Octet → Bool := inClass UP_ALPHA
def isDigit : Octet → Bool := inClass DIGIT
def isHex : Octet → Bool := inClass HEX
def isText : Octet → Bool := inClass TEXT
def isSeparator : Octet → Bool := inClass SEPARATOR
def isToken : Octet → Bool := inClass TOKEN

def isSpace (c : Octet) : Bool := c = SP || c = HT

def isLWS (c : Octet) : Bool := c = CR || c = LF || c = SP || c = HT

/-! ## Relations between the classes -/

theorem bitmasks_length : bitmasks.length = 256 := by decide +kernel

/-- A property of octets and their masks holds of all octets when it holds along the
table. -/
theorem forall_octet {p : Octet → Nat → Bool}
    (h : bitmasks.zipIdx.all (fun entry => p (UInt8.ofNat entry.2) entry.1) = true) (c : Octet) :
    p c (bitmask c) = true := by
  have inside : c.toNat < bitmasks.length := by
    rw [bitmasks_length]; exact c.toNat_lt
  have entry := List.all_eq_true.1 h (bitmasks[c.toNat], c.toNat)
    (List.mem_zipIdx_iff_getElem?.2 (List.getElem?_eq_getElem inside))
  rw [bitmask, List.getD_eq_getElem?_getD, List.getElem?_eq_getElem inside, Option.getD_some]
  simpa using entry

/-- The octets that end a line or a string. -/
def isLineBreak (c : Octet) : Bool := c = CR || c = LF || c = NUL

/-- What the rows of the table say of the classes, for one octet and its mask. -/
def classesNest (c : Octet) (mask : Nat) : Bool :=
  let meets := fun wanted : Nat => mask &&& wanted != 0
  (!(meets TOKEN || meets URIC) || !isLWS c && c != NUL) &&
    (!meets PCHAR || meets URIC) &&
    (!meets ALPHA_NUM || meets PCHAR) &&
    (!(meets ALPHA || meets DIGIT) || meets ALPHA_NUM) &&
    (!(meets TOKEN || meets SEPARATOR) || meets TEXT) &&
    (!meets TEXT || !isLineBreak c)

theorem classes_nest (c : Octet) : classesNest c (bitmask c) = true :=
  forall_octet (by decide +kernel) c

theorem isPchar_isUric {c : Octet} (h : isPchar c = true) : isUric c = true := by
  have nest := classes_nest c
  simp only [isPchar, isUric, inClass] at h ⊢
  simp only [classesNest, h] at nest
  grind

end HttpUtil

end Everscale
