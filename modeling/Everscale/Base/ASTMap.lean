/-
# Everscale.Base.ASTMap -- integers of a given width in a map

`AST::Map::find` looks up an integer for a variable of 16, 32 or 64 bits, signed or unsigned.  The five
overloads are one (`findTyped`) with the limits of `ESBTypes.h`, each of which is the end of the range of
its type but for one: `ESB_INT16_MIN` is -32728.
-/
import Everscale.Base.ASTElement

namespace Everscale

set_option autoImplicit false

namespace AST

def ESB_UINT16_MIN : Int64 := 0
def ESB_UINT16_MAX : Int64 := 65535
def ESB_INT16_MIN : Int64 := -32728
def ESB_INT16_MAX : Int64 := 32767
def ESB_UINT32_MIN : Int64 := 0
def ESB_UINT32_MAX : Int64 := 4294967295
def ESB_INT32_MIN : Int64 := -2147483647 - 1
def ESB_INT32_MAX : Int64 := 2147483647
def ESB_INT64_MIN : Int64 := -9223372036854775807 - 1
def ESB_INT64_MAX : Int64 := 9223372036854775807

namespace Map

/-- The search for a key, in the order of the keys. -/
def findNode (key : Value) : List (Scalar × Element) → Option Element
  | [] => none
  | (k, v) :: rest =>
      let result := key.compare k.value
      if result = 0 then some v else if 0 < result then findNode key rest else none

/-- `find` of an integer between two limits; a null key is `none`. -/
def findInteger (entries : List (Scalar × Element)) (key : Option (List Octet)) (min max : Int64) :
    Except Error Int64 :=
  match key with
  | none => .error .nullPointer
  | some key =>
      match findNode (.string key) entries with
      | none => .error .missingField
      | some (.scalar ⟨_, .integer value⟩) =>
          if value < min ∨ max < value then .error .invalidField else .ok value
      | some _ => .error .invalidField

/-- `find` for a variable of some type, which is assigned the integer. -/
def findTyped {τ : Type} (assign : Int64 → τ) (min max : Int64) (entries : List (Scalar × Element))
    (key : Option (List Octet)) (value : τ) (optional : Bool) : Error × τ :=
  match findInteger entries key min max with
  | .ok integer => (.success, assign integer)
  | .error .missingField => (if optional then .success else .missingField, value)
  | .error error => (error, value)

def findUInt16 : List (Scalar × Element) → Option (List Octet) → UInt16 → Bool → Error × UInt16 :=
  findTyped (fun integer => .ofInt integer.toInt) ESB_UINT16_MIN ESB_UINT16_MAX

def findInt16 : List (Scalar × Element) → Option (List Octet) → Int16 → Bool → Error × Int16 :=
  findTyped (fun integer => .ofInt integer.toInt) ESB_INT16_MIN ESB_INT16_MAX

def findUInt32 : List (Scalar × Element) → Option (List Octet) → UInt32 → Bool → Error × UInt32 :=
  findTyped (fun integer => .ofInt integer.toInt) ESB_UINT32_MIN ESB_UINT32_MAX

def findInt32 : List (Scalar × Element) → Option (List Octet) → Int32 → Bool → Error × Int32 :=
  findTyped (fun integer => .ofInt integer.toInt) ESB_INT32_MIN ESB_INT32_MAX

def findInt64 : List (Scalar × Element) → Option (List Octet) → Int64 → Bool → Error × Int64 :=
  findTyped id ESB_INT64_MIN ESB_INT64_MAX

end Map

/-! ## The types -/

/-- The types of an overload. -/
inductive IntegerType where
  | uint16
  | int16
  | uint32
  | int32
  | int64
  deriving DecidableEq, Repr

namespace IntegerType

abbrev Carrier : IntegerType → Type
  | .uint16 => UInt16
  | .int16 => Int16
  | .uint32 => UInt32
  | .int32 => Int32
  | .int64 => Int64

/-- The number that a variable of the type holds. -/
def toInt : (t : IntegerType) → t.Carrier → Int
  | .uint16, value => UInt16.toNat value
  | .int16, value => Int16.toInt value
  | .uint32, value => UInt32.toNat value
  | .int32, value => Int32.toInt value
  | .int64, value => Int64.toInt value

/-- The numbers that the type has. -/
def InRange (t : IntegerType) (n : Int) : Prop :=
  match t with
  | .uint16 => 0 ≤ n ∧ n < 2 ^ 16
  | .int16 => -2 ^ 15 ≤ n ∧ n < 2 ^ 15
  | .uint32 => 0 ≤ n ∧ n < 2 ^ 32
  | .int32 => -2 ^ 31 ≤ n ∧ n < 2 ^ 31
  | .int64 => -2 ^ 63 ≤ n ∧ n < 2 ^ 63

/-- The overload for a variable of the type. -/
def find : (t : IntegerType) → List (Scalar × Element) → Option (List Octet) → t.Carrier → Bool →
    Error × t.Carrier
  | .uint16 => Map.findUInt16
  | .int16 => Map.findInt16
  | .uint32 => Map.findUInt32
  | .int32 => Map.findInt32
  | .int64 => Map.findInt64

end IntegerType

namespace Map

section

variable {τ : Type} {entries : List (Scalar × Element)} {key : List Octet} {block : Block} {stored : Int64}

/-- An integer between the limits is assigned, and any other one leaves the variable. -/
theorem findTyped_stored (found : findNode (.string key) entries = some (.scalar ⟨block, .integer stored⟩))
    (assign : Int64 → τ) (min max : Int64) (value : τ) (optional : Bool) :
    findTyped assign min max entries (some key) value optional =
      if min ≤ stored ∧ stored ≤ max then (.success, assign stored) else (.invalidField, value) := by
  simp only [findTyped, findInteger, found]
  by_cases within : min ≤ stored ∧ stored ≤ max
  · have inside : ¬ (stored < min ∨ max < stored) := by
      rw [not_or, Int64.not_lt, Int64.not_lt]
      exact within
    rw [if_neg inside, if_pos within]
  · have outside : stored < min ∨ max < stored := by
      rw [← Int64.not_le, ← Int64.not_le]
      exact not_and_or.1 within
    rw [if_pos outside, if_neg within]

/-- An overload whose limits take the integers `P` and that assigns these unchanged. -/
theorem findTyped_takes {P : Prop} {assign : Int64 → τ} {min max : Int64} (number : τ → Int)
    (found : findNode (.string key) entries = some (.scalar ⟨block, .integer stored⟩))
    (limits : (min ≤ stored ∧ stored ≤ max) ↔ P) (unchanged : P → number (assign stored) = stored.toInt)
    (value : τ) (optional : Bool) :
    (P → ∃ assigned, findTyped assign min max entries (some key) value optional = (.success, assigned) ∧
        number assigned = stored.toInt) ∧
      (¬ P → findTyped assign min max entries (some key) value optional = (.invalidField, value)) := by
  rw [findTyped_stored found]
  refine ⟨fun taken => ⟨assign stored, if_pos (limits.2 taken), unchanged taken⟩, fun other => ?_⟩
  exact if_neg fun within => other (limits.1 within)

end

end Map

namespace IntegerType

/-- The integers that an overload takes. -/
def Taken (t : IntegerType) (n : Int) : Prop := t.InRange n ∧ ¬ (t = .int16 ∧ n < -32728)

instance (t : IntegerType) (n : Int) : Decidable (t.InRange n) := by
  cases t <;> exact inferInstanceAs (Decidable (_ ∧ _))

instance (t : IntegerType) (n : Int) : Decidable (t.Taken n) := inferInstanceAs (Decidable (_ ∧ _))

theorem within_iff {stored min max : Int64} (low high : Int) (hmin : min.toInt = low) (hmax : max.toInt = high) :
    (min ≤ stored ∧ stored ≤ max) ↔ low ≤ stored.toInt ∧ stored.toInt ≤ high := by
  rw [Int64.le_iff_toInt_le, Int64.le_iff_toInt_le, hmin, hmax]

/-- What an overload does with an integer that is stored. -/
theorem find_stored {entries : List (Scalar × Element)} {key : List Octet} {block : Block} {stored : Int64}
    (found : Map.findNode (.string key) entries = some (.scalar ⟨block, .integer stored⟩))
    (t : IntegerType) (value : t.Carrier) (optional : Bool) :
    (t.Taken stored.toInt → ∃ assigned, t.find entries (some key) value optional = (.success, assigned) ∧
        t.toInt assigned = stored.toInt) ∧
      (¬ t.Taken stored.toInt → t.find entries (some key) value optional = (.invalidField, value)) := by
  have low := stored.le_toInt
  have high := stored.toInt_lt
  cases t with
  | uint16 =>
      refine Map.findTyped_takes (fun value : UInt16 => (value.toNat : Int)) found ?_ ?_ value optional
      · rw [within_iff 0 65535 (by decide) (by decide)]
        simp only [Taken, InRange, reduceCtorEq, false_and, not_false_eq_true, and_true]
        omega
      · rintro ⟨⟨above, below⟩, -⟩
        rw [UInt16.ofInt, UInt16.toNat_ofNat']
        omega
  | int16 =>
      refine Map.findTyped_takes Int16.toInt found ?_ ?_ value optional
      · rw [within_iff (-32728) 32767 (by decide) (by decide)]
        simp only [Taken, InRange, true_and]
        omega
      · rintro ⟨⟨above, below⟩, -⟩
        exact Int16.toInt_ofInt_of_le above below
  | uint32 =>
      refine Map.findTyped_takes (fun value : UInt32 => (value.toNat : Int)) found ?_ ?_ value optional
      · rw [within_iff 0 4294967295 (by decide) (by decide)]
        simp only [Taken, InRange, reduceCtorEq, false_and, not_false_eq_true, and_true]
        omega
      · rintro ⟨⟨above, below⟩, -⟩
        rw [UInt32.ofInt, UInt32.toNat_ofNat']
        omega
  | int32 =>
      refine Map.findTyped_takes Int32.toInt found ?_ ?_ value optional
      · rw [within_iff (-2147483648) 2147483647 (by decide) (by decide)]
        simp only [Taken, InRange, reduceCtorEq, false_and, not_false_eq_true, and_true]
        omega
      · rintro ⟨⟨above, below⟩, -⟩
        exact Int32.toInt_ofInt_of_le above below
  | int64 =>
      refine Map.findTyped_takes Int64.toInt found ?_ (fun _ => rfl) value optional
      rw [within_iff (-9223372036854775808) 9223372036854775807 (by decide) (by decide)]
      simp only [Taken, InRange, reduceCtorEq, false_and, not_false_eq_true, and_true]
      omega

/-- The lookup succeeds exactly for the integers of the type, assigning them unchanged, and else leaves
the variable, exactly if the integer is none of the 40 that `ESB_INT16_MIN` cuts off. -/
theorem find_in_range_iff {entries : List (Scalar × Element)} {key : List Octet} {block : Block} {stored : Int64}
    (found : Map.findNode (.string key) entries = some (.scalar ⟨block, .integer stored⟩))
    (t : IntegerType) (value : t.Carrier) (optional : Bool) :
    (∃ error after, t.find entries (some key) value optional = (error, after) ∧
        (error = .success ↔ t.InRange stored.toInt) ∧
        (error = .success → t.toInt after = stored.toInt) ∧ (error ≠ .success → after = value)) ↔
      ¬ (t = .int16 ∧ -32768 ≤ stored.toInt ∧ stored.toInt < -32728) := by
  obtain ⟨takes, refuses⟩ := find_stored found t value optional
  by_cases taken : t.Taken stored.toInt
  · obtain ⟨assigned, runs, unchanged⟩ := takes taken
    refine iff_of_true ⟨_, _, runs, iff_of_true rfl taken.1, fun _ => unchanged, fun bad => absurd rfl bad⟩ ?_
    rintro ⟨rfl, -, cut⟩
    exact taken.2 ⟨rfl, cut⟩
  · rw [refuses taken]
    constructor
    · rintro ⟨_, _, same, range, -, -⟩ ⟨rfl, above, cut⟩
      obtain ⟨rfl, rfl⟩ := Prod.mk.inj same
      have := range.2 (by simp only [InRange]; omega)
      cases this
    · intro kept
      refine ⟨_, _, rfl, iff_of_false nofun fun inRange => taken ⟨inRange, ?_⟩, nofun, fun _ => rfl⟩
      rintro ⟨rfl, cut⟩
      simp only [InRange] at inRange
      exact kept ⟨rfl, by omega, cut⟩

/-- A map with this integer under `n`. -/
def holding (stored : Int64) : List (Scalar × Element) :=
  [(⟨⟨0, 0⟩, .string (octets "n")⟩, .scalar ⟨⟨1, 0⟩, .integer stored⟩)]

theorem holding_found {stored : Int64} : Map.findNode (.string (octets "n")) (holding stored) =
    some (.scalar ⟨⟨1, 0⟩, .integer stored⟩) := rfl

theorem port_in_range :
    ∃ error after, find .uint16 (holding 8080) (some (octets "n")) 0 false = (error, after) ∧
      (error = .success ↔ InRange .uint16 (8080 : Int64).toInt) ∧
      (error = .success → toInt .uint16 after = (8080 : Int64).toInt) ∧ (error ≠ .success → after = 0) :=
  (find_in_range_iff holding_found .uint16 0 false).2 (by decide)

/-- -32768 is a 16-bit integer, and is refused. -/
theorem least_int16_refused :
    InRange .int16 (-32768) ∧ find .int16 (holding (-32768)) (some (octets "n")) 0 false = (.invalidField, 0) := by
  decide

end IntegerType

end AST

end Everscale
