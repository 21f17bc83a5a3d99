/-
# Everscale.Base.Error -- the result codes the modelled functions return

`ESB::Error` is an integer; success is zero and every failure is a negative
constant of `ESBError.h` or `ESHttpError.h`.  The model keeps the codes that a
modelled function can return as constructors, and `Error.code` gives each its
number.

`breakLoop` is `ESB_BREAK`, whose name Lean keeps for itself.
Two constructors have no number in the source.  `assertFailed` stands for an
`assert` whose condition is false and `nullDereference` for a read through a
null pointer: both end the process, so neither is ever returned to a caller.
-/
import Mathlib.Algebra.Group.Int.Defs
import Mathlib.Algebra.Group.Nat.Defs
import Mathlib.Data.Int.Notation

namespace Everscale

set_option autoImplicit false

/-- The result codes of `ESBError.h` and `ESHttpError.h`. -/
inductive Error where
  | success
  | otherError
  | operationNotSupported
  | nullPointer
  | uniquenessViolation
  | invalidArgument
  | outOfMemory
  | notInitialized
  | again
  | intr
  | inProgress
  | invalidState
  | notOwner
  | inUse
  | cannotFind
  | invalidIterator
  | overflow
  | cannotConvert
  | shutdown
  | cleanup
  | pause
  | sendResponse
  | closed
  | notImplemented
  | breakLoop
  | generalTlsError
  | underflow
  | cannotParse
  | missingField
  | invalidField
  | badRequestUriAsterisk
  | badRequestUriAbsPath
  | badRequestUriQuery
  | badRequestUriScheme
  | badRequestUriHost
  | badRequestUriPort
  | badRequestMethod
  | badRequestVersion
  | badRequestFieldName
  | badRequestFieldValue
  | badContentLength
  | badInteger
  | badReasonPhrase
  | badStatusCode
  | badRequestUriFragment
  | multipartNotSupported
  | parserJammed
  | formatterJammed
  | assertFailed
  | nullDereference
  deriving DecidableEq, Repr, Inhabited

namespace Error

/-- The number of a result code; the two crashes have none. -/
def code : Error → Option Int
  | success => some 0
  | otherError => some (-1)
  | operationNotSupported => some (-2)
  | nullPointer => some (-3)
  | uniquenessViolation => some (-4)
  | invalidArgument => some (-5)
  | outOfMemory => some (-6)
  | notInitialized => some (-7)
  | again => some (-8)
  | intr => some (-9)
  | inProgress => some (-10)
  | invalidState => some (-14)
  | notOwner => some (-15)
  | inUse => some (-16)
  | cannotFind => some (-17)
  | invalidIterator => some (-18)
  | overflow => some (-19)
  | cannotConvert => some (-20)
  | shutdown => some (-24)
  | cleanup => some (-25)
  | pause => some (-26)
  | sendResponse => some (-27)
  | closed => some (-28)
  | notImplemented => some (-29)
  | breakLoop => some (-30)
  | generalTlsError => some (-34)
  | underflow => some (-35)
  | cannotParse => some (-36)
  | missingField => some (-37)
  | invalidField => some (-38)
  | badRequestUriAsterisk => some (-101)
  | badRequestUriAbsPath => some (-102)
  | badRequestUriQuery => some (-103)
  | badRequestUriScheme => some (-104)
  | badRequestUriHost => some (-105)
  | badRequestUriPort => some (-106)
  | badRequestMethod => some (-107)
  | badRequestVersion => some (-108)
  | badRequestFieldName => some (-109)
  | badRequestFieldValue => some (-110)
  | badContentLength => some (-111)
  | badInteger => some (-112)
  | badReasonPhrase => some (-113)
  | badStatusCode => some (-114)
  | badRequestUriFragment => some (-115)
  | multipartNotSupported => some (-116)
  | parserJammed => some (-117)
  | formatterJammed => some (-118)
  | assertFailed => none
  | nullDereference => none

/-- `IsHttpError` of `ESHttpError.h`. -/
def isHttpError (error : Error) : Bool :=
  match error.code with
  | none => false
  | some n => n ≤ -100 && -118 ≤ n

/-- The codes that have a number. -/
def numbered : List Error :=
  [success, otherError, operationNotSupported, nullPointer, uniquenessViolation, invalidArgument,
    outOfMemory, notInitialized, again, intr, inProgress, invalidState, notOwner, inUse, cannotFind,
    invalidIterator, overflow, cannotConvert, shutdown, cleanup, pause, sendResponse, closed, notImplemented,
    breakLoop, generalTlsError, underflow, cannotParse, missingField, invalidField, badRequestUriAsterisk,
    badRequestUriAbsPath, badRequestUriQuery, badRequestUriScheme, badRequestUriHost, badRequestUriPort,
    badRequestMethod, badRequestVersion, badRequestFieldName, badRequestFieldValue,
    badContentLength, badInteger, badReasonPhrase, badStatusCode, badRequestUriFragment,
    multipartNotSupported, parserJammed, formatterJammed]

theorem find_code {e : Error} {n : Int} (h : e.code = some n) :
    numbered.find? (fun e => e.code = some n) = some e := by
  cases e <;> cases h <;> rfl

/-- No two codes share a number, so comparing constructors is comparing codes. -/
theorem code_injective {e e' : Error} {n : Int} (h : e.code = some n) (h' : e'.code = some n) :
    e = e' := by
  have found := find_code h
  rw [find_code h'] at found
  exact (Option.some.inj found).symm

end Error

/-- An error that a call reports: any code but success. -/
abbrev Failure := { error : Error // error ≠ .success }

end Everscale
