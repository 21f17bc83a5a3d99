/-
# Everscale.Http1.MessageFormatter -- headers and body framing

`HttpMessageFormatter` (`ESHttpMessageFormatter.cpp`), function by function.  The class
is abstract: `formatStartLine` comes from the request and the response formatter, with a
state of its own, here the parameter `χ`.

As in the parser, the flags of `_state` that exclude one another are enumerations.
`_currentHeader` points into the header list; the model keeps the headers from there on.
A message that changes between two calls is not considered by the source either.
-/
import Everscale.Base.Formatter
import Everscale.HttpCommon.Format

namespace Everscale

set_option autoImplicit false

open HttpUtil

inductive FormatStage where
  | initial
  | startLine
  | fieldName
  | fieldValue
  | headerFormatComplete
  deriving DecidableEq, Repr

inductive FormatBody where
  | none
  | unencoded
  | chunked
  | bodyFormatComplete
  deriving DecidableEq, Repr

/-- The formatter object and its subclass part. -/
structure HttpMessageFormatter (χ : Type) where
  sub : χ
  stage : FormatStage := .initial
  body : FormatBody := .none
  foundContentLength : Bool := false
  foundTransferEncodingChunked : Bool := false
  currentHeader : List HttpHeader := []
  deriving DecidableEq

/-- The line break of the protocol. -/
abbrev CRLF : List Octet := [CR, LF]

namespace HttpMessageFormatter

variable {χ ρ : Type}

/-! ## Elements -/

/-- `formatVersion`; a client writes its version behind a space and ends the line, a
server writes it in front of a space. -/
def formatVersion (httpVersion : Nat) (clientMode : Bool) : Writer :=
  let version : Writer :=
    if httpVersion = 110 then .each emitRaw () (octets "HTTP/1.1")
    else if httpVersion = 100 then .each emitRaw () (octets "HTTP/1.0")
    else .Rollback .badRequestVersion
  if clientMode then Writer.andThen (.literal [SP]) (version.andThen (.literal CRLF))
  else version.andThen (.literal [SP])

def formatFieldName (fieldName : List Octet) : Writer :=
  Writer.andThen (.each (emitToken .badRequestFieldName) () (cstr fieldName))
    (.literal (octets ": "))

/-- One octet of `formatFieldValue`: line continuations and other white space become one
space, and none at the front. -/
def emitFieldValue (lastIsSpace : Bool) (c : Octet) : Except Error (List Octet × Bool) :=
  if isLWS c then .ok (if lastIsSpace then [] else [SP], true)
  else if isToken c || isSeparator c || isText c then .ok ([c], false)
  else .error .badRequestFieldValue

def formatFieldValue : Option (List Octet) → Writer
  | none => fun b => (.nullDereference, b)
  | some fieldValue => Writer.andThen (.each emitFieldValue true (cstr fieldValue)) (.literal CRLF)

/-! ## Headers -/

/-- The flags that a field name sets, and the transition to its value. -/
def foundField (header : HttpHeader) (s : HttpMessageFormatter χ) : HttpMessageFormatter χ :=
  { s with
    stage := .fieldValue
    foundContentLength := s.foundContentLength || isNamed "Content-Length" header.fieldName
    foundTransferEncodingChunked := s.foundTransferEncodingChunked ||
      (isNamed "Transfer-Encoding" header.fieldName &&
        !header.fieldValue.any (beginsWith "identity")) }

/-- The headers end with an empty line; they decide how the body is framed. -/
def formatEmptyLine : Formatter (HttpMessageFormatter χ) := fun s =>
  Formatter.element (.literal CRLF)
    { s with
      stage := .headerFormatComplete
      body := if s.foundTransferEncodingChunked then .chunked else .unencoded }
    Formatter.complete s

/-- A field value and, behind it, the field names from the next header on. -/
def formatValueThen (header : HttpHeader) (rest : List HttpHeader)
    (names : Formatter (HttpMessageFormatter χ)) : Formatter (HttpMessageFormatter χ) := fun s =>
  Formatter.element (formatFieldValue header.fieldValue)
    { s with stage := .fieldName, currentHeader := rest } names s

/-- The loop of `formatHeaders` where it is the turn of a field name. -/
def formatNames : List HttpHeader → Formatter (HttpMessageFormatter χ)
  | [] => formatEmptyLine
  | header :: rest => fun s =>
      Formatter.element (formatFieldName header.fieldName) (foundField header s)
        (formatValueThen header rest (formatNames rest)) s

/-- The first line and, behind it, the headers. -/
def fromStartLine (formatStartLine : Formatter χ) (message : HttpMessage ρ) :
    Formatter (HttpMessageFormatter χ) :=
  Formatter.part formatStartLine HttpMessageFormatter.sub (fun s sub => { s with sub })
    (fun s => { s with stage := .fieldName, currentHeader := message.headers })
    (formatNames message.headers)

/-- `formatHeaders`, for a formatter of first lines. -/
def formatHeaders (formatStartLine : Formatter χ) (message : HttpMessage ρ) :
    Formatter (HttpMessageFormatter χ) := fun s =>
  match s.stage with
  | .headerFormatComplete => fun b => ⟨.invalidState, s, b⟩
  | .initial =>
      Formatter.start (fromStartLine formatStartLine message) { s with stage := .startLine } s
  | .startLine => fromStartLine formatStartLine message s
  | .fieldName => formatNames s.currentHeader s
  | .fieldValue =>
      match s.currentHeader with
      | header :: rest => formatValueThen header rest (formatNames rest) s
      | [] => fun b => ⟨.assertFailed, s, b⟩

/-! ## Body framing -/

/-- What `beginBlock` returns: a code, the size it grants, if it assigns one, and the
buffer. -/
structure Grant where
  code : Error
  maxChunkSize : Option Nat
  output : Buffer
  deriving DecidableEq

/-- Room that `beginChunk` keeps for the size, the line break behind it and the one
behind the data. -/
def reserved : Nat := 12

def beginChunk (requestedSize : Nat) (b : Buffer) : Grant :=
  if b.writable ≤ reserved then ⟨.again, none, b⟩
  else
    let availableSize := min requestedSize (b.writable - reserved)
    let (code, b) := Writer.andThen (.orRollback (FormatInteger availableSize 16)) (.literal CRLF) b
    ⟨code, some availableSize, b⟩

def beginUnencodedBlock (requestedSize : Nat) (b : Buffer) : Grant :=
  if b.writable = 0 then ⟨.again, none, b⟩
  else ⟨.success, some (min requestedSize b.writable), b⟩

def beginBlock (offeredSize : Nat) (s : HttpMessageFormatter χ) (b : Buffer) : Grant :=
  if offeredSize = 0 then ⟨.invalidArgument, none, b⟩
  else
    match s.body with
    | .bodyFormatComplete => ⟨.invalidState, none, b⟩
    | .chunked => beginChunk offeredSize b
    | .unencoded => beginUnencodedBlock offeredSize b
    | .none => ⟨.invalidState, none, b⟩

def endChunk : Writer := fun b =>
  if b.writable < 2 then (.again, b) else (.success, Writer.putAll b CRLF)

def endBlock (s : HttpMessageFormatter χ) : Writer :=
  match s.body with
  | .bodyFormatComplete => fun b => (.invalidState, b)
  | .chunked => endChunk
  | .unencoded => fun b => (.success, b)
  | .none => fun b => (.invalidState, b)

/-- `endBody`: the last chunk and an empty trailer, or nothing. -/
def endBody : Formatter (HttpMessageFormatter χ) := fun s b =>
  match s.body with
  | .bodyFormatComplete => ⟨.invalidState, s, b⟩
  | .chunked =>
      if b.writable < 5 then ⟨.again, s, b⟩
      else
        ⟨.success, { s with body := .bodyFormatComplete },
          (Writer.putAll b (octets "0\r\n\r\n")).writeMark⟩
  | .unencoded => ⟨.success, { s with body := .bodyFormatComplete }, b.writeMark⟩
  | .none => ⟨.invalidState, s, b⟩

end HttpMessageFormatter

end Everscale
