/-
# Everscale.Http1.MessageParser -- header and body parsing

`HttpMessageParser` (`ESHttpMessageParser.cpp`), function by function.  The class
is abstract: `parseStartLine` and `isBodyNotAllowed` come from the request and the
response parser, with a state of their own.  `StartLineMethods` is that pair, over
the subclass state `χ` and the first line `ρ`.

The source keeps its state in one word of flags.  Of the header flags at most one
is ever set, so they are the enumeration `HeaderStage` (`initial` is the word
`0x00`); the body flags do combine and stay booleans.

`Scratch` is what the element parsers work on: the working buffer and the message
under construction.  Allocations are taken to succeed.
-/
import Everscale.HttpCommon.Util

namespace Everscale

set_option autoImplicit false

open Theory HttpUtil

/-- The working buffer and the message that is being filled in. -/
structure Scratch (ρ : Type) where
  working : Buffer
  message : HttpMessage ρ
  deriving DecidableEq

/-- What the parser of a first line keeps between calls. -/
structure StartLineParse (χ ρ : Type) extends Scratch ρ where
  sub : χ
  deriving DecidableEq

inductive HeaderStage where
  | initial
  | startLine
  | fieldName
  | fieldValue
  | headerParseComplete
  deriving DecidableEq, Repr

/-- The flags of `_state` that concern the body. -/
structure BodyFlags where
  unencodedBody : Bool := false
  chunkedBody : Bool := false
  chunkSize : Bool := false
  chunkExtension : Bool := false
  chunkData : Bool := false
  endChunk : Bool := false
  trailer : Bool := false
  bodyParseComplete : Bool := false
  multipartBody : Bool := false
  bodyUntilClose : Bool := false
  deriving DecidableEq, Repr

/-- The parser object, its subclass part and the message it fills. -/
structure HttpMessageParser (χ ρ : Type) extends StartLineParse χ ρ where
  stage : HeaderStage := .initial
  body : BodyFlags := {}
  bodyBytesRemaining : Nat := 0
  deriving DecidableEq

/-- The virtual functions of `HttpMessageParser`. -/
structure StartLineMethods (χ ρ : Type) where
  parseStartLine : Reader (StartLineParse χ ρ)
  isBodyNotAllowed : HttpMessage ρ → Bool

variable {χ ρ : Type}

namespace Scratch

/-- `_workingBuffer->putNext`. -/
def put (s : Scratch ρ) (c : Octet) : Scratch ρ := { s with working := s.working.putNext c }

/-- Every element but a port refuses the next octet when the working buffer is full. -/
def workingFull (s : Scratch ρ) : Option Error :=
  if s.working.isWritable then none else some .overflow

end Scratch

namespace HttpMessageParser

/-- Nothing follows this loop: it returns on its own. -/
def noMore {σ : Type} : Reader σ := fun s b => ⟨.invalidState, s, b⟩

/-! ## Elements -/

/-- One octet of `parseFieldName`. -/
def fieldNameOctet (s : Scratch ρ) (c : Octet) : Act Error (Scratch ρ) :=
  if c = octet ':' then
    -- the value is filled in by the next production, `parseFieldValue`
    .stop .success { s with message := s.message.addHeader { fieldName := s.working.duplicate } }
  else if isToken c then .keep (s.put c)
  else .stop .badRequestFieldName s

def parseFieldName : Reader (Scratch ρ) :=
  Reader.octetLoop Scratch.workingFull fieldNameOctet noMore

/-- The loop that `parseFieldValue` and `parseReasonPhrase` share: content is kept,
white space inside it becomes one space, and a line that does not continue ends it. -/
def foldedText (isContent : Octet → Bool) (save : Scratch ρ → Error × Scratch ρ) (bad : Error) :
    Nat → Reader (Scratch ρ)
  | 0, s, b => ⟨.again, s, b⟩
  | fuel + 1, s, b =>
      if !b.isReadable then ⟨.again, s, b⟩
      else if !s.working.isWritable then ⟨.overflow, s, b⟩
      else
        let c := b.peekNext
        let b := b.skipNext
        if isLWS c then
          match SkipLWS (b.setReadPosition (b.readPosition - 1)) 3 with
          | (.success, b) => ⟨(save s).1, (save s).2, b⟩
          | (.inProgress, b) =>
              -- leading white space is dropped
              foldedText isContent save bad fuel
                (if 0 < s.working.writePosition then s.put SP else s) b
          | (e, b) => ⟨e, s, b⟩
        else if isContent c then foldedText isContent save bad fuel (s.put c) b
        else ⟨bad, s, b⟩

/-- The field value goes into the header that `parseFieldName` added last. -/
def saveFieldValue (s : Scratch ρ) : Error × Scratch ρ :=
  match s.message.setLastFieldValue s.working.duplicate with
  | none => (.assertFailed, s)
  | some message => (.success, { s with message })

def isFieldContent (c : Octet) : Bool := isToken c || isSeparator c || isText c

def parseFieldValue : Reader (Scratch ρ) := fun s b =>
  foldedText isFieldContent saveFieldValue .badRequestFieldValue b.readable s b

/-- `parseVersion`; a client reads a version before a space, a server before a line
break. -/
def parseVersion (clientMode : Bool) : Reader (Scratch ρ) := fun s b =>
  let b := SkipSpaces b
  if b.readable < (if clientMode then 9 else 10) then ⟨.again, s, b⟩
  else
    let version : Option Nat :=
      if IsMatch b "HTTP/1.1" then some 110
      else if IsMatch b "HTTP/1.0" then some 100
      else none
    match version with
    | none => ⟨.badRequestVersion, s, b⟩
    | some version =>
        let b := b.skip 8
        let done := { s with message := { s.message with httpVersion := version } }
        if clientMode then
          if isSpace b.peekNext then ⟨.success, done, b.skipNext⟩
          else ⟨.badRequestVersion, s, b.skipNext⟩
        else if b.peekNext = LF then ⟨.success, done, b.skipNext⟩
        else if b.peekNext = CR then
          if b.skipNext.peekNext = LF then ⟨.success, done, b.skipNext.skipNext⟩
          else ⟨.badRequestVersion, s, b.skipNext.skipNext⟩
        else ⟨.badRequestVersion, s, b.skipNext⟩

/-! ## What the headers say about the body -/

/-- The local variables of `postParse`. -/
structure PostParse (ρ : Type) where
  message : HttpMessage ρ
  contentLength : Nat := 0
  foundContentLength : Bool := false
  foundMultipartByteRange : Bool := false
  foundTransferEncodedChunked : Bool := false

/-- `1.1 <= message.httpVersion()`, a floating-point comparison with 110 or 100. -/
def atLeast11 (message : HttpMessage ρ) : Bool := 11 ≤ 10 * message.httpVersion

/-- One header in the loop of `postParse`.  Every branch of the source passes over a
header without a value, so that is tested first. -/
def postParseHeader (header : HttpHeader) (found : PostParse ρ) : Error × PostParse ρ :=
  match header.fieldValue with
  | none => (.success, found)
  | some value =>
      if isNamed "Expect" header.fieldName then
        if beginsWith "100-continue" value then
          (.success, { found with message := { found.message with send100Continue := true } })
        else (.success, found)
      else if atLeast11 found.message && isNamed "Connection" header.fieldName then
        if beginsWith "close" value then
          (.success, { found with message := { found.message with reuseConnection := false } })
        else (.success, found)
      else if isNamed "Content-Length" header.fieldName then
        let (error, contentLength) := ParseInteger value
        if error = .badInteger then (.badContentLength, { found with contentLength })
        else if error ≠ .success then (error, { found with contentLength })
        else (.success, { found with contentLength, foundContentLength := true })
      else if isNamed "Transfer-Encoding" header.fieldName then
        if !beginsWith "identity" value then
          (.success, { found with foundTransferEncodedChunked := true })
        else (.success, found)
      else if isNamed "Content-Type" header.fieldName then
        if beginsWith "multipart/byteranges" value then
          (.success, { found with foundMultipartByteRange := true })
        else (.success, found)
      else (.success, found)

/-- The loop of `postParse` over the headers. -/
def postParseHeaders : List HttpHeader → PostParse ρ → Error × PostParse ρ
  | [], found => (.success, found)
  | header :: rest, found =>
      let (error, found) := postParseHeader header found
      if error = .success then postParseHeaders rest found else (error, found)

/-- Every bit set: the count that stands for a body read until the connection closes. -/
def UINT64_MAX : Nat := 2 ^ 64 - 1

/-- The end of `postParse`: how the body is delimited, in the order of precedence. -/
def delimitBody (methods : StartLineMethods χ ρ) (s : HttpMessageParser χ ρ)
    (found : PostParse ρ) : Error × HttpMessageParser χ ρ :=
  let message := found.message
  if found.foundTransferEncodedChunked then
    (.success, { s with
      message := { message with hasBody := true }
      bodyBytesRemaining := 0
      body := { s.body with chunkedBody := true, chunkSize := true } })
  else if found.foundContentLength then
    (.success, { s with
      message := { message with hasBody := 0 < found.contentLength }
      bodyBytesRemaining := found.contentLength
      body := { s.body with unencodedBody := true } })
  else if found.foundMultipartByteRange then
    (.multipartNotSupported, { s with
      message := { message with hasBody := false }
      bodyBytesRemaining := 0
      body := { s.body with multipartBody := true } })
  else if methods.isBodyNotAllowed message then
    (.success, { s with
      message := { message with hasBody := false }
      bodyBytesRemaining := 0
      body := { s.body with unencodedBody := true } })
  else
    (.success, { s with
      message := { message with hasBody := true, reuseConnection := false }
      bodyBytesRemaining := UINT64_MAX
      body := { s.body with bodyUntilClose := true } })

/-- What `postParse` starts its loop with. -/
def postParseStart (message : HttpMessage ρ) : PostParse ρ :=
  { message :=
      { message with reuseConnection := atLeast11 message, send100Continue := false } }

/-- `postParse`: the connection flags and the framing of the body. -/
def postParse (methods : StartLineMethods χ ρ) (s : HttpMessageParser χ ρ) :
    Error × HttpMessageParser χ ρ :=
  let (error, found) := postParseHeaders s.message.headers (postParseStart s.message)
  if error ≠ .success then (error, { s with message := found.message })
  else delimitBody methods s found

/-! ## Headers -/

/-- Moving on to `stage`; every such step clears the working buffer. -/
def enter (stage : HeaderStage) (s : HttpMessageParser χ ρ) : HttpMessageParser χ ρ :=
  { s with stage, working := s.working.clear }

def onScratch (f : Reader (Scratch ρ)) : Reader (HttpMessageParser χ ρ) :=
  f.on (·.toScratch) fun s scratch => { s with toScratch := scratch }

def onStartLine (f : Reader (StartLineParse χ ρ)) : Reader (HttpMessageParser χ ρ) :=
  f.on (·.toStartLineParse) fun s start => { s with toStartLineParse := start }

/-- The empty line behind the last header. -/
def endOfHeaders (methods : StartLineMethods χ ρ) (s : HttpMessageParser χ ρ) (b : Buffer) :
    Outcome Error (HttpMessageParser χ ρ) Buffer :=
  let (e, s) := postParse methods (enter .headerParseComplete s)
  ⟨e, s, b.readMark⟩

/-- The loop of `parseHeaders` over field names and field values. -/
def parseFields (methods : StartLineMethods χ ρ) : Nat → Reader (HttpMessageParser χ ρ)
  | 0, s, b => ⟨.again, s, b⟩
  | fuel + 1, s, b =>
      match s.stage with
      | .fieldName =>
          if !b.isReadable then ⟨.again, s, b⟩
          else
            let c := b.peekNext
            if c = CR then
              let b := b.skipNext
              if !b.isReadable then ⟨.again, s, b.setReadPosition (b.readPosition - 1)⟩
              else if b.peekNext ≠ LF then ⟨.badRequestFieldName, s, b⟩
              else endOfHeaders methods s b.skipNext
            else if c = LF then endOfHeaders methods s b.skipNext
            else if c = SP ∨ c = HT then ⟨.assertFailed, s, b⟩
            else
              Reader.stage (onScratch parseFieldName) (enter .fieldValue)
                (parseFields methods fuel) s b
      | .fieldValue =>
          Reader.stage (onScratch parseFieldValue) (enter .fieldName)
            (parseFields methods fuel) s b
      | _ => ⟨.invalidState, s, b⟩

/-- Every field takes at least one octet, so the fuel cannot run out. -/
def parseHeaderFields (methods : StartLineMethods χ ρ) : Reader (HttpMessageParser χ ρ) :=
  fun s b => parseFields methods (b.readable + 1) s b

def parseFromStartLine (methods : StartLineMethods χ ρ) : Reader (HttpMessageParser χ ρ) :=
  fun s b =>
    if s.stage = .startLine then
      Reader.stage (onStartLine methods.parseStartLine) (enter .fieldName)
        (parseHeaderFields methods) s b
    else parseHeaderFields methods s b

/-- `parseHeaders`.  Empty lines before the first line are skipped. -/
def parseHeaders (methods : StartLineMethods χ ρ) : Reader (HttpMessageParser χ ρ) := fun s b =>
  if s.stage = .headerParseComplete then ⟨.invalidState, s, b⟩
  else if s.stage = .initial then
    let b := b.skipWhile isLWS b.readable
    if b.isReadable then parseFromStartLine methods (enter .startLine s) b.readMark
    else ⟨.again, s, b⟩
  else parseFromStartLine methods s b

/-! ## Bodies -/

/-- What `parseBody` returns; the out parameters are `none` where it leaves them
unset. -/
structure BodyOutcome (χ ρ : Type) where
  code : Error
  state : HttpMessageParser χ ρ
  input : Buffer
  startingPosition : Option Nat := none
  chunkSize : Option Nat := none

/-- The data that is readable now, up to what remains of the chunk or the body. -/
def offer (s : HttpMessageParser χ ρ) (b : Buffer) : BodyOutcome χ ρ :=
  ⟨.success, s, b, some b.readPosition, some (min s.bodyBytesRemaining b.readable)⟩

def parseUnencodedBody (s : HttpMessageParser χ ρ) (b : Buffer) : BodyOutcome χ ρ :=
  if s.body.bodyParseComplete then
    ⟨.success, { s with body := { s.body with unencodedBody := false, bodyUntilClose := false } },
      b, none, some 0⟩
  else if !b.isReadable then ⟨.again, s, b, none, none⟩
  else offer s b

def parseEndChunk (b : Buffer) : Error × Buffer :=
  let (e, _, b) := SkipLine b
  (e, b)

def parseChunkExtension (b : Buffer) : Error × Buffer :=
  let (e, _, b) := SkipLine b
  (e, b)

/-- The value of a hexadecimal digit as `parseChunkSize` computes it. -/
def hexValue (c : Octet) : Nat :=
  if isUpAlpha c then c.toNat - 65 + 10
  else if isLowAlpha c then c.toNat - 97 + 10
  else c.toNat - 48

/-- The loop of `parseChunkSize`, accumulating in 64 bits. -/
def chunkSizeLoop : Nat → Nat → Buffer → Error × Nat × Buffer
  | 0, remaining, b => (.again, remaining, b)
  | fuel + 1, remaining, b =>
      if !b.isReadable then (.again, remaining, b)
      else
        let c := b.peekNext
        let b := b.skipNext
        if isHex c then chunkSizeLoop fuel ((remaining * 16 + hexValue c) % 2 ^ 64) b
        else (.success, remaining, b.setReadPosition (b.readPosition - 1))

/-- `parseChunkSize`: spaces are skipped whenever nothing has been counted yet. -/
def parseChunkSize (remaining : Nat) (b : Buffer) : Error × Nat × Buffer :=
  let b := if remaining = 0 then SkipSpaces b else b
  chunkSizeLoop b.readable remaining b

def parseChunkData (s : HttpMessageParser χ ρ) (b : Buffer) : BodyOutcome χ ρ :=
  if s.bodyBytesRemaining = 0 then ⟨.assertFailed, s, b, none, none⟩
  else if !b.isReadable then ⟨.again, s, b, none, none⟩
  else offer s b

/-- The last part of `parseChunkedBody`. -/
def chunkedData (s : HttpMessageParser χ ρ) (b : Buffer) : BodyOutcome χ ρ :=
  if s.body.chunkData then parseChunkData s b else ⟨.invalidState, s, b, none, none⟩

/-- `parseChunkedBody` from the chunk extension on. -/
def chunkedExtension (s : HttpMessageParser χ ρ) (b : Buffer) : BodyOutcome χ ρ :=
  if s.body.chunkExtension then
    match parseChunkExtension b with
    | (.success, b) =>
        let body := { s.body with chunkExtension := false }
        if s.bodyBytesRemaining = 0 then
          ⟨.success, { s with body := { body with trailer := true } }, b.readMark, none, some 0⟩
        else chunkedData { s with body := { body with chunkData := true } } b.readMark
    | (e, b) => ⟨e, s, b, none, none⟩
  else chunkedData s b

/-- `parseChunkedBody` from the chunk size on. -/
def chunkedSize (s : HttpMessageParser χ ρ) (b : Buffer) : BodyOutcome χ ρ :=
  if s.body.chunkSize then
    match parseChunkSize s.bodyBytesRemaining b with
    | (.success, bodyBytesRemaining, b) =>
        chunkedExtension { s with
          bodyBytesRemaining
          body := { s.body with chunkSize := false, chunkExtension := true } } b.readMark
    | (e, bodyBytesRemaining, b) => ⟨e, { s with bodyBytesRemaining }, b, none, none⟩
  else chunkedExtension s b

def parseChunkedBody (s : HttpMessageParser χ ρ) (b : Buffer) : BodyOutcome χ ρ :=
  if s.body.endChunk then
    match parseEndChunk b with
    | (.success, b) =>
        chunkedSize { s with body := { s.body with endChunk := false, chunkSize := true } }
          b.readMark
    | (e, b) => ⟨e, s, b, none, none⟩
  else chunkedSize s b

def parseBody (s : HttpMessageParser χ ρ) (b : Buffer) : BodyOutcome χ ρ :=
  if s.stage ≠ .headerParseComplete then ⟨.assertFailed, s, b, none, none⟩
  else if s.body.unencodedBody || s.body.bodyUntilClose then parseUnencodedBody s b
  else if s.body.chunkedBody then parseChunkedBody s b
  else if s.body.multipartBody then ⟨.operationNotSupported, s, b, none, none⟩
  else ⟨.invalidState, s, b, none, none⟩

/-- `_bodyBytesRemaining -= bytesConsumed`, in 64 bits. -/
def lessConsumed (remaining bytesConsumed : Nat) : Nat :=
  (remaining + (2 ^ 64 - bytesConsumed % 2 ^ 64)) % 2 ^ 64

/-- `consumeBody`.  Its test for the chunk-data state, `!(ES_PARSING_CHUNK_DATA | _state)`,
is never true and has no branch here. -/
def consumeBody (s : HttpMessageParser χ ρ) (b : Buffer) (bytesConsumed : Nat) :
    Outcome Error (HttpMessageParser χ ρ) Buffer :=
  let bodyBytesRemaining := lessConsumed s.bodyBytesRemaining bytesConsumed
  if s.stage ≠ .headerParseComplete then ⟨.assertFailed, s, b⟩
  else if s.body.multipartBody then ⟨.operationNotSupported, s, b⟩
  else if s.body.unencodedBody || s.body.bodyUntilClose then
    let b := b.skip bytesConsumed
    if bodyBytesRemaining = 0 then
      ⟨.success,
        { s with bodyBytesRemaining, body := { s.body with bodyParseComplete := true } },
        b.readMark⟩
    else ⟨.success, { s with bodyBytesRemaining }, b⟩
  else if s.body.chunkedBody then
    let b := b.skip bytesConsumed
    if bodyBytesRemaining = 0 then
      ⟨.success,
        { s with
          bodyBytesRemaining
          body := { s.body with chunkData := false, endChunk := true } },
        b.readMark⟩
    else ⟨.success, { s with bodyBytesRemaining }, b⟩
  else ⟨.assertFailed, s, b⟩

/-- The loop of `skipTrailer`: lines are skipped up to and including an empty one. -/
def skipTrailerLines : Nat → Buffer → Error × Buffer
  | 0, b => (.again, b)
  | fuel + 1, b =>
      match SkipLine b with
      | (.success, 0, b) => (.success, b)
      | (.success, _ + 1, b) => skipTrailerLines fuel b
      | (e, _, b) => (e, b)

def skipTrailer : Reader (HttpMessageParser χ ρ) := fun s b =>
  if s.body.trailer then
    match skipTrailerLines (b.readable + 1) b with
    | (.success, b) =>
        ⟨.success,
          { s with body := { s.body with trailer := false, bodyParseComplete := true } },
          b.readMark⟩
    | (e, b) => ⟨e, s, b⟩
  else ⟨.success, s, b⟩

end HttpMessageParser

end Everscale
