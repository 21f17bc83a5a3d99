/-
# Everscale.Http1.RequestParser -- request lines and request URIs

`HttpRequestUriParser` (`ESHttpRequestUriParser.cpp`) and `HttpRequestParser`
(`ESHttpRequestParser.cpp`).  Their state words hold one flag at a time, so they
are enumerations.

A component of a URI is read by a loop over octets (`Reader.octetLoop`); what the
loop does with one octet is the function named after it.  `return parseQuery(..)`
and its like are the loop going over to what follows it in the state it has just
set (`afterScheme` to `afterQuery`).
-/
import Everscale.Http1.MessageParser

namespace Everscale

set_option autoImplicit false

open Theory HttpUtil

inductive UriStage where
  | initial
  | asterisk
  | scheme
  | skippingFwdSlashes
  | host
  | port
  | absPath
  | query
  | fragment
  | nonHttpUri
  | parseComplete
  deriving DecidableEq, Repr

/-- The URI parser with the working buffer it shares and the URI it fills. -/
structure HttpRequestUriParser where
  working : Buffer
  requestUri : HttpRequestUri
  state : UriStage := .initial
  deriving DecidableEq

namespace HttpRequestUriParser

def put (s : HttpRequestUriParser) (c : Octet) : HttpRequestUriParser :=
  { s with working := s.working.putNext c }

def workingFull (s : HttpRequestUriParser) : Option Error :=
  if s.working.isWritable then none else some .overflow

/-- The first octet of a component is still to come. -/
def atStart (s : HttpRequestUriParser) : Bool := s.working.writePosition = 0

/-- Leaves a component for the given state; the working buffer starts over. -/
def leave (s : HttpRequestUriParser) (state : UriStage) (requestUri : HttpRequestUri) :
    HttpRequestUriParser :=
  { working := s.working.clear, requestUri, state }

/-- A component that ends the URI returns success. -/
def finished : Reader HttpRequestUriParser := fun s b => ⟨.success, s, b⟩

/-! ## Components -/

def fragmentOctet (s : HttpRequestUriParser) (c : Octet) : Act Error HttpRequestUriParser :=
  if isUric c then .keep (s.put c)
  else if isSpace c then
    .jump (s.leave .parseComplete { s.requestUri with fragment := some s.working.duplicate })
  else .stop .badRequestUriFragment s

def parseFragment : Reader HttpRequestUriParser :=
  Reader.octetLoop workingFull fragmentOctet fun s b => finished s b.readMark

def queryOctet (s : HttpRequestUriParser) (c : Octet) : Act Error HttpRequestUriParser :=
  if isUric c then .keep (s.put c)
  else
    let requestUri := { s.requestUri with query := some s.working.duplicate }
    if c = octet '#' then .jump (s.leave .fragment requestUri)
    else if isSpace c then .jump (s.leave .parseComplete requestUri)
    else .stop .badRequestUriQuery s

def afterQuery : Reader HttpRequestUriParser := fun s b =>
  match s.state with
  | .fragment => parseFragment s b
  | _ => finished s b

def parseQuery : Reader HttpRequestUriParser :=
  Reader.octetLoop workingFull queryOctet fun s b => afterQuery s b.readMark

def absPathOctet (s : HttpRequestUriParser) (c : Octet) : Act Error HttpRequestUriParser :=
  if s.atStart then
    if c = octet '/' then .keep (s.put c) else .stop .badRequestUriAbsPath s
  else if isPchar c then .keep (s.put c)
  else if c = octet '/' ∨ c = octet ';' then .keep (s.put c)
  else
    let requestUri := { s.requestUri with absPath := some s.working.duplicate }
    if c = octet '?' then .jump (s.leave .query requestUri)
    else if c = octet '#' then .jump (s.leave .fragment requestUri)
    else if isSpace c then .jump (s.leave .parseComplete requestUri)
    else .stop .badRequestUriAbsPath s

def afterAbsPath : Reader HttpRequestUriParser := fun s b =>
  match s.state with
  | .query => parseQuery s b
  | _ => afterQuery s b

def parseAbsPath : Reader HttpRequestUriParser :=
  Reader.octetLoop workingFull absPathOctet fun s b => afterAbsPath s b.readMark

/-- A port counts from `-1`, which stands for no digit yet. -/
def portOctet (s : HttpRequestUriParser) (c : Octet) : Act Error HttpRequestUriParser :=
  if isDigit c then
    let port := (if s.requestUri.port < 0 then 0 else s.requestUri.port) * 10 + (c.toNat - 48 : Nat)
    let s := { s with requestUri := { s.requestUri with port } }
    if 65536 ≤ port then .stop .badRequestUriPort s else .keep s
  else if s.requestUri.port < 0 then .stop .badRequestUriPort s
  else
    let root := { s.requestUri with absPath := some (octets "/") }
    if isSpace c then .jump (s.leave .parseComplete root)
    else if c = octet '/' then .back (s.leave .absPath s.requestUri)
    else if c = octet '?' then .jump (s.leave .query root)
    else if c = octet '#' then .jump (s.leave .fragment root)
    else .stop .badRequestUriPort s

def afterPort : Reader HttpRequestUriParser := fun s b =>
  match s.state with
  | .absPath => parseAbsPath s b
  | _ => afterAbsPath s b

def parsePort : Reader HttpRequestUriParser :=
  Reader.octetLoop (fun _ => none) portOctet fun s b => afterPort s b.readMark

def hostOctet (s : HttpRequestUriParser) (c : Octet) : Act Error HttpRequestUriParser :=
  if s.atStart then
    if isAlphaNum c then .keep (s.put c) else .stop .badRequestUriHost s
  else if isAlphaNum c then .keep (s.put c)
  else if c = octet '-' ∨ c = octet '.' then .keep (s.put c)
  else
    let requestUri := { s.requestUri with host := some s.working.duplicate }
    let root := { requestUri with absPath := some (octets "/") }
    if c = octet ':' then .jump (s.leave .port requestUri)
    else if c = SP ∨ c = HT then .jump (s.leave .parseComplete root)
    else if c = octet '/' then .back (s.leave .absPath requestUri)
    else if c = octet '?' then .jump (s.leave .query root)
    else if c = octet '#' then .jump (s.leave .fragment root)
    else .stop .badRequestUriHost s

def afterHost : Reader HttpRequestUriParser := fun s b =>
  match s.state with
  | .port => parsePort s b
  | _ => afterPort s b

def parseHost : Reader HttpRequestUriParser :=
  Reader.octetLoop workingFull hostOctet fun s b => afterHost s b.readMark

def skipForwardSlashes : Reader HttpRequestUriParser := fun s b =>
  let b := b.skipWhile (· = octet '/') b.readable
  if b.isReadable then parseHost { s with state := .host } b else ⟨.again, s, b⟩

/-- Everything up to a space is kept as it stands. -/
def nonHttpUriOctet (s : HttpRequestUriParser) (c : Octet) : Act Error HttpRequestUriParser :=
  if isSpace c then
    .jump (s.leave .parseComplete { s.requestUri with other := some s.working.duplicate })
  else .keep (s.put c)

def parseNonHttpUri : Reader HttpRequestUriParser :=
  Reader.octetLoop workingFull nonHttpUriOctet fun s b => finished s b.readMark

/-- `HTTP` and `HTTPS` are compared up to the length of what was read. -/
def schemeOctet (s : HttpRequestUriParser) (c : Octet) : Act Error HttpRequestUriParser :=
  if s.atStart then
    if isAlpha c then .keep (s.put c) else .stop .badRequestUriScheme s
  else if isAlphaNum c then .keep (s.put c)
  else if c = octet '+' ∨ c = octet '=' ∨ c = octet '.' then .keep (s.put c)
  else if c = octet ':' then
    if s.working.matchLiteral (octets "http") then
      .jump (s.leave .skippingFwdSlashes { s.requestUri with type := .http })
    else if s.working.matchLiteral (octets "https") then
      .jump (s.leave .skippingFwdSlashes { s.requestUri with type := .https })
    else
      .jump { s.put c with
        state := .nonHttpUri, requestUri := { s.requestUri with type := .other } }
  else .stop .badRequestUriScheme s

def afterScheme : Reader HttpRequestUriParser := fun s b =>
  match s.state with
  | .skippingFwdSlashes => skipForwardSlashes s b
  | _ => parseNonHttpUri s b

def parseScheme : Reader HttpRequestUriParser :=
  Reader.octetLoop workingFull schemeOctet fun s b => afterScheme s b.readMark

/-- The one parser that goes back to the read mark. -/
def parseAsterisk : Reader HttpRequestUriParser := fun s b =>
  if !b.isReadable then ⟨.again, s, b⟩
  else if b.peekNext ≠ octet '*' then ⟨.badRequestUriAsterisk, s, b.skipNext⟩
  else
    let b := b.skipNext
    if !b.isReadable then ⟨.again, s, b.readReset⟩
    else if !isSpace b.peekNext then ⟨.badRequestUriAsterisk, s, b.skipNext⟩
    else
      ⟨.success,
        { s with state := .parseComplete, requestUri := { s.requestUri with type := .asterisk } },
        b.skipNext⟩

/-- The kind of URI that begins with an octet. -/
def kindOf (c : Octet) : UriStage :=
  if c = octet '*' then .asterisk else if c = octet '/' then .absPath else .scheme

/-- The dispatch of `parse` on its state. -/
def parseComponent : Reader HttpRequestUriParser := fun s b =>
  match s.state with
  | .asterisk => parseAsterisk s b
  | .scheme => parseScheme s b
  | .skippingFwdSlashes => skipForwardSlashes s b
  | .host => parseHost s b
  | .port => parsePort s b
  | .absPath => parseAbsPath s b
  | .query => parseQuery s b
  | .fragment => parseFragment s b
  | .nonHttpUri => parseNonHttpUri s b
  | _ => ⟨.invalidState, s, b⟩

def parse : Reader HttpRequestUriParser := fun s b =>
  if s.state = .parseComplete then ⟨.invalidState, s, b⟩
  else if s.state = .initial then
    let b := (SkipSpaces b).readMark
    if b.isReadable then parseComponent { s with state := kindOf b.peekNext } b
    else ⟨.again, s, b⟩
  else parseComponent s b

end HttpRequestUriParser

/-! ## Request lines -/

inductive RequestStage where
  | initial
  | method
  | requestUri
  | httpVersion
  | parseComplete
  deriving DecidableEq, Repr

/-- What `HttpRequestParser` adds to the message parser. -/
structure RequestSub where
  requestState : RequestStage := .initial
  uriState : UriStage := .initial
  deriving DecidableEq

/-- The request line parser. -/
abbrev RequestLineParse := StartLineParse RequestSub RequestLine

namespace HttpRequestParser

def setMethod (s : Scratch RequestLine) (method : List Octet) : Scratch RequestLine :=
  { s with
    message := { s.message with
      startLine := { s.message.startLine with method := some method } } }

def methodOctet (s : Scratch RequestLine) (c : Octet) : Act Error (Scratch RequestLine) :=
  if isSpace c then .stop .success (setMethod s s.working.duplicate)
  else if isToken c then .keep (s.put c)
  else .stop .badRequestMethod s

def parseMethod : Reader (Scratch RequestLine) :=
  Reader.octetLoop Scratch.workingFull methodOctet HttpMessageParser.noMore

def onScratch (f : Reader (Scratch RequestLine)) : Reader RequestLineParse :=
  f.on (·.toScratch) fun s scratch => { s with toScratch := scratch }

/-- The part of the state the URI parser works on. -/
def getUri (s : RequestLineParse) : HttpRequestUriParser :=
  { working := s.working, requestUri := s.message.startLine.requestUri, state := s.sub.uriState }

def setUri (s : RequestLineParse) (u : HttpRequestUriParser) : RequestLineParse :=
  { s with
    working := u.working
    message := { s.message with
      startLine := { s.message.startLine with requestUri := u.requestUri } }
    sub := { s.sub with uriState := u.state } }

def onUri (f : Reader HttpRequestUriParser) : Reader RequestLineParse := f.on getUri setUri

def enter (requestState : RequestStage) (s : RequestLineParse) : RequestLineParse :=
  { s with sub := { s.sub with requestState }, working := s.working.clear }

def finished : Reader RequestLineParse := fun s b => ⟨.success, s, b⟩

def lineFromVersion : Reader RequestLineParse := fun s b =>
  if s.sub.requestState = .httpVersion then
    Reader.stage (onScratch (HttpMessageParser.parseVersion false)) (enter .parseComplete)
      finished s b
  else ⟨.invalidState, s, b⟩

def lineFromUri : Reader RequestLineParse := fun s b =>
  if s.sub.requestState = .requestUri then
    Reader.stage (onUri HttpRequestUriParser.parse) (enter .httpVersion) lineFromVersion s b
  else lineFromVersion s b

def lineFromMethod : Reader RequestLineParse := fun s b =>
  if s.sub.requestState = .method then
    Reader.stage (onScratch parseMethod) (enter .requestUri) lineFromUri s b
  else lineFromUri s b

def parseStartLine : Reader RequestLineParse := fun s b =>
  if s.sub.requestState = .parseComplete then ⟨.invalidState, s, b⟩
  else if s.sub.requestState = .initial then lineFromMethod (enter .method s) b.readMark
  else lineFromMethod s b

/-- A null method would be dereferenced; the parser has always set one by then. -/
def isBodyNotAllowed (request : HttpRequest) : Bool :=
  match request.startLine.method with
  | none => false
  | some method => isNamed "GET" method || isNamed "DELETE" method

def methods : StartLineMethods RequestSub RequestLine := { parseStartLine, isBodyNotAllowed }

end HttpRequestParser

/-- `HttpRequestParser` with the request it fills. -/
abbrev HttpRequestParser := HttpMessageParser RequestSub RequestLine

namespace HttpRequestParser

/-- A fresh parser and a fresh request, over a working buffer. -/
def fresh (working : Buffer) : HttpRequestParser :=
  { working, message := HttpRequest.fresh, sub := {} }

/-- `HttpMessageParser::parseHeaders` of a request parser. -/
def parseHeaders : Reader HttpRequestParser := HttpMessageParser.parseHeaders methods

end HttpRequestParser

end Everscale
