/-
# Everscale.Http1.RequestFormatter -- request lines and request URIs

`HttpRequestUriFormatter` (`ESHttpRequestUriFormatter.cpp`) and `HttpRequestFormatter`
(`ESHttpRequestFormatter.cpp`).  The sequences of `if` in the source, each of which
finds the flag that the one before it has set, are the arguments `rest` here.
-/
import Everscale.Http1.MessageFormatter

namespace Everscale

set_option autoImplicit false

open HttpUtil

inductive UriFormatStage where
  | initial
  | asterisk
  | scheme
  | host
  | port
  | absPath
  | query
  | fragment
  | nonHttpUri
  | formatComplete
  deriving DecidableEq, Repr

namespace HttpRequestUriFormatter

/-! ## Elements of a URI -/

def formatAsterisk : Writer := .literal (octets "*")

def formatScheme (uri : HttpRequestUri) : Writer :=
  match uri.type with
  | .asterisk => fun b => (.assertFailed, b)
  | .http => .each emitRaw () (octets "http://")
  | .https => .each emitRaw () (octets "https://")
  | .other => fun b => (.success, b)

/-- The assertions of `formatHost` and `formatPort`. -/
def hasHost (uri : HttpRequestUri) : Bool :=
  uri.host.any (fun host => cstr host ≠ []) && (uri.type = .http || uri.type = .https)

def formatHost (uri : HttpRequestUri) : Writer :=
  if hasHost uri then .each emitRaw () (cstr (uri.host.getD []))
  else fun b => (.assertFailed, b)

/-- The port that a scheme has by default. -/
def isDefaultPort (uri : HttpRequestUri) : Bool :=
  uri.port < 0 || (uri.type = .http && uri.port = 80) || (uri.type = .https && uri.port = 443)

def formatPort (uri : HttpRequestUri) : Writer :=
  if !hasHost uri || 65536 ≤ uri.port then fun b => (.assertFailed, b)
  else if isDefaultPort uri then fun b => (.success, b)
  else
    Writer.andThen (.literal (octets ":")) (.orRollback (FormatInteger uri.port.toNat 10))

/-- What an absolute path may hold unescaped. -/
def isPath (c : Octet) : Bool := isPchar c || c = octet '/' || c = octet ';'

def formatAbsPath (uri : HttpRequestUri) : Writer :=
  let absPath := cstr (uri.absPath.getD (octets "/"))
  let path : Writer := .each (emitEscaped isPath) () absPath
  if absPath.head? = some (octet '/') then path else Writer.andThen (.literal (octets "/")) path

/-- `formatQuery` and `formatFragment` differ in the octet in front only. -/
def formatUric (introducer : Octet) (component : Option (List Octet)) : Writer :=
  match cstr (component.getD []) with
  | [] => fun b => (.success, b)
  | c :: rest => Writer.andThen (.literal [introducer]) (.each (emitEscaped isUric) () (c :: rest))

def formatQuery (uri : HttpRequestUri) : Writer := formatUric (octet '?') uri.query

def formatFragment (uri : HttpRequestUri) : Writer := formatUric (octet '#') uri.fragment

/-- The URI of another scheme is kept and written as it is. -/
def formatNonHttpUri (uri : HttpRequestUri) : Writer :=
  if uri.type ≠ .other then fun b => (.assertFailed, b)
  else
    match cstr (uri.other.getD []) with
    | [] => .Rollback .invalidArgument
    | c :: rest => .each emitRaw () (c :: rest)

/-! ## URIs -/

/-- The stage in which the format of a URI begins. -/
def firstStage (uri : HttpRequestUri) : UriFormatStage :=
  match uri.type with
  | .asterisk => .asterisk
  | .other => .nonHttpUri
  | _ => if uri.host.any (fun host => cstr host ≠ []) then .scheme else .absPath

section stages

variable (uri : HttpRequestUri)

def fromFragment : Formatter UriFormatStage :=
  .element (formatFragment uri) .formatComplete .complete

def fromQuery : Formatter UriFormatStage := .element (formatQuery uri) .fragment (fromFragment uri)

def fromAbsPath : Formatter UriFormatStage := .element (formatAbsPath uri) .query (fromQuery uri)

def fromPort : Formatter UriFormatStage := .element (formatPort uri) .absPath (fromAbsPath uri)

def fromHost : Formatter UriFormatStage := .element (formatHost uri) .port (fromPort uri)

def fromScheme : Formatter UriFormatStage := .element (formatScheme uri) .host (fromHost uri)

/-- `HttpRequestUriFormatter::format` once it has begun. -/
def formatFrom : Formatter UriFormatStage := fun s =>
  match s with
  | .asterisk => Formatter.element formatAsterisk .formatComplete .complete s
  | .nonHttpUri => Formatter.element (formatNonHttpUri uri) .formatComplete .complete s
  | .scheme => fromScheme uri s
  | .host => fromHost uri s
  | .port => fromPort uri s
  | .absPath => fromAbsPath uri s
  | .query => fromQuery uri s
  | .fragment => fromFragment uri s
  | .initial | .formatComplete => fun b => ⟨.invalidState, s, b.writeReset⟩

/-- `HttpRequestUriFormatter::format`. -/
def format : Formatter UriFormatStage := fun s =>
  match s with
  | .formatComplete => fun b => ⟨.invalidState, s, b⟩
  | .initial => Formatter.start (formatFrom uri) (firstStage uri) s
  | _ => formatFrom uri s

end stages

end HttpRequestUriFormatter

inductive RequestFormatStage where
  | initial
  | method
  | requestUri
  | httpVersion
  | formatComplete
  deriving DecidableEq, Repr

/-- The request line formatter and the URI formatter it holds. -/
structure RequestLineFormat where
  stage : RequestFormatStage := .initial
  uri : UriFormatStage := .initial
  deriving DecidableEq, Repr

namespace HttpRequestFormatter

/-! ## Request lines -/

/-- `formatMethod`; a missing method is refused without rolling back. -/
def formatMethod (request : HttpRequest) : Writer :=
  match cstr (request.startLine.method.getD []) with
  | [] => fun b => (.badRequestMethod, b)
  | c :: rest => Writer.andThen (.each (emitToken .badRequestMethod) () (c :: rest)) (.literal [SP])

section stages

variable (request : HttpRequest)

def fromVersion : Formatter RequestLineFormat := fun s =>
  Formatter.element (HttpMessageFormatter.formatVersion request.httpVersion true)
    { s with stage := .formatComplete } Formatter.complete s

def fromUri : Formatter RequestLineFormat :=
  .part (HttpRequestUriFormatter.format request.startLine.requestUri) RequestLineFormat.uri
    (fun s uri => { s with uri }) (fun s => { s with stage := .httpVersion }) (fromVersion request)

def fromMethod : Formatter RequestLineFormat := fun s =>
  Formatter.element (formatMethod request) { s with stage := .requestUri } (fromUri request) s

/-- `HttpRequestFormatter::formatStartLine`. -/
def formatStartLine : Formatter RequestLineFormat := fun s =>
  match s.stage with
  | .formatComplete => fun b => ⟨.invalidState, s, b⟩
  | .initial => fun b => fromMethod request { s with stage := .method } b.writeMark
  | .method => fromMethod request s
  | .requestUri => fromUri request s
  | .httpVersion => fromVersion request s

end stages

/-- A fresh `HttpRequestFormatter`. -/
def fresh : HttpMessageFormatter RequestLineFormat := { sub := {} }

/-- `formatHeaders` of an `HttpRequestFormatter`. -/
def formatHeaders (request : HttpRequest) : Formatter (HttpMessageFormatter RequestLineFormat) :=
  HttpMessageFormatter.formatHeaders (formatStartLine request) request

end HttpRequestFormatter

end Everscale
