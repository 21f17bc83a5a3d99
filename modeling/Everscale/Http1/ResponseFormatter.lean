/-
# Everscale.Http1.ResponseFormatter -- status lines

`HttpResponseFormatter` (`ESHttpResponseFormatter.cpp`).
-/
import Everscale.Http1.MessageFormatter

namespace Everscale

set_option autoImplicit false

open HttpUtil

inductive ResponseFormatStage where
  | initial
  | version
  | statusCode
  | reasonPhrase
  | formatComplete
  deriving DecidableEq, Repr

namespace HttpResponseFormatter

/-- `formatStatusCode`: three digits and a space. -/
def formatStatusCode (response : HttpResponse) : Writer :=
  let statusCode := response.startLine.statusCode
  if statusCode < 100 ∨ 999 < statusCode then .Rollback .badStatusCode
  else
    Writer.andThen (.room 4)
      (Writer.andThen (.orRollback (FormatInteger statusCode 10)) (.literal [SP]))

/-- One octet of `formatReasonPhrase`. -/
def emitReasonPhrase (_ : Unit) (c : Octet) : Except Error (List Octet × Unit) :=
  if c = LF ∨ c = CR then .error .badReasonPhrase
  else if isText c then .ok ([c], ())
  else .error .badReasonPhrase

def formatReasonPhrase (response : HttpResponse) : Writer :=
  match cstr (response.startLine.reasonPhrase.getD []) with
  | [] => .Rollback .badReasonPhrase
  | c :: rest => Writer.andThen (.each emitReasonPhrase () (c :: rest)) (.literal CRLF)

section stages

variable (response : HttpResponse)

def fromReasonPhrase : Formatter ResponseFormatStage :=
  .element (formatReasonPhrase response) .formatComplete .complete

def fromStatusCode : Formatter ResponseFormatStage :=
  .element (formatStatusCode response) .reasonPhrase (fromReasonPhrase response)

def fromVersion : Formatter ResponseFormatStage :=
  .element (HttpMessageFormatter.formatVersion response.httpVersion false) .statusCode
    (fromStatusCode response)

/-- `HttpResponseFormatter::formatStartLine`. -/
def formatStartLine : Formatter ResponseFormatStage := fun s =>
  match s with
  | .formatComplete => fun b => ⟨.invalidState, s, b⟩
  | .initial => fun b => fromVersion response .version b.writeMark
  | .version => fromVersion response s
  | .statusCode => fromStatusCode response s
  | .reasonPhrase => fromReasonPhrase response s

end stages

/-- A fresh `HttpResponseFormatter`. -/
def fresh : HttpMessageFormatter ResponseFormatStage := { sub := .initial }

/-- `formatHeaders` of an `HttpResponseFormatter`. -/
def formatHeaders (response : HttpResponse) :
    Formatter (HttpMessageFormatter ResponseFormatStage) :=
  HttpMessageFormatter.formatHeaders (formatStartLine response) response

end HttpResponseFormatter

end Everscale
