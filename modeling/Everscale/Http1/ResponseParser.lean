/-
# Everscale.Http1.ResponseParser -- status lines

`HttpResponseParser` (`ESHttpResponseParser.cpp`).  The reason phrase is read by the
loop that reads field values, with a narrower class of content.
-/
import Everscale.Http1.MessageParser

namespace Everscale

set_option autoImplicit false

open Theory HttpUtil

inductive ResponseStage where
  | initial
  | version
  | statusCode
  | reasonPhrase
  | parseComplete
  deriving DecidableEq, Repr

/-- The status line parser. -/
abbrev StatusLineParse := StartLineParse ResponseStage StatusLine

namespace HttpResponseParser

/-- `parseStatusCode`: three digits and a space. -/
def parseStatusCode : Reader (Scratch StatusLine) := fun s b =>
  let b := SkipSpaces b
  if b.readable < 4 then ⟨.again, s, b⟩
  else
    let c0 := b.peekNext
    let b := b.skipNext
    if !isDigit c0 then ⟨.badStatusCode, s, b⟩
    else
      let c1 := b.peekNext
      let b := b.skipNext
      if !isDigit c1 then ⟨.badStatusCode, s, b⟩
      else
        let c2 := b.peekNext
        let b := b.skipNext
        if !isDigit c2 then ⟨.badStatusCode, s, b⟩
        else if !isSpace b.peekNext then ⟨.badStatusCode, s, b.skipNext⟩
        else
          let statusCode := ((c0.toNat - 48) * 10 + (c1.toNat - 48)) * 10 + (c2.toNat - 48)
          ⟨.success,
            { s with message := { s.message with
                startLine := { s.message.startLine with statusCode } } },
            b.skipNext⟩

def saveReasonPhrase (s : Scratch StatusLine) : Error × Scratch StatusLine :=
  (.success,
    { s with message := { s.message with
        startLine := { s.message.startLine with reasonPhrase := some s.working.duplicate } } })

def parseReasonPhrase : Reader (Scratch StatusLine) := fun s b =>
  HttpMessageParser.foldedText isText saveReasonPhrase .badReasonPhrase b.readable s b

def onScratch (f : Reader (Scratch StatusLine)) : Reader StatusLineParse :=
  f.on (·.toScratch) fun s scratch => { s with toScratch := scratch }

def enter (responseState : ResponseStage) (s : StatusLineParse) : StatusLineParse :=
  { s with sub := responseState, working := s.working.clear }

def finished : Reader StatusLineParse := fun s b => ⟨.success, s, b⟩

def lineFromReasonPhrase : Reader StatusLineParse := fun s b =>
  if s.sub = .reasonPhrase then
    Reader.stage (onScratch parseReasonPhrase) (enter .parseComplete) finished s b
  else ⟨.invalidState, s, b⟩

def lineFromStatusCode : Reader StatusLineParse := fun s b =>
  if s.sub = .statusCode then
    Reader.stage (onScratch parseStatusCode) (enter .reasonPhrase) lineFromReasonPhrase s b
  else lineFromReasonPhrase s b

def lineFromVersion : Reader StatusLineParse := fun s b =>
  if s.sub = .version then
    Reader.stage (onScratch (HttpMessageParser.parseVersion true)) (enter .statusCode)
      lineFromStatusCode s b
  else lineFromStatusCode s b

def parseStartLine : Reader StatusLineParse := fun s b =>
  if s.sub = .parseComplete then ⟨.invalidState, s, b⟩
  else if s.sub = .initial then lineFromVersion (enter .version s) b.readMark
  else lineFromVersion s b

/-- Every status from 200 on is taken to have no body of its own accord. -/
def isBodyNotAllowed (response : HttpResponse) : Bool :=
  let statusCode := response.startLine.statusCode
  statusCode = 204 || statusCode = 304 || 200 ≤ statusCode

def methods : StartLineMethods ResponseStage StatusLine := { parseStartLine, isBodyNotAllowed }

end HttpResponseParser

/-- `HttpResponseParser` with the response it fills. -/
abbrev HttpResponseParser := HttpMessageParser ResponseStage StatusLine

namespace HttpResponseParser

/-- A fresh parser and a fresh response, over a working buffer. -/
def fresh (working : Buffer) : HttpResponseParser :=
  { working, message := HttpResponse.fresh, sub := .initial }

/-- `HttpMessageParser::parseHeaders` of a response parser. -/
def parseHeaders : Reader HttpResponseParser := HttpMessageParser.parseHeaders methods

end HttpResponseParser

end Everscale
