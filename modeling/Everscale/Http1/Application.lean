/-
# Everscale.Http1.Application -- an arbitrary application

An application can do anything in a callback that the interface of the streams allows.  In
one run all it does is a list of calls for every callback and the answer it gives, so an
arbitrary application is one that follows scripts: `Callback` by `Callback`, the next script
of the world's list.  Quantifying over the supplied scripts quantifies over applications.

`consumeRequestBody` and `consumeResponseBody` take no more than they are offered, as
`ESHttpServerHandler.h` and `ESHttpClientHandler.h` ask of them.
-/
import Everscale.Http1.Multiplexer

namespace Everscale

set_option autoImplicit false

/-- The next script for a callback; one that does nothing when none is left. -/
def nextScript (callback : Callback) : Program Script := fun w =>
  match w.scripts callback with
  | [] => ({}, w)
  | script :: rest => (script, { w with scripts := Function.update w.scripts callback rest })

/-- `createClientTransaction`; null when there is no memory. -/
def createClientTransaction : Program (Option HttpClientTransaction) := do
  match ← ask with
  | .success =>
      let w ← get
      set { w with clientTransactions := w.clientTransactions + 1 }
      return some (HttpClientTransaction.fresh w.clientTransactions w.parseBufferSize)
  | _ => return none

section scripts

variable (streams : Streams)

/-- A transaction of the application's own; it has it back when it cannot be executed. -/
def execute (peerAddress : Nat) (request : HttpRequest) : Program Unit := do
  match ← createClientTransaction with
  | none => return ()
  | some transaction =>
      let error ← streams.executeClientTransaction { transaction with peerAddress, request }
      if error ≠ .success then HttpClientSocket.destroyClientTransaction transaction.id

/-- One call. -/
def perform : ApplicationCall → Program Unit
  | .pauseRecv update => discard (HttpServerSocket.pauseRecv update)
  | .pauseSend update => discard (HttpServerSocket.pauseSend update)
  | .resumeRecv update => discard (HttpServerSocket.resumeRecv update)
  | .resumeSend update => discard (HttpServerSocket.resumeSend update)
  | .abort update => discard (streams.abortServer update)
  | .sendEmptyResponse statusCode reasonPhrase =>
      discard (streams.sendEmptyResponse statusCode reasonPhrase)
  | .sendResponse response => discard (streams.sendResponse response)
  | .sendResponseBody chunk => discard (streams.sendResponseBody chunk)
  | .requestBodyAvailable => discard streams.requestBodyAvailable
  | .readRequestBody bytesRequested => discard (streams.readRequestBody bytesRequested)
  | .clientPauseRecv id update => discard (HttpClientSocket.pauseRecv id update)
  | .clientPauseSend id update => discard (HttpClientSocket.pauseSend id update)
  | .clientResumeRecv id update => discard (HttpClientSocket.resumeRecv id update)
  | .clientResumeSend id update => discard (HttpClientSocket.resumeSend id update)
  | .clientAbort id update => discard (streams.abortClient id update)
  | .responseBodyAvailable id => discard (streams.responseBodyAvailable id)
  | .readResponseBody id bytesRequested => discard (streams.readResponseBody id bytesRequested)
  | .sendRequestBody id chunk => discard (streams.sendRequestBody id chunk)
  | .execute peerAddress request => execute streams peerAddress request

def performAll : List ApplicationCall → Program Unit
  | [] => return ()
  | call :: rest => do
      perform streams call
      performAll rest

/-- The next script for a callback is followed. -/
def follow (callback : Callback) : Program Script := do
  let script ← nextScript callback
  performAll streams script.calls
  return script

def answer (callback : Callback) : Program Error := do
  return (← follow streams callback).result

def offer (callback : Callback) : Program (Error × Nat × Unit) := do
  let script ← follow streams callback
  return (script.result, script.size, ())

def produce (callback : Callback) (bytesRequested : Nat) : Program (Error × List Octet × Unit) := do
  let script ← follow streams callback
  return (script.result, script.body.take bytesRequested, ())

def consume (callback : Callback) (body : List Octet) : Program (Error × Nat × Unit) := do
  let script ← follow streams callback
  return (script.result, min script.size body.length, ())

/-- The application that follows the scripts. -/
def scripted : Handlers where
  server :=
    { beginTransaction := answer streams .serverBeginTransaction
      receiveRequestHeaders := answer streams .receiveRequestHeaders
      endTransaction _ := discard (follow streams .serverEndTransaction) }
  serverBody :=
    { consumeRequestBody _ := consume streams .consumeRequestBody
      offerResponseBody _ := offer streams .offerResponseBody
      produceResponseBody _ := produce streams .produceResponseBody }
  client :=
    { beginTransaction _ := answer streams .clientBeginTransaction
      receiveResponseHeaders _ := answer streams .receiveResponseHeaders
      endRequest _ := answer streams .endRequest
      endTransaction _ _ := discard (follow streams .clientEndTransaction) }
  clientBody :=
    { offerRequestBody _ _ := offer streams .offerRequestBody
      produceRequestBody _ _ := produce streams .produceRequestBody
      consumeResponseBody _ _ := consume streams .consumeResponseBody }

end scripts

/-- What happens with an application: an event, or a call it makes on its own account. -/
inductive ApplicationEvent where
  | event (event : Event)
  | call (depth : Nat) (call : ApplicationCall)

def ApplicationEvent.happen : ApplicationEvent → Program Unit
  | .event e => Event.happen scripted e
  | .call depth c => perform (streams scripted depth) c

/-- The world after the events, for the application that follows the scripts. -/
def World.runScripted (w : World) (events : List ApplicationEvent) : World :=
  events.foldl (fun w event => (ApplicationEvent.happen event w).2) w

end Everscale
