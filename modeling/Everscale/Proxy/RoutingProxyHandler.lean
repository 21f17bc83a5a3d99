/-
# Everscale.Proxy.RoutingProxyHandler -- the proxy between the two streams

`HttpRoutingProxyHandler` (`ESHttpRoutingProxyHandler.cpp`), callback by callback.  It pairs
the server stream with a client stream through an `HttpRoutingProxyContext` and moves body
octets both ways, pausing whichever side cannot go on.

A callback reaches its context through the pointer its transaction holds.  The memory behind
the pointer may have been given to a later context, or to none; `context` reads what is
there, and every access through a pointer that is not the live one is recorded.

The byte counters of the context feed the log only and are left out.
-/
import Everscale.Http1.Application

namespace Everscale

set_option autoImplicit false

namespace HttpRoutingProxyHandler

/-! ## The context -/

/-- The context pointer of the server stream; null without a transaction. -/
def serverContext (w : World) : Option ContextPointer :=
  w.server.transaction.bind fun transaction => transaction.context

/-- The context pointer of a client stream. -/
def clientContext (id : Nat) (w : World) : Option ContextPointer :=
  (w.clients id).transaction.bind fun transaction => transaction.context

/-- `setContext` on the server stream. -/
def setServerContext (pointer : Option ContextPointer) : Program Unit :=
  modifyServer fun s => { s with
    transaction := s.transaction.map fun transaction => { transaction with context := pointer } }

/-- `setContext` on a client stream. -/
def setClientContext (id : Nat) (pointer : Option ContextPointer) : Program Unit :=
  modifyClient id fun s => { s with
    transaction := s.transaction.map fun transaction => { transaction with context := pointer } }

/-- An access through a pointer. -/
def touch (pointer : ContextPointer) : Program Unit := modify fun w =>
  if w.liveContext = some pointer then w else { w with misuses := w.misuses ++ [pointer] }

def read (pointer : ContextPointer) : Program HttpRoutingProxyContext := do
  touch pointer
  return (← get).context

def write (pointer : ContextPointer) (f : HttpRoutingProxyContext → HttpRoutingProxyContext) :
    Program Unit := do
  touch pointer
  modify fun w => { w with context := f w.context }

/-- The constructor, in the memory of the server transaction. -/
def construct : Program Unit := do
  modify fun w => { w with
    context := { serverStream := true }
    contexts := w.contexts + 1
    liveContext := some w.contexts }
  setServerContext (some ((← get).contexts - 1))

/-- The destructor and `deallocate`. -/
def destroy (pointer : ContextPointer) : Program Unit := do
  touch pointer
  modify fun w => { w with
    destroyed := w.destroyed ++ [pointer]
    liveContext := if w.liveContext = some pointer then none else w.liveContext }

/-- The context behind the server stream's pointer, when it has one. -/
def contextOfServer : Program (Option HttpRoutingProxyContext) := do
  match serverContext (← get) with
  | none => return none
  | some pointer => return some (← read pointer)

/-- The context behind a client stream's pointer, when it has one. -/
def contextOfClient (id : Nat) : Program (Option HttpRoutingProxyContext) := do
  match clientContext id (← get) with
  | none => return none
  | some pointer => return some (← read pointer)

/-! ## Back-pressure -/

/-- Resume the side that cannot go on by itself, pause the one that feeds it. -/
def blocked (resume pause : Program Error) : Program Error := resume.andThen pause

def onClientRecvBlocked (id : Nat) : Program Error :=
  blocked (HttpClientSocket.resumeRecv id true) (HttpServerSocket.pauseSend true)

def onServerRecvBlocked (id : Nat) : Program Error :=
  blocked (HttpServerSocket.resumeRecv true) (HttpClientSocket.pauseSend id true)

def onClientSendBlocked (id : Nat) : Program Error :=
  blocked (HttpClientSocket.resumeSend id true) (HttpServerSocket.pauseRecv true)

def onServerSendBlocked (id : Nat) : Program Error :=
  blocked (HttpServerSocket.resumeSend true) (HttpClientSocket.pauseRecv id true)

/-- What a callback returns when a stream has blocked: its own code when the back-pressure
could be set up. -/
def whenBlocked (setUp : Program Error) (code : Error) : Program Error := do
  match ← setUp with
  | .success => return code
  | error => return HttpClientSocket.notAgain error

section callbacks

variable (streams : Streams)

/-! ## The server stream's callbacks -/

def beginServerTransaction : Program Error := do
  match ← ask with
  | .success =>
      if (← get).server.transaction.isNone then return .nullDereference
      else
        construct
        return .success
  | _ => return .outOfMemory

/-- The next answer of the router. -/
def route : Program (Error × Nat) := fun w =>
  match w.routes with
  | [] => ((.success, 0), w)
  | next :: rest => (next, { w with routes := rest })

/-- `clientTransaction->request().copy(&serverStream.request(), ...)`. -/
def copyRequest (transaction : HttpClientTransaction) :
    Program (Except Error HttpClientTransaction) := do
  match ← ask with
  | .success =>
      match (← get).server.transaction with
      | none => return .error .nullDereference
      | some own =>
          return .ok { transaction with request := HttpRequest.copy transaction.request own.request }
  | error => return .error error

/-- The response to a request that cannot be routed. -/
def refuse (error : Error) : Program Error :=
  match error with
  | .cannotFind => streams.sendEmptyResponse 404 "Not Found"
  | .notOwner => streams.sendEmptyResponse 403 "Forbidden"
  | _ => streams.sendEmptyResponse 500 "Internal Server Error"

/-- The end of `receiveRequestHeaders`: the transaction is executed for the server stream. -/
def connect (transaction : HttpClientTransaction) (destination : Nat) : Program Error := do
  match ← (HttpServerSocket.pauseRecv false).andThen (HttpServerSocket.pauseSend true) with
  | .success =>
      let context := serverContext (← get)
      match ← streams.executeClientTransaction
          { transaction with peerAddress := destination, context } with
      | .success => return .pause
      | _ =>
          HttpClientSocket.destroyClientTransaction transaction.id
          streams.sendEmptyResponse 500 "Internal Server Error"
  | error =>
      HttpClientSocket.destroyClientTransaction transaction.id
      return error

/-- The transaction is not released when the router refuses. -/
def receiveRequestHeaders : Program Error := do
  match ← contextOfServer with
  | none => return .invalidState
  | some context =>
      if !context.serverStream then return .invalidState
      else
        match ← createClientTransaction with
        | none => streams.sendEmptyResponse 500 "Internal Server Error"
        | some transaction =>
            match ← copyRequest transaction with
            | .ok transaction =>
                match ← route with
                | (.success, destination) => connect streams transaction destination
                | (error, _) => refuse streams error
            | .error .invalidField =>
                HttpClientSocket.destroyClientTransaction transaction.id
                streams.sendEmptyResponse 400 "Bad Request"
            | .error _ =>
                HttpClientSocket.destroyClientTransaction transaction.id
                streams.sendEmptyResponse 500 "Internal Server Error"

def consumeRequestBody (body : List Octet) : Program (Error × Nat × Unit) := do
  match (← contextOfServer) with
  | some { clientStream := some id, receivedOutboundResponse := false, .. } =>
      return (← whenBlocked (onClientSendBlocked id) .again, 0, ())
  | some { clientStream := some id, receivedOutboundResponse := true, .. } =>
      let (error, bytesConsumed) ← streams.sendRequestBody id body
      match error with
      | .pause => return (← whenBlocked (onServerRecvBlocked id) .pause, bytesConsumed, ())
      | .again => return (← whenBlocked (onClientSendBlocked id) .again, bytesConsumed, ())
      | error => return (error, bytesConsumed, ())
  | _ => return (.invalidState, 0, ())

def offerResponseBody : Program (Error × Nat × Unit) := do
  match (← contextOfServer) with
  | some { clientStream := some id, .. } =>
      let (error, bytesAvailable) ← streams.responseBodyAvailable id
      match error with
      | .pause => return (← whenBlocked (onServerSendBlocked id) .pause, bytesAvailable, ())
      | .again => return (← whenBlocked (onClientRecvBlocked id) .again, bytesAvailable, ())
      | error => return (error, bytesAvailable, ())
  | _ => return (.invalidState, 0, ())

/-- A stream that has blocked does not show in the code: `error` is overwritten. -/
def produceResponseBody (bytesRequested : Nat) : Program (Error × List Octet × Unit) := do
  if bytesRequested = 0 then return (.invalidArgument, [], ())
  else
    match (← contextOfServer) with
    | some { clientStream := some id, .. } =>
        let (error, body) ← streams.readResponseBody id bytesRequested
        match error with
        | .pause => return (← whenBlocked (onServerSendBlocked id) .success, body, ())
        | .again => return (← whenBlocked (onClientRecvBlocked id) .success, body, ())
        | error => return (error, body, ())
    | _ => return (.invalidState, [], ())

/-- The server stream lets go of the context, and aborts a client stream that is still there
unless the transaction has succeeded. -/
def endServerTransaction (state : ServerHandlerState) : Program Unit := do
  match serverContext (← get) with
  | none => return ()
  | some pointer =>
      write pointer fun context => { context with serverStream := false }
      setServerContext none
      if state ≠ .end then
        match (← read pointer).clientStream with
        | some id =>
            discard (streams.abortClient id true)
            write pointer fun context => { context with clientStream := none }
        | none => pure ()
      match (← read pointer).clientStream with
      | some id => if (clientContext id (← get)).isNone then destroy pointer
      | none => destroy pointer

/-! ## A client stream's callbacks -/

def beginClientTransaction (id : Nat) : Program Error := do
  match clientContext id (← get) with
  | none => return .invalidState
  | some pointer =>
      if !(← read pointer).serverStream then return .invalidState
      else
        write pointer fun context => { context with clientStream := some id }
        return .success

/-- The server stream is made ready for the next request. -/
def prepareForReuse : Program Error := do
  match ← (HttpServerSocket.resumeRecv false).andThen (HttpServerSocket.pauseSend true) with
  | .success => return .success
  | error => return HttpClientSocket.notAgain error

def receiveResponseHeaders (id : Nat) : Program Error := do
  match clientContext id (← get) with
  | none => return .invalidState
  | some pointer =>
      let context ← read pointer
      if !context.serverStream || context.clientStream.isNone then return .invalidState
      else
        write pointer fun context => { context with receivedOutboundResponse := true }
        match ← HttpServerSocket.resumeRecv true with
        | .success =>
            match ((← get).clients id).transaction with
            | none => return .nullDereference
            | some transaction =>
                match ← streams.sendResponse transaction.response with
                | .success =>
                    match ← prepareForReuse with
                    | .success =>
                        return if 300 ≤ transaction.response.startLine.statusCode then .closed
                          else .success
                    | error => return error
                | .pause => whenBlocked (onClientRecvBlocked id) .pause
                | .again => whenBlocked (onServerSendBlocked id) .again
                | error => return error
        | error => return error

def offerRequestBody (id : Nat) : Program (Error × Nat × Unit) := do
  match (← contextOfClient id) with
  | some { serverStream := true, .. } =>
      let (error, bytesAvailable) ← streams.requestBodyAvailable
      match error with
      | .pause => return (← whenBlocked (onClientSendBlocked id) .pause, bytesAvailable, ())
      | .again => return (← whenBlocked (onServerRecvBlocked id) .again, bytesAvailable, ())
      | error => return (error, bytesAvailable, ())
  | _ => return (.invalidState, 0, ())

/-- As `produceResponseBody`. -/
def produceRequestBody (id bytesRequested : Nat) : Program (Error × List Octet × Unit) := do
  if bytesRequested = 0 then return (.invalidArgument, [], ())
  else
    match (← contextOfClient id) with
    | some { serverStream := true, .. } =>
        let (error, body) ← streams.readRequestBody bytesRequested
        match error with
        | .pause => return (← whenBlocked (onClientSendBlocked id) .success, body, ())
        | .again => return (← whenBlocked (onServerRecvBlocked id) .success, body, ())
        | error => return (error, body, ())
    | _ => return (.invalidState, [], ())

/-- After the last chunk the server stream is made ready for the next request, whatever
comes of it. -/
def consumeResponseBody (id : Nat) (body : List Octet) : Program (Error × Nat × Unit) := do
  match (← contextOfClient id) with
  | some { serverStream := true, .. } =>
      let (error, bytesConsumed) ← streams.sendResponseBody body
      match error with
      | .success =>
          if body = [] then
            discard (HttpServerSocket.resumeRecv false)
            discard (HttpServerSocket.pauseSend true)
          return (.success, bytesConsumed, ())
      | .pause => return (← whenBlocked (onClientRecvBlocked id) .pause, bytesConsumed, ())
      | .again => return (← whenBlocked (onServerSendBlocked id) .again, bytesConsumed, ())
      | error => return (error, bytesConsumed, ())
  | _ => return (.invalidState, 0, ())

def endRequest (_ : Nat) : Program Error := return .success

/-- The mirror image of `endServerTransaction`. -/
def endClientTransaction (id : Nat) (state : ClientHandlerState) : Program Unit := do
  match clientContext id (← get) with
  | none => return ()
  | some pointer =>
      write pointer fun context => { context with clientStream := none }
      setClientContext id none
      if state ≠ .end then
        if (← read pointer).serverStream then
          discard (streams.abortServer true)
          write pointer fun context => { context with serverStream := false }
      if (← read pointer).serverStream then
        if (serverContext (← get)).isNone then destroy pointer
      else destroy pointer

end callbacks

end HttpRoutingProxyHandler

open HttpRoutingProxyHandler in
/-- The callbacks of the proxy. -/
def proxy (streams : Streams) : Handlers where
  server :=
    { beginTransaction := beginServerTransaction
      receiveRequestHeaders := receiveRequestHeaders streams
      endTransaction := endServerTransaction streams }
  serverBody :=
    { consumeRequestBody _ := consumeRequestBody streams
      offerResponseBody _ := offerResponseBody streams
      produceResponseBody _ := produceResponseBody streams }
  client :=
    { beginTransaction := beginClientTransaction
      receiveResponseHeaders := receiveResponseHeaders streams
      endRequest := endRequest
      endTransaction := endClientTransaction streams }
  clientBody :=
    { offerRequestBody id _ := offerRequestBody streams id
      produceRequestBody id _ := produceRequestBody streams id
      consumeResponseBody id _ := consumeResponseBody streams id }

end Everscale
