/-
# Everscale.Http1.ServerSocket -- the state machine of a server connection

`HttpServerSocket` (`ESHttpServerSocket.cpp`), function by function.  The callbacks of
the application come in two parts.  `HttpServerHandler` holds those that always go to
the socket's own handler; `HttpServerBodyHandler` holds those that go to the handler
`advanceStateMachine` is given, which may be one of the two adaptors for bodies passed
in directly, with a state of its own.

Every loop of the state machine asks `_multiplexer.shutdown()` before each turn.  That
is another thread's decision; here it is the number of turns after which the answer is
yes.  An `assert` whose failure the code goes on to handle is left out, as it is in a
release build.
-/
import Everscale.Http1.Sockets

namespace Everscale

set_option autoImplicit false

/-! ## Handlers -/

/-- `HttpServerHandler::State`. -/
inductive ServerHandlerState where
  | begin
  | recvRequestHeaders
  | recvRequestBody
  | sendResponseHeaders
  | sendResponseBody
  | end
  deriving DecidableEq, Repr

structure HttpServerHandler where
  beginTransaction : Program Error
  receiveRequestHeaders : Program Error
  endTransaction : ServerHandlerState → Program Unit

/-- The callbacks for bodies.  Consuming returns how many octets were taken; producing
returns the octets put into the send buffer. -/
structure HttpServerBodyHandler (τ : Type) where
  consumeRequestBody : τ → List Octet → Program (Error × Nat × τ)
  offerResponseBody : τ → Program (Error × Nat × τ)
  produceResponseBody : τ → Nat → Program (Error × List Octet × τ)

/-- `HttpResponseBodyProducer`: what is left of the buffer that was passed in; `size` is
the size of the whole. -/
structure HttpResponseBodyProducer where
  buffer : List Octet
  size : Nat
  deriving DecidableEq, Repr

/-- The callbacks of `HttpResponseBodyProducer`; it consumes nothing. -/
def responseBodyProducer : HttpServerBodyHandler HttpResponseBodyProducer where
  consumeRequestBody p _ := return (.operationNotSupported, 0, p)
  offerResponseBody p :=
    if p.size = 0 then return (.success, 0, p)
    else return (if p.buffer = [] then .breakLoop else .success, p.buffer.length, p)
  produceResponseBody p bytesRequested :=
    if p.buffer.length < bytesRequested then return (.invalidArgument, [], p)
    else return (.success, p.buffer.take bytesRequested,
      { p with buffer := p.buffer.drop bytesRequested })

/-- `HttpRequestBodyConsumer`: how much it may still take, what it has taken, and what it
was offered last. -/
structure HttpRequestBodyConsumer where
  room : Nat
  consumed : List Octet := []
  bytesOffered : Nat := 0
  deriving DecidableEq, Repr

/-- The callbacks of `HttpRequestBodyConsumer`; it produces nothing. -/
def requestBodyConsumer : HttpServerBodyHandler HttpRequestBodyConsumer where
  consumeRequestBody c body :=
    let c := { c with bytesOffered := body.length }
    let bytesToCopy := min c.room body.length
    if body = [] then return (.success, 0, c)
    else if bytesToCopy = 0 then return (.breakLoop, 0, c)
    else return (.success, bytesToCopy,
      { c with room := c.room - bytesToCopy, consumed := c.consumed ++ body.take bytesToCopy })
  offerResponseBody c := return (.operationNotSupported, 0, c)
  produceResponseBody c _ := return (.operationNotSupported, [], c)

namespace HttpServerSocket

/-! ## State and flags -/

def addFlag (flag : StateBits) (s : HttpServerSocket) : HttpServerSocket :=
  { s with state := s.state ||| flag }

def clearFlag (flag : StateBits) (s : HttpServerSocket) : HttpServerSocket :=
  { s with state := s.state &&& ~~~flag }

/-- The cases of `stateTransition`. -/
def states : List StateBits :=
  [SERVER_INACTIVE, SERVER_TRANSACTION_BEGIN, SERVER_PARSING_HEADERS, SERVER_PARSING_BODY,
    SERVER_SKIPPING_TRAILER, SERVER_FORMATTING_HEADERS, SERVER_FORMATTING_BODY,
    SERVER_FLUSHING_BODY, SERVER_TRANSACTION_END]

/-- `stateTransition`; the transition to the next transaction clears the flags too. -/
def stateTransition (target : StateBits) (s : HttpServerSocket) : HttpServerSocket :=
  let cleared := s.state &&& ~~~SERVER_STATE_MASK
  let target := target &&& SERVER_STATE_MASK
  { s with
    state :=
      if target = SERVER_TRANSACTION_BEGIN then SERVER_TRANSACTION_BEGIN
      else if target ∈ states then cleared ||| target
      else cleared
    transitions := s.transitions ++
      [⟨s.state, target, s.socket.sent, unreadOf s.sendBuffer, s.formatted, s.released⟩] }

def conditionalStateTransition (ifState newState : StateBits) (s : HttpServerSocket) :
    HttpServerSocket :=
  if has s.state ifState then s.stateTransition newState else s

def wantRead (s : HttpServerSocket) : Bool :=
  if has s.state (SERVER_RECV_PAUSED ||| SERVER_ABORTED ||| SERVER_INACTIVE) then false
  else if s.socket.wantRead then true
  else if s.socket.wantWrite then false
  else has s.state (SERVER_TRANSACTION_BEGIN ||| SERVER_RECV_STATE_MASK)

def wantWrite (s : HttpServerSocket) : Bool :=
  if has s.state (SERVER_SEND_PAUSED ||| SERVER_ABORTED ||| SERVER_INACTIVE) then false
  else if s.socket.wantWrite then true
  else if s.socket.wantRead then false
  else has s.state SERVER_SEND_STATE_MASK

/-! ## Parsing and formatting -/

/-- The headers, with the transition behind them. -/
def parseHeaders (s : HttpServerSocket) : Error × HttpServerSocket :=
  match s.transaction, s.recvBuffer with
  | some transaction, some b =>
      let o := HttpRequestParser.parseHeaders transaction.parser b
      let s := { s with
        transaction := some { transaction with parser := o.state }
        recvBuffer := some o.input
        calls := s.calls ++ [⟨.parseHeaders, s.state, transaction.parser, b.unread, o.code⟩] }
      (o.code, if o.code = .success then s.stateTransition SERVER_PARSING_BODY else s)
  | _, _ => (.nullDereference, s)

/-- `currentChunkBytesAvailable`. -/
def currentChunkBytesAvailable (s : HttpServerSocket) : (Error × Nat) × HttpServerSocket :=
  if 0 < s.bytesAvailable then ((.success, s.bytesAvailable), s)
  else
    match s.transaction, s.recvBuffer with
    | some transaction, some b =>
        if has s.state SERVER_LAST_CHUNK_RECEIVED || !transaction.request.hasBody then
          ((.success, 0), s)
        else
          let o := transaction.parser.parseBody b
          let bytesAvailable := o.chunkSize.getD 0
          let s := { s with
            transaction := some { transaction with parser := o.state }
            recvBuffer := some o.input
            calls := s.calls ++ [⟨.parseBody, s.state, transaction.parser, b.unread, o.code⟩] }
          if o.code ≠ .success then ((o.code, 0), s)
          else if bytesAvailable = 0 then
            ((.success, 0), { s with bytesAvailable }.addFlag SERVER_LAST_CHUNK_RECEIVED)
          else ((.success, bytesAvailable), { s with bytesAvailable })
    | _, _ => ((.nullDereference, 0), s)

/-- What is there of the current chunk, with the transition behind the last one. -/
def nextChunk (s : HttpServerSocket) : (Error × Nat) × HttpServerSocket :=
  match s.currentChunkBytesAvailable with
  | ((.success, 0), s) => ((.success, 0), s.stateTransition SERVER_SKIPPING_TRAILER)
  | result => result

/-- The octets at the read position of the receive buffer. -/
def offeredBody (bytesAvailable : Nat) (s : HttpServerSocket) : List Octet :=
  match s.recvBuffer with
  | none => []
  | some b => (b.storage.drop b.readPosition).take bytesAvailable

/-- What the handler consumed is taken off the parser's and the socket's counts. -/
def consumeBody (bytesConsumed : Nat) (s : HttpServerSocket) : Error × HttpServerSocket :=
  match s.transaction, s.recvBuffer with
  | some transaction, some b =>
      let o := transaction.parser.consumeBody b bytesConsumed
      let call := ParserFunction.consumeBody bytesConsumed s.bytesAvailable
      let s := { s with
        transaction := some { transaction with parser := o.state }
        recvBuffer := some o.input
        calls := s.calls ++ [⟨call, s.state, transaction.parser, b.unread, o.code⟩] }
      if o.code ≠ .success then (o.code, s)
      else
        (.success,
          { s with
            bytesAvailable := HttpMessageParser.lessConsumed s.bytesAvailable bytesConsumed })
  | _, _ => (.nullDereference, s)

/-- `stateSkipTrailer`. -/
def stateSkipTrailer (s : HttpServerSocket) : Error × HttpServerSocket :=
  match s.transaction, s.recvBuffer with
  | some transaction, some b =>
      let o := transaction.parser.skipTrailer b
      let s := { s with
        transaction := some { transaction with parser := o.state }
        recvBuffer := some o.input
        calls := s.calls ++ [⟨.skipTrailer, s.state, transaction.parser, b.unread, o.code⟩] }
      if o.code ≠ .success then (o.code, s)
      else
        (.success,
          (s.clearFlag SERVER_CANNOT_REUSE_CONNECTION).stateTransition SERVER_FORMATTING_HEADERS)
  | _, _ => (.nullDereference, s)

def formatHeaders (s : HttpServerSocket) : Error × HttpServerSocket :=
  match s.transaction, s.sendBuffer with
  | some transaction, some b =>
      let o := HttpResponseFormatter.formatHeaders transaction.response transaction.formatter b
      let s := { s with
        transaction := some { transaction with formatter := o.state }
        sendBuffer := some o.output
        formatted := s.formatted ++ appended b o.output
        headCalls := s.headCalls ++ [⟨transaction.response, transaction.formatter, b⟩] }
      (o.code, if o.code = .success then s.stateTransition SERVER_FORMATTING_BODY else s)
  | _, _ => (.nullDereference, s)

/-- The last chunk, with the transition behind it. -/
def endBody (s : HttpServerSocket) : Error × HttpServerSocket :=
  match s.transaction, s.sendBuffer with
  | some transaction, some b =>
      let o := HttpMessageFormatter.endBody transaction.formatter b
      let s := { s with
        transaction := some { transaction with formatter := o.state }
        sendBuffer := some o.output
        formatted := s.formatted ++ appended b o.output }
      (o.code, if o.code = .success then s.stateTransition SERVER_FLUSHING_BODY else s)
  | _, _ => (.nullDereference, s)

/-- `formatStartChunk`; it returns the size granted. -/
def formatStartChunk (chunkSize : Nat) (s : HttpServerSocket) : (Error × Nat) × HttpServerSocket :=
  match s.transaction, s.sendBuffer with
  | some transaction, some b =>
      let o := HttpMessageFormatter.beginBlock chunkSize transaction.formatter b
      ((o.code, o.maxChunkSize.getD 0),
        { s with sendBuffer := some o.output, formatted := s.formatted ++ appended b o.output })
  | _, _ => ((.nullDereference, 0), s)

/-- The octets produced are in the buffer; the write position moves by `chunkSize`, and
`formatEndChunk` ends the chunk. -/
def formatEndChunk (produced : List Octet) (chunkSize : Nat) (s : HttpServerSocket) :
    Error × HttpServerSocket :=
  match s.transaction, s.sendBuffer with
  | some transaction, some b =>
      let filled := { b.fill produced with writePosition := b.writePosition }
      let (error, output) := HttpMessageFormatter.endBlock transaction.formatter
        (filled.setWritePosition (b.writePosition + chunkSize))
      (error, { s with sendBuffer := some output, formatted := s.formatted ++ appended b output })
  | _, _ => (.nullDereference, s)

/-! ## Receiving and sending -/

/-- `fillReceiveBuffer` from the point where there is a buffer and a transaction. -/
def refill (s : HttpServerSocket) : Error × HttpServerSocket :=
  match s.recvBuffer with
  | none => (.nullDereference, s)
  | some b =>
      let room := if b.isWritable then some b
        else if b.compact.1 then some b.compact.2
        else none
      match room with
      | none => (.overflow, s)
      | some b =>
          let (error, socket, b) := s.socket.receive b
          (error, { s with socket, recvBuffer := some b })

def flushSendBuffer (s : HttpServerSocket) : Error × HttpServerSocket :=
  match s.sendBuffer with
  | none => (.nullDereference, s)
  | some b =>
      let o := s.socket.flush b
      (o.code, { s with socket := o.socket, sendBuffer := some o.output })

/-- The flush at the end of a message goes on record. -/
def recordFlush (s : HttpServerSocket) : HttpServerSocket :=
  { s with
    finalFlushes :=
      s.finalFlushes ++ [⟨s.socket.sent, unreadOf s.sendBuffer, s.socket.departures⟩] }

/-- `stateFlushResponseBody`. -/
def stateFlushResponseBody (s : HttpServerSocket) : Error × HttpServerSocket :=
  match s.recordFlush.flushSendBuffer with
  | (.success, s) => (.success, s.stateTransition SERVER_TRANSACTION_END)
  | (error, s) => (error, s)

/-- What the server socket is missing is acquired. -/
def acquire (isMissing : HttpServerSocket → Bool)
    (provide : World → HttpServerSocket → HttpServerSocket) : Program Error := do
  if !isMissing (← get).server then return .success
  else
    match ← ask with
    | .success =>
        let w ← get
        modifyServer (provide w)
        return .success
    | _ => return .outOfMemory

def acquireRecvBuffer : Program Error :=
  acquire (fun s => s.recvBuffer.isNone)
    fun w s => { s with recvBuffer := some (Buffer.create w.ioBufferSize) }

def acquireSendBuffer : Program Error :=
  acquire (fun s => s.sendBuffer.isNone)
    fun w s => { s with sendBuffer := some (Buffer.create w.ioBufferSize) }

/-- `createServerTransaction` when there is no transaction yet. -/
def createTransaction : Program Error :=
  acquire (fun s => s.transaction.isNone)
    fun w s => { s with transaction := some (HttpServerTransaction.fresh w.parseBufferSize) }

def fillReceiveBuffer : Program Error :=
  acquireRecvBuffer.andThen (createTransaction.andThen (onServer refill))

/-! ## Responses of the socket's own -/

/-- `CloseAfterErrorResponse`, which nothing changes. -/
def CloseAfterErrorResponse : Bool := true

def modifyResponse (f : HttpResponse → HttpResponse) (s : HttpServerSocket) : HttpServerSocket :=
  { s with
    transaction := s.transaction.map fun transaction =>
      { transaction with response := f transaction.response } }

/-- `addHeader` on the response; nothing is added when the allocation fails. -/
def addResponseHeader (fieldName fieldValue : String) : Program Error := do
  match ← ask with
  | .success =>
      modifyServer (modifyResponse fun response =>
        response.addHeader
          { fieldName := octets fieldName, fieldValue := some (octets fieldValue) })
      return .success
  | error => return error

/-- The version says that there may be a `Connection` header, and one is called for. -/
def announcesClose (s : HttpServerSocket) : Bool :=
  s.transaction.any fun transaction =>
    110 ≤ transaction.request.httpVersion &&
      (!transaction.request.reuseConnection || CloseAfterErrorResponse)

/-- `setResponse`; it goes on when a header cannot be added. -/
def setResponse (statusCode : Nat) (reasonPhrase : String) : Program Error := do
  if (← get).server.transaction.isNone then return .nullDereference
  else
    modifyServer (modifyResponse fun response =>
      { response with
        startLine := { statusCode, reasonPhrase := some (octets reasonPhrase) }
        hasBody := false })
    let _ ← addResponseHeader "Content-Length" "0"
    if (← get).server.announcesClose then
      let _ ← addResponseHeader "Connection" "close"
    return .success

/-! ## The states -/

section states

variable {τ : Type} (handler : HttpServerHandler) (bodyHandler : HttpServerBodyHandler τ)

def stateBeginTransaction : Program Error := do
  modifyServer (addFlag SERVER_CANNOT_REUSE_CONNECTION)
  match ← handler.beginTransaction with
  | .success =>
      modifyServer (conditionalStateTransition SERVER_TRANSACTION_BEGIN SERVER_PARSING_HEADERS)
      return .success
  | .again => return .pause
  | .pause => return .pause
  | .sendResponse =>
      modifyServer (stateTransition SERVER_FORMATTING_HEADERS)
      return .success
  | error => return error

def stateReceiveRequestHeaders : Program Error := do
  match ← onServer parseHeaders with
  | .success =>
      match ← handler.receiveRequestHeaders with
      | .success => return .success
      | .pause => return .pause
      | .again => return .pause
      | .sendResponse =>
          modifyServer (conditionalStateTransition SERVER_PARSING_BODY SERVER_FORMATTING_HEADERS)
          return .success
      | error => return error
  | .again => return .again
  | error =>
      let _ ← if error.isHttpError then setResponse 400 "Bad Request"
        else setResponse 500 "Internal Server Error"
      modifyServer (stateTransition SERVER_FORMATTING_HEADERS)
      return .success

/-- What `stateReceiveRequestBody` makes of the handler's answer to the last chunk. -/
def afterLastChunk (error : Error) : Error :=
  match error with
  | .sendResponse => .success
  | .again => .pause
  | error => error

/-- The handler is told of the last chunk. -/
def offerLastChunk (t : τ) : Program (Error × τ) := do
  let (error, _, t) ← bodyHandler.consumeRequestBody t []
  return (afterLastChunk error, t)

/-- The handler is offered what is there of the chunk, and what it takes is consumed: the
codes of both. -/
def offerChunk (bytesAvailable : Nat) (t : τ) : Program (Error × Error × τ) := do
  let body := (← get).server.offeredBody bytesAvailable
  let (error, bytesConsumed, t) ← bodyHandler.consumeRequestBody t body
  if 0 < bytesConsumed then return (← onServer (consumeBody bytesConsumed), error, t)
  else return (.success, error, t)

/-- The loop of `stateReceiveRequestBody`. -/
def stateReceiveRequestBody : Nat → τ → Program (Error × τ)
  | 0, t => return (.shutdown, t)
  | turns + 1, t => do
      let (error, bytesAvailable) ← onServer nextChunk
      if error ≠ .success then return (error, t)
      else if bytesAvailable = 0 then offerLastChunk bodyHandler t
      else
        let (consumed, error, t) ← offerChunk bodyHandler bytesAvailable t
        if consumed ≠ .success then return (consumed, t)
        else
          match error with
          | .success => stateReceiveRequestBody turns t
          | .again => return (.pause, t)
          | .sendResponse =>
              modifyServer
                (conditionalStateTransition SERVER_PARSING_BODY SERVER_FORMATTING_HEADERS)
              return (.success, t)
          | error => return (error, t)

def stateSendResponseHeaders : Program Error :=
  acquireSendBuffer.andThen (onServer formatHeaders)

/-- What `stateSendResponseBody` makes of the answer to `produceResponseBody`. -/
def produceFails (error : Error) : Bool :=
  !(error = .success || error = .again || error = .pause)

/-- The loop of `stateSendResponseBody`. -/
def stateSendResponseBody : Nat → τ → Program (Error × τ)
  | 0, t => return (.shutdown, t)
  | turns + 1, t => do
      let (error, offeredSize, t) ← bodyHandler.offerResponseBody t
      match error with
      | .success =>
          if offeredSize = 0 then return (← onServer endBody, t)
          else
            let (error, chunkSize) ← onServer (formatStartChunk offeredSize)
            if error ≠ .success then return (error, t)
            else
              let (error, produced, t) ← bodyHandler.produceResponseBody t chunkSize
              if produceFails error then return (error, t)
              else
                let error ← onServer (formatEndChunk produced chunkSize)
                if error ≠ .success then return (error, t)
                else stateSendResponseBody turns t
      | .again => return (.pause, t)
      | error => return (error, t)

/-- The connection is closed when the request was not read, when the response is an error
and when the request says so. -/
def mustClose (s : HttpServerSocket) : Bool :=
  has s.state SERVER_CANNOT_REUSE_CONNECTION ||
    s.transaction.any fun transaction =>
      CloseAfterErrorResponse && 300 ≤ transaction.response.startLine.statusCode ||
        !transaction.request.reuseConnection

/-- `_transaction->reset()`: the memory of the context goes too. -/
def resetTransaction : Program Unit := fun w =>
  ((), { w with
    server := { w.server with transaction := w.server.transaction.map HttpServerTransaction.reset }
    liveContext := none })

def stateEndTransaction : Program Error := do
  modifyServer fun s => { s with requestsPerConnection := s.requestsPerConnection + 1 }
  handler.endTransaction .end
  let s := (← get).server
  if s.transaction.isNone && !has s.state SERVER_CANNOT_REUSE_CONNECTION then
    return .nullDereference
  else if s.mustClose then return .cleanup
  else
    modifyServer (stateTransition SERVER_TRANSACTION_BEGIN)
    resetTransaction
    return .success

/-! ## The state machine -/

/-- The `switch` over the states. -/
def advanceState (turns : Nat) (t : τ) : Program (Error × τ) := do
  let state := (← get).server.state &&& SERVER_STATE_MASK
  if state = SERVER_TRANSACTION_BEGIN then return (← stateBeginTransaction handler, t)
  else if state = SERVER_PARSING_HEADERS then return (← stateReceiveRequestHeaders handler, t)
  else if state = SERVER_PARSING_BODY then stateReceiveRequestBody bodyHandler turns t
  else if state = SERVER_SKIPPING_TRAILER then return (← onServer stateSkipTrailer, t)
  else if state = SERVER_FORMATTING_HEADERS then return (← stateSendResponseHeaders, t)
  else if state = SERVER_FORMATTING_BODY then stateSendResponseBody bodyHandler turns t
  else if state = SERVER_FLUSHING_BODY then return (← onServer stateFlushResponseBody, t)
  else if state = SERVER_TRANSACTION_END then return (← stateEndTransaction handler, t)
  else return (.invalidState, t)

/-- The loop of `advanceStateMachine`.  The flush at the end of a message is not tried
twice in a row. -/
def advanceLoop (flags : AdvanceFlags) : Nat → Bool → Bool → τ → Program (Error × τ)
  | 0, _, _, t => return (.shutdown, t)
  | turns + 1, fillRecvBuffer, drainSendBuffer, t => do
      let state := (← get).server.state
      let inRecvState := has state SERVER_RECV_STATE_MASK
      let inSendState := has state SERVER_SEND_STATE_MASK
      if inRecvState && !flags.advanceRecv then return (.success, t)
      else if inSendState && !flags.advanceSend then return (.success, t)
      else
        let filled ← if fillRecvBuffer then fillReceiveBuffer else pure .success
        if filled ≠ .success then return (filled, t)
        else
          let flushing := (← get).server.state &&& SERVER_STATE_MASK = SERVER_FLUSHING_BODY
          let (error, t) ← advanceState handler bodyHandler turns t
          match error with
          | .success =>
              let drained ← if drainSendBuffer then onServer flushSendBuffer else pure .success
              if drained ≠ .success then return (drained, t)
              else advanceLoop flags turns false false t
          | .breakLoop => return (.success, t)
          | .again =>
              if flushing then return (.again, t)
              else
                let drained ← if inSendState then onServer flushSendBuffer else pure .success
                if drained ≠ .success then return (drained, t)
                else advanceLoop flags turns inRecvState false t
          | error => return (error, t)

def advanceStateMachine (flags : AdvanceFlags) (turns : Nat) (t : τ) : Program (Error × τ) :=
  advanceLoop handler bodyHandler flags turns flags.initialFillRecvBuffer
    flags.initialDrainSendBuffer t

/-! ## Removal -/

/-- The state `handleRemove` reports to the handler. -/
def removedIn (state : StateBits) : Option ServerHandlerState :=
  let state := state &&& SERVER_STATE_MASK
  if state = SERVER_PARSING_HEADERS ∨ state = SERVER_TRANSACTION_BEGIN then
    some .recvRequestHeaders
  else if state = SERVER_PARSING_BODY ∨ state = SERVER_SKIPPING_TRAILER then some .recvRequestBody
  else if state = SERVER_FORMATTING_HEADERS then some .sendResponseHeaders
  else if state = SERVER_FORMATTING_BODY ∨ state = SERVER_FLUSHING_BODY then
    some .sendResponseBody
  else none

/-- `destroyServerTransaction`: the memory of the context goes with the transaction. -/
def destroyTransaction : Program Unit := fun w =>
  ((), { w with server := { w.server with transaction := none }, liveContext := none })

/-- The connection is closed and its buffers are released. -/
def releaseBuffers (s : HttpServerSocket) : HttpServerSocket :=
  { s with socket := s.socket.close, sendBuffer := none, recvBuffer := none, released := true }

/-- The last transition. -/
def deactivate (s : HttpServerSocket) : HttpServerSocket :=
  { s.stateTransition SERVER_INACTIVE with requestsPerConnection := 0 }

def handleRemove : Program Unit := do
  modifyServer releaseBuffers
  match removedIn (← get).server.state with
  | some state => handler.endTransaction state
  | none => pure ()
  destroyTransaction
  modifyServer deactivate

end states

end HttpServerSocket

end Everscale
