/-
# Everscale.Http1.ClientSocket -- the state machine of a client connection

`HttpClientSocket` (`ESHttpClientSocket.cpp`), in the order and with the conventions of
`Http1.ServerSocket`.  There is one server connection but any number of client
connections, so every program here takes the number of the socket it runs for.

The two machines differ in more than names: this one sends first, refills its receive
buffer after the last flush, stops at `TRANSACTION_END`, and never skips a trailer.
-/
import Everscale.Http1.Sockets

namespace Everscale

set_option autoImplicit false

/-! ## Handlers -/

/-- `HttpClientHandler::State`. -/
inductive ClientHandlerState where
  | begin
  | connect
  | sendRequestHeaders
  | sendRequestBody
  | recvResponseHeaders
  | recvResponseBody
  | end
  deriving DecidableEq, Repr

structure HttpClientHandler where
  beginTransaction : Nat → Program Error
  receiveResponseHeaders : Nat → Program Error
  endRequest : Nat → Program Error
  endTransaction : Nat → ClientHandlerState → Program Unit

/-- The callbacks for bodies, as in `HttpServerBodyHandler`. -/
structure HttpClientBodyHandler (τ : Type) where
  offerRequestBody : Nat → τ → Program (Error × Nat × τ)
  produceRequestBody : Nat → τ → Nat → Program (Error × List Octet × τ)
  consumeResponseBody : Nat → τ → List Octet → Program (Error × Nat × τ)

/-- `HttpRequestBodyProducer`: what is left of the buffer that was passed in; `size` is the
size of the whole. -/
structure HttpRequestBodyProducer where
  buffer : List Octet
  size : Nat
  deriving DecidableEq, Repr

/-- The callbacks of `HttpRequestBodyProducer`; it consumes nothing. -/
def requestBodyProducer : HttpClientBodyHandler HttpRequestBodyProducer where
  offerRequestBody _ p :=
    if p.size = 0 then return (.success, 0, p)
    else return (if p.buffer = [] then .breakLoop else .success, p.buffer.length, p)
  produceRequestBody _ p bytesRequested :=
    if p.buffer.length < bytesRequested then return (.invalidArgument, [], p)
    else return (.success, p.buffer.take bytesRequested,
      { p with buffer := p.buffer.drop bytesRequested })
  consumeResponseBody _ p _ := return (.operationNotSupported, 0, p)

/-- `HttpResponseBodyConsumer`: how much it may still take, what it has taken, and what it
was offered last. -/
structure HttpResponseBodyConsumer where
  room : Nat
  consumed : List Octet := []
  bytesOffered : Nat := 0
  deriving DecidableEq, Repr

/-- The callbacks of `HttpResponseBodyConsumer`; it produces nothing. -/
def responseBodyConsumer : HttpClientBodyHandler HttpResponseBodyConsumer where
  offerRequestBody _ c := return (.operationNotSupported, 0, c)
  produceRequestBody _ c _ := return (.operationNotSupported, [], c)
  consumeResponseBody _ c body :=
    let c := { c with bytesOffered := body.length }
    let bytesToCopy := min c.room body.length
    if body = [] then return (.success, 0, c)
    else if bytesToCopy = 0 then return (.breakLoop, 0, c)
    else return (.success, bytesToCopy,
      { c with room := c.room - bytesToCopy, consumed := c.consumed ++ body.take bytesToCopy })

namespace HttpClientSocket

/-! ## State and flags -/

def addFlag (flag : StateBits) (s : HttpClientSocket) : HttpClientSocket :=
  { s with state := s.state ||| flag }

def clearFlag (flag : StateBits) (s : HttpClientSocket) : HttpClientSocket :=
  { s with state := s.state &&& ~~~flag }

/-- The cases of `stateTransition` that set a state; `CONNECTING` sets none. -/
def states : List StateBits :=
  [INACTIVE, TRANSACTION_BEGIN, FORMATTING_HEADERS, FORMATTING_BODY, FLUSHING_BODY,
    PARSING_HEADERS, PARSING_BODY, TRANSACTION_END]

/-- `stateTransition`; the flags stay. -/
def stateTransition (target : StateBits) (s : HttpClientSocket) : HttpClientSocket :=
  let cleared := s.state &&& ~~~STATE_MASK
  let target := target &&& STATE_MASK
  { s with
    state := if target ∈ states then cleared ||| target else cleared
    transitions := s.transitions ++
      [⟨s.state, target, s.socket.sent, unreadOf s.sendBuffer, s.formatted, s.released⟩] }

def wantConnect (s : HttpClientSocket) : Bool := has s.state CONNECTING

def wantRead (s : HttpClientSocket) : Bool :=
  if has s.state (RECV_PAUSED ||| ABORTED ||| INACTIVE) then false
  else if s.socket.wantRead then true
  else if s.socket.wantWrite then false
  else has s.state RECV_STATE_MASK

def wantWrite (s : HttpClientSocket) : Bool :=
  if has s.state (SEND_PAUSED ||| ABORTED ||| INACTIVE) then false
  else if s.socket.wantWrite then true
  else if s.socket.wantRead then false
  else has s.state (TRANSACTION_BEGIN ||| SEND_STATE_MASK)

/-! ## Parsing and formatting -/

/-- The octets that were read from the connection and taken out of the receive buffer. -/
def taken (s : HttpClientSocket) : Nat :=
  s.socket.received.length - s.receivedBefore - (unreadOf s.recvBuffer).length

/-- What the headers say of the response goes on record. -/
def recordResponse (s : HttpClientSocket) : HttpClientSocket :=
  { s with
    headLength := s.taken
    bodyLength := (s.transaction.map fun transaction =>
      if transaction.response.hasBody then transaction.parser.bodyBytesRemaining else 0).getD 0 }

/-- `stateReceiveResponseHeaders` up to the handler: the headers, with the transition
behind them. -/
def parseHeaders (s : HttpClientSocket) : Error × HttpClientSocket :=
  match s.transaction, s.recvBuffer with
  | some transaction, some b =>
      let o := HttpResponseParser.parseHeaders transaction.parser b
      let s := { s with
        transaction := some { transaction with parser := o.state }
        recvBuffer := some o.input
        calls := s.calls ++ [⟨.parseHeaders, s.state, transaction.parser, b.unread, o.code⟩] }
      (o.code, if o.code = .success then s.recordResponse.stateTransition PARSING_BODY else s)
  | _, _ => (.nullDereference, s)

/-- `currentChunkBytesAvailable`. -/
def currentChunkBytesAvailable (s : HttpClientSocket) : (Error × Nat) × HttpClientSocket :=
  if 0 < s.bytesAvailable then ((.success, s.bytesAvailable), s)
  else
    match s.transaction, s.recvBuffer with
    | some transaction, some b =>
        if has s.state LAST_CHUNK_RECEIVED || !transaction.response.hasBody then ((.success, 0), s)
        else
          let o := transaction.parser.parseBody b
          let bytesAvailable := o.chunkSize.getD 0
          let s := { s with
            transaction := some { transaction with parser := o.state }
            recvBuffer := some o.input
            calls := s.calls ++ [⟨.parseBody, s.state, transaction.parser, b.unread, o.code⟩] }
          if o.code ≠ .success then ((o.code, 0), s)
          else if bytesAvailable = 0 then
            ((.success, 0), { s with bytesAvailable }.addFlag LAST_CHUNK_RECEIVED)
          else ((.success, bytesAvailable), { s with bytesAvailable })
    | _, _ => ((.nullDereference, 0), s)

/-- What is there of the current chunk, with the transition behind the last one. -/
def nextChunk (s : HttpClientSocket) : (Error × Nat) × HttpClientSocket :=
  match s.currentChunkBytesAvailable with
  | ((.success, 0), s) => ((.success, 0), s.stateTransition TRANSACTION_END)
  | result => result

/-- The octets at the read position of the receive buffer. -/
def offeredBody (bytesAvailable : Nat) (s : HttpClientSocket) : List Octet :=
  match s.recvBuffer with
  | none => []
  | some b => (b.storage.drop b.readPosition).take bytesAvailable

/-- What the handler consumed is taken off the parser's and the socket's counts; it should
not be more than the socket counts as available. -/
def consumeBody (bytesConsumed : Nat) (s : HttpClientSocket) : Error × HttpClientSocket :=
  match s.transaction, s.recvBuffer with
  | some transaction, some b =>
      let o := transaction.parser.consumeBody b bytesConsumed
      let call := ParserFunction.consumeBody bytesConsumed s.bytesAvailable
      let s := { s with
        transaction := some { transaction with parser := o.state }
        recvBuffer := some o.input
        calls := s.calls ++ [⟨call, s.state, transaction.parser, b.unread, o.code⟩]
        consumedTwice := s.consumedTwice || s.bytesAvailable < bytesConsumed }
      if o.code ≠ .success then (o.code, s)
      else
        (.success,
          { s with
            bytesAvailable := HttpMessageParser.lessConsumed s.bytesAvailable bytesConsumed })
  | _, _ => (.nullDereference, s)

def formatHeaders (s : HttpClientSocket) : Error × HttpClientSocket :=
  match s.transaction, s.sendBuffer with
  | some transaction, some b =>
      let o := HttpRequestFormatter.formatHeaders transaction.request transaction.formatter b
      let formatted := s.formatted ++ appended b o.output
      let s := { s with
        transaction := some { transaction with formatter := o.state, formatted }
        sendBuffer := some o.output
        formatted
        headCalls := s.headCalls ++ [⟨transaction.request, transaction.formatter, b⟩] }
      (o.code, if o.code = .success then s.stateTransition FORMATTING_BODY else s)
  | _, _ => (.nullDereference, s)

/-- The last chunk, with the transition behind it. -/
def endBody (s : HttpClientSocket) : Error × HttpClientSocket :=
  match s.transaction, s.sendBuffer with
  | some transaction, some b =>
      let o := HttpMessageFormatter.endBody transaction.formatter b
      let formatted := s.formatted ++ appended b o.output
      let s := { s with
        transaction := some { transaction with formatter := o.state, formatted }
        sendBuffer := some o.output
        formatted }
      (o.code, if o.code = .success then s.stateTransition FLUSHING_BODY else s)
  | _, _ => (.nullDereference, s)

/-- `formatStartChunk`; it returns the size granted. -/
def formatStartChunk (chunkSize : Nat) (s : HttpClientSocket) : (Error × Nat) × HttpClientSocket :=
  match s.transaction, s.sendBuffer with
  | some transaction, some b =>
      let o := HttpMessageFormatter.beginBlock chunkSize transaction.formatter b
      let formatted := s.formatted ++ appended b o.output
      ((o.code, o.maxChunkSize.getD 0),
        { s with
          transaction := some { transaction with formatted }
          sendBuffer := some o.output
          formatted })
  | _, _ => ((.nullDereference, 0), s)

/-- The octets produced are in the buffer; the write position moves by `chunkSize`, and
`formatEndChunk` ends the chunk. -/
def formatEndChunk (produced : List Octet) (chunkSize : Nat) (s : HttpClientSocket) :
    Error × HttpClientSocket :=
  match s.transaction, s.sendBuffer with
  | some transaction, some b =>
      let filled := { b.fill produced with writePosition := b.writePosition }
      let (error, output) := HttpMessageFormatter.endBlock transaction.formatter
        (filled.setWritePosition (b.writePosition + chunkSize))
      let formatted := s.formatted ++ appended b output
      (error,
        { s with
          transaction := some { transaction with formatted }
          sendBuffer := some output
          formatted
          bodyTaken := s.bodyTaken ++ produced })
  | _, _ => (.nullDereference, s)

/-! ## Receiving and sending -/

/-- `fillReceiveBuffer` from the point where there is a buffer. -/
def refill (s : HttpClientSocket) : Error × HttpClientSocket :=
  match s.recvBuffer with
  | none => (.nullDereference, s)
  | some b =>
      let room := if b.isWritable then some b
        else if b.compact.1 then some b.compact.2
        else none
      match room with
      | none => (.overflow, s)
      | some b =>
          let (error, socket, b) := s.socket.receive b
          (error, { s with socket, recvBuffer := some b })

/-- The first octet sent says that a connection from the pool is not stale. -/
def flushSendBuffer (s : HttpClientSocket) : Error × HttpClientSocket :=
  match s.sendBuffer with
  | none => (.nullDereference, s)
  | some b =>
      let o := s.socket.flush b
      let s := { s with socket := o.socket, sendBuffer := some o.output }
      (o.code, if o.flushed then s.clearFlag FIRST_USE_AFTER_REUSE else s)

/-- What a client socket is missing is acquired. -/
def acquire (id : Nat) (isMissing : HttpClientSocket → Bool)
    (provide : World → HttpClientSocket → HttpClientSocket) : Program Error := do
  if !isMissing ((← get).clients id) then return .success
  else
    match ← ask with
    | .success =>
        let w ← get
        modifyClient id (provide w)
        return .success
    | _ => return .outOfMemory

def acquireRecvBuffer (id : Nat) : Program Error :=
  acquire id (fun s => s.recvBuffer.isNone)
    fun w s => { s with recvBuffer := some (Buffer.create w.ioBufferSize) }

def acquireSendBuffer (id : Nat) : Program Error :=
  acquire id (fun s => s.sendBuffer.isNone)
    fun w s => { s with sendBuffer := some (Buffer.create w.ioBufferSize) }

def fillReceiveBuffer (id : Nat) : Program Error := do
  if ((← get).clients id).transaction.isNone then return .invalidState
  else (acquireRecvBuffer id).andThen (onClient id refill)

/-! ## The states -/

def modifyRequest (f : HttpRequest → HttpRequest) (s : HttpClientSocket) : HttpClientSocket :=
  { s with
    transaction := s.transaction.map fun transaction =>
      { transaction with request := f transaction.request } }

/-- `addHeader("Connection", "close")`. -/
def addClose (request : HttpRequest) : HttpRequest :=
  request.addHeader { fieldName := octets "Connection", fieldValue := some (octets "close") }

/-- `ESB_AGAIN` would keep a connection that cannot go on. -/
def notAgain (error : Error) : Error := if error = .again then .otherError else error

section states

variable {τ : Type} (handler : HttpClientHandler) (bodyHandler : HttpClientBodyHandler τ)

/-- The header is added to a request without it, when connections are not to be reused. -/
def announceClose (id : Nat) : Program Error := do
  let w ← get
  let unannounced := (w.clients id).transaction.any fun transaction =>
    (transaction.request.findHeader "Connection").isNone
  if w.reuseConnections || !unannounced then return .success
  else
    match ← ask with
    | .success =>
        modifyClient id (modifyRequest addClose)
        return .success
    | error => return notAgain error

def stateBeginTransaction (id : Nat) : Program Error := do
  let error ← announceClose id
  if error ≠ .success then return error
  else
    match ← handler.beginTransaction id with
    | .success =>
        modifyClient id (stateTransition FORMATTING_HEADERS)
        return .success
    | error => return notAgain error

def stateSendRequestHeaders (id : Nat) : Program Error :=
  (acquireSendBuffer id).andThen (onClient id formatHeaders)

/-- The loop of `stateSendRequestBody`. -/
def stateSendRequestBody (id : Nat) : Nat → τ → Program (Error × τ)
  | 0, t => return (.shutdown, t)
  | turns + 1, t => do
      let (error, offeredSize, t) ← bodyHandler.offerRequestBody id t
      match error with
      | .success =>
          if offeredSize = 0 then return (← onClient id endBody, t)
          else
            let (error, chunkSize) ← onClient id (formatStartChunk offeredSize)
            if error ≠ .success then return (error, t)
            else
              let (error, produced, t) ← bodyHandler.produceRequestBody id t chunkSize
              if !(error = .success || error = .again || error = .pause) then return (error, t)
              else
                let error ← onClient id (formatEndChunk produced chunkSize)
                if error ≠ .success then return (error, t)
                else stateSendRequestBody id turns t
      | .again => return (.pause, t)
      | error => return (error, t)

/-- The flush at the end of a message goes on record. -/
def recordFlush (s : HttpClientSocket) : HttpClientSocket :=
  { s with
    finalFlushes :=
      s.finalFlushes ++ [⟨s.socket.sent, unreadOf s.sendBuffer, s.socket.departures⟩] }

/-- `stateFlushRequestBody` up to the handler. -/
def flushRequestBody (s : HttpClientSocket) : Error × HttpClientSocket :=
  match s.recordFlush.flushSendBuffer with
  | (.success, s) => (.success, s.stateTransition PARSING_HEADERS)
  | (error, s) => (error, s)

def stateFlushRequestBody (id : Nat) : Program Error :=
  (onClient id flushRequestBody).andThen (handler.endRequest id)

def stateReceiveResponseHeaders (id : Nat) : Program Error := do
  match ← onClient id parseHeaders with
  | .success =>
      match ← handler.receiveResponseHeaders id with
      | .again => return .pause
      | error => return error
  | error => return error

/-- The handler is told of the last chunk. -/
def offerLastChunk (id : Nat) (t : τ) : Program (Error × τ) := do
  let (error, _, t) ← bodyHandler.consumeResponseBody id t []
  return (if error = .again then .pause else error, t)

/-- The handler is offered what is there of the chunk, and what it takes is consumed: the
codes of both. -/
def offerChunk (id bytesAvailable : Nat) (t : τ) : Program (Error × Error × τ) := do
  let body := ((← get).clients id).offeredBody bytesAvailable
  let (error, bytesConsumed, t) ← bodyHandler.consumeResponseBody id t body
  if 0 < bytesConsumed then return (← onClient id (consumeBody bytesConsumed), error, t)
  else return (.success, error, t)

/-- The loop of `stateReceiveResponseBody`. -/
def stateReceiveResponseBody (id : Nat) : Nat → τ → Program (Error × τ)
  | 0, t => return (.shutdown, t)
  | turns + 1, t => do
      let (error, bytesOffered) ← onClient id nextChunk
      if error ≠ .success then return (error, t)
      else if bytesOffered = 0 then offerLastChunk bodyHandler id t
      else
        let (consumed, error, t) ← offerChunk bodyHandler id bytesOffered t
        if consumed ≠ .success then return (consumed, t)
        else
          match error with
          | .success => stateReceiveResponseBody id turns t
          | .again => return (.pause, t)
          | error => return (error, t)

/-! ## The state machine -/

/-- The `switch` over the states, `TRANSACTION_END` apart. -/
def advanceState (id turns : Nat) (t : τ) : Program (Error × τ) := do
  let state := ((← get).clients id).state &&& STATE_MASK
  if state = TRANSACTION_BEGIN then return (← stateBeginTransaction handler id, t)
  else if state = FORMATTING_HEADERS then return (← stateSendRequestHeaders id, t)
  else if state = FORMATTING_BODY then stateSendRequestBody bodyHandler id turns t
  else if state = FLUSHING_BODY then return (← stateFlushRequestBody handler id, t)
  else if state = PARSING_HEADERS then return (← stateReceiveResponseHeaders handler id, t)
  else if state = PARSING_BODY then stateReceiveResponseBody bodyHandler id turns t
  else return (.invalidState, t)

/-- The loop of `advanceStateMachine`.  The flush at the end of a message is not tried
twice in a row, and the receive buffer is filled after it. -/
def advanceLoop (flags : AdvanceFlags) (id : Nat) : Nat → Bool → Bool → τ → Program (Error × τ)
  | 0, _, _, t => return (.shutdown, t)
  | turns + 1, fillRecvBuffer, drainSendBuffer, t => do
      let state := ((← get).clients id).state
      let inRecvState := has state RECV_STATE_MASK
      let inSendState := has state SEND_STATE_MASK
      if inRecvState && !flags.advanceRecv then return (.success, t)
      else if inSendState && !flags.advanceSend then return (.success, t)
      else
        let filled ← if fillRecvBuffer then fillReceiveBuffer id else pure .success
        if filled ≠ .success then return (filled, t)
        else
          let state := ((← get).clients id).state &&& STATE_MASK
          if state = TRANSACTION_END then return (.success, t)
          else
            let flushing := state = FLUSHING_BODY
            let (error, t) ← advanceState handler bodyHandler id turns t
            match error with
            | .success =>
                let drained ← if drainSendBuffer then onClient id flushSendBuffer
                  else pure .success
                if drained ≠ .success then return (drained, t)
                else advanceLoop flags id turns flushing false t
            | .breakLoop => return (.success, t)
            | .again =>
                if flushing then return (.again, t)
                else
                  let drained ← if inSendState then onClient id flushSendBuffer
                    else pure .success
                  if drained ≠ .success then return (drained, t)
                  else advanceLoop flags id turns inRecvState false t
            | error => return (error, t)

def advanceStateMachine (flags : AdvanceFlags) (id turns : Nat) (t : τ) : Program (Error × τ) :=
  advanceLoop handler bodyHandler flags id turns flags.initialFillRecvBuffer
    flags.initialDrainSendBuffer t

/-! ## Removal -/

/-- The state `handleRemove` reports to the handler. -/
def removedIn (state : StateBits) : Option ClientHandlerState :=
  let state := state &&& STATE_MASK
  if state = TRANSACTION_BEGIN then some .begin
  else if state = CONNECTING then some .connect
  else if state = FORMATTING_HEADERS then some .sendRequestHeaders
  else if state = FORMATTING_BODY ∨ state = FLUSHING_BODY then some .sendRequestBody
  else if state = PARSING_HEADERS then some .recvResponseHeaders
  else if state = PARSING_BODY then some .recvResponseBody
  else if state = TRANSACTION_END then some .end
  else none

/-- The first request on a connection from the pool failed before any of it was sent. -/
def isStale (s : HttpClientSocket) : Bool :=
  has s.state FIRST_USE_AFTER_REUSE && !has s.state ABORTED

/-- The answer does not say `Connection: close`. -/
def keepsConnection (response : HttpResponse) : Bool :=
  match response.findHeader "Connection" with
  | none => true
  | some header => !header.fieldValue.any (isNamed "close")

/-- Whether `handleRemove` leaves the connection open for the pool. -/
def reuseConnection (reuseConnections : Bool) (s : HttpClientSocket) : Bool :=
  s.state &&& STATE_MASK = TRANSACTION_END && reuseConnections && !has s.state ABORTED &&
    s.transaction.any fun transaction => keepsConnection transaction.response

def releaseBuffers (s : HttpClientSocket) : HttpClientSocket :=
  { s with sendBuffer := none, recvBuffer := none, released := true }

/-- `destroyClientTransaction`: the transaction goes back to its factory. -/
def destroyClientTransaction (transaction : Nat) : Program Unit :=
  modify fun w => { w with released := w.released ++ [transaction] }

/-- The transaction a socket has, if any, is released, and the socket has none. -/
def releaseTransaction (id : Nat) : Program Unit := do
  match ((← get).clients id).transaction with
  | some transaction => destroyClientTransaction transaction.id
  | none => pure ()
  modifyClient id fun s => { s with transaction := none }

/-- The last transition, for a socket that is through with its transaction. -/
def deactivate (s : HttpClientSocket) : HttpClientSocket :=
  { s with transaction := none }.stateTransition INACTIVE

def closeSocket (s : HttpClientSocket) : HttpClientSocket := { s with socket := s.socket.close }

/-- A transaction that is executed once more goes on record. -/
def recordRetry (id : Nat) : Program Unit :=
  modify fun w => { w with retried := w.retried ++ [w.clients id] }

/-- `handleRemove` of a stale connection: the transaction is executed once more, and the
caller has it back when that fails. -/
def retryTransaction (execute : HttpClientTransaction → Program Error) (id : Nat) :
    Program Unit := do
  recordRetry id
  modifyClient id releaseBuffers
  modifyClient id closeSocket
  match ((← get).clients id).transaction with
  | some transaction =>
      if (← execute transaction) ≠ .success then
        handler.endTransaction id .begin
        destroyClientTransaction transaction.id
  | none => handler.endTransaction id .begin
  modifyClient id deactivate

/-- `handleRemove` of any other connection, which goes back to the pool when `reuse` says so. -/
def endTransaction (reuse : Bool) (id : Nat) : Program Unit := do
  match removedIn ((← get).clients id).state with
  | some state => handler.endTransaction id state
  | none => pure ()
  releaseTransaction id
  if !reuse then modifyClient id closeSocket
  modifyClient id deactivate

/-- A connection that goes back to the pool goes on record. -/
def recordReturn (reuse : Bool) (id : Nat) : Program Unit := modify fun w =>
  if reuse then { w with returned := w.returned ++ [w.clients id] } else w

def handleRemove (execute : HttpClientTransaction → Program Error) (id : Nat) : Program Unit := do
  let w ← get
  let s := w.clients id
  if s.isStale then retryTransaction handler execute id
  else
    let reuse := s.reuseConnection w.reuseConnections
    recordReturn reuse id
    modifyClient id releaseBuffers
    endTransaction handler reuse id

end states

end HttpClientSocket

end Everscale
