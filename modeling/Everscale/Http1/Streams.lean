/-
# Everscale.Http1.Streams -- what a handler may call

The calls of `HttpServerStream`, `HttpClientStream` and `HttpMultiplexer`, as the two
sockets, `EpollMultiplexer` and `HttpClientSocketFactory` answer them.

A callback of the application may call a stream, whose state machine may run callbacks in
turn.  `Streams` are the calls an application is given and `Handlers` the callbacks it
gives; `streams application depth` ties the two, for calls nested at most `depth` deep.

A descriptor the multiplexer has not registered makes `epoll_ctl` fail, and removing one
that it has succeeds.  Whether a registered one can be added or modified is asked.
-/
import Everscale.Http1.ServerSocket
import Everscale.Http1.ClientSocket

namespace Everscale

set_option autoImplicit false

/-- All callbacks of an application. -/
structure Handlers where
  server : HttpServerHandler
  serverBody : HttpServerBodyHandler Unit
  client : HttpClientHandler
  clientBody : HttpClientBodyHandler Unit

/-- The calls that may run callbacks. -/
structure Streams where
  sendEmptyResponse : Nat → String → Program Error
  sendResponse : HttpResponse → Program Error
  sendResponseBody : List Octet → Program (Error × Nat)
  requestBodyAvailable : Program (Error × Nat)
  readRequestBody : Nat → Program (Error × List Octet)
  abortServer : Bool → Program Error
  responseBodyAvailable : Nat → Program (Error × Nat)
  readResponseBody : Nat → Nat → Program (Error × List Octet)
  sendRequestBody : Nat → List Octet → Program (Error × Nat)
  abortClient : Nat → Bool → Program Error
  executeClientTransaction : HttpClientTransaction → Program Error

namespace HttpServerSocket

/-! ## The server connection in the multiplexer -/

/-- `updateMultiplexedSocket`. -/
def updateMultiplexed : Program Error := do
  let s := (← get).server
  if !s.socket.isOpen then return .invalidArgument
  else if !s.multiplexed then return .otherError
  else ask

/-- The multiplexer gives the socket up: `markDead`. -/
def markDead (s : HttpServerSocket) : HttpServerSocket :=
  { s with multiplexed := false }.addFlag SERVER_DEAD

/-- `removeMultiplexedSocket`. -/
def removeMultiplexed (handler : HttpServerHandler) : Program Error := do
  let s := (← get).server
  if !s.socket.isOpen then return .invalidArgument
  else if !s.multiplexed then return .otherError
  else
    modifyServer markDead
    handleRemove handler
    return .success

/-- `pauseRecv` and `pauseSend`. -/
def pause (paused : StateBits) (updateMultiplexer : Bool) : Program Error := do
  let s := (← get).server
  if has s.state (SERVER_INACTIVE ||| SERVER_ABORTED) then return .invalidState
  else if has s.state paused then return .success
  else
    modifyServer (addFlag paused)
    if updateMultiplexer then return HttpClientSocket.notAgain (← updateMultiplexed)
    else return .success

/-- `resumeRecv` and `resumeSend`. -/
def resume (paused : StateBits) (updateMultiplexer : Bool) : Program Error := do
  let s := (← get).server
  if has s.state (SERVER_INACTIVE ||| SERVER_ABORTED) then return .invalidState
  else if !has s.state paused then return .success
  else
    modifyServer (clearFlag paused)
    if updateMultiplexer then return HttpClientSocket.notAgain (← updateMultiplexed)
    else return .success

def pauseRecv := pause SERVER_RECV_PAUSED

def pauseSend := pause SERVER_SEND_PAUSED

def resumeRecv := resume SERVER_RECV_PAUSED

def resumeSend := resume SERVER_SEND_PAUSED

section calls

variable (handler : HttpServerHandler) (bodyHandler : HttpServerBodyHandler Unit) (turns : Nat)

def abort (updateMultiplexer : Bool) : Program Error := do
  if has (← get).server.state SERVER_ABORTED then return .invalidState
  else
    modifyServer (addFlag SERVER_ABORTED)
    if updateMultiplexer then return HttpClientSocket.notAgain (← removeMultiplexed handler)
    else return .success

/-! ## The calls of `HttpServerStream` -/

/-- The handler drives its own state machine. -/
def advance (flags : AdvanceFlags) : Program Error := do
  return (← advanceStateMachine handler bodyHandler flags turns ()).1

def sendEmptyResponse (statusCode : Nat) (reasonPhrase : String) : Program Error :=
  (setResponse statusCode reasonPhrase).andThen
    (advance handler bodyHandler turns { advanceSend := true })

/-- `_transaction->response().copy(...)`. -/
def copyResponse (response : HttpResponse) : Program Error := do
  if (← get).server.transaction.isNone then return .nullDereference
  else
    match ← ask with
    | .success =>
        modifyServer (modifyResponse fun own => HttpResponse.copy own response)
        return .success
    | error => return error

def sendResponse (response : HttpResponse) : Program Error :=
  (copyResponse response).andThen (advance handler bodyHandler turns { advanceSend := true })

/-- It returns how much of the chunk was taken. -/
def sendResponseBody (chunk : List Octet) : Program (Error × Nat) := do
  if (← get).server.state &&& SERVER_STATE_MASK ≠ SERVER_FORMATTING_BODY then
    return (.invalidState, 0)
  else
    let (error, adaptor) ← advanceStateMachine handler responseBodyProducer
      { advanceSend := true } turns ⟨chunk, chunk.length⟩
    return (error, chunk.length - adaptor.buffer.length)

def requestBodyAvailable : Program (Error × Nat) := do
  let (error, adaptor) ← advanceStateMachine handler requestBodyConsumer
    { advanceRecv := true } turns { room := 0 }
  return (error, adaptor.bytesOffered)

def readRequestBody (bytesRequested : Nat) : Program (Error × List Octet) := do
  let (error, adaptor) ← advanceStateMachine handler requestBodyConsumer
    { advanceRecv := true } turns { room := bytesRequested }
  return (error, adaptor.consumed)

/-! ## Events -/

def handleReadable : Program Error := do
  let s := (← get).server
  if !s.wantRead || !s.socket.connected then return .invalidState
  else
    advance handler bodyHandler turns
      { initialFillRecvBuffer := true, advanceRecv := true, advanceSend := true }

def handleWritable : Program Error := do
  let s := (← get).server
  if !s.wantWrite || !s.socket.connected || s.transaction.isNone then return .invalidState
  else advance handler bodyHandler turns { advanceRecv := true, advanceSend := true }

end calls

end HttpServerSocket

namespace HttpClientSocket

/-! ## A client connection in the multiplexer -/

/-- `updateMultiplexedSocket`. -/
def updateMultiplexed (id : Nat) : Program Error := do
  let s := (← get).clients id
  if !s.socket.isOpen then return .invalidArgument
  else if !s.multiplexed then return .otherError
  else ask

/-- The multiplexer has the socket. -/
def markMultiplexed (s : HttpClientSocket) : HttpClientSocket := { s with multiplexed := true }

/-- `addMultiplexedSocket`. -/
def addMultiplexed (id : Nat) : Program Error := do
  if !((← get).clients id).socket.isOpen then return .invalidArgument
  else
    match ← ask with
    | .success =>
        modifyClient id markMultiplexed
        return .success
    | error => return error

/-- The multiplexer gives the socket up: `markDead`. -/
def markDead (s : HttpClientSocket) : HttpClientSocket :=
  { s with multiplexed := false }.addFlag DEAD

/-- The socket waits for its cleanup. -/
def addToDead (id : Nat) : Program Unit := modify fun w => { w with dead := w.dead ++ [id] }

/-- `removeMultiplexedSocket`. -/
def removeMultiplexed (handler : HttpClientHandler)
    (execute : HttpClientTransaction → Program Error) (id : Nat) : Program Error := do
  let s := (← get).clients id
  if !s.socket.isOpen then return .invalidArgument
  else if !s.multiplexed then return .otherError
  else
    modifyClient id markDead
    addToDead id
    handleRemove handler execute id
    return .success

/-- `pauseRecv` and `pauseSend`. -/
def pause (paused : StateBits) (id : Nat) (updateMultiplexer : Bool) : Program Error := do
  let s := (← get).clients id
  if has s.state (INACTIVE ||| ABORTED) then return .invalidState
  else if has s.state paused then return .success
  else
    modifyClient id (addFlag paused)
    if updateMultiplexer then return notAgain (← updateMultiplexed id)
    else return .success

/-- `resumeRecv` and `resumeSend`. -/
def resume (paused : StateBits) (id : Nat) (updateMultiplexer : Bool) : Program Error := do
  let s := (← get).clients id
  if has s.state (INACTIVE ||| ABORTED) then return .invalidState
  else if !has s.state paused then return .success
  else
    modifyClient id (clearFlag paused)
    if updateMultiplexer then return notAgain (← updateMultiplexed id)
    else return .success

def pauseRecv := pause RECV_PAUSED

def pauseSend := pause SEND_PAUSED

def resumeRecv := resume RECV_PAUSED

def resumeSend := resume SEND_PAUSED

section calls

variable (handler : HttpClientHandler) (bodyHandler : HttpClientBodyHandler Unit) (turns : Nat)

def abort (execute : HttpClientTransaction → Program Error) (id : Nat)
    (updateMultiplexer : Bool) : Program Error := do
  if has ((← get).clients id).state ABORTED then return .invalidState
  else
    modifyClient id (addFlag ABORTED)
    if updateMultiplexer then return notAgain (← removeMultiplexed handler execute id)
    else return .success

/-! ## The calls of `HttpClientStream` -/

/-- The handler drives its own state machine. -/
def advance (flags : AdvanceFlags) (id : Nat) : Program Error := do
  return (← advanceStateMachine handler bodyHandler flags id turns ()).1

/-- It returns how much of the chunk was taken. -/
def sendRequestBody (id : Nat) (chunk : List Octet) : Program (Error × Nat) := do
  if !has ((← get).clients id).state FORMATTING_BODY then return (.invalidState, 0)
  else
    let (error, adaptor) ← advanceStateMachine handler requestBodyProducer
      { advanceSend := true } id turns ⟨chunk, chunk.length⟩
    return (error, chunk.length - adaptor.buffer.length)

def responseBodyAvailable (id : Nat) : Program (Error × Nat) := do
  let (error, adaptor) ← advanceStateMachine handler responseBodyConsumer
    { advanceRecv := true } id turns { room := 0 }
  return (error, adaptor.bytesOffered)

def readResponseBody (id bytesRequested : Nat) : Program (Error × List Octet) := do
  let (error, adaptor) ← advanceStateMachine handler responseBodyConsumer
    { advanceRecv := true } id turns { room := bytesRequested }
  return (error, adaptor.consumed)

/-! ## Events -/

def handleReadable (id : Nat) : Program Error := do
  let s := (← get).clients id
  if !s.wantRead || !s.socket.connected || s.transaction.isNone then return .invalidState
  else
    advance handler bodyHandler turns
      { initialFillRecvBuffer := true, advanceRecv := true, advanceSend := true } id

def handleWritable (id : Nat) : Program Error := do
  let s := (← get).clients id
  if !s.wantWrite || !s.socket.connected || s.transaction.isNone then return .invalidState
  else advance handler bodyHandler turns { advanceRecv := true, advanceSend := true } id

def handleConnect (id : Nat) : Program Error := do
  modifyClient id (stateTransition TRANSACTION_BEGIN)
  handleWritable handler bodyHandler turns id

end calls

end HttpClientSocket

/-! ## `HttpClientSocketFactory` -/

namespace HttpClientSocketFactory

/-- A connection from the pool to that address, with the pool it leaves behind. -/
def fromPool (peerAddress : Nat) (pool : List ConnectedSocket) :
    Option (ConnectedSocket × List ConnectedSocket) :=
  (pool.find? fun socket => socket.peerAddress = peerAddress).map fun socket =>
    (socket, pool.erase socket)

def setPool (pool : List ConnectedSocket) : Program Unit := modify fun w => { w with pool }

/-- `acquireClearSocket`: a connection from the pool, or a new one that is connected or
still connecting, and whether it was used before. -/
def acquireConnection (peerAddress : Nat) : Program (Except Error (ConnectedSocket × Bool)) := do
  match fromPool peerAddress (← get).pool with
  | some (socket, pool) =>
      setPool pool
      return .ok (socket, true)
  | none =>
      match ← ask with
      | .success => return .ok ({ peerAddress }, false)
      | .inProgress => return .ok ({ peerAddress, established := false }, false)
      | error => return .error error

/-- The constructor of `HttpClientSocket`. -/
def construct (transaction : HttpClientTransaction) (socket : ConnectedSocket) (reused : Bool) :
    HttpClientSocket :=
  let s : HttpClientSocket :=
    { transaction := some transaction, socket, original := some transaction,
      receivedBefore := socket.received.length, sentBefore := socket.sent,
      formatted := transaction.formatted }
  if reused then (s.stateTransition TRANSACTION_BEGIN).addFlag FIRST_USE_AFTER_REUSE else s

/-- A new socket: its number. -/
def addSocket (s : HttpClientSocket) : Program Nat := fun w =>
  (w.clientSockets, { w with
    clientSockets := w.clientSockets + 1
    clients := Function.update w.clients w.clientSockets s })

/-- `create`: the number of the new socket. -/
def create (transaction : HttpClientTransaction) : Program (Except Error Nat) := do
  match ← acquireConnection transaction.peerAddress with
  | .error error => return .error error
  | .ok (socket, reused) =>
      match ← ask with
      | .success => return .ok (← addSocket (construct transaction socket reused))
      | _ => return .error .outOfMemory

/-- `close`, `clearTransaction` and `release` on a socket that nobody will use. -/
def abandoned (s : HttpClientSocket) : HttpClientSocket :=
  { s with
    socket := s.socket.close
    transaction := none
    recvBuffer := none
    sendBuffer := none
    released := true }

def abandon (id : Nat) : Program Unit := modifyClient id abandoned

/-- `executeClientTransaction`. -/
def executeClientTransaction (handler : HttpClientHandler) (transaction : HttpClientTransaction) :
    Program Error := do
  match ← create transaction with
  | .error error => return error
  | .ok id =>
      let error ← if ((← get).clients id).socket.connected then handler.beginTransaction id
        else pure .success
      if error ≠ .success then
        abandon id
        return HttpClientSocket.notAgain error
      else
        let error ← HttpClientSocket.addMultiplexed id
        if error ≠ .success then abandon id
        return error

/-- `release`, which the multiplexer calls on a dead socket: an open connection goes to the
pool, and the destructor releases a transaction that is still there. -/
def release (id : Nat) : Program Unit := do
  let w ← get
  let s := w.clients id
  if s.socket.connected then setPool (s.socket :: w.pool)
  HttpClientSocket.releaseTransaction id
  modifyClient id HttpClientSocket.releaseBuffers

end HttpClientSocketFactory

/-! ## The knot -/

section knot

variable (application : Streams → Handlers)

/-- The streams when no call may be nested any deeper. -/
def Streams.exhausted : Streams where
  sendEmptyResponse _ _ := return .shutdown
  sendResponse _ := return .shutdown
  sendResponseBody _ := return (.shutdown, 0)
  requestBodyAvailable := return (.shutdown, 0)
  readRequestBody _ := return (.shutdown, [])
  abortServer _ := return .shutdown
  responseBodyAvailable _ := return (.shutdown, 0)
  readResponseBody _ _ := return (.shutdown, [])
  sendRequestBody _ _ := return (.shutdown, 0)
  abortClient _ _ := return .shutdown
  executeClientTransaction _ := return .shutdown

/-- The streams as the sockets answer with these callbacks. -/
def Handlers.streams (h : Handlers) (execute : HttpClientTransaction → Program Error)
    (turns : Nat) : Streams where
  sendEmptyResponse := HttpServerSocket.sendEmptyResponse h.server h.serverBody turns
  sendResponse := HttpServerSocket.sendResponse h.server h.serverBody turns
  sendResponseBody := HttpServerSocket.sendResponseBody h.server turns
  requestBodyAvailable := HttpServerSocket.requestBodyAvailable h.server turns
  readRequestBody := HttpServerSocket.readRequestBody h.server turns
  abortServer := HttpServerSocket.abort h.server
  responseBodyAvailable := HttpClientSocket.responseBodyAvailable h.client turns
  readResponseBody := HttpClientSocket.readResponseBody h.client turns
  sendRequestBody := HttpClientSocket.sendRequestBody h.client turns
  abortClient := HttpClientSocket.abort h.client execute
  executeClientTransaction := HttpClientSocketFactory.executeClientTransaction h.client

/-- The streams for calls nested at most `depth` deep. -/
def streams : Nat → Streams
  | 0 => .exhausted
  | depth + 1 =>
      (application (streams depth)).streams (streams depth).executeClientTransaction depth

/-- The callbacks as an event runs them. -/
def handlers (depth : Nat) : Handlers := application (streams application depth)

end knot

end Everscale
