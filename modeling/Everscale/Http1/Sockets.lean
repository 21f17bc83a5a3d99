/-
# Everscale.Http1.Sockets -- the sockets of one proxied connection

The objects that the HTTP sockets are made of, and the world they live in: one server
connection, the client connections opened for it, the connection pool and the proxy's
context.  A program of the source that calls back and forth between them is a
`Program`, a function on that world.

`_state` is one integer in the source, the state in one bit and the flags in others; it
stays one here.

Whatever a system call, an allocation or the router may decide is on a list of the
world that the run is about: `outcomes` and `routes` are asked in turn.  What an
application does in its callbacks is on `scripts`.  The lists `transitions`, `finalFlushes`,
`calls`, `destroyed`, `misuses` and `released` record what happened and are read by no
program; so do `returned`, the sockets whose connections went back to the pool, and `retried`, those
whose transactions were executed once more.  `dead` is the multiplexer's list of sockets to
clean up.
-/
import Everscale.Theory.Kept
import Everscale.Base.ConnectedSocket
import Everscale.Http1.RequestParser
import Everscale.Http1.ResponseParser
import Everscale.Http1.RequestFormatter
import Everscale.Http1.ResponseFormatter

namespace Everscale

set_option autoImplicit false
set_option mvcgen.warning false

/-! ## The bits of `_state` -/

/-- `int _state`. -/
abbrev StateBits := BitVec 32

instance : LawfulBEq StateBits := inferInstance

/-- `state & mask` as a condition. -/
def has (state mask : StateBits) : Bool := state &&& mask != 0#32

abbrev SERVER_INACTIVE : StateBits := 1#32
abbrev SERVER_TRANSACTION_BEGIN : StateBits := 2#32
abbrev SERVER_PARSING_HEADERS : StateBits := 4#32
abbrev SERVER_PARSING_BODY : StateBits := 8#32
abbrev SERVER_SKIPPING_TRAILER : StateBits := 16#32
abbrev SERVER_FORMATTING_HEADERS : StateBits := 32#32
abbrev SERVER_FORMATTING_BODY : StateBits := 64#32
abbrev SERVER_FLUSHING_BODY : StateBits := 128#32
abbrev SERVER_TRANSACTION_END : StateBits := 256#32

abbrev SERVER_CANNOT_REUSE_CONNECTION : StateBits := 512#32
abbrev SERVER_RECV_PAUSED : StateBits := 1024#32
abbrev SERVER_SEND_PAUSED : StateBits := 2048#32
abbrev SERVER_ABORTED : StateBits := 4096#32
abbrev SERVER_LAST_CHUNK_RECEIVED : StateBits := 8192#32
abbrev SERVER_DEAD : StateBits := 16384#32

/-- The nine states together. -/
abbrev SERVER_STATE_MASK : StateBits := 511#32

/-- `SERVER_PARSING_BODY | SERVER_PARSING_HEADERS | SERVER_SKIPPING_TRAILER`. -/
abbrev SERVER_RECV_STATE_MASK : StateBits := 28#32

/-- `SERVER_FORMATTING_HEADERS | SERVER_FORMATTING_BODY | SERVER_FLUSHING_BODY`. -/
abbrev SERVER_SEND_STATE_MASK : StateBits := 224#32

abbrev INACTIVE : StateBits := 1#32
abbrev CONNECTING : StateBits := 2#32
abbrev TRANSACTION_BEGIN : StateBits := 4#32
abbrev FORMATTING_HEADERS : StateBits := 8#32
abbrev FORMATTING_BODY : StateBits := 16#32
abbrev FLUSHING_BODY : StateBits := 32#32
abbrev PARSING_HEADERS : StateBits := 64#32
abbrev PARSING_BODY : StateBits := 128#32
abbrev TRANSACTION_END : StateBits := 256#32

abbrev FIRST_USE_AFTER_REUSE : StateBits := 512#32
abbrev RECV_PAUSED : StateBits := 1024#32
abbrev SEND_PAUSED : StateBits := 2048#32
abbrev ABORTED : StateBits := 4096#32
abbrev LAST_CHUNK_RECEIVED : StateBits := 8192#32
abbrev DEAD : StateBits := 16384#32

abbrev STATE_MASK : StateBits := 511#32

/-- `PARSING_BODY | PARSING_HEADERS`. -/
abbrev RECV_STATE_MASK : StateBits := 192#32

/-- `FORMATTING_HEADERS | FORMATTING_BODY | FLUSHING_BODY`. -/
abbrev SEND_STATE_MASK : StateBits := 56#32

/-- The arguments of `advanceStateMachine` besides the handler. -/
structure AdvanceFlags where
  initialFillRecvBuffer : Bool := false
  initialDrainSendBuffer : Bool := false
  advanceRecv : Bool := false
  advanceSend : Bool := false
  deriving DecidableEq, Repr

/-! ## Transactions and sockets -/

/-- The proxy context a transaction points to, by its place in the order in which the
contexts were constructed. -/
abbrev ContextPointer := Nat

/-- `HttpServerTransaction`; the parser holds the request. -/
structure HttpServerTransaction where
  parser : HttpRequestParser
  formatter : HttpMessageFormatter ResponseFormatStage := HttpResponseFormatter.fresh
  response : HttpResponse := HttpResponse.fresh
  context : Option ContextPointer := none
  deriving DecidableEq

namespace HttpServerTransaction

def request (transaction : HttpServerTransaction) : HttpRequest := transaction.parser.message

/-- A fresh transaction with a parse buffer of the given size. -/
def fresh (parseBufferSize : Nat) : HttpServerTransaction :=
  { parser := HttpRequestParser.fresh (Buffer.create parseBufferSize) }

/-- `reset`. -/
def reset (transaction : HttpServerTransaction) : HttpServerTransaction :=
  let parser := HttpRequestParser.fresh transaction.parser.working.clear
  { parser := { parser with message := transaction.request.reset {} }
    response := transaction.response.reset {} }

end HttpServerTransaction

/-- `HttpClientTransaction`; the parser holds the response.  `id` tells the objects
apart.  What was formatted for it, on any connection, is on record. -/
structure HttpClientTransaction where
  id : Nat
  peerAddress : Nat := 0
  request : HttpRequest := HttpRequest.fresh
  parser : HttpResponseParser
  formatter : HttpMessageFormatter RequestLineFormat := HttpRequestFormatter.fresh
  context : Option ContextPointer := none
  formatted : List Octet := []
  deriving DecidableEq

namespace HttpClientTransaction

def response (transaction : HttpClientTransaction) : HttpResponse := transaction.parser.message

def fresh (id parseBufferSize : Nat) : HttpClientTransaction :=
  { id, parser := HttpResponseParser.fresh (Buffer.create parseBufferSize) }

end HttpClientTransaction

/-- A call of `stateTransition`: the bits before it, the state it is for, what the connection
has been handed, what the send buffer still holds, what was formatted and whether the socket has
given up its buffers. -/
structure Transition where
  before : StateBits
  target : StateBits
  sent : List Octet
  unsent : List Octet
  formatted : List Octet
  released : Bool
  deriving DecidableEq, Repr

/-- A flush at the end of a message, as it begins: what the connection has been handed, what
the send buffer holds, and what the writes are going to come to. -/
structure FinalFlush where
  sent : List Octet
  unsent : List Octet
  departures : List Departure
  deriving DecidableEq, Repr

/-- A call of `formatHeaders`: the message, the formatter and the send buffer as they were. -/
structure HeadCall (χ ρ : Type) where
  message : HttpMessage ρ
  formatter : HttpMessageFormatter χ
  output : Buffer
  deriving DecidableEq

/-- The functions of a parser that a socket calls. -/
inductive ParserFunction where
  | parseHeaders
  | parseBody
  /-- with what the socket counts as available -/
  | consumeBody (bytesConsumed bytesAvailable : Nat)
  | skipTrailer
  deriving DecidableEq, Repr

/-- A call of a parser function: the bits of the socket and the parser as they were, the octets
found unread and the code returned. -/
structure ParserCall (χ ρ : Type) where
  function : ParserFunction
  state : StateBits
  parser : HttpMessageParser χ ρ
  unread : List Octet
  code : Error
  deriving DecidableEq

/-- What a buffer that may be missing holds unread. -/
def unreadOf (b : Option Buffer) : List Octet := (b.map Buffer.unread).getD []

/-- What a formatter put behind what the buffer held before. -/
def appended (b b' : Buffer) : List Octet := b'.unread.drop b.unread.length

/-- `HttpServerSocket`.  `multiplexed` says whether the multiplexer has it.  On record are also what
was formatted for the connection, the calls of the formatter of headers, and whether the buffers were
released. -/
structure HttpServerSocket where
  state : StateBits := SERVER_TRANSACTION_BEGIN
  requestsPerConnection : Nat := 0
  bytesAvailable : Nat := 0
  transaction : Option HttpServerTransaction := none
  recvBuffer : Option Buffer := none
  sendBuffer : Option Buffer := none
  socket : ConnectedSocket := {}
  multiplexed : Bool := true
  transitions : List Transition := []
  finalFlushes : List FinalFlush := []
  calls : List (ParserCall RequestSub RequestLine) := []
  formatted : List Octet := []
  headCalls : List (HeadCall ResponseFormatStage StatusLine) := []
  released : Bool := false
  deriving DecidableEq

/-- `HttpClientSocket`.  On record are: the transaction it was constructed for, what of the
request's body was taken from the handler, how much had been read from the connection and what it
had been handed before, how long the head and the body of the response are, whether a handler consumed
octets that had been consumed already, and what is on record of a server socket; `formatted` begins
with what was formatted for the transaction before. -/
structure HttpClientSocket where
  state : StateBits := CONNECTING
  bytesAvailable : Nat := 0
  transaction : Option HttpClientTransaction := none
  recvBuffer : Option Buffer := none
  sendBuffer : Option Buffer := none
  socket : ConnectedSocket := {}
  multiplexed : Bool := false
  transitions : List Transition := []
  finalFlushes : List FinalFlush := []
  original : Option HttpClientTransaction := none
  bodyTaken : List Octet := []
  receivedBefore : Nat := 0
  sentBefore : List Octet := []
  headLength : Nat := 0
  bodyLength : Nat := 0
  consumedTwice : Bool := false
  calls : List (ParserCall ResponseStage StatusLine) := []
  formatted : List Octet := []
  headCalls : List (HeadCall RequestLineFormat RequestLine) := []
  released : Bool := false
  deriving DecidableEq

/-- `HttpRoutingProxyContext`.  There is one server stream to point to. -/
structure HttpRoutingProxyContext where
  serverStream : Bool := false
  clientStream : Option Nat := none
  receivedOutboundResponse : Bool := false
  deriving DecidableEq, Repr

/-! ## Applications -/

/-- The callbacks an application has. -/
inductive Callback where
  | serverBeginTransaction
  | receiveRequestHeaders
  | consumeRequestBody
  | offerResponseBody
  | produceResponseBody
  | serverEndTransaction
  | clientBeginTransaction
  | receiveResponseHeaders
  | offerRequestBody
  | produceRequestBody
  | consumeResponseBody
  | endRequest
  | clientEndTransaction
  deriving DecidableEq, Repr

/-- What an application may call while it handles a callback.  A Boolean says whether the
multiplexer is told; the number after `client` is that of the socket. -/
inductive ApplicationCall where
  | pauseRecv (updateMultiplexer : Bool)
  | pauseSend (updateMultiplexer : Bool)
  | resumeRecv (updateMultiplexer : Bool)
  | resumeSend (updateMultiplexer : Bool)
  | abort (updateMultiplexer : Bool)
  | sendEmptyResponse (statusCode : Nat) (reasonPhrase : String)
  | sendResponse (response : HttpResponse)
  | sendResponseBody (chunk : List Octet)
  | requestBodyAvailable
  | readRequestBody (bytesRequested : Nat)
  | clientPauseRecv (id : Nat) (updateMultiplexer : Bool)
  | clientPauseSend (id : Nat) (updateMultiplexer : Bool)
  | clientResumeRecv (id : Nat) (updateMultiplexer : Bool)
  | clientResumeSend (id : Nat) (updateMultiplexer : Bool)
  | clientAbort (id : Nat) (updateMultiplexer : Bool)
  | responseBodyAvailable (id : Nat)
  | readResponseBody (id bytesRequested : Nat)
  | sendRequestBody (id : Nat) (chunk : List Octet)
  | execute (peerAddress : Nat) (request : HttpRequest)
  deriving DecidableEq

/-- What an application does in one callback: the calls it makes, the code it returns, the
size it offers or consumes and the octets it produces. -/
structure Script where
  calls : List ApplicationCall := []
  result : Error := .success
  size : Nat := 0
  body : List Octet := []
  deriving DecidableEq

/-! ## The world -/

/-- What the code of one multiplexer thread works on.  A server transaction takes the
memory of its proxy context first thing from its own allocator, which hands out the same
block after every `reset`: the contexts of a server connection all live in one place,
`context`.  `liveContext` is the one that lives there, `contexts` the number constructed. -/
structure World where
  server : HttpServerSocket
  clients : Nat → HttpClientSocket := fun _ => {}
  clientSockets : Nat := 0
  pool : List ConnectedSocket := []
  context : HttpRoutingProxyContext := {}
  contexts : Nat := 0
  liveContext : Option ContextPointer := none
  clientTransactions : Nat := 0
  ioBufferSize : Nat
  parseBufferSize : Nat := 2048
  reuseConnections : Bool := true
  outcomes : List Error := []
  routes : List (Error × Nat) := []
  scripts : Callback → List Script := fun _ => []
  dead : List Nat := []
  destroyed : List ContextPointer := []
  misuses : List ContextPointer := []
  released : List Nat := []
  returned : List HttpClientSocket := []
  retried : List HttpClientSocket := []

abbrev Program := StateM World

/-- The next outcome of a call whose result the run does not determine; success when the
list has run out. -/
def ask : Program Error := fun w =>
  match w.outcomes with
  | [] => (.success, w)
  | outcome :: rest => (outcome, { w with outcomes := rest })

/-- A program that only reads and changes the server socket. -/
def onServer {α : Type} (f : HttpServerSocket → α × HttpServerSocket) : Program α := fun w =>
  ((f w.server).1, { w with server := (f w.server).2 })

def modifyServer (f : HttpServerSocket → HttpServerSocket) : Program Unit :=
  onServer fun s => ((), f s)

/-- A program that only reads and changes one client socket.  A socket that was never
opened is not there to be changed. -/
def onClient {α : Type} (id : Nat) (f : HttpClientSocket → α × HttpClientSocket) : Program α :=
  fun w =>
    ((f (w.clients id)).1,
      if id < w.clientSockets then
        { w with clients := Function.update w.clients id (f (w.clients id)).2 }
      else w)

def modifyClient (id : Nat) (f : HttpClientSocket → HttpClientSocket) : Program Unit :=
  onClient id fun s => ((), f s)

/-- The second program runs when the first returns success. -/
def Program.andThen (first second : Program Error) : Program Error := do
  match ← first with
  | .success => second
  | error => return error

/-! ## What programs keep true -/

open Std.Do

theorem onServer_triple {α : Type} {P : World → Prop} {f : HttpServerSocket → α × HttpServerSocket}
    {Q : α → World → Prop} (h : ∀ w, P w → Q (f w.server).1 { w with server := (f w.server).2 }) :
    ⦃fun w => ⌜P w⌝⦄ onServer f ⦃⇓ a w => ⌜Q a w⌝⦄ :=
  triple_iff.2 h

theorem onClient_triple {α : Type} {id : Nat} {P : World → Prop}
    {f : HttpClientSocket → α × HttpClientSocket} {Q : α → World → Prop}
    (h : ∀ w, P w → id < w.clientSockets → Q (f (w.clients id)).1
      { w with clients := Function.update w.clients id (f (w.clients id)).2 })
    (unopened : ∀ w, P w → w.clientSockets ≤ id → Q (f (w.clients id)).1 w) :
    ⦃fun w => ⌜P w⌝⦄ onClient id f ⦃⇓ a w => ⌜Q a w⌝⦄ := by
  refine triple_iff.2 fun w start => ?_
  by_cases opened : id < w.clientSockets
  · simpa only [onClient, opened, if_true] using h w start opened
  · simpa only [onClient, opened, if_false] using unopened w start (Nat.le_of_not_lt opened)

theorem andThen_triple {P : World → Prop} {M Q : Error → World → Prop} {first second : Program Error}
    (h : ⦃fun w => ⌜P w⌝⦄ first ⦃⇓ e w => ⌜M e w⌝⦄)
    (h' : ⦃fun w => ⌜M .success w⌝⦄ second ⦃⇓ e w => ⌜Q e w⌝⦄)
    (failed : ∀ e w, e ≠ .success → M e w → Q e w) :
    ⦃fun w => ⌜P w⌝⦄ first.andThen second ⦃⇓ e w => ⌜Q e w⌝⦄ := by
  mvcgen [Program.andThen, h, h']
  exact failed _ _ (by assumption) (by assumption)

end Everscale
