/-
# Everscale.Http1.SocketInvariant -- what holds of every socket

Most of what can be said of a connection is said of its socket alone.  `ServerKeeps` and
`ClientKeeps` list the functions that change a socket; a predicate that they keep holds, in
every run, of the server socket and of every client socket, and of those on record as well
(`runScripted_sockets`).

`P` and `Q` hold of a socket all the time.  `M state` and `N state` are what is known
besides while a machine works in a state; once known it has to stay true.
-/
import Everscale.Http1.SystemMachine

namespace Everscale

set_option autoImplicit false
set_option mvcgen.warning false

open Std.Do
open HttpServerSocket (ServerState)
open HttpClientSocket (ClientState)

/-- Wherever `Q` and `condition` hold, `f` keeps `Q`, and every `N` that holds. -/
def Keeps {S X : Type} (Q : S → Prop) (N : X → S → Prop) (condition : S → Prop) (f : S → S) : Prop :=
  ∀ s, Q s → condition s → Q (f s) ∧ ∀ state, N state s → N state (f s)

/-- Where nothing is known besides, a function keeps what it keeps. -/
theorem keeps_of_kept {S X : Type} {Q condition : S → Prop} {f : S → S}
    (h : ∀ s, Q s → Q (f s)) : Keeps Q (fun (_ : X) _ => True) condition f :=
  fun s holds _ => ⟨h s holds, fun _ _ => trivial⟩

/-! ## States and flags -/

/-- A flag outside the mask leaves the state alone. -/
theorem or_and_of_outside {state flag mask : StateBits} (outside : flag &&& mask = 0#32) :
    (state ||| flag) &&& mask = state &&& mask := by
  ext i inside
  have bit := congrArg (fun bits : StateBits => bits[i]) outside
  simp only [BitVec.getElem_and, BitVec.getElem_or, BitVec.getElem_zero] at bit ⊢
  rw [Bool.and_or_distrib_right, bit, Bool.or_false]

theorem and_not_and_of_outside {state flag mask : StateBits} (outside : flag &&& mask = 0#32) :
    state &&& ~~~flag &&& mask = state &&& mask := by
  ext i inside
  have bit := congrArg (fun bits : StateBits => bits[i]) outside
  simp only [BitVec.getElem_and, BitVec.getElem_not, BitVec.getElem_zero] at bit ⊢
  revert bit
  generalize state[i] = x
  generalize flag[i] = y
  generalize mask[i] = z
  revert x y z
  decide

theorem cleared_and (state mask : StateBits) : state &&& ~~~mask &&& mask = 0#32 := by
  ext i inside
  simp

/-- A state that is set replaces the one before. -/
theorem replaced_and {state target mask : StateBits} (within : target &&& mask = target) :
    (state &&& ~~~mask ||| target) &&& mask = target := by
  ext i inside
  have bit := congrArg (fun bits : StateBits => bits[i]) within
  simp only [BitVec.getElem_and, BitVec.getElem_or, BitVec.getElem_not] at bit ⊢
  revert bit
  generalize state[i] = x
  generalize target[i] = y
  generalize mask[i] = z
  revert x y z
  decide

theorem masked_and (target mask : StateBits) : target &&& mask &&& mask = target &&& mask := by
  rw [BitVec.and_assoc, BitVec.and_self]

theorem HttpClientSocket.stateTransition_masked (target : StateBits) (s : HttpClientSocket) :
    (s.stateTransition target).state &&& STATE_MASK =
      if target &&& STATE_MASK ∈ HttpClientSocket.states then target &&& STATE_MASK else 0#32 := by
  unfold HttpClientSocket.stateTransition
  dsimp only
  split
  · exact replaced_and (masked_and _ _)
  · exact cleared_and _ _

theorem HttpServerSocket.stateTransition_masked (target : StateBits) (s : HttpServerSocket) :
    (s.stateTransition target).state &&& SERVER_STATE_MASK =
      if target &&& SERVER_STATE_MASK ∈ HttpServerSocket.states then target &&& SERVER_STATE_MASK
      else 0#32 := by
  unfold HttpServerSocket.stateTransition
  dsimp only
  split
  · rename_i begins
    rw [begins, if_pos (by decide)]
    decide
  · split
    · exact replaced_and (masked_and _ _)
    · exact cleared_and _ _

theorem serverFlag_outside {flag : StateBits} (known : flag ∈ serverFlags) :
    flag &&& SERVER_STATE_MASK = 0#32 := by
  simp only [serverFlags, List.mem_cons, List.not_mem_nil, or_false] at known
  rcases known with rfl | rfl | rfl <;> decide

theorem clientFlag_outside {flag : StateBits} (known : flag ∈ clientFlags) :
    flag &&& STATE_MASK = 0#32 := by
  simp only [clientFlags, List.mem_cons, List.not_mem_nil, or_false] at known
  rcases known with rfl | rfl | rfl <;> decide

/-! ## The functions of a socket -/

section server

variable (size : Nat) (P : HttpServerSocket → Prop) (M : ServerState → HttpServerSocket → Prop)

/-- The functions that parse headers.  `F` holds between a failure and the transition that
answers it. -/
structure ParseKeeps (F : HttpServerSocket → Prop) : Prop where
  known : ∀ s, P s → M .parsingHeaders s → ∀ state, M state s → M state s.parseHeaders.2
  parsed : ∀ s, P s → M .parsingHeaders s → s.isIn .parsingHeaders → s.parseHeaders.1 = .success →
    P s.parseHeaders.2 ∧ M .parsingBody s.parseHeaders.2
  waits : ∀ s, P s → M .parsingHeaders s → s.isIn .parsingHeaders → s.parseHeaders.1 = .again →
    P s.parseHeaders.2
  failed : ∀ s, P s → M .parsingHeaders s → s.isIn .parsingHeaders → s.parseHeaders.1 ≠ .success →
    s.parseHeaders.1 ≠ .again → F s.parseHeaders.2
  modifyResponse : ∀ f, Keeps F M (fun _ => True) (HttpServerSocket.modifyResponse f)
  rejected : ∀ s, F s → P (s.stateTransition SERVER_FORMATTING_HEADERS) ∧
    ∀ state, M state s → M state (s.stateTransition SERVER_FORMATTING_HEADERS)

/-- The functions of a server socket, whose buffers have the capacity `size`. -/
structure ServerKeeps : Prop where
  enter : ∀ s state, P s → s.isIn state → M state s
  addFlag : ∀ flag ∈ SERVER_CANNOT_REUSE_CONNECTION :: serverFlags,
    Keeps P M (fun _ => True) (HttpServerSocket.addFlag flag)
  clearFlag : ∀ flag ∈ serverFlags, Keeps P M (fun _ => True) (HttpServerSocket.clearFlag flag)
  markDead : Keeps P M (fun _ => True) HttpServerSocket.markDead
  recvBuffer : Keeps P M (fun s => s.recvBuffer = none)
    fun s => { s with recvBuffer := some (Buffer.create size) }
  sendBuffer : Keeps P M (fun s => s.sendBuffer = none)
    fun s => { s with sendBuffer := some (Buffer.create size) }
  create : ∀ size, Keeps P M (fun s => s.transaction = none)
    fun s => { s with transaction := some (HttpServerTransaction.fresh size) }
  modifyResponse : ∀ f, Keeps P M (fun _ => True) (HttpServerSocket.modifyResponse f)
  count : Keeps P M (M .end)
    fun s => { s with requestsPerConnection := s.requestsPerConnection + 1 }
  refill : Keeps P M (fun _ => True) fun s => s.refill.2
  flushSendBuffer : Keeps P M (fun _ => True) fun s => s.flushSendBuffer.2
  begun : Keeps P M (M .begin)
    (HttpServerSocket.conditionalStateTransition SERVER_TRANSACTION_BEGIN SERVER_PARSING_HEADERS)
  answered : ∀ state, Keeps P M (M state)
    (HttpServerSocket.stateTransition SERVER_FORMATTING_HEADERS)
  answeredEarly : Keeps P M (M .parsingBody)
    (HttpServerSocket.conditionalStateTransition SERVER_PARSING_BODY SERVER_FORMATTING_HEADERS)
  parsing : ∃ F, ParseKeeps P M F
  nextChunk : Keeps P M (M .parsingBody) fun s => s.nextChunk.2
  lastChunk : ∀ s, P s → M .parsingBody s → s.nextChunk.1 = (.success, 0) →
    M .skippingTrailer s.nextChunk.2
  consumeBody : ∀ n, Keeps P M (fun _ => True) fun s => (s.consumeBody n).2
  stateSkipTrailer : Keeps P M (M .skippingTrailer) fun s => s.stateSkipTrailer.2
  formatHeaders : Keeps P M (M .formattingHeaders) fun s => s.formatHeaders.2
  formatStartChunk : ∀ n, Keeps P M (M .formattingBody) fun s => (s.formatStartChunk n).2
  formatEndChunk : ∀ produced n, Keeps P M (M .formattingBody)
    fun s => (s.formatEndChunk produced n).2
  endBody : Keeps P M (M .formattingBody) fun s => s.endBody.2
  stateFlushResponseBody : Keeps P M (M .flushingBody) fun s => s.stateFlushResponseBody.2
  next : Keeps P M (fun s => M .end s ∧ ¬ s.mustClose) fun s =>
    let s := s.stateTransition SERVER_TRANSACTION_BEGIN
    { s with transaction := s.transaction.map HttpServerTransaction.reset }
  releaseBuffers : Keeps P M (fun _ => True) HttpServerSocket.releaseBuffers
  ended : Keeps P M (fun _ => True)
    fun s => HttpServerSocket.deactivate { s with transaction := none }
  supply : ∀ arrivals departures wants, Keeps P M (fun _ => True)
    fun s => { s with socket := s.socket.supply arrivals departures wants }

variable {P M}

/-- Where a failure to parse headers makes no difference. -/
theorem parseKeeps_of_kept
    (parseHeaders : Keeps P M (M .parsingHeaders) fun s => s.parseHeaders.2)
    (parsed : ∀ s, P s → M .parsingHeaders s → s.parseHeaders.1 = .success →
      M .parsingBody s.parseHeaders.2)
    (modifyResponse : ∀ f, Keeps P M (fun _ => True) (HttpServerSocket.modifyResponse f))
    (rejected : Keeps P M (fun _ => True)
      (HttpServerSocket.stateTransition SERVER_FORMATTING_HEADERS)) : ∃ F, ParseKeeps P M F :=
  ⟨P,
    { known := fun s holds here => (parseHeaders s holds here).2
      parsed := fun s holds here _ success => ⟨(parseHeaders s holds here).1, parsed s holds here success⟩
      waits := fun s holds here _ _ => (parseHeaders s holds here).1
      failed := fun s holds here _ _ _ => (parseHeaders s holds here).1
      modifyResponse
      rejected := fun s holds => rejected s holds trivial }⟩

end server

/-- Nothing has to hold of a server socket. -/
theorem serverKeeps_nothing (size : Nat) : ServerKeeps size (fun _ => True) fun _ _ => True := by
  constructor
  case parsing =>
    exact parseKeeps_of_kept (keeps_of_kept fun _ h => h) (fun _ _ _ _ => trivial)
      (fun _ => keeps_of_kept fun _ h => h) (keeps_of_kept fun _ h => h)
  all_goals intros
  all_goals first
    | trivial
    | exact fun _ _ _ => ⟨trivial, fun _ _ => trivial⟩

section client

variable (size : Nat) (reuse : Bool) (T : HttpClientTransaction → Prop)
  (Q : HttpClientSocket → Prop) (N : ClientState → HttpClientSocket → Prop)

/-- The functions of a client socket, whose buffers have the capacity `size`; `reuse` says
whether connections are to be reused.  `T` holds of the transactions of sockets. -/
structure ClientKeeps : Prop where
  fresh : ∀ id parseBufferSize peerAddress request,
    T { HttpClientTransaction.fresh id parseBufferSize with peerAddress, request }
  transaction : ∀ s, Q s → ∀ transaction ∈ s.transaction, T transaction
  enter : ∀ s state, Q s → s.isIn state → N state s
  unopened : Q {}
  construct : ∀ transaction socket reused, T transaction →
    Q (HttpClientSocketFactory.construct transaction socket reused)
  addFlag : ∀ flag ∈ clientFlags, Keeps Q N (fun _ => True) (HttpClientSocket.addFlag flag)
  clearFlag : ∀ flag ∈ clientFlags, Keeps Q N (fun _ => True) (HttpClientSocket.clearFlag flag)
  markDead : Keeps Q N (fun _ => True) HttpClientSocket.markDead
  markMultiplexed : Keeps Q N (fun _ => True) HttpClientSocket.markMultiplexed
  established : Keeps Q N (fun _ => True) established
  connected : Keeps Q N (fun _ => True) (HttpClientSocket.stateTransition TRANSACTION_BEGIN)
  recvBuffer : Keeps Q N (fun s => s.recvBuffer = none)
    fun s => { s with recvBuffer := some (Buffer.create size) }
  sendBuffer : Keeps Q N (fun s => s.sendBuffer = none)
    fun s => { s with sendBuffer := some (Buffer.create size) }
  refill : Keeps Q N (fun _ => True) fun s => s.refill.2
  flushSendBuffer : Keeps Q N (fun _ => True) fun s => s.flushSendBuffer.2
  announce : reuse = false → Keeps Q N
    (fun s => s.transaction.any fun t => (t.request.findHeader "Connection").isNone)
    (HttpClientSocket.modifyRequest HttpClientSocket.addClose)
  begun : Keeps Q N (N .begin) (HttpClientSocket.stateTransition FORMATTING_HEADERS)
  formatHeaders : Keeps Q N (N .formattingHeaders) fun s => s.formatHeaders.2
  formatStartChunk : ∀ n, Keeps Q N (N .formattingBody) fun s => (s.formatStartChunk n).2
  formatEndChunk : ∀ produced n, Keeps Q N (N .formattingBody)
    fun s => (s.formatEndChunk produced n).2
  endBody : Keeps Q N (N .formattingBody) fun s => s.endBody.2
  flushRequestBody : Keeps Q N (N .flushingBody) fun s => s.flushRequestBody.2
  flushed : ∀ s, Q s → N .flushingBody s → s.flushRequestBody.1 = .success →
    N .parsingHeaders s.flushRequestBody.2
  parseHeaders : Keeps Q N (N .parsingHeaders) fun s => s.parseHeaders.2
  parsed : ∀ s, Q s → N .parsingHeaders s → s.parseHeaders.1 = .success →
    N .parsingBody s.parseHeaders.2
  nextChunk : Keeps Q N (N .parsingBody) fun s => s.nextChunk.2
  lastChunk : ∀ s, Q s → N .parsingBody s → s.nextChunk.1 = (.success, 0) → N .end s.nextChunk.2
  consumeBody : ∀ n, Keeps Q N (fun _ => True) fun s => (s.consumeBody n).2
  releaseBuffers : Keeps Q N (fun _ => True) HttpClientSocket.releaseBuffers
  closeSocket : Keeps Q N (fun _ => True) HttpClientSocket.closeSocket
  noTransaction : Keeps Q N (fun _ => True) fun s => { s with transaction := none }
  deactivate : Keeps Q N (fun _ => True) HttpClientSocket.deactivate
  abandoned : Keeps Q N (fun _ => True) HttpClientSocketFactory.abandoned
  supply : ∀ arrivals departures wants, Keeps Q N (fun _ => True)
    fun s => { s with socket := s.socket.supply arrivals departures wants }

end client

/-! ## The world -/

/-- The server connection has been accepted, and nothing has happened yet. -/
structure World.Accepted (w : World) : Prop where
  server : w.server = { socket := w.server.socket }
  clients : w.clients = fun _ => {}
  clientSockets : w.clientSockets = 0
  returned : w.returned = []
  retried : w.retried = []

/-- In which states the machines are known to work. -/
structure Known where
  server : ServerState → Prop
  client : Nat → ClientState → Prop

namespace Known

def nothing : Known := ⟨fun _ => False, fun _ _ => False⟩

def atServer (k : Known) (state : ServerState) : Known :=
  { k with server := fun other => k.server other ∨ other = state }

def atClient (k : Known) (id : Nat) (state : ClientState) : Known :=
  { k with client := fun id' other => k.client id' other ∨ id' = id ∧ other = state }

end Known

section world

variable (size : Nat) (reuse : Bool) (P : HttpServerSocket → Prop)
  (M : ServerState → HttpServerSocket → Prop) (Q : HttpClientSocket → Prop)
  (N : ClientState → HttpClientSocket → Prop)

/-- The predicates hold of all sockets. -/
structure SocketsHold (k : Known) (w : World) : Prop where
  server : P w.server
  serverKnown : ∀ state, k.server state → M state w.server
  client : ∀ id, Q (w.clients id)
  clientKnown : ∀ id state, k.client id state → N state (w.clients id)
  opened : ∀ id state, k.client id state → id < w.clientSockets
  unopened : ∀ id, w.clientSockets ≤ id → w.clients id = {}
  returned : ∀ s ∈ w.returned, Q s ∧ s.reuseConnection reuse
  retried : ∀ s ∈ w.retried, Q s ∧ s.isStale
  size_eq : w.ioBufferSize = size
  reuse_eq : w.reuseConnections = reuse

variable {size reuse P M Q N} {T : HttpClientTransaction → Prop} {k : Known} {w : World}

namespace SocketsHold

variable (holds : SocketsHold size reuse P M Q N k w)

include holds

theorem onServer {condition : HttpServerSocket → Prop} {f : HttpServerSocket → HttpServerSocket}
    (keeps : Keeps P M condition f) (here : condition w.server) :
    SocketsHold size reuse P M Q N k { w with server := f w.server } :=
  have kept := keeps _ holds.server here
  { holds with
    server := kept.1
    serverKnown := fun state known => kept.2 state (holds.serverKnown state known) }

theorem onClient {id : Nat} {condition : HttpClientSocket → Prop}
    {f : HttpClientSocket → HttpClientSocket} (keeps : Keeps Q N condition f)
    (here : condition (w.clients id)) (opened : id < w.clientSockets) :
    SocketsHold size reuse P M Q N k
      { w with clients := Function.update w.clients id (f (w.clients id)) } := by
  have kept := keeps _ (holds.client id) here
  refine { holds with client := ?_, clientKnown := ?_, unopened := ?_ }
  · intro id'
    by_cases same : id' = id
    · subst same; simpa using kept.1
    · simpa [Function.update_of_ne same] using holds.client id'
  · intro id' state known
    by_cases same : id' = id
    · subst same; simpa using kept.2 state (holds.clientKnown id' state known)
    · simpa [Function.update_of_ne same] using holds.clientKnown id' state known
  · intro id' later
    have later : w.clientSockets ≤ id' := later
    have ne : id' ≠ id := by omega
    simpa [Function.update_of_ne ne] using holds.unopened id' later

theorem atServer {state : ServerState} (known : M state w.server) :
    SocketsHold size reuse P M Q N (k.atServer state) w :=
  { holds with
    serverKnown := fun other either => either.elim (holds.serverKnown other) fun same => same ▸ known }

theorem atClient {id : Nat} {state : ClientState} (known : N state (w.clients id))
    (opened : id < w.clientSockets) :
    SocketsHold size reuse P M Q N (k.atClient id state) w :=
  { holds with
    clientKnown := fun id' other either =>
      either.elim (holds.clientKnown id' other) fun ⟨same, same'⟩ => same ▸ same' ▸ known
    opened := fun id' other either =>
      either.elim (holds.opened id' other) fun ⟨same, _⟩ => same ▸ opened }

end SocketsHold

theorem SocketsHold.ofServer {state : ServerState}
    (holds : SocketsHold size reuse P M Q N (k.atServer state) w) :
    SocketsHold size reuse P M Q N k w ∧ M state w.server :=
  ⟨{ holds with serverKnown := fun other known => holds.serverKnown other (.inl known) },
    holds.serverKnown state (.inr rfl)⟩

theorem SocketsHold.ofClient {id : Nat} {state : ClientState}
    (holds : SocketsHold size reuse P M Q N (k.atClient id state) w) :
    SocketsHold size reuse P M Q N k w ∧ N state (w.clients id) ∧ id < w.clientSockets :=
  ⟨{ holds with
      clientKnown := fun id' other known => holds.clientKnown id' other (.inl known)
      opened := fun id' other known => holds.opened id' other (.inl known) },
    holds.clientKnown id state (.inr ⟨rfl, rfl⟩), holds.opened id state (.inr ⟨rfl, rfl⟩)⟩

/-! ## Programs on one socket -/

/-- A program on the server socket keeps what its function keeps. -/
theorem onServer_kept {α : Type} {condition : HttpServerSocket → Prop}
    {f : HttpServerSocket → α × HttpServerSocket} (keeps : Keeps P M condition fun s => (f s).2)
    (here : ∀ w, SocketsHold size reuse P M Q N k w → condition w.server) :
    Kept (SocketsHold size reuse P M Q N k) (onServer f) :=
  onServer_triple fun w holds => holds.onServer keeps (here w holds)

/-- A program on a client socket keeps what its function keeps. -/
theorem onClient_kept {α : Type} {id : Nat} {condition : HttpClientSocket → Prop}
    {f : HttpClientSocket → α × HttpClientSocket} (keeps : Keeps Q N condition fun s => (f s).2)
    (here : ∀ w, SocketsHold size reuse P M Q N k w → condition (w.clients id)) :
    Kept (SocketsHold size reuse P M Q N k) (onClient id f) :=
  onClient_triple (fun w holds opened => holds.onClient keeps (here w holds) opened)
    fun _ holds _ => holds

theorem modifyServer_kept {f : HttpServerSocket → HttpServerSocket}
    (keeps : Keeps P M (fun _ => True) f) :
    Kept (SocketsHold size reuse P M Q N k) (modifyServer f) :=
  kept_iff.2 fun _ holds => holds.onServer keeps trivial

theorem modifyClient_kept {id : Nat} {f : HttpClientSocket → HttpClientSocket}
    (keeps : Keeps Q N (fun _ => True) f) :
    Kept (SocketsHold size reuse P M Q N k) (modifyClient id f) :=
  onClient_kept keeps fun _ _ => trivial

/-- What is known of a machine at work need not be said afterwards. -/
theorem server_forget {α : Type} {state : ServerState} {p : Program α}
    (kept : Kept (SocketsHold size reuse P M Q N (k.atServer state)) p) :
    ⦃fun w => ⌜SocketsHold size reuse P M Q N (k.atServer state) w⌝⦄ p
    ⦃⇓ _ w => ⌜SocketsHold size reuse P M Q N k w⌝⦄ :=
  triple_iff.2 fun w holds => (kept_iff.1 kept w holds).ofServer.1

theorem client_forget {α : Type} {id : Nat} {state : ClientState} {p : Program α}
    (kept : Kept (SocketsHold size reuse P M Q N (k.atClient id state)) p) :
    ⦃fun w => ⌜SocketsHold size reuse P M Q N (k.atClient id state) w⌝⦄ p
    ⦃⇓ _ w => ⌜SocketsHold size reuse P M Q N k w⌝⦄ :=
  triple_iff.2 fun w holds => (kept_iff.1 kept w holds).ofClient.1

/-! ## The server's machine -/

theorem ask_keeps {I : World → Prop} (h : ∀ w outcomes, I w → I { w with outcomes }) :
    Kept I ask := by
  refine kept_iff.2 fun w holds => ?_
  unfold ask
  split
  · exact holds
  · exact h w _ holds

theorem ask_kept (k : Known) : Kept (SocketsHold size reuse P M Q N k) ask :=
  ask_keeps fun _ _ holds => { holds with }

section server

variable (server : ServerKeeps size P M)

/-- Acquiring keeps what the function that provides keeps. -/
theorem acquire_kept (k : Known) {isMissing : HttpServerSocket → Bool}
    {provide : World → HttpServerSocket → HttpServerSocket}
    (keeps : ∀ w, SocketsHold size reuse P M Q N k w →
      Keeps P M (fun s => isMissing s = true) (provide w)) :
    Kept (SocketsHold size reuse P M Q N k) (HttpServerSocket.acquire isMissing provide) := by
  have asked : Kept (fun w => SocketsHold size reuse P M Q N k w ∧ isMissing w.server = true) ask :=
    ask_keeps fun _ _ ⟨holds, missing⟩ => ⟨{ holds with }, missing⟩
  mvcgen [HttpServerSocket.acquire, asked]
  all_goals clear asked
  all_goals try grind
  rename_i holds
  exact holds.1.onServer (keeps _ holds.1) holds.2

include server

theorem acquireRecvBuffer_kept (k : Known) :
    Kept (SocketsHold size reuse P M Q N k) HttpServerSocket.acquireRecvBuffer :=
  acquire_kept k fun w holds s held missing => by
    simpa only [holds.size_eq] using server.recvBuffer s held (by simpa using missing)

theorem acquireSendBuffer_kept (k : Known) :
    Kept (SocketsHold size reuse P M Q N k) HttpServerSocket.acquireSendBuffer :=
  acquire_kept k fun w holds s held missing => by
    simpa only [holds.size_eq] using server.sendBuffer s held (by simpa using missing)

theorem createTransaction_kept (k : Known) :
    Kept (SocketsHold size reuse P M Q N k) HttpServerSocket.createTransaction :=
  acquire_kept k fun w _ s held missing => server.create w.parseBufferSize s held (by simpa using missing)

theorem fillReceiveBuffer_kept (k : Known) :
    Kept (SocketsHold size reuse P M Q N k) HttpServerSocket.fillReceiveBuffer := by
  have acquire : Kept (SocketsHold size reuse P M Q N k) HttpServerSocket.acquireRecvBuffer :=
    acquireRecvBuffer_kept server k
  have create : Kept (SocketsHold size reuse P M Q N k) HttpServerSocket.createTransaction :=
    createTransaction_kept server k
  have refill : Kept (SocketsHold size reuse P M Q N k) (onServer HttpServerSocket.refill) :=
    onServer_kept server.refill fun _ _ => trivial
  exact andThen_triple acquire (andThen_triple create refill fun _ _ _ h => h) fun _ _ _ h => h

omit server in
theorem setResponse_kept
    (modifyResponse : ∀ f, Keeps P M (fun _ => True) (HttpServerSocket.modifyResponse f))
    (k : Known) (statusCode : Nat) (reasonPhrase : String) :
    Kept (SocketsHold size reuse P M Q N k)
      (HttpServerSocket.setResponse statusCode reasonPhrase) := by
  have asked : Kept (SocketsHold size reuse P M Q N k) ask := ask_kept k
  have changed : ∀ f, Kept (SocketsHold size reuse P M Q N k)
      (modifyServer (HttpServerSocket.modifyResponse f)) :=
    fun f => onServer_kept (modifyResponse f) fun _ _ => trivial
  mvcgen [HttpServerSocket.setResponse, HttpServerSocket.addResponseHeader, asked, changed]

theorem copyResponse_kept (k : Known) (response : HttpResponse) :
    Kept (SocketsHold size reuse P M Q N k) (HttpServerSocket.copyResponse response) := by
  have asked : Kept (SocketsHold size reuse P M Q N k) ask := ask_kept k
  have changed : ∀ f, Kept (SocketsHold size reuse P M Q N k)
      (modifyServer (HttpServerSocket.modifyResponse f)) :=
    fun f => onServer_kept (server.modifyResponse f) fun _ _ => trivial
  mvcgen [HttpServerSocket.copyResponse, asked, changed]

/-- Until a failure is answered, `F` holds of the server socket in the place of `P`. -/
theorem parsing_of_keeps (k : Known) : ∃ F,
    HttpServerSocket.ParseSteps (SocketsHold size reuse P M Q N k)
      (fun state => SocketsHold size reuse P M Q N (k.atServer state)) F := by
  obtain ⟨F, keeps⟩ := server.parsing
  refine ⟨SocketsHold size reuse F M Q N k,
    { parse := triple_iff.2 fun w ⟨holds, here⟩ => ?_
      reject := setResponse_kept keeps.modifyResponse k
      rejected := triple_iff.2 fun w holds => ?_ }⟩
  · obtain ⟨before, known⟩ := holds.ofServer
    have others := keeps.known _ before.server known
    have parsed := keeps.parsed _ before.server known here
    have waits := keeps.waits _ before.server known here
    have failed := keeps.failed _ before.server known here
    show if w.server.parseHeaders.1 = .success then _
      else if w.server.parseHeaders.1 = .again then _ else _
    split
    · rename_i success
      exact
        { holds with
          server := (parsed success).1
          serverKnown := fun state either => either.elim
            (fun old => others state (before.serverKnown state old))
            fun same => same ▸ (parsed success).2 }
    · rename_i failure
      split
      · rename_i again
        exact
          { holds with
            server := waits again
            serverKnown := fun state either => others state (holds.serverKnown state either) }
      · rename_i stopped
        exact
          { before with
            server := failed failure stopped
            serverKnown := fun state old => others state (before.serverKnown state old) }
  · have answered := keeps.rejected _ holds.server
    exact
      { holds with
        server := answered.1
        serverKnown := fun state old => answered.2 state (holds.serverKnown state old) }

/-- The server's machine keeps what its functions keep. -/
theorem serverSteps_of_keeps (k : Known) :
    HttpServerSocket.ServerSteps (SocketsHold size reuse P M Q N k) (SocketsHold size reuse P M Q N k)
      fun state => SocketsHold size reuse P M Q N (k.atServer state) where
  enter state _ holds here := holds.atServer (server.enter _ state holds.server here)
  leave _ _ holds := holds.ofServer.1
  stop _ holds := holds
  fill := fillReceiveBuffer_kept server k
  drain := onServer_kept server.flushSendBuffer fun _ _ => trivial
  beginning := onServer_kept (server.addFlag _ List.mem_cons_self) fun _ _ => trivial
  begun := server_forget (onServer_kept server.begun fun _ holds => holds.ofServer.2)
  answeredAtOnce := server_forget (onServer_kept (server.answered _) fun _ holds => holds.ofServer.2)
  parsing := parsing_of_keeps server k
  answeredEarly := server_forget (onServer_kept server.answeredEarly fun _ holds => holds.ofServer.2)
  chunk := triple_iff.2 fun w holds => by
    have kept := holds.onServer server.nextChunk holds.ofServer.2
    have last := server.lastChunk _ holds.server holds.ofServer.2
    show if w.server.nextChunk.1 = (.success, 0) then _ else _
    split
    · rename_i ended
      exact kept.ofServer.1.atServer (last ended)
    · exact kept
  consume n := onServer_kept (server.consumeBody n) fun _ _ => trivial
  consumeStopped n := onServer_kept (server.consumeBody n) fun _ _ => trivial
  skip := server_forget (onServer_kept server.stateSkipTrailer fun _ holds => holds.ofServer.2)
  acquire := acquireSendBuffer_kept server _
  format := server_forget (onServer_kept server.formatHeaders fun _ holds => holds.ofServer.2)
  startChunk n := onServer_kept (server.formatStartChunk n) fun _ holds => holds.ofServer.2
  endChunk produced n := onServer_kept (server.formatEndChunk produced n) fun _ holds => holds.ofServer.2
  endBody := server_forget (onServer_kept server.endBody fun _ holds => holds.ofServer.2)
  flush := server_forget
    (onServer_kept server.stateFlushResponseBody fun _ holds => holds.ofServer.2)
  count := onServer_kept server.count fun _ holds => holds.ofServer.2
  next := triple_iff.2 fun w ⟨holds, open'⟩ =>
    { (holds.ofServer.1).onServer server.next ⟨holds.ofServer.2, open'⟩ with }

end server

/-! ## A client's machine -/

section client

variable (client : ClientKeeps size reuse T Q N)

/-- Acquiring keeps what the function that provides keeps. -/
theorem clientAcquire_kept (k : Known) (id : Nat) {isMissing : HttpClientSocket → Bool}
    {provide : World → HttpClientSocket → HttpClientSocket}
    (keeps : ∀ w, SocketsHold size reuse P M Q N k w →
      Keeps Q N (fun s => isMissing s = true) (provide w)) :
    Kept (SocketsHold size reuse P M Q N k) (HttpClientSocket.acquire id isMissing provide) := by
  have asked : Kept (fun w => SocketsHold size reuse P M Q N k w ∧
      isMissing (w.clients id) = true) ask :=
    ask_keeps fun _ _ ⟨holds, missing⟩ => ⟨{ holds with }, missing⟩
  -- what is provided may depend on the world in which it is
  have provided : ∀ v, ⦃fun w => ⌜(SocketsHold size reuse P M Q N k w ∧
      isMissing (w.clients id) = true) ∧ v = w⌝⦄ modifyClient id (provide v)
      ⦃⇓ _ w => ⌜SocketsHold size reuse P M Q N k w⌝⦄ :=
    fun v => onClient_triple
      (fun w start opened => start.1.1.onClient (start.2 ▸ keeps w start.1.1) start.1.2 opened)
      fun _ start _ => start.1.1
  mvcgen [HttpClientSocket.acquire, asked, provided]
  all_goals clear asked provided
  all_goals grind

include client

theorem clientFill_kept (k : Known) (id : Nat) :
    Kept (SocketsHold size reuse P M Q N k) (HttpClientSocket.fillReceiveBuffer id) := by
  have acquired : Kept (SocketsHold size reuse P M Q N k) (HttpClientSocket.acquireRecvBuffer id) :=
    clientAcquire_kept k id fun w holds s held missing => by
      simpa only [holds.size_eq] using client.recvBuffer s held (by simpa using missing)
  have refill : Kept (SocketsHold size reuse P M Q N k) (onClient id HttpClientSocket.refill) :=
    onClient_kept client.refill fun _ _ => trivial
  have filled := andThen_triple acquired refill fun _ _ _ h => h
  mvcgen [HttpClientSocket.fillReceiveBuffer, filled]

theorem clientSendBuffer_kept (k : Known) (id : Nat) :
    Kept (SocketsHold size reuse P M Q N k) (HttpClientSocket.acquireSendBuffer id) :=
  clientAcquire_kept k id fun w holds s held missing => by
    simpa only [holds.size_eq] using client.sendBuffer s held (by simpa using missing)

theorem announceClose_kept (k : Known) (id : Nat) :
    Kept (SocketsHold size reuse P M Q N k) (HttpClientSocket.announceClose id) := by
  have asked : Kept (fun w => SocketsHold size reuse P M Q N k w ∧ reuse = false ∧
      ((w.clients id).transaction.any fun t => (t.request.findHeader "Connection").isNone) = true)
      ask :=
    ask_keeps fun _ _ ⟨holds, unannounced⟩ => ⟨{ holds with }, unannounced⟩
  have announced : ⦃fun w => ⌜SocketsHold size reuse P M Q N k w ∧ reuse = false ∧
      ((w.clients id).transaction.any fun t => (t.request.findHeader "Connection").isNone) = true⌝⦄
      modifyClient id (HttpClientSocket.modifyRequest HttpClientSocket.addClose)
      ⦃⇓ _ w => ⌜SocketsHold size reuse P M Q N k w⌝⦄ :=
    onClient_triple
      (fun w start opened => start.1.onClient (client.announce start.2.1) start.2.2 opened)
      fun _ start _ => start.1
  mvcgen [HttpClientSocket.announceClose, asked, announced]
  all_goals clear asked announced
  all_goals try grind
  rename_i holds _ needed
  have same := holds.reuse_eq
  rw [same] at needed
  simp only [Bool.or_eq_true, Bool.not_eq_true', not_or, Bool.not_eq_true, Bool.not_eq_false] at needed
  exact ⟨holds, needed⟩

/-- The machine of a client keeps what its functions keep. -/
theorem clientSteps_of_keeps (k : Known) (id : Nat) :
    HttpClientSocket.ClientSteps (SocketsHold size reuse P M Q N k)
      (SocketsHold size reuse P M Q N k)
      (fun state => SocketsHold size reuse P M Q N (k.atClient id state)) id where
  enter state w holds here := by
    have opened : id < w.clientSockets := by
      by_contra unopened
      rw [holds.unopened id (Nat.le_of_not_lt unopened)] at here
      cases state <;> exact absurd here (by unfold HttpClientSocket.isIn; decide)
    exact holds.atClient (client.enter _ state (holds.client id) here) opened
  leave _ _ holds := holds.ofClient.1
  stop _ holds := holds
  fill := clientFill_kept client k id
  drain := onClient_kept client.flushSendBuffer fun _ _ => trivial
  announce := announceClose_kept client _ id
  begun := client_forget (onClient_kept client.begun fun _ holds => holds.ofClient.2.1)
  acquire := clientSendBuffer_kept client _ id
  format := client_forget (onClient_kept client.formatHeaders fun _ holds => holds.ofClient.2.1)
  startChunk n := onClient_kept (client.formatStartChunk n) fun _ holds => holds.ofClient.2.1
  endChunk produced n := onClient_kept (client.formatEndChunk produced n)
    fun _ holds => holds.ofClient.2.1
  endBody := client_forget (onClient_kept client.endBody fun _ holds => holds.ofClient.2.1)
  flush := onClient_triple
    (fun w holds opened => by
      have known := holds.ofClient.2.1
      have kept := holds.onClient client.flushRequestBody known opened
      have flushed := client.flushed _ (holds.client id) known
      split
      · rename_i success
        exact kept.ofClient.1.atClient (by simpa using flushed success) opened
      · exact kept.ofClient.1)
    fun _ holds unopened => absurd holds.ofClient.2.2 (Nat.not_lt.2 unopened)
  parse := onClient_triple
    (fun w holds opened => by
      have known := holds.ofClient.2.1
      have kept := holds.onClient client.parseHeaders known opened
      have parsed := client.parsed _ (holds.client id) known
      split
      · rename_i success
        exact kept.ofClient.1.atClient (by simpa using parsed success) opened
      · exact kept)
    fun _ holds unopened => absurd holds.ofClient.2.2 (Nat.not_lt.2 unopened)
  chunk := onClient_triple
    (fun w holds opened => by
      have known := holds.ofClient.2.1
      have kept := holds.onClient client.nextChunk known opened
      have last := client.lastChunk _ (holds.client id) known
      split
      · rename_i ended
        exact kept.ofClient.1.atClient (by simpa using last ended) opened
      · exact kept)
    fun _ holds unopened => absurd holds.ofClient.2.2 (Nat.not_lt.2 unopened)
  consume n := onClient_kept (client.consumeBody n) fun _ _ => trivial
  consumeStopped n := onClient_kept (client.consumeBody n) fun _ _ => trivial

end client

/-! ## The whole thread -/

section system

variable (server : ServerKeeps size P M) (client : ClientKeeps size reuse T Q N)

include client

/-- A new socket is like no other, and nothing is known of it yet. -/
theorem addSocket_kept (k : Known) (transaction : HttpClientTransaction) (known : T transaction)
    (socket : ConnectedSocket) (reused : Bool) :
    Kept (SocketsHold size reuse P M Q N k)
      (HttpClientSocketFactory.addSocket
        (HttpClientSocketFactory.construct transaction socket reused)) := by
  refine kept_iff.2 fun w holds => { holds with client := ?_, clientKnown := ?_, opened := ?_, unopened := ?_ }
  · intro id
    by_cases same : id = w.clientSockets
    · subst same
      simpa [HttpClientSocketFactory.addSocket] using client.construct transaction socket reused known
    · simpa [HttpClientSocketFactory.addSocket, Function.update_of_ne same] using holds.client id
  · intro id state known
    have old := holds.opened id state known
    have ne : id ≠ w.clientSockets := by omega
    simpa [HttpClientSocketFactory.addSocket, Function.update_of_ne ne] using
      holds.clientKnown id state known
  · intro id state known
    have old := holds.opened id state known
    show id < w.clientSockets + 1
    omega
  · intro id later
    have later : w.clientSockets + 1 ≤ id := later
    have ne : id ≠ w.clientSockets := by omega
    simpa [HttpClientSocketFactory.addSocket, Function.update_of_ne ne] using
      holds.unopened id (by omega)

theorem create_kept (k : Known) (transaction : HttpClientTransaction) (known : T transaction) :
    Kept (SocketsHold size reuse P M Q N k) (HttpClientSocketFactory.create transaction) := by
  have asked : Kept (SocketsHold size reuse P M Q N k) ask := ask_kept k
  have added := fun socket reused => addSocket_kept (P := P) (M := M) client k transaction known socket reused
  mvcgen [HttpClientSocketFactory.create, HttpClientSocketFactory.acquireConnection,
    HttpClientSocketFactory.setPool, asked, added]
  all_goals clear asked added
  rename_i holds _ _ _ _
  exact { holds with }

theorem releaseTransaction_kept (k : Known) (id : Nat) :
    Kept (SocketsHold size reuse P M Q N k) (HttpClientSocket.releaseTransaction id) := by
  have cleared : Kept (SocketsHold size reuse P M Q N k)
      (modifyClient id fun s => { s with transaction := none }) :=
    modifyClient_kept client.noTransaction
  mvcgen [HttpClientSocket.releaseTransaction, HttpClientSocket.destroyClientTransaction, cleared]
  all_goals clear cleared
  rename_i holds _ _ _ _
  exact { holds with }

theorem supply_kept (k : Known) (server : ServerKeeps size P M) (more : Supply) :
    Kept (SocketsHold size reuse P M Q N k) (modify (World.supply more)) := by
  refine kept_iff.2 fun w holds => ?_
  have supplied := holds.onServer (server.supply more.serverArrivals more.serverDepartures
    more.serverWants) trivial
  have each : ∀ id, Keeps Q N (fun _ => True) fun s => { s with
      socket := s.socket.supply (more.clientArrivals id) (more.clientDepartures id)
        (more.clientWants id) } :=
    fun id => client.supply _ _ _
  refine { supplied with client := ?_, clientKnown := ?_, unopened := ?_ }
  · intro id
    show Q (if id < w.clientSockets then _ else _)
    split
    · exact (each id _ (holds.client id) trivial).1
    · exact holds.client id
  · intro id state known
    show N state (if id < w.clientSockets then _ else _)
    split
    · exact (each id _ (holds.client id) trivial).2 state (holds.clientKnown id state known)
    · exact holds.clientKnown id state known
  · intro id later
    have later : w.clientSockets ≤ id := later
    show (if id < w.clientSockets then _ else w.clients id) = {}
    rw [if_neg (Nat.not_lt.2 later)]
    exact holds.unopened id later

include server

/-- Everything outside the application keeps what the functions keep. -/
theorem familySteps_of_keeps :
    FamilySteps T (SocketsHold size reuse P M Q N) Known.atServer Known.atClient where
  steps k :=
    { server := serverSteps_of_keeps server k
      client := clientSteps_of_keeps client k
      ask := ask_kept k
      setResponse := setResponse_kept server.modifyResponse k
      copyResponse := copyResponse_kept server k
      raise := fun flag known => modifyServer_kept (server.addFlag flag (List.mem_cons_of_mem _ known))
      lower := fun flag known => modifyServer_kept (server.clearFlag flag known)
      serverDead := modifyServer_kept server.markDead
      serverRelease := modifyServer_kept server.releaseBuffers
      serverEnd := triple_iff.2 fun w holds => { holds.onServer server.ended trivial with }
      clientRaise := fun _ flag known => modifyClient_kept (client.addFlag flag known)
      clientLower := fun _ flag known => modifyClient_kept (client.clearFlag flag known)
      clientDead := fun _ => modifyClient_kept client.markDead
      addToDead := fun _ => kept_iff.2 fun _ holds => { holds with }
      clientRelease := fun _ => modifyClient_kept client.releaseBuffers
      recordRetry := fun id => triple_iff.2 fun w ⟨holds, stale⟩ =>
        { holds with
          retried := fun s member => (List.mem_append.1 member).elim (holds.retried s)
            fun last => List.mem_singleton.1 last ▸ ⟨holds.client id, stale⟩ }
      recordReturn := fun answer id => triple_iff.2 fun w ⟨holds, same⟩ => by
        show SocketsHold size reuse P M Q N k (if answer then _ else w)
        split
        · rename_i reused
          rw [reused, holds.reuse_eq] at same
          exact
            { holds with
              returned := fun s member => (List.mem_append.1 member).elim (holds.returned s)
                fun last => List.mem_singleton.1 last ▸ ⟨holds.client id, same.symm⟩ }
        · exact holds
      clientClose := fun _ => modifyClient_kept client.closeSocket
      releaseTransaction := releaseTransaction_kept client k
      destroyTransaction := fun _ => kept_iff.2 fun _ holds => { holds with }
      clientDeactivate := fun _ => modifyClient_kept client.deactivate
      clientAdd := fun _ => modifyClient_kept client.markMultiplexed
      transaction := fun w holds id => client.transaction _ (holds.client id)
      create := create_kept client k
      abandon := fun _ => modifyClient_kept client.abandoned
      connect := fun _ => modifyClient_kept client.established
      connected := fun _ => modifyClient_kept client.connected
      setPool := fun _ => kept_iff.2 fun _ holds => { holds with }
      supply := supply_kept client k server
      forgetDead := kept_iff.2 fun _ holds => { holds with } }

omit server in
theorem scriptSteps_of_keeps (k : Known) : ScriptSteps T (SocketsHold size reuse P M Q N k) where
  fresh := client.fresh
  nextScript callback := by
    refine kept_iff.2 fun w holds => ?_
    unfold nextScript
    split
    · exact holds
    · exact { holds with }
  createTransaction := by
    have asked : Kept (SocketsHold size reuse P M Q N k) ask := ask_kept k
    mvcgen [createClientTransaction, asked]
    all_goals clear asked
    rename_i holds
    exact { holds with }

/-- **What the functions of the sockets keep holds of every socket in every run** that
begins when the server connection has been accepted. -/
theorem runScripted_sockets (events : List ApplicationEvent) (start : w.Accepted) (begins : P w.server)
    (size_eq : w.ioBufferSize = size) (reuse_eq : w.reuseConnections = reuse) :
    SocketsHold size reuse P M Q N Known.nothing (w.runScripted events) :=
  runScripted_keeps (familySteps_of_keeps server client) (scriptSteps_of_keeps client) w events Known.nothing
    { server := begins
      serverKnown := fun _ known => known.elim
      client := fun id => start.clients ▸ client.unopened
      clientKnown := fun _ _ known => known.elim
      opened := fun _ _ known => known.elim
      unopened := fun _ _ => by rw [start.clients]
      returned := by simp [start.returned]
      retried := by simp [start.retried]
      size_eq, reuse_eq }

end system

end world

end Everscale
