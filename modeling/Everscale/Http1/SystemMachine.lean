/-
# Everscale.Http1.SystemMachine -- what the whole thread keeps true

`SystemSteps` lists the steps of everything outside the application: the two state machines,
the calls of the streams, the multiplexer and the factories.  A predicate that they keep,
and that the callbacks of an application keep if the streams they call do, is kept by every
run of the application (`run_keeps`); the application that follows scripts calls nothing
but streams (`runScripted_keeps`).

While a machine works in a state, more may be known than the predicate says.  What is known
then has to survive the callbacks, in which other machines may run: the predicates come as
a family `I`, and `FamilySteps` says which member holds in which state.
-/
import Everscale.Http1.ServerMachine
import Everscale.Http1.ClientMachine
import Everscale.Http1.Application

namespace Everscale

set_option autoImplicit false
set_option mvcgen.warning false

open Std.Do

section keeping

variable (T : HttpClientTransaction → Prop) (I : World → Prop)
  (RS : HttpServerSocket.ServerState → World → Prop)
  (RC : Nat → HttpClientSocket.ClientState → World → Prop)

/-- The flags that a call may raise on the server socket. -/
def serverFlags : List StateBits := [SERVER_RECV_PAUSED, SERVER_SEND_PAUSED, SERVER_ABORTED]

/-- The flags that a call may raise on a client socket. -/
def clientFlags : List StateBits := [RECV_PAUSED, SEND_PAUSED, ABORTED]

structure SystemSteps : Prop where
  server : HttpServerSocket.ServerSteps I I RS
  client : ∀ id, HttpClientSocket.ClientSteps I I (RC id) id
  ask : Kept I ask
  setResponse : ∀ statusCode reasonPhrase,
    Kept I (HttpServerSocket.setResponse statusCode reasonPhrase)
  copyResponse : ∀ response, Kept I (HttpServerSocket.copyResponse response)
  raise : ∀ flag ∈ serverFlags, Kept I (modifyServer (HttpServerSocket.addFlag flag))
  lower : ∀ flag ∈ serverFlags, Kept I (modifyServer (HttpServerSocket.clearFlag flag))
  serverDead : Kept I (modifyServer HttpServerSocket.markDead)
  serverRelease : Kept I (modifyServer HttpServerSocket.releaseBuffers)
  serverEnd : ⦃fun w => ⌜I w⌝⦄ HttpServerSocket.destroyTransaction
    ⦃⇓ _ w => ⌜I { w with server := w.server.deactivate }⌝⦄
  clientRaise : ∀ id, ∀ flag ∈ clientFlags, Kept I (modifyClient id (HttpClientSocket.addFlag flag))
  clientLower : ∀ id, ∀ flag ∈ clientFlags,
    Kept I (modifyClient id (HttpClientSocket.clearFlag flag))
  clientDead : ∀ id, Kept I (modifyClient id HttpClientSocket.markDead)
  addToDead : ∀ id, Kept I (HttpClientSocket.addToDead id)
  clientRelease : ∀ id, Kept I (modifyClient id HttpClientSocket.releaseBuffers)
  recordRetry : ∀ id,
    ⦃fun w => ⌜I w ∧ (w.clients id).isStale⌝⦄ HttpClientSocket.recordRetry id ⦃⇓ _ w => ⌜I w⌝⦄
  recordReturn : ∀ reuse id,
    ⦃fun w => ⌜I w ∧ reuse = (w.clients id).reuseConnection w.reuseConnections⌝⦄
    HttpClientSocket.recordReturn reuse id ⦃⇓ _ w => ⌜I w⌝⦄
  clientClose : ∀ id, Kept I (modifyClient id HttpClientSocket.closeSocket)
  releaseTransaction : ∀ id, Kept I (HttpClientSocket.releaseTransaction id)
  destroyTransaction : ∀ id, Kept I (HttpClientSocket.destroyClientTransaction id)
  clientDeactivate : ∀ id, Kept I (modifyClient id HttpClientSocket.deactivate)
  clientAdd : ∀ id, Kept I (modifyClient id HttpClientSocket.markMultiplexed)
  transaction : ∀ w, I w → ∀ id, ∀ transaction ∈ (w.clients id).transaction, T transaction
  create : ∀ transaction, T transaction → Kept I (HttpClientSocketFactory.create transaction)
  abandon : ∀ id, Kept I (HttpClientSocketFactory.abandon id)
  connect : ∀ id, Kept I (modifyClient id established)
  connected : ∀ id, Kept I (modifyClient id (HttpClientSocket.stateTransition TRANSACTION_BEGIN))
  setPool : ∀ pool, Kept I (HttpClientSocketFactory.setPool pool)
  supply : ∀ more, Kept I (modify (World.supply more))
  forgetDead : Kept I forgetDead

/-- All callbacks keep the predicate. -/
structure HandlersKeep (h : Handlers) : Prop where
  beginServerTransaction : Kept I h.server.beginTransaction
  receiveRequestHeaders : Kept I h.server.receiveRequestHeaders
  endServerTransaction : ∀ state, Kept I (h.server.endTransaction state)
  consumeRequestBody : ∀ t body, Kept I (h.serverBody.consumeRequestBody t body)
  offerResponseBody : ∀ t, Kept I (h.serverBody.offerResponseBody t)
  produceResponseBody : ∀ t n, Kept I (h.serverBody.produceResponseBody t n)
  beginClientTransaction : ∀ id, Kept I (h.client.beginTransaction id)
  receiveResponseHeaders : ∀ id, Kept I (h.client.receiveResponseHeaders id)
  endRequest : ∀ id, Kept I (h.client.endRequest id)
  endClientTransaction : ∀ id state, Kept I (h.client.endTransaction id state)
  offerRequestBody : ∀ id t, Kept I (h.clientBody.offerRequestBody id t)
  produceRequestBody : ∀ id t n, Kept I (h.clientBody.produceRequestBody id t n)
  consumeResponseBody : ∀ id t body, Kept I (h.clientBody.consumeResponseBody id t body)

/-- All callbacks keep the predicate, and what is known besides. -/
structure AllKeep (h : Handlers) : Prop extends HandlersKeep I h where
  server : ∀ state, HandlersKeep (RS state) h
  client : ∀ id state, HandlersKeep (RC id state) h

/-- All calls keep the predicate. -/
structure StreamsKeep (s : Streams) : Prop where
  sendEmptyResponse : ∀ code reason, Kept I (s.sendEmptyResponse code reason)
  sendResponse : ∀ response, Kept I (s.sendResponse response)
  sendResponseBody : ∀ chunk, Kept I (s.sendResponseBody chunk)
  requestBodyAvailable : Kept I s.requestBodyAvailable
  readRequestBody : ∀ n, Kept I (s.readRequestBody n)
  abortServer : ∀ update, Kept I (s.abortServer update)
  responseBodyAvailable : ∀ id, Kept I (s.responseBodyAvailable id)
  readResponseBody : ∀ id n, Kept I (s.readResponseBody id n)
  sendRequestBody : ∀ id chunk, Kept I (s.sendRequestBody id chunk)
  abortClient : ∀ id update, Kept I (s.abortClient id update)
  executeClientTransaction : ∀ transaction, T transaction →
    Kept I (s.executeClientTransaction transaction)

variable {T} {I} {RS} {RC}

theorem kept_post {α : Type} {p : Program α} {K : World → Prop} {Q : α → Prop}
    (weaken : ∀ w, K w → I w) (h : Kept K p) :
    ⦃fun w => ⌜K w⌝⦄ p ⦃⇓ a w => ⌜I w ∧ (Q a → K w)⌝⦄ :=
  triple_iff.2 fun w start =>
    ⟨weaken _ (kept_iff.1 h w start), fun _ => kept_iff.1 h w start⟩

section answers

variable {h : Handlers} (steps : SystemSteps T I RS RC) (keep : AllKeep I RS RC h)

include steps keep

theorem AllKeep.serverAnswers : HttpServerSocket.ServerAnswers I RS h.server where
  beginTransaction := kept_post (steps.server.leave _) (keep.server _).beginServerTransaction
  receiveRequestHeaders := kept_post (steps.server.leave _) (keep.server _).receiveRequestHeaders
  endTransaction := triple_iff.2 fun w start =>
    have kept := kept_iff.1 ((keep.server _).endServerTransaction _) w start
    ⟨steps.server.leave _ _ kept, fun _ => kept⟩

theorem AllKeep.serverBodyAnswers : HttpServerSocket.ServerBodyAnswers I RS h.serverBody where
  consumeLast t := kept_post (Q := fun r => HttpServerSocket.goesOn r.1) (steps.server.leave _)
    ((keep.server _).consumeRequestBody t [])
  consumeRequestBody t body := kept_post (steps.server.leave _)
    ((keep.server _).consumeRequestBody t body)
  offerResponseBody t := kept_post (steps.server.leave _) ((keep.server _).offerResponseBody t)
  produceResponseBody t n := kept_post (steps.server.leave _)
    ((keep.server _).produceResponseBody t n)

theorem AllKeep.clientAnswers (id : Nat) : HttpClientSocket.ClientAnswers I (RC id) id h.client where
  beginTransaction := kept_post ((steps.client id).leave _) ((keep.client id _).beginClientTransaction id)
  receiveResponseHeaders := kept_post ((steps.client id).leave _)
    ((keep.client id _).receiveResponseHeaders id)
  endRequest := kept_post ((steps.client id).leave _) ((keep.client id _).endRequest id)

theorem AllKeep.clientBodyAnswers (id : Nat) :
    HttpClientSocket.ClientBodyAnswers I (RC id) id h.clientBody where
  offerRequestBody t := kept_post ((steps.client id).leave _) ((keep.client id _).offerRequestBody id t)
  produceRequestBody t n := kept_post ((steps.client id).leave _)
    ((keep.client id _).produceRequestBody id t n)
  consumeLast t := kept_post ((steps.client id).leave _) ((keep.client id _).consumeResponseBody id t [])
  consumeResponseBody t body := kept_post ((steps.client id).leave _)
    ((keep.client id _).consumeResponseBody id t body)

end answers

/-! ## The adaptors -/

section adaptors

variable (steps : SystemSteps T I RS RC)

include steps

theorem responseBodyProducer_answers : HttpServerSocket.ServerBodyAnswers I RS responseBodyProducer := by
  have leave := steps.server.leave
  constructor <;> intros <;> mvcgen [responseBodyProducer]
  all_goals grind

theorem requestBodyConsumer_answers : HttpServerSocket.ServerBodyAnswers I RS requestBodyConsumer := by
  have leave := steps.server.leave
  constructor <;> intros <;> mvcgen [requestBodyConsumer]
  all_goals grind

theorem requestBodyProducer_answers (id : Nat) :
    HttpClientSocket.ClientBodyAnswers I (RC id) id requestBodyProducer := by
  have leave := (steps.client id).leave
  constructor <;> intros <;> mvcgen [requestBodyProducer]
  all_goals grind

theorem responseBodyConsumer_answers (id : Nat) :
    HttpClientSocket.ClientBodyAnswers I (RC id) id responseBodyConsumer := by
  have leave := (steps.client id).leave
  constructor <;> intros <;> mvcgen [responseBodyConsumer]
  all_goals grind

end adaptors

/-! ## The server's calls -/

section server

variable (steps : SystemSteps T I RS RC)

include steps

namespace HttpServerSocket

theorem updateMultiplexed_keeps : Kept I updateMultiplexed := by
  have ask := steps.ask
  mvcgen [updateMultiplexed, ask]

theorem pause_keeps {flag : StateBits} (known : flag ∈ serverFlags) (update : Bool) :
    Kept I (pause flag update) := by
  have raise := steps.raise flag known
  have updated := updateMultiplexed_keeps steps
  mvcgen [pause, raise, updated]

theorem resume_keeps {flag : StateBits} (known : flag ∈ serverFlags) (update : Bool) :
    Kept I (resume flag update) := by
  have lower := steps.lower flag known
  have updated := updateMultiplexed_keeps steps
  mvcgen [resume, lower, updated]

variable {h : Handlers} (keep : AllKeep I RS RC h)

include keep

theorem handleRemove_keeps : Kept I (handleRemove h.server) := by
  have release := steps.serverRelease
  have destroy := steps.serverEnd
  have deactivate : ⦃fun w => ⌜I { w with server := w.server.deactivate }⌝⦄
      modifyServer deactivate ⦃⇓ _ w => ⌜I w⌝⦄ :=
    triple_iff.2 fun _ ended => ended
  have ends := keep.endServerTransaction
  mvcgen [handleRemove, release, destroy, deactivate, ends]

theorem removeMultiplexed_keeps : Kept I (removeMultiplexed h.server) := by
  have dead := steps.serverDead
  have removed := handleRemove_keeps steps keep
  mvcgen [removeMultiplexed, dead, removed]

theorem abort_keeps (update : Bool) : Kept I (abort h.server update) := by
  have raise := steps.raise SERVER_ABORTED (by simp [serverFlags])
  have removed := removeMultiplexed_keeps steps keep
  mvcgen [abort, raise, removed]

theorem machine_keeps {τ : Type} {bodyHandler : HttpServerBodyHandler τ}
    (answers : ServerBodyAnswers I RS bodyHandler) (flags : AdvanceFlags) (turns : Nat)
    (t : τ) : Kept I (advanceStateMachine h.server bodyHandler flags turns t) :=
  advanceStateMachine_keeps steps.server (keep.serverAnswers steps) answers flags turns t

theorem advance_keeps (flags : AdvanceFlags) (turns : Nat) :
    Kept I (advance h.server h.serverBody turns flags) := by
  have machine := machine_keeps steps keep (keep.serverBodyAnswers steps)
  mvcgen [advance, machine]

theorem sendEmptyResponse_keeps (turns code : Nat) (reason : String) :
    Kept I (sendEmptyResponse h.server h.serverBody turns code reason) := by
  have set := steps.setResponse
  have advanced := advance_keeps steps keep
  mvcgen [sendEmptyResponse, Program.andThen, set, advanced]

theorem sendResponse_keeps (turns : Nat) (response : HttpResponse) :
    Kept I (sendResponse h.server h.serverBody turns response) := by
  have copy := steps.copyResponse
  have advanced := advance_keeps steps keep
  mvcgen [sendResponse, Program.andThen, copy, advanced]

theorem sendResponseBody_keeps (turns : Nat) (chunk : List Octet) :
    Kept I (sendResponseBody h.server turns chunk) := by
  have machine := machine_keeps steps keep (responseBodyProducer_answers steps)
  mvcgen [sendResponseBody, machine]

theorem requestBodyAvailable_keeps (turns : Nat) : Kept I (requestBodyAvailable h.server turns) := by
  have machine := machine_keeps steps keep (requestBodyConsumer_answers steps)
  mvcgen [requestBodyAvailable, machine]

theorem readRequestBody_keeps (turns n : Nat) : Kept I (readRequestBody h.server turns n) := by
  have machine := machine_keeps steps keep (requestBodyConsumer_answers steps)
  mvcgen [readRequestBody, machine]

theorem handleReadable_keeps (turns : Nat) : Kept I (handleReadable h.server h.serverBody turns) := by
  have advanced := advance_keeps steps keep
  mvcgen [handleReadable, advanced]

theorem handleWritable_keeps (turns : Nat) : Kept I (handleWritable h.server h.serverBody turns) := by
  have advanced := advance_keeps steps keep
  mvcgen [handleWritable, advanced]

end HttpServerSocket

end server

/-! ## A client's calls -/

section client

variable (steps : SystemSteps T I RS RC)

include steps

namespace HttpClientSocket

theorem updateMultiplexed_keeps (id : Nat) : Kept I (updateMultiplexed id) := by
  have ask := steps.ask
  mvcgen [updateMultiplexed, ask]

theorem addMultiplexed_keeps (id : Nat) : Kept I (addMultiplexed id) := by
  have ask := steps.ask
  have add := steps.clientAdd id
  mvcgen [addMultiplexed, ask, add]

theorem pause_keeps {flag : StateBits} (known : flag ∈ clientFlags) (id : Nat) (update : Bool) :
    Kept I (pause flag id update) := by
  have raise := steps.clientRaise id flag known
  have updated := updateMultiplexed_keeps steps id
  mvcgen [pause, raise, updated]

theorem resume_keeps {flag : StateBits} (known : flag ∈ clientFlags) (id : Nat) (update : Bool) :
    Kept I (resume flag id update) := by
  have lower := steps.clientLower id flag known
  have updated := updateMultiplexed_keeps steps id
  mvcgen [resume, lower, updated]

variable {h : Handlers} (keep : AllKeep I RS RC h) {execute : HttpClientTransaction → Program Error}
  (executes : ∀ transaction, T transaction → Kept I (execute transaction)) (id : Nat)

include keep

theorem endTransaction_keeps (reuse : Bool) : Kept I (endTransaction h.client reuse id) := by
  have ends := keep.endClientTransaction
  have release := steps.releaseTransaction id
  have close := steps.clientClose id
  have deactivate := steps.clientDeactivate id
  mvcgen [endTransaction, ends, release, close, deactivate]

include executes

theorem retryTransaction_keeps :
    ⦃fun w => ⌜I w ∧ (w.clients id).isStale⌝⦄ retryTransaction h.client execute id
    ⦃⇓ _ w => ⌜I w⌝⦄ := by
  have record := steps.recordRetry id
  have release := steps.clientRelease id
  have close := steps.clientClose id
  have ends := keep.endClientTransaction
  have destroy := steps.destroyTransaction
  have deactivate := steps.clientDeactivate id
  mvcgen [retryTransaction, record, release, close, ends, destroy, deactivate, executes]
  exact steps.transaction _ (by assumption) id _ (by assumption)

theorem handleRemove_keeps : Kept I (handleRemove h.client execute id) := by
  have retry := retryTransaction_keeps steps keep executes id
  have record := steps.recordReturn
  have release := steps.clientRelease id
  have ends := endTransaction_keeps steps keep id
  mvcgen [handleRemove, retry, record, release, ends]

theorem removeMultiplexed_keeps : Kept I (removeMultiplexed h.client execute id) := by
  have dead := steps.clientDead id
  have add := steps.addToDead id
  have removed := handleRemove_keeps steps keep executes id
  mvcgen [removeMultiplexed, dead, add, removed]

theorem abort_keeps (update : Bool) : Kept I (abort h.client execute id update) := by
  have raise := steps.clientRaise id ABORTED (by simp [clientFlags])
  have removed := removeMultiplexed_keeps steps keep executes id
  mvcgen [abort, raise, removed]

omit executes

theorem machine_keeps {τ : Type} {bodyHandler : HttpClientBodyHandler τ}
    (answers : ClientBodyAnswers I (RC id) id bodyHandler) (flags : AdvanceFlags)
    (turns : Nat) (t : τ) : Kept I (advanceStateMachine h.client bodyHandler flags id turns t) :=
  advanceStateMachine_keeps (steps.client id) (keep.clientAnswers steps id) answers flags turns t

theorem advance_keeps (turns : Nat) (flags : AdvanceFlags) :
    Kept I (advance h.client h.clientBody turns flags id) := by
  have machine := machine_keeps steps keep id (keep.clientBodyAnswers steps id)
  mvcgen [advance, machine]

theorem sendRequestBody_keeps (turns : Nat) (chunk : List Octet) :
    Kept I (sendRequestBody h.client turns id chunk) := by
  have machine := machine_keeps steps keep id (requestBodyProducer_answers steps id)
  mvcgen [sendRequestBody, machine]

theorem responseBodyAvailable_keeps (turns : Nat) :
    Kept I (responseBodyAvailable h.client turns id) := by
  have machine := machine_keeps steps keep id (responseBodyConsumer_answers steps id)
  mvcgen [responseBodyAvailable, machine]

theorem readResponseBody_keeps (turns n : Nat) : Kept I (readResponseBody h.client turns id n) := by
  have machine := machine_keeps steps keep id (responseBodyConsumer_answers steps id)
  mvcgen [readResponseBody, machine]

theorem handleReadable_keeps (turns : Nat) :
    Kept I (handleReadable h.client h.clientBody turns id) := by
  have advanced := advance_keeps steps keep id
  mvcgen [handleReadable, advanced]

theorem handleWritable_keeps (turns : Nat) :
    Kept I (handleWritable h.client h.clientBody turns id) := by
  have advanced := advance_keeps steps keep id
  mvcgen [handleWritable, advanced]

theorem handleConnect_keeps (turns : Nat) :
    Kept I (handleConnect h.client h.clientBody turns id) := by
  have connected := steps.connected id
  have written := handleWritable_keeps steps keep id
  mvcgen [handleConnect, connected, written]

end HttpClientSocket

theorem executeClientTransaction_keeps {h : Handlers} (keep : AllKeep I RS RC h)
    (transaction : HttpClientTransaction) (known : T transaction) :
    Kept I (HttpClientSocketFactory.executeClientTransaction h.client transaction) := by
  have create := steps.create transaction known
  have begins := keep.beginClientTransaction
  have abandon := steps.abandon
  have add := HttpClientSocket.addMultiplexed_keeps steps
  mvcgen [HttpClientSocketFactory.executeClientTransaction, create, begins, abandon, add]

theorem release_keeps (id : Nat) : Kept I (HttpClientSocketFactory.release id) := by
  have setPool := steps.setPool
  have releaseTransaction := steps.releaseTransaction
  have releaseBuffers := steps.clientRelease
  mvcgen [HttpClientSocketFactory.release, setPool, releaseTransaction, releaseBuffers]

end client

/-! ## Streams and events -/

theorem exhausted_keeps : StreamsKeep T I .exhausted := by
  constructor <;> intros <;> mvcgen [Streams.exhausted]

section run

variable {ι : Type} {I : ι → World → Prop}

/-- The members of the family that hold while the machines work in their states. -/
structure FamilySteps (T : HttpClientTransaction → Prop) (I : ι → World → Prop)
    (atServer : ι → HttpServerSocket.ServerState → ι)
    (atClient : ι → Nat → HttpClientSocket.ClientState → ι) : Prop where
  steps : ∀ i, SystemSteps T (I i) (fun state => I (atServer i state))
    fun id state => I (atClient i id state)

variable {atServer : ι → HttpServerSocket.ServerState → ι}
  {atClient : ι → Nat → HttpClientSocket.ClientState → ι} {application : Streams → Handlers}
variable (family : FamilySteps T I atServer atClient)
  (keeps : ∀ s, (∀ i, StreamsKeep T (I i) s) → ∀ i, HandlersKeep (I i) (application s))

theorem allKeep_of_family {h : Handlers} (keep : ∀ i, HandlersKeep (I i) h) (i : ι) :
    AllKeep (I i) (fun state => I (atServer i state)) (fun id state => I (atClient i id state)) h :=
  { keep i with
    server := fun _ => keep _
    client := fun _ _ => keep _ }

include family keeps

theorem streams_keeps (depth : Nat) (i : ι) : StreamsKeep T (I i) (streams application depth) := by
  induction depth generalizing i with
  | zero => exact exhausted_keeps
  | succ depth ih =>
      have steps := family.steps i
      have keep : AllKeep (I i) (fun state => I (atServer i state)) (fun id state => I (atClient i id state))
          (application (streams application depth)) := allKeep_of_family (keeps _ ih) i
      exact
        { sendEmptyResponse := HttpServerSocket.sendEmptyResponse_keeps steps keep depth
          sendResponse := HttpServerSocket.sendResponse_keeps steps keep depth
          sendResponseBody := HttpServerSocket.sendResponseBody_keeps steps keep depth
          requestBodyAvailable := HttpServerSocket.requestBodyAvailable_keeps steps keep depth
          readRequestBody := HttpServerSocket.readRequestBody_keeps steps keep depth
          abortServer := HttpServerSocket.abort_keeps steps keep
          responseBodyAvailable id :=
            HttpClientSocket.responseBodyAvailable_keeps steps keep id depth
          readResponseBody id := HttpClientSocket.readResponseBody_keeps steps keep id depth
          sendRequestBody id := HttpClientSocket.sendRequestBody_keeps steps keep id depth
          abortClient id :=
            HttpClientSocket.abort_keeps steps keep (ih i).executeClientTransaction id
          executeClientTransaction := executeClientTransaction_keeps steps keep }

theorem handlers_keeps (depth : Nat) (i : ι) :
    AllKeep (I i) (fun state => I (atServer i state)) (fun id state => I (atClient i id state))
      (handlers application depth) :=
  allKeep_of_family (keeps _ (streams_keeps family keeps depth)) i

theorem removeServer_keeps (depth : Nat) (i : ι) : Kept (I i) (removeServer application depth) := by
  have removed := HttpServerSocket.removeMultiplexed_keeps (family.steps i)
    (handlers_keeps family keeps depth i)
  mvcgen [removeServer, discard, removed]

theorem removeClient_keeps (depth id : Nat) (i : ι) :
    Kept (I i) (removeClient application depth id) := by
  have removed := HttpClientSocket.removeMultiplexed_keeps (family.steps i)
    (handlers_keeps family keeps depth i) (streams_keeps family keeps depth i).executeClientTransaction
    id
  mvcgen [removeClient, discard, removed]

theorem serverEvent_keeps (depth : Nat) (readiness : Readiness) (i : ι) :
    Kept (I i) (serverEvent application depth readiness) := by
  have steps := family.steps i
  have keep := handlers_keeps family keeps depth i
  have ask := steps.ask
  have readable := HttpServerSocket.handleReadable_keeps steps keep depth
  have writable := HttpServerSocket.handleWritable_keeps steps keep depth
  have updated := HttpServerSocket.updateMultiplexed_keeps steps
  have removed := removeServer_keeps family keeps depth i
  mvcgen [serverEvent, serveServer, keepsAfter, discard, ask, readable, writable, updated, removed]

theorem connectClient_keeps (depth id : Nat) (readiness : Readiness) (i : ι) :
    Kept (I i) (connectClient application depth id readiness) := by
  have steps := family.steps i
  have keep := handlers_keeps family keeps depth i
  have connect := steps.connect id
  have connected := HttpClientSocket.handleConnect_keeps steps keep id depth
  mvcgen [connectClient, keepsAfter, connect, connected]

theorem serveClient_keeps (depth id : Nat) (readiness : Readiness) (i : ι) :
    Kept (I i) (serveClient application depth id readiness) := by
  have steps := family.steps i
  have keep := handlers_keeps family keeps depth i
  have connecting := connectClient_keeps family keeps depth id readiness i
  have readable := HttpClientSocket.handleReadable_keeps steps keep id depth
  have writable := HttpClientSocket.handleWritable_keeps steps keep id depth
  mvcgen [serveClient, keepsAfter, connecting, readable, writable]

theorem clientEvent_keeps (depth id : Nat) (readiness : Readiness) (i : ι) :
    Kept (I i) (clientEvent application depth id readiness) := by
  have steps := family.steps i
  have ask := steps.ask
  have served := serveClient_keeps family keeps depth id readiness i
  have updated := HttpClientSocket.updateMultiplexed_keeps steps id
  have removed := removeClient_keeps family keeps depth id i
  mvcgen [clientEvent, discard, ask, served, updated, removed]

omit keeps in
theorem releaseAll_keeps (ids : List Nat) (i : ι) : Kept (I i) (releaseAll ids) := by
  have release := release_keeps (family.steps i)
  induction ids with
  | nil => mvcgen [releaseAll]
  | cons id rest ih => mvcgen [releaseAll, release, ih]

theorem happen_keeps (event : Event) (i : ι) : Kept (I i) (Event.happen application event) := by
  have served := fun depth readiness => serverEvent_keeps family keeps depth readiness i
  have clientServed := fun depth id readiness => clientEvent_keeps family keeps depth id readiness i
  have removed := fun depth => removeServer_keeps family keeps depth i
  have clientRemoved := fun depth id => removeClient_keeps family keeps depth id i
  have supply := (family.steps i).supply
  have forget := (family.steps i).forgetDead
  have release := fun ids => releaseAll_keeps family ids i
  cases event <;>
    mvcgen [Event.happen, served, clientServed, removed, clientRemoved, forget, release]
  exact kept_iff.1 (supply _) _ (by assumption)

/-- What every run keeps true. -/
theorem run_keeps (w : World) (events : List Event) (i : ι) (start : I i w) :
    I i (w.run application events) :=
  foldl_kept (fun event _ => happen_keeps family keeps event i) w start

end run

/-! ## The application that follows scripts -/

section scripts

/-- The steps it takes besides the calls. -/
structure ScriptSteps (T : HttpClientTransaction → Prop) (I : World → Prop) : Prop where
  fresh : ∀ id parseBufferSize peerAddress request,
    T { HttpClientTransaction.fresh id parseBufferSize with peerAddress, request }
  nextScript : ∀ callback, Kept I (nextScript callback)
  createTransaction : Kept I createClientTransaction

theorem createClientTransaction_fresh (w : World) :
    ∀ transaction ∈ (createClientTransaction w).1, ∃ id parseBufferSize,
      transaction = HttpClientTransaction.fresh id parseBufferSize := by
  have asked : Kept (fun _ => True) ask := kept_iff.2 fun _ _ => trivial
  have created : ⦃fun _ => ⌜True⌝⦄ createClientTransaction ⦃⇓ created _ =>
      ⌜∀ transaction ∈ created, ∃ id parseBufferSize,
        transaction = HttpClientTransaction.fresh id parseBufferSize⌝⦄ := by
    mvcgen [createClientTransaction, asked]
    all_goals grind
  exact triple_iff.1 created w trivial

variable (steps : SystemSteps T I RS RC) (scripts : ScriptSteps T I)

section calls

variable {s : Streams} (keep : StreamsKeep T I s)

include steps scripts keep

theorem execute_keeps (peerAddress : Nat) (request : HttpRequest) :
    Kept I (execute s peerAddress request) := by
  have create : ⦃fun w => ⌜I w⌝⦄ createClientTransaction ⦃⇓ created w => ⌜I w ∧
      ∀ transaction ∈ created, ∃ id parseBufferSize,
        transaction = HttpClientTransaction.fresh id parseBufferSize⌝⦄ :=
    triple_iff.2 fun w start =>
      ⟨kept_iff.1 scripts.createTransaction w start, createClientTransaction_fresh w⟩
  have executes := keep.executeClientTransaction
  have destroy := steps.destroyTransaction
  mvcgen [execute, create, executes, destroy]
  all_goals clear create executes destroy
  · exact And.left (by assumption)
  · rename_i held
    obtain ⟨id, parseBufferSize, rfl⟩ := held.2 _ rfl
    exact scripts.fresh id parseBufferSize peerAddress request
  · exact And.left (by assumption)

theorem perform_keeps (call : ApplicationCall) : Kept I (perform s call) := by
  have flag : SERVER_RECV_PAUSED ∈ serverFlags ∧ SERVER_SEND_PAUSED ∈ serverFlags := by
    simp [serverFlags]
  have clientFlag : RECV_PAUSED ∈ clientFlags ∧ SEND_PAUSED ∈ clientFlags := by simp [clientFlags]
  cases call with
  | pauseRecv update => exact discard_keeps (HttpServerSocket.pause_keeps steps flag.1 update)
  | pauseSend update => exact discard_keeps (HttpServerSocket.pause_keeps steps flag.2 update)
  | resumeRecv update => exact discard_keeps (HttpServerSocket.resume_keeps steps flag.1 update)
  | resumeSend update => exact discard_keeps (HttpServerSocket.resume_keeps steps flag.2 update)
  | abort update => exact discard_keeps (keep.abortServer update)
  | sendEmptyResponse code reason => exact discard_keeps (keep.sendEmptyResponse code reason)
  | sendResponse response => exact discard_keeps (keep.sendResponse response)
  | sendResponseBody chunk => exact discard_keeps (keep.sendResponseBody chunk)
  | requestBodyAvailable => exact discard_keeps keep.requestBodyAvailable
  | readRequestBody n => exact discard_keeps (keep.readRequestBody n)
  | clientPauseRecv id update =>
      exact discard_keeps (HttpClientSocket.pause_keeps steps clientFlag.1 id update)
  | clientPauseSend id update =>
      exact discard_keeps (HttpClientSocket.pause_keeps steps clientFlag.2 id update)
  | clientResumeRecv id update =>
      exact discard_keeps (HttpClientSocket.resume_keeps steps clientFlag.1 id update)
  | clientResumeSend id update =>
      exact discard_keeps (HttpClientSocket.resume_keeps steps clientFlag.2 id update)
  | clientAbort id update => exact discard_keeps (keep.abortClient id update)
  | responseBodyAvailable id => exact discard_keeps (keep.responseBodyAvailable id)
  | readResponseBody id n => exact discard_keeps (keep.readResponseBody id n)
  | sendRequestBody id chunk => exact discard_keeps (keep.sendRequestBody id chunk)
  | execute peerAddress request => exact execute_keeps steps scripts keep peerAddress request

theorem performAll_keeps (calls : List ApplicationCall) : Kept I (performAll s calls) := by
  have performed := perform_keeps steps scripts keep
  induction calls with
  | nil => mvcgen [performAll]
  | cons call rest ih => mvcgen [performAll, performed, ih]

theorem follow_keeps (callback : Callback) : Kept I (follow s callback) := by
  have next := scripts.nextScript callback
  have performed := performAll_keeps steps scripts keep
  mvcgen [follow, next, performed]

theorem scripted_keeps : HandlersKeep I (scripted s) := by
  have followed := follow_keeps steps scripts keep
  constructor
  case endServerTransaction => exact fun _ => discard_keeps (followed _)
  case endClientTransaction => exact fun _ _ => discard_keeps (followed _)
  all_goals intros; mvcgen [scripted, answer, offer, produce, consume, followed]

end calls

variable {ι : Type} {F : ι → World → Prop} {atServer : ι → HttpServerSocket.ServerState → ι}
  {atClient : ι → Nat → HttpClientSocket.ClientState → ι}
variable (family : FamilySteps T F atServer atClient) (follows : ∀ i, ScriptSteps T (F i))

include family follows

theorem applicationHappen_keeps (event : ApplicationEvent) (i : ι) : Kept (F i) event.happen := by
  have keeps : ∀ s, (∀ i, StreamsKeep T (F i) s) → ∀ i, HandlersKeep (F i) (scripted s) :=
    fun _ keep i => scripted_keeps (family.steps i) (follows i) (keep i)
  cases event with
  | event e => exact happen_keeps family keeps e i
  | call depth c =>
      exact perform_keeps (family.steps i) (follows i) (streams_keeps family keeps depth i) c

/-- What every run of every application keeps true. -/
theorem runScripted_keeps (w : World) (events : List ApplicationEvent) (i : ι) (start : F i w) :
    F i (w.runScripted events) :=
  foldl_kept (fun event _ => applicationHappen_keeps family follows event i) w start

end scripts

end keeping

end Everscale
