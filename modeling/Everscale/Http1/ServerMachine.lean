/-
# Everscale.Http1.ServerMachine -- what the server's state machine keeps true

The state machine of `HttpServerSocket` calls back into the application between almost any
two of its steps, so what holds of it is proved once for all predicates: `ServerSteps` lists
the steps it takes on its own, `ServerAnswers` what is asked of the callbacks, and
`advanceStateMachine_keeps` follows the control flow.

`L` holds whenever the loop looks at the state, `R X` while the machine works in the state
`X`, and `I` when it has stopped.  A callback may end `R` with an answer that ends the
machine; `goesOn` says which answers do not.
-/
import Everscale.Http1.ServerSocket
import Everscale.Theory.Kept

namespace Everscale

set_option autoImplicit false
set_option mvcgen.warning false

open Std.Do

namespace HttpServerSocket

/-- The states the machine works in. -/
inductive ServerState where
  | begin
  | parsingHeaders
  | parsingBody
  | skippingTrailer
  | formattingHeaders
  | formattingBody
  | flushingBody
  | end
  deriving DecidableEq, Repr

def ServerState.bits : ServerState → StateBits
  | .begin => SERVER_TRANSACTION_BEGIN
  | .parsingHeaders => SERVER_PARSING_HEADERS
  | .parsingBody => SERVER_PARSING_BODY
  | .skippingTrailer => SERVER_SKIPPING_TRAILER
  | .formattingHeaders => SERVER_FORMATTING_HEADERS
  | .formattingBody => SERVER_FORMATTING_BODY
  | .flushingBody => SERVER_FLUSHING_BODY
  | .end => SERVER_TRANSACTION_END

/-- The bits say that the socket is in that state. -/
def isIn (state : ServerState) (s : HttpServerSocket) : Prop :=
  s.state &&& SERVER_STATE_MASK = state.bits

/-- After these answers to `beginTransaction`, `receiveRequestHeaders` and
`consumeRequestBody` the machine goes on. -/
def goesOn (error : Error) : Prop := error = .success ∨ error = .sendResponse

instance (error : Error) : Decidable (goesOn error) := by unfold goesOn; infer_instance

section machine

variable (L I : World → Prop) (R : ServerState → World → Prop)

/-- What is asked of the callbacks that always go to the socket's own handler. -/
structure ServerAnswers (handler : HttpServerHandler) : Prop where
  beginTransaction : ⦃fun w => ⌜R .begin w⌝⦄ handler.beginTransaction
    ⦃⇓ error w => ⌜I w ∧ (goesOn error → R .begin w)⌝⦄
  receiveRequestHeaders : ⦃fun w => ⌜R .parsingBody w⌝⦄ handler.receiveRequestHeaders
    ⦃⇓ error w => ⌜I w ∧ (goesOn error → R .parsingBody w)⌝⦄
  endTransaction : ⦃fun w => ⌜R .end w⌝⦄ handler.endTransaction .end
    ⦃⇓ _ w => ⌜I w ∧ (¬ w.server.mustClose → R .end w)⌝⦄

/-- What is asked of the callbacks for bodies. -/
structure ServerBodyAnswers {τ : Type} (bodyHandler : HttpServerBodyHandler τ) : Prop where
  consumeLast : ∀ t, ⦃fun w => ⌜R .skippingTrailer w⌝⦄ bodyHandler.consumeRequestBody t []
    ⦃⇓ result w => ⌜I w ∧ (goesOn result.1 → R .skippingTrailer w)⌝⦄
  consumeRequestBody : ∀ t body, ⦃fun w => ⌜R .parsingBody w⌝⦄
    bodyHandler.consumeRequestBody t body
    ⦃⇓ result w => ⌜I w ∧ (goesOn result.1 → R .parsingBody w)⌝⦄
  offerResponseBody : ∀ t, ⦃fun w => ⌜R .formattingBody w⌝⦄ bodyHandler.offerResponseBody t
    ⦃⇓ result w => ⌜I w ∧ (result.1 = .success → R .formattingBody w)⌝⦄
  produceResponseBody : ∀ t n, ⦃fun w => ⌜R .formattingBody w⌝⦄
    bodyHandler.produceResponseBody t n
    ⦃⇓ result w => ⌜I w ∧ (¬ produceFails result.1 → R .formattingBody w)⌝⦄

/-- The steps that parse headers.  `F` holds between a failure and the transition that answers
it, while the response is set. -/
structure ParseSteps (F : World → Prop) : Prop where
  parse : ⦃fun w => ⌜R .parsingHeaders w ∧ w.server.isIn .parsingHeaders⌝⦄ onServer parseHeaders
    ⦃⇓ error w => ⌜if error = .success then R .parsingBody w
      else if error = .again then R .parsingHeaders w else F w⌝⦄
  reject : ∀ statusCode reasonPhrase, Kept F (setResponse statusCode reasonPhrase)
  rejected : ⦃fun w => ⌜F w⌝⦄ modifyServer (stateTransition SERVER_FORMATTING_HEADERS)
    ⦃⇓ _ w => ⌜L w⌝⦄

/-- The steps of the machine. -/
structure ServerSteps : Prop where
  enter : ∀ state w, L w → w.server.isIn state → R state w
  leave : ∀ state w, R state w → L w
  stop : ∀ w, L w → I w
  fill : Kept L fillReceiveBuffer
  drain : Kept L (onServer flushSendBuffer)
  beginning : Kept (R .begin) (modifyServer (addFlag SERVER_CANNOT_REUSE_CONNECTION))
  begun : ⦃fun w => ⌜R .begin w⌝⦄
    modifyServer (conditionalStateTransition SERVER_TRANSACTION_BEGIN SERVER_PARSING_HEADERS)
    ⦃⇓ _ w => ⌜L w⌝⦄
  answeredAtOnce : ⦃fun w => ⌜R .begin w⌝⦄
    modifyServer (stateTransition SERVER_FORMATTING_HEADERS) ⦃⇓ _ w => ⌜L w⌝⦄
  parsing : ∃ F, ParseSteps L R F
  answeredEarly : ⦃fun w => ⌜R .parsingBody w⌝⦄
    modifyServer (conditionalStateTransition SERVER_PARSING_BODY SERVER_FORMATTING_HEADERS)
    ⦃⇓ _ w => ⌜L w⌝⦄
  chunk : ⦃fun w => ⌜R .parsingBody w⌝⦄ onServer nextChunk
    ⦃⇓ result w => ⌜if result = (.success, 0) then R .skippingTrailer w else R .parsingBody w⌝⦄
  consume : ∀ n, Kept (R .parsingBody) (onServer (consumeBody n))
  consumeStopped : ∀ n, Kept I (onServer (consumeBody n))
  skip : ⦃fun w => ⌜R .skippingTrailer w⌝⦄ onServer stateSkipTrailer ⦃⇓ _ w => ⌜L w⌝⦄
  acquire : Kept (R .formattingHeaders) acquireSendBuffer
  format : ⦃fun w => ⌜R .formattingHeaders w⌝⦄ onServer formatHeaders ⦃⇓ _ w => ⌜L w⌝⦄
  startChunk : ∀ n, Kept (R .formattingBody) (onServer (formatStartChunk n))
  endChunk : ∀ produced n, Kept (R .formattingBody) (onServer (formatEndChunk produced n))
  endBody : ⦃fun w => ⌜R .formattingBody w⌝⦄ onServer endBody ⦃⇓ _ w => ⌜L w⌝⦄
  flush : ⦃fun w => ⌜R .flushingBody w⌝⦄ onServer stateFlushResponseBody ⦃⇓ _ w => ⌜L w⌝⦄
  count : Kept (R .end)
    (modifyServer fun s => { s with requestsPerConnection := s.requestsPerConnection + 1 })
  next : ⦃fun w => ⌜R .end w ∧ ¬ w.server.mustClose⌝⦄
    (do modifyServer (stateTransition SERVER_TRANSACTION_BEGIN); resetTransaction)
    ⦃⇓ _ w => ⌜L w⌝⦄

variable {L I R}

section advance

variable {handler : HttpServerHandler} {τ : Type} {bodyHandler : HttpServerBodyHandler τ}
variable (steps : ServerSteps L I R) (answers : ServerAnswers I R handler)
  (bodyAnswers : ServerBodyAnswers I R bodyHandler)

/-- What a step returns that does not end the loop. -/
def continues (error : Error) : Prop := error = .success ∨ error = .again

include steps answers in
theorem stateBeginTransaction_keeps :
    ⦃fun w => ⌜R .begin w⌝⦄ stateBeginTransaction handler
    ⦃⇓ error w => ⌜I w ∧ (continues error → L w)⌝⦄ := by
  have stop := steps.stop
  have beginning := steps.beginning
  have begun := steps.begun
  have answeredAtOnce := steps.answeredAtOnce
  have beginTransaction := answers.beginTransaction
  mvcgen [stateBeginTransaction, beginning, begun, answeredAtOnce, beginTransaction]
  all_goals clear beginning begun answeredAtOnce beginTransaction
  all_goals grind [goesOn, continues]

include steps answers in
theorem stateReceiveRequestHeaders_keeps :
    ⦃fun w => ⌜R .parsingHeaders w ∧ w.server.isIn .parsingHeaders⌝⦄
    stateReceiveRequestHeaders handler
    ⦃⇓ error w => ⌜I w ∧ (continues error → L w)⌝⦄ := by
  have stop := steps.stop
  have leave := steps.leave .parsingHeaders
  have leave' := steps.leave .parsingBody
  obtain ⟨F, parse, reject, rejected⟩ := steps.parsing
  have answeredEarly := steps.answeredEarly
  have receiveRequestHeaders := answers.receiveRequestHeaders
  mvcgen [stateReceiveRequestHeaders, parse, reject, rejected, answeredEarly, receiveRequestHeaders]
  all_goals clear parse reject rejected answeredEarly receiveRequestHeaders
  all_goals grind [goesOn, continues]

include steps bodyAnswers in
theorem offerLastChunk_keeps (t : τ) :
    ⦃fun w => ⌜R .skippingTrailer w⌝⦄ offerLastChunk bodyHandler t
    ⦃⇓ result w => ⌜I w ∧ (continues result.1 → L w)⌝⦄ := by
  have leave := steps.leave .skippingTrailer
  have consumeLast := bodyAnswers.consumeLast
  mvcgen [offerLastChunk, consumeLast]
  all_goals clear consumeLast
  rename_i result _ answered
  refine ⟨answered.1, fun on => leave _ (answered.2 ?_)⟩
  unfold afterLastChunk at on
  split at on <;> grind [goesOn, continues]

theorem consumeBody_not_again (n : Nat) (s : HttpServerSocket) : (s.consumeBody n).1 ≠ .again := by
  unfold consumeBody
  split
  · unfold HttpMessageParser.consumeBody
    grind
  · simp

include steps bodyAnswers in
theorem offerChunk_keeps (bytesAvailable : Nat) (t : τ) :
    ⦃fun w => ⌜R .parsingBody w⌝⦄ offerChunk bodyHandler bytesAvailable t
    ⦃⇓ result w => ⌜I w ∧ result.1 ≠ .again ∧ (goesOn result.2.1 → R .parsingBody w)⌝⦄ := by
  -- what is consumed changes nothing, whether the handler's answer goes on or not
  have consume : ∀ n error w, I w → (goesOn error → R .parsingBody w) →
      I (onServer (consumeBody n) w).2 ∧
        (goesOn error → R .parsingBody (onServer (consumeBody n) w).2) :=
    fun n error w stopped runs =>
      ⟨kept_iff.1 (steps.consumeStopped n) w stopped,
        fun on => kept_iff.1 (steps.consume n) w (runs on)⟩
  have consumeRequestBody := bodyAnswers.consumeRequestBody
  mvcgen [offerChunk, consumeRequestBody]
  all_goals clear consumeRequestBody
  · rename_i result _ w answered
    have kept := consume result.2.1 result.1 w answered.1 answered.2
    exact ⟨kept.1, consumeBody_not_again _ _, kept.2⟩
  · rename_i answered
    exact ⟨answered.1, by simp, answered.2⟩

include steps bodyAnswers in
theorem stateReceiveRequestBody_keeps (turns : Nat) (t : τ) :
    ⦃fun w => ⌜R .parsingBody w⌝⦄ stateReceiveRequestBody bodyHandler turns t
    ⦃⇓ result w => ⌜I w ∧ (continues result.1 → L w)⌝⦄ := by
  have stop := steps.stop
  have leave := steps.leave .parsingBody
  induction turns generalizing t with
  | zero =>
      mvcgen [stateReceiveRequestBody]
      all_goals grind [continues]
  | succ turns ih =>
      have chunk := steps.chunk
      have answeredEarly := steps.answeredEarly
      have offerLastChunk' := offerLastChunk_keeps steps bodyAnswers
      have offerChunk' := offerChunk_keeps steps bodyAnswers
      mvcgen [stateReceiveRequestBody, chunk, answeredEarly, offerLastChunk', offerChunk', ih]
      all_goals clear chunk answeredEarly offerLastChunk' offerChunk'
      all_goals grind [continues, goesOn]

include steps in
theorem stateSendResponseHeaders_keeps :
    ⦃fun w => ⌜R .formattingHeaders w⌝⦄ stateSendResponseHeaders ⦃⇓ _ w => ⌜L w⌝⦄ := by
  have leave := steps.leave .formattingHeaders
  have acquire := steps.acquire
  have format := steps.format
  mvcgen [stateSendResponseHeaders, Program.andThen, acquire, format]
  all_goals clear acquire format
  all_goals grind

include steps bodyAnswers in
theorem stateSendResponseBody_keeps (turns : Nat) (t : τ) :
    ⦃fun w => ⌜R .formattingBody w⌝⦄ stateSendResponseBody bodyHandler turns t
    ⦃⇓ result w => ⌜I w ∧ (continues result.1 → L w)⌝⦄ := by
  have stop := steps.stop
  have leave := steps.leave .formattingBody
  induction turns generalizing t with
  | zero =>
      mvcgen [stateSendResponseBody]
      all_goals grind [continues]
  | succ turns ih =>
      have startChunk := steps.startChunk
      have endChunk := steps.endChunk
      have endBody := steps.endBody
      have offerResponseBody := bodyAnswers.offerResponseBody
      have produceResponseBody := bodyAnswers.produceResponseBody
      mvcgen [stateSendResponseBody, startChunk, endChunk, endBody, offerResponseBody, produceResponseBody, ih]
      all_goals clear startChunk endChunk endBody offerResponseBody produceResponseBody
      all_goals grind [continues, produceFails]

include steps answers in
theorem stateEndTransaction_keeps :
    ⦃fun w => ⌜R .end w⌝⦄ stateEndTransaction handler
    ⦃⇓ error w => ⌜I w ∧ (continues error → L w)⌝⦄ := by
  have stop := steps.stop
  have next := triple_iff.1 steps.next
  have count := steps.count
  have endTransaction := answers.endTransaction
  mvcgen [stateEndTransaction, count, endTransaction]
  all_goals clear count endTransaction
  · grind [continues]
  · grind [continues]
  · rename_i answered _ _ closes
    have begun := next _ (answered.2 closes) closes
    exact ⟨stop _ begun, fun _ => begun⟩

include steps answers bodyAnswers in
theorem advanceState_keeps (turns : Nat) (t : τ) :
    ⦃fun w => ⌜L w⌝⦄ advanceState handler bodyHandler turns t
    ⦃⇓ result w => ⌜I w ∧ (continues result.1 → L w)⌝⦄ := by
  have stop := steps.stop
  have enter := steps.enter
  have skip := steps.skip
  have flush := steps.flush
  have stateBeginTransaction' := stateBeginTransaction_keeps steps answers
  have stateReceiveRequestHeaders' := stateReceiveRequestHeaders_keeps steps answers
  have stateReceiveRequestBody' := stateReceiveRequestBody_keeps steps bodyAnswers
  have stateSendResponseHeaders' := stateSendResponseHeaders_keeps steps
  have stateSendResponseBody' := stateSendResponseBody_keeps steps bodyAnswers
  have stateEndTransaction' := stateEndTransaction_keeps steps answers
  mvcgen [advanceState, skip, flush, stateBeginTransaction', stateReceiveRequestHeaders', stateReceiveRequestBody', stateSendResponseHeaders', stateSendResponseBody', stateEndTransaction']
  all_goals clear skip flush stateBeginTransaction' stateReceiveRequestHeaders' stateReceiveRequestBody' stateSendResponseHeaders' stateSendResponseBody' stateEndTransaction'
  all_goals first
    | grind [continues]
    | rename_i here; exact enter _ _ (by assumption) here
    | rename_i here; exact ⟨enter _ _ (by assumption) here, here⟩

include steps answers bodyAnswers in
theorem advanceLoop_keeps (flags : AdvanceFlags) (turns : Nat) (fillRecvBuffer drainSendBuffer : Bool)
    (t : τ) :
    ⦃fun w => ⌜L w⌝⦄ advanceLoop handler bodyHandler flags turns fillRecvBuffer drainSendBuffer t
    ⦃⇓ _ w => ⌜I w⌝⦄ := by
  have stop := steps.stop
  induction turns generalizing fillRecvBuffer drainSendBuffer t with
  | zero =>
      mvcgen [advanceLoop]
      all_goals grind
  | succ turns ih =>
      have fill := steps.fill
      have drain := steps.drain
      have advanceState' := advanceState_keeps steps answers bodyAnswers
      mvcgen [advanceLoop, fill, drain, advanceState', ih]
      all_goals clear fill drain advanceState'
      all_goals grind [continues]

/-- What the state machine keeps true. -/
theorem advanceStateMachine_keeps (steps : ServerSteps L I R) (answers : ServerAnswers I R handler)
    (bodyAnswers : ServerBodyAnswers I R bodyHandler) (flags : AdvanceFlags) (turns : Nat) (t : τ) :
    ⦃fun w => ⌜L w⌝⦄ advanceStateMachine handler bodyHandler flags turns t ⦃⇓ _ w => ⌜I w⌝⦄ :=
  advanceLoop_keeps steps answers bodyAnswers flags turns _ _ t

end advance

end machine

end HttpServerSocket

end Everscale
