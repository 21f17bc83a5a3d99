/-
# Everscale.Http1.ClientMachine -- what a client's state machine keeps true

The counterpart of `Http1.ServerMachine` for `HttpClientSocket`, for the socket of one
number.  `L` holds whenever the loop looks at the state, `R X` while the machine works in
the state `X`, and `I` when it has stopped.
-/
import Everscale.Http1.ClientSocket
import Everscale.Theory.Kept

namespace Everscale

set_option autoImplicit false
set_option mvcgen.warning false

open Std.Do

namespace HttpClientSocket

/-- The states the machine works in. -/
inductive ClientState where
  | begin
  | formattingHeaders
  | formattingBody
  | flushingBody
  | parsingHeaders
  | parsingBody
  | end
  deriving DecidableEq, Repr

def ClientState.bits : ClientState → StateBits
  | .begin => TRANSACTION_BEGIN
  | .formattingHeaders => FORMATTING_HEADERS
  | .formattingBody => FORMATTING_BODY
  | .flushingBody => FLUSHING_BODY
  | .parsingHeaders => PARSING_HEADERS
  | .parsingBody => PARSING_BODY
  | .end => TRANSACTION_END

/-- The bits say that the socket is in that state. -/
def isIn (state : ClientState) (s : HttpClientSocket) : Prop :=
  s.state &&& STATE_MASK = state.bits

/-- What a step returns that does not end the loop. -/
def continues (error : Error) : Prop := error = .success ∨ error = .again

/-- After these answers to `produceRequestBody` the machine goes on. -/
def produces (error : Error) : Prop := error = .success ∨ error = .again ∨ error = .pause

section machine

variable (L I : World → Prop) (R : ClientState → World → Prop) (id : Nat)

/-- What is asked of the callbacks that always go to the socket's own handler. -/
structure ClientAnswers (handler : HttpClientHandler) : Prop where
  beginTransaction : ⦃fun w => ⌜R .begin w⌝⦄ handler.beginTransaction id
    ⦃⇓ error w => ⌜I w ∧ (error = .success → R .begin w)⌝⦄
  receiveResponseHeaders : ⦃fun w => ⌜R .parsingBody w⌝⦄ handler.receiveResponseHeaders id
    ⦃⇓ error w => ⌜I w ∧ (error = .success → R .parsingBody w)⌝⦄
  endRequest : ⦃fun w => ⌜R .parsingHeaders w⌝⦄ handler.endRequest id
    ⦃⇓ error w => ⌜I w ∧ (continues error → R .parsingHeaders w)⌝⦄

/-- What is asked of the callbacks for bodies. -/
structure ClientBodyAnswers {τ : Type} (bodyHandler : HttpClientBodyHandler τ) : Prop where
  offerRequestBody : ∀ t, ⦃fun w => ⌜R .formattingBody w⌝⦄ bodyHandler.offerRequestBody id t
    ⦃⇓ result w => ⌜I w ∧ (result.1 = .success → R .formattingBody w)⌝⦄
  produceRequestBody : ∀ t n, ⦃fun w => ⌜R .formattingBody w⌝⦄ bodyHandler.produceRequestBody id t n
    ⦃⇓ result w => ⌜I w ∧ (produces result.1 → R .formattingBody w)⌝⦄
  consumeLast : ∀ t, ⦃fun w => ⌜R .end w⌝⦄ bodyHandler.consumeResponseBody id t []
    ⦃⇓ result w => ⌜I w ∧ (result.1 = .success → R .end w)⌝⦄
  consumeResponseBody : ∀ t body, ⦃fun w => ⌜R .parsingBody w⌝⦄
    bodyHandler.consumeResponseBody id t body
    ⦃⇓ result w => ⌜I w ∧ (result.1 = .success → R .parsingBody w)⌝⦄

/-- The steps of the machine. -/
structure ClientSteps : Prop where
  enter : ∀ state w, L w → (w.clients id).isIn state → R state w
  leave : ∀ state w, R state w → L w
  stop : ∀ w, L w → I w
  fill : Kept L (fillReceiveBuffer id)
  drain : Kept L (onClient id flushSendBuffer)
  announce : Kept (R .begin) (announceClose id)
  begun : ⦃fun w => ⌜R .begin w⌝⦄ modifyClient id (stateTransition FORMATTING_HEADERS)
    ⦃⇓ _ w => ⌜L w⌝⦄
  acquire : Kept (R .formattingHeaders) (acquireSendBuffer id)
  format : ⦃fun w => ⌜R .formattingHeaders w⌝⦄ onClient id formatHeaders ⦃⇓ _ w => ⌜L w⌝⦄
  startChunk : ∀ n, Kept (R .formattingBody) (onClient id (formatStartChunk n))
  endChunk : ∀ produced n, Kept (R .formattingBody) (onClient id (formatEndChunk produced n))
  endBody : ⦃fun w => ⌜R .formattingBody w⌝⦄ onClient id endBody ⦃⇓ _ w => ⌜L w⌝⦄
  flush : ⦃fun w => ⌜R .flushingBody w⌝⦄ onClient id flushRequestBody
    ⦃⇓ error w => ⌜if error = .success then R .parsingHeaders w else L w⌝⦄
  parse : ⦃fun w => ⌜R .parsingHeaders w⌝⦄ onClient id parseHeaders
    ⦃⇓ error w => ⌜if error = .success then R .parsingBody w else R .parsingHeaders w⌝⦄
  chunk : ⦃fun w => ⌜R .parsingBody w⌝⦄ onClient id nextChunk
    ⦃⇓ result w => ⌜if result = (.success, 0) then R .end w else R .parsingBody w⌝⦄
  consume : ∀ n, Kept (R .parsingBody) (onClient id (consumeBody n))
  consumeStopped : ∀ n, Kept I (onClient id (consumeBody n))

end machine

variable {L I : World → Prop} {R : ClientState → World → Prop} {id : Nat}

section advance

variable {handler : HttpClientHandler} {τ : Type} {bodyHandler : HttpClientBodyHandler τ}
variable (steps : ClientSteps L I R id) (answers : ClientAnswers I R id handler)
  (bodyAnswers : ClientBodyAnswers I R id bodyHandler)

include steps answers in
theorem stateBeginTransaction_keeps :
    ⦃fun w => ⌜R .begin w⌝⦄ stateBeginTransaction handler id
    ⦃⇓ error w => ⌜I w ∧ (continues error → L w)⌝⦄ := by
  have stop := steps.stop
  have leave := steps.leave .begin
  have announce := steps.announce
  have begun := steps.begun
  have beginTransaction := answers.beginTransaction
  mvcgen [stateBeginTransaction, announce, begun, beginTransaction]
  all_goals clear announce begun beginTransaction
  all_goals grind [continues, notAgain]

include steps in
theorem stateSendRequestHeaders_keeps :
    ⦃fun w => ⌜R .formattingHeaders w⌝⦄ stateSendRequestHeaders id ⦃⇓ _ w => ⌜L w⌝⦄ := by
  have leave := steps.leave .formattingHeaders
  have acquire := steps.acquire
  have format := steps.format
  mvcgen [stateSendRequestHeaders, Program.andThen, acquire, format]
  all_goals clear acquire format
  all_goals grind

include steps bodyAnswers in
theorem stateSendRequestBody_keeps (turns : Nat) (t : τ) :
    ⦃fun w => ⌜R .formattingBody w⌝⦄ stateSendRequestBody bodyHandler id turns t
    ⦃⇓ result w => ⌜I w ∧ (continues result.1 → L w)⌝⦄ := by
  have stop := steps.stop
  have leave := steps.leave .formattingBody
  induction turns generalizing t with
  | zero =>
      mvcgen [stateSendRequestBody]
      all_goals grind [continues]
  | succ turns ih =>
      have startChunk := steps.startChunk
      have endChunk := steps.endChunk
      have endBody := steps.endBody
      have offerRequestBody := bodyAnswers.offerRequestBody
      have produceRequestBody := bodyAnswers.produceRequestBody
      mvcgen [stateSendRequestBody, startChunk, endChunk, endBody, offerRequestBody,
        produceRequestBody, ih]
      all_goals clear startChunk endChunk endBody offerRequestBody produceRequestBody
      all_goals grind [continues, produces]

include steps answers in
theorem stateFlushRequestBody_keeps :
    ⦃fun w => ⌜R .flushingBody w⌝⦄ stateFlushRequestBody handler id
    ⦃⇓ error w => ⌜I w ∧ (continues error → L w)⌝⦄ := by
  have stop := steps.stop
  have leave := steps.leave .parsingHeaders
  have flush := steps.flush
  have endRequest := answers.endRequest
  mvcgen [stateFlushRequestBody, Program.andThen, flush, endRequest]
  all_goals clear flush endRequest
  all_goals grind [continues]

include steps answers in
theorem stateReceiveResponseHeaders_keeps :
    ⦃fun w => ⌜R .parsingHeaders w⌝⦄ stateReceiveResponseHeaders handler id
    ⦃⇓ error w => ⌜I w ∧ (continues error → L w)⌝⦄ := by
  have stop := steps.stop
  have leave := steps.leave .parsingHeaders
  have leave' := steps.leave .parsingBody
  have parse := steps.parse
  have receiveResponseHeaders := answers.receiveResponseHeaders
  mvcgen [stateReceiveResponseHeaders, parse, receiveResponseHeaders]
  all_goals clear parse receiveResponseHeaders
  all_goals grind [continues]

include steps bodyAnswers in
theorem offerLastChunk_keeps (t : τ) :
    ⦃fun w => ⌜R .end w⌝⦄ offerLastChunk bodyHandler id t
    ⦃⇓ result w => ⌜I w ∧ (continues result.1 → L w)⌝⦄ := by
  have leave := steps.leave .end
  have consumeLast := bodyAnswers.consumeLast
  mvcgen [offerLastChunk, consumeLast]
  all_goals clear consumeLast
  rename_i result _ answered
  refine ⟨answered.1, fun on => leave _ (answered.2 ?_)⟩
  split at on <;> grind [continues]

theorem consumeBody_not_again (n : Nat) (s : HttpClientSocket) : (s.consumeBody n).1 ≠ .again := by
  unfold consumeBody
  split
  · unfold HttpMessageParser.consumeBody
    grind
  · simp

include steps bodyAnswers in
theorem offerChunk_keeps (bytesAvailable : Nat) (t : τ) :
    ⦃fun w => ⌜R .parsingBody w⌝⦄ offerChunk bodyHandler id bytesAvailable t
    ⦃⇓ result w => ⌜I w ∧ result.1 ≠ .again ∧ (result.2.1 = .success → R .parsingBody w)⌝⦄ := by
  -- what is consumed changes nothing, whether the handler's answer goes on or not
  have consume : ∀ n (error : Error) w, I w → (error = .success → R .parsingBody w) →
      I (onClient id (consumeBody n) w).2 ∧
        (error = .success → R .parsingBody (onClient id (consumeBody n) w).2) :=
    fun n error w stopped runs =>
      ⟨kept_iff.1 (steps.consumeStopped n) w stopped,
        fun on => kept_iff.1 (steps.consume n) w (runs on)⟩
  have consumeResponseBody := bodyAnswers.consumeResponseBody
  mvcgen [offerChunk, consumeResponseBody]
  all_goals clear consumeResponseBody
  · rename_i result _ w answered
    have kept := consume result.2.1 result.1 w answered.1 answered.2
    exact ⟨kept.1, consumeBody_not_again _ _, kept.2⟩
  · rename_i answered
    exact ⟨answered.1, by simp, answered.2⟩

include steps bodyAnswers in
theorem stateReceiveResponseBody_keeps (turns : Nat) (t : τ) :
    ⦃fun w => ⌜R .parsingBody w⌝⦄ stateReceiveResponseBody bodyHandler id turns t
    ⦃⇓ result w => ⌜I w ∧ (continues result.1 → L w)⌝⦄ := by
  have stop := steps.stop
  have leave := steps.leave .parsingBody
  induction turns generalizing t with
  | zero =>
      mvcgen [stateReceiveResponseBody]
      all_goals grind [continues]
  | succ turns ih =>
      have chunk := steps.chunk
      have lastChunk := offerLastChunk_keeps steps bodyAnswers
      have offered := offerChunk_keeps steps bodyAnswers
      mvcgen [stateReceiveResponseBody, chunk, lastChunk, offered, ih]
      all_goals clear chunk lastChunk offered
      all_goals grind [continues]

include steps answers bodyAnswers in
theorem advanceState_keeps (turns : Nat) (t : τ) :
    ⦃fun w => ⌜L w⌝⦄ advanceState handler bodyHandler id turns t
    ⦃⇓ result w => ⌜I w ∧ (continues result.1 → L w)⌝⦄ := by
  have stop := steps.stop
  have enter := steps.enter
  have begins := stateBeginTransaction_keeps steps answers
  have sendHeaders := stateSendRequestHeaders_keeps steps
  have sendBody := stateSendRequestBody_keeps steps bodyAnswers
  have flush := stateFlushRequestBody_keeps steps answers
  have headers := stateReceiveResponseHeaders_keeps steps answers
  have body := stateReceiveResponseBody_keeps steps bodyAnswers
  mvcgen [advanceState, begins, sendHeaders, sendBody, flush, headers, body]
  all_goals clear begins sendHeaders sendBody flush headers body
  all_goals first
    | grind [continues]
    | rename_i here; exact enter _ _ (by assumption) here

include steps answers bodyAnswers in
theorem advanceLoop_keeps (flags : AdvanceFlags) (turns : Nat) (fillRecvBuffer drainSendBuffer : Bool)
    (t : τ) :
    ⦃fun w => ⌜L w⌝⦄
    advanceLoop handler bodyHandler flags id turns fillRecvBuffer drainSendBuffer t
    ⦃⇓ _ w => ⌜I w⌝⦄ := by
  have stop := steps.stop
  induction turns generalizing fillRecvBuffer drainSendBuffer t with
  | zero =>
      mvcgen [advanceLoop]
      all_goals grind
  | succ turns ih =>
      have fill := steps.fill
      have drain := steps.drain
      have state := advanceState_keeps steps answers bodyAnswers
      mvcgen [advanceLoop, fill, drain, state, ih]
      all_goals clear fill drain state
      all_goals grind [continues]

/-- What the state machine keeps true. -/
theorem advanceStateMachine_keeps (steps : ClientSteps L I R id) (answers : ClientAnswers I R id handler)
    (bodyAnswers : ClientBodyAnswers I R id bodyHandler) (flags : AdvanceFlags) (turns : Nat) (t : τ) :
    ⦃fun w => ⌜L w⌝⦄ advanceStateMachine handler bodyHandler flags id turns t ⦃⇓ _ w => ⌜I w⌝⦄ :=
  advanceLoop_keeps steps answers bodyAnswers flags turns _ _ t

end advance

end HttpClientSocket

end Everscale
