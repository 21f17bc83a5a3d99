/-
# Everscale.Http1.Retry -- a transaction that is executed once more

`handleRemove` executes a transaction once more when it was the first on a connection from
the pool and nothing of it was sent.  It hands over the transaction as it is: the formatter
goes on where it stopped, the octets it had put into the send buffer are gone with the
buffer, and so is what the handler was asked for of the body.

`firstAttempt` puts the stale socket away in the same manner and executes a transaction for the
first time.  Where the formatter had not begun, the retry is the first attempt: whatever happens
later, every connection is handed the same octets (`retry_sends_as_at_first`).
-/
import Everscale.Http1.SocketInvariant

namespace Everscale

set_option autoImplicit false
set_option mvcgen.warning false

/-! ## How far a formatter has come -/

section stages

open HttpMessageFormatter

variable {χ ρ : Type}

/-- Past the first line, the stage is never the initial one again, and success is the end of
the headers. -/
theorem formatNames_stage (headers : List HttpHeader) (s : HttpMessageFormatter χ) (b : Buffer)
    (begun : s.stage ≠ .initial) :
    (formatNames headers s b).state.stage ≠ .initial ∧
      ((formatNames headers s b).code = .success →
        (formatNames headers s b).state.stage = .headerFormatComplete) := by
  induction headers generalizing s b with
  | nil =>
      unfold formatNames formatEmptyLine Formatter.element
      split
      · exact ⟨by simp [Formatter.complete], fun _ => rfl⟩
      · rename_i failed _
        exact ⟨begun, fun success => absurd success failed⟩
  | cons header rest ih =>
      unfold formatNames formatValueThen Formatter.element
      dsimp only
      split
      · split
        · exact ih _ _ (by simp)
        · rename_i failed _
          exact ⟨by simp [foundField], fun success => absurd success failed⟩
      · rename_i failed _
        exact ⟨begun, fun success => absurd success failed⟩

theorem fromStartLine_stage (formatStartLine : Formatter χ) (message : HttpMessage ρ)
    (s : HttpMessageFormatter χ) (b : Buffer) (begun : s.stage ≠ .initial) :
    (fromStartLine formatStartLine message s b).state.stage ≠ .initial ∧
      ((fromStartLine formatStartLine message s b).code = .success →
        (fromStartLine formatStartLine message s b).state.stage = .headerFormatComplete) := by
  unfold fromStartLine Formatter.part
  dsimp only
  split
  · exact formatNames_stage _ _ _ (by simp)
  · rename_i failed
    exact ⟨begun, fun success => absurd success failed⟩

/-- A call that leaves a formatter in its initial stage has neither changed it nor written anything, one
that is successful leaves it behind the headers, and behind the headers it stays as it is. -/
theorem formatHeaders_stage (formatStartLine : Formatter χ) (message : HttpMessage ρ)
    (s : HttpMessageFormatter χ) (b : Buffer) :
    ((formatHeaders formatStartLine message s b).state.stage = .initial →
        (formatHeaders formatStartLine message s b).state = s ∧
          (formatHeaders formatStartLine message s b).output = b) ∧
      ((formatHeaders formatStartLine message s b).code = .success →
        (formatHeaders formatStartLine message s b).state.stage = .headerFormatComplete) ∧
      (s.stage = .headerFormatComplete →
        (formatHeaders formatStartLine message s b).state = s) := by
  have begun : ∀ {o : Formatted (HttpMessageFormatter χ)}, s.stage ≠ .headerFormatComplete →
      (o.state.stage ≠ .initial ∧ (o.code = .success → o.state.stage = .headerFormatComplete)) →
      (o.state.stage = .initial → o.state = s ∧ o.output = b) ∧
        (o.code = .success → o.state.stage = .headerFormatComplete) ∧
        (s.stage = .headerFormatComplete → o.state = s) :=
    fun open' past => ⟨fun initial => absurd initial past.1, past.2, fun ended => absurd ended open'⟩
  unfold formatHeaders
  cases stage : s.stage with
  | headerFormatComplete => exact ⟨fun _ => ⟨rfl, rfl⟩, fun success => (nomatch success), fun _ => rfl⟩
  | initial =>
      dsimp only
      unfold Formatter.start
      split
      · exact ⟨fun _ => ⟨rfl, rfl⟩, fun success => (nomatch success), fun _ => rfl⟩
      · have past := fromStartLine_stage formatStartLine message
          { s with stage := .startLine } b.writeMark (by simp)
        simpa only [stage] using begun (by simp [stage]) past
  | startLine =>
      have past := fromStartLine_stage formatStartLine message s b (by simp [stage])
      simpa only [stage] using begun (by simp [stage]) past
  | fieldName =>
      have past := formatNames_stage s.currentHeader s b (by simp [stage])
      simpa only [stage] using begun (by simp [stage]) past
  | fieldValue =>
      cases s.currentHeader with
      | nil => exact ⟨fun _ => ⟨rfl, rfl⟩, fun success => (nomatch success), fun _ => rfl⟩
      | cons header rest =>
          have past : (formatValueThen header rest (formatNames rest) s b).state.stage ≠ .initial ∧
              ((formatValueThen header rest (formatNames rest) s b).code = .success →
                (formatValueThen header rest (formatNames rest) s b).state.stage =
                  .headerFormatComplete) := by
            unfold formatValueThen Formatter.element
            split
            · exact formatNames_stage _ _ _ (by simp)
            · rename_i failed _
              exact ⟨by simp [stage], fun success => absurd success failed⟩
          simpa only [stage] using begun (by simp [stage]) past

end stages

/-! ## What a retry finds -/

/-- The transaction is as it was created, but for the request, the address and the context that the
application gave it: nothing was formatted for it, and no response was parsed. -/
structure HttpClientTransaction.Untouched (t : HttpClientTransaction) : Prop where
  parser : ∃ parseBufferSize, t.parser = HttpResponseParser.fresh (Buffer.create parseBufferSize)
  formatter : t.formatter = HttpRequestFormatter.fresh
  formatted : t.formatted = []

/-- `t` is `o`, or `o` with the header that `stateBeginTransaction` adds. -/
def HttpClientTransaction.Announced (reuse : Bool) (o t : HttpClientTransaction) : Prop :=
  t = o ∨ reuse = false ∧ (o.request.findHeader "Connection").isNone = true ∧
    t = { o with request := HttpClientSocket.addClose o.request }

theorem findHeader_addClose (request : HttpRequest) :
    ((HttpClientSocket.addClose request).findHeader "Connection").isSome = true := by
  unfold HttpClientSocket.addClose HttpMessage.addHeader HttpMessage.findHeader
  rw [List.find?_isSome]
  exact ⟨_, List.mem_append_right _ (List.mem_singleton.2 rfl), by decide⟩

namespace HttpClientTransaction

variable {reuse : Bool} {o t : HttpClientTransaction}

theorem Announced.untouched (h : Announced reuse o t) (untouched : o.Untouched) : t.Untouched := by
  rcases h with rfl | ⟨-, -, rfl⟩
  · exact untouched
  · exact ⟨untouched.parser, untouched.formatter, untouched.formatted⟩

/-- The header is added once. -/
theorem Announced.addClose (h : Announced false o t)
    (unannounced : (t.request.findHeader "Connection").isNone = true) :
    Announced false o { t with request := HttpClientSocket.addClose t.request } := by
  rcases h with rfl | ⟨-, -, rfl⟩
  · exact .inr ⟨rfl, unannounced, rfl⟩
  · have present := findHeader_addClose o.request
    rw [Option.isNone_iff_eq_none] at unannounced
    rw [unannounced] at present
    cases present

end HttpClientTransaction

namespace HttpClientSocket

open ClientState

/-- The states behind the headers of the request. -/
def ClientState.pastHeaders : ClientState → Bool
  | .formattingBody | .flushingBody | .parsingHeaders | .parsingBody => true
  | _ => false

/-- The formatter is through with the headers. -/
def HeadersFormatted (s : HttpClientSocket) : Prop :=
  ∀ t, s.transaction = some t → t.formatter.stage = .headerFormatComplete

/-- What there is to know of a socket's transaction in view of a retry: while the formatter is in its
initial stage the transaction is the original one but for the header, and nothing was asked for of
the body; behind the headers the formatter is through with them. -/
structure Retriable (reuse : Bool) (s : HttpClientSocket) : Prop where
  original : ∀ t, s.transaction = some t → t.formatter.stage = .initial →
    s.formatted = [] ∧ s.bodyTaken = [] ∧
      ∃ o, s.original = some o ∧ o.Untouched ∧ HttpClientTransaction.Announced reuse o t
  past : ∀ state : ClientState, state.pastHeaders = true → s.isIn state → s.HeadersFormatted

/-- What is known while the machine works in a state. -/
def Through (state : ClientState) (s : HttpClientSocket) : Prop :=
  state.pastHeaders = true → s.HeadersFormatted

variable {reuse : Bool} {s : HttpClientSocket}

/-- A transition to none of the states behind the headers leads to none of them. -/
theorem not_past {target : StateBits}
    (other : (if target &&& STATE_MASK ∈ states then target &&& STATE_MASK else 0#32) ∉
      [FORMATTING_BODY, FLUSHING_BODY, PARSING_HEADERS, PARSING_BODY]) (s : HttpClientSocket)
    {state : ClientState} (past : state.pastHeaders = true) : ¬ (s.stateTransition target).isIn state := by
  intro here
  have bits : state.bits ∈ [FORMATTING_BODY, FLUSHING_BODY, PARSING_HEADERS, PARSING_BODY] := by
    cases state <;> first | (cases past; done) | decide
  have here : (s.stateTransition target).state &&& STATE_MASK = state.bits := here
  rw [stateTransition_masked] at here
  exact other (here ▸ bits)

/-- What leaves the transaction alone and leads to no state behind the headers changes nothing. -/
theorem retriable_same {condition : HttpClientSocket → Prop} {f : HttpClientSocket → HttpClientSocket}
    (same : ∀ s, (∀ state : ClientState, state.pastHeaders = true → (f s).isIn state → s.isIn state) ∧
      (f s).transaction = s.transaction ∧ (f s).original = s.original ∧
      (f s).formatted = s.formatted ∧ (f s).bodyTaken = s.bodyTaken) :
    Keeps (Retriable reuse) Through condition f := by
  intro s holds _
  obtain ⟨state, transaction, original, formatted, taken⟩ := same s
  refine ⟨⟨fun t present => ?_, fun here past within => ?_⟩, fun here known past => ?_⟩
  · rw [transaction] at present
    rw [original, formatted, taken]
    exact holds.original t present
  · unfold HeadersFormatted
    rw [transaction]
    exact holds.past here past (state here past within)
  · unfold HeadersFormatted
    rw [transaction]
    exact known past

/-- Behind the headers all is well that leaves the formatter there. -/
theorem retriable_past {condition : HttpClientSocket → Prop} {f : HttpClientSocket → HttpClientSocket}
    (known : ∀ s, condition s → s.HeadersFormatted)
    (stays : ∀ s, s.HeadersFormatted → (f s).HeadersFormatted) :
    Keeps (Retriable reuse) Through condition f := by
  intro s _ here
  have through := stays s (known s here)
  refine ⟨⟨fun t present initial => ?_, fun _ _ _ => through⟩, fun _ _ _ => through⟩
  exact absurd (initial.symm.trans (through t present)) (by decide)

theorem retriable_transition {condition : HttpClientSocket → Prop} {target : StateBits}
    (other : (if target &&& STATE_MASK ∈ states then target &&& STATE_MASK else 0#32) ∉
      [FORMATTING_BODY, FLUSHING_BODY, PARSING_HEADERS, PARSING_BODY]) :
    Keeps (Retriable reuse) Through condition (stateTransition target) :=
  retriable_same fun s =>
    ⟨fun _ past here => absurd here (not_past other s past), rfl, rfl, rfl, rfl⟩

/-- A socket without a transaction has nothing to retry. -/
theorem retriable_none {condition : HttpClientSocket → Prop} {f : HttpClientSocket → HttpClientSocket}
    (none : ∀ s, (f s).transaction = none) : Keeps (Retriable reuse) Through condition f := by
  intro s _ _
  have through : (f s).HeadersFormatted := by
    intro t present
    rw [none s] at present
    cases present
  refine ⟨⟨fun t present => ?_, fun _ _ _ => through⟩, fun _ _ _ => through⟩
  rw [none s] at present
  cases present

theorem formatHeaders_retriable {condition : HttpClientSocket → Prop} :
    Keeps (Retriable reuse) Through condition fun s => s.formatHeaders.2 := by
  intro s holds _
  show Retriable reuse s.formatHeaders.2 ∧ ∀ state, Through state s → Through state s.formatHeaders.2
  unfold formatHeaders
  split
  · rename_i t b present _
    obtain ⟨unbegun, complete, stays⟩ := formatHeaders_stage
      (HttpRequestFormatter.formatStartLine t.request) t.request t.formatter b
    have original : ∀ t', some { t with
        formatter := (HttpRequestFormatter.formatHeaders t.request t.formatter b).state
        formatted := s.formatted ++ appended b (HttpRequestFormatter.formatHeaders t.request t.formatter b).output } =
          some t' → t'.formatter.stage = .initial →
        s.formatted ++ appended b (HttpRequestFormatter.formatHeaders t.request t.formatter b).output = [] ∧
          s.bodyTaken = [] ∧
          ∃ o, s.original = some o ∧ o.Untouched ∧ HttpClientTransaction.Announced reuse o t' := by
      intro t' same initial
      cases same
      -- the call came to nothing
      obtain ⟨state, output⟩ : (HttpRequestFormatter.formatHeaders t.request t.formatter b).state = t.formatter ∧
          (HttpRequestFormatter.formatHeaders t.request t.formatter b).output = b := unbegun initial
      obtain ⟨formatted, taken, o, original, untouched, announced⟩ :=
        holds.original t present ((congrArg HttpMessageFormatter.stage state).symm.trans initial)
      have nothing : appended b b = [] := by simp [appended]
      have fresh := (announced.untouched untouched).formatted
      rw [state, output, nothing, formatted, List.append_nil]
      refine ⟨rfl, taken, o, original, untouched, ?_⟩
      rw [← fresh]
      exact announced
    have through : s.HeadersFormatted → ∀ t', some { t with
        formatter := (HttpRequestFormatter.formatHeaders t.request t.formatter b).state
        formatted := s.formatted ++ appended b (HttpRequestFormatter.formatHeaders t.request t.formatter b).output } =
          some t' → t'.formatter.stage = .headerFormatComplete := by
      intro known t' same
      cases same
      have ended := known t present
      exact (congrArg HttpMessageFormatter.stage (stays ended)).trans ended
    dsimp only
    split
    · rename_i success
      refine ⟨⟨original, fun _ _ _ t' same => ?_⟩, fun _ known past => through (known past)⟩
      cases same
      exact complete success
    · refine ⟨⟨original, fun state past here => ?_⟩, fun _ known past => through (known past)⟩
      exact through (holds.past state past here)
  · exact ⟨holds, fun _ known => known⟩

theorem HeadersFormatted.withTransaction {t t' : HttpClientTransaction} (h : s.HeadersFormatted)
    (present : s.transaction = some t) {s' : HttpClientSocket} (after : s'.transaction = some t')
    (stage : t'.formatter.stage = t.formatter.stage) : s'.HeadersFormatted := by
  intro t'' same
  rw [after] at same
  cases same
  exact stage.trans (h t present)

theorem endBody_through (h : s.HeadersFormatted) : s.endBody.2.HeadersFormatted := by
  unfold endBody
  split
  · rename_i t b present _
    have stage : (HttpMessageFormatter.endBody t.formatter b).state.stage = t.formatter.stage := by
      unfold HttpMessageFormatter.endBody
      split
      · rfl
      · split <;> rfl
      · rfl
      · rfl
    dsimp only
    split
    · exact h.withTransaction present rfl stage
    · exact h.withTransaction present rfl stage
  · exact h

theorem formatStartChunk_through (n : Nat) (h : s.HeadersFormatted) :
    (s.formatStartChunk n).2.HeadersFormatted := by
  unfold formatStartChunk
  split
  · rename_i present _
    exact h.withTransaction present rfl rfl
  · exact h

theorem formatEndChunk_through (produced : List Octet) (n : Nat) (h : s.HeadersFormatted) :
    (s.formatEndChunk produced n).2.HeadersFormatted := by
  unfold formatEndChunk
  split
  · rename_i present _
    exact h.withTransaction present rfl rfl
  · exact h

theorem parseHeaders_through (h : s.HeadersFormatted) : s.parseHeaders.2.HeadersFormatted := by
  unfold parseHeaders
  split
  · rename_i present _
    dsimp only
    split
    · exact h.withTransaction present rfl rfl
    · exact h.withTransaction present rfl rfl
  · exact h

theorem currentChunk_through (h : s.HeadersFormatted) :
    s.currentChunkBytesAvailable.2.HeadersFormatted := by
  unfold currentChunkBytesAvailable
  split
  · exact h
  · split
    · rename_i present _
      split
      · exact h
      · dsimp only
        split
        · exact h.withTransaction present rfl rfl
        · split
          · exact h.withTransaction present rfl rfl
          · exact h.withTransaction present rfl rfl
    · exact h

theorem nextChunk_through (h : s.HeadersFormatted) : s.nextChunk.2.HeadersFormatted := by
  have chunk := currentChunk_through h
  unfold nextChunk
  split
  · rename_i last
    rw [last] at chunk
    exact chunk
  · exact chunk

/-- What a fresh parser is asked to consume it does not. -/
theorem consumeBody_retriable {condition : HttpClientSocket → Prop} (n : Nat) :
    Keeps (Retriable reuse) Through condition fun s => (s.consumeBody n).2 := by
  intro s holds _
  show Retriable reuse (s.consumeBody n).2 ∧ ∀ state, Through state s → Through state (s.consumeBody n).2
  have consumed : (s.consumeBody n).2.state = s.state ∧ (s.consumeBody n).2.original = s.original ∧
      (s.consumeBody n).2.formatted = s.formatted ∧ (s.consumeBody n).2.bodyTaken = s.bodyTaken ∧
      ∀ t', (s.consumeBody n).2.transaction = some t' → ∃ t, s.transaction = some t ∧
        t'.formatter.stage = t.formatter.stage ∧ (t.Untouched → t' = t) := by
    unfold consumeBody
    split
    · rename_i t b present _
      have unread : t.Untouched → (t.parser.consumeBody b n).state = t.parser := by
        intro untouched
        obtain ⟨_, fresh⟩ := untouched.parser
        rw [fresh]
        rfl
      have same : ∀ t', some { t with parser := (t.parser.consumeBody b n).state } = some t' →
          ∃ t, s.transaction = some t ∧ t'.formatter.stage = t.formatter.stage ∧ (t.Untouched → t' = t) := by
        intro t' same
        cases same
        refine ⟨t, present, rfl, fun untouched => ?_⟩
        rw [unread untouched]
      dsimp only
      split
      · exact ⟨rfl, rfl, rfl, rfl, same⟩
      · exact ⟨rfl, rfl, rfl, rfl, same⟩
    · exact ⟨rfl, rfl, rfl, rfl, fun t' present => ⟨t', present, rfl, fun _ => rfl⟩⟩
  obtain ⟨state, original, formatted, taken, transaction⟩ := consumed
  have through : s.HeadersFormatted → (s.consumeBody n).2.HeadersFormatted := by
    intro known t' present
    obtain ⟨t, before, stage, _⟩ := transaction t' present
    exact stage.trans (known t before)
  refine ⟨⟨fun t' present initial => ?_, fun here past within => ?_⟩, fun _ known past => through (known past)⟩
  · obtain ⟨t, before, stage, unchanged⟩ := transaction t' present
    obtain ⟨nothing, unasked, o, first, untouched, announced⟩ :=
      holds.original t before (stage.symm.trans initial)
    rw [original, formatted, taken, unchanged (announced.untouched untouched)]
    exact ⟨nothing, unasked, o, first, untouched, announced⟩
  · refine through (holds.past here past ?_)
    unfold isIn at within ⊢
    rwa [state] at within

theorem flushSendBuffer_same (s : HttpClientSocket) :
    s.flushSendBuffer.2.state &&& STATE_MASK = s.state &&& STATE_MASK ∧
      s.flushSendBuffer.2.transaction = s.transaction ∧ s.flushSendBuffer.2.original = s.original ∧
      s.flushSendBuffer.2.formatted = s.formatted ∧ s.flushSendBuffer.2.bodyTaken = s.bodyTaken := by
  unfold flushSendBuffer
  split
  · exact ⟨rfl, rfl, rfl, rfl, rfl⟩
  · dsimp only
    split
    · exact ⟨and_not_and_of_outside (by decide), rfl, rfl, rfl, rfl⟩
    · exact ⟨rfl, rfl, rfl, rfl, rfl⟩

theorem flushSendBuffer_retriable {condition : HttpClientSocket → Prop} :
    Keeps (Retriable reuse) Through condition fun s => s.flushSendBuffer.2 :=
  retriable_same fun s => by
    obtain ⟨state, same⟩ := flushSendBuffer_same s
    exact ⟨fun _ _ here => state.symm.trans here, same⟩

theorem flushRequestBody_through (h : s.HeadersFormatted) : s.flushRequestBody.2.HeadersFormatted := by
  obtain ⟨-, transaction, -⟩ := flushSendBuffer_same s.recordFlush
  have same : s.flushRequestBody.2.transaction = s.transaction := by
    unfold flushRequestBody
    split
    · rename_i flushed
      rw [flushed] at transaction
      exact transaction
    · rename_i flushed
      rw [flushed] at transaction
      exact transaction
  unfold HeadersFormatted
  rw [same]
  exact h

theorem refill_retriable {condition : HttpClientSocket → Prop} :
    Keeps (Retriable reuse) Through condition fun s => s.refill.2 :=
  retriable_same fun s => by
    unfold refill
    split
    · exact ⟨fun _ _ => id, rfl, rfl, rfl, rfl⟩
    · dsimp only
      split <;> exact ⟨fun _ _ => id, rfl, rfl, rfl, rfl⟩

theorem flag_retriable {condition : HttpClientSocket → Prop} {flag : StateBits}
    (outside : flag &&& STATE_MASK = 0#32) :
    Keeps (Retriable reuse) Through condition (addFlag flag) ∧
      Keeps (Retriable reuse) Through condition (clearFlag flag) :=
  ⟨retriable_same fun _ =>
      ⟨fun _ _ here => (or_and_of_outside outside).symm.trans here, rfl, rfl, rfl, rfl⟩,
    retriable_same fun _ =>
      ⟨fun _ _ here => (and_not_and_of_outside outside).symm.trans here, rfl, rfl, rfl, rfl⟩⟩

theorem announce_retriable :
    reuse = false → Keeps (Retriable reuse) Through
      (fun s => s.transaction.any fun t => (t.request.findHeader "Connection").isNone)
      (modifyRequest addClose) := by
  rintro rfl s holds unannounced
  have through : s.HeadersFormatted → (s.modifyRequest addClose).HeadersFormatted := by
    intro known t' present
    obtain ⟨t, before, rfl⟩ := Option.map_eq_some_iff.1 present
    exact known t before
  refine ⟨⟨fun t' present initial => ?_, fun here past within => ?_⟩, fun _ known past => through (known past)⟩
  · obtain ⟨t, before, rfl⟩ := Option.map_eq_some_iff.1 present
    rw [before] at unannounced
    obtain ⟨nothing, unasked, o, first, untouched, announced⟩ := holds.original t before initial
    exact ⟨nothing, unasked, o, first, untouched, announced.addClose unannounced⟩
  · exact through (holds.past here past within)

/-- A new socket may execute its transaction once more. -/
theorem construct_retriable {transaction : HttpClientTransaction} (socket : ConnectedSocket) (reused : Bool)
    (unbegun : transaction.formatter.stage = .initial → transaction.Untouched) :
    Retriable reuse (HttpClientSocketFactory.construct transaction socket reused) := by
  have original : ∀ t, some transaction = some t → t.formatter.stage = .initial →
      transaction.formatted = [] ∧ ([] : List Octet) = [] ∧
        ∃ o, some transaction = some o ∧ o.Untouched ∧ HttpClientTransaction.Announced reuse o t := by
    intro t same initial
    cases same
    exact ⟨(unbegun initial).formatted, rfl, transaction, rfl, unbegun initial, .inl rfl⟩
  unfold HttpClientSocketFactory.construct
  dsimp only
  split
  · refine ⟨original, fun state past here => ?_⟩
    have here := (or_and_of_outside (by decide)).symm.trans here
    exact absurd here (not_past (by decide) _ past)
  · refine ⟨original, fun state past here => ?_⟩
    have here : CONNECTING &&& STATE_MASK = state.bits := here
    cases state <;> first | (cases past; done) | exact absurd here (by decide)

/-- What a client socket may retry is kept track of by all its functions. -/
theorem clientKeeps_retriable (size : Nat) (reuse : Bool) :
    ClientKeeps size reuse (fun t => t.formatter.stage = .initial → t.Untouched) (Retriable reuse) Through where
  fresh _ parseBufferSize _ _ _ := ⟨⟨parseBufferSize, rfl⟩, rfl, rfl⟩
  transaction s holds t present initial := by
    obtain ⟨-, -, o, -, untouched, announced⟩ := holds.original t present initial
    exact announced.untouched untouched
  enter _ state holds here past := holds.past state past here
  unopened := ⟨fun _ present => (nomatch present), fun _ _ _ _ present => (nomatch present)⟩
  construct _ socket reused unbegun := construct_retriable socket reused unbegun
  addFlag _ known := (flag_retriable (clientFlag_outside known)).1
  clearFlag _ known := (flag_retriable (clientFlag_outside known)).2
  markDead := retriable_same fun _ =>
    ⟨fun _ _ here => (or_and_of_outside (by decide)).symm.trans here, rfl, rfl, rfl, rfl⟩
  markMultiplexed := retriable_same fun _ => ⟨fun _ _ => id, rfl, rfl, rfl, rfl⟩
  established := retriable_same fun _ => ⟨fun _ _ => id, rfl, rfl, rfl, rfl⟩
  connected := retriable_transition (by decide)
  recvBuffer := retriable_same fun _ => ⟨fun _ _ => id, rfl, rfl, rfl, rfl⟩
  sendBuffer := retriable_same fun _ => ⟨fun _ _ => id, rfl, rfl, rfl, rfl⟩
  refill := refill_retriable
  flushSendBuffer := flushSendBuffer_retriable
  announce := announce_retriable
  begun := retriable_transition (by decide)
  formatHeaders := formatHeaders_retriable
  formatStartChunk n := retriable_past (fun _ known => known rfl) fun _ => formatStartChunk_through n
  formatEndChunk produced n := retriable_past (fun _ known => known rfl) fun _ =>
    formatEndChunk_through produced n
  endBody := retriable_past (fun _ known => known rfl) fun _ => endBody_through
  flushRequestBody := retriable_past (fun _ known => known rfl) fun _ => flushRequestBody_through
  flushed _ _ known _ _ := flushRequestBody_through (known rfl)
  parseHeaders := retriable_past (fun _ known => known rfl) fun _ => parseHeaders_through
  parsed _ _ known _ _ := parseHeaders_through (known rfl)
  nextChunk := retriable_past (fun _ known => known rfl) fun _ => nextChunk_through
  lastChunk _ _ known _ _ := nextChunk_through (known rfl)
  consumeBody := consumeBody_retriable
  releaseBuffers := retriable_same fun _ => ⟨fun _ _ => id, rfl, rfl, rfl, rfl⟩
  closeSocket := retriable_same fun _ => ⟨fun _ _ => id, rfl, rfl, rfl, rfl⟩
  noTransaction := retriable_none fun _ => rfl
  deactivate := retriable_none fun _ => rfl
  abandoned := retriable_none fun _ => rfl
  supply _ _ _ := retriable_same fun _ => ⟨fun _ _ => id, rfl, rfl, rfl, rfl⟩

end HttpClientSocket

/-! ## Removals -/

/-- An event of a client connection, up to its removal: whether the multiplexer keeps it. -/
def clientStays (depth id : Nat) (readiness : Readiness) : Program Bool := do
  let kept ← if readiness.error || readiness.hangUp then pure false
    else serveClient scripted depth id readiness
  if kept then return (← ask) = .success else return false

/-- In a run from `w` the multiplexer removes client connection `id` from the world `v`: it was idle, or
an event ends so. -/
inductive World.Removes (w : World) (depth id : Nat) : World → Prop
  | idle (events : List ApplicationEvent) (there : ((w.runScripted events).clients id).multiplexed = true) :
      Removes w depth id (w.runScripted events)
  | served (events : List ApplicationEvent) (readiness : Readiness)
      (there : ((w.runScripted events).clients id).multiplexed = true)
      (alive : has ((w.runScripted events).clients id).state DEAD = false)
      (leaves : (clientStays depth id readiness (w.runScripted events)).1 = false) :
      Removes w depth id (clientStays depth id readiness (w.runScripted events)).2

/-- The connection is in the multiplexer and open, as `removeMultiplexedSocket` asks for, and it is
stale: `handleRemove` executes its transaction once more. -/
structure HttpClientSocket.Retries (s : HttpClientSocket) : Prop where
  multiplexed : s.multiplexed = true
  isOpen : s.socket.isOpen = true
  stale : s.isStale = true

/-- A stale connection is put away, and the application executes a transaction, which it has back when
that fails. -/
def firstAttempt (depth id : Nat) (transaction : HttpClientTransaction) : Program Unit := do
  modifyClient id HttpClientSocket.markDead
  HttpClientSocket.addToDead id
  HttpClientSocket.recordRetry id
  modifyClient id HttpClientSocket.releaseBuffers
  modifyClient id HttpClientSocket.closeSocket
  let error ← (streams scripted depth).executeClientTransaction transaction
  if error ≠ .success then
    (handlers scripted depth).client.endTransaction id .begin
    HttpClientSocket.destroyClientTransaction transaction.id
  modifyClient id HttpClientSocket.deactivate

/-- The octets that client connection `n` has been handed when the events have happened. -/
def World.handed (w : World) (events : List ApplicationEvent) (n : Nat) : List Octet :=
  ((w.runScripted events).clients n).socket.sent

/-- Whatever happens later, the connections are handed by the retry what they are handed by a first
attempt to execute that transaction. -/
def World.RetrySendsAs (v : World) (depth id : Nat) (transaction : HttpClientTransaction) : Prop :=
  ∀ events n, (removeClient scripted depth id v).2.handed events n =
    (firstAttempt depth id transaction v).2.handed events n

section removals

variable {w v : World} {depth id : Nat}

theorem World.runScripted_concat (w : World) (events : List ApplicationEvent) (event : ApplicationEvent) :
    w.runScripted (events ++ [event]) = (event.happen (w.runScripted events)).2 := by
  rw [runScripted, List.foldl_append]
  rfl

/-- An event that does not keep the connection removes it. -/
theorem clientEvent_leaves (readiness : Readiness) (alive : has (w.clients id).state DEAD = false)
    (leaves : (clientStays depth id readiness w).1 = false) :
    (clientEvent scripted depth id readiness w).2 =
      (removeClient scripted depth id (clientStays depth id readiness w).2).2 := by
  have gone : ¬ has (w.clients id).state DEAD = true := by rw [alive]; decide
  unfold clientStays at leaves ⊢
  rw [clientEvent, get_bind, if_neg gone]
  dsimp only at leaves ⊢
  split
  · rfl
  · rename_i quiet
    rw [if_neg quiet, bind_apply] at leaves
    rw [bind_apply, bind_apply]
    split
    · rename_i kept
      rw [if_pos kept, bind_apply] at leaves
      rw [bind_apply, bind_apply]
      -- the timer may have run out
      generalize ask (serveClient scripted depth id readiness w).2 = answer at leaves
      obtain ⟨error, asked⟩ := answer
      cases error with
      | success => cases leaves
      | _ => rfl
    · rfl

/-- The removal is what happens next in the run. -/
theorem World.Removes.happens (h : w.Removes depth id v) :
    ∃ events, w.runScripted events = (removeClient scripted depth id v).2 := by
  cases h with
  | idle events there =>
      refine ⟨events ++ [.event (.clientIdle depth id)], ?_⟩
      rw [runScripted_concat, ApplicationEvent.happen, Event.happen, get_bind, if_pos there]
  | served events readiness there alive leaves =>
      refine ⟨events ++ [.event (.client depth id readiness)], ?_⟩
      rw [runScripted_concat, ApplicationEvent.happen, Event.happen, get_bind, if_pos there]
      exact clientEvent_leaves readiness alive leaves

/-- `abort` removes a connection that is not stale. -/
theorem abort_not_stale (s : HttpClientSocket) : (s.addFlag ABORTED).isStale = false := by
  have flag : has (s.state ||| ABORTED) ABORTED = true := by
    unfold has
    rw [BitVec.and_or_distrib_right, BitVec.and_self, bne_iff_ne, Ne, BitVec.or_eq_zero_iff]
    exact fun zero => absurd zero.2 (by decide)
  unfold HttpClientSocket.isStale HttpClientSocket.addFlag
  rw [flag, Bool.not_true, Bool.and_false]

/-- What is known of the sockets of a run is known of those in the world a connection is removed from. -/
theorem World.Removes.retriable (h : w.Removes depth id v) (start : w.Accepted) :
    (∀ n, (v.clients n).Retriable w.reuseConnections) ∧ ∀ n, v.clientSockets ≤ n → v.clients n = {} := by
  have server := serverKeeps_nothing w.ioBufferSize
  have client := HttpClientSocket.clientKeeps_retriable w.ioBufferSize w.reuseConnections
  have run := fun events => runScripted_sockets server client events start trivial rfl rfl
  have holds : SocketsHold w.ioBufferSize w.reuseConnections (fun _ => True) (fun _ _ => True)
      (HttpClientSocket.Retriable w.reuseConnections) HttpClientSocket.Through Known.nothing v := by
    cases h with
    | idle events there => exact run events
    | served events readiness there alive leaves =>
        have family : FamilySteps _ (SocketsHold w.ioBufferSize w.reuseConnections (fun _ => True)
            (fun _ _ => True) (HttpClientSocket.Retriable w.reuseConnections) HttpClientSocket.Through)
            Known.atServer Known.atClient := familySteps_of_keeps server client
        have served := serveClient_keeps family (fun s keep k =>
          scripted_keeps (family.steps k) (scriptSteps_of_keeps client k) (keep k)) depth id readiness Known.nothing
        have ask := (family.steps Known.nothing).ask
        have stays : Kept (SocketsHold w.ioBufferSize w.reuseConnections (fun _ => True) (fun _ _ => True)
            (HttpClientSocket.Retriable w.reuseConnections) HttpClientSocket.Through Known.nothing)
            (clientStays depth id readiness) := by
          mvcgen [clientStays, served, ask]
        exact kept_iff.1 stays _ (run events)
  exact ⟨holds.client, holds.unopened⟩

theorem modifyClient_clients (id : Nat) (f : HttpClientSocket → HttpClientSocket)
    (opened : id < v.clientSockets) :
    (modifyClient id f v).2.clients id = f (v.clients id) ∧
      (modifyClient id f v).2.clientSockets = v.clientSockets := by
  unfold modifyClient onClient
  dsimp only
  rw [if_pos opened]
  exact ⟨Function.update_self .., rfl⟩

/-- The retry executes the transaction that the stale socket has. -/
theorem removeClient_stale {transaction : HttpClientTransaction} (opened : id < v.clientSockets)
    (retries : (v.clients id).Retries) (present : (v.clients id).transaction = some transaction) :
    (removeClient scripted depth id v).2 = (firstAttempt depth id transaction v).2 := by
  -- the socket is dead
  obtain ⟨dead, count⟩ := modifyClient_clients id HttpClientSocket.markDead opened
  have stale : ((modifyClient id HttpClientSocket.markDead v).2.clients id).isStale = true := by
    have same := retries.stale
    rw [dead]
    unfold HttpClientSocket.isStale has at same ⊢
    unfold HttpClientSocket.markDead HttpClientSocket.addFlag
    rwa [or_and_of_outside (by decide), or_and_of_outside (by decide)]
  -- its buffers are released, and the connection is closed
  obtain ⟨emptied, count'⟩ := modifyClient_clients id
    (v := (HttpClientSocket.recordRetry id (HttpClientSocket.addToDead id
      (modifyClient id HttpClientSocket.markDead v).2).2).2) HttpClientSocket.releaseBuffers (count ▸ opened)
  obtain ⟨closed, -⟩ := modifyClient_clients id HttpClientSocket.closeSocket (count' ▸ count ▸ opened)
  have kept : ((modifyClient id HttpClientSocket.closeSocket (modifyClient id HttpClientSocket.releaseBuffers
      (HttpClientSocket.recordRetry id (HttpClientSocket.addToDead id
        (modifyClient id HttpClientSocket.markDead v).2).2).2).2).2.clients id).transaction = some transaction := by
    rw [closed, emptied]
    exact (congrArg HttpClientSocket.transaction dead).trans present
  rw [removeClient, discard_apply, HttpClientSocket.removeMultiplexed, get_bind, retries.isOpen,
    retries.multiplexed, if_neg (by decide), if_neg (by decide), bind_apply, bind_apply, bind_apply,
    HttpClientSocket.handleRemove, get_bind]
  dsimp only
  have stale' : ((HttpClientSocket.addToDead id (modifyClient id HttpClientSocket.markDead v).2).2.clients
    id).isStale = true := stale
  rw [if_pos stale', HttpClientSocket.retryTransaction, bind_apply, bind_apply, bind_apply, get_bind, kept]
  rfl

end removals

/-! ## Runs -/

section staleConnection

/-- A connection waits in the pool; the server connection has just been accepted. -/
def withPool : World := { server := {}, pool := [{}], ioBufferSize := 128, parseBufferSize := 64 }

theorem withPool_accepted : withPool.Accepted := ⟨rfl, rfl, rfl, rfl, rfl⟩

/-- `GET /`. -/
def getRoot : HttpRequest :=
  { startLine :=
      { method := some (octets "GET"), requestUri := { absPath := some (octets "/") } } }

/-- A new connection takes all it is given. -/
def newConnection : List ApplicationEvent :=
  [.event (.supply { clientDepartures := fun _ => [.taken 99] }), .event (.client 8 1 { writable := true })]

/-- The application executes a transaction on the connection from the pool. -/
def executed : List ApplicationEvent := [.call 4 (.execute 0 getRoot)]

/-- The peer of the connection turns out to have closed it. -/
def closedAtOnce : World := (clientStays 8 0 { hangUp := true } (withPool.runScripted executed)).2

/-- The connection becomes writable, the request is formatted and the write would block. -/
def executedAndFormatted : List ApplicationEvent :=
  executed ++ [.event (.client 8 0 { writable := true })]

/-- Then the peer turns out to have closed the connection. -/
def closedWhenFormatted : World :=
  (clientStays 8 0 { hangUp := true } (withPool.runScripted executedAndFormatted)).2

end staleConnection

end Everscale
