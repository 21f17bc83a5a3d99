/-
# Everscale.Http1.MalformedInput -- the parsers as the sockets drive them

Whatever a peer sends, a socket calls its parser with a sound state (`DrivesParser`), and the
calls for a body come behind the headers.  A call that is `Foreseen` fails no assertion then.

Two kinds of calls are not.  When a request line, or a call that begins at a field name, is
followed by a line that begins with a space, `parseHeaders` fails its assertion about field
names.  When the application, in a callback for a body, lets the socket go on to another
state, the calls for the body that are still to come find a parser that is no longer behind
the headers.
-/
import Everscale.Http1.Assertions
import Everscale.Http1.Receive
import Everscale.Http1.SocketInvariant

namespace Everscale

set_option autoImplicit false

open Theory HttpUtil

/-! ## Bits -/

theorem has_masked {state bit mask : StateBits} (inside : bit &&& mask = bit) :
    has state bit = has (state &&& mask) bit := by
  unfold has
  rw [BitVec.and_assoc, BitVec.and_comm mask bit, inside]

theorem outside_of_mask {flag bit mask : StateBits} (outside : flag &&& mask = 0#32)
    (inside : bit &&& mask = bit) : flag &&& bit = 0#32 := by
  rw [← inside, BitVec.and_comm bit mask, ← BitVec.and_assoc, outside, BitVec.zero_and]

/-! ## Calls -/

section calls

variable {χ ρ : Type}

/-- A call in its place: `continues` says that the headers go on where none should begin, and
`parsingBody` is the state in which a socket receives a body. -/
def ParserCall.InPlace (continues : Bool) (parsingBody : StateBits) (call : ParserCall χ ρ) : Prop :=
  match call.function with
  | .parseHeaders => continues = false
  | .parseBody | .consumeBody _ _ => has call.state parsingBody = true
  | .skipTrailer => True

instance (continues : Bool) (parsingBody : StateBits) (call : ParserCall χ ρ) :
    Decidable (call.InPlace continues parsingBody) := by
  unfold ParserCall.InPlace
  split <;> infer_instance

/-- What holds of a parser, of the receive buffer it reads and of the calls on record. -/
structure DrivesParser (foreseen : ParserCall χ ρ → Prop) (parser : Option (HttpMessageParser χ ρ))
    (recvBuffer : Option Buffer) (calls : List (ParserCall χ ρ)) : Prop where
  sound : ∀ p, parser = some p → p.Sound
  wf : ∀ b, recvBuffer = some b → b.WF
  asserts : ∀ call ∈ calls, foreseen call → call.code ≠ .assertFailed

namespace DrivesParser

variable {foreseen : ParserCall χ ρ → Prop} {parser : Option (HttpMessageParser χ ρ)}
  {recvBuffer : Option Buffer} {calls : List (ParserCall χ ρ)}

theorem fresh : DrivesParser foreseen none none [] :=
  ⟨fun _ same => (nomatch same), fun _ same => (nomatch same), fun _ member => nomatch member⟩

/-- A call leaves a sound parser and a well formed buffer. -/
theorem call (h : DrivesParser foreseen parser recvBuffer calls) (call : ParserCall χ ρ)
    {parser' : HttpMessageParser χ ρ} {b' : Buffer} (sound : parser'.Sound) (wf : b'.WF)
    (asserts : foreseen call → call.code ≠ .assertFailed) :
    DrivesParser foreseen (some parser') (some b') (calls ++ [call]) where
  sound p same := by cases same; exact sound
  wf b same := by cases same; exact wf
  asserts call' member := by
    rcases List.mem_append.1 member with before | last
    · exact h.asserts call' before
    · rw [List.mem_singleton.1 last]
      exact asserts

theorem withParser (h : DrivesParser foreseen parser recvBuffer calls)
    {parser' : Option (HttpMessageParser χ ρ)} (sound : ∀ p, parser' = some p → p.Sound) :
    DrivesParser foreseen parser' recvBuffer calls := { h with sound }

theorem withBuffer (h : DrivesParser foreseen parser recvBuffer calls) {recvBuffer' : Option Buffer}
    (wf : ∀ b, recvBuffer' = some b → b.WF) : DrivesParser foreseen parser recvBuffer' calls :=
  { h with wf }

end DrivesParser

end calls

/-- A read fills the space behind what was written. -/
theorem ConnectedSocket.receive_keeps (socket : ConnectedSocket) {b : Buffer} (wf : b.WF) :
    (socket.receive b).2.2.WF ∧ (Marked b → Marked (socket.receive b).2.2) := by
  unfold ConnectedSocket.receive
  split
  · exact ⟨wf, id⟩
  · exact ⟨wf, id⟩
  · exact ⟨wf, id⟩
  · refine ⟨Buffer.fill_wf wf ?_, id⟩
    rw [List.length_take]
    omega

/-! ## The server socket -/

/-- A request line is followed by a line that begins with a space, or such a line comes where
a field name is looked for. -/
def HttpServerSocket.headContinues (call : ParserCall RequestSub RequestLine) : Bool :=
  match call.parser.stage with
  | .initial => startsWithSpace
      (HttpRequestParser.behindRequestLine call.parser.sub (call.unread.dropWhile isLWS))
  | .startLine => startsWithSpace
      (HttpRequestParser.behindRequestLine call.parser.sub call.unread)
  | .fieldName => startsWithSpace call.unread
  | _ => false

def HttpServerSocket.Foreseen (call : ParserCall RequestSub RequestLine) : Prop :=
  call.InPlace (headContinues call) SERVER_PARSING_BODY

/-- A status line takes in the lines that continue it. -/
def HttpClientSocket.headContinues (call : ParserCall ResponseStage StatusLine) : Bool :=
  call.parser.stage = .fieldName && startsWithSpace call.unread

def HttpClientSocket.Foreseen (call : ParserCall ResponseStage StatusLine) : Prop :=
  call.InPlace (headContinues call) PARSING_BODY

namespace HttpServerSocket

open HttpMessageParser (Sound Framed HeaderNeeds StartsCleanly parseHeaders_parsed)

instance (call : ParserCall RequestSub RequestLine) : Decidable (Foreseen call) := by
  unfold Foreseen; infer_instance

theorem startsCleanly {call : ParserCall RequestSub RequestLine} (foreseen : headContinues call = false) :
    StartsCleanly HttpRequestParser.stream call.parser call.unread where
  first initial t same := by
    refine (HttpRequestParser.parseStartLineOn_leaves t _).endsLine ?_
    simpa only [headContinues, initial, same] using foreseen
  line startLine := by
    refine (HttpRequestParser.parseStartLineOn_leaves _ _).endsLine ?_
    simpa only [headContinues, startLine] using foreseen
  name fieldName := by simpa only [headContinues, fieldName] using foreseen

def parser (s : HttpServerSocket) : Option HttpRequestParser := s.transaction.map (·.parser)

/-- What holds of a server socket in any state. -/
def Drives (s : HttpServerSocket) : Prop := DrivesParser Foreseen s.parser s.recvBuffer s.calls

/-- What holds of a server socket and depends on its state. -/
structure Receives (s : HttpServerSocket) : Prop where
  drives : s.Drives
  begin : has s.state SERVER_TRANSACTION_BEGIN = true → ∀ p, s.parser = some p → p.stage = .initial
  headers : has s.state SERVER_PARSING_HEADERS = true → ∀ p, s.parser = some p →
    p.stage ≠ .headerParseComplete ∧ (HeaderNeeds HttpRequestParser.stream p →
      ∀ b, s.recvBuffer = some b → Marked b)
  body : has s.state SERVER_PARSING_BODY = true →
    ∃ p, s.parser = some p ∧ p.stage = .headerParseComplete ∧ Framed p.body

variable {s : HttpServerSocket}

/-! ### The bits -/

theorem has_addFlag {flag bit : StateBits} (outside : flag &&& bit = 0#32) (s : HttpServerSocket) :
    has (s.addFlag flag).state bit = has s.state bit := by
  unfold has addFlag
  rw [or_and_of_outside outside]

theorem has_clearFlag {flag bit : StateBits} (outside : flag &&& bit = 0#32) (s : HttpServerSocket) :
    has (s.clearFlag flag).state bit = has s.state bit := by
  unfold has clearFlag
  rw [and_not_and_of_outside outside]

theorem has_stateTransition {target bit : StateBits} (known : target ∈ states)
    (inside : bit &&& SERVER_STATE_MASK = bit) (s : HttpServerSocket) :
    has (s.stateTransition target).state bit = has target bit := by
  have within : ∀ target ∈ states, target &&& SERVER_STATE_MASK = target := by
    simp only [states, List.forall_mem_cons, List.not_mem_nil, false_imp_iff, implies_true, and_true]
    decide
  rw [has_masked inside, stateTransition_masked, within target known, if_pos known]

/-! ### The functions -/

/-- The states in which something is expected of the parser. -/
def receiving : List StateBits :=
  [SERVER_TRANSACTION_BEGIN, SERVER_PARSING_HEADERS, SERVER_PARSING_BODY]

theorem receiving_inside : ∀ bit ∈ receiving, bit &&& SERVER_STATE_MASK = bit := by
  simp only [receiving, List.forall_mem_cons, List.not_mem_nil, false_imp_iff, implies_true, and_true]
  decide

/-- What neither the parser nor its buffer nor the state of the socket notices. -/
theorem Receives.same {s' : HttpServerSocket} (h : s.Receives)
    (bits : ∀ bit ∈ receiving, has s'.state bit = has s.state bit)
    (parser : s'.parser = s.parser) (recvBuffer : s'.recvBuffer = s.recvBuffer)
    (calls : s'.calls = s.calls) : s'.Receives where
  drives := by unfold Drives; rw [parser, recvBuffer, calls]; exact h.drives
  begin here := by
    rw [parser]
    exact h.begin ((bits SERVER_TRANSACTION_BEGIN (by decide)).symm.trans here)
  headers here := by
    rw [parser, recvBuffer]
    exact h.headers ((bits SERVER_PARSING_HEADERS (by decide)).symm.trans here)
  body here := by
    rw [parser]
    exact h.body ((bits SERVER_PARSING_BODY (by decide)).symm.trans here)

/-- In a state in which nothing is expected of the parser. -/
theorem Drives.elsewhere (h : s.Drives) {target : StateBits} (known : target ∈ states)
    (sends : receiving.any (has target) = false) : (s.stateTransition target).Receives := by
  have absent : ∀ bit ∈ receiving, ∀ {p : Prop}, has (s.stateTransition target).state bit = true → p := by
    intro bit member p here
    rw [has_stateTransition known (receiving_inside bit member)] at here
    exact absurd (List.any_eq_true.2 ⟨bit, member, here⟩) (by rw [sends]; decide)
  exact ⟨h, absent SERVER_TRANSACTION_BEGIN (by decide), absent SERVER_PARSING_HEADERS (by decide),
    absent SERVER_PARSING_BODY (by decide)⟩

theorem parser_eq {transaction : HttpServerTransaction} (present : s.transaction = some transaction) :
    s.parser = some transaction.parser := by
  rw [HttpServerSocket.parser, present, Option.map_some]

theorem has_of_isIn {state : ServerState} (here : s.isIn state) {bit : StateBits}
    (inside : bit &&& SERVER_STATE_MASK = bit) : has s.state bit = has state.bits bit := by
  rw [has_masked inside, here]

/-- The socket behind a call of its parser. -/
def called (transaction : HttpServerTransaction) (parser : HttpRequestParser) (recvBuffer : Buffer)
    (call : ParserCall RequestSub RequestLine) (s : HttpServerSocket) : HttpServerSocket :=
  { s with
    transaction := some { transaction with parser }
    recvBuffer := some recvBuffer
    calls := s.calls ++ [call] }

theorem parseHeaders_drives (h : s.Receives) (here : s.isIn .parsingHeaders) :
    s.parseHeaders.2.Drives ∧ (s.parseHeaders.1 = .again ∨ s.parseHeaders.1 = .success →
      s.parseHeaders.2.Receives) := by
  unfold parseHeaders
  split
  · rename_i transaction b present held
    have parser := parser_eq present
    obtain ⟨_, marks⟩ := h.headers (has_of_isIn here (by decide)) _ parser
    have parsed : HttpMessageParser.HeadersParsed HttpRequestParser.stream _
        (HttpRequestParser.parseHeaders transaction.parser b) :=
      parseHeaders_parsed (h.drives.sound _ parser) (h.drives.wf b held) fun needs => marks needs b held
    have drives : (called transaction _ _ _ s).Drives :=
      h.drives.call ⟨.parseHeaders, s.state, transaction.parser, b.unread,
        (HttpRequestParser.parseHeaders transaction.parser b).code⟩ parsed.sound parsed.wf
        fun foreseen => parsed.asserts (startsCleanly foreseen)
    dsimp only
    split
    · rename_i success
      refine ⟨drives, fun _ => ⟨drives, ?_, ?_, fun _ => ?_⟩⟩
      · exact fun begins => nomatch
          (has_stateTransition (by decide) (by decide) _).symm.trans begins
      · exact fun parses => nomatch
          (has_stateTransition (by decide) (by decide) _).symm.trans parses
      · exact ⟨_, rfl, parsed.success success⟩
    · rename_i fails
      refine ⟨drives, fun code => ⟨drives, ?_, ?_, ?_⟩⟩
      · exact fun begins => nomatch (has_of_isIn here (by decide)).symm.trans begins
      · rintro _ p same
        cases same
        have waits := parsed.waits (code.resolve_right fails)
        refine ⟨waits.1, fun needs b' same => ?_⟩
        cases same
        exact waits.2 needs
      · exact fun body => nomatch (has_of_isIn here (by decide)).symm.trans body
  · exact ⟨h.drives, fun _ => h⟩

/-- A call that changes nothing before the end of the headers, and leaves the framing. -/
theorem Receives.called (h : s.Receives) {transaction : HttpServerTransaction} {b b' : Buffer}
    (present : s.transaction = some transaction) (held : s.recvBuffer = some b)
    {parser : HttpRequestParser} {call : ParserCall RequestSub RequestLine}
    (drives : (s.called transaction parser b' call).Drives)
    (stage : parser.stage = transaction.parser.stage)
    (early : transaction.parser.stage ≠ .headerParseComplete → parser = transaction.parser ∧ b' = b)
    (framed : Framed transaction.parser.body → Framed parser.body) :
    (s.called transaction parser b' call).Receives where
  drives := drives
  begin here p same := by
    cases same
    exact stage.trans (h.begin here _ (parser_eq present))
  headers here p same := by
    cases same
    obtain ⟨ne, marks⟩ := h.headers here _ (parser_eq present)
    obtain ⟨rfl, rfl⟩ := early ne
    refine ⟨ne, fun needs b same => ?_⟩
    cases same
    exact marks needs b' held
  body here := by
    obtain ⟨p, same, complete, framing⟩ := h.body here
    cases (parser_eq present).symm.trans same
    exact ⟨_, rfl, stage.trans complete, framed framing⟩

/-- A call of `parseBody` that does not end the body leaves everything in order. -/
theorem currentChunkBytesAvailable_receives (h : s.Receives) :
    s.currentChunkBytesAvailable.2.Drives ∧
      (s.currentChunkBytesAvailable.1 ≠ (.success, 0) → s.currentChunkBytesAvailable.2.Receives) := by
  unfold currentChunkBytesAvailable
  split
  · exact ⟨h.drives, fun _ => h⟩
  · split
    · rename_i transaction b present held
      have parser := parser_eq present
      split
      · exact ⟨h.drives, fun _ => h⟩
      · obtain ⟨sound, wf, stage, early, asserts, framed⟩ :=
          HttpMessageParser.parseBody_keeps (h.drives.sound _ parser) (h.drives.wf b held)
        have drives : (s.called transaction _ _ _).Drives :=
          h.drives.call ⟨.parseBody, s.state, transaction.parser, b.unread,
            (transaction.parser.parseBody b).code⟩ sound wf fun foreseen => by
              obtain ⟨p, same, complete, _⟩ := h.body foreseen
              cases parser.symm.trans same
              exact asserts complete
        have received := fun goesOn => h.called present held drives stage early (framed goesOn)
        dsimp only
        split
        · rename_i fails
          exact ⟨drives, fun _ => received (.inl fails)⟩
        · split
          · exact ⟨drives, fun more => absurd rfl more⟩
          · rename_i some
            exact ⟨drives, fun _ => (received (.inr some)).same (fun _ _ => rfl) rfl rfl rfl⟩
    · exact ⟨h.drives, fun _ => h⟩

theorem nextChunk_receives (h : s.Receives) : s.nextChunk.2.Receives := by
  obtain ⟨drives, received⟩ := currentChunkBytesAvailable_receives h
  unfold nextChunk
  split
  · rename_i last
    rw [last] at drives
    exact drives.elsewhere (by decide) (by decide)
  · rename_i more
    exact received fun last => more _ (Prod.ext last rfl)

theorem consumeBody_receives (h : s.Receives) (n : Nat) : (s.consumeBody n).2.Receives := by
  unfold consumeBody
  split
  · rename_i transaction b present held
    have parser := parser_eq present
    obtain ⟨sound, wf, stage, framed, asserts⟩ :=
      HttpMessageParser.consumeBody_asserts (h.drives.sound _ parser) (h.drives.wf b held) n
    have drives : (s.called transaction _ _ _).Drives :=
      h.drives.call ⟨.consumeBody n s.bytesAvailable, s.state, transaction.parser, b.unread,
        (transaction.parser.consumeBody b n).code⟩ sound wf fun foreseen => by
          obtain ⟨p, same, complete, framing⟩ := h.body foreseen
          cases parser.symm.trans same
          exact asserts complete framing
    have received := h.called present held drives stage
      (fun early => by rw [HttpMessageParser.consumeBody_early early]; exact ⟨rfl, rfl⟩) framed
    dsimp only
    split
    · exact received
    · exact received.same (fun _ _ => rfl) rfl rfl rfl
  · exact h

theorem stateSkipTrailer_receives (h : s.Receives) : s.stateSkipTrailer.2.Receives := by
  unfold stateSkipTrailer
  split
  · rename_i transaction b present held
    have sound := h.drives.sound _ (parser_eq present)
    obtain ⟨asserts, sound', wf, stage, framed⟩ :=
      HttpMessageParser.skipTrailer_asserts sound (h.drives.wf b held)
    have drives : (s.called transaction _ _ _).Drives :=
      h.drives.call ⟨.skipTrailer, s.state, transaction.parser, b.unread,
        (transaction.parser.skipTrailer b).code⟩ sound' wf fun _ => asserts
    dsimp only
    split
    · refine h.called present held drives stage (fun early => ?_) framed
      rw [HttpMessageParser.skipTrailer_early sound early]
      exact ⟨rfl, rfl⟩
    · refine Drives.elsewhere ?_ (by decide) (by decide)
      exact drives
  · exact h

theorem Receives.withBuffer {s' : HttpServerSocket} (h : s.Receives) (state : s'.state = s.state)
    (transaction : s'.transaction = s.transaction) (calls : s'.calls = s.calls)
    (kept : ∀ b', s'.recvBuffer = some b' → b'.WF ∧
      ((∀ b, s.recvBuffer = some b → Marked b) → Marked b')) : s'.Receives where
  drives := by
    unfold Drives parser
    rw [transaction, calls]
    exact h.drives.withBuffer fun b' same => (kept b' same).1
  begin here := by unfold parser; rw [transaction]; exact h.begin (state ▸ here)
  headers here p same := by
    unfold parser at same
    rw [transaction] at same
    obtain ⟨early, marks⟩ := h.headers (state ▸ here) p same
    exact ⟨early, fun needs b' same' => (kept b' same').2 (marks needs)⟩
  body here := by unfold parser; rw [transaction]; exact h.body (state ▸ here)

theorem refill_receives (h : s.Receives) : s.refill.2.Receives := by
  unfold refill
  split
  · exact h
  · rename_i b held
    have room : ∀ b', makeRoom b = some b' → b'.WF ∧ (Marked b → Marked b') := fun b' made =>
      have spec := makeRoom_spec (h.drives.wf b held) made
      ⟨spec.1, spec.2.2.2.2⟩
    dsimp only
    rw [← makeRoom]
    cases made : makeRoom b with
    | none => exact h
    | some b' =>
        obtain ⟨wf, marked⟩ := room b' made
        have filled := s.socket.receive_keeps wf
        refine h.withBuffer rfl rfl rfl fun b'' same => ?_
        cases same
        exact ⟨filled.1, fun marks => filled.2 (marked (marks b held))⟩

theorem Receives.addFlag (h : s.Receives) {flag : StateBits}
    (outside : flag &&& SERVER_STATE_MASK = 0#32) : (s.addFlag flag).Receives :=
  h.same (fun bit member =>
    has_addFlag (outside_of_mask outside (receiving_inside bit member)) s) rfl rfl rfl

theorem Receives.clearFlag (h : s.Receives) {flag : StateBits}
    (outside : flag &&& SERVER_STATE_MASK = 0#32) : (s.clearFlag flag).Receives :=
  h.same (fun bit member =>
    has_clearFlag (outside_of_mask outside (receiving_inside bit member)) s) rfl rfl rfl

/-- A parser that has read nothing is sound. -/
theorem fresh_sound (working : Buffer) (message : HttpRequest) :
    ({ HttpRequestParser.fresh working with message } : HttpRequestParser).Sound :=
  ⟨fun value => (nomatch value), fun data => (nomatch data), fun trailer => nomatch trailer⟩

/-- A transaction whose parser has read nothing. -/
theorem Receives.fresh (h : s.Drives) {transaction : HttpServerTransaction}
    (sound : transaction.parser.Sound) (initial : transaction.parser.stage = .initial)
    (waits : has s.state SERVER_PARSING_BODY = false) :
    ({ s with transaction := some transaction } : HttpServerSocket).Receives where
  drives := h.withParser fun p same => by cases same; exact sound
  begin _ p same := by cases same; exact initial
  headers _ p same := by
    cases same
    exact ⟨fun complete => (nomatch initial.symm.trans complete),
      fun needs => (nomatch initial.symm.trans needs.1)⟩
  body here := nomatch waits.symm.trans here

theorem create_receives (size : Nat) {s : HttpServerSocket} (h : s.Receives)
    (none : s.transaction = none) :
    ({ s with transaction := some (HttpServerTransaction.fresh size) } : HttpServerSocket).Receives := by
  refine .fresh h.drives (fresh_sound _ _) rfl ?_
  cases here : has s.state SERVER_PARSING_BODY with
  | false => rfl
  | true =>
      obtain ⟨p, same, _⟩ := h.body here
      rw [parser, none] at same
      cases same

theorem begun_receives (h : s.Receives) :
    (s.conditionalStateTransition SERVER_TRANSACTION_BEGIN SERVER_PARSING_HEADERS).Receives := by
  unfold conditionalStateTransition
  split
  · rename_i here
    refine ⟨h.drives, fun begins => ?_, fun _ p same => ?_, fun body => ?_⟩
    · exact nomatch (has_stateTransition (by decide) (by decide) _).symm.trans begins
    · have initial := h.begin here p same
      exact ⟨fun complete => (nomatch initial.symm.trans complete),
        fun needs => (nomatch initial.symm.trans needs.1)⟩
    · exact nomatch (has_stateTransition (by decide) (by decide) _).symm.trans body
  · exact h

theorem Receives.conditionally (h : s.Receives) {ifState target : StateBits}
    (known : target ∈ states) (sends : receiving.any (has target) = false) :
    (s.conditionalStateTransition ifState target).Receives := by
  unfold conditionalStateTransition
  split
  · exact h.drives.elsewhere known sends
  · exact h

theorem next_receives (h : s.Receives) :
    ({ s.stateTransition SERVER_TRANSACTION_BEGIN with
        transaction := (s.stateTransition SERVER_TRANSACTION_BEGIN).transaction.map
          HttpServerTransaction.reset } : HttpServerSocket).Receives := by
  have reset : ∀ p, (s.transaction.map HttpServerTransaction.reset).map (·.parser) = some p →
      p.Sound ∧ p.stage = .initial := by
    intro p same
    cases present : s.transaction with
    | none => rw [present] at same; cases same
    | some transaction =>
        rw [present] at same
        cases same
        exact ⟨fresh_sound _ _, rfl⟩
  refine ⟨h.drives.withParser fun p same => (reset p same).1, fun _ p same => (reset p same).2,
    fun here => ?_, fun here => ?_⟩
  · exact nomatch (has_stateTransition (by decide) (by decide) s).symm.trans here
  · exact nomatch (has_stateTransition (by decide) (by decide) s).symm.trans here

/-- A call of a formatter. -/
theorem formatted_receives (h : s.Receives) {transaction : HttpServerTransaction}
    (present : s.transaction = some transaction) (o : Formatted (HttpMessageFormatter ResponseFormatStage))
    (b : Buffer) (headCalls : List (HeadCall ResponseFormatStage StatusLine)) :
    ({ s with
        transaction := some { transaction with formatter := o.state }
        sendBuffer := some o.output
        formatted := s.formatted ++ appended b o.output
        headCalls } : HttpServerSocket).Receives :=
  h.same (fun _ _ => rfl) (parser_eq present).symm rfl rfl

theorem formatHeaders_receives (h : s.Receives) : s.formatHeaders.2.Receives := by
  unfold formatHeaders
  split
  · rename_i transaction b present _
    have formatted := formatted_receives h present
      (HttpResponseFormatter.formatHeaders transaction.response transaction.formatter b)
      b (s.headCalls ++ [⟨transaction.response, transaction.formatter, b⟩])
    dsimp only
    split
    · exact formatted.drives.elsewhere (by decide) (by decide)
    · exact formatted
  · exact h

theorem endBody_receives (h : s.Receives) : s.endBody.2.Receives := by
  unfold endBody
  split
  · rename_i transaction b present _
    have formatted := formatted_receives h present
      (HttpMessageFormatter.endBody transaction.formatter b)
      b s.headCalls
    dsimp only
    split
    · exact formatted.drives.elsewhere (by decide) (by decide)
    · exact formatted
  · exact h

theorem flushSendBuffer_receives (h : s.Receives) : s.flushSendBuffer.2.Receives := by
  unfold flushSendBuffer
  split
  · exact h
  · exact h.same (fun _ _ => rfl) rfl rfl rfl

theorem stateFlushResponseBody_receives (h : s.Receives) : s.stateFlushResponseBody.2.Receives := by
  have recorded : s.recordFlush.Receives := h.same (fun _ _ => rfl) rfl rfl rfl
  have flushed := flushSendBuffer_receives recorded
  unfold stateFlushResponseBody
  split
  · rename_i result
    rw [result] at flushed
    exact flushed.drives.elsewhere (by decide) (by decide)
  · rename_i result
    rw [result] at flushed
    exact flushed

/-- The functions of a server socket keep it receiving, whatever arrives. -/
theorem serverKeeps_receives {size : Nat} (small : size < 2 ^ 32) :
    ServerKeeps size Receives fun _ _ => True where
  enter _ _ _ _ := trivial
  addFlag flag member := keeps_of_kept fun _ h => h.addFlag (by
    rcases List.mem_cons.1 member with rfl | known
    · decide
    · exact serverFlag_outside known)
  clearFlag _ known := keeps_of_kept fun _ h => h.clearFlag (serverFlag_outside known)
  markDead := keeps_of_kept fun s h =>
    Receives.addFlag (s := { s with multiplexed := false }) (h.same (fun _ _ => rfl) rfl rfl rfl)
      (by decide)
  recvBuffer _ h _ := ⟨h.withBuffer rfl rfl rfl fun b' same => by
    cases same
    exact ⟨Buffer.create_wf small, fun _ => rfl⟩, fun _ _ => trivial⟩
  sendBuffer := keeps_of_kept fun _ h => h.same (fun _ _ => rfl) rfl rfl rfl
  create size _ h none := ⟨create_receives size h none, fun _ _ => trivial⟩
  modifyResponse _ := keeps_of_kept fun s h => h.same (fun _ _ => rfl)
    (by unfold modifyResponse parser; simp only [Option.map_map]; rfl) rfl rfl
  count := keeps_of_kept fun _ h => h.same (fun _ _ => rfl) rfl rfl rfl
  refill := keeps_of_kept fun _ => refill_receives
  flushSendBuffer := keeps_of_kept fun _ => flushSendBuffer_receives
  begun := keeps_of_kept fun _ => begun_receives
  answered _ := keeps_of_kept fun _ h => h.drives.elsewhere (by decide) (by decide)
  answeredEarly := keeps_of_kept fun _ h => h.conditionally (by decide) (by decide)
  parsing := ⟨Drives,
    { known := fun _ _ _ _ _ => trivial
      parsed := fun s h _ here success => ⟨(parseHeaders_drives h here).2 (.inr success), trivial⟩
      waits := fun s h _ here again => (parseHeaders_drives h here).2 (.inl again)
      failed := fun s h _ here _ _ => (parseHeaders_drives h here).1
      modifyResponse := fun f => keeps_of_kept fun s h => h.withParser fun p same => by
        unfold parser modifyResponse at same
        simp only [Option.map_map] at same
        exact h.sound p same
      rejected := fun s h => ⟨h.elsewhere (by decide) (by decide), fun _ _ => trivial⟩ }⟩
  nextChunk := keeps_of_kept fun _ => nextChunk_receives
  lastChunk _ _ _ _ := trivial
  consumeBody n := keeps_of_kept fun _ h => consumeBody_receives h n
  stateSkipTrailer := keeps_of_kept fun _ => stateSkipTrailer_receives
  formatHeaders := keeps_of_kept fun _ => formatHeaders_receives
  formatStartChunk n := keeps_of_kept fun _ h => by
    unfold formatStartChunk
    split
    · exact h.same (fun _ _ => rfl) rfl rfl rfl
    · exact h
  formatEndChunk produced n := keeps_of_kept fun _ h => by
    unfold formatEndChunk
    split
    · exact h.same (fun _ _ => rfl) rfl rfl rfl
    · exact h
  endBody := keeps_of_kept fun _ => endBody_receives
  stateFlushResponseBody := keeps_of_kept fun _ => stateFlushResponseBody_receives
  next := keeps_of_kept fun _ => next_receives
  releaseBuffers := keeps_of_kept fun _ h => h.withBuffer rfl rfl rfl fun _ same => nomatch same
  ended := keeps_of_kept fun s h => by
    have drives : Drives { s with transaction := none } :=
      h.drives.withParser fun _ same => nomatch same
    exact (drives.elsewhere (by decide) (by decide)).same (fun _ _ => rfl) rfl rfl rfl
  supply _ _ _ := keeps_of_kept fun _ h => h.same (fun _ _ => rfl) rfl rfl rfl

end HttpServerSocket

/-! ## The client socket -/

namespace HttpClientSocket

open HttpMessageParser (Sound Framed StartsCleanly parseHeaders_parsed)

instance (call : ParserCall ResponseStage StatusLine) : Decidable (Foreseen call) := by
  unfold Foreseen; infer_instance

theorem startsCleanly {call : ParserCall ResponseStage StatusLine} (foreseen : headContinues call = false) :
    StartsCleanly HttpResponseParser.stream call.parser call.unread where
  first _ t _ := HttpResponseParser.parseStartLineOn_endsLine t _
  line _ := HttpResponseParser.parseStartLineOn_endsLine _ _
  name fieldName := by simpa only [headContinues, fieldName, decide_true, Bool.true_and] using foreseen

def parser (s : HttpClientSocket) : Option HttpResponseParser := s.transaction.map (·.parser)

/-- What holds of a client socket in any state. -/
def Drives (s : HttpClientSocket) : Prop := DrivesParser Foreseen s.parser s.recvBuffer s.calls

/-- What holds of a client socket and depends on its state. -/
structure Receives (s : HttpClientSocket) : Prop where
  drives : s.Drives
  body : has s.state PARSING_BODY = true → ∀ p, s.parser = some p →
    p.stage = .headerParseComplete ∧ Framed p.body

variable {s : HttpClientSocket}

theorem has_stateTransition {target : StateBits} (known : target &&& STATE_MASK = target)
    (other : has target PARSING_BODY = false) (s : HttpClientSocket) :
    has (s.stateTransition target).state PARSING_BODY = false := by
  have inside : PARSING_BODY &&& STATE_MASK = PARSING_BODY := by decide
  rw [has_masked inside, stateTransition_masked, known]
  split
  · exact other
  · decide

/-- What neither the parser nor its buffer nor the state of the socket notices. -/
theorem Receives.same {s' : HttpClientSocket} (h : s.Receives)
    (state : has s'.state PARSING_BODY = has s.state PARSING_BODY)
    (parser : s'.parser = s.parser) (recvBuffer : s'.recvBuffer = s.recvBuffer)
    (calls : s'.calls = s.calls) : s'.Receives where
  drives := by unfold Drives; rw [parser, recvBuffer, calls]; exact h.drives
  body here := by
    rw [parser]
    exact h.body (state.symm.trans here)

/-- Where no body is received. -/
theorem Drives.elsewhere (h : s.Drives) (other : has s.state PARSING_BODY = false) : s.Receives :=
  ⟨h, fun here => nomatch other.symm.trans here⟩

theorem Drives.transition (h : s.Drives) {target : StateBits} (known : target &&& STATE_MASK = target)
    (other : has target PARSING_BODY = false) : (s.stateTransition target).Receives :=
  Drives.elsewhere (s := s.stateTransition target) h (has_stateTransition known other s)

theorem parser_eq {transaction : HttpClientTransaction} (present : s.transaction = some transaction) :
    s.parser = some transaction.parser := by
  rw [HttpClientSocket.parser, present, Option.map_some]

/-- The socket behind a call of its parser. -/
def called (transaction : HttpClientTransaction) (parser : HttpResponseParser) (recvBuffer : Buffer)
    (call : ParserCall ResponseStage StatusLine) (s : HttpClientSocket) : HttpClientSocket :=
  { s with
    transaction := some { transaction with parser }
    recvBuffer := some recvBuffer
    calls := s.calls ++ [call] }

/-- A call that leaves the stage and the framing. -/
theorem Receives.called (h : s.Receives) {transaction : HttpClientTransaction} {b' : Buffer}
    (present : s.transaction = some transaction) {parser : HttpResponseParser}
    {call : ParserCall ResponseStage StatusLine}
    (drives : (s.called transaction parser b' call).Drives)
    (stays : transaction.parser.stage = .headerParseComplete → Framed transaction.parser.body →
      parser.stage = .headerParseComplete ∧ Framed parser.body) :
    (s.called transaction parser b' call).Receives where
  drives := drives
  body here p same := by
    cases same
    obtain ⟨complete, framing⟩ := h.body here _ (parser_eq present)
    exact stays complete framing

theorem parseHeaders_receives (h : s.Receives) : s.parseHeaders.2.Receives := by
  unfold parseHeaders
  split
  · rename_i transaction b present held
    have parser := parser_eq present
    have parsed : HttpMessageParser.HeadersParsed HttpResponseParser.stream _
        (HttpResponseParser.parseHeaders transaction.parser b) :=
      parseHeaders_parsed (h.drives.sound _ parser) (h.drives.wf b held) fun needs => needs.2.elim
    have drives : (called transaction _ _ _ s).Drives :=
      h.drives.call ⟨.parseHeaders, s.state, transaction.parser, b.unread,
        (HttpResponseParser.parseHeaders transaction.parser b).code⟩ parsed.sound parsed.wf
        fun foreseen => parsed.asserts (startsCleanly foreseen)
    dsimp only
    split
    · rename_i success
      refine ⟨drives, fun _ p same => ?_⟩
      cases same
      exact parsed.success success
    · refine h.called present drives fun complete framing => ?_
      have unchanged : (HttpResponseParser.parseHeaders transaction.parser b).state = transaction.parser := by
        simp only [HttpResponseParser.parseHeaders, HttpMessageParser.parseHeaders, complete, if_true]
      rw [unchanged]
      exact ⟨complete, framing⟩
  · exact h

/-- A call of `parseBody` that does not end the body leaves everything in order. -/
theorem currentChunkBytesAvailable_receives (h : s.Receives) :
    s.currentChunkBytesAvailable.2.Drives ∧
      (s.currentChunkBytesAvailable.1 ≠ (.success, 0) → s.currentChunkBytesAvailable.2.Receives) := by
  unfold currentChunkBytesAvailable
  split
  · exact ⟨h.drives, fun _ => h⟩
  · split
    · rename_i transaction b present held
      have parser := parser_eq present
      split
      · exact ⟨h.drives, fun _ => h⟩
      · obtain ⟨sound, wf, stage, _, asserts, framed⟩ :=
          HttpMessageParser.parseBody_keeps (h.drives.sound _ parser) (h.drives.wf b held)
        have drives : (s.called transaction _ _ _).Drives :=
          h.drives.call ⟨.parseBody, s.state, transaction.parser, b.unread,
            (transaction.parser.parseBody b).code⟩ sound wf fun foreseen =>
              asserts (h.body foreseen _ parser).1
        have received := fun goesOn => h.called present drives fun complete framing =>
          ⟨stage.trans complete, framed goesOn framing⟩
        dsimp only
        split
        · rename_i fails
          exact ⟨drives, fun _ => received (.inl fails)⟩
        · split
          · exact ⟨drives, fun more => absurd rfl more⟩
          · rename_i some
            exact ⟨drives, fun _ => (received (.inr some)).same rfl rfl rfl rfl⟩
    · exact ⟨h.drives, fun _ => h⟩

theorem nextChunk_receives (h : s.Receives) : s.nextChunk.2.Receives := by
  obtain ⟨drives, received⟩ := currentChunkBytesAvailable_receives h
  unfold nextChunk
  split
  · rename_i last
    rw [last] at drives
    exact drives.transition (by decide) (by decide)
  · rename_i more
    exact received fun last => more _ (Prod.ext last rfl)

theorem consumeBody_receives (h : s.Receives) (n : Nat) : (s.consumeBody n).2.Receives := by
  unfold consumeBody
  split
  · rename_i transaction b present held
    have parser := parser_eq present
    obtain ⟨sound, wf, stage, framed, asserts⟩ :=
      HttpMessageParser.consumeBody_asserts (h.drives.sound _ parser) (h.drives.wf b held) n
    have drives : (s.called transaction _ _ _).Drives :=
      h.drives.call ⟨.consumeBody n s.bytesAvailable, s.state, transaction.parser, b.unread,
        (transaction.parser.consumeBody b n).code⟩ sound wf fun foreseen =>
          have behind := h.body foreseen _ parser
          asserts behind.1 behind.2
    have received := h.called present drives fun complete framing =>
      ⟨stage.trans complete, framed framing⟩
    dsimp only
    split
    · exact received.same rfl rfl rfl rfl
    · exact received.same rfl rfl rfl rfl
  · exact h

theorem Receives.withBuffer {s' : HttpClientSocket} (h : s.Receives) (state : s'.state = s.state)
    (transaction : s'.transaction = s.transaction) (calls : s'.calls = s.calls)
    (wf : ∀ b', s'.recvBuffer = some b' → b'.WF) : s'.Receives where
  drives := by
    unfold Drives parser
    rw [transaction, calls]
    exact h.drives.withBuffer wf
  body here := by unfold parser; rw [transaction]; exact h.body (state ▸ here)

theorem refill_receives (h : s.Receives) : s.refill.2.Receives := by
  unfold refill
  split
  · exact h
  · rename_i b held
    dsimp only
    rw [← makeRoom]
    cases made : makeRoom b with
    | none => exact h
    | some b' =>
        refine h.withBuffer rfl rfl rfl fun b'' same => ?_
        cases same
        exact (s.socket.receive_keeps (makeRoom_spec (h.drives.wf b held) made).1).1

/-- A call of a formatter. -/
theorem formatted_receives (h : s.Receives) {transaction : HttpClientTransaction}
    (present : s.transaction = some transaction) (o : Formatted (HttpMessageFormatter RequestLineFormat))
    (b : Buffer) (headCalls : List (HeadCall RequestLineFormat RequestLine)) :
    ({ s with
        transaction := some
          { transaction with formatter := o.state, formatted := s.formatted ++ appended b o.output }
        sendBuffer := some o.output
        formatted := s.formatted ++ appended b o.output
        headCalls } : HttpClientSocket).Receives :=
  h.same rfl (parser_eq present).symm rfl rfl

theorem formatHeaders_receives (h : s.Receives) : s.formatHeaders.2.Receives := by
  unfold formatHeaders
  split
  · rename_i transaction b present _
    have formatted := formatted_receives h present
      (HttpRequestFormatter.formatHeaders transaction.request transaction.formatter b)
      b (s.headCalls ++ [⟨transaction.request, transaction.formatter, b⟩])
    dsimp only
    split
    · exact formatted.drives.transition (by decide) (by decide)
    · exact formatted
  · exact h

theorem endBody_receives (h : s.Receives) : s.endBody.2.Receives := by
  unfold endBody
  split
  · rename_i transaction b present _
    have formatted := formatted_receives h present
      (HttpMessageFormatter.endBody transaction.formatter b)
      b s.headCalls
    dsimp only
    split
    · exact formatted.drives.transition (by decide) (by decide)
    · exact formatted
  · exact h

theorem Receives.addFlag (h : s.Receives) {flag : StateBits} (outside : flag &&& STATE_MASK = 0#32) :
    (s.addFlag flag).Receives := by
  refine h.same ?_ rfl rfl rfl
  unfold has HttpClientSocket.addFlag
  rw [or_and_of_outside (outside_of_mask outside (by decide))]

theorem Receives.clearFlag (h : s.Receives) {flag : StateBits} (outside : flag &&& STATE_MASK = 0#32) :
    (s.clearFlag flag).Receives := by
  refine h.same ?_ rfl rfl rfl
  unfold has HttpClientSocket.clearFlag
  rw [and_not_and_of_outside (outside_of_mask outside (by decide))]

theorem flushSendBuffer_receives (h : s.Receives) : s.flushSendBuffer.2.Receives := by
  unfold flushSendBuffer
  split
  · exact h
  · rename_i b _
    have sent : Receives { s with
        socket := (s.socket.flush b).socket, sendBuffer := some (s.socket.flush b).output } :=
      h.same rfl rfl rfl rfl
    dsimp only
    split
    · exact sent.clearFlag (by decide)
    · exact sent

theorem flushRequestBody_receives (h : s.Receives) : s.flushRequestBody.2.Receives := by
  have recorded : s.recordFlush.Receives := h.same rfl rfl rfl rfl
  have flushed := flushSendBuffer_receives recorded
  unfold flushRequestBody
  split
  · rename_i result
    rw [result] at flushed
    exact flushed.drives.transition (by decide) (by decide)
  · rename_i result
    rw [result] at flushed
    exact flushed

theorem construct_receives {transaction : HttpClientTransaction} (sound : transaction.parser.Sound)
    (socket : ConnectedSocket) (reused : Bool) :
    (HttpClientSocketFactory.construct transaction socket reused).Receives := by
  have drives : Drives
      { transaction := some transaction
        socket := socket
        original := some transaction
        receivedBefore := socket.received.length
        sentBefore := socket.sent
        formatted := transaction.formatted } :=
    DrivesParser.fresh.withParser fun p same => by cases same; exact sound
  unfold HttpClientSocketFactory.construct
  dsimp only
  split
  · exact (drives.transition (by decide) (by decide)).addFlag (by decide)
  · exact drives.elsewhere (show has CONNECTING PARSING_BODY = false by decide)

/-- Without a transaction nothing is parsed. -/
theorem Drives.ended {s' : HttpClientSocket} (h : s.Drives) (none : s'.transaction = none)
    (wf : ∀ b', s'.recvBuffer = some b' → b'.WF) (calls : s'.calls = s.calls) : s'.Receives := by
  have absent : ∀ p, s'.parser ≠ some p := by simp [parser, none]
  refine ⟨⟨fun p same => absurd same (absent p), wf, calls ▸ h.asserts⟩, fun _ p same =>
    absurd same (absent p)⟩

/-- The functions of a client socket keep it receiving, whatever arrives. -/
theorem clientKeeps_receives {size : Nat} (small : size < 2 ^ 32) (reuse : Bool) :
    ClientKeeps size reuse (fun transaction => transaction.parser.Sound) Receives
      fun _ _ => True where
  fresh _ _ _ _ :=
    ⟨fun value => (nomatch value), fun data => (nomatch data), fun trailer => nomatch trailer⟩
  transaction s h transaction present := h.drives.sound _ (parser_eq present)
  enter _ _ _ _ := trivial
  unopened := ⟨.fresh, fun _ _ same => nomatch same⟩
  construct _ socket reused sound := construct_receives sound socket reused
  addFlag _ known := keeps_of_kept fun _ h => h.addFlag (clientFlag_outside known)
  clearFlag _ known := keeps_of_kept fun _ h => h.clearFlag (clientFlag_outside known)
  markDead := keeps_of_kept fun s h =>
    Receives.addFlag (s := { s with multiplexed := false }) (h.same rfl rfl rfl rfl) (by decide)
  markMultiplexed := keeps_of_kept fun _ h => h.same rfl rfl rfl rfl
  established := keeps_of_kept fun _ h => h.same rfl rfl rfl rfl
  connected := keeps_of_kept fun _ h => h.drives.transition (by decide) (by decide)
  recvBuffer _ h _ := ⟨h.withBuffer rfl rfl rfl fun b' same => by
    cases same
    exact Buffer.create_wf small, fun _ _ => trivial⟩
  sendBuffer := keeps_of_kept fun _ h => h.same rfl rfl rfl rfl
  refill := keeps_of_kept fun _ => refill_receives
  flushSendBuffer := keeps_of_kept fun _ => flushSendBuffer_receives
  announce _ := keeps_of_kept fun s h => h.same rfl
    (by unfold modifyRequest parser; simp only [Option.map_map]; rfl) rfl rfl
  begun := keeps_of_kept fun _ h => h.drives.transition (by decide) (by decide)
  formatHeaders := keeps_of_kept fun _ => formatHeaders_receives
  formatStartChunk n := keeps_of_kept fun _ h => by
    unfold formatStartChunk
    split
    · rename_i present _
      exact h.same rfl (parser_eq present).symm rfl rfl
    · exact h
  formatEndChunk produced n := keeps_of_kept fun _ h => by
    unfold formatEndChunk
    split
    · rename_i present _
      exact h.same rfl (parser_eq present).symm rfl rfl
    · exact h
  endBody := keeps_of_kept fun _ => endBody_receives
  flushRequestBody := keeps_of_kept fun _ => flushRequestBody_receives
  flushed _ _ _ _ := trivial
  parseHeaders := keeps_of_kept fun _ => parseHeaders_receives
  parsed _ _ _ _ := trivial
  nextChunk := keeps_of_kept fun _ => nextChunk_receives
  lastChunk _ _ _ _ := trivial
  consumeBody n := keeps_of_kept fun _ h => consumeBody_receives h n
  releaseBuffers := keeps_of_kept fun _ h => h.withBuffer rfl rfl rfl fun _ same => nomatch same
  closeSocket := keeps_of_kept fun _ h => h.same rfl rfl rfl rfl
  noTransaction := keeps_of_kept fun _ h => h.drives.ended rfl h.drives.wf rfl
  deactivate := keeps_of_kept fun _ h => h.drives.ended rfl h.drives.wf rfl
  abandoned := keeps_of_kept fun _ h => h.drives.ended rfl (fun _ same => nomatch same) rfl
  supply _ _ _ := keeps_of_kept fun _ h => h.same rfl rfl rfl rfl

end HttpClientSocket

/-! ## Runs -/

/-- In every run every socket keeps receiving. -/
theorem sockets_receive {w : World} (start : w.Accepted) (small : w.ioBufferSize < 2 ^ 32)
    (events : List ApplicationEvent) :
    (w.runScripted events).server.Receives ∧ ∀ id, ((w.runScripted events).clients id).Receives := by
  have begins : w.server.Receives := by
    rw [start.server]
    refine ⟨.fresh, fun _ _ same => (nomatch same), fun _ _ same => (nomatch same), fun here => ?_⟩
    exact absurd here (show ¬ has SERVER_TRANSACTION_BEGIN SERVER_PARSING_BODY = true by decide)
  have holds := runScripted_sockets (HttpServerSocket.serverKeeps_receives small)
    (HttpClientSocket.clientKeeps_receives small w.reuseConnections) events start begins rfl rfl
  exact ⟨holds.server, holds.client⟩

/-- **No call that is foreseen fails an assertion**, whatever the peers send and however it is
cut up; a socket has no other calls as long as no head continues where it should not and the
application leaves a body to the callbacks it is offered to. -/
theorem foreseen_calls_hold (w : World) (start : w.Accepted) (small : w.ioBufferSize < 2 ^ 32)
    (events : List ApplicationEvent) :
    (∀ call ∈ (w.runScripted events).server.calls, HttpServerSocket.Foreseen call →
      call.code ≠ .assertFailed) ∧
    ∀ id, ∀ call ∈ ((w.runScripted events).clients id).calls, HttpClientSocket.Foreseen call →
      call.code ≠ .assertFailed := by
  obtain ⟨server, clients⟩ := sockets_receive start small events
  exact ⟨server.drives.asserts, fun id => (clients id).drives.asserts⟩

section oneRequest

/-- A connection that has just been accepted. -/
def justAccepted : World := { server := {}, ioBufferSize := 64, parseBufferSize := 64 }

theorem justAccepted_accepted : justAccepted.Accepted := ⟨rfl, rfl, rfl, rfl, rfl⟩

/-- The octets of one request, which the server socket reads. -/
def requestArrives (octets : List Octet) : List ApplicationEvent :=
  [.event (.supply { serverArrivals := [.octets octets] }), .event (.server 8 { readable := true })]

theorem foreseen_calls_hold_request : justAccepted.Accepted ∧
    ∀ call ∈ (justAccepted.runScripted (requestArrives (octets "GET / HTTP/1.1\r\n\r\n"))).server.calls,
      HttpServerSocket.Foreseen call → call.code ≠ .assertFailed :=
  ⟨justAccepted_accepted, (foreseen_calls_hold justAccepted justAccepted_accepted (by decide) _).1⟩

/-- A header line that begins with a space comes right behind the request line. -/
theorem space_fails_assertion : justAccepted.Accepted ∧
    ∃ call ∈ (justAccepted.runScripted
        (requestArrives (octets "GET / HTTP/1.1\r\n Foo: bar\r\n\r\n"))).server.calls,
      call.code = .assertFailed := by
  refine ⟨justAccepted_accepted, ?_⟩
  decide +kernel

end oneRequest

end Everscale
