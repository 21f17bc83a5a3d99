/-
# Everscale.Http1.FinalFlush -- what a message leaves behind in the send buffer

`flushSendBuffer` reports success when it has sent something and would block, which is right
while a message is being formatted and wrong at its end: `stateFlushResponseBody` and
`stateFlushRequestBody` then leave a message behind of which the end is still in the send
buffer.  `FinalFlush.stopsShort` says when that happens: some write succeeds, and one would
block before the buffer is empty.

Everything that a formatter appends is on record, and what is on record has been sent or is in the send
buffer (`Delivers`), unless a call of `formatHeaders` goes back behind octets that a flush has left
(`HeadCall.Harmless`).  A transaction that is executed once more brings along what was formatted for it
on another connection.
-/
import Everscale.Http1.SocketInvariant
import Everscale.Http1.UnsentOctets

namespace Everscale

set_option autoImplicit false

/-! ## A flush -/

namespace ConnectedSocket

/-- Whether the writes block while octets are left, after one of them has succeeded. -/
def blocksMidway : Bool → Nat → List Departure → Bool
  | _, 0, _ => false
  | progress, _ + 1, [] => progress
  | progress, _ + 1, .failed error :: _ => progress && error.1 = .again
  | _, left + 1, .taken count :: rest => blocksMidway true (left + 1 - count) rest

/-- The loop hands over octets from the front.  It says success when there is nothing left,
and when the writes block midway. -/
theorem flushLoop_hands_over (fuel : Nat) (flushed : Bool) (socket : ConnectedSocket) (b : Buffer)
    (inside : b.Inside) (enough : socket.departures.length < fuel) :
    (flushLoop fuel flushed socket b).output.Inside ∧
      (flushLoop fuel flushed socket b).socket.sent ++
        (flushLoop fuel flushed socket b).output.unread = socket.sent ++ b.unread ∧
      ((flushLoop fuel flushed socket b).code = .success →
        ((flushLoop fuel flushed socket b).output.unread = [] ↔
          blocksMidway flushed b.readable socket.departures = false)) ∧
      (blocksMidway flushed b.readable socket.departures = true →
        (flushLoop fuel flushed socket b).code = .success) := by
  induction fuel generalizing flushed socket b with
  | zero => omega
  | succ fuel ih =>
      unfold flushLoop
      split
      · rename_i empty
        have empty : b.isReadable = false := by simpa using empty
        have none : b.readable = 0 := by simpa [Buffer.isReadable] using empty
        refine ⟨inside, rfl, fun _ => ?_, fun _ => rfl⟩
        simp [inside.unread_eq_nil.2 empty, none, blocksMidway]
      · rename_i some
        have some : 0 < b.readable := by simpa [Buffer.isReadable, Nat.pos_iff_ne_zero] using some
        obtain ⟨left, left_eq⟩ : ∃ left, b.readable = left + 1 := ⟨b.readable - 1, by omega⟩
        have unsent : b.unread ≠ [] := by
          intro none
          have := congrArg List.length none
          rw [inside.unread_length, ← inside.readable_eq, List.length_nil] at this
          omega
        rw [left_eq]
        cases departures : socket.departures with
        | nil =>
            -- the write would block
            simp only [send, departures]
            cases flushed <;> simp_all [blocksMidway]
        | cons departure rest =>
            cases departure with
            | failed error =>
                simp only [send, departures]
                split
                · rename_i same
                  exact absurd (congrArg Prod.fst same) error.2
                · rename_i same
                  obtain ⟨error, failure⟩ := error
                  cases same
                  cases flushed <;> simp_all [blocksMidway]
                · rename_i failed again same
                  cases same
                  have other : error.1 ≠ .again := fun same => again same
                  simp_all [blocksMidway]
            | taken count =>
                simp only [send, departures]
                have within : min count b.readable ≤ b.readable := Nat.min_le_right _ _
                obtain ⟨inside', unread'⟩ := inside.send within
                have readable' : (b.send (min count b.readable)).readable = left + 1 - count := by
                  rw [inside'.readable_eq, ← inside'.unread_length, unread', List.length_drop,
                    inside.unread_length, ← inside.readable_eq]
                  omega
                rw [departures, List.length_cons] at enough
                have rest_ok := ih true
                  { socket with departures := rest, sent := socket.sent ++ b.unread.take (min count b.readable) }
                  (b.send (min count b.readable)) inside' (Nat.lt_of_succ_lt_succ enough)
                rw [readable', unread', List.append_assoc, List.take_append_drop] at rest_ok
                exact rest_ok

theorem flush_hands_over (socket : ConnectedSocket) (b : Buffer) (inside : b.Inside) :
    (socket.flush b).output.Inside ∧
      (socket.flush b).socket.sent ++ (socket.flush b).output.unread = socket.sent ++ b.unread ∧
      ((socket.flush b).code = .success → ((socket.flush b).output.unread = [] ↔
        blocksMidway false b.unread.length socket.departures = false)) ∧
      (blocksMidway false b.unread.length socket.departures = true →
        (socket.flush b).code = .success) := by
  rw [inside.unread_length, ← inside.readable_eq]
  unfold flush
  split
  · rename_i empty
    have none : b.readable = 0 := by simpa [Buffer.isReadable] using empty
    exact ⟨inside, rfl, by simp, by simp [none, blocksMidway]⟩
  · exact flushLoop_hands_over _ _ _ _ inside (Nat.lt_succ_self _)

end ConnectedSocket

/-- The flush stops although the message is not all sent, and says success. -/
def FinalFlush.stopsShort (flush : FinalFlush) : Bool :=
  ConnectedSocket.blocksMidway false flush.unsent.length flush.departures

/-! ## The ends of messages -/

/-- What there is on record of what a socket sends. -/
structure Outgoing where
  sent : List Octet
  sendBuffer : Option Buffer
  formatted : List Octet
  released : Bool
  transitions : List Transition
  flushes : List FinalFlush

/-- What was formatted has been sent or is in the send buffer; `before` was sent before, and `harmless`
says that the calls of the formatter were.  Every transition to `target`, the state after the flush at
the end of a message, comes after such a flush, and all has been handed over if and only if the flush
did not stop short. -/
structure Delivers (target : StateBits) (before : List Octet) (harmless : Prop) (o : Outgoing) : Prop where
  inside : ∀ b, o.sendBuffer = some b → b.Inside
  accounted : o.released = false → harmless → o.sent ++ unreadOf o.sendBuffer = before ++ o.formatted
  ended : ∀ t ∈ o.transitions, t.target = target →
    (t.released = false → harmless → t.sent ++ t.unsent = before ++ t.formatted) ∧
      ∃ f ∈ o.flushes, (t.unsent = [] ↔ f.stopsShort = false)
  short : ∀ f ∈ o.flushes, f.stopsShort = true → ∃ t ∈ o.transitions, t.target = target ∧ t.unsent ≠ []

/-- When the socket goes on behind a message, and has not given up its buffers, all that was formatted
has been sent, in the order in which it was formatted. -/
def HandsOver (target : StateBits) (before : List Octet) (transitions : List Transition) : Prop :=
  ∀ t ∈ transitions, t.target = target → t.released = false → t.unsent = [] ∧ t.sent = before ++ t.formatted

namespace Delivers

variable {target : StateBits} {before : List Octet} {harmless harmless' : Prop} {o : Outgoing}

theorem fresh (balanced : harmless → o.sent = before ++ o.formatted) (buffer : o.sendBuffer = none)
    (transitions : ∀ t ∈ o.transitions, t.target ≠ target) (flushes : o.flushes = []) :
    Delivers target before harmless o where
  inside b held := by
    rw [buffer] at held
    cases held
  accounted _ calls := by
    rw [buffer]
    exact (List.append_nil _).trans (balanced calls)
  ended t member same := absurd same (transitions t member)
  short f recorded := by
    rw [flushes] at recorded
    exact absurd recorded List.not_mem_nil

/-- A call of a formatter. -/
theorem formats (h : Delivers target before harmless o) {b b' : Buffer} (held : o.sendBuffer = some b)
    (inside : b'.Inside) (fewer : harmless' → harmless) (more : harmless' → b.unread <+: b'.unread) :
    Delivers target before harmless'
      { o with sendBuffer := some b', formatted := o.formatted ++ appended b b' } where
  inside c same := by
    cases same
    exact inside
  accounted kept calls := by
    have balance := h.accounted kept (fewer calls)
    rw [held] at balance
    obtain ⟨new, unread⟩ := more calls
    show o.sent ++ b'.unread = before ++ (o.formatted ++ b'.unread.drop b.unread.length)
    rw [← unread, List.drop_left, ← List.append_assoc, ← List.append_assoc]
    exact congrArg (· ++ new) balance
  ended t member same := by
    obtain ⟨balance, flushed⟩ := h.ended t member same
    exact ⟨fun kept calls => balance kept (fewer calls), flushed⟩
  short := h.short

theorem provide (h : Delivers target before harmless o) (none : o.sendBuffer = none) (size : Nat) :
    Delivers target before harmless { o with sendBuffer := some (Buffer.create size) } :=
  { h with
    inside := by
      rintro b same
      cases same
      exact .create size
    accounted := by
      intro kept calls
      have balance := h.accounted kept calls
      rw [none] at balance
      show o.sent ++ (Buffer.create size).unread = _
      rw [Buffer.create_unread]
      exact balance }

theorem release (h : Delivers target before harmless o) :
    Delivers target before harmless { o with sendBuffer := none, released := true } :=
  { h with
    inside := by
      rintro b same
      cases same
    accounted := by
      rintro kept
      cases kept }

/-- A flush while the message is being formatted. -/
theorem drain (h : Delivers target before harmless o) {socket : ConnectedSocket} {b : Buffer}
    (held : o.sendBuffer = some b) (sent : o.sent = socket.sent) :
    Delivers target before harmless
      { o with sent := (socket.flush b).socket.sent, sendBuffer := some (socket.flush b).output } := by
  obtain ⟨inside, conserved, -, -⟩ := socket.flush_hands_over b (h.inside b held)
  refine { h with inside := ?_, accounted := ?_ }
  · rintro c same
    cases same
    exact inside
  · intro kept calls
    have balance := h.accounted kept calls
    rw [held, sent] at balance
    exact conserved.trans balance

theorem transition (h : Delivers target before harmless o) {t : Transition} (other : t.target ≠ target) :
    Delivers target before harmless { o with transitions := o.transitions ++ [t] } :=
  { h with
    ended := by
      intro t' member same
      rcases List.mem_append.1 member with old | last
      · exact h.ended t' old same
      · rw [List.mem_singleton.1 last] at same
        exact absurd same other
    short := by
      intro f recorded short
      obtain ⟨t', member, found⟩ := h.short f recorded short
      exact ⟨t', List.mem_append_left _ member, found⟩ }

/-- A flush without a transition behind it, which did not say success. -/
theorem failedFlush (h : Delivers target before harmless o) {f : FinalFlush} (whole : f.stopsShort = false) :
    Delivers target before harmless { o with flushes := o.flushes ++ [f] } :=
  { h with
    ended := by
      intro t member same
      obtain ⟨balance, f', recorded, flushed⟩ := h.ended t member same
      exact ⟨balance, f', List.mem_append_left _ recorded, flushed⟩
    short := by
      intro f' recorded short
      rcases List.mem_append.1 recorded with old | last
      · exact h.short f' old short
      · rw [List.mem_singleton.1 last, whole] at short
        cases short }

/-- The flush at the end of a message, without the transition behind it or with it. -/
theorem flush (h : Delivers target before harmless o) (socket : ConnectedSocket) {b : Buffer}
    (held : o.sendBuffer = some b) (sent : o.sent = socket.sent) :
    ((socket.flush b).code ≠ .success → Delivers target before harmless
      { o with
        sent := (socket.flush b).socket.sent
        sendBuffer := some (socket.flush b).output
        flushes := o.flushes ++ [⟨socket.sent, b.unread, socket.departures⟩] }) ∧
    ∀ bits, (socket.flush b).code = .success → Delivers target before harmless
      { o with
        sent := (socket.flush b).socket.sent
        sendBuffer := some (socket.flush b).output
        transitions := o.transitions ++ [⟨bits, target, (socket.flush b).socket.sent,
          (socket.flush b).output.unread, o.formatted, o.released⟩]
        flushes := o.flushes ++ [⟨socket.sent, b.unread, socket.departures⟩] } := by
  obtain ⟨inside, conserved, ended, blocked⟩ := socket.flush_hands_over b (h.inside b held)
  have drained := h.drain held sent
  constructor
  · intro failed
    refine drained.failedFlush (Bool.eq_false_iff.2 fun short => ?_)
    exact failed (blocked short)
  · intro bits success
    refine { drained with ended := ?_, short := ?_ }
    · intro t member same
      rcases List.mem_append.1 member with earlier | last
      · obtain ⟨balance, f, recorded, flushed⟩ := h.ended t earlier same
        exact ⟨balance, f, List.mem_append_left _ recorded, flushed⟩
      · rw [List.mem_singleton.1 last]
        exact ⟨drained.accounted, _, List.mem_append_right _ (List.mem_singleton.2 rfl), ended success⟩
    · intro f recorded short
      rcases List.mem_append.1 recorded with earlier | last
      · obtain ⟨t, member, found⟩ := h.short f earlier short
        exact ⟨t, List.mem_append_left _ member, found⟩
      · rw [List.mem_singleton.1 last] at short
        refine ⟨_, List.mem_append_right _ (List.mem_singleton.2 rfl), rfl, fun none => ?_⟩
        have whole := (ended success).1 none
        exact absurd (short.symm.trans whole) (by decide)

theorem handsOver (h : Delivers target before harmless o) (calls : harmless)
    (whole : ∀ f ∈ o.flushes, f.stopsShort = false) : HandsOver target before o.transitions := by
  intro t member same kept
  obtain ⟨balance, f, recorded, flushed⟩ := h.ended t member same
  have none := flushed.2 (whole f recorded)
  refine ⟨none, ?_⟩
  have sent := balance kept calls
  rwa [none, List.append_nil] at sent

end Delivers

/-- The calls of the formatter of headers did no harm. -/
def HttpServerSocket.HeadsHarmless (s : HttpServerSocket) : Prop :=
  ∀ call ∈ s.headCalls, call.Harmless HttpResponseFormatter.elements

/-- The calls of the formatter of headers did no harm, and nothing was formatted for the transaction
before the socket was constructed. -/
def HttpClientSocket.HeadsHarmless (s : HttpClientSocket) : Prop :=
  (∀ call ∈ s.headCalls, call.Harmless HttpRequestFormatter.elements) ∧ ∀ o ∈ s.original, o.formatted = []

def HttpServerSocket.outgoing (s : HttpServerSocket) : Outgoing :=
  ⟨s.socket.sent, s.sendBuffer, s.formatted, s.released, s.transitions, s.finalFlushes⟩

def HttpClientSocket.outgoing (s : HttpClientSocket) : Outgoing :=
  ⟨s.socket.sent, s.sendBuffer, s.formatted, s.released, s.transitions, s.finalFlushes⟩

def HttpServerSocket.Delivers (before : List Octet) (s : HttpServerSocket) : Prop :=
  Everscale.Delivers SERVER_TRANSACTION_END before s.HeadsHarmless s.outgoing

def HttpClientSocket.Delivers (s : HttpClientSocket) : Prop :=
  Everscale.Delivers PARSING_HEADERS s.sentBefore s.HeadsHarmless s.outgoing

/-- A read sends nothing. -/
theorem ConnectedSocket.receive_sent (socket : ConnectedSocket) (b : Buffer) :
    (socket.receive b).2.1.sent = socket.sent := by
  unfold ConnectedSocket.receive
  split <;> rfl

namespace HttpServerSocket

variable {before : List Octet} {s : HttpServerSocket}

theorem Delivers.stateTransition (h : s.Delivers before) {target : StateBits}
    (other : target &&& SERVER_STATE_MASK ≠ SERVER_TRANSACTION_END) :
    (s.stateTransition target).Delivers before :=
  Everscale.Delivers.transition h other

theorem Delivers.conditionalStateTransition (h : s.Delivers before) {ifState target : StateBits}
    (other : target &&& SERVER_STATE_MASK ≠ SERVER_TRANSACTION_END) :
    (s.conditionalStateTransition ifState target).Delivers before := by
  unfold HttpServerSocket.conditionalStateTransition
  split
  · exact h.stateTransition other
  · exact h

theorem parseHeaders_delivers (h : s.Delivers before) : s.parseHeaders.2.Delivers before := by
  unfold parseHeaders
  split
  · dsimp only
    split
    · exact Delivers.stateTransition h (by decide)
    · exact h
  · exact h

theorem currentChunkBytesAvailable_delivers (h : s.Delivers before) :
    s.currentChunkBytesAvailable.2.Delivers before := by
  unfold currentChunkBytesAvailable
  split
  · exact h
  · split
    · split
      · exact h
      · dsimp only
        split
        · exact h
        · split
          · exact h
          · exact h
    · exact h

theorem nextChunk_delivers (h : s.Delivers before) : s.nextChunk.2.Delivers before := by
  have chunk := currentChunkBytesAvailable_delivers h
  unfold nextChunk
  split
  · rename_i last
    rw [last] at chunk
    exact chunk.stateTransition (by decide)
  · exact chunk

theorem consumeBody_delivers (h : s.Delivers before) (n : Nat) : (s.consumeBody n).2.Delivers before := by
  unfold consumeBody
  split
  · dsimp only
    split
    · exact h
    · exact h
  · exact h

theorem stateSkipTrailer_delivers (h : s.Delivers before) : s.stateSkipTrailer.2.Delivers before := by
  unfold stateSkipTrailer
  split
  · dsimp only
    split
    · exact h
    · refine Everscale.Delivers.transition h ?_
      show SERVER_FORMATTING_HEADERS &&& SERVER_STATE_MASK ≠ SERVER_TRANSACTION_END
      decide
  · exact h

theorem formatHeaders_delivers (h : s.Delivers before) : s.formatHeaders.2.Delivers before := by
  unfold formatHeaders
  split
  · rename_i t b _ held
    have inside := h.inside b held
    have spares := formatHeaders_spares t.response (statusLine_spares t.response) t.formatter
    have formatted : Everscale.Delivers SERVER_TRANSACTION_END before
        (∀ call ∈ s.headCalls ++ [⟨t.response, t.formatter, b⟩], call.Harmless HttpResponseFormatter.elements) _ :=
      Everscale.Delivers.formats h held (spares b inside).1
        (fun calls call member => calls call (List.mem_append_left _ member))
        fun calls => (calls _ (List.mem_append_right _ (List.mem_singleton.2 rfl))).keepsResponse inside
    dsimp only
    split
    · refine Everscale.Delivers.transition formatted ?_
      show SERVER_FORMATTING_BODY &&& SERVER_STATE_MASK ≠ SERVER_TRANSACTION_END
      decide
    · exact formatted
  · exact h

theorem endBody_delivers (h : s.Delivers before) : s.endBody.2.Delivers before := by
  unfold endBody
  split
  · rename_i t b _ held
    obtain ⟨inside, more⟩ := endBody_keeps t.formatter (h.inside b held)
    have formatted := Everscale.Delivers.formats h held inside id fun _ => more
    dsimp only
    split
    · refine Everscale.Delivers.transition formatted ?_
      show SERVER_FLUSHING_BODY &&& SERVER_STATE_MASK ≠ SERVER_TRANSACTION_END
      decide
    · exact formatted
  · exact h

theorem formatStartChunk_delivers (h : s.Delivers before) (n : Nat) :
    (s.formatStartChunk n).2.Delivers before := by
  unfold formatStartChunk
  split
  · rename_i t b _ held
    obtain ⟨inside, more⟩ := beginBlock_keeps n t.formatter (h.inside b held)
    exact Everscale.Delivers.formats h held inside id fun _ => more
  · exact h

theorem formatEndChunk_delivers (h : s.Delivers before) (produced : List Octet) (n : Nat) :
    (s.formatEndChunk produced n).2.Delivers before := by
  unfold formatEndChunk
  split
  · rename_i t b _ held
    obtain ⟨inside, more⟩ := producedBlock_keeps t.formatter (h.inside b held) produced n
    exact Everscale.Delivers.formats h held inside id fun _ => more
  · exact h

theorem refill_delivers (h : s.Delivers before) : s.refill.2.Delivers before := by
  unfold refill
  split
  · exact h
  · dsimp only
    split
    · exact h
    · unfold HttpServerSocket.Delivers outgoing
      dsimp only
      rw [ConnectedSocket.receive_sent]
      exact h

theorem flushSendBuffer_delivers (h : s.Delivers before) : s.flushSendBuffer.2.Delivers before := by
  unfold flushSendBuffer
  split
  · exact h
  · rename_i b held
    exact Everscale.Delivers.drain h held rfl

theorem stateFlushResponseBody_delivers (h : s.Delivers before) :
    s.stateFlushResponseBody.2.Delivers before := by
  unfold stateFlushResponseBody flushSendBuffer recordFlush
  cases held : s.sendBuffer with
  | none =>
      -- there is nothing to stop before
      unfold HttpServerSocket.Delivers outgoing at h ⊢
      rw [held] at h
      exact Everscale.Delivers.failedFlush (f := ⟨s.socket.sent, [], s.socket.departures⟩) h (by
        simp [FinalFlush.stopsShort, ConnectedSocket.blocksMidway])
  | some b =>
      obtain ⟨failed, ended⟩ := Everscale.Delivers.flush h s.socket held rfl
      dsimp only
      split
      · rename_i success
        have code := congrArg Prod.fst success
        have same := congrArg Prod.snd success
        dsimp only at same
        rw [← same]
        exact ended _ code
      · rename_i stopped result
        have code := congrArg Prod.fst result
        have same := congrArg Prod.snd result
        dsimp only at code same
        rw [← same]
        exact failed fun success => stopped (code.symm.trans success)

/-- What a server socket sends is kept track of by all its functions. -/
theorem serverKeeps_delivers (size : Nat) (before : List Octet) :
    ServerKeeps size (HttpServerSocket.Delivers before) fun _ _ => True where
  enter _ _ _ _ := trivial
  addFlag _ _ := keeps_of_kept fun _ h => h
  clearFlag _ _ := keeps_of_kept fun _ h => h
  markDead := keeps_of_kept fun _ h => h
  recvBuffer := keeps_of_kept fun _ h => h
  sendBuffer s h none := ⟨Everscale.Delivers.provide h none size, fun _ _ => trivial⟩
  create _ := keeps_of_kept fun _ h => h
  modifyResponse _ := keeps_of_kept fun _ h => h
  count := keeps_of_kept fun _ h => h
  refill := keeps_of_kept fun _ => refill_delivers
  flushSendBuffer := keeps_of_kept fun _ => flushSendBuffer_delivers
  begun := keeps_of_kept fun _ h => h.conditionalStateTransition (by decide)
  answered _ := keeps_of_kept fun _ h => h.stateTransition (by decide)
  answeredEarly := keeps_of_kept fun _ h => h.conditionalStateTransition (by decide)
  parsing := parseKeeps_of_kept (keeps_of_kept fun _ => parseHeaders_delivers)
    (fun _ _ _ _ => trivial) (fun _ => keeps_of_kept fun _ h => h)
    (keeps_of_kept fun _ h => h.stateTransition (by decide))
  nextChunk := keeps_of_kept fun _ => nextChunk_delivers
  lastChunk _ _ _ _ := trivial
  consumeBody n := keeps_of_kept fun _ h => consumeBody_delivers h n
  stateSkipTrailer := keeps_of_kept fun _ => stateSkipTrailer_delivers
  formatHeaders := keeps_of_kept fun _ => formatHeaders_delivers
  formatStartChunk n := keeps_of_kept fun _ h => formatStartChunk_delivers h n
  formatEndChunk produced n := keeps_of_kept fun _ h => formatEndChunk_delivers h produced n
  endBody := keeps_of_kept fun _ => endBody_delivers
  stateFlushResponseBody := keeps_of_kept fun _ => stateFlushResponseBody_delivers
  next := keeps_of_kept fun _ h => h.stateTransition (by decide)
  releaseBuffers := keeps_of_kept fun _ h => Everscale.Delivers.release h
  ended := keeps_of_kept fun s h =>
    HttpServerSocket.Delivers.stateTransition (s := { s with transaction := none }) h (by decide)
  supply _ _ _ := keeps_of_kept fun _ h => h

end HttpServerSocket

namespace HttpClientSocket

variable {s : HttpClientSocket}

theorem Delivers.stateTransition (h : s.Delivers) {target : StateBits}
    (other : target &&& STATE_MASK ≠ PARSING_HEADERS) : (s.stateTransition target).Delivers :=
  Everscale.Delivers.transition h other

theorem parseHeaders_delivers (h : s.Delivers) : s.parseHeaders.2.Delivers := by
  unfold parseHeaders
  split
  · dsimp only
    split
    · refine Everscale.Delivers.transition h ?_
      show PARSING_BODY &&& STATE_MASK ≠ PARSING_HEADERS
      decide
    · exact h
  · exact h

theorem currentChunkBytesAvailable_delivers (h : s.Delivers) : s.currentChunkBytesAvailable.2.Delivers := by
  unfold currentChunkBytesAvailable
  split
  · exact h
  · split
    · split
      · exact h
      · dsimp only
        split
        · exact h
        · split
          · exact h
          · exact h
    · exact h

theorem nextChunk_delivers (h : s.Delivers) : s.nextChunk.2.Delivers := by
  have chunk := currentChunkBytesAvailable_delivers h
  unfold nextChunk
  split
  · rename_i last
    rw [last] at chunk
    exact chunk.stateTransition (by decide)
  · exact chunk

theorem consumeBody_delivers (h : s.Delivers) (n : Nat) : (s.consumeBody n).2.Delivers := by
  unfold consumeBody
  split
  · dsimp only
    split
    · exact h
    · exact h
  · exact h

theorem formatHeaders_delivers (h : s.Delivers) : s.formatHeaders.2.Delivers := by
  unfold formatHeaders
  split
  · rename_i t b _ held
    have inside := h.inside b held
    have spares := formatHeaders_spares t.request (requestLine_spares t.request) t.formatter
    have formatted : Everscale.Delivers PARSING_HEADERS s.sentBefore
        ((∀ call ∈ s.headCalls ++ [⟨t.request, t.formatter, b⟩], call.Harmless HttpRequestFormatter.elements) ∧
          ∀ o ∈ s.original, o.formatted = []) _ :=
      Everscale.Delivers.formats h held (spares b inside).1
        (fun calls => ⟨fun call member => calls.1 call (List.mem_append_left _ member), calls.2⟩)
        fun calls => (calls.1 _ (List.mem_append_right _ (List.mem_singleton.2 rfl))).keepsRequest inside
    dsimp only
    split
    · refine Everscale.Delivers.transition formatted ?_
      show FORMATTING_BODY &&& STATE_MASK ≠ PARSING_HEADERS
      decide
    · exact formatted
  · exact h

theorem endBody_delivers (h : s.Delivers) : s.endBody.2.Delivers := by
  unfold endBody
  split
  · rename_i t b _ held
    obtain ⟨inside, more⟩ := endBody_keeps t.formatter (h.inside b held)
    have formatted := Everscale.Delivers.formats h held inside id fun _ => more
    dsimp only
    split
    · refine Everscale.Delivers.transition formatted ?_
      show FLUSHING_BODY &&& STATE_MASK ≠ PARSING_HEADERS
      decide
    · exact formatted
  · exact h

theorem formatStartChunk_delivers (h : s.Delivers) (n : Nat) : (s.formatStartChunk n).2.Delivers := by
  unfold formatStartChunk
  split
  · rename_i t b _ held
    obtain ⟨inside, more⟩ := beginBlock_keeps n t.formatter (h.inside b held)
    exact Everscale.Delivers.formats h held inside id fun _ => more
  · exact h

theorem formatEndChunk_delivers (h : s.Delivers) (produced : List Octet) (n : Nat) :
    (s.formatEndChunk produced n).2.Delivers := by
  unfold formatEndChunk
  split
  · rename_i t b _ held
    obtain ⟨inside, more⟩ := producedBlock_keeps t.formatter (h.inside b held) produced n
    exact Everscale.Delivers.formats h held inside id fun _ => more
  · exact h

theorem refill_delivers (h : s.Delivers) : s.refill.2.Delivers := by
  unfold refill
  split
  · exact h
  · dsimp only
    split
    · exact h
    · unfold HttpClientSocket.Delivers outgoing
      dsimp only
      rw [ConnectedSocket.receive_sent]
      exact h

theorem flushSendBuffer_delivers (h : s.Delivers) : s.flushSendBuffer.2.Delivers := by
  unfold flushSendBuffer
  split
  · exact h
  · rename_i b held
    have flushed := Everscale.Delivers.drain h held rfl
    dsimp only
    split
    · exact flushed
    · exact flushed

theorem flushRequestBody_delivers (h : s.Delivers) : s.flushRequestBody.2.Delivers := by
  unfold flushRequestBody flushSendBuffer recordFlush
  cases held : s.sendBuffer with
  | none =>
      -- there is nothing to stop before
      unfold HttpClientSocket.Delivers outgoing at h ⊢
      rw [held] at h
      exact Everscale.Delivers.failedFlush (f := ⟨s.socket.sent, [], s.socket.departures⟩) h (by
        simp [FinalFlush.stopsShort, ConnectedSocket.blocksMidway])
  | some b =>
      obtain ⟨failed, ended⟩ := Everscale.Delivers.flush h s.socket held rfl
      dsimp only
      split
      · rename_i success
        have code := congrArg Prod.fst success
        have same := congrArg Prod.snd success
        dsimp only at code same
        rw [← same]
        split
        · exact ended _ code
        · exact ended _ code
      · rename_i stopped result
        have code := congrArg Prod.fst result
        have same := congrArg Prod.snd result
        dsimp only at code same
        have failed := failed fun success => stopped (code.symm.trans success)
        rw [← same]
        split
        · exact failed
        · exact failed

/-- A new socket has sent nothing for its transaction. -/
theorem construct_delivers (transaction : HttpClientTransaction) (socket : ConnectedSocket) (reused : Bool) :
    (HttpClientSocketFactory.construct transaction socket reused).Delivers := by
  have fresh : HttpClientSocket.Delivers
      { transaction := some transaction
        socket := socket
        original := some transaction
        receivedBefore := socket.received.length
        sentBefore := socket.sent
        formatted := transaction.formatted } := by
    refine Everscale.Delivers.fresh (fun calls => ?_) rfl (fun _ member => absurd member List.not_mem_nil) rfl
    show socket.sent = socket.sent ++ transaction.formatted
    rw [calls.2 transaction rfl, List.append_nil]
  unfold HttpClientSocketFactory.construct
  dsimp only
  split
  · exact fresh.stateTransition (by decide)
  · exact fresh

/-- What a client socket sends is kept track of by all its functions. -/
theorem clientKeeps_delivers (size : Nat) (reuse : Bool) :
    ClientKeeps size reuse (fun _ => True) HttpClientSocket.Delivers fun _ _ => True where
  fresh _ _ _ _ := trivial
  transaction _ _ _ _ := trivial
  enter _ _ _ _ := trivial
  unopened := Everscale.Delivers.fresh (fun _ => rfl) rfl (fun _ member => absurd member List.not_mem_nil) rfl
  construct transaction socket reused _ := construct_delivers transaction socket reused
  addFlag _ _ := keeps_of_kept fun _ h => h
  clearFlag _ _ := keeps_of_kept fun _ h => h
  markDead := keeps_of_kept fun _ h => h
  markMultiplexed := keeps_of_kept fun _ h => h
  established := keeps_of_kept fun _ h => h
  connected := keeps_of_kept fun _ h => h.stateTransition (by decide)
  recvBuffer := keeps_of_kept fun _ h => h
  sendBuffer s h none := ⟨Everscale.Delivers.provide h none size, fun _ _ => trivial⟩
  refill := keeps_of_kept fun _ => refill_delivers
  flushSendBuffer := keeps_of_kept fun _ => flushSendBuffer_delivers
  announce _ := keeps_of_kept fun _ h => h
  begun := keeps_of_kept fun _ h => h.stateTransition (by decide)
  formatHeaders := keeps_of_kept fun _ => formatHeaders_delivers
  formatStartChunk n := keeps_of_kept fun _ h => formatStartChunk_delivers h n
  formatEndChunk produced n := keeps_of_kept fun _ h => formatEndChunk_delivers h produced n
  endBody := keeps_of_kept fun _ => endBody_delivers
  flushRequestBody := keeps_of_kept fun _ => flushRequestBody_delivers
  flushed _ _ _ _ := trivial
  parseHeaders := keeps_of_kept fun _ => parseHeaders_delivers
  parsed _ _ _ _ := trivial
  nextChunk := keeps_of_kept fun _ => nextChunk_delivers
  lastChunk _ _ _ _ := trivial
  consumeBody n := keeps_of_kept fun _ h => consumeBody_delivers h n
  releaseBuffers := keeps_of_kept fun _ h => Everscale.Delivers.release h
  closeSocket := keeps_of_kept fun _ h => h
  noTransaction := keeps_of_kept fun _ h => h
  deactivate := keeps_of_kept fun _ h => h.stateTransition (by decide)
  abandoned := keeps_of_kept fun _ h => Everscale.Delivers.release h
  supply _ _ _ := keeps_of_kept fun _ h => h

end HttpClientSocket

/-! ## Runs -/

/-- In every run what is formatted is sent or in the send buffer, and the end of every message comes after
a flush that hands over all that was in the send buffer, or stops short. -/
theorem messages_delivered {w : World} (start : w.Accepted) (events : List ApplicationEvent) :
    (w.runScripted events).server.Delivers w.server.socket.sent ∧
      ∀ id, ((w.runScripted events).clients id).Delivers := by
  have begins : w.server.Delivers w.server.socket.sent := by
    rw [start.server]
    exact Everscale.Delivers.fresh (fun _ => (List.append_nil _).symm) rfl
      (fun _ member => absurd member List.not_mem_nil) rfl
  have holds := runScripted_sockets (HttpServerSocket.serverKeeps_delivers w.ioBufferSize _)
    (HttpClientSocket.clientKeeps_delivers w.ioBufferSize w.reuseConnections) events start begins rfl rfl
  exact ⟨holds.server, holds.client⟩

/-- **A message is handed over entirely** when the socket goes on, to `SERVER_TRANSACTION_END` with a response
and to `PARSING_HEADERS` with a request, unless a flush at its end stops short, a call of `formatHeaders`
goes back behind octets that were not sent, or part of the request was formatted for another connection.
Where a flush stops short it is not. -/
theorem whole_message_sent (w : World) (start : w.Accepted) (events : List ApplicationEvent) :
    (let s := (w.runScripted events).server;
      ((∀ f ∈ s.finalFlushes, f.stopsShort = false) → s.HeadsHarmless →
        HandsOver SERVER_TRANSACTION_END w.server.socket.sent s.transitions) ∧
      ((∃ f ∈ s.finalFlushes, f.stopsShort = true) →
        ∃ t ∈ s.transitions, t.target = SERVER_TRANSACTION_END ∧ t.unsent ≠ [])) ∧
    ∀ id, let s := (w.runScripted events).clients id;
      ((∀ f ∈ s.finalFlushes, f.stopsShort = false) → s.HeadsHarmless →
        HandsOver PARSING_HEADERS s.sentBefore s.transitions) ∧
      ((∃ f ∈ s.finalFlushes, f.stopsShort = true) →
        ∃ t ∈ s.transitions, t.target = PARSING_HEADERS ∧ t.unsent ≠ []) := by
  obtain ⟨server, client⟩ := messages_delivered start events
  refine ⟨⟨fun whole calls => Everscale.Delivers.handsOver server calls whole, ?_⟩, fun id =>
    ⟨fun whole calls => Everscale.Delivers.handsOver (client id) calls whole, ?_⟩⟩
  · rintro ⟨f, recorded, short⟩
    exact server.short f recorded short
  · rintro ⟨f, recorded, short⟩
    exact (client id).short f recorded short

section oneRequest

/-- A connection that has just been accepted. -/
def accepted : World := { server := {}, ioBufferSize := 128, parseBufferSize := 64 }

theorem accepted_accepted : accepted.Accepted := ⟨rfl, rfl, rfl, rfl, rfl⟩

/-- One request arrives and is answered at once; the writes come to `departures`. -/
def answeredOnce (departures : List Departure) : List ApplicationEvent :=
  [.event (.supply
      { serverArrivals := [.octets (octets "GET / HTTP/1.1\r\n\r\n")]
        serverDepartures := departures
        scripts := fun callback =>
          if callback = .receiveRequestHeaders then
            [{ calls := [.sendEmptyResponse 200 "OK"], result := .sendResponse }]
          else [] }),
    .event (.server 8 { readable := true })]

/-- The response leaves in three writes, of which the first takes nothing. -/
theorem whole_message_sent_answered :
    HandsOver SERVER_TRANSACTION_END []
        (accepted.runScripted (answeredOnce [.taken 0, .taken 10, .taken 99])).server.transitions ∧
      ∃ t ∈ (accepted.runScripted (answeredOnce [.taken 0, .taken 10, .taken 99])).server.transitions,
        t.target = SERVER_TRANSACTION_END ∧ t.released = false ∧
          t.sent = octets "HTTP/1.1 200 OK\r\nContent-Length: 0\r\nConnection: close\r\n\r\n" := by
  have whole : ∀ f ∈ (accepted.runScripted
      (answeredOnce [.taken 0, .taken 10, .taken 99])).server.finalFlushes, f.stopsShort = false := by
    decide +kernel
  have empty : ∀ call ∈ (accepted.runScripted
      (answeredOnce [.taken 0, .taken 10, .taken 99])).server.headCalls, call.output.unread = [] := by
    decide +kernel
  refine ⟨(whole_message_sent accepted accepted_accepted _).1.1 whole fun call member => ?_, ?_⟩
  · exact .inl (empty call member)
  · decide +kernel

/-- The connection takes one octet of the response and would block: the rest of the response
is given up. -/
theorem response_cut_short : accepted.Accepted ∧
    ¬ HandsOver SERVER_TRANSACTION_END []
      (accepted.runScripted (answeredOnce [.taken 1])).server.transitions := by
  refine ⟨accepted_accepted, ?_⟩
  unfold HandsOver
  decide +kernel

end oneRequest

end Everscale
