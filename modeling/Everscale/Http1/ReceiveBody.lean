/-
# Everscale.Http1.ReceiveBody -- a chunked body as it arrives and is consumed

What a socket does with a chunked body: it calls `parseBody`; when that asks for more
it reads from the transport, when it offers data it passes some of it on and calls
`consumeBody`, and after the last chunk it calls `skipTrailer` until the trailer is
over.  `BodyRun` is the state of that loop, and one number a turn says how much is
read or consumed.

`receiveBody_agrees` compares a run with the decoder of `Everscale.Http1.ChunkedCoding`,
under the condition `Refillable` on every read.
-/
import Everscale.Http1.Receive
import Everscale.Http1.BodyStream

namespace Everscale

set_option autoImplicit false

open Theory HttpUtil HttpMessageParser

variable {χ ρ : Type}

/-- Where the body loop stands.  While it goes on, `code` is `again`. -/
structure BodyRun (χ ρ : Type) where
  parser : HttpMessageParser χ ρ
  input : Buffer
  received : List Octet
  pending : List Octet
  delivered : List Octet := []
  skippingTrailer : Bool := false
  code : Error := .again

namespace BodyRun

/-- Before the first call: part of the body may be in the buffer already. -/
def start (parser : HttpMessageParser χ ρ) (input : Buffer) (pending : List Octet) : BodyRun χ ρ :=
  { parser, input, received := input.unread, pending }

/-- The call that is due. -/
def call (r : BodyRun χ ρ) : BodyOutcome χ ρ :=
  if r.skippingTrailer then
    let o := skipTrailer r.parser r.input
    ⟨o.code, o.state, o.input, none, none⟩
  else parseBody r.parser r.input

def after (r : BodyRun χ ρ) (o : BodyOutcome χ ρ) : BodyRun χ ρ :=
  { r with parser := o.state, input := o.input }

/-- `fillReceiveBuffer`. -/
def refill (size : Nat) (r : BodyRun χ ρ) : BodyRun χ ρ :=
  match makeRoom r.input with
  | none => { r with code := .overflow }
  | some b =>
      { r with
        input := (receive size b r.pending).1
        pending := (receive size b r.pending).2
        received := r.received ++ r.pending.take (min size b.writable) }

/-- Passes on at most `size` of the octets offered.  The call has set both out
parameters by then. -/
def consume (size : Nat) (r : BodyRun χ ρ) (start offered : Option Nat) : BodyRun χ ρ :=
  match offered, start with
  | some 0, _ => { r with skippingTrailer := true }
  | some offered, some start =>
      let n := min size offered
      let o := consumeBody r.parser r.input n
      { r with
        parser := o.state
        input := o.input
        delivered := r.delivered ++ (r.input.storage.drop start).take n
        code := if o.code = .success then r.code else o.code }
  | _, _ => { r with code := .assertFailed }

/-- One turn of the loop. -/
def turn (size : Nat) (r : BodyRun χ ρ) : BodyRun χ ρ :=
  let o := r.call
  if o.code = .again then (r.after o).refill size
  else if o.code = .success ∧ r.skippingTrailer = false then
    (r.after o).consume size o.startingPosition o.chunkSize
  else { r.after o with code := o.code }

/-- The loop is over when a call has returned something else or nothing more arrives. -/
def Over (r : BodyRun χ ρ) : Prop := r.code ≠ .again ∨ r.pending = [] ∧ r.call.code = .again

instance (r : BodyRun χ ρ) : Decidable r.Over := inferInstanceAs (Decidable (_ ∨ _))

/-- What was not consumed. -/
def left (r : BodyRun χ ρ) : List Octet := r.input.unread ++ r.pending

end BodyRun

/-- The body loop, as long as the schedule lasts. -/
def receiveBody : List Nat → BodyRun χ ρ → BodyRun χ ρ
  | [], r => r
  | size :: sizes, r => if r.Over then r else receiveBody sizes (r.turn size)

/-- A read at this point finds room, and does not come after digits of a chunk size that
are worth zero so far and before white space. -/
def Refillable (r : BodyRun χ ρ) : Prop :=
  makeRoom r.input ≠ none ∧ Ready (({} : Decoder).read r.received) r.pending

/-- Every read along the run is `Refillable`. -/
def EveryRefill : List Nat → BodyRun χ ρ → Prop
  | [], _ => True
  | size :: sizes, r =>
      ¬ r.Over → (r.call.code = .again → Refillable (r.after r.call)) ∧
        EveryRefill sizes (r.turn size)

instance (r : BodyRun χ ρ) : Decidable (Refillable r) :=
  inferInstanceAs (Decidable (_ ∧ (_ → _ → ∀ c ∈ r.pending.head?, isSpace c = false)))

instance decidableEveryRefill : ∀ (sizes : List Nat) (r : BodyRun χ ρ), Decidable (EveryRefill sizes r)
  | [], _ => .isTrue trivial
  | size :: sizes, r =>
      have := decidableEveryRefill sizes (r.turn size)
      inferInstanceAs (Decidable (¬ r.Over → (r.call.code = .again → Refillable (r.after r.call)) ∧
        EveryRefill sizes (r.turn size)))

/-! ## One turn -/

/-- The loop and a decoder `d` at the read position, on the octets `u`. -/
structure Follows (u : List Octet) (r : BodyRun χ ρ) (d : Decoder) : Prop where
  decodes : Decodes r.parser d
  wf : r.input.WF
  whole : r.received ++ r.pending = u
  read : d.read r.input.unread = ({} : Decoder).read r.received
  delivered : d.delivered = r.delivered
  leftover : d.leftover = []
  ready : Ready d r.input.unread
  skipping : r.skippingTrailer = true ↔ d.phase = .trailer .start
  more : d.phase ≠ .complete
  running : r.code = .again

/-- The loop has ended where the decoder is complete. -/
structure Ended (u : List Octet) (r : BodyRun χ ρ) : Prop where
  code : r.code = .success
  phase : (({} : Decoder).read u).phase = .complete
  delivered : r.delivered = (({} : Decoder).read u).delivered
  leftover : r.left = (({} : Decoder).read u).leftover

section turn

variable {u : List Octet} {r : BodyRun χ ρ} {d : Decoder}

/-- What the call that is due comes to. -/
inductive Called (u : List Octet) (r : BodyRun χ ρ) : Prop where
  | waits (d' : Decoder) (code : r.call.code = .again) (follows : Follows u (r.after r.call) d')
      (idle : Idle d' r.call.input.unread) (suffix : r.call.input.unread <:+ r.input.unread)
  | lastChunk (d' : Decoder) (code : r.call.code = .success) (parsing : r.skippingTrailer = false)
      (size : r.call.chunkSize = some 0)
      (follows : Follows u { r.after r.call with skippingTrailer := true } d')
      (suffix : r.call.input.unread <:+ r.input.unread)
  | offers (d' : Decoder) (code : r.call.code = .success) (parsing : r.skippingTrailer = false)
      (follows : Follows u (r.after r.call) d') (phase : d'.phase = .data)
      (start : r.call.startingPosition = some r.call.input.readPosition)
      (size : r.call.chunkSize = some (min d'.remaining r.call.input.readable))
      (readable : r.call.input.isReadable = true)
      (suffix : r.call.input.unread <:+ r.input.unread)
  | ends (code : r.call.code = .success) (skipping : r.skippingTrailer = true)
      (ended : Ended u { r.after r.call with code := .success })

theorem ready_of_idle {w : List Octet} (idle : Idle d w) : Ready d w := by
  intro begun _ c first
  rw [idle.size true begun] at first
  cases first

theorem called (follows : Follows u r d) : Called u r := by
  cases skipping : r.skippingTrailer with
  | true =>
      have phase := follows.skipping.1 skipping
      have call : r.call = ⟨(skipTrailer r.parser r.input).code, (skipTrailer r.parser r.input).state,
          (skipTrailer r.parser r.input).input, none, none⟩ := by
        simp only [BodyRun.call, skipping, if_true]
      cases skipTrailer_skipped follows.decodes phase follows.wf with
      | waits code decodes advance idle =>
          refine .waits d (by rw [call]; exact code) ?_ (by rw [call]; exact idle)
            (by rw [call]; exact advance.suffix)
          rw [call]
          exact ⟨decodes, advance.wf, follows.whole, advance.read.symm.trans follows.read,
            follows.delivered, follows.leftover, ready_of_idle idle, follows.skipping, follows.more,
            follows.running⟩
      | ends code advance =>
          refine .ends (by rw [call]; exact code) skipping ?_
          have read : ({} : Decoder).read u = { d with
              phase := .complete
              leftover := (skipTrailer r.parser r.input).input.unread ++ r.pending } := by
            rw [← follows.whole, Decoder.read_append, ← follows.read, advance.read,
              ← Decoder.read_append, Decoder.read_complete rfl]
            simp only [follows.leftover, List.nil_append]
          rw [call]
          exact ⟨rfl, by rw [read], by rw [read]; exact follows.delivered.symm, by rw [read]; rfl⟩
  | false =>
      have call : r.call = parseBody r.parser r.input := by
        simp only [BodyRun.call, skipping, Bool.false_eq_true, if_false]
      have inside : ∀ line, d.phase ≠ .trailer line := fun line h => by
        have start := follows.decodes.lineStart line h
        rw [start] at h
        rw [follows.skipping.2 h] at skipping; cases skipping
      have parsed := parseBody_parsed follows.decodes follows.ready follows.wf inside follows.more
      rw [← call] at parsed
      cases parsed with
      | waits d' code decodes advance idle apart =>
          refine .waits d' code ⟨decodes, advance.wf, follows.whole,
            advance.read.symm.trans follows.read, advance.delivered.trans follows.delivered,
            advance.leftover.trans follows.leftover, ready_of_idle idle, ?_, ?_, follows.running⟩ idle
            advance.suffix
          · simp [BodyRun.after, skipping, apart]
          · intro complete
            refine idle.phase ?_
            rw [Decoder.read_complete complete, complete]
      | ends d' code decodes advance size phase =>
          refine .lastChunk d' code skipping size ⟨decodes, advance.wf, follows.whole,
            advance.read.symm.trans follows.read, advance.delivered.trans follows.delivered,
            advance.leftover.trans follows.leftover, ?_, ?_, ?_, follows.running⟩ advance.suffix
          · intro h; rw [phase] at h; cases h
          · simp [phase]
          · simp [phase]
      | offers d' code decodes advance phase start size readable =>
          refine .offers d' code skipping ⟨decodes, advance.wf, follows.whole,
            advance.read.symm.trans follows.read, advance.delivered.trans follows.delivered,
            advance.leftover.trans follows.leftover, ?_, ?_, ?_, follows.running⟩ phase start size
            readable advance.suffix
          · intro h; rw [phase] at h; cases h
          · simp [phase, BodyRun.after, skipping]
          · simp [phase]

theorem refill_follows (size : Nat) (follows : Follows u r d) (idle : Idle d r.input.unread)
    (refillable : Refillable r) :
    ∃ b, makeRoom r.input = some b ∧ b.isWritable = true ∧
      (r.refill size).pending = (receive size b r.pending).2 ∧
      (r.refill size).skippingTrailer = r.skippingTrailer ∧
      (r.refill size).left = r.left ∧ Follows u (r.refill size) d := by
  obtain ⟨b, made⟩ := Option.ne_none_iff_exists'.1 refillable.1
  obtain ⟨wf', unread, _, writable, _⟩ := makeRoom_spec follows.wf made
  obtain ⟨wf'', whole, _, _⟩ := receive_spec size wf' r.pending
  have filled : r.refill size = { r with
      input := (receive size b r.pending).1
      pending := (receive size b r.pending).2
      received := r.received ++ r.pending.take (min size b.writable) } := by
    simp only [BodyRun.refill, made]
  have arrived : (receive size b r.pending).1.unread =
      r.input.unread ++ r.pending.take (min size b.writable) := by
    simp only [receive, Buffer.fill_unread wf', unread]
  rw [filled]
  refine ⟨b, made, writable, rfl, rfl, by simp only [BodyRun.left, whole, unread],
    follows.decodes, wf'', ?_, ?_, follows.delivered, follows.leftover, ?_, follows.skipping,
    follows.more, follows.running⟩
  · simp only [receive, List.append_assoc, List.take_append_drop]
    exact follows.whole
  · rw [arrived, Decoder.read_append, follows.read, ← Decoder.read_append]
  · -- what arrives behind a size that is still zero is not white space
    intro begun zero c first
    have empty := idle.size true begun
    rw [arrived, empty, List.nil_append] at first
    have here : ({} : Decoder).read r.received = d := by rw [← follows.read, empty]; rfl
    have ready := refillable.2
    rw [here] at ready
    refine ready begun zero c ?_
    cases pending : r.pending with
    | nil => rw [pending, List.take_nil] at first; exact first
    | cons e rest =>
        rw [pending] at first
        cases n : min size b.writable with
        | zero => rw [n] at first; cases first
        | succ m => rw [n] at first; exact first

theorem consume_follows (size : Nat) {start offered : Nat} (follows : Follows u r d) (phase : d.phase = .data)
    (readable : r.input.isReadable = true) (at_ : start = r.input.readPosition)
    (within : offered = min d.remaining r.input.readable) :
    (r.consume size (some start) (some offered)).pending = r.pending ∧
      (r.consume size (some start) (some offered)).skippingTrailer = r.skippingTrailer ∧
      (r.consume size (some start) (some offered)).input.unread =
        r.input.unread.drop (min size offered) ∧
      ∃ d', Follows u (r.consume size (some start) (some offered)) d' := by
  have positive : 0 < offered := by
    have := follows.decodes.positive phase
    have : 0 < r.input.readable := by simpa [Buffer.isReadable] using readable
    omega
  obtain ⟨code, decodes, wf, _, left⟩ := consumeBody_spec follows.decodes phase follows.wf
    (n := min size offered) (by omega) (by omega)
  have bytes : (r.input.storage.drop start).take (min size offered) =
      r.input.unread.take (min size offered) := by
    have fits : min size offered ≤ r.input.writePosition - r.input.readPosition := by
      have : r.input.readable = r.input.writePosition - r.input.readPosition := rfl
      omega
    rw [at_, Buffer.unread, Buffer.written, List.drop_take, List.take_take, Nat.min_eq_left fits]
  have consumed : r.consume size (some start) (some offered) = { r with
      parser := (consumeBody r.parser r.input (min size offered)).state
      input := (consumeBody r.parser r.input (min size offered)).input
      delivered := r.delivered ++ r.input.unread.take (min size offered) } := by
    obtain ⟨n, rfl⟩ := Nat.exists_eq_succ_of_ne_zero (Nat.pos_iff_ne_zero.1 positive)
    simp only [BodyRun.consume, bytes, code, if_true]
  obtain ⟨delivers, leftover, phase'⟩ := Decoder.read_data_delivers phase
    (u := r.input.unread.take (min size offered)) (by rw [List.length_take]; omega)
  rw [consumed]
  refine ⟨rfl, rfl, left, d.read (r.input.unread.take (min size offered)), decodes, wf,
    follows.whole, ?_, ?_, ?_, ?_, ?_, ?_, follows.running⟩
  · rw [left, ← Decoder.read_append, List.take_append_drop]; exact follows.read
  · rw [delivers, follows.delivered]
  · rw [leftover, follows.leftover]
  · intro h; rcases phase' with phase' | phase' <;> rw [phase'] at h <;> cases h
  · have parsing : ¬ r.skippingTrailer = true := fun h => by
      have := follows.skipping.1 h; rw [phase] at this; cases this
    rcases phase' with phase' | phase' <;> simp [phase', parsing]
  · rcases phase' with phase' | phase' <;> simp [phase']

/-- The octets and the phase that a turn still has before it. -/
def BodyRun.toCome (r : BodyRun χ ρ) : Nat :=
  r.pending.length + r.left.length + (!r.skippingTrailer).toNat

/-- **One turn** goes on with a decoder that still follows, having come closer to the end
if it could, or ends where the decoder is complete. -/
theorem turn_follows {size : Nat} (follows : Follows u r d) (going : ¬ r.Over)
    (refillable : r.call.code = .again → Refillable (r.after r.call)) :
    (∃ d', Follows u (r.turn size) d' ∧ (0 < size → (r.turn size).toCome < r.toCome)) ∨
      Ended u (r.turn size) := by
  cases called follows with
  | waits d' code follows' idle suffix =>
      have some : 0 < r.pending.length :=
        List.length_pos_iff.2 fun none => going (.inr ⟨none, code⟩)
      obtain ⟨b, _, writable, pending, skipping, left, follows''⟩ :=
        refill_follows size follows' idle (refillable code)
      have turned : r.turn size = (r.after r.call).refill size := by
        simp only [BodyRun.turn, code, if_true]
      rw [turned]
      refine .inl ⟨d', follows'', fun positive => ?_⟩
      have shrinks := receive_pending positive writable r.pending
      have shorter := suffix.length_le
      simp only [BodyRun.toCome, left, skipping, pending]
      simp only [BodyRun.left, BodyRun.after, List.length_append]
      omega
  | lastChunk d' code parsing chunkSize follows' suffix =>
      have turned : r.turn size = { r.after r.call with skippingTrailer := true } := by
        simp [BodyRun.turn, code, parsing, BodyRun.consume, chunkSize]
      rw [turned]
      refine .inl ⟨d', follows', fun _ => ?_⟩
      have shorter := suffix.length_le
      simp only [BodyRun.toCome, BodyRun.left, BodyRun.after, List.length_append, parsing,
        Bool.not_true, Bool.not_false, Bool.toNat_true, Bool.toNat_false]
      omega
  | offers d' code parsing follows' phase start chunkSize readable suffix =>
      obtain ⟨pending, skipping, left, d'', follows''⟩ :=
        consume_follows size follows' phase readable rfl rfl
      have turned : r.turn size = (r.after r.call).consume size
          (some (r.after r.call).input.readPosition)
          (some (min d'.remaining (r.after r.call).input.readable)) := by
        simp only [BodyRun.turn, code, parsing, chunkSize, start, and_self, if_true, reduceCtorEq,
          if_false]
        rfl
      rw [turned]
      refine .inl ⟨d'', follows'', fun positive => ?_⟩
      have offered := follows'.decodes.positive phase
      have there : 0 < r.call.input.readable := by simpa [Buffer.isReadable] using readable
      have length := Buffer.unread_length follows'.wf
      have shorter := suffix.length_le
      simp only [BodyRun.toCome, BodyRun.left, pending, skipping, left, List.length_append,
        List.length_drop]
      simp only [BodyRun.after] at length ⊢
      omega
  | ends code skipping ended =>
      have turned : r.turn size = { r.after r.call with code := .success } := by
        simp [BodyRun.turn, code, skipping]
      rw [turned]
      exact .inr ended

end turn

/-! ## Runs -/

section runs

variable {u : List Octet} {r : BodyRun χ ρ} {d : Decoder}

/-- The loop has got where the decoder gets on all the octets: to the end of the body
with the same octets delivered and left over, or to the end of the input. -/
structure GetsAsFar (u : List Octet) (r : BodyRun χ ρ) : Prop where
  delivered : r.delivered = (({} : Decoder).read u).delivered
  result : (({} : Decoder).read u).phase = .complete ∧ r.code = .success ∧
      r.left = (({} : Decoder).read u).leftover ∨
    (({} : Decoder).read u).phase ≠ .complete ∧ r.code = .again

theorem getsAsFar_of_follows (follows : Follows u r d) (stopped : r.Over) : GetsAsFar u r := by
  obtain ⟨none, code⟩ := Or.resolve_left stopped fun ne => ne follows.running
  have all : r.received = u := by rw [← follows.whole, none, List.append_nil]
  cases called follows with
  | waits d' _ follows' idle _ =>
      have read : ({} : Decoder).read u = d'.read r.call.input.unread := by
        rw [← all]; exact follows'.read.symm
      refine ⟨?_, .inr ⟨by rw [read]; exact idle.phase, follows.running⟩⟩
      rw [read, idle.delivered]
      exact follows'.delivered.symm
  | lastChunk _ code' => rw [code'] at code; cases code
  | offers _ code' => rw [code'] at code; cases code
  | ends code' => rw [code'] at code; cases code

theorem getsAsFar_of_ended (ended : Ended u r) : GetsAsFar u r :=
  ⟨ended.delivered, .inl ⟨ended.phase, ended.code, ended.leftover⟩⟩

theorem receiveBody_of_over (sizes : List Nat) (stopped : r.Over) : receiveBody sizes r = r := by
  cases sizes with
  | nil => rfl
  | cons size sizes => simp only [receiveBody, stopped, if_true]

/-- **A run of the body loop gets as far as the decoder**, and does so within as many turns
as there are octets and phases to come. -/
theorem receiveBody_follows (sizes : List Nat) : ∀ (r : BodyRun χ ρ) (d : Decoder), Follows u r d →
    EveryRefill sizes r →
    ((receiveBody sizes r).Over → GetsAsFar u (receiveBody sizes r)) ∧
      ((∀ size ∈ sizes, 0 < size) → r.toCome < sizes.length → (receiveBody sizes r).Over) := by
  induction sizes with
  | nil =>
      intro r d follows _
      exact ⟨getsAsFar_of_follows follows, fun _ enough => absurd enough (Nat.not_lt_zero _)⟩
  | cons size sizes ih =>
      intro r d follows refills
      by_cases stopped : r.Over
      · rw [receiveBody_of_over _ stopped]
        exact ⟨getsAsFar_of_follows follows, fun _ _ => stopped⟩
      · obtain ⟨refillable, refills⟩ := refills stopped
        simp only [receiveBody, stopped, if_false]
        rcases turn_follows follows stopped refillable with ⟨d', follows', closer⟩ | ended
        · obtain ⟨far, ends⟩ := ih _ d' follows' refills
          refine ⟨far, fun positive enough => ends
            (fun n inside => positive n (List.mem_cons_of_mem size inside)) ?_⟩
          have := closer (positive size List.mem_cons_self)
          simp only [List.length_cons] at enough
          omega
        · have stopped : (r.turn size).Over := .inl (by rw [ended.code]; decide)
          rw [receiveBody_of_over _ stopped]
          exact ⟨fun _ => getsAsFar_of_ended ended, fun _ _ => stopped⟩

end runs

/-- The parser as `postParse` leaves it in front of a chunked body. -/
structure AtChunkedBody (s : HttpMessageParser χ ρ) : Prop where
  stage : s.stage = .headerParseComplete
  body : s.body = { chunkedBody := true, chunkSize := true }
  remaining : s.bodyBytesRemaining = 0

theorem follows_start {s : HttpMessageParser χ ρ} (at_ : AtChunkedBody s) {b : Buffer} (wf : b.WF)
    (pending : List Octet) : Follows (b.unread ++ pending) (BodyRun.start s b pending) {} where
  decodes := {
    stage := at_.stage
    body := at_.body
    remaining := at_.remaining
    bound := by decide
    zero := fun _ => rfl
    positive := fun h => by cases h
    lineStart := fun _ h => by cases h }
  wf := wf
  whole := rfl
  read := rfl
  delivered := rfl
  leftover := rfl
  ready h := by cases h
  skipping := by simp [BodyRun.start]
  more := by simp
  running := rfl

theorem turn_pending (size : Nat) {r : BodyRun χ ρ} (h : r.call.code ≠ .again) :
    (r.turn size).pending = r.pending := by
  simp only [BodyRun.turn, h, if_false]
  split
  · simp only [BodyRun.consume]
    split <;> rfl
  · rfl

/-- Where nothing is pending there is no read. -/
theorem everyRefill_of_nothing (sizes : List Nat) :
    ∀ r : BodyRun χ ρ, r.pending = [] → EveryRefill sizes r := by
  induction sizes with
  | nil => intro _ _; trivial
  | cons size sizes ih =>
      intro r none going
      have called : r.call.code ≠ .again := fun wants => going (.inr ⟨none, wants⟩)
      exact ⟨fun wants => absurd wants called, ih _ (by rw [turn_pending size called, none])⟩

theorem GetsAsFar.unique {u : List Octet} {r r' : BodyRun χ ρ} (h : GetsAsFar u r)
    (h' : GetsAsFar u r') :
    r.code = r'.code ∧ r.delivered = r'.delivered ∧ (r.code = .success → r.left = r'.left) := by
  refine ⟨?_, h.delivered.trans h'.delivered.symm, fun ended => ?_⟩
  · rcases h.result with ⟨phase, code, _⟩ | ⟨phase, code⟩ <;>
      rcases h'.result with ⟨phase', code', _⟩ | ⟨phase', code'⟩ <;>
      first
        | exact code.trans code'.symm
        | exact absurd phase phase'
        | exact absurd phase' phase
  · rcases h.result with ⟨phase, _, left⟩ | ⟨_, code⟩
    · rcases h'.result with ⟨_, _, left'⟩ | ⟨phase', _⟩
      · exact left.trans left'.symm
      · exact absurd phase phase'
    · rw [code] at ended; cases ended

/-- **Where every read is `Refillable`, neither the reads nor the pieces consumed show.**
The run ends like any run on a buffer that holds the whole body, with the same octets
delivered and left over; on a well-formed body these are the data of its chunks and
what follows it; and the run does end when each turn reads or consumes something. -/
theorem receiveBody_agrees (s : HttpMessageParser χ ρ) (at_ : AtChunkedBody s) (b : Buffer)
    (wf : b.WF) (pending : List Octet) (sizes : List Nat)
    (refills : EveryRefill sizes (BodyRun.start s b pending)) :
    let run := receiveBody sizes (BodyRun.start s b pending)
    (run.Over → ∀ whole : Buffer, whole.WF → whole.unread = b.unread ++ pending →
      ∀ sizes', let unsplit := receiveBody sizes' (BodyRun.start s whole [])
        unsplit.Over → run.code = unsplit.code ∧ run.delivered = unsplit.delivered ∧
          (run.code = .success → run.left = unsplit.left)) ∧
      (run.Over → ∀ (body : ChunkedBody) (rest : List Octet),
        b.unread ++ pending = body.encode ++ rest →
        run.code = .success ∧ run.delivered = body.data ∧ run.left = rest) ∧
      ((∀ size ∈ sizes, 0 < size) → 2 * (b.unread ++ pending).length + 1 < sizes.length →
        run.Over) := by
  obtain ⟨far, ends⟩ := receiveBody_follows sizes _ _ (follows_start at_ wf pending) refills
  refine ⟨fun stopped whole wf' unread sizes' stopped' => ?_, fun stopped body rest shape => ?_,
    fun positive enough => ends positive ?_⟩
  · have start := follows_start at_ wf' []
    rw [List.append_nil, unread] at start
    obtain ⟨far', _⟩ := receiveBody_follows sizes' _ _ start (everyRefill_of_nothing sizes' _ rfl)
    exact (far stopped).unique (far' stopped')
  · have read := Decoder.read_encode body rest
    obtain ⟨delivered, result⟩ := far stopped
    rw [shape, read] at delivered result
    rcases result with ⟨_, code, left⟩ | ⟨phase, _⟩
    · exact ⟨code, delivered, left⟩
    · exact absurd rfl phase
  · simp only [List.length_append] at enough
    simp only [BodyRun.toCome, BodyRun.start, BodyRun.left, List.length_append, Bool.not_false,
      Bool.toNat_true]
    omega

/-- A request parser in front of a chunked body. -/
def chunkedRequest : HttpRequestParser :=
  { HttpRequestParser.fresh (Buffer.create 64) with
    stage := .headerParseComplete, body := { chunkedBody := true, chunkSize := true } }

theorem chunkedRequest_at : AtChunkedBody chunkedRequest := ⟨rfl, rfl, rfl⟩

theorem receiveBody_agrees_split :
    let run := receiveBody [3, 1, 2, 2, 9, 9, 9, 9, 9] (BodyRun.start chunkedRequest (Buffer.create 8)
      (octets "2\r\nab\r\n0\r\n\r\n"))
    let unsplit := receiveBody [9, 9, 9, 9] (BodyRun.start chunkedRequest
      ((Buffer.create 64).fill (octets "2\r\nab\r\n0\r\n\r\n")) [])
    run.code = unsplit.code ∧ run.delivered = unsplit.delivered ∧
      (run.code = .success → run.left = unsplit.left) :=
  (receiveBody_agrees chunkedRequest chunkedRequest_at (Buffer.create 8)
    (Buffer.create_wf (by decide)) _ _ (by decide +kernel)).1 (by decide +kernel) _
    (Buffer.fill_wf (Buffer.create_wf (by decide)) (by decide +kernel)) (by decide +kernel) _
    (by decide +kernel)

/-- A read that ends after the digit of a zero size makes the digits behind the next space
the size. -/
theorem receiveBody_split_shows :
    let body := octets "0 2\r\nab\r\n0\r\n\r\n"
    let run := receiveBody [1, 20, 9, 9, 9, 9]
      (BodyRun.start chunkedRequest (Buffer.create 64) body)
    let unsplit := receiveBody [9, 9, 9, 9]
      (BodyRun.start chunkedRequest ((Buffer.create 64).fill body) [])
    run.Over ∧ run.code = .success ∧ run.delivered = octets "ab" ∧
      unsplit.Over ∧ unsplit.code = .success ∧ unsplit.delivered = [] := by
  decide

end Everscale
