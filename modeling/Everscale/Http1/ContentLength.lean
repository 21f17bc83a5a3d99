/-
# Everscale.Http1.ContentLength -- bodies of a given length

A body that is not chunked is counted down: `parseBody` offers what is readable up to what
remains, and `consumeBody` takes some of it.  Whatever the buffers and the pieces, the end is
reported when as many octets were taken as the head had promised (`CountedDown.delivers`).

`ParseInteger` takes an empty value for zero and counts modulo `2 ^ 64`, and of several lengths
the last one is taken; `lengths_exact_iff` says that nothing else goes wrong.
-/
import Everscale.Http1.BodyStream
import Everscale.Http1.Framing

namespace Everscale

set_option autoImplicit false

open Theory HttpUtil

namespace HttpMessageParser

variable {χ ρ : Type}

/-- The parser after some calls of `parseBody`, each followed by a `consumeBody` of part of what
it offered, and the number of octets that were taken.  The buffers may be any. -/
inductive BodyRun (first : HttpMessageParser χ ρ) : HttpMessageParser χ ρ → Nat → Prop where
  | start : BodyRun first first 0
  | waited {s n b} : BodyRun first s n → (parseBody s b).code = .again → BodyRun first (parseBody s b).state n
  | consumed {s n b size taken} : BodyRun first s n → (parseBody s b).code = .success →
      (parseBody s b).chunkSize = some size → 0 < size → taken ≤ size →
      BodyRun first (consumeBody (parseBody s b).state (parseBody s b).input taken).state (n + taken)

/-- At every point of every run, a call on a buffer with something to read reports the end if and
only if `length` octets were taken, and offers octets otherwise. -/
def DeliversExactly (first : HttpMessageParser χ ρ) (length : Nat) : Prop :=
  ∀ s n, BodyRun first s n → n ≤ length ∧ ∀ b : Buffer, b.isReadable = true →
    (parseBody s b).code = .success ∧ ((parseBody s b).chunkSize = some 0 ↔ n = length)

section run

variable {first s : HttpMessageParser χ ρ} {length n : Nat}

/-- Where the parser stands in a body of this length when `n` octets were taken. -/
structure CountedDown (length : Nat) (s : HttpMessageParser χ ρ) (n : Nat) : Prop where
  stage : s.stage = .headerParseComplete
  flags : s.body = { unencodedBody := true, bodyParseComplete := s.body.bodyParseComplete }
  complete : s.body.bodyParseComplete = true ↔ n = length ∧ 0 < length
  inside : n ≤ length
  bound : length < 2 ^ 64
  remaining : s.bodyBytesRemaining = length - n

theorem CountedDown.parseBody_eq (h : CountedDown length s n) (b : Buffer) :
    parseBody s b = parseUnencodedBody s b := by
  have unencoded : s.body.unencodedBody = true := by rw [h.flags]
  rw [parseBody, if_neg (not_not.mpr h.stage), unencoded, Bool.true_or, if_pos rfl]

theorem CountedDown.parsed (h : CountedDown length s n) {b : Buffer} (readable : b.isReadable = true) :
    (parseBody s b).code = .success ∧ ((parseBody s b).chunkSize = some 0 ↔ n = length) ∧
      (n < length → parseBody s b = offer s b) := by
  rw [h.parseBody_eq, parseUnencodedBody]
  by_cases complete : s.body.bodyParseComplete = true
  · rw [if_pos complete]
    have all := (h.complete.mp complete).1
    exact ⟨rfl, iff_of_true rfl all, fun more => absurd all (Nat.ne_of_lt more)⟩
  · rw [if_neg complete, if_neg (by simp [readable]), offer]
    refine ⟨rfl, ?_, fun _ => rfl⟩
    have some : 0 < b.readable := by simpa [Buffer.isReadable] using readable
    have inside := h.inside
    dsimp only
    rw [h.remaining, Option.some.injEq]
    omega

theorem CountedDown.waits (h : CountedDown length s n) {b : Buffer} (again : (parseBody s b).code = .again) :
    (parseBody s b).state = s := by
  rw [h.parseBody_eq, parseUnencodedBody] at again ⊢
  split_ifs at again ⊢ with complete readable
  · rfl
  · rfl

/-- What was offered is at most what remains, and nothing is offered behind the end. -/
theorem CountedDown.offered (h : CountedDown length s n) {b : Buffer} {size : Nat}
    (success : (parseBody s b).code = .success) (offers : (parseBody s b).chunkSize = some size) (some : 0 < size) :
    (parseBody s b).state = s ∧ size ≤ length - n := by
  rw [h.parseBody_eq, parseUnencodedBody] at success offers ⊢
  split_ifs at success offers ⊢ with complete readable
  · obtain rfl := Option.some.inj offers
    exact absurd some (Nat.lt_irrefl 0)
  · obtain rfl := Option.some.inj offers
    exact ⟨rfl, h.remaining ▸ Nat.min_le_left _ _⟩

theorem CountedDown.consumed (h : CountedDown length s n) {taken : Nat} (inside : taken ≤ length - n)
    (before : n < length) (b : Buffer) : CountedDown length (consumeBody s b taken).state (n + taken) := by
  have bound := h.bound
  have rest : lessConsumed s.bodyBytesRemaining taken = length - (n + taken) := by
    rw [h.remaining, lessConsumed_eq (by omega) inside, Nat.sub_sub]
  have unencoded : s.body.unencodedBody = true := by rw [h.flags]
  have single : s.body.multipartBody = false := by rw [h.flags]
  have incomplete : s.body.bodyParseComplete = false := by
    refine Bool.eq_false_iff.mpr fun complete => ?_
    have := (h.complete.mp complete).1
    omega
  unfold consumeBody
  dsimp only
  rw [rest, if_neg (not_not.mpr h.stage), single, if_neg Bool.false_ne_true, unencoded, Bool.true_or, if_pos rfl]
  by_cases all : length - (n + taken) = 0
  · rw [if_pos all]
    refine ⟨h.stage, ?_, iff_of_true rfl (by omega), by omega, bound, rfl⟩
    rw [h.flags]
  · rw [if_neg all]
    refine ⟨h.stage, h.flags, ?_, by omega, bound, rfl⟩
    exact iff_of_false (by simpa using incomplete) (by omega)

theorem BodyRun.countedDown (start : CountedDown length first 0) (run : BodyRun first s n) :
    CountedDown length s n := by
  induction run with
  | start => exact start
  | waited _ again ih => exact (ih.waits again).symm ▸ ih
  | @consumed s n b size taken _ success offers some inside ih =>
      obtain ⟨same, fits⟩ := ih.offered success offers some
      rw [same]
      exact ih.consumed (inside.trans fits) (by omega) _

theorem CountedDown.delivers (start : CountedDown length first 0) : DeliversExactly first length := by
  intro s n run
  have here := run.countedDown start
  exact ⟨here.inside, fun b readable => ⟨(here.parsed readable).1, (here.parsed readable).2.1⟩⟩

/-- One octet at a time, any part of the body can be taken. -/
theorem CountedDown.run_exists (start : CountedDown length first 0) (le : n ≤ length) :
    ∃ s, BodyRun first s n := by
  induction n with
  | zero => exact ⟨first, .start⟩
  | succ n ih =>
      obtain ⟨s, run⟩ := ih (by omega)
      let b := (Buffer.create 1).fill [0]
      obtain ⟨success, -, offers⟩ := (run.countedDown start).parsed (show b.isReadable = true by decide)
      have one : (parseBody s b).chunkSize = some 1 := by
        rw [offers (by omega), offer]
        have remains := (run.countedDown start).remaining
        have readable : b.readable = 1 := by decide
        dsimp only
        rw [remains, readable, Nat.min_eq_right (by omega)]
      exact ⟨_, .consumed run success one Nat.one_pos (Nat.le_refl 1)⟩

/-- A body has one length. -/
theorem CountedDown.delivers_iff (start : CountedDown length first 0) (other : Nat) :
    DeliversExactly first other ↔ other = length := by
  constructor
  · intro delivers
    obtain ⟨s, run⟩ := start.run_exists (Nat.le_refl length)
    let b := (Buffer.create 1).fill [0]
    have readable : b.isReadable = true := by decide
    have ended := ((start.delivers s length run).2 b readable).2.mpr rfl
    exact (((delivers s length run).2 b readable).2.mp ended).symm
  · rintro rfl
    exact start.delivers

end run

/-- Where the parser stands when a head with a length was accepted. -/
theorem Frames.countedDown {bodyNotAllowed : Bool} {s₀ s' : HttpMessageParser χ ρ} (frames : Frames bodyNotAllowed s₀ s')
    (stage : s'.stage = .headerParseComplete) {n : Nat} (framed : s'.framing = .length n) (bound : n < 2 ^ 64) :
    CountedDown n s' 0 := by
  have flags : s'.body = { unencodedBody := true } := by
    have all := frames.flags
    rwa [framed] at all
  have remaining : s'.bodyBytesRemaining = n := by
    rw [HttpMessageParser.framing, flags] at framed
    exact Framing.length.inj framed
  refine ⟨stage, ?_, ?_, Nat.zero_le n, bound, remaining⟩
  · rw [flags]
  · rw [flags]
    exact iff_of_false (by simp) (by omega)

/-! ## Accepted lengths -/

/-- Every Content-Length of the head is a non-empty run of digits below `2 ^ 64`, and unless the
body is chunked it is the number of octets that are delivered before the end is reported. -/
def LengthsExact (s : HttpMessageParser χ ρ) : Prop :=
  ∀ value ∈ valuesOf "Content-Length" s.message.headers,
    (cstr value ≠ [] ∧ (cstr value).all isDigit = true ∧ decimal (cstr value) < 2 ^ 64) ∧
      (s.framing ≠ .chunked → DeliversExactly s (decimal (cstr value)))

/-- No value is empty or too large, and unless the message is taken for chunked they are all one
number. -/
def LengthsPlain (headers : List HttpHeader) : Prop :=
  (∀ value ∈ valuesOf "Content-Length" headers, cstr value ≠ [] ∧ decimal (cstr value) < 2 ^ 64) ∧
    (takenForChunked headers = false → LengthsAgree headers)

theorem lengths_exact_iff {bodyNotAllowed : Bool} {s₀ s' : HttpMessageParser χ ρ}
    (frames : Frames bodyNotAllowed s₀ s') (stage : s'.stage = .headerParseComplete) :
    LengthsExact s' ↔ LengthsPlain s'.message.headers := by
  have framed := frames.framing
  have read := frames.lengthsRead
  rw [← frames.headers] at framed read
  have digits : ∀ value ∈ valuesOf "Content-Length" s'.message.headers, (cstr value).all isDigit = true :=
    fun value member => (ParseInteger_spec value).1.mp (read value member)
  unfold LengthsExact LengthsPlain
  by_cases taken : takenForChunked s'.message.headers = true
  · have chunked : s'.framing = .chunked := framed.trans (chosenFraming_taken taken)
    constructor
    · intro exactly
      exact ⟨fun value member => ⟨(exactly value member).1.1, (exactly value member).1.2.2⟩,
        fun plain => by cases plain.symm.trans taken⟩
    · intro plain value member
      exact ⟨⟨(plain.1 value member).1, digits value member, (plain.1 value member).2⟩,
        fun other => absurd chunked other⟩
  · have plain := Bool.eq_false_iff.mpr taken
    cases last : (valuesOf "Content-Length" s'.message.headers).getLast? with
    | none =>
        have absent := List.getLast?_eq_none_iff.mp last
        rw [LengthsAgree, absent]
        exact iff_of_true (by simp) (by simp)
    | some final =>
        have length := framed.trans (chosenFraming_last plain last)
        have start := frames.countedDown stage length (Nat.mod_lt _ (by decide))
        have delivers : ∀ value, (s'.framing ≠ .chunked → DeliversExactly s' (decimal (cstr value))) ↔
            s'.framing = .length (decimal (cstr value)) := fun value => by
          rw [forall_prop_of_true (by simp [length]), start.delivers_iff, length, Framing.length.injEq,
            eq_comm]
        have agree := lengthExact_iff plain (List.ne_nil_of_mem (List.mem_of_getLast? last)) bodyNotAllowed
        rw [← framed] at agree
        constructor
        · intro exactly
          exact ⟨fun value member => ⟨(exactly value member).1.1, (exactly value member).1.2.2⟩,
            fun _ => agree.mp fun value member => (delivers value).mp (exactly value member).2⟩
        · intro conditions value member
          exact ⟨⟨(conditions.1 value member).1, digits value member, (conditions.1 value member).2⟩,
            (delivers value).mpr (agree.mpr (conditions.2 plain) value member)⟩

/-- For requests and for responses: the lengths of an accepted head are exact under exactly this
condition. -/
theorem accepted_lengths_exact_iff (working : Buffer) :
    (∀ s', Accepts HttpRequestParser.methods (HttpRequestParser.fresh working) s' →
      (LengthsExact s' ↔ LengthsPlain s'.message.headers)) ∧
    (∀ s', Accepts HttpResponseParser.methods (HttpResponseParser.fresh working) s' →
      (LengthsExact s' ↔ LengthsPlain s'.message.headers)) := by
  constructor
  · intro s' accepts
    obtain ⟨s₀, frames, -, stage⟩ := accepted_frames HttpRequestParser.knowsVersion
      (fun line => HttpRequestParser.isBodyNotAllowed { startLine := line }) (fun _ => rfl)
      (HttpRequestParser.fresh_unfinished working) accepts
    exact lengths_exact_iff frames stage
  · intro s' accepts
    obtain ⟨s₀, frames, -, stage⟩ := accepted_frames HttpResponseParser.knowsVersion
      (fun line => HttpResponseParser.isBodyNotAllowed { startLine := line }) (fun _ => rfl)
      (HttpResponseParser.fresh_unfinished working) accepts
    exact lengths_exact_iff frames stage

end HttpMessageParser

open HttpMessageParser in
theorem lengths_exact_for_five :
    (LengthsExact (HttpRequestParser.readHead "POST / HTTP/1.1\r\nContent-Length: 5\r\n\r\n") ↔
      LengthsPlain (HttpRequestParser.readHead "POST / HTTP/1.1\r\nContent-Length: 5\r\n\r\n").message.headers) ∧
    (LengthsExact (HttpResponseParser.readHead "HTTP/1.1 200 OK\r\nContent-Length: 5\r\n\r\n") ↔
      LengthsPlain (HttpResponseParser.readHead "HTTP/1.1 200 OK\r\nContent-Length: 5\r\n\r\n").message.headers) :=
  ⟨(accepted_lengths_exact_iff (Buffer.create 64)).1 _ (accepts_at_once (by decide)),
    (accepted_lengths_exact_iff (Buffer.create 64)).2 _ (accepts_at_once (by decide))⟩

/-- `2 ^ 64 + 5` is read as 5, no digits as zero, and of two lengths the last is taken. -/
theorem length_wraps :
    (HttpRequestParser.readHead "POST / HTTP/1.1\r\nContent-Length: 18446744073709551621\r\n\r\n").stage =
        .headerParseComplete ∧
      (HttpRequestParser.readHead "POST / HTTP/1.1\r\nContent-Length: 18446744073709551621\r\n\r\n").framing =
        .length 5 ∧
      decimal (octets "18446744073709551621") = 2 ^ 64 + 5 ∧
    (HttpRequestParser.readHead "POST / HTTP/1.1\r\nContent-Length:\r\n\r\n").stage = .headerParseComplete ∧
      (HttpRequestParser.readHead "POST / HTTP/1.1\r\nContent-Length:\r\n\r\n").framing = .length 0 ∧
    (HttpRequestParser.readHead
        "POST / HTTP/1.1\r\nContent-Length: 5\r\nContent-Length: 6\r\n\r\n").framing = .length 6 := by
  decide

end Everscale
