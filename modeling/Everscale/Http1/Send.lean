/-
# Everscale.Http1.Send -- formatting a head through a send buffer

How the sockets drive `formatHeaders`: whenever it returns `ESB_AGAIN` part of the send
buffer goes to the connection, and `formatHeaders` is called again.  A run of that is
`sendHead`; each flush of it sends a prefix of the buffer that the schedule chooses.

`ConnectedSocket::send` compacts the buffer, which puts the write mark at its start.  An
element that is resumed then and does not fit rolls back to that mark, and takes with it
what earlier elements have put there (`sendHead_loses`).  `Harmless` says when this does not
happen, and `sendHead_agrees` that a run whose calls are all harmless sends what one call
would have written.
-/
import Everscale.Http1.HeadElements

namespace Everscale

set_option autoImplicit false

open Theory HttpUtil

variable {σ : Type}

/-- A head on its way out. -/
structure Sending (σ : Type) where
  code : Error := .again
  formatter : σ
  output : Buffer
  sent : List Octet := []
  deriving DecidableEq

namespace Sending

/-- What has left the formatter so far. -/
def formatted (s : Sending σ) : List Octet := s.sent ++ s.output.unread

/-- One call of the formatter. -/
def call (f : Formatter σ) (s : Sending σ) : Sending σ :=
  let o := f s.formatter s.output
  { s with code := o.code, formatter := o.state, output := o.output }

/-- Sends one octet more than `n`, or everything if there is less. -/
def flush (n : Nat) (s : Sending σ) : Sending σ :=
  let size := min (n + 1) s.output.unread.length
  { s with output := s.output.send size, sent := s.sent ++ s.output.unread.take size }

end Sending

/-- Calls the formatter until it does not ask for room any more, with a flush after every
call that does. -/
def sendHead (f : Formatter σ) : List Nat → Sending σ → Sending σ
  | [], s => s.call f
  | n :: rest, s =>
      if (s.call f).code = .again then sendHead f rest ((s.call f).flush n) else s.call f

/-- Every call of the run is made in a state `p`. -/
def EveryCall (p : Sending σ → Prop) (f : Formatter σ) : List Nat → Sending σ → Prop
  | [], s => p s
  | n :: rest, s => p s ∧ ((s.call f).code = .again → EveryCall p f rest ((s.call f).flush n))

instance decidableEveryCall (p : Sending σ → Prop) [DecidablePred p] (f : Formatter σ) :
    ∀ cuts s, Decidable (EveryCall p f cuts s)
  | [], s => inferInstanceAs (Decidable (p s))
  | n :: rest, s =>
      have := decidableEveryCall p f rest ((s.call f).flush n)
      inferInstanceAs (Decidable (_ ∧ (_ → _)))

/-- The element that the formatter goes on with sets the mark before it begins, or fits
behind what the buffer holds, or the buffer is empty. -/
def Harmless (plan : σ → Option (List Element)) (s : Sending σ) : Prop :=
  ∀ slots ∈ plan s.formatter, Resumes s.output.capacity slots s.output.unread

instance (plan : σ → Option (List Element)) : DecidablePred (Harmless plan) := fun s =>
  inferInstanceAs (Decidable (∀ slots ∈ plan s.formatter, _))

/-- One call into a buffer that is large enough writes `whole`. -/
def WritesAtOnce (f : Formatter σ) (s : σ) (whole : List Octet) : Prop :=
  ∃ large, large < 2 ^ 32 ∧ (f s (Buffer.create large)).code = .success ∧
    (f s (Buffer.create large)).output.unread = whole

section runs

variable {plan : σ → Option (List Element)} {f : Formatter σ}

/-- Between two calls nothing is lost: what has been sent, what is in the buffer and what
is left to format are the whole. -/
structure Underway (plan : σ → Option (List Element)) (capacity : Nat) (whole : List Octet)
    (s : Sending σ) (slots : List Element) (held : List Octet) : Prop where
  left : plan s.formatter = some slots
  fitting : Fitting capacity slots
  holds : Holds s.output held 0
  capacity_eq : s.output.capacity = capacity
  whole_eq : s.sent ++ held ++ remaining slots = whole

/-- What a run has come to: it has sent or holds all of the head, or it asks for room with
the head incomplete and something to send. -/
structure Reached (whole : List Octet) (s : Sending σ) : Prop where
  code : s.code = .success ∨ s.code = .again
  complete : s.code = .success → s.formatted = whole
  partly : s.code = .again → s.formatted <+: whole ∧ s.output.unread ≠ []

theorem Underway.call {capacity : Nat} {whole : List Octet} {s : Sending σ} {slots : List Element}
    {held : List Octet} (u : Underway plan capacity whole s slots held)
    (emits : Emits plan (f s.formatter) slots) (harmless : Harmless plan s) :
    Reached whole (s.call f) ∧ ((s.call f).code = .again → ∃ rest held' mark,
      plan (s.call f).formatter = some rest ∧ Fitting capacity rest ∧
      Holds (s.call f).output held' mark ∧ (s.call f).output.capacity = capacity ∧
      (s.call f).sent = s.sent ∧ s.sent ++ held' ++ remaining rest = whole) := by
  have came := emits s.output held 0 u.holds
  have resumes := harmless slots u.left
  rw [u.capacity_eq, u.holds.unread] at resumes
  rw [u.capacity_eq] at came
  cases outcome : emit capacity slots held 0 with
  | done held' =>
      rw [outcome] at came
      obtain ⟨code, _, mark, holds⟩ := came
      have complete : (s.call f).formatted = whole := by
        rw [Sending.formatted, show (s.call f).output = (f s.formatter s.output).output from rfl,
          holds.unread, (emit_done outcome).1, ← List.append_assoc]
        exact u.whole_eq
      have different : (s.call f).code ≠ .again := fun again => by
        rw [show (s.call f).code = Error.success from code] at again; cases again
      exact ⟨⟨.inl code, fun _ => complete, fun again => absurd again different⟩,
        fun again => absurd again different⟩
  | again rest held' mark =>
      rw [outcome] at came
      obtain ⟨code, capacity', left, holds⟩ := came
      obtain ⟨same, some, fitting⟩ := emit_keeps u.fitting resumes outcome
      have whole_eq : s.sent ++ held' ++ remaining rest = whole := by
        rw [List.append_assoc, same, ← List.append_assoc, u.whole_eq]
      have unread : (s.call f).output.unread = held' := holds.unread
      refine ⟨⟨.inr code, fun success => ?_, fun _ => ⟨?_, by rwa [unread]⟩⟩, fun _ =>
        ⟨rest, held', mark, left, fitting, holds, capacity', rfl, whole_eq⟩⟩
      · rw [show (s.call f).code = Error.again from code] at success; cases success
      · exact ⟨remaining rest, by rw [Sending.formatted, unread]; exact whole_eq⟩
  | failed => exact absurd outcome (emit_ne_failed u.fitting)

/-- A flush sends something and loses nothing. -/
theorem Underway.flush {capacity : Nat} {whole : List Octet} {s : Sending σ} {slots : List Element}
    {held : List Octet} {mark : Nat} (left : plan s.formatter = some slots)
    (fitting : Fitting capacity slots) (holds : Holds s.output held mark)
    (capacity_eq : s.output.capacity = capacity) (some : held ≠ [])
    (whole_eq : s.sent ++ held ++ remaining slots = whole) (n : Nat) :
    s.sent.length < (s.flush n).sent.length ∧
      ∃ held', Underway plan capacity whole (s.flush n) slots held' := by
  have positive : 0 < held.length := List.length_pos_iff.2 some
  have sends : 0 < min (n + 1) held.length := by omega
  obtain ⟨holds', capacity'⟩ := holds.send sends (Nat.min_le_right _ _)
  have flushed : s.flush n = { s with
      output := s.output.send (min (n + 1) held.length)
      sent := s.sent ++ held.take (min (n + 1) held.length) } := by
    rw [Sending.flush, holds.unread]
  rw [flushed]
  refine ⟨by simp only [List.length_append, List.length_take]; omega, _, left, fitting, holds',
    capacity'.trans capacity_eq, ?_⟩
  rw [← whole_eq]
  simp only [List.append_assoc, List.append_cancel_left_eq]
  rw [← List.append_assoc, List.take_append_drop]

/-- **Along a run whose calls are harmless nothing is lost**, and each flush sends
something. -/
theorem sendHead_reached {capacity : Nat} {whole : List Octet}
    (emits : ∀ s slots, plan s = some slots → Emits plan (f s) slots) (cuts : List Nat) :
    ∀ (s : Sending σ) (slots : List Element) (held : List Octet),
      Underway plan capacity whole s slots held → EveryCall (Harmless plan) f cuts s →
      Reached whole (sendHead f cuts s) ∧
        ((sendHead f cuts s).code = .again →
          s.sent.length + cuts.length ≤ (sendHead f cuts s).sent.length) := by
  induction cuts with
  | nil =>
      intro s slots held u harmless
      exact ⟨(u.call (emits _ _ u.left) harmless).1, fun _ => Nat.le_refl _⟩
  | cons n cuts ih =>
      intro s slots held u ⟨harmless, later⟩
      obtain ⟨reached, goesOn⟩ := u.call (emits _ _ u.left) harmless
      rw [sendHead]
      split
      · rename_i again
        obtain ⟨rest, held', mark, left, fitting, holds, capacity_eq, sent, whole_eq⟩ := goesOn again
        have some : held' ≠ [] := by rw [← holds.unread]; exact (reached.partly again).2
        obtain ⟨more, held'', u'⟩ :=
          Underway.flush left fitting holds capacity_eq some (sent ▸ whole_eq) n
        obtain ⟨reached', longer⟩ := ih _ _ _ u' (later again)
        refine ⟨reached', fun again' => ?_⟩
        have := longer again'
        rw [sent] at more
        rw [List.length_cons]
        omega
      · rename_i stopped
        exact ⟨reached, fun again => absurd again stopped⟩

/-- The elements of a head that one call can write, and that each fit the buffer. -/
theorem fitting_of_atOnce {capacity : Nat} {whole : List Octet} {s : σ} {slots : List Element}
    (emits : Emits plan (f s) slots) (atOnce : WritesAtOnce f s whole) (some : 0 < capacity)
    (fits : ∀ slot ∈ slots, slot.octets.length ≤ capacity) :
    Fitting capacity slots ∧ remaining slots = whole := by
  obtain ⟨large, small, code, unread⟩ := atOnce
  have came := emits (Buffer.create large) [] 0 (Holds.create small)
  rw [Buffer.create_capacity] at came
  cases outcome : emit large slots [] 0 with
  | done held =>
      rw [outcome] at came
      obtain ⟨_, _, mark, holds⟩ := came
      obtain ⟨written, accepted⟩ := emit_done outcome
      rw [holds.unread, written] at unread
      exact ⟨⟨some, accepted, fits⟩, unread⟩
  | again rest held mark =>
      rw [outcome] at came
      rw [came.1] at code
      cases code
  | failed =>
      rw [outcome] at came
      exact absurd code came

theorem sendHead_fresh {capacity : Nat} {whole : List Octet} {s : σ} {slots : List Element}
    (emits : ∀ s slots, plan s = some slots → Emits plan (f s) slots) (small : capacity < 2 ^ 32)
    (left : plan s = some slots) (atOnce : WritesAtOnce f s whole) (some : 0 < capacity)
    (fits : ∀ slot ∈ slots, slot.octets.length ≤ capacity) (cuts : List Nat)
    (harmless : EveryCall (Harmless plan) f cuts ⟨.again, s, Buffer.create capacity, []⟩) :
    let run := sendHead f cuts ⟨.again, s, Buffer.create capacity, []⟩
    Reached whole run ∧ (whole.length ≤ cuts.length → run.code = .success) := by
  obtain ⟨fitting, whole_eq⟩ := fitting_of_atOnce (emits s slots left) atOnce some fits
  have underway : Underway plan capacity whole
      (⟨.again, s, Buffer.create capacity, []⟩ : Sending σ) slots [] :=
    ⟨left, fitting, Holds.create small, Buffer.create_capacity capacity, whole_eq⟩
  obtain ⟨reached, longer⟩ := sendHead_reached emits cuts _ _ _ underway harmless
  refine ⟨reached, fun enough => reached.code.resolve_right fun again => ?_⟩
  obtain ⟨more, nonempty⟩ := reached.partly again
  have sent := longer again
  have within := more.length_le
  have held := List.length_pos_iff.2 nonempty
  simp only [Sending.formatted, List.length_append, List.length_nil] at within sent
  omega

/-- **Elsewhere a call loses all that the buffer holds.** -/
theorem sendHead_loses {capacity : Nat} {whole : List Octet} {s : Sending σ} {slots : List Element}
    {held : List Octet} (u : Underway plan capacity whole s slots held)
    (emits : Emits plan (f s.formatter) slots) (harmful : ¬ Harmless plan s) :
    held ≠ [] ∧ (s.call f).code = .again ∧ (s.call f).output.unread = [] ∧
      (s.call f).sent = s.sent := by
  have lost : ¬ Resumes capacity slots held := fun resumes => harmful fun slots' left' => by
    rw [u.left] at left'
    cases left'
    rw [u.capacity_eq, u.holds.unread]
    exact resumes
  obtain ⟨outcome, some⟩ := emit_loses u.fitting lost
  have came := emits s.output held 0 u.holds
  rw [u.capacity_eq, outcome] at came
  exact ⟨some, came.1, came.2.2.2.unread, rfl⟩

end runs

/-! ## Requests and responses -/

/-- **Where each resumed element fits, sets the mark itself or finds the buffer empty, the
flushes do not show.**  Nothing is lost, duplicated or reordered on the way, every call
that asks for room leaves something to send, and the head is complete after as many
flushes as it has octets. -/
theorem sendHead_agrees (capacity : Nat) (small : capacity < 2 ^ 32) (some : 0 < capacity)
    (cuts : List Nat) (whole : List Octet) :
    (∀ request : HttpRequest,
      let f := HttpRequestFormatter.formatHeaders request
      let start := ⟨.again, HttpRequestFormatter.fresh, Buffer.create capacity, []⟩
      WritesAtOnce f HttpRequestFormatter.fresh whole →
      (∀ slot ∈ HttpRequestFormatter.headElements request, slot.octets.length ≤ capacity) →
      EveryCall (Harmless (HttpRequestFormatter.elements request)) f cuts start →
        Reached whole (sendHead f cuts start) ∧
          (whole.length ≤ cuts.length → (sendHead f cuts start).code = .success)) ∧
      ∀ response : HttpResponse,
        let f := HttpResponseFormatter.formatHeaders response
        let start := ⟨.again, HttpResponseFormatter.fresh, Buffer.create capacity, []⟩
        WritesAtOnce f HttpResponseFormatter.fresh whole →
        (∀ slot ∈ HttpResponseFormatter.headElements response, slot.octets.length ≤ capacity) →
        EveryCall (Harmless (HttpResponseFormatter.elements response)) f cuts start →
          Reached whole (sendHead f cuts start) ∧
            (whole.length ≤ cuts.length → (sendHead f cuts start).code = .success) :=
  ⟨fun request atOnce fits =>
    sendHead_fresh (fun _ _ left => HttpMessageFormatter.formatHeaders_emits _ _ _ left) small
      (HttpRequestFormatter.elements_fresh request) atOnce some fits cuts,
    fun response atOnce fits =>
      sendHead_fresh (fun _ _ left => HttpMessageFormatter.formatHeaders_emits _ _ _ left) small
        (HttpResponseFormatter.elements_fresh response) atOnce some fits cuts⟩

/-- `GET /`, without headers. -/
def bareRequest : HttpRequest :=
  { startLine := { method := some (octets "GET"), requestUri := { absPath := some (octets "/") } } }

def bareHead : List Octet := octets "GET / HTTP/1.1\r\n\r\n"

theorem bareRequest_writesAtOnce :
    WritesAtOnce (HttpRequestFormatter.formatHeaders bareRequest) HttpRequestFormatter.fresh
      bareHead :=
  ⟨64, by decide, by decide⟩

theorem bareRequest_fits :
    ∀ slot ∈ HttpRequestFormatter.headElements bareRequest, slot.octets.length ≤ 12 := by
  decide

theorem sendHead_agrees_flushed :
    Reached bareHead (sendHead (HttpRequestFormatter.formatHeaders bareRequest) [3, 9]
      ⟨.again, HttpRequestFormatter.fresh, Buffer.create 12, []⟩) :=
  ((sendHead_agrees 12 (by decide) (by decide) [3, 9] bareHead).1 bareRequest
    bareRequest_writesAtOnce bareRequest_fits (by decide)).1

/-- When one octet of `GET /` has been sent, the version does not fit behind the other
four, and they are gone.  The head that is sent in the end lacks them. -/
theorem sendHead_drops :
    WritesAtOnce (HttpRequestFormatter.formatHeaders bareRequest) HttpRequestFormatter.fresh
        bareHead ∧
      (∀ slot ∈ HttpRequestFormatter.headElements bareRequest, slot.octets.length ≤ 12) ∧
      let run cuts := sendHead (HttpRequestFormatter.formatHeaders bareRequest) cuts
        ⟨.again, HttpRequestFormatter.fresh, Buffer.create 12, []⟩
      ((run []).code = .again ∧ (run []).formatted = octets "GET /") ∧
        ((run [0]).code = .again ∧ (run [0]).sent = octets "G" ∧ (run [0]).output.unread = []) ∧
        (run [0, 0, 10, 0]).code = .success ∧
          (run [0, 0, 10, 0]).formatted = octets "G HTTP/1.1\r\n\r\n" :=
  ⟨bareRequest_writesAtOnce, bareRequest_fits, by decide⟩

end Everscale
