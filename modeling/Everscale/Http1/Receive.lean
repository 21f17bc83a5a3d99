/-
# Everscale.Http1.Receive -- parsing headers as they arrive

The sockets call `parseHeaders` on a receive buffer, and when it asks for more they
make room if the buffer is full (`fillReceiveBuffer`), read what the transport has
and call again.  `receiveHeaders` is that loop.  The transport is a list of octets
still to be delivered and a schedule: at most how many octets each read returns.

`receiveHeaders_agrees` compares a run of the loop with one call on a buffer that holds
everything.  It asks that the octets fit (`Fits`: the buffer never jams) and that no
read ends where the cut shows (`EveryCut`).
-/
import Everscale.Http1.RequestStream
import Everscale.Http1.ResponseStream

namespace Everscale

set_option autoImplicit false

open Theory HttpUtil HttpMessageParser

/-- `fillReceiveBuffer` up to the read: a full buffer is compacted; `none` when that
gains nothing. -/
def makeRoom (b : Buffer) : Option Buffer :=
  if b.isWritable then some b else if b.compact.1 then some b.compact.2 else none

/-- `ConnectedSocket::receive` when the transport returns at most `size` of the octets
that are pending. -/
def receive (size : Nat) (b : Buffer) (pending : List Octet) : Buffer × List Octet :=
  let count := min size b.writable
  (b.fill (pending.take count), pending.drop count)

/-- Where a run of the receive loop stands. -/
structure Receiving (σ : Type) where
  code : Error
  state : σ
  input : Buffer
  pending : List Octet
  deriving DecidableEq

namespace Receiving

variable {σ : Type}

/-- What has not been consumed: the unread octets and those not delivered. -/
def left (r : Receiving σ) : List Octet := r.input.unread ++ r.pending

/-- A run as an outcome over the octets that it has not consumed. -/
def outcome (r : Receiving σ) : Outcome Error σ (List Octet) := ⟨r.code, r.state, r.left⟩

/-- A run is over when the parser does not ask for more or nothing is pending. -/
def Over (r : Receiving σ) : Prop := r.code ≠ .again ∨ r.pending = []

instance (r : Receiving σ) : Decidable r.Over := inferInstanceAs (Decidable (_ ∨ _))

end Receiving

/-- Reads and parses for as long as the parser asks for more and the schedule lasts. -/
def receiveHeaders {σ : Type} (f : Reader σ) : List Nat → σ → Buffer → List Octet → Receiving σ
  | [], s, b, pending => ⟨.again, s, b, pending⟩
  | size :: sizes, s, b, pending =>
      match makeRoom b with
      | none => ⟨.overflow, s, b, pending⟩
      | some b =>
          let (b, pending) := receive size b pending
          let o := f s b
          if o.code = .again then receiveHeaders f sizes o.state o.input pending
          else ⟨o.code, o.state, o.input, pending⟩

/-- At the end of each read the parser goes into, the state it is in and the octets that
follow satisfy `safe`. -/
def EveryCut {σ : Type} (safe : σ → List Octet → Prop) (f : Reader σ) :
    List Nat → σ → Buffer → List Octet → Prop
  | [], _, _, _ => True
  | size :: sizes, s, b, pending =>
      match makeRoom b with
      | none => True
      | some b =>
          let (b, pending) := receive size b pending
          let o := f s b
          o.code = .again →
            safe o.state (o.input.unread ++ pending) ∧ EveryCut safe f sizes o.state o.input pending

instance decidableEveryCut {σ : Type} (safe : σ → List Octet → Prop)
    [∀ s u, Decidable (safe s u)] (f : Reader σ) :
    ∀ sizes s b pending, Decidable (EveryCut safe f sizes s b pending)
  | [], _, _, _ => .isTrue trivial
  | size :: sizes, s, b, pending =>
      match made : makeRoom b with
      | none => .isTrue (by simp only [EveryCut, made])
      | some b' =>
          let o := f s (receive size b' pending).1
          have := decidableEveryCut safe f sizes o.state o.input (receive size b' pending).2
          decidable_of_iff (o.code = .again →
            safe o.state (o.input.unread ++ (receive size b' pending).2) ∧
              EveryCut safe f sizes o.state o.input (receive size b' pending).2)
            (by simp only [EveryCut, made, o])

/-- Octets that fit a receive buffer: it has room for a version with its line break and
for every stretch of white space with one octet behind it. -/
structure Fits (capacity : Nat) (u : List Octet) : Prop where
  version : 10 ≤ capacity
  space : ∀ w, w <:+: u → w.all isLWS = true → w.length < capacity

theorem Fits.room {capacity : Nat} {u w : List Octet} (fits : Fits capacity u) (inside : w <:+: u)
    (h : Lookahead w) : w.length < capacity :=
  h.elim (fun short => Nat.lt_of_lt_of_le short fits.version) (fits.space w inside)

/-! ## One read -/

theorem makeRoom_spec {b b' : Buffer} (wf : b.WF) (made : makeRoom b = some b') :
    b'.WF ∧ b'.unread = b.unread ∧ b'.capacity = b.capacity ∧ b'.isWritable = true ∧
      (Marked b → Marked b') := by
  unfold makeRoom at made
  split at made
  · rename_i writable
    cases made
    exact ⟨wf, rfl, rfl, writable, id⟩
  · split at made
    · rename_i moved
      cases made
      have ne : b.readPosition ≠ 0 := fun zero => by
        rw [(Buffer.compact_eq_false_iff b).2 zero] at moved; cases moved
      have wf' := Buffer.compact_wf wf
      refine ⟨wf', Buffer.compact_unread wf moved, Buffer.compact_capacity wf, ?_, fun _ => ?_⟩
      · have := wf.read_le
        have := wf.write_le
        have capacity := Buffer.compact_capacity wf
        simp only [Buffer.capacity] at capacity
        have position : b.compact.2.writePosition = b.writePosition - b.readPosition := by
          simp only [Buffer.compact, ne, if_false]
        rw [Buffer.isWritable_iff_lt, capacity, position]
        omega
      · simp only [Marked, Buffer.compact, ne, if_false]
    · cases made

/-- There is room unless the unread octets fill the buffer. -/
theorem makeRoom_ne_none {b : Buffer} (wf : b.WF) (room : b.unread.length < b.capacity) :
    makeRoom b ≠ none := by
  unfold makeRoom
  split
  · simp
  · rename_i full
    have full : b.storage.length ≤ b.writePosition :=
      Nat.le_of_not_lt fun h => full ((Buffer.isWritable_iff_lt b).2 h)
    cases h : b.compact.1 with
    | true => simp
    | false =>
        have zero := (Buffer.compact_eq_false_iff b).1 h
        rw [Buffer.unread_length wf, Buffer.readable, zero, Buffer.capacity] at room
        exact absurd full (Nat.not_le_of_lt room)

theorem receive_spec (size : Nat) {b : Buffer} (wf : b.WF) (pending : List Octet) :
    (receive size b pending).1.WF ∧
      (receive size b pending).1.unread ++ (receive size b pending).2 = b.unread ++ pending ∧
      (receive size b pending).1.capacity = b.capacity ∧
      (Marked b → Marked (receive size b pending).1) := by
  have fits : (pending.take (min size b.writable)).length ≤ b.writable := by
    rw [List.length_take]; omega
  refine ⟨Buffer.fill_wf wf fits, ?_, Buffer.fill_capacity wf fits, id⟩
  simp only [receive, Buffer.fill_unread wf, List.append_assoc, List.take_append_drop]

/-- A read of positive size into a buffer with room brings something, if anything is
left. -/
theorem receive_pending {size : Nat} (positive : 0 < size) {b : Buffer} (room : b.isWritable = true)
    (pending : List Octet) : (receive size b pending).2.length ≤ pending.length - 1 := by
  have : 0 < b.writable := by simpa [Buffer.isWritable] using room
  simp only [receive, List.length_drop]
  omega

/-! ## Runs -/

theorem receiveHeaders_cons {σ : Type} {f : Reader σ} {size : Nat} {sizes : List Nat} {s : σ}
    {b b' : Buffer} {pending : List Octet} (made : makeRoom b = some b') :
    receiveHeaders f (size :: sizes) s b pending =
      if (f s (receive size b' pending).1).code = .again then
        receiveHeaders f sizes (f s (receive size b' pending).1).state
          (f s (receive size b' pending).1).input (receive size b' pending).2
      else ⟨(f s (receive size b' pending).1).code, (f s (receive size b' pending).1).state,
        (f s (receive size b' pending).1).input, (receive size b' pending).2⟩ := by
  rw [receiveHeaders]; simp only [made]

section runs

variable {χ ρ : Type} {methods : StartLineMethods χ ρ} (stream : StartLineStream methods)
  {u : List Octet}

/-- What holds each time the loop is entered. -/
structure Entered (u : List Octet) (capacity : Nat) (s : HttpMessageParser χ ρ) (b : Buffer)
    (pending : List Octet) : Prop where
  wf : b.WF
  marked : HeaderNeeds stream s → Marked b
  whole : b.unread ++ pending <:+ u
  capacity_eq : b.capacity = capacity
  room : b.unread.length < capacity

/-- One turn of the loop: the call agrees with the list parser, and if it asks for more
the loop can go on. -/
theorem Entered.turn {capacity : Nat} {s : HttpMessageParser χ ρ} {b : Buffer}
    {pending : List Octet} (entered : Entered stream u capacity s b pending) (fits : Fits capacity u)
    (size : Nat) : ∃ b', makeRoom b = some b' ∧ b'.isWritable = true ∧
      (receive size b' pending).1.unread ++ (receive size b' pending).2 = b.unread ++ pending ∧
      Reads (receive size b' pending).1 (parseHeaders methods s (receive size b' pending).1)
        (parseHeadersOn stream s (receive size b' pending).1.unread) ∧
      ((parseHeaders methods s (receive size b' pending).1).code = .again →
        Entered stream u capacity (parseHeaders methods s (receive size b' pending).1).state
          (parseHeaders methods s (receive size b' pending).1).input (receive size b' pending).2) := by
  obtain ⟨b', made⟩ := Option.ne_none_iff_exists'.1
    (makeRoom_ne_none entered.wf (by rw [entered.capacity_eq]; exact entered.room))
  obtain ⟨wf', unread, capacity', writable, mark'⟩ := makeRoom_spec entered.wf made
  obtain ⟨wf, whole, capacity'', mark⟩ := receive_spec size wf' pending
  rw [unread] at whole
  obtain ⟨reads, waits⟩ := parseHeaders_mirrors stream s (receive size b' pending).1 trivial wf
    fun need => mark (mark' (entered.marked need))
  refine ⟨b', made, writable, whole, reads, fun wants => ?_⟩
  have resumable : Resumable .again nameCut (parseHeadersOn stream) := parseHeadersOn_resumable
  have taken := (resumable s (receive size b' pending).1.unread).suffix
  have wantsOn := reads.code.symm.trans wants
  obtain ⟨front, cut⟩ := taken
  have behind : (parseHeadersOn stream s (receive size b' pending).1.unread).input ++
      (receive size b' pending).2 <:+ u := by
    refine List.IsSuffix.trans ⟨front, ?_⟩ entered.whole
    rw [← List.append_assoc, cut, whole]
  refine ⟨reads.wf, waits wants, by rw [reads.unread]; exact behind, ?_, ?_⟩
  · rw [reads.same.capacity, capacity'', capacity', entered.capacity_eq]
  · rw [reads.unread]
    exact fits.room ((List.prefix_append _ _).isInfix.trans behind.isInfix)
      (parseHeadersOn_waits s _ wantsOn)

/-- **Along a run whose cuts are harmless the parser gets where one call gets.** -/
theorem receiveHeaders_on {capacity : Nat} (fits : Fits capacity u) (sizes : List Nat) :
    ∀ (size : Nat) (s : HttpMessageParser χ ρ) (b : Buffer) (pending : List Octet),
      Entered stream u capacity s b pending →
      EveryCut nameCut (parseHeaders methods) (size :: sizes) s b pending →
      (receiveHeaders (parseHeaders methods) (size :: sizes) s b pending).Over →
      (receiveHeaders (parseHeaders methods) (size :: sizes) s b pending).outcome =
        parseHeadersOn stream s (b.unread ++ pending) := by
  have resumable : Resumable .again nameCut (parseHeadersOn stream) := parseHeadersOn_resumable
  induction sizes with
  | nil =>
      intro size s b pending entered _
      obtain ⟨b', made, _, whole, reads, _⟩ := entered.turn stream fits size
      have rules := resumable s (receive size b' pending).1.unread
      rw [receiveHeaders_cons made, ← whole]
      split
      · rename_i wants
        intro stopped
        have nothing : (receive size b' pending).2 = [] := Or.resolve_left stopped fun ne => ne rfl
        rw [nothing, List.append_nil]
        refine Outcome.ext (wants.symm.trans reads.code) reads.state ?_
        rw [← reads.unread]
        exact List.append_nil _
      · rename_i done
        intro _
        rw [rules.final _ (by rwa [← reads.code])]
        exact Outcome.ext reads.code reads.state (congrArg (· ++ (receive size b' pending).2) reads.unread)
  | cons next sizes ih =>
      intro size s b pending entered cuts
      obtain ⟨b', made, _, whole, reads, goesOn⟩ := entered.turn stream fits size
      have rules := resumable s (receive size b' pending).1.unread
      rw [EveryCut] at cuts
      simp only [made] at cuts
      rw [receiveHeaders_cons made, ← whole]
      split
      · rename_i wants
        intro stopped
        obtain ⟨cut, cuts⟩ := cuts wants
        rw [reads.state, reads.unread] at cut
        rw [rules.resume _ (by rwa [← reads.code]) cut, ← reads.state, ← reads.unread]
        exact ih next _ _ _ (goesOn wants) cuts stopped
      · rename_i done
        intro _
        rw [rules.final _ (by rwa [← reads.code])]
        exact Outcome.ext reads.code reads.state (congrArg (· ++ (receive size b' pending).2) reads.unread)

/-- A run whose reads all bring something is over once there are as many of them as
octets. -/
theorem receiveHeaders_over {capacity : Nat} (fits : Fits capacity u) (sizes : List Nat) :
    ∀ (s : HttpMessageParser χ ρ) (b : Buffer) (pending : List Octet),
      Entered stream u capacity s b pending → (∀ size ∈ sizes, 0 < size) →
      pending.length ≤ sizes.length →
      (receiveHeaders (parseHeaders methods) sizes s b pending).Over := by
  induction sizes with
  | nil =>
      intro s b pending _ _ enough
      exact .inr (List.eq_nil_of_length_eq_zero (Nat.le_zero.1 enough))
  | cons size sizes ih =>
      intro s b pending entered positive enough
      obtain ⟨b', made, room, _, _, goesOn⟩ := entered.turn stream fits size
      have shrinks := receive_pending (positive size List.mem_cons_self) room pending
      rw [receiveHeaders_cons made]
      split
      · rename_i wants
        refine ih _ _ _ (goesOn wants) (fun n h => positive n (List.mem_cons_of_mem size h)) ?_
        simp only [List.length_cons] at enough
        omega
      · rename_i done; exact .inl done

/-- The run ends as one call of the parser does on any buffer that holds the octets: with
the same code, the same state of parser and message, and as much consumed. -/
def AgreesWithOneCall {σ : Type} (f : Reader σ) (s : σ) (u : List Octet) (run : Receiving σ) : Prop :=
  ∀ whole : Buffer, whole.WF → whole.unread = u →
    run.code = (f s whole).code ∧ run.state = (f s whole).state ∧
      run.left = (f s whole).input.unread

theorem agreesWithOneCall_of_outcome {s : HttpMessageParser χ ρ} (h : s.stage = .initial)
    {run : Receiving (HttpMessageParser χ ρ)} (same : run.outcome = parseHeadersOn stream s u) :
    AgreesWithOneCall (parseHeaders methods) s u run := by
  intro whole wf unread
  have unmarked : ¬ HeaderNeeds stream s := fun need => by
    have := h.symm.trans need.1; cases this
  obtain ⟨reads, _⟩ := parseHeaders_mirrors stream s whole trivial wf fun need => absurd need unmarked
  rw [unread, ← same] at reads
  exact ⟨reads.code.symm, reads.state.symm, reads.unread.symm⟩

theorem entered_create {capacity : Nat} (small : capacity < 2 ^ 32) (fits : Fits capacity u)
    {s : HttpMessageParser χ ρ} (h : s.stage = .initial) :
    Entered stream u capacity s (Buffer.create capacity) u where
  wf := Buffer.create_wf small
  marked need := by have := h.symm.trans need.1; cases this
  whole := by simp
  capacity_eq := Buffer.create_capacity capacity
  room := by
    rw [Buffer.create_unread]
    exact Nat.lt_of_lt_of_le (by decide) fits.version

include stream in
/-- Headers received into an empty buffer by a parser at its start. -/
theorem receiveHeaders_fresh {capacity : Nat} (small : capacity < 2 ^ 32) (fits : Fits capacity u)
    {s : HttpMessageParser χ ρ} (h : s.stage = .initial) (sizes : List Nat)
    (cuts : EveryCut nameCut (parseHeaders methods) sizes s (Buffer.create capacity) u) :
    let run := receiveHeaders (parseHeaders methods) sizes s (Buffer.create capacity) u
    (run.Over → AgreesWithOneCall (parseHeaders methods) s u run) ∧
      ((∀ size ∈ sizes, 0 < size) → u.length ≤ sizes.length → run.Over) := by
  have entered := entered_create stream small fits h
  refine ⟨fun stopped => agreesWithOneCall_of_outcome stream h ?_,
    fun positive enough => receiveHeaders_over stream fits sizes s _ u entered positive enough⟩
  cases sizes with
  | nil =>
      -- nothing was delivered, so there was nothing to deliver
      have nothing : u = [] := Or.resolve_left stopped fun ne => ne rfl
      subst nothing
      simp [receiveHeaders, Receiving.outcome, Receiving.left, parseHeadersOn, h]
  | cons size sizes =>
      have same := receiveHeaders_on stream fits sizes size s _ u entered cuts stopped
      rwa [Buffer.create_unread, List.nil_append] at same

end runs

/-! ## Requests and responses -/

/-- **Where no read ends right before a line break or white space inside a field name, the
fills do not show.**  The run ends with the result code, the message and the count of
octets consumed that one call on all the octets has, and it does end when each read
brings something. -/
theorem receiveHeaders_agrees (capacity : Nat) (small : capacity < 2 ^ 32) (working : Buffer)
    (sizes : List Nat) (u : List Octet) (fits : Fits capacity u) :
    (let s := HttpRequestParser.fresh working
      let run := receiveHeaders HttpRequestParser.parseHeaders sizes s (Buffer.create capacity) u
      EveryCut nameCut HttpRequestParser.parseHeaders sizes s (Buffer.create capacity) u →
        (run.Over → AgreesWithOneCall HttpRequestParser.parseHeaders s u run) ∧
          ((∀ size ∈ sizes, 0 < size) → u.length ≤ sizes.length → run.Over)) ∧
      (let s := HttpResponseParser.fresh working
        let run := receiveHeaders HttpResponseParser.parseHeaders sizes s (Buffer.create capacity) u
        EveryCut nameCut HttpResponseParser.parseHeaders sizes s (Buffer.create capacity) u →
          (run.Over → AgreesWithOneCall HttpResponseParser.parseHeaders s u run) ∧
            ((∀ size ∈ sizes, 0 < size) → u.length ≤ sizes.length → run.Over)) :=
  ⟨receiveHeaders_fresh HttpRequestParser.stream small fits rfl sizes,
    receiveHeaders_fresh HttpResponseParser.stream small fits rfl sizes⟩

/-- A request line and a field name without its colon. -/
def unfinishedName : List Octet := octets "GET / HTTP/1.1\r\nFo\r\n\r\n"

theorem fits_of_short {capacity : Nat} {u : List Octet} (version : 10 ≤ capacity)
    (short : u.length < capacity) : Fits capacity u :=
  ⟨version, fun _ inside _ => Nat.lt_of_le_of_lt inside.length_le short⟩

theorem receiveHeaders_agrees_whole :
    Fits 64 unfinishedName ∧
      AgreesWithOneCall HttpRequestParser.parseHeaders
        (HttpRequestParser.fresh (Buffer.create 64)) unfinishedName
        (receiveHeaders HttpRequestParser.parseHeaders [16, 6]
          (HttpRequestParser.fresh (Buffer.create 64)) (Buffer.create 64) unfinishedName) :=
  have fits : Fits 64 unfinishedName := fits_of_short (by decide) (by decide)
  ⟨fits, ((receiveHeaders_agrees 64 (by decide) (Buffer.create 64) [16, 6] unfinishedName fits).1
    (by decide)).1 (by decide)⟩

/-- A read that ends inside the name makes the same octets a request without fields. -/
theorem receiveHeaders_cut_shows :
    Fits 64 unfinishedName ∧
      let s := HttpRequestParser.fresh (Buffer.create 64)
      let run := receiveHeaders HttpRequestParser.parseHeaders [18, 4] s (Buffer.create 64)
        unfinishedName
      let whole := (Buffer.create 64).fill unfinishedName
      run.Over ∧ run.code = .success ∧ run.left.length = 2 ∧
        (HttpRequestParser.parseHeaders s whole).code = .badRequestFieldName ∧
        (HttpRequestParser.parseHeaders s whole).input.unread.length = 3 :=
  ⟨fits_of_short (by decide) (by decide), by decide⟩

end Everscale
