/-
# Everscale.Base.BufferRun -- sequences of calls to a buffer

A buffer is a tape: what was read of it and may be read again, and what is unread (`Tape`).  `Serves`
says what a call may do to a tape; the unread octets stay as they are, and more are only appended.
`Ordered` says that the positions are in order and that no mark is past its position.

`skip` takes a 32-bit count and adds it in 32 bits, so a larger count can fall short, and the read
position can go back.  The two resets and the setters look at the capacity at most, not at each other.
A run keeps the order and serves each call if and only if each call fits (`buffer_serves_iff`).
-/
import Everscale.Base.Buffer
import Everscale.Theory.Serving

namespace Everscale

set_option autoImplicit false

open Theory

/-! ## Tapes -/

/-- What was read, what is unread, and two positions to go back to. -/
structure Tape where
  capacity : Nat
  taken : List Octet
  unread : List Octet
  readMark : Nat
  writeMark : Nat

namespace Tape

def all (t : Tape) : List Octet := t.taken ++ t.unread

/-- As many as there is room for. -/
def append (t : Tape) (octets : List Octet) : Tape :=
  { t with unread := t.unread ++ octets.take (t.capacity - t.all.length) }

/-- As many as are unread. -/
def take (t : Tape) (n : Nat) : Tape := { t with taken := t.taken ++ t.unread.take n, unread := t.unread.drop n }

end Tape

/-! ## Calls -/

/-- The operations that change a buffer, with `peekNext`, and `receive` of a socket that has some octets.
Counts and positions are as the callers compute them, in 64 bits. -/
inductive BufferCall where
  | putNext (character : Octet)
  | receive (octets : List Octet)
  | next
  | peekNext
  | skipNext
  | skip (n : Nat)
  | readMark
  | readReset
  | writeMark
  | writeReset
  | setReadPosition (position : Nat)
  | setWritePosition (position : Nat)
  | clear
  | compact

inductive BufferAnswer where
  | done
  | character (c : Octet)
  | compacted (moved : Bool)
  deriving DecidableEq

/-- What a call may do to a tape. -/
def Tape.Serves (t : Tape) (call : BufferCall) (answer : BufferAnswer) (t' : Tape) : Prop :=
  match call with
  | .putNext c => answer = .done ∧ t' = t.append [c]
  | .receive octets => answer = .done ∧ t' = t.append octets
  | .next => answer = .character (t.unread.headD 0) ∧ t' = t.take 1
  | .peekNext => answer = .character (t.unread.headD 0) ∧ t' = t
  | .skipNext => answer = .done ∧ t' = t.take 1
  | .skip n => answer = .done ∧ t' = t.take n
  | .readMark => answer = .done ∧ t' = { t with readMark := t.taken.length }
  | .readReset => answer = .done ∧ t' = { t with taken := t.all.take t.readMark, unread := t.all.drop t.readMark }
  | .writeMark => answer = .done ∧ t' = { t with writeMark := t.all.length }
  | .writeReset => answer = .done ∧ t' = { t with unread := t.unread.take (t.writeMark - t.taken.length) }
  | .setReadPosition position =>
      answer = .done ∧ ∃ taken unread, taken ++ unread = t.all ∧ (position ≤ t.all.length → taken.length = position) ∧
        t' = { t with taken, unread }
  | .setWritePosition position =>
      answer = .done ∧ ∃ unread, (unread <+: t.unread ∨ t.unread <+: unread) ∧
        (position ≤ t.capacity → (t.taken ++ unread).length = position) ∧ t' = { t with unread }
  | .clear => answer = .done ∧ t' = ⟨t.capacity, [], [], 0, 0⟩
  | .compact => answer = .compacted (t.taken ≠ []) ∧
      t' = if t.taken = [] then t else { t with taken := [], readMark := 0, writeMark := 0 }

namespace Buffer

/-- The operation itself; positions and counts become 32-bit numbers. -/
def perform (b : Buffer) : BufferCall → Option (BufferAnswer × Buffer)
  | .putNext c => some (.done, b.putNext c)
  | .receive octets => some (.done, b.fill (octets.take b.writable))
  | .next => some (.character b.next.1, b.next.2)
  | .peekNext => some (.character b.peekNext, b)
  | .skipNext => some (.done, b.skipNext)
  | .skip n => some (.done, b.skip n)
  | .readMark => some (.done, b.readMark)
  | .readReset => some (.done, b.readReset)
  | .writeMark => some (.done, b.writeMark)
  | .writeReset => some (.done, b.writeReset)
  | .setReadPosition position => some (.done, b.setReadPosition (position % 2 ^ 32))
  | .setWritePosition position => some (.done, b.setWritePosition (position % 2 ^ 32))
  | .clear => some (.done, b.clear)
  | .compact => some (.compacted b.compact.1, b.compact.2)

/-- The positions are in order, and the marks are not past them. -/
structure Ordered (b : Buffer) : Prop where
  wf : b.WF
  readMark_le : b.readMarkPosition ≤ b.readPosition
  writeMark_le : b.writeMarkPosition ≤ b.writePosition

/-- Where a position lands. -/
def clamp (b : Buffer) (position : Nat) : Nat := min (position % 2 ^ 32) b.capacity

/-- A count stays within what is readable, or reaches its end in 32 bits; a position that is set or
reset respects the other one and the marks. -/
def Fits (b : Buffer) : BufferCall → Prop
  | .skip n => n ≤ b.readable ∨ b.readable ≤ n % 2 ^ 32 ∧ b.readPosition + n % 2 ^ 32 < 2 ^ 32
  | .writeReset => b.readPosition ≤ b.writeMarkPosition
  | .setReadPosition position => b.readMarkPosition ≤ b.clamp position ∧ b.clamp position ≤ b.writePosition
  | .setWritePosition position => b.readPosition ≤ b.clamp position ∧ b.writeMarkPosition ≤ b.clamp position
  | _ => True

instance (b : Buffer) (call : BufferCall) : Decidable (b.Fits call) := by
  cases call <;> unfold Fits <;> infer_instance

/-- The buffer as a tape. -/
def tape (b : Buffer) : Tape where
  capacity := b.capacity
  taken := b.written.take b.readPosition
  unread := b.unread
  readMark := b.readMarkPosition
  writeMark := b.writeMarkPosition

section

variable {b b' : Buffer} {n position : Nat}

theorem create_ordered {capacity : Nat} (small : capacity < 2 ^ 32) : (create capacity).Ordered :=
  ⟨create_wf small, Nat.le_refl _, Nat.le_refl _⟩

theorem tape_all (b : Buffer) : b.tape.all = b.written := List.take_append_drop ..

theorem taken_length (wf : b.WF) : b.tape.taken.length = b.readPosition := by
  show (b.written.take b.readPosition).length = _
  rw [List.length_take, written_length wf, Nat.min_eq_left wf.read_le]

theorem tape_room (wf : b.WF) : b.tape.capacity - b.tape.all.length = b.writable := by
  rw [tape_all, written_length wf]
  rfl

/-! ## What is written -/

theorem fill_tape (wf : b.WF) {octets : List Octet} (fits : octets.length ≤ b.writable) :
    (b.fill octets).tape = { b.tape with unread := b.unread ++ octets } := by
  have capacity := fill_capacity wf fits
  have taken : (b.fill octets).written.take b.readPosition = b.written.take b.readPosition := by
    rw [fill_written wf]
    exact List.take_append_of_le_length (written_length wf ▸ wf.read_le)
  have unread := fill_unread wf octets
  unfold tape
  rw [capacity, unread]
  exact congrArg (Tape.mk b.capacity · _ _ _) taken

theorem receive_tape (wf : b.WF) (octets : List Octet) :
    (b.fill (octets.take b.writable)).tape = b.tape.append octets := by
  rw [fill_tape wf (by rw [List.length_take]; exact Nat.min_le_left ..), Tape.append, tape_room wf]
  rfl

theorem putNext_tape (wf : b.WF) (c : Octet) : (b.putNext c).tape = b.tape.append [c] := by
  by_cases room : b.isWritable = true
  · have one : 1 ≤ b.writable := of_decide_eq_true room
    rw [putNext_eq_fill room, ← receive_tape wf, List.take_of_length_le one]
  · have none : b.writable = 0 := by
      have full : ¬ 0 < b.writable := fun some => room (decide_eq_true some)
      omega
    have same : b.putNext c = b := if_neg room
    rw [same, Tape.append, tape_room wf, none, List.take_zero, List.append_nil]

/-! ## What is read -/

theorem read_tape (b : Buffer) (n : Nat) : { b with readPosition := b.readPosition + n }.tape = b.tape.take n := by
  have taken : b.written.take (b.readPosition + n) = b.tape.taken ++ b.unread.take n := List.take_add
  have unread : b.written.drop (b.readPosition + n) = b.unread.drop n := List.drop_drop.symm
  show Tape.mk b.capacity (b.written.take (b.readPosition + n)) (b.written.drop (b.readPosition + n)) _ _ = _
  rw [taken, unread]
  rfl

theorem take_all {t : Tape} (least : t.unread.length ≤ n) : t.take n = t.take t.unread.length := by
  unfold Tape.take
  rw [List.take_of_length_le least, List.take_length, List.drop_of_length_le least, List.drop_length]

theorem skipNext_tape (wf : b.WF) : b.skipNext.tape = b.tape.take 1 := by
  by_cases some : b.isReadable = true
  · have moved : b.skipNext = { b with readPosition := b.readPosition + 1 } := if_pos some
    rw [moved, read_tape]
  · have same : b.skipNext = b := if_neg some
    have none : b.unread = [] := by simpa using (isReadable_iff wf).not.1 some
    have empty : b.tape.unread = [] := none
    rw [same, Tape.take, empty, List.take_nil, List.drop_nil, List.append_nil, ← empty]

theorem skipNext_ordered (h : b.Ordered) : b.skipNext.Ordered := by
  refine ⟨skipNext_wf h.wf, ?_, ?_⟩
  · have le := h.readMark_le
    unfold skipNext
    split
    · exact Nat.le_succ_of_le le
    · exact le
  · have le := h.writeMark_le
    unfold skipNext
    split <;> exact le

theorem next_eq (wf : b.WF) : b.peekNext = b.tape.unread.headD 0 := by
  show _ = b.unread.headD 0
  cases unread : b.unread with
  | nil => exact if_neg (by rw [not_isReadable_of_unread wf unread]; decide)
  | cons c rest => exact peekNext_of_unread wf unread

/-- Where a skip of as many octets as fit ends. -/
theorem skip_fits_iff (wf : b.WF) :
    b.Fits (.skip n) ↔ (b.skip n).readPosition = b.readPosition + min n b.readable := by
  have read := wf.read_le
  have write := wf.write_le
  have limit := wf.limit
  unfold Fits skip readable
  dsimp only
  have small : n % 2 ^ 32 < 2 ^ 32 := Nat.mod_lt _ (by decide)
  by_cases within : n ≤ b.writePosition - b.readPosition
  · have same : n % 2 ^ 32 = n := Nat.mod_eq_of_lt (by omega)
    rw [same, Nat.min_eq_left within, Nat.mod_eq_of_lt (by omega), if_neg (by omega)]
    exact ⟨fun _ => rfl, fun _ => .inl within⟩
  · rw [Nat.min_eq_right (by omega)]
    generalize n % 2 ^ 32 = m at small ⊢
    by_cases wraps : b.readPosition + m < 2 ^ 32
    · rw [Nat.mod_eq_of_lt wraps]
      split <;> omega
    · have wrapped : (b.readPosition + m) % 2 ^ 32 = b.readPosition + m - 2 ^ 32 := by omega
      rw [wrapped]
      split <;> omega

theorem skip_tape (wf : b.WF) (fits : b.Fits (.skip n)) : (b.skip n).tape = b.tape.take n := by
  have length : b.tape.unread.length = b.readable := unread_length wf
  have moved : b.skip n = { b with readPosition := b.readPosition + min n b.readable } := by
    rw [← (skip_fits_iff wf).1 fits]
    rfl
  rw [moved, read_tape]
  by_cases within : n ≤ b.readable
  · rw [Nat.min_eq_left within]
  · have most : b.readable ≤ n := by omega
    rw [Nat.min_eq_right most, ← length]
    exact (take_all (length ▸ most)).symm

theorem skip_ordered (h : b.Ordered) (fits : b.Fits (.skip n)) : (b.skip n).Ordered := by
  refine ⟨skip_wf h.wf n, ?_, h.writeMark_le⟩
  rw [(skip_fits_iff h.wf).1 fits]
  exact Nat.le_trans h.readMark_le (Nat.le_add_right ..)

/-! ## Positions -/

/-- Within the write position the octets stay on the tape. -/
theorem reposition_tape (b : Buffer) (position : Nat) : { b with readPosition := position }.tape =
    { b.tape with taken := b.tape.all.take position, unread := b.tape.all.drop position } := by
  rw [tape_all]
  rfl

theorem setReadPosition_eq (b : Buffer) (position : Nat) :
    b.setReadPosition (position % 2 ^ 32) = { b with readPosition := b.clamp position } := by
  unfold setReadPosition clamp
  split
  · rw [Nat.min_eq_right (by omega)]
  · rw [Nat.min_eq_left (by omega)]

theorem setWritePosition_eq (b : Buffer) (position : Nat) :
    b.setWritePosition (position % 2 ^ 32) = { b with writePosition := b.clamp position } := by
  unfold setWritePosition clamp
  split
  · rw [Nat.min_eq_right (by omega)]
  · rw [Nat.min_eq_left (by omega)]

theorem clamp_le (b : Buffer) (position : Nat) : b.clamp position ≤ b.capacity := Nat.min_le_right ..

theorem rewrite_tape (wf : b.WF) (inside : b.readPosition ≤ position) :
    { b with writePosition := position }.tape =
      { b.tape with unread := (b.storage.take position).drop b.readPosition } := by
  have taken : (b.storage.take position).take b.readPosition = b.written.take b.readPosition := by
    unfold written
    rw [List.take_take, List.take_take, Nat.min_eq_left inside, Nat.min_eq_left wf.read_le]
  show Tape.mk b.capacity ((b.storage.take position).take b.readPosition) _ _ _ = _
  rw [taken]
  rfl

theorem compact_tape (wf : b.WF) : b.compact.2.tape =
    if b.tape.taken = [] then b.tape else { b.tape with taken := [], readMark := 0, writeMark := 0 } := by
  have length := taken_length wf
  by_cases zero : b.readPosition = 0
  · have none : b.tape.taken = [] := List.eq_nil_of_length_eq_zero (length.trans zero)
    have same : b.compact.2 = b := by
      unfold compact
      rw [if_pos zero]
    rw [if_pos none, same]
  · have some : b.tape.taken ≠ [] := fun empty => zero (by rw [← length, empty]; rfl)
    have moved : b.compact.1 = true := by
      unfold compact
      rw [if_neg zero]
    have capacity := compact_capacity wf
    have written := compact_written wf moved
    have unread := compact_unread wf moved
    have read : b.compact.2.readPosition = 0 ∧ b.compact.2.readMarkPosition = 0 ∧ b.compact.2.writeMarkPosition = 0 := by
      unfold compact
      rw [if_neg zero]
      exact ⟨rfl, rfl, rfl⟩
    rw [if_neg some]
    show Tape.mk b.compact.2.capacity (b.compact.2.written.take b.compact.2.readPosition) b.compact.2.unread
      b.compact.2.readMarkPosition b.compact.2.writeMarkPosition = _
    rw [capacity, unread, read.1, read.2.1, read.2.2, List.take_zero]
    rfl

theorem compact_ordered (h : b.Ordered) : b.compact.2.Ordered := by
  refine ⟨compact_wf h.wf, ?_, ?_⟩
  · have le := h.readMark_le
    unfold compact
    split
    · exact le
    · exact Nat.le_refl 0
  · have le := h.writeMark_le
    unfold compact
    split
    · exact le
    · exact Nat.zero_le _

theorem clamp_of_le (wf : b.WF) (inside : position ≤ b.capacity) : b.clamp position = position := by
  have limit : b.capacity < 2 ^ 32 := wf.limit
  unfold clamp
  rw [Nat.mod_eq_of_lt (by omega), Nat.min_eq_left inside]

/-- A position that is set from the octets read on leaves those, and the unread ones up to it. -/
theorem rewrite_unread (wf : b.WF) (inside : b.readPosition ≤ position) (fits : position ≤ b.capacity) :
    ((b.storage.take position).drop b.readPosition <+: b.unread ∨
        b.unread <+: (b.storage.take position).drop b.readPosition) ∧
      (b.tape.taken ++ (b.storage.take position).drop b.readPosition).length = position := by
  have length : (b.storage.take position).length = position := by
    rw [List.length_take]
    exact Nat.min_eq_left fits
  have ordered : ∀ {m n : Nat}, m ≤ n →
      (b.storage.take m).drop b.readPosition <+: (b.storage.take n).drop b.readPosition := by
    intro m n le
    rw [List.drop_take, List.drop_take]
    exact List.take_prefix_take_left (Nat.sub_le_sub_right le _)
  constructor
  · rcases Nat.le_total position b.writePosition with le | le
    · exact .inl (ordered le)
    · exact .inr (ordered le)
  · rw [List.length_append, taken_length wf, List.length_drop, length]
    omega

theorem putNext_ordered (h : b.Ordered) (c : Octet) : (b.putNext c).Ordered := by
  refine ⟨putNext_wf h.wf c, ?_, ?_⟩
  · have le := h.readMark_le
    unfold putNext
    split <;> exact le
  · have le := h.writeMark_le
    unfold putNext
    split
    · exact Nat.le_succ_of_le le
    · exact le

theorem compact_moves (wf : b.WF) : b.compact.1 = decide (b.tape.taken ≠ []) := by
  have length := taken_length wf
  rw [Bool.eq_iff_iff, decide_eq_true_eq, ← not_iff_not, Bool.not_eq_true, compact_eq_false_iff, ← length,
    List.length_eq_zero_iff, not_ne_iff]

/-! ## Runs -/

theorem serves_step (h : b.Ordered) {call : BufferCall} (fits : b.Fits call) :
    ∃ answer b', b.perform call = some (answer, b') ∧ b'.Ordered ∧ b.tape.Serves call answer b'.tape := by
  have wf := h.wf
  have length := taken_length wf
  cases call with
  | putNext c =>
      exact ⟨_, _, rfl, putNext_ordered h c, rfl, putNext_tape wf c⟩
  | receive octets =>
      have room : (octets.take b.writable).length ≤ b.writable := by
        rw [List.length_take]
        exact Nat.min_le_left ..
      exact ⟨_, _, rfl, ⟨fill_wf wf room, h.readMark_le, Nat.le_trans h.writeMark_le (Nat.le_add_right ..)⟩, rfl,
        receive_tape wf octets⟩
  | next => exact ⟨_, _, rfl, skipNext_ordered h, congrArg BufferAnswer.character (next_eq wf), skipNext_tape wf⟩
  | peekNext => exact ⟨_, _, rfl, h, congrArg BufferAnswer.character (next_eq wf), rfl⟩
  | skipNext => exact ⟨_, _, rfl, skipNext_ordered h, rfl, skipNext_tape wf⟩
  | skip n => exact ⟨_, _, rfl, skip_ordered h fits, rfl, skip_tape wf fits⟩
  | readMark =>
      refine ⟨_, _, rfl, ⟨readMark_wf wf, Nat.le_refl _, h.writeMark_le⟩, rfl, ?_⟩
      rw [length]
      rfl
  | readReset =>
      have within : b.readMarkPosition ≤ b.writePosition := Nat.le_trans h.readMark_le wf.read_le
      exact ⟨_, _, rfl, ⟨⟨within, wf.write_le, wf.limit⟩, Nat.le_refl _, h.writeMark_le⟩, rfl,
        reposition_tape b b.readMarkPosition⟩
  | writeMark =>
      refine ⟨_, _, rfl, ⟨⟨wf.read_le, wf.write_le, wf.limit⟩, h.readMark_le, Nat.le_refl _⟩, rfl, ?_⟩
      rw [tape_all, written_length wf]
      rfl
  | writeReset =>
      have inside : b.readPosition ≤ b.writeMarkPosition := fits
      have within : b.writeMarkPosition ≤ b.storage.length := Nat.le_trans h.writeMark_le wf.write_le
      refine ⟨_, _, rfl, ⟨⟨inside, within, wf.limit⟩, h.readMark_le, Nat.le_refl _⟩, rfl, ?_⟩
      rw [length]
      refine (rewrite_tape wf inside).trans ?_
      -- of the unread octets those before the mark remain
      have kept : (b.storage.take b.writeMarkPosition).drop b.readPosition =
          b.unread.take (b.writeMarkPosition - b.readPosition) := by
        unfold unread written
        rw [List.drop_take, List.drop_take, List.take_take, Nat.min_eq_left (Nat.sub_le_sub_right h.writeMark_le _)]
      rw [kept]
      rfl
  | setReadPosition position =>
      have fits : b.readMarkPosition ≤ b.clamp position ∧ b.clamp position ≤ b.writePosition := fits
      refine ⟨_, _, rfl, ?_, rfl, ?_⟩
      · rw [setReadPosition_eq]
        exact ⟨⟨fits.2, wf.write_le, wf.limit⟩, fits.1, h.writeMark_le⟩
      · rw [setReadPosition_eq]
        refine ⟨_, _, List.take_append_drop .., fun inside => ?_, reposition_tape b (b.clamp position)⟩
        rw [tape_all, written_length wf] at inside
        rw [clamp_of_le wf (Nat.le_trans inside wf.write_le), List.length_take, tape_all, written_length wf]
        exact Nat.min_eq_left inside
  | setWritePosition position =>
      have fits : b.readPosition ≤ b.clamp position ∧ b.writeMarkPosition ≤ b.clamp position := fits
      have unread := rewrite_unread wf fits.1 (clamp_le b position)
      refine ⟨_, _, rfl, ?_, rfl, ?_⟩
      · rw [setWritePosition_eq]
        exact ⟨⟨fits.1, clamp_le b position, wf.limit⟩, h.readMark_le, fits.2⟩
      · rw [setWritePosition_eq, rewrite_tape wf fits.1]
        exact ⟨_, unread.1, fun inside => unread.2.trans (clamp_of_le wf inside), rfl⟩
  | clear => exact ⟨_, _, rfl, ⟨clear_wf wf, Nat.le_refl _, Nat.le_refl _⟩, rfl, rfl⟩
  | compact => exact ⟨_, _, rfl, compact_ordered h, congrArg BufferAnswer.compacted (compact_moves wf), compact_tape wf⟩

/-- Ordered, and holding this tape. -/
def Holds (b : Buffer) (t : Tape) : Prop := b.Ordered ∧ t = b.tape

theorem fits_of_serves (wf : b.WF) {call : BufferCall} {answer : BufferAnswer}
    (done : b.perform call = some (answer, b')) (ordered : b'.Ordered) (serves : b.tape.Serves call answer b'.tape) :
    b.Fits call := by
  cases call with
  | skip n =>
      cases done
      have position := congrArg (fun t => t.taken.length) serves.2
      have unread : b.tape.unread.length = b.readable := unread_length wf
      have moved : (b.tape.take n).taken.length = b.readPosition + min n b.readable := by
        show (b.tape.taken ++ b.tape.unread.take n).length = _
        rw [List.length_append, taken_length wf, List.length_take, unread]
      exact (skip_fits_iff wf).2 ((taken_length ordered.wf).symm.trans (position.trans moved))
  | writeReset =>
      cases done
      exact ordered.wf.read_le
  | setReadPosition position =>
      cases done
      rw [setReadPosition_eq] at ordered
      exact ⟨ordered.readMark_le, ordered.wf.read_le⟩
  | setWritePosition position =>
      cases done
      rw [setWritePosition_eq] at ordered
      exact ⟨ordered.wf.read_le, ordered.writeMark_le⟩
  | _ => trivial

theorem serves_fits_iff {t : Tape} {call : BufferCall} (h : b.Holds t) :
    b.Fits call ↔ ∃ answer b' t', b.perform call = some (answer, b') ∧ b'.Holds t' ∧ t.Serves call answer t' := by
  obtain ⟨ordered, rfl⟩ := h
  constructor
  · intro fits
    obtain ⟨answer, b', done, after, served⟩ := serves_step ordered fits
    exact ⟨answer, b', b'.tape, done, ⟨after, rfl⟩, served⟩
  · rintro ⟨answer, b', t', done, ⟨after, rfl⟩, served⟩
    exact fits_of_serves ordered.wf done after served

/-- **Calls to a buffer**: after each call of a sequence the positions and marks are in order and the call
has done to the octets what it should, if and only if each call fits. -/
theorem buffer_serves_iff (h : b.Ordered) (calls : List BufferCall) :
    ServesEach perform Tape.Serves Holds b b.tape calls ↔ AllFit perform Fits b calls := by
  have one : ∀ {b : Buffer} {t : Tape} {call : BufferCall}, Holds b t → True → (Fits b call ↔
      ∃ answer b' t', perform b call = some (answer, b') ∧ Holds b' t' ∧ t.Serves call answer t') :=
    fun holds _ => serves_fits_iff holds
  exact servesEach_iff one ⟨h, rfl⟩ (allFit_of_forall (fun _ _ => trivial) b calls)

/-- Four octets, of which three are read, one after going back. -/
theorem buffer_serves_four :
    ServesEach perform Tape.Serves Holds (create 4) (create 4).tape
      [.receive [1, 2, 3], .writeMark, .next, .readMark, .skip 9, .readReset, .putNext 4, .writeReset, .compact, .skip 1] :=
  (buffer_serves_iff (create_ordered (by decide)) _).mpr (by decide)

/-- A count of `2 ^ 32` skips nothing, and one of `2 ^ 32 - 1` goes back. -/
theorem long_skips_fall_short :
    (((create 4).fill [1, 2, 3]).skip (2 ^ 32)).readPosition = 0 ∧
      ((((create 4).fill [1, 2, 3]).skip 2).skip (2 ^ 32 - 1)).readPosition = 1 ∧
      ¬ ServesEach perform Tape.Serves Holds (create 4) (create 4).tape [.receive [1, 2, 3], .skip (2 ^ 32)] := by
  refine ⟨by decide, by decide, fun served => ?_⟩
  obtain ⟨_, b, _, done, ⟨ordered, rfl⟩, -, _, _, _, skipped, ⟨after, rfl⟩, serves, -⟩ := served
  cases done
  have fits := fits_of_serves ordered.wf skipped after serves
  exact absurd fits (by decide)

end

end Buffer

end Everscale
