/-
# Everscale.Base.Buffer -- the byte buffer shared by sockets, parsers and formatters

`ESB::Buffer` (`ESBBuffer.h`, `ESBBuffer.cpp`): fixed storage, a read and a write
position and a saved mark for each.  The operations are the source's, on the raw
positions; nothing in the source checks that the positions stay ordered, so that
fact is the separate predicate `Buffer.WF`.

What a reader may still take is `Buffer.unread`, and everything written since the
last `clear` or `compact` is `Buffer.written`.  Each operation has its effect on
these two lists stated beside it; later modules use those lemmas and never the
definitions.
-/
import Mathlib.Algebra.Group.Nat.Defs
import Mathlib.Data.List.DropRight
import Mathlib.Tactic.Common

namespace Everscale

set_option autoImplicit false

/-- One byte of a message, `unsigned char` in the source. -/
abbrev Octet := UInt8

/-- `ESB::Buffer`; the capacity is the length of the storage. -/
structure Buffer where
  storage : List Octet
  readMarkPosition : Nat
  writeMarkPosition : Nat
  readPosition : Nat
  writePosition : Nat
  deriving DecidableEq, Repr

namespace Buffer

/-- A fresh buffer of the given capacity. -/
def create (capacity : Nat) : Buffer := ⟨List.replicate capacity 0, 0, 0, 0, 0⟩

def capacity (b : Buffer) : Nat := b.storage.length

def writable (b : Buffer) : Nat := b.capacity - b.writePosition

def readable (b : Buffer) : Nat := b.writePosition - b.readPosition

def isReadable (b : Buffer) : Bool := 0 < b.readable

def isWritable (b : Buffer) : Bool := 0 < b.writable

/-- Writes one character; a full buffer drops it. -/
def putNext (b : Buffer) (character : Octet) : Buffer :=
  if b.isWritable then
    { b with
      storage := b.storage.set b.writePosition character
      writePosition := b.writePosition + 1 }
  else b

/-- The character at the read position, `0` when there is none. -/
def peekNext (b : Buffer) : Octet :=
  if b.isReadable then b.storage.getD b.readPosition 0 else 0

def skipNext (b : Buffer) : Buffer :=
  if b.isReadable then { b with readPosition := b.readPosition + 1 } else b

/-- Reads one character and advances the read position. -/
def next (b : Buffer) : Octet × Buffer := (b.peekNext, b.skipNext)

def readMark (b : Buffer) : Buffer := { b with readMarkPosition := b.readPosition }

def readReset (b : Buffer) : Buffer := { b with readPosition := b.readMarkPosition }

def writeMark (b : Buffer) : Buffer := { b with writeMarkPosition := b.writePosition }

def writeReset (b : Buffer) : Buffer := { b with writePosition := b.writeMarkPosition }

def setWritePosition (b : Buffer) (position : Nat) : Buffer :=
  { b with writePosition := if b.capacity < position then b.capacity else position }

def setReadPosition (b : Buffer) (position : Nat) : Buffer :=
  { b with readPosition := if b.capacity < position then b.capacity else position }

/-- Advances the read position by the 32-bit count `n`, up to the write position.
The sum is taken in 32 bits, as the source takes it. -/
def skip (b : Buffer) (n : Nat) : Buffer :=
  let target := (b.readPosition + n % 2 ^ 32) % 2 ^ 32
  { b with readPosition := if b.writePosition < target then b.writePosition else target }

def clear (b : Buffer) : Buffer :=
  { b with readPosition := 0, writePosition := 0, readMarkPosition := 0, writeMarkPosition := 0 }

/-- The storage after `memmove(_buffer, _buffer + from, count)`. -/
def moveToFront (storage : List Octet) (start count : Nat) : List Octet :=
  (storage.drop start).take count ++ storage.drop count

/-- Discards what was read; `false` when there was nothing to discard. -/
def compact (b : Buffer) : Bool × Buffer :=
  if b.readPosition = 0 then (false, b)
  else
    (true,
      { storage := moveToFront b.storage b.readPosition (b.writePosition - b.readPosition)
        readMarkPosition := 0
        writeMarkPosition := 0
        readPosition := 0
        writePosition := b.writePosition - b.readPosition })

/-- Everything below the write position. -/
def written (b : Buffer) : List Octet := b.storage.take b.writePosition

/-- The bytes between the read and the write position. -/
def unread (b : Buffer) : List Octet := b.written.drop b.readPosition

/-- The characters `duplicate` trims off the end. -/
def isTrimmed (octet : Octet) : Bool :=
  octet = 32 || octet = 9 || octet = 10 || octet = 13

/-- A copy of everything below the write position, without its trailing white
space.  The read position plays no part.  This is `duplicate` with its default
argument; no caller turns the trimming off. -/
def duplicate (b : Buffer) : List Octet := b.written.rdropWhile isTrimmed

/-- `0 == strncmp(octets, literal, n)` where `n` is the length of `octets` and the
literal ends with a NUL. -/
def strncmpEqual : List Octet → List Octet → Bool
  | [], _ => true
  | c :: _, [] => c = 0
  | c :: cs, d :: ds => c = d && strncmpEqual cs ds

/-- `Buffer::match`: no more octets are compared than are unread, so a buffer that holds
only the beginning of the literal matches. -/
def matchLiteral (b : Buffer) (literal : List Octet) : Bool := strncmpEqual b.unread literal

/-- `recv` into the free space: the octets land at the write position, which then
moves past them. -/
def fill (b : Buffer) (octets : List Octet) : Buffer :=
  { b with
    storage := b.storage.take b.writePosition ++ octets ++
      b.storage.drop (b.writePosition + octets.length)
    writePosition := b.writePosition + octets.length }

/-- `ConnectedSocket::send(Buffer *)` where the socket takes `size` octets. -/
def send (b : Buffer) (size : Nat) : Buffer :=
  if size = 0 then b else (b.setReadPosition (b.readPosition + size)).compact.2

/-! ## The positions stay ordered -/

/-- The read position is behind the write position, the write position inside the
storage, and the capacity a 32-bit number. -/
structure WF (b : Buffer) : Prop where
  read_le : b.readPosition ≤ b.writePosition
  write_le : b.writePosition ≤ b.storage.length
  limit : b.storage.length < 2 ^ 32

theorem create_wf {capacity : Nat} (h : capacity < 2 ^ 32) : (create capacity).WF :=
  ⟨Nat.le_refl _, by simp [create], by simpa [create] using h⟩

@[simp] theorem create_written (capacity : Nat) : (create capacity).written = [] := by
  simp [create, written]

@[simp] theorem create_unread (capacity : Nat) : (create capacity).unread = [] := by
  simp [unread]

@[simp] theorem create_capacity (capacity : Nat) : (create capacity).capacity = capacity := by
  simp [create, Buffer.capacity]

theorem written_length {b : Buffer} (wf : b.WF) : b.written.length = b.writePosition := by
  simp [written, Nat.min_eq_left wf.write_le]

theorem isReadable_iff_lt (b : Buffer) : b.isReadable = true ↔ b.readPosition < b.writePosition := by
  simp only [isReadable, decide_eq_true_eq]
  exact Nat.sub_pos_iff_lt

theorem isWritable_iff_lt (b : Buffer) :
    b.isWritable = true ↔ b.writePosition < b.storage.length := by
  simp only [isWritable, decide_eq_true_eq]
  exact Nat.sub_pos_iff_lt

theorem unread_length {b : Buffer} (wf : b.WF) : b.unread.length = b.readable := by
  simp [unread, written_length wf, readable]

theorem isReadable_iff {b : Buffer} (wf : b.WF) : b.isReadable = true ↔ b.unread ≠ [] := by
  rw [← List.length_pos_iff, unread_length wf]
  simp [isReadable]

theorem isReadable_of_unread {b : Buffer} (wf : b.WF) {c : Octet} {rest : List Octet}
    (h : b.unread = c :: rest) : b.isReadable = true :=
  (isReadable_iff wf).2 (by simp [h])

theorem not_isReadable_of_unread {b : Buffer} (wf : b.WF) (h : b.unread = []) :
    b.isReadable = false := by
  have := (isReadable_iff wf).not
  simp_all

/-! ## Reading -/

theorem peekNext_of_unread {b : Buffer} (wf : b.WF) {c : Octet} {rest : List Octet}
    (h : b.unread = c :: rest) : b.peekNext = c := by
  have inside : b.readPosition < b.writePosition :=
    (isReadable_iff_lt b).1 (isReadable_of_unread wf h)
  have head : b.written[b.readPosition]? = some c := by
    rw [← List.head?_drop]
    simpa [unread] using congrArg List.head? h
  rw [written, List.getElem?_take_of_lt inside] at head
  simp [peekNext, isReadable_of_unread wf h, List.getD_eq_getElem?_getD, head]

theorem skipNext_unread (b : Buffer) (wf : b.WF) : b.skipNext.unread = b.unread.tail := by
  by_cases h : b.isReadable = true
  · simp only [skipNext, h, if_true, unread, written, List.tail_drop]
  · have empty : b.unread = [] := by simpa using (isReadable_iff wf).not.1 h
    simp [skipNext, h, empty]

theorem skipNext_unread_cons {b : Buffer} (wf : b.WF) {c : Octet} {rest : List Octet}
    (h : b.unread = c :: rest) : b.skipNext.unread = rest := by
  simp [skipNext_unread b wf, h]

/-- A count within what is readable moves the read position by exactly that count. -/
theorem skip_readPosition {b : Buffer} (wf : b.WF) {n : Nat} (h : n ≤ b.readable) :
    (b.skip n).readPosition = b.readPosition + n := by
  have := wf.read_le
  have := wf.write_le
  have := wf.limit
  simp only [readable] at h
  simp only [skip]
  rw [Nat.mod_eq_of_lt (a := n) (by omega), Nat.mod_eq_of_lt (by omega), if_neg (by omega)]

theorem skip_unread {b : Buffer} (wf : b.WF) {n : Nat} (h : n ≤ b.readable) :
    (b.skip n).unread = b.unread.drop n := by
  have moved := skip_readPosition wf h
  rw [unread, unread, moved, List.drop_drop]
  rfl

theorem skip_wf {b : Buffer} (wf : b.WF) (n : Nat) : (b.skip n).WF := by
  refine ⟨?_, wf.write_le, wf.limit⟩
  simp only [skip]
  split <;> omega

theorem skipNext_wf {b : Buffer} (wf : b.WF) : b.skipNext.WF := by
  by_cases h : b.isReadable = true
  · refine ⟨?_, by simpa [skipNext, h] using wf.write_le, by simpa [skipNext, h] using wf.limit⟩
    have := (isReadable_iff_lt b).1 h
    simp only [skipNext, h, if_true]
    omega
  · simpa [skipNext, h] using wf

/-- Stepping the read position back over the octet just read restores the buffer. -/
theorem setReadPosition_skipNext {b : Buffer} (wf : b.WF) (h : b.isReadable = true) :
    b.skipNext.setReadPosition (b.skipNext.readPosition - 1) = b := by
  have := wf.read_le
  have := wf.write_le
  simp only [skipNext, h, if_true, setReadPosition, capacity]
  rw [if_neg (by omega)]
  simp

/-- Two buffers that differ only in the read position. -/
def SameButRead (b b' : Buffer) : Prop := { b' with readPosition := b.readPosition } = b

theorem SameButRead.refl (b : Buffer) : SameButRead b b := rfl

theorem SameButRead.skipNext {b b' : Buffer} (h : SameButRead b b') : SameButRead b b'.skipNext := by
  unfold SameButRead Buffer.skipNext at *
  split <;> simpa using h

/-- Going back to a remembered read position undoes any number of reads. -/
theorem SameButRead.restore {b b' : Buffer} (wf : b.WF) (h : SameButRead b b') :
    b'.setReadPosition b.readPosition = b := by
  have storage : b'.storage = b.storage := by rw [← h]
  have := wf.read_le
  have := wf.write_le
  have inside : ¬ b'.capacity < b.readPosition := by
    rw [capacity, storage]; omega
  rw [setReadPosition, if_neg inside]
  exact h

@[simp] theorem readMark_unread (b : Buffer) : b.readMark.unread = b.unread := rfl

theorem readMark_wf {b : Buffer} (wf : b.WF) : b.readMark.WF := ⟨wf.read_le, wf.write_le, wf.limit⟩

@[simp] theorem readMark_capacity (b : Buffer) : b.readMark.capacity = b.capacity := rfl

@[simp] theorem skipNext_capacity (b : Buffer) : b.skipNext.capacity = b.capacity := by
  simp only [skipNext]; split <;> rfl

/-! ## Writing -/

theorem fill_written {b : Buffer} (wf : b.WF) (octets : List Octet) :
    (b.fill octets).written = b.written ++ octets := by
  have h : (b.storage.take b.writePosition ++ octets).length =
      b.writePosition + octets.length := by simp [wf.write_le]
  simp only [written, fill]
  rw [← h, List.take_left]

theorem fill_unread {b : Buffer} (wf : b.WF) (octets : List Octet) :
    (b.fill octets).unread = b.unread ++ octets := by
  have h : b.readPosition ≤ b.written.length := by rw [written_length wf]; exact wf.read_le
  simp only [unread, fill_written wf]
  rw [show (b.fill octets).readPosition = b.readPosition from rfl, List.drop_append_of_le_length h]

theorem fill_capacity {b : Buffer} (wf : b.WF) {octets : List Octet}
    (fits : octets.length ≤ b.writable) : (b.fill octets).capacity = b.capacity := by
  have := wf.write_le
  simp only [writable, capacity] at fits
  simp only [capacity, fill, List.length_append, List.length_take, List.length_drop]
  omega

theorem fill_wf {b : Buffer} (wf : b.WF) {octets : List Octet} (fits : octets.length ≤ b.writable) :
    (b.fill octets).WF := by
  have := wf.read_le
  have := wf.write_le
  have same := fill_capacity wf fits
  simp only [writable, capacity] at fits same
  refine ⟨?_, ?_, ?_⟩
  · simp only [fill]; omega
  · rw [same]; simp only [fill]; omega
  · rw [same]; exact wf.limit

/-- `putNext` on a buffer with room is a fill with one octet. -/
theorem putNext_eq_fill {b : Buffer} (h : b.isWritable = true) (c : Octet) :
    b.putNext c = b.fill [c] := by
  simp only [putNext, h, if_true, fill, List.length_singleton]
  rw [List.set_eq_take_append_cons_drop, if_pos ((isWritable_iff_lt b).1 h)]
  simp

theorem putNext_written {b : Buffer} (wf : b.WF) (h : b.isWritable = true) (c : Octet) :
    (b.putNext c).written = b.written ++ [c] := by
  rw [putNext_eq_fill h, fill_written wf]

theorem putNext_wf {b : Buffer} (wf : b.WF) (c : Octet) : (b.putNext c).WF := by
  by_cases h : b.isWritable = true
  · rw [putNext_eq_fill h]
    exact fill_wf wf (by simpa [isWritable, Nat.succ_le_iff] using h)
  · simpa [putNext, h] using wf

@[simp] theorem putNext_capacity (b : Buffer) (c : Octet) : (b.putNext c).capacity = b.capacity := by
  simp only [putNext]; split <;> simp [capacity]

theorem putNext_writable {b : Buffer} (some : 0 < b.writable) (c : Octet) :
    (b.putNext c).writable + 1 = b.writable := by
  have writable : b.isWritable = true := by simpa [isWritable] using some
  have capacity := putNext_capacity b c
  simp only [Buffer.writable, capacity] at some ⊢
  simp only [putNext, writable, if_true]
  omega

@[simp] theorem clear_written (b : Buffer) : b.clear.written = [] := by simp [clear, written]

@[simp] theorem clear_unread (b : Buffer) : b.clear.unread = [] := by simp [unread]

@[simp] theorem clear_capacity (b : Buffer) : b.clear.capacity = b.capacity := rfl

theorem clear_wf {b : Buffer} (wf : b.WF) : b.clear.WF := ⟨Nat.le_refl _, Nat.zero_le _, wf.limit⟩

/-! ## Compaction -/

theorem compact_eq_false_iff (b : Buffer) : b.compact.1 = false ↔ b.readPosition = 0 := by
  simp only [compact]; split <;> simp_all

theorem compact_written {b : Buffer} (wf : b.WF) (moved : b.compact.1 = true) :
    b.compact.2.written = b.unread := by
  have h : b.readPosition ≠ 0 := by
    intro zero; simp [(compact_eq_false_iff b).2 zero] at moved
  have := wf.read_le
  have := wf.write_le
  simp only [compact, h, if_false, written, moveToFront, unread, List.drop_take]
  rw [List.take_append_of_le_length (by simp; omega), List.take_take, Nat.min_self]

theorem compact_unread {b : Buffer} (wf : b.WF) (moved : b.compact.1 = true) :
    b.compact.2.unread = b.unread := by
  have start : b.compact.2.readPosition = 0 := by
    simp only [compact]; split <;> simp_all
  rw [unread, start, List.drop_zero, compact_written wf moved]

theorem compact_capacity {b : Buffer} (wf : b.WF) : b.compact.2.capacity = b.capacity := by
  have := wf.read_le
  have := wf.write_le
  simp only [compact, capacity]
  split
  · rfl
  · simp only [moveToFront, List.length_append, List.length_take, List.length_drop]
    omega

theorem compact_wf {b : Buffer} (wf : b.WF) : b.compact.2.WF := by
  have bound := wf.write_le
  have same := compact_capacity wf
  have limit : b.compact.2.storage.length < 2 ^ 32 := by
    simp only [capacity] at same; rw [same]; exact wf.limit
  refine ⟨?_, ?_, limit⟩
  · simp only [compact]; split
    · exact wf.read_le
    · exact Nat.zero_le _
  · simp only [capacity] at same
    rw [same]
    simp only [compact]
    split <;> simp only <;> omega

end Buffer

end Everscale
