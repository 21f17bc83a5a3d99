/-
# Everscale.Http1.SendBody -- a body formatted through a send buffer

How a body leaves through the formatter: a block of it is offered to `beginBlock`, exactly
the size that this grants is copied behind the size line, `endBlock` ends the block, and
when the body is used up `endBody` ends it.  In between the send buffer is flushed as the
connection takes it.  `SendingBody` is the state of that protocol and `sendBody` a run of
it, under any order of offers of any size and flushes of any size.

`beginBlock` writes the size with `FormatInteger`, which counts in an `int`: from `2 ^ 28`
on it writes no digits.  Below that the octets that are sent are a chunked body that
carries what was copied (`sendBody_decodes`).
-/
import Everscale.Http1.RequestFormatter
import Everscale.Http1.ReceiveBody

namespace Everscale

set_option autoImplicit false

open Theory HttpUtil
open HttpMessageFormatter (beginBlock endBlock endBody reserved)
open HttpMessageParser (hexValue)

variable {χ : Type}

/-- What the caller of the formatter has to do next. -/
inductive BlockPhase where
  | ready
  | granted (size : Nat)
  | copied
  | ended
  deriving DecidableEq, Repr

/-- A body on its way out; `body` is what has not been copied yet. -/
structure SendingBody (χ : Type) where
  formatter : HttpMessageFormatter χ
  output : Buffer
  body : List Octet
  phase : BlockPhase := .ready
  sent : List Octet := []

inductive BodyEvent where
  | flush (size : Nat)
  | offer (size : Nat)
  | copy
  | endBlock
  | endBody
  deriving DecidableEq, Repr

namespace SendingBody

/-- What has left the formatter so far. -/
def formatted (s : SendingBody χ) : List Octet := s.sent ++ s.output.unread

def flush (size : Nat) (s : SendingBody χ) : SendingBody χ :=
  let size := min size s.output.unread.length
  { s with output := s.output.send size, sent := s.sent ++ s.output.unread.take size }

/-- Offers a block of the body, and of no more than is left of it. -/
def offer (size : Nat) (s : SendingBody χ) : SendingBody χ :=
  let o := beginBlock (min size s.body.length) s.formatter s.output
  { s with
    output := o.output
    phase := match o.code, o.maxChunkSize with
      | .success, some size => .granted size
      | _, _ => .ready }

/-- Copies exactly what was granted. -/
def copy (size : Nat) (s : SendingBody χ) : SendingBody χ :=
  { s with
    output := s.output.fill (s.body.take size)
    body := s.body.drop size
    phase := .copied }

def closeBlock (s : SendingBody χ) : SendingBody χ :=
  let (code, output) := endBlock s.formatter s.output
  { s with output, phase := if code = .success then .ready else .copied }

def closeBody (s : SendingBody χ) : SendingBody χ :=
  let o := endBody s.formatter s.output
  { s with
    formatter := o.state
    output := o.output
    phase := if o.code = .success then .ended else .ready }

/-- What an event does; one that is not due does nothing. -/
def step (e : BodyEvent) (s : SendingBody χ) : SendingBody χ :=
  match e, s.phase with
  | .flush size, _ => s.flush size
  | .offer size, .ready => s.offer size
  | .copy, .granted size => s.copy size
  | .endBlock, .copied => s.closeBlock
  | .endBody, .ready => if s.body = [] then s.closeBody else s
  | _, _ => s

end SendingBody

def sendBody : List BodyEvent → SendingBody χ → SendingBody χ
  | [], s => s
  | e :: events, s => sendBody events (s.step e)

/-- What a block is granted: what is offered, within the room that is not reserved. -/
def grantedSize (offered : Nat) (b : Buffer) : Nat := min offered (b.writable - reserved)

/-- A block that is offered is not granted `2 ^ 28` octets or more. -/
def Grantable (e : BodyEvent) (s : SendingBody χ) : Prop :=
  ∀ size, e = .offer size → s.phase = .ready →
    grantedSize (min size s.body.length) s.output < 2 ^ 28

instance (e : BodyEvent) (s : SendingBody χ) : Decidable (Grantable e s) :=
  match e with
  | .offer size =>
      decidable_of_iff (s.phase = .ready →
        grantedSize (min size s.body.length) s.output < 2 ^ 28)
        ⟨fun h _ same => by cases same; exact h, fun h => h size rfl⟩
  | .flush _ | .copy | .endBlock | .endBody => .isTrue nofun

def EveryEvent (p : BodyEvent → SendingBody χ → Prop) : List BodyEvent → SendingBody χ → Prop
  | [], _ => True
  | e :: events, s => p e s ∧ EveryEvent p events (s.step e)

instance decidableEveryEvent (p : BodyEvent → SendingBody χ → Prop) [∀ e s, Decidable (p e s)] :
    ∀ events s, Decidable (EveryEvent p events s)
  | [], _ => .isTrue trivial
  | e :: events, s =>
      have := decidableEveryEvent p events (s.step e)
      inferInstanceAs (Decidable (p e s ∧ EveryEvent p events (s.step e)))

/-! ## What the formatter does at one call -/

section calls

variable {formatter : HttpMessageFormatter χ} {b : Buffer} {held : List Octet} {mark : Nat}

/-- What `FormatInteger` makes of a size: the numeral, unless it overflows. -/
structure Numbered (size : Nat) (text : List Octet) : Prop where
  writes : ∀ b : Buffer, 8 ≤ b.writable →
    FormatInteger size 16 b = (.success, Writer.putAll b text)
  short : text.length ≤ 8

theorem beginBlock_full (chunked : formatter.body = .chunked) {offered : Nat} (some : 0 < offered)
    (full : b.writable ≤ reserved) : beginBlock offered formatter b = ⟨.again, none, b⟩ := by
  simp only [beginBlock, Nat.ne_of_gt some, if_false, chunked, HttpMessageFormatter.beginChunk,
    full, if_true]

/-- A block that is granted has its size line in the buffer, and room for its data and the
line break behind them. -/
theorem beginBlock_grants (chunked : formatter.body = .chunked) (holds : Holds b held mark)
    {offered : Nat} (some : 0 < offered) (room : reserved < b.writable) {text : List Octet}
    (numbered : Numbered (grantedSize offered b) text) :
    let o := beginBlock offered formatter b
    o.code = .success ∧ o.maxChunkSize = .some (grantedSize offered b) ∧
      o.output.capacity = b.capacity ∧ Holds o.output (held ++ (text ++ CRLF)) mark ∧
      (held ++ (text ++ CRLF)).length + grantedSize offered b + 2 ≤ b.capacity := by
  have writable := holds.writable
  have short := numbered.short
  have granted : grantedSize offered b ≤ b.writable - reserved := Nat.min_le_right _ _
  simp only [reserved] at room granted
  have size := numbered.writes b (by omega)
  obtain ⟨holds', capacity'⟩ := holds.putAll text (by omega)
  obtain ⟨holds'', capacity''⟩ := holds'.putAll CRLF
    (by rw [capacity', List.length_append]; simp; omega)
  have fits : ¬ (Writer.putAll b text).writable < CRLF.length := by
    rw [holds'.writable, capacity', List.length_append]; simp; omega
  have runs : beginBlock offered formatter b =
      ⟨.success, .some (grantedSize offered b), Writer.putAll (Writer.putAll b text) CRLF⟩ := by
    have enough : ¬ b.writable ≤ reserved := by simp only [reserved]; omega
    simp only [beginBlock, Nat.ne_of_gt some, if_false, chunked, HttpMessageFormatter.beginChunk,
      enough, Writer.andThen, Writer.orRollback]
    rw [show min offered (b.writable - reserved) = grantedSize offered b from rfl, size]
    simp only [Writer.literal, fits, if_false]
  rw [runs]
  rw [List.append_assoc] at holds''
  refine ⟨rfl, rfl, capacity''.trans capacity', holds'', ?_⟩
  simp only [List.length_append, List.length_cons, List.length_nil]
  omega

theorem endBlock_ends (chunked : formatter.body = .chunked) (holds : Holds b held mark)
    (room : held.length + 2 ≤ b.capacity) :
    (endBlock formatter b).1 = .success ∧ Holds (endBlock formatter b).2 (held ++ CRLF) mark ∧
      (endBlock formatter b).2.capacity = b.capacity := by
  have enough : ¬ b.writable < 2 := by rw [holds.writable]; omega
  obtain ⟨holds', capacity⟩ := holds.putAll CRLF room
  simp only [endBlock, chunked, HttpMessageFormatter.endChunk, enough, if_false]
  exact ⟨trivial, holds', capacity⟩

theorem lastChunk_length : (octets "0\r\n\r\n").length = 5 := by decide

theorem endBody_full (chunked : formatter.body = .chunked) (full : b.writable < 5) :
    endBody formatter b = ⟨.again, formatter, b⟩ := by
  simp only [endBody, chunked, full, if_true]

theorem endBody_ends (chunked : formatter.body = .chunked) (holds : Holds b held mark)
    (room : held.length + 5 ≤ b.capacity) :
    (endBody formatter b).code = .success ∧
      (∃ mark', Holds (endBody formatter b).output (held ++ octets "0\r\n\r\n") mark') ∧
      (endBody formatter b).output.capacity = b.capacity := by
  have enough : ¬ b.writable < 5 := by rw [holds.writable]; omega
  have fits : held.length + (octets "0\r\n\r\n").length ≤ b.capacity := by
    rw [lastChunk_length]; exact room
  obtain ⟨holds', capacity⟩ := holds.putAll _ fits
  have runs : endBody formatter b = ⟨.success, { formatter with body := .bodyFormatComplete },
      (Writer.putAll b (octets "0\r\n\r\n")).writeMark⟩ := by
    simp only [endBody, chunked, enough, if_false]
  rw [runs]
  generalize octets "0\r\n\r\n" = text at holds' capacity ⊢
  exact ⟨rfl, ⟨_, holds'.writeMark⟩, capacity⟩

end calls

/-! ## Chunks -/

theorem isHex_digitOctet : ∀ d, d < 16 → isHex (digitOctet d) = true := by decide

theorem hexValue_digitOctet : ∀ d, d < 16 → hexValue (digitOctet d) = d := by decide

theorem numbered_of_small {size : Nat} (small : size < 2 ^ 28) :
    Numbered size (numeral 16 size) := by
  have below : size < 16 ^ 7 := small
  have length := numeral_length_le (by decide : 1 < 16) (by decide : 0 < 7) below
  refine ⟨fun b room => ?_, Nat.le_trans length (by decide)⟩
  rw [FormatInteger_eq (by decide) (by decide) below (by decide), if_neg]
  exact Nat.not_lt.2 (Nat.le_trans length (Nat.le_trans (by decide) room))

/-- A size of `2 ^ 28` overflows. -/
theorem numbered_of_large : Numbered (2 ^ 28) [] where
  writes b room := by
    have overflows : magnitudeLoop 16 32 (int32 (2 ^ 28 : Nat)) 1 0 = (0, 8) := by decide
    have enough : ¬ b.writable < 8 := Nat.not_lt.2 room
    rw [FormatInteger, if_neg (by decide), if_neg (by decide), overflows]
    simp only [enough, if_false]
    rfl
  short := by decide

/-- The chunk that a granted block becomes. -/
def chunkOf (data : List Octet) (some : data ≠ []) (small : data.length < 2 ^ 28) : Chunk where
  size := numeral 16 data.length
  extension := []
  data := data
  digits := numeral_digits (by decide) isHex_digitOctet _
  value := foldl_numeral (by decide) (by decide) hexValue_digitOctet _
  nonempty := some
  bound := Nat.lt_trans small (by decide)
  line := nofun
  apart := nofun

/-- A body that is sent in chunks without a trailer. -/
def bodyOf (chunks : List Chunk) : ChunkedBody where
  chunks := chunks
  zeros := [octet '0']
  extension := []
  trailer := []
  some := List.cons_ne_nil _ _
  allZero _ inside := List.mem_singleton.1 inside
  line := nofun
  apart := nofun
  nonblank := nofun

theorem bodyOf_encode (chunks : List Chunk) :
    (bodyOf chunks).encode = chunks.flatMap Chunk.encode ++ octets "0\r\n\r\n" := by
  have closing : octets "0\r\n\r\n" = [octet '0'] ++ [CR, LF] ++ [CR, LF] := by decide
  simp only [ChunkedBody.encode, bodyOf, List.flatMap_nil, closing, List.append_assoc,
    List.nil_append, List.append_nil]

/-! ## Runs -/

section runs

/-- What has been formatted since `before` are the chunks of what has been copied, and a
part of the next one. -/
structure Carries (before : List Octet) (chunks : List Chunk) (part held : List Octet)
    (mark capacity : Nat) (s : SendingBody χ) : Prop where
  holds : Holds s.output held mark
  capacity_eq : s.output.capacity = capacity
  formatted : s.sent ++ held = before ++ (chunks.flatMap Chunk.encode ++ part)

/-- Where the protocol stands, with `body` to be sent behind `before`. -/
inductive Stands (before body : List Octet) (capacity : Nat) (s : SendingBody χ) : Prop
  | ready (chunks : List Chunk) (held : List Octet) (mark : Nat) (phase : s.phase = .ready)
      (chunked : s.formatter.body = .chunked)
      (carries : Carries before chunks [] held mark capacity s)
      (copied : chunks.flatMap Chunk.data ++ s.body = body)
  | granted (size : Nat) (chunks : List Chunk) (held : List Octet) (mark : Nat)
      (phase : s.phase = .granted size) (chunked : s.formatter.body = .chunked)
      (carries : Carries before chunks (numeral 16 size ++ CRLF) held mark capacity s)
      (copied : chunks.flatMap Chunk.data ++ s.body = body) (some : 0 < size)
      (within : size ≤ s.body.length) (small : size < 2 ^ 28)
      (room : held.length + size + 2 ≤ capacity)
  | copied (data : List Octet) (chunks : List Chunk) (held : List Octet) (mark : Nat)
      (phase : s.phase = .copied) (chunked : s.formatter.body = .chunked)
      (carries : Carries before chunks (numeral 16 data.length ++ CRLF ++ data) held mark capacity s)
      (copied : chunks.flatMap Chunk.data ++ data ++ s.body = body) (some : data ≠ [])
      (small : data.length < 2 ^ 28) (room : held.length + 2 ≤ capacity)
  | ended (chunks : List Chunk) (held : List Octet) (mark : Nat) (phase : s.phase = .ended)
      (carries : Carries before chunks (octets "0\r\n\r\n") held mark capacity s)
      (copied : chunks.flatMap Chunk.data = body)

variable {before body : List Octet} {capacity : Nat} {s : SendingBody χ}

/-- A flush moves octets from the buffer to what has been sent, and makes room. -/
theorem Carries.flush {chunks : List Chunk} {part held : List Octet} {mark : Nat}
    (carries : Carries before chunks part held mark capacity s) (size : Nat) :
    ∃ held' mark', Carries before chunks part held' mark' capacity (s.flush size) ∧
      held'.length ≤ held.length := by
  obtain ⟨holds, capacity_eq, formatted⟩ := carries
  have flushed : s.flush size = { s with
      output := s.output.send (min size held.length)
      sent := s.sent ++ held.take (min size held.length) } := by
    rw [SendingBody.flush, holds.unread]
  by_cases none : min size held.length = 0
  · have same : s.flush size = { s with output := s.output, sent := s.sent } := by
      rw [flushed, none, Buffer.send, if_pos rfl, List.take_zero, List.append_nil]
    rw [same]
    exact ⟨held, mark, ⟨holds, capacity_eq, formatted⟩, Nat.le_refl _⟩
  · obtain ⟨holds', capacity'⟩ := holds.send (Nat.pos_of_ne_zero none) (Nat.min_le_right _ _)
    rw [flushed]
    refine ⟨_, _, ⟨holds', capacity'.trans capacity_eq, ?_⟩, ?_⟩
    · rw [List.append_assoc, List.take_append_drop]
      exact formatted
    · rw [List.length_drop]; exact Nat.sub_le _ _

theorem Stands.flush (stands : Stands before body capacity s) (size : Nat) :
    Stands before body capacity (s.flush size) := by
  cases stands with
  | ready chunks held mark phase chunked carries copied =>
      obtain ⟨held', mark', carries', _⟩ := carries.flush size
      exact .ready chunks held' mark' phase chunked carries' copied
  | granted size' chunks held mark phase chunked carries copied some within small room =>
      obtain ⟨held', mark', carries', shorter⟩ := carries.flush size
      exact .granted size' chunks held' mark' phase chunked carries' copied some within small
        (by omega)
  | copied data chunks held mark phase chunked carries copied some small room =>
      obtain ⟨held', mark', carries', shorter⟩ := carries.flush size
      exact .copied data chunks held' mark' phase chunked carries' copied some small (by omega)
  | ended chunks held mark phase carries copied =>
      obtain ⟨held', mark', carries', _⟩ := carries.flush size
      exact .ended chunks held' mark' phase carries' copied

theorem offer_nothing (s : SendingBody χ) {size : Nat} (ready : s.phase = .ready)
    (none : min size s.body.length = 0) : s.offer size = s := by
  simp only [SendingBody.offer, none, beginBlock, if_true]
  rw [← ready]

theorem offer_full (s : SendingBody χ) {size : Nat} (ready : s.phase = .ready)
    (chunked : s.formatter.body = .chunked) (some : 0 < min size s.body.length)
    (full : s.output.writable ≤ reserved) : s.offer size = s := by
  simp only [SendingBody.offer, beginBlock_full chunked some full]
  rw [← ready]

/-- What an offer that is granted comes to, whatever `FormatInteger` makes of the size. -/
theorem offer_grants {chunks : List Chunk} {part held text : List Octet} {mark size : Nat}
    (chunked : s.formatter.body = .chunked)
    (carries : Carries before chunks part held mark capacity s)
    (some : 0 < min size s.body.length) (room : reserved < s.output.writable)
    (numbered : Numbered (grantedSize (min size s.body.length) s.output) text) :
    let granted := grantedSize (min size s.body.length) s.output
    let s' := s.offer size
    s'.phase = .granted granted ∧ s'.formatter = s.formatter ∧ s'.body = s.body ∧
      Carries before chunks (part ++ (text ++ CRLF)) (held ++ (text ++ CRLF)) mark capacity s' ∧
      (held ++ (text ++ CRLF)).length + granted + 2 ≤ capacity := by
  obtain ⟨holds, capacity_eq, formatted⟩ := carries
  obtain ⟨code, size_eq, capacity', holds', fits⟩ :=
    beginBlock_grants chunked holds some room numbered
  have phase : (s.offer size).phase = .granted (grantedSize (min size s.body.length) s.output) := by
    simp only [SendingBody.offer, code, size_eq]
  refine ⟨phase, rfl, rfl, ⟨holds', capacity'.trans capacity_eq, ?_⟩, capacity_eq ▸ fits⟩
  rw [show (s.offer size).sent = s.sent from rfl, ← List.append_assoc, formatted]
  simp only [List.append_assoc]

theorem Stands.offer {chunks : List Chunk} {held : List Octet} {mark : Nat}
    (phase : s.phase = .ready) (chunked : s.formatter.body = .chunked)
    (carries : Carries before chunks [] held mark capacity s)
    (copied : chunks.flatMap Chunk.data ++ s.body = body) {size : Nat}
    (small : grantedSize (min size s.body.length) s.output < 2 ^ 28) :
    Stands before body capacity (s.offer size) := by
  have stands : Stands before body capacity s := .ready chunks held mark phase chunked carries copied
  by_cases none : min size s.body.length = 0
  · rwa [offer_nothing s phase none]
  · by_cases full : s.output.writable ≤ reserved
    · rwa [offer_full s phase chunked (Nat.pos_of_ne_zero none) full]
    · have some := Nat.pos_of_ne_zero none
      have room := Nat.lt_of_not_le full
      obtain ⟨phase', formatter, body', carries', fits⟩ :=
        offer_grants chunked carries some room (numbered_of_small small)
      have positive : 0 < grantedSize (min size s.body.length) s.output :=
        Nat.lt_min.2 ⟨some, Nat.sub_pos_of_lt room⟩
      have within : grantedSize (min size s.body.length) s.output ≤ s.body.length :=
        Nat.le_trans (Nat.min_le_left _ _) (Nat.min_le_right _ _)
      exact .granted _ chunks _ mark phase' (formatter ▸ chunked) carries' (by rw [body']; exact copied)
        positive (body' ▸ within) small fits

theorem copy_carries {chunks : List Chunk} {part held : List Octet} {mark size : Nat}
    (carries : Carries before chunks part held mark capacity s) (within : size ≤ s.body.length)
    (room : held.length + size + 2 ≤ capacity) :
    Carries before chunks (part ++ s.body.take size) (held ++ s.body.take size) mark capacity
        (s.copy size) ∧
      (held ++ s.body.take size).length + 2 ≤ capacity := by
  obtain ⟨holds, capacity_eq, formatted⟩ := carries
  have length : (s.body.take size).length = size := List.length_take_of_le within
  obtain ⟨holds', capacity'⟩ := holds.fill (s.body.take size) (by rw [length, capacity_eq]; omega)
  refine ⟨⟨holds', capacity'.trans capacity_eq, ?_⟩, by rw [List.length_append, length]; omega⟩
  rw [show (s.copy size).sent = s.sent from rfl, ← List.append_assoc, formatted]
  simp only [List.append_assoc]

theorem closeBlock_carries {chunks : List Chunk} {part held : List Octet} {mark : Nat}
    (chunked : s.formatter.body = .chunked)
    (carries : Carries before chunks part held mark capacity s)
    (room : held.length + 2 ≤ capacity) :
    (endBlock s.formatter s.output).1 = .success ∧ s.closeBlock.phase = .ready ∧
      Carries before chunks (part ++ CRLF) (held ++ CRLF) mark capacity s.closeBlock := by
  obtain ⟨holds, capacity_eq, formatted⟩ := carries
  obtain ⟨code, holds', capacity'⟩ := endBlock_ends chunked holds (capacity_eq.symm ▸ room)
  refine ⟨code, ?_, holds', capacity'.trans capacity_eq, ?_⟩
  · simp only [SendingBody.closeBlock, code, if_true]
  · rw [show s.closeBlock.sent = s.sent from rfl, ← List.append_assoc, formatted]
    simp only [List.append_assoc]

theorem closeBody_carries {chunks : List Chunk} {part held : List Octet} {mark : Nat}
    (chunked : s.formatter.body = .chunked)
    (carries : Carries before chunks part held mark capacity s)
    (room : held.length + 5 ≤ capacity) :
    s.closeBody.phase = .ended ∧ ∃ held' mark',
      Carries before chunks (part ++ octets "0\r\n\r\n") held' mark' capacity s.closeBody := by
  obtain ⟨holds, capacity_eq, formatted⟩ := carries
  obtain ⟨code, ⟨mark', holds'⟩, capacity'⟩ := endBody_ends chunked holds (capacity_eq.symm ▸ room)
  refine ⟨?_, _, mark', holds', capacity'.trans capacity_eq, ?_⟩
  · simp only [SendingBody.closeBody, code, if_true]
  · rw [show s.closeBody.sent = s.sent from rfl, ← List.append_assoc, formatted]
    simp only [List.append_assoc]

theorem closeBody_full (s : SendingBody χ) (ready : s.phase = .ready)
    (chunked : s.formatter.body = .chunked) (full : s.output.writable < 5) : s.closeBody = s := by
  simp only [SendingBody.closeBody, endBody_full chunked full]
  rw [if_neg (by decide), ← ready]

/-- The block that has been copied becomes a chunk. -/
theorem Stands.closeBlock {data held : List Octet} {chunks : List Chunk} {mark : Nat}
    (chunked : s.formatter.body = .chunked)
    (carries : Carries before chunks (numeral 16 data.length ++ CRLF ++ data) held mark capacity s)
    (copied : chunks.flatMap Chunk.data ++ data ++ s.body = body) (some : data ≠ [])
    (small : data.length < 2 ^ 28) (room : held.length + 2 ≤ capacity) :
    Stands before body capacity s.closeBlock := by
  obtain ⟨_, phase, holds, capacity_eq, formatted⟩ := closeBlock_carries chunked carries room
  have encoded : (chunks ++ [chunkOf data some small]).flatMap Chunk.encode =
      chunks.flatMap Chunk.encode ++ (numeral 16 data.length ++ CRLF ++ data ++ CRLF) := by
    simp only [List.flatMap_append, List.flatMap_cons, List.flatMap_nil, Chunk.encode, chunkOf,
      List.append_nil, List.append_assoc]
  refine .ready (chunks ++ [chunkOf data some small]) _ mark phase chunked
    ⟨holds, capacity_eq, ?_⟩ ?_
  · rw [formatted, encoded, List.append_nil]
  · rw [← copied]
    simp only [List.flatMap_append, List.flatMap_cons, List.flatMap_nil, chunkOf, List.append_nil]
    rfl

/-- **One event** keeps what has been formatted the chunks of what has been copied. -/
theorem Stands.step (stands : Stands before body capacity s) {e : BodyEvent}
    (grantable : Grantable e s) : Stands before body capacity (s.step e) := by
  have unchanged := stands
  cases e with
  | flush size => exact stands.flush size
  | offer size =>
      cases stands with
      | ready chunks held mark phase chunked carries copied =>
          simp only [SendingBody.step, phase]
          exact Stands.offer phase chunked carries copied (grantable size rfl phase)
      | granted _ _ _ _ phase | copied _ _ _ _ phase | ended _ _ _ phase =>
          simpa only [SendingBody.step, phase] using unchanged
  | copy =>
      cases stands with
      | granted size chunks held mark phase chunked carries copied some within small room =>
          simp only [SendingBody.step, phase]
          obtain ⟨carries', room'⟩ := copy_carries carries within room
          have length : (s.body.take size).length = size := List.length_take_of_le within
          refine .copied (s.body.take size) chunks _ mark rfl chunked (by rwa [length]) ?_ ?_ ?_ room'
          · rw [← copied, List.append_assoc]
            exact congrArg _ (List.take_append_drop size s.body)
          · exact List.ne_nil_of_length_pos (by omega)
          · omega
      | ready _ _ _ phase | copied _ _ _ _ phase | ended _ _ _ phase =>
          simpa only [SendingBody.step, phase] using unchanged
  | endBlock =>
      cases stands with
      | copied data chunks held mark phase chunked carries copied some small room =>
          simp only [SendingBody.step, phase]
          exact Stands.closeBlock chunked carries copied some small room
      | ready _ _ _ phase | granted _ _ _ _ phase | ended _ _ _ phase =>
          simpa only [SendingBody.step, phase] using unchanged
  | endBody =>
      cases stands with
      | ready chunks held mark phase chunked carries copied =>
          simp only [SendingBody.step, phase]
          split
          · rename_i all
            by_cases full : s.output.writable < 5
            · rwa [closeBody_full s phase chunked full]
            · have room : held.length + 5 ≤ capacity := by
                have := carries.holds.writable
                have := carries.capacity_eq
                omega
              obtain ⟨phase', held', mark', carries'⟩ := closeBody_carries chunked carries room
              refine .ended chunks held' mark' phase' (by simpa using carries') ?_
              rw [← copied, all, List.append_nil]
          · exact unchanged
      | granted _ _ _ _ phase | copied _ _ _ _ phase | ended _ _ _ phase =>
          simpa only [SendingBody.step, phase] using unchanged

theorem Stands.run (events : List BodyEvent) :
    ∀ s : SendingBody χ, Stands before body capacity s → EveryEvent Grantable events s →
      Stands before body capacity (sendBody events s) := by
  induction events with
  | nil => intro s stands _; exact stands
  | cons e events ih =>
      intro s stands ⟨grantable, later⟩
      exact ih _ (stands.step grantable) later

/-- In a buffer that has been flushed there is room for a block, and for the end. -/
theorem Stands.goesOn (stands : Stands before body capacity s) (ready : s.phase = .ready)
    (flushed : s.output.unread = []) (large : reserved < capacity) :
    (∀ size, 0 < size → grantedSize size s.output < 2 ^ 28 →
        (beginBlock size s.formatter s.output).code = .success) ∧
      (endBody s.formatter s.output).code = .success := by
  cases stands with
  | ready chunks held mark phase chunked carries copied =>
      obtain ⟨holds, capacity_eq, _⟩ := carries
      have empty : held = [] := by rw [← holds.unread, flushed]
      have writable : s.output.writable = capacity := by
        rw [holds.writable, empty, capacity_eq]; rfl
      refine ⟨fun size some small => ?_, (endBody_ends chunked holds ?_).1⟩
      · exact (beginBlock_grants chunked holds some (writable ▸ large) (numbered_of_small small)).1
      · rw [empty, capacity_eq]; simp only [reserved] at large; simp; omega
  | granted _ _ _ _ phase | copied _ _ _ _ phase | ended _ _ _ phase =>
      rw [ready] at phase; cases phase

end runs

/-! ## What the receiver makes of it -/

/-- Whatever follows them, a parser reads the octets as a chunked body that carries `body`,
in any pieces; reads from a connection have to be `Refillable`. -/
def DecodesTo {χ ρ : Type} (parser : HttpMessageParser χ ρ) (output body : List Octet) : Prop :=
  ∀ (b : Buffer) (pending rest : List Octet) (sizes : List Nat), b.WF →
    b.unread ++ pending = output ++ rest →
    pending = [] ∨ EveryRefill sizes (BodyRun.start parser b pending) →
    let run := receiveBody sizes (BodyRun.start parser b pending)
    (run.Over → run.code = .success ∧ run.delivered = body ∧ run.left = rest) ∧
      ((∀ size ∈ sizes, 0 < size) → 2 * (output ++ rest).length + 1 < sizes.length → run.Over)

theorem decodesTo_encode {χ ρ : Type} {parser : HttpMessageParser χ ρ} (at_ : AtChunkedBody parser)
    (body : ChunkedBody) : DecodesTo parser body.encode body.data := by
  intro b pending rest sizes wf shape refills
  have refills : EveryRefill sizes (BodyRun.start parser b pending) :=
    refills.elim (fun none => everyRefill_of_nothing sizes _ none) id
  obtain ⟨far, ends⟩ := receiveBody_follows sizes _ _ (follows_start at_ wf pending) refills
  refine ⟨fun stopped => ?_, fun positive enough => ends positive ?_⟩
  · obtain ⟨delivered, result⟩ := far stopped
    rw [shape, Decoder.read_encode body rest] at delivered result
    rcases result with ⟨_, code, left⟩ | ⟨phase, _⟩
    · exact ⟨code, delivered, left⟩
    · exact absurd rfl phase
  · rw [← shape] at enough
    simp only [List.length_append] at enough
    simp only [BodyRun.toCome, BodyRun.start, BodyRun.left, List.length_append, Bool.not_false,
      Bool.toNat_true]
    omega

/-- **As long as no block is granted `2 ^ 28` octets, what is sent is the body.**  A block
whose granted size was copied can be ended at once; a buffer that has been flushed has
room for a block and for the end; and when the body has been ended, a parser reads what was
formatted as exactly that body. -/
theorem sendBody_decodes (formatter : HttpMessageFormatter χ) (chunked : formatter.body = .chunked)
    (b : Buffer) (before : List Octet) (mark : Nat) (holds : Holds b before mark)
    (body : List Octet) (events : List BodyEvent)
    (grantable : EveryEvent Grantable events { formatter, output := b, body }) :
    let s := sendBody events { formatter, output := b, body }
    (s.phase = .copied → (endBlock s.formatter s.output).1 = .success) ∧
      (s.phase = .ready → s.output.unread = [] → reserved < b.capacity →
        (∀ size, 0 < size → grantedSize size s.output < 2 ^ 28 →
          (beginBlock size s.formatter s.output).code = .success) ∧
        (endBody s.formatter s.output).code = .success) ∧
      (s.phase = .ended → ∃ output, s.formatted = before ++ output ∧
        ∀ {χ ρ : Type} (parser : HttpMessageParser χ ρ), AtChunkedBody parser →
          DecodesTo parser output body) := by
  have start : Stands before body b.capacity { formatter, output := b, body } :=
    .ready [] before mark rfl chunked ⟨holds, rfl, by simp⟩ rfl
  have stands := Stands.run events _ start grantable
  refine ⟨fun phase => ?_, stands.goesOn, fun phase => ?_⟩
  · cases stands with
    | copied data chunks held mark _ chunked carries _ _ _ room =>
        exact (closeBlock_carries chunked carries room).1
    | ready _ _ _ phase' | granted _ _ _ _ phase' | ended _ _ _ phase' =>
        rw [phase] at phase'; cases phase'
  · cases stands with
    | ended chunks held mark _ carries copied =>
        refine ⟨(bodyOf chunks).encode, ?_, fun parser at_ => ?_⟩
        · rw [SendingBody.formatted, carries.holds.unread, carries.formatted, bodyOf_encode]
        · have decodes := decodesTo_encode at_ (bodyOf chunks)
          rwa [show (bodyOf chunks).data = body from copied] at decodes
    | ready _ _ _ phase' | granted _ _ _ _ phase' | copied _ _ _ _ phase' =>
        rw [phase] at phase'; cases phase'

/-- A formatter behind headers that have announced chunks. -/
def chunkedFormatter : HttpMessageFormatter RequestLineFormat :=
  { sub := {}, stage := .headerFormatComplete, body := .chunked,
    foundTransferEncodingChunked := true }

theorem sendBody_decodes_flushed :
    let s := sendBody [.offer 3, .copy, .flush 4, .endBlock, .flush 100, .offer 5, .copy, .endBlock,
        .flush 100, .endBody]
      { formatter := chunkedFormatter, output := Buffer.create 14, body := octets "abc" }
    ∃ output, s.formatted = [] ++ output ∧ ∀ {χ ρ : Type} (parser : HttpMessageParser χ ρ),
      AtChunkedBody parser → DecodesTo parser output (octets "abc") :=
  (sendBody_decodes chunkedFormatter rfl (Buffer.create 14) [] 0 (Holds.create (by decide))
    (octets "abc") _ (by decide)).2.2 (by decide)

section overflow

/-- From the trailer on nothing more is delivered. -/
theorem read_trailer_delivered {d : Decoder} (h : d.phase = .complete ∨ ∃ line, d.phase = .trailer line)
    (u : List Octet) : (d.read u).delivered = d.delivered := by
  induction u generalizing d with
  | nil => rfl
  | cons c rest ih =>
      rw [Decoder.read_cons]
      rcases h with phase | ⟨line, phase⟩
      · have here : d.step c = { d with leftover := d.leftover ++ [c] } := by
          simp only [Decoder.step, phase]
        rw [ih (.inl (by rw [here]; exact phase)), here]
      · have here : d.step c = { d with phase := Decoder.stepTrailer line c } := by
          simp only [Decoder.step, phase]
        refine (ih ?_).trans (by rw [here])
        rw [here]
        have next : ∀ line, Decoder.stepTrailer line c = .complete ∨
            ∃ line', Decoder.stepTrailer line c = .trailer line' := by
          intro line
          cases line <;> simp only [Decoder.stepTrailer] <;> split_ifs <;> simp
        exact next line

/-- A size line without digits is the last one. -/
theorem read_emptySize (u : List Octet) : (({} : Decoder).read (CRLF ++ u)).delivered = [] := by
  have line : ({} : Decoder).read CRLF = { phase := .trailer .start } := by decide
  rw [Decoder.read_append, line, read_trailer_delivered (.inr ⟨_, rfl⟩)]

variable {body : List Octet}

/-- Before a block is offered that is granted whole. -/
def oneBlock (size : Nat) (body : List Octet) : SendingBody RequestLineFormat :=
  { formatter := chunkedFormatter, output := Buffer.create (size + 64), body }

/-- A body that goes out as one block, with `text` in place of its size. -/
theorem sendBody_oneBlock {size : Nat} {text : List Octet} (some : 0 < size)
    (limit : size + 64 < 2 ^ 32) (length : body.length = size) (numbered : Numbered size text) :
    let s := sendBody [.offer size, .copy, .endBlock, .endBody] (oneBlock size body)
    s.phase = .ended ∧ s.sent = [] ∧
      s.output.unread = text ++ (CRLF ++ (body ++ (CRLF ++ octets "0\r\n\r\n"))) ∧
      s.output.WF := by
  let s₀ := oneBlock size body
  have carries : Carries [] [] [] [] 0 (size + 64) s₀ :=
    ⟨Holds.create limit, Buffer.create_capacity _, rfl⟩
  have writable : s₀.output.writable = size + 64 := by
    rw [carries.holds.writable, carries.capacity_eq]; rfl
  have offered : min size s₀.body.length = size := by
    rw [show s₀.body.length = size from length, Nat.min_self]
  have granted : grantedSize (min size s₀.body.length) s₀.output = size := by
    rw [offered, grantedSize, writable, reserved]; omega
  -- the size line
  obtain ⟨phase₁, formatter₁, body₁, carries₁, room₁⟩ := offer_grants rfl carries
    (by rwa [offered]) (by rw [writable, reserved]; omega) (granted.symm ▸ numbered)
  rw [granted] at phase₁ room₁
  have step₁ : s₀.step (.offer size) = s₀.offer size := rfl
  have body₁' : (s₀.offer size).body = body := body₁
  -- the data
  have step₂ : (s₀.offer size).step .copy = (s₀.offer size).copy size := by
    simp only [SendingBody.step, phase₁]
  obtain ⟨carries₂, room₂⟩ := copy_carries carries₁ (by rw [body₁', length]) room₁
  rw [body₁', ← length, List.take_length, length] at carries₂ room₂
  -- the end of the block
  have step₃ : ((s₀.offer size).copy size).step .endBlock =
      ((s₀.offer size).copy size).closeBlock := rfl
  obtain ⟨-, phase₃, carries₃⟩ := closeBlock_carries (by rfl) carries₂ room₂
  -- the end of the body
  have all : ((s₀.offer size).copy size).closeBlock.body = [] := by
    have : ((s₀.offer size).copy size).closeBlock.body = (s₀.offer size).body.drop size := rfl
    rw [this, body₁', ← length, List.drop_length]
  have step₄ : ((s₀.offer size).copy size).closeBlock.step .endBody =
      ((s₀.offer size).copy size).closeBlock.closeBody := by
    simp only [SendingBody.step, phase₃, all, if_true]
  have room₄ : (([] ++ (text ++ CRLF)) ++ body ++ CRLF).length + 5 ≤ size + 64 := by
    have := numbered.short
    simp only [List.length_append, List.length_cons, List.length_nil, length]
    omega
  obtain ⟨phase₄, held', mark', carries₄⟩ := closeBody_carries (by rfl) carries₃ room₄
  have runs : sendBody [.offer size, .copy, .endBlock, .endBody] (oneBlock size body) =
      ((s₀.offer size).copy size).closeBlock.closeBody := by
    rw [sendBody, step₁, sendBody, step₂, sendBody, step₃, sendBody, step₄, sendBody]
  rw [runs]
  have sent : ((s₀.offer size).copy size).closeBlock.closeBody.sent = [] := rfl
  refine ⟨phase₄, sent, ?_, carries₄.holds.wf⟩
  have formatted := carries₄.formatted
  rw [sent] at formatted
  rw [carries₄.holds.unread]
  simpa using formatted

end overflow

/-- A block of `2 ^ 28` octets that is granted at once goes out without its size, and is read
as the end of the body. -/
theorem sendBody_loses_size :
    let body := List.replicate (2 ^ 28) NUL
    let s := sendBody [.offer (2 ^ 28), .copy, .endBlock, .endBody] (oneBlock (2 ^ 28) body)
    s.phase = .ended ∧ s.sent = [] ∧
      ∀ sizes, let run := receiveBody sizes (BodyRun.start chunkedRequest s.output [])
        run.Over → run.delivered ≠ body := by
  have length : (List.replicate (2 ^ 28) NUL).length = 2 ^ 28 := List.length_replicate
  obtain ⟨phase, sent, unread, wf⟩ := sendBody_oneBlock (by norm_num) (by norm_num) length
    numbered_of_large
  refine ⟨phase, sent, fun sizes stopped same => ?_⟩
  have follows := follows_start chunkedRequest_at wf []
  obtain ⟨far, -⟩ := receiveBody_follows sizes _ _ follows (everyRefill_of_nothing sizes _ rfl)
  have delivered := (far stopped).delivered
  rw [List.append_nil, unread, List.nil_append, read_emptySize] at delivered
  have empty := congrArg List.length (same.symm.trans delivered)
  rw [length] at empty
  norm_num at empty

end Everscale
