/-
# Everscale.Http1.ChunkHeader -- the lines around the data of a chunk

A chunk begins with a line that holds its size and perhaps an extension, and ends with an empty
one.  However such a line arrives, the call of `parseBody` that gets its line feed reads all of
it (`Sized.call`), and what it makes of it depends on the line alone.

The size is read up to the first octet that is no digit, and whatever follows, up to the line
feed, is skipped; so is the end of a chunk.  A line of the grammar is read as the grammar says,
and no other line is refused: `chunk_lines_read_iff`.
-/
import Everscale.Http1.BodyStream
import Everscale.Http1.RequestParser

namespace Everscale

set_option autoImplicit false

open HttpUtil

/-! ## Lines of the grammar -/

/-- What may follow the digits on the line: nothing, an extension, or the CR of the line break,
of which `SkipLine` takes the line feed alone as well. -/
def EndsSize (rest : List Octet) : Prop :=
  rest = [] ∨ rest = [CR] ∨ rest.head? = some (octet ';')

instance (rest : List Octet) : Decidable (EndsSize rest) :=
  inferInstanceAs (Decidable (_ ∨ _ ∨ _))

/-- `chunk-size [ chunk-extension ]`, with a size of 64 bits. -/
def IsHeader (line : List Octet) : Prop :=
  line.takeWhile isHex ≠ [] ∧ sizeValue (line.takeWhile isHex) < 2 ^ 64 ∧ EndsSize (line.dropWhile isHex)

instance (line : List Octet) : Decidable (IsHeader line) :=
  inferInstanceAs (Decidable (_ ∧ _ ∧ _))

instance (line : List Octet) : Decidable (Decoder.IsBlank line) :=
  inferInstanceAs (Decidable (_ ∨ _))

namespace HttpMessageParser

variable {χ ρ : Type}

/-! ## Calls on pieces of a body -/

/-- The parser after some calls of `parseBody` that asked for more: all the octets that have
arrived, and those of them that are still unread. -/
inductive Fed (first : HttpMessageParser χ ρ) : HttpMessageParser χ ρ → List Octet → List Octet → Prop where
  | start : Fed first first [] []
  | more {s u held piece b} : Fed first s u held → b.WF → b.unread = held ++ piece → (parseBody s b).code = .again →
      Fed first (parseBody s b).state (u ++ piece) (parseBody s b).input.unread

/-- In front of the size of a chunk. -/
structure AtHeader (s : HttpMessageParser χ ρ) : Prop where
  stage : s.stage = .headerParseComplete
  body : s.body = bodyFlags (.size false)
  remaining : s.bodyBytesRemaining = 0

/-- Behind the data of a chunk. -/
structure AtEnd (s : HttpMessageParser χ ρ) : Prop where
  stage : s.stage = .headerParseComplete
  body : s.body = bodyFlags .endChunk
  remaining : s.bodyBytesRemaining = 0

theorem parseBody_chunked {s : HttpMessageParser χ ρ} {phase : ChunkPhase} (stage : s.stage = .headerParseComplete)
    (body : s.body = bodyFlags phase) (b : Buffer) : parseBody s b = parseChunkedBody s b := by
  have flags : s.body.unencodedBody = false ∧ s.body.bodyUntilClose = false ∧ s.body.chunkedBody = true := by
    rw [body]
    cases phase <;> exact ⟨rfl, rfl, rfl⟩
  simp [parseBody, stage, flags]

/-! ## The data of a chunk -/

/-- Inside the data of a chunk, with this much to come. -/
structure AmidData (s : HttpMessageParser χ ρ) (n : Nat) : Prop where
  stage : s.stage = .headerParseComplete
  body : s.body = bodyFlags .data
  remaining : s.bodyBytesRemaining = n
  positive : 0 < n
  bound : n < 2 ^ 64

/-- The parser after some calls of `parseBody` in a chunk, each followed by a `consumeBody` of
part of what it offered, and the number of octets that were taken.  The buffers may be any. -/
inductive DataRun (first : HttpMessageParser χ ρ) : HttpMessageParser χ ρ → Nat → Prop where
  | start : DataRun first first 0
  | waited {s n b} : DataRun first s n → s.body = bodyFlags .data → (parseBody s b).code = .again →
      DataRun first (parseBody s b).state n
  | consumed {s n b size taken} : DataRun first s n → s.body = bodyFlags .data → (parseBody s b).code = .success →
      (parseBody s b).chunkSize = some size → taken ≤ size →
      DataRun first (consumeBody (parseBody s b).state (parseBody s b).input taken).state (n + taken)

/-- In every run the chunk ends when `length` octets were taken, and not before; until then a call
on a buffer with something to read offers some of it. -/
def DeliversChunk (first : HttpMessageParser χ ρ) (length : Nat) : Prop :=
  ∀ s n, DataRun first s n →
    n = length ∧ AtEnd s ∨
      n < length ∧ s.body = bodyFlags .data ∧ ∀ b : Buffer, b.isReadable = true →
        (parseBody s b).code = .success ∧ ∃ size, (parseBody s b).chunkSize = some size ∧ 0 < size

section data

variable {first s : HttpMessageParser χ ρ} {length n : Nat}

theorem AmidData.parseBody_eq (h : AmidData s n) (b : Buffer) :
    parseBody s b = if b.isReadable then offer s b else ⟨.again, s, b, none, none⟩ := by
  have flags : s.body.endChunk = false ∧ s.body.chunkSize = false ∧ s.body.chunkExtension = false ∧
      s.body.chunkData = true := by
    rw [h.body]; exact ⟨rfl, rfl, rfl, rfl⟩
  have some : s.bodyBytesRemaining ≠ 0 := by
    rw [h.remaining]; exact Nat.pos_iff_ne_zero.mp h.positive
  rw [parseBody_chunked h.stage h.body]
  cases readable : b.isReadable <;>
    simp [parseChunkedBody, chunkedSize, chunkedExtension, chunkedData, parseChunkData, flags, some, readable]

theorem AmidData.consumed (h : AmidData s n) {taken : Nat} (inside : taken ≤ n) (b : Buffer) :
    taken = n ∧ AtEnd (consumeBody s b taken).state ∨ taken < n ∧ AmidData (consumeBody s b taken).state (n - taken) := by
  have rest : lessConsumed s.bodyBytesRemaining taken = n - taken := by
    rw [h.remaining, lessConsumed_eq h.bound inside]
  have flags : s.body.multipartBody = false ∧ s.body.unencodedBody = false ∧ s.body.bodyUntilClose = false ∧
      s.body.chunkedBody = true := by
    rw [h.body]; exact ⟨rfl, rfl, rfl, rfl⟩
  have bound := h.bound
  by_cases all : n - taken = 0
  · have ends : (consumeBody s b taken).state =
        { s with bodyBytesRemaining := 0, body := { s.body with chunkData := false, endChunk := true } } := by
      simp [consumeBody, h.stage, rest, all, flags]
    rw [ends]
    refine .inl ⟨by omega, h.stage, ?_, rfl⟩
    simp only [h.body, bodyFlags]
  · have stays : (consumeBody s b taken).state = { s with bodyBytesRemaining := n - taken } := by
      simp [consumeBody, h.stage, rest, all, flags]
    rw [stays]
    exact .inr ⟨by omega, h.stage, h.body, rfl, by omega, by omega⟩

/-- Every octet that is taken is one less to come. -/
theorem DataRun.stands (start : AmidData first length) (run : DataRun first s n) :
    n = length ∧ AtEnd s ∨ n < length ∧ AmidData s (length - n) := by
  induction run with
  | start => exact .inr ⟨start.positive, start⟩
  | @waited s n b _ data again ih =>
      rcases ih with ⟨-, atEnd⟩ | ⟨less, amidData⟩
      · exact absurd (data.symm.trans atEnd.body) (by simp [bodyFlags])
      · rw [amidData.parseBody_eq] at again ⊢
        cases readable : b.isReadable with
        | true => rw [readable, if_pos rfl] at again; cases again
        | false => exact .inr ⟨less, amidData⟩
  | @consumed s n b size taken _ data success offers within ih =>
      rcases ih with ⟨-, atEnd⟩ | ⟨less, amidData⟩
      · exact absurd (data.symm.trans atEnd.body) (by simp [bodyFlags])
      · rw [amidData.parseBody_eq] at success offers ⊢
        cases readable : b.isReadable with
        | false => simp [readable] at success
        | true =>
            rw [readable, if_pos rfl, offer] at offers
            have size_le : size ≤ length - n := by
              rw [← Option.some.inj offers, amidData.remaining]
              exact Nat.min_le_left _ _
            rcases amidData.consumed (within.trans size_le) b with ⟨all, atEnd⟩ | ⟨part, more⟩
            · exact .inl ⟨by omega, atEnd⟩
            · rw [Nat.sub_sub] at more
              exact .inr ⟨by omega, more⟩

theorem AmidData.delivers (start : AmidData first length) : DeliversChunk first length := by
  intro s n run
  rcases run.stands start with ended | ⟨less, amidData⟩
  · exact .inl ended
  · refine .inr ⟨less, amidData.body, fun b readable => ?_⟩
    rw [amidData.parseBody_eq, if_pos readable]
    have some : 0 < b.readable := by simpa [Buffer.isReadable] using readable
    exact ⟨rfl, _, rfl, lt_min (amidData.remaining ▸ amidData.positive) some⟩

end data

/-! ## The size line -/

@[simp] theorem LF_not_isHex : isHex LF = false := by decide

theorem feed_in_dropWhile {v : List Octet} : LF ∈ v.dropWhile isHex ↔ LF ∈ v := by
  refine ⟨(List.dropWhile_sublist isHex).mem, fun inside => ?_⟩
  rw [← List.takeWhile_append_dropWhile (p := isHex) (l := v)] at inside
  refine (List.mem_append.mp inside).resolve_left fun digit => ?_
  exact absurd (List.mem_takeWhile_imp digit) (by simp [LF_not_isHex])

theorem takeWhile_line (line rest : List Octet) : (line ++ LF :: rest).takeWhile isHex = line.takeWhile isHex := by
  rw [List.takeWhile_append, List.takeWhile_cons_of_neg (by simp [LF_not_isHex]), List.append_nil]
  split
  case isTrue whole => exact ((List.takeWhile_prefix isHex).eq_of_length whole).symm
  case isFalse => rfl

/-- A line ends at its first line feed. -/
theorem feed_split {line line' rest rest' : List Octet} (same : line ++ LF :: rest = line' ++ LF :: rest')
    (noFeed : LF ∉ line) (noFeed' : LF ∉ line') : line = line' ∧ rest = rest' := by
  induction line generalizing line' with
  | nil =>
      cases line' with
      | nil => exact ⟨rfl, (List.cons.inj same).2⟩
      | cons c line' => exact absurd ((List.cons.inj same).1 ▸ List.mem_cons_self) noFeed'
  | cons c line ih =>
      cases line' with
      | nil => exact absurd ((List.cons.inj same).1 ▸ List.mem_cons_self) noFeed
      | cons c' line' =>
          obtain ⟨first, others⟩ := List.cons.inj same
          obtain ⟨lines, rests⟩ := ih others (List.not_mem_of_not_mem_cons noFeed)
            (List.not_mem_of_not_mem_cons noFeed')
          exact ⟨by rw [first, lines], rests⟩

/-- Where the parser stands inside a size line: behind the octets `u`, of which those that follow
the digits are still unread. -/
structure Sized (s : HttpMessageParser χ ρ) (u held : List Octet) : Prop where
  stage : s.stage = .headerParseComplete
  unread : held = u.dropWhile isHex
  body : s.body = bodyFlags (if held = [] then .size false else .extension)
  remaining : s.bodyBytesRemaining = (u.takeWhile isHex).foldl Decoder.withDigit 0

/-- What the call that reads the end of a size line comes to: the end of the chunks, or a call in
front of the data. -/
def LineRead (n : Nat) (rest : List Octet) (o : BodyOutcome χ ρ) : Prop :=
  if n = 0 then
    o.code = .success ∧ o.chunkSize = some 0 ∧ o.state.body = bodyFlags (.trailer .start) ∧ o.input.unread = rest
  else ∃ s b, AmidData s n ∧ b.WF ∧ b.unread = rest ∧ o = parseBody s b

/-- What one call inside a size line comes to when the octets `v` have arrived. -/
structure LineCalled (v : List Octet) (o : BodyOutcome χ ρ) : Prop where
  waits : LF ∉ v → o.code = .again ∧ Sized o.state v o.input.unread
  ends : ∀ line rest, v = line ++ LF :: rest → LF ∉ line →
    LineRead ((line.takeWhile isHex).foldl Decoder.withDigit 0) rest o

section line

variable {s : HttpMessageParser χ ρ} {b : Buffer} {u held piece v : List Octet}

/-- Behind the digits the rest of the line is skipped. -/
theorem chunkedExtension_called (stage : s.stage = .headerParseComplete) (body : s.body = bodyFlags .extension)
    (remaining : s.bodyBytesRemaining = (v.takeWhile isHex).foldl Decoder.withDigit 0) (wf : b.WF)
    (unread : b.unread = v.dropWhile isHex) (more : b.unread ≠ []) : LineCalled v (chunkedExtension s b) := by
  have flag : s.body.chunkExtension = true := by rw [body]; rfl
  have skips := SkipLine_spec wf
  have feed := feed_in_dropWhile (v := v)
  rw [← unread] at feed
  cases found : skipLineOn false 0 b.unread with
  | none =>
      simp only [found] at skips
      have waits : chunkedExtension s b = ⟨.again, s, b, none, none⟩ := by
        simp only [chunkedExtension, flag, if_true, parseChunkExtension, skips]
      have noFeed := feed.not.mp (skipLineOn_eq_none found)
      rw [waits]
      refine ⟨fun _ => ⟨rfl, stage, unread, ?_, remaining⟩, fun line rest arrived => ?_⟩
      · rw [if_neg more]
        exact body
      · exact absurd (by simp [arrived]) noFeed
  | some line =>
      obtain ⟨n, r⟩ := line
      simp only [found] at skips
      obtain ⟨code, -, left, wf', -⟩ := skips
      obtain ⟨behind, shape, noFeed, -⟩ := skipLineOn_line found
      have skipped : parseChunkExtension b = (.success, (SkipLine b).2.2) := by
        simp only [parseChunkExtension, code]
      refine ⟨fun none => absurd (feed.mp (by simp [shape])) none, fun line rest arrived noFeed' => ?_⟩
      -- the line is the digits and what was skipped
      have whole : v.takeWhile isHex ++ behind ++ LF :: r = line ++ LF :: rest := by
        rw [← arrived, List.append_assoc, ← shape, unread, List.takeWhile_append_dropWhile]
      have plain : LF ∉ v.takeWhile isHex ++ behind := fun inside =>
        (List.mem_append.mp inside).elim
          (fun digit => absurd (List.mem_takeWhile_imp digit) (by simp [LF_not_isHex])) noFeed
      obtain ⟨-, rfl⟩ := feed_split whole plain noFeed'
      rw [← takeWhile_line line r, ← arrived, ← remaining]
      unfold LineRead
      by_cases last : s.bodyBytesRemaining = 0
      · have ended : chunkedExtension s b =
            ⟨.success, { s with body := { s.body with chunkExtension := false, trailer := true } },
              (SkipLine b).2.2.readMark, none, some 0⟩ := by
          simp only [chunkedExtension, flag, if_true, skipped, last]
        rw [if_pos last, ended]
        refine ⟨rfl, rfl, ?_, left⟩
        simp only [body, bodyFlags]
      · have bound : s.bodyBytesRemaining < 2 ^ 64 := by
          rw [remaining]; exact foldl_withDigit_lt (by decide)
        have amidData : AmidData { s with body := bodyFlags .data } s.bodyBytesRemaining :=
          ⟨stage, rfl, rfl, Nat.pos_of_ne_zero last, bound⟩
        rw [if_neg last]
        refine ⟨_, (SkipLine b).2.2.readMark, amidData, Buffer.readMark_wf wf', left, ?_⟩
        have same : parseBody { s with body := bodyFlags .data } (SkipLine b).2.2.readMark =
            chunkedData { s with body := bodyFlags .data } (SkipLine b).2.2.readMark :=
          parseBody_chunked amidData.stage amidData.body _
        rw [same]
        simp only [chunkedExtension, if_true, skipped, last, if_false, body, bodyFlags]

/-- The digits are counted, and the line is skipped from the first octet that is none. -/
theorem chunkedSize_called (stage : s.stage = .headerParseComplete) (body : s.body = bodyFlags (.size false))
    (digits : u.dropWhile isHex = []) (remaining : s.bodyBytesRemaining = u.foldl Decoder.withDigit 0) (wf : b.WF)
    (black : ∀ c ∈ (b.unread.dropWhile isHex).head?, isSpace c = false) :
    LineCalled (u ++ b.unread) (chunkedSize s b) := by
  have flag : s.body.chunkSize = true := by rw [body]; rfl
  have allHex := List.dropWhile_eq_nil_iff.mp digits
  -- there is no white space to skip
  obtain ⟨b1, skipped, wf1, unread1⟩ : ∃ b1, (if s.bodyBytesRemaining = 0 then SkipSpaces b else b) = b1 ∧ b1.WF ∧
      b1.unread = b.unread := by
    by_cases none : s.bodyBytesRemaining = 0
    · obtain ⟨left, wf', -⟩ := SkipSpaces_spec wf
      refine ⟨SkipSpaces b, if_pos none, wf', left.trans ?_⟩
      cases unread : b.unread with
      | nil => rfl
      | cons c rest =>
          have visible : isSpace c = false := by
            cases digit : isHex c with
            | true => exact Bool.eq_false_iff.mpr fun space => absurd (isSpace_not_isHex space) (by simp [digit])
            | false => exact black c (by simp [unread, digit])
          simp [visible]
    · exact ⟨b, if_neg none, wf, rfl⟩
  obtain ⟨b2, looped, wf2, -, left⟩ := chunkSizeLoop_spec b1.readable s.bodyBytesRemaining b1 wf1
    (by rw [Buffer.unread_length wf1])
  rw [unread1] at looped left
  have count : (b.unread.takeWhile isHex).foldl Decoder.withDigit s.bodyBytesRemaining =
      ((u ++ b.unread).takeWhile isHex).foldl Decoder.withDigit 0 := by
    rw [List.takeWhile_append_of_pos allHex, List.foldl_append, remaining]
  have rest : (u ++ b.unread).dropWhile isHex = b.unread.dropWhile isHex := List.dropWhile_append_of_pos allHex
  have runs : parseChunkSize s.bodyBytesRemaining b =
      (if b.unread.dropWhile isHex = [] then .again else .success,
        ((u ++ b.unread).takeWhile isHex).foldl Decoder.withDigit 0, b2) := by
    rw [parseChunkSize, skipped, looped, count]
  by_cases ended : b.unread.dropWhile isHex = []
  · have waits : chunkedSize s b = ⟨.again, { s with
        bodyBytesRemaining := ((u ++ b.unread).takeWhile isHex).foldl Decoder.withDigit 0 }, b2, none, none⟩ := by
      simp only [chunkedSize, flag, if_true, runs, ended]
    have noFeed : LF ∉ u ++ b.unread := by rw [← feed_in_dropWhile, rest, ended]; exact List.not_mem_nil
    have empty : b2.unread = [] := left.trans ended
    rw [waits]
    refine ⟨fun _ => ⟨rfl, stage, left.trans rest.symm, ?_, rfl⟩, fun line behind arrived => ?_⟩
    · rw [if_pos empty]
      exact body
    · exact absurd (by simp [arrived]) noFeed
  · have goesOn : chunkedSize s b = chunkedExtension { s with
        bodyBytesRemaining := ((u ++ b.unread).takeWhile isHex).foldl Decoder.withDigit 0
        body := { s.body with chunkSize := false, chunkExtension := true } } b2.readMark := by
      simp only [chunkedSize, flag, if_true, runs, ended, if_false]
    rw [goesOn]
    refine chunkedExtension_called stage ?_ rfl (Buffer.readMark_wf wf2) ?_ ?_
    · simp only [body, bodyFlags]
    · rw [Buffer.readMark_unread, left, rest]
    · rwa [Buffer.readMark_unread, left]

/-- **One call inside a size line**, if no white space follows the digits. -/
theorem Sized.call (h : Sized s u held) (wf : b.WF) (unread : b.unread = held ++ piece)
    (black : ∀ c ∈ ((u ++ piece).dropWhile isHex).head?, isSpace c = false) :
    LineCalled (u ++ piece) (parseBody s b) := by
  rw [parseBody_chunked h.stage h.body]
  have body := h.body
  by_cases digits : held = []
  · rw [if_pos digits] at body
    rw [digits, List.nil_append] at unread
    have allHex : u.dropWhile isHex = [] := h.unread.symm.trans digits
    have remaining := h.remaining
    rw [List.takeWhile_eq_self_iff.mpr (List.dropWhile_eq_nil_iff.mp allHex)] at remaining
    rw [List.dropWhile_append_of_pos (List.dropWhile_eq_nil_iff.mp allHex), ← unread] at black
    have here : parseChunkedBody s b = chunkedSize s b := by simp [parseChunkedBody, body, bodyFlags]
    rw [here, ← unread]
    exact chunkedSize_called h.stage body allHex remaining wf black
  · rw [if_neg digits] at body
    have here : parseChunkedBody s b = chunkedExtension s b := by
      simp [parseChunkedBody, chunkedSize, body, bodyFlags]
    have behind : (u ++ piece).dropWhile isHex = held ++ piece := by
      rw [List.dropWhile_append, ← h.unread, List.isEmpty_eq_false_iff.mpr digits, if_neg Bool.false_ne_true]
    have before : (u ++ piece).takeWhile isHex = u.takeWhile isHex := by
      have whole := List.takeWhile_append_dropWhile (p := isHex) (l := u ++ piece)
      rw [behind] at whole
      have front := List.takeWhile_append_dropWhile (p := isHex) (l := u)
      rw [← h.unread] at front
      refine List.append_cancel_right (whole.trans ?_)
      rw [← List.append_assoc, front]
    rw [here]
    refine chunkedExtension_called h.stage body ?_ wf (unread.trans behind.symm) ?_
    · rw [before, h.remaining]
    · rw [unread]
      exact List.append_ne_nil_of_left_ne_nil digits piece

end line

/-- No white space stands behind the digits of a line of the grammar, nor of any beginning. -/
theorem header_black {line rest u v : List Octet} (header : IsHeader line) (arrived : u ++ v = line ++ LF :: rest) :
    ∀ c ∈ (u.dropWhile isHex).head?, isSpace c = false := by
  intro c first
  have here : ((line ++ LF :: rest).dropWhile isHex).head? = some c := by
    rw [← arrived, List.dropWhile_append]
    cases behind : u.dropWhile isHex with
    | nil => rw [behind] at first; exact absurd first nofun
    | cons e others => rw [behind] at first; exact first
  rw [List.dropWhile_append] at here
  obtain ⟨-, -, ended⟩ := header
  rcases ended with none | cr | semicolon
  · rw [none, List.isEmpty_nil, if_pos rfl, List.dropWhile_cons_of_neg (by simp [LF_not_isHex])] at here
    rw [← Option.some.inj here]
    decide
  · rw [cr] at here
    rw [← Option.some.inj here]
    decide
  · cases behind : line.dropWhile isHex with
    | nil => rw [behind] at semicolon; exact absurd semicolon nofun
    | cons e others =>
        rw [behind] at semicolon here
        have same : e = c := Option.some.inj here
        rw [← same, Option.some.inj semicolon]
        decide

section fed

variable {first s : HttpMessageParser χ ρ} {b : Buffer} {u held piece line rest : List Octet}

/-- **Inside a line of the grammar**, whatever the pieces. -/
theorem Fed.sized (start : AtHeader first) (fed : Fed first s u held) (header : IsHeader line) (unended : LF ∉ u)
    (arrived : u ++ piece = line ++ LF :: rest) : Sized s u held := by
  induction fed generalizing piece with
  | start => exact ⟨start.stage, rfl, start.body, start.remaining⟩
  | @more s u held before b _ wf unread again ih =>
      rw [List.append_assoc] at arrived
      have here := ih (fun feed => unended (List.mem_append_left before feed)) arrived
      rw [← List.append_assoc] at arrived
      exact ((here.call wf unread (header_black header arrived)).waits unended).2

/-- While the end of a chunk is awaited everything is kept. -/
theorem Fed.ending (start : AtEnd first) (fed : Fed first s u held) (unended : LF ∉ u) : s = first ∧ held = u := by
  induction fed with
  | start => exact ⟨rfl, rfl⟩
  | @more s u held before b _ wf unread again ih =>
      obtain ⟨rfl, rfl⟩ := ih fun feed => unended (List.mem_append_left before feed)
      have flag : s.body.endChunk = true := by rw [start.body]; rfl
      have skips := SkipLine_spec wf
      cases found : skipLineOn false 0 b.unread with
      | none =>
          simp only [found] at skips
          have waits : parseBody s b = ⟨.again, s, b, none, none⟩ := by
            rw [parseBody_chunked start.stage start.body]
            simp only [parseChunkedBody, flag, if_true, parseEndChunk, skips]
          rw [waits]
          exact ⟨rfl, unread⟩
      | some line =>
          obtain ⟨behind, shape, -⟩ := skipLineOn_line found
          rw [unread] at shape
          exact absurd (by simp [shape]) unended

end fed

/-! ## No line is refused -/

/-- The parser is inside a chunk or in the lines around it. -/
structure Amid (s : HttpMessageParser χ ρ) : Prop where
  stage : s.stage = .headerParseComplete
  body : s.body = bodyFlags (.size false) ∨ s.body = bodyFlags .extension ∨ s.body = bodyFlags .endChunk ∨
    s.body = bodyFlags .data ∧ s.bodyBytesRemaining ≠ 0

/-- A call that asks for more or succeeds, and stands inside the chunk if it asks for more. -/
def Tolerated (o : BodyOutcome χ ρ) : Prop :=
  o.code = .success ∨ o.code = .again ∧ Amid o.state

section tolerated

variable {s : HttpMessageParser χ ρ}

theorem chunkedData_tolerated (stage : s.stage = .headerParseComplete) (body : s.body = bodyFlags .data)
    (more : s.bodyBytesRemaining ≠ 0) (b : Buffer) : Tolerated (chunkedData s b) := by
  have flag : s.body.chunkData = true := by rw [body]; rfl
  rw [chunkedData, if_pos flag, parseChunkData, if_neg more]
  split
  · exact .inr ⟨rfl, stage, .inr (.inr (.inr ⟨body, more⟩))⟩
  · exact .inl rfl

theorem chunkedExtension_tolerated (stage : s.stage = .headerParseComplete) (body : s.body = bodyFlags .extension)
    {b : Buffer} (wf : b.WF) : Tolerated (chunkedExtension s b) := by
  have flag : s.body.chunkExtension = true := by rw [body]; rfl
  have skips := SkipLine_spec wf
  rw [chunkedExtension, if_pos flag, parseChunkExtension]
  cases found : skipLineOn false 0 b.unread with
  | none =>
      simp only [found] at skips
      simp only [skips.1]
      exact .inr ⟨rfl, stage, .inr (.inl body)⟩
  | some line =>
      simp only [found] at skips
      simp only [skips.1]
      by_cases last : s.bodyBytesRemaining = 0
      · rw [if_pos last]
        exact .inl rfl
      · rw [if_neg last]
        apply chunkedData_tolerated
        · exact stage
        · simp only [body, bodyFlags]
        · exact last

theorem chunkedSize_tolerated (stage : s.stage = .headerParseComplete) (body : s.body = bodyFlags (.size false))
    {b : Buffer} (wf : b.WF) : Tolerated (chunkedSize s b) := by
  have flag : s.body.chunkSize = true := by rw [body]; rfl
  obtain ⟨b1, skipped, wf1⟩ : ∃ b1, (if s.bodyBytesRemaining = 0 then SkipSpaces b else b) = b1 ∧ b1.WF := by
    refine ⟨_, rfl, ?_⟩
    split
    · exact (SkipSpaces_spec wf).2.1
    · exact wf
  obtain ⟨b2, looped, wf2, -⟩ := chunkSizeLoop_spec b1.readable s.bodyBytesRemaining b1 wf1
    (by rw [Buffer.unread_length wf1])
  rw [chunkedSize, if_pos flag, parseChunkSize, skipped, looped]
  by_cases ended : b1.unread.dropWhile isHex = []
  · simp only [ended, if_true]
    exact .inr ⟨rfl, stage, .inl body⟩
  · simp only [ended, if_false]
    apply chunkedExtension_tolerated
    · exact stage
    · simp only [body, bodyFlags]
    · exact Buffer.readMark_wf wf2

theorem Amid.call (h : Amid s) {b : Buffer} (wf : b.WF) : Tolerated (parseBody s b) := by
  rcases h.body with body | body | body | ⟨body, more⟩ <;> rw [parseBody_chunked h.stage body]
  · have here : parseChunkedBody s b = chunkedSize s b := by simp [parseChunkedBody, body, bodyFlags]
    rw [here]
    exact chunkedSize_tolerated h.stage body wf
  · have here : parseChunkedBody s b = chunkedExtension s b := by
      simp [parseChunkedBody, chunkedSize, body, bodyFlags]
    rw [here]
    exact chunkedExtension_tolerated h.stage body wf
  · have flag : s.body.endChunk = true := by rw [body]; rfl
    have skips := SkipLine_spec wf
    rw [parseChunkedBody, if_pos flag, parseEndChunk]
    cases found : skipLineOn false 0 b.unread with
    | none =>
        simp only [found] at skips
        simp only [skips.1]
        exact .inr ⟨rfl, h.stage, .inr (.inr (.inl body))⟩
    | some line =>
        simp only [found] at skips
        simp only [skips.1]
        apply chunkedSize_tolerated
        · exact h.stage
        · simp only [body, bodyFlags]
        · exact Buffer.readMark_wf skips.2.2.2.1
  · have here : parseChunkedBody s b = chunkedData s b := by
      simp [parseChunkedBody, chunkedSize, chunkedExtension, body, bodyFlags]
    rw [here]
    exact chunkedData_tolerated h.stage body more b

/-- Whatever arrives, the parser goes on. -/
theorem Fed.amid {first : HttpMessageParser χ ρ} {u held : List Octet} (start : Amid first) (fed : Fed first s u held) :
    Amid s := by
  induction fed with
  | start => exact start
  | @more s u held before b _ wf unread again ih =>
      exact (ih.call wf).elim (fun success => absurd (again.symm.trans success) nofun) fun waits => waits.2

end tolerated

/-! ## What the lines come to -/

/-- What a size line is to come to: the end of the chunks, or a call in front of a chunk of its
size; or an error. -/
def HeaderRead (line rest : List Octet) (o : BodyOutcome χ ρ) : Prop :=
  if IsHeader line then
    if sizeValue (line.takeWhile isHex) = 0 then
      o.code = .success ∧ o.chunkSize = some 0 ∧ o.state.body = bodyFlags (.trailer .start) ∧ o.input.unread = rest
    else ∃ s b, DeliversChunk s (sizeValue (line.takeWhile isHex)) ∧ b.WF ∧ b.unread = rest ∧ o = parseBody s b
  else o.code ≠ .again ∧ o.code ≠ .success

/-- What the line behind the data is to come to: a call in front of a size line; or an error. -/
def EndRead (line rest : List Octet) (o : BodyOutcome χ ρ) : Prop :=
  if Decoder.IsBlank line then ∃ s b, AtHeader s ∧ b.WF ∧ b.unread = rest ∧ o = parseBody s b
  else o.code ≠ .again ∧ o.code ≠ .success

theorem Tolerated.not_error {o : BodyOutcome χ ρ} (h : Tolerated o) : ¬ (o.code ≠ .again ∧ o.code ≠ .success) :=
  fun error => h.elim error.2 fun waits => error.1 waits.1

section lines

variable {first s : HttpMessageParser χ ρ} {b : Buffer} {u held piece line rest : List Octet}

theorem Fed.header_read (start : AtHeader first) (fed : Fed first s u held) (header : IsHeader line) (wf : b.WF)
    (unread : b.unread = held ++ piece) (unended : LF ∉ u) (noFeed : LF ∉ line)
    (arrived : u ++ piece = line ++ LF :: rest) : HeaderRead line rest (parseBody s b) := by
  have sized := fed.sized start header unended arrived
  have black := header_black header (show (u ++ piece) ++ [] = line ++ LF :: rest by rw [List.append_nil, arrived])
  have read := (sized.call wf unread black).ends line rest arrived noFeed
  rw [Decoder.withDigit_sizeValue, Nat.mod_eq_of_lt header.2.1] at read
  unfold LineRead at read
  unfold HeaderRead
  rw [if_pos header]
  by_cases last : sizeValue (line.takeWhile isHex) = 0
  · rw [if_pos last] at read ⊢
    exact read
  · rw [if_neg last] at read ⊢
    obtain ⟨s', b', amidData, wf', left, same⟩ := read
    exact ⟨s', b', amidData.delivers, wf', left, same⟩

theorem Fed.end_read (start : AtEnd first) (fed : Fed first s u held) (blank : Decoder.IsBlank line) (wf : b.WF)
    (unread : b.unread = held ++ piece) (unended : LF ∉ u) (noFeed : LF ∉ line)
    (arrived : u ++ piece = line ++ LF :: rest) : EndRead line rest (parseBody s b) := by
  obtain ⟨rfl, rfl⟩ := fed.ending start unended
  rw [arrived] at unread
  have skips := SkipLine_spec wf
  unfold EndRead
  rw [if_pos blank]
  cases found : skipLineOn false 0 b.unread with
  | none => exact absurd (by simp [unread]) (skipLineOn_eq_none found)
  | some shown =>
      obtain ⟨n, r⟩ := shown
      simp only [found] at skips
      obtain ⟨code, -, left, wf', -⟩ := skips
      obtain ⟨line', shape, noFeed', -⟩ := skipLineOn_line found
      obtain ⟨-, rfl⟩ := feed_split (shape.symm.trans unread) noFeed' noFeed
      have next : AtHeader { s with body := bodyFlags (.size false) } := ⟨start.stage, rfl, start.remaining⟩
      refine ⟨_, (SkipLine b).2.2.readMark, next, Buffer.readMark_wf wf', left, ?_⟩
      rw [parseBody_chunked start.stage start.body, parseBody_chunked next.stage next.body]
      simp only [parseChunkedBody, parseEndChunk, if_true, code, start.body, bodyFlags, Bool.false_eq_true, if_false]

/-- **The lines around the data of a chunk**, in pieces of any kind: what the call that gets the
line feed makes of a size line is right if and only if it is one of the grammar, and of a line
behind the data if and only if it is empty. -/
theorem chunk_lines_read_iff (fed : Fed first s u held) (wf : b.WF) (unread : b.unread = held ++ piece)
    (unended : LF ∉ u) (noFeed : LF ∉ line) (arrived : u ++ piece = line ++ LF :: rest) :
    (AtHeader first → (HeaderRead line rest (parseBody s b) ↔ IsHeader line)) ∧
      (AtEnd first → (EndRead line rest (parseBody s b) ↔ Decoder.IsBlank line)) := by
  constructor
  · intro start
    refine ⟨fun read => ?_, fun header => fed.header_read start header wf unread unended noFeed arrived⟩
    by_contra other
    rw [HeaderRead, if_neg other] at read
    exact ((fed.amid ⟨start.stage, .inl start.body⟩).call wf).not_error read
  · intro start
    refine ⟨fun read => ?_, fun blank => fed.end_read start blank wf unread unended noFeed arrived⟩
    by_contra other
    rw [EndRead, if_neg other] at read
    exact ((fed.amid ⟨start.stage, .inr (.inr (.inl start.body))⟩).call wf).not_error read

end lines

end HttpMessageParser

namespace HttpRequestParser

open HttpMessageParser

/-- A parser in front of the chunks of a body. -/
def chunksAhead : HttpRequestParser :=
  { fresh (Buffer.create 64) with stage := .headerParseComplete, body := bodyFlags (.size false) }

/-- One behind the data of a chunk. -/
def chunkBehind : HttpRequestParser := { chunksAhead with body := bodyFlags .endChunk }

/-- A buffer that holds this text. -/
def holding (text : String) : Buffer := (Buffer.create 64).fill (octets text)

theorem chunk_lines_read_for_five :
    AtHeader chunksAhead ∧ AtEnd chunkBehind ∧
      (HeaderRead (octets "5;a\r") (octets "hello") (parseBody chunksAhead (holding "5;a\r\nhello")) ↔
        IsHeader (octets "5;a\r")) ∧
      (EndRead (octets "\r") (octets "0") (parseBody chunkBehind (holding "\r\n0")) ↔
        Decoder.IsBlank (octets "\r")) := by
  have ahead : AtHeader chunksAhead := ⟨rfl, rfl, rfl⟩
  have behind : AtEnd chunkBehind := ⟨rfl, rfl, rfl⟩
  have wf : ∀ text, (octets text).length ≤ (Buffer.create 64).writable → (holding text).WF := fun _ fits =>
    Buffer.fill_wf (Buffer.create_wf (by decide)) fits
  have header : (holding "5;a\r\nhello").unread = [] ++ octets "5;a\r\nhello" := by decide
  have blank : (holding "\r\n0").unread = [] ++ octets "\r\n0" := by decide
  refine ⟨ahead, behind, ?_, ?_⟩
  · exact (chunk_lines_read_iff .start (wf _ (by decide)) header (by decide) (by decide)
      (by decide)).1 ahead
  · exact (chunk_lines_read_iff .start (wf _ (by decide)) blank (by decide) (by decide)
      (by decide)).2 behind

/-- A line without a size is read as the last chunk, `2 ^ 64 + 2` as 2, and what follows the
digits or the data is passed over. -/
theorem chunk_lines_misread :
    ¬ IsHeader (octets "\r") ∧
      (parseBody chunksAhead (holding "\r\n")).code = .success ∧
      (parseBody chunksAhead (holding "\r\n")).chunkSize = some 0 ∧
    ¬ IsHeader (octets "10000000000000002\r") ∧
      (parseBody chunksAhead (holding "10000000000000002\r\nab")).code = .success ∧
      (parseBody chunksAhead (holding "10000000000000002\r\nab")).state.bodyBytesRemaining = 2 ∧
    ¬ IsHeader (octets "3xyz\r") ∧
      (parseBody chunksAhead (holding "3xyz\r\nabc")).code = .success ∧
      (parseBody chunksAhead (holding "3xyz\r\nabc")).state.bodyBytesRemaining = 3 ∧
    ¬ Decoder.IsBlank (octets "5\r") ∧
      (parseBody chunkBehind (holding "5\r\n0\r\n")).code = .success ∧
      (parseBody chunkBehind (holding "5\r\n0\r\n")).chunkSize = some 0 := by
  decide

end HttpRequestParser

end Everscale
