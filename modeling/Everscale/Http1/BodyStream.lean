/-
# Everscale.Http1.BodyStream -- the body parser follows the decoder

`parseBody`, `consumeBody` and `skipTrailer` on a chunked body, against the `Decoder` of
`Everscale.Http1.ChunkedCoding`.  `Decodes s d` says that the parser stands where the
decoder `d` stands; each call moves both, so that the decoder reads from the new read
position what it would have read from the old one (`Advance`).

A call inside a chunk size skips white space when the size is still zero, whether or
not digits have been read.  `Ready` excludes white space there.
-/
import Everscale.Http1.ChunkedCoding

namespace Everscale.HttpMessageParser

set_option autoImplicit false

open HttpUtil

variable {χ ρ : Type}

/-! ## Lines -/

theorem skipLineOn_eq_none {found : Bool} {count : Nat} {u : List Octet}
    (h : skipLineOn found count u = none) : LF ∉ u := by
  induction u generalizing found count with
  | nil => simp
  | cons c rest ih =>
      rw [skipLineOn] at h
      split_ifs at h with cr again lf found' <;> simp only [List.mem_cons, not_or]
      · exact ⟨fun eq => LF_ne_CR (eq.trans cr), ih h⟩
      · exact ⟨fun eq => LF_ne_CR (eq.trans cr), ih h⟩
      · exact ⟨fun eq => lf eq.symm, ih h⟩
      · exact ⟨fun eq => lf eq.symm, ih h⟩

/-- The line that `SkipLine` skips, and when it counts as empty. -/
theorem skipLineOn_line {found : Bool} {count : Nat} {u : List Octet} {n : Nat} {r : List Octet}
    (h : skipLineOn found count u = some (n, r)) :
    ∃ line, u = line ++ LF :: r ∧ LF ∉ line ∧
      (n = 0 ↔ count = 0 ∧ (line = [] ∨ found = false ∧ line = [CR])) := by
  induction u generalizing found count with
  | nil => simp [skipLineOn] at h
  | cons c rest ih =>
      rw [skipLineOn] at h
      split_ifs at h with cr again lf found'
      · obtain ⟨line, rfl, noFeed, blank⟩ := ih h
        refine ⟨c :: line, rfl, ?_, ?_⟩
        · simpa [cr] using noFeed
        · simp [blank, again]
      · obtain ⟨line, rfl, noFeed, blank⟩ := ih h
        refine ⟨c :: line, rfl, ?_, ?_⟩
        · simpa [cr] using noFeed
        · simpa [cr, again] using blank
      · cases h
        exact ⟨[], by simp [lf], by simp, by simp⟩
      · obtain ⟨line, rfl, noFeed, blank⟩ := ih h
        refine ⟨c :: line, rfl, ?_, ?_⟩
        · simpa [Ne.symm lf] using noFeed
        · simp [blank, cr]
      · obtain ⟨line, rfl, noFeed, blank⟩ := ih h
        refine ⟨c :: line, rfl, ?_, ?_⟩
        · simpa [Ne.symm lf] using noFeed
        · simp [blank, cr]

/-! ## Where the parser stands -/

def bodyFlags : ChunkPhase → BodyFlags
  | .size _ => { chunkedBody := true, chunkSize := true }
  | .extension => { chunkedBody := true, chunkExtension := true }
  | .data => { chunkedBody := true, chunkData := true }
  | .endChunk => { chunkedBody := true, endChunk := true }
  | .trailer _ => { chunkedBody := true, trailer := true }
  | .complete => { chunkedBody := true, bodyParseComplete := true }

/-- The parser stands where the decoder stands.  It waits between lines and octets only,
so inside the trailer the decoder is at the start of a line. -/
structure Decodes (s : HttpMessageParser χ ρ) (d : Decoder) : Prop where
  stage : s.stage = .headerParseComplete
  body : s.body = bodyFlags d.phase
  remaining : s.bodyBytesRemaining = d.remaining
  bound : d.remaining < 2 ^ 64
  zero : d.phase = .size false ∨ d.phase = .endChunk → d.remaining = 0
  positive : d.phase = .data → 0 < d.remaining
  lineStart : ∀ line, d.phase = .trailer line → line = .start

/-- No white space where it would be skipped in the middle of a size. -/
def Ready (d : Decoder) (u : List Octet) : Prop :=
  d.phase = .size true → d.remaining = 0 → ∀ c ∈ u.head?, isSpace c = false

/-- From the buffer `b` and the decoder `d` to `b'` and `d'`: nothing is delivered and
what is still to come reads the same. -/
structure Advance (b : Buffer) (d : Decoder) (b' : Buffer) (d' : Decoder) : Prop where
  wf : b'.WF
  same : SameOctets b b'
  suffix : b'.unread <:+ b.unread
  read : d.read b.unread = d'.read b'.unread
  delivered : d'.delivered = d.delivered
  leftover : d'.leftover = d.leftover

theorem Advance.trans {b b' b'' : Buffer} {d d' d'' : Decoder} (h : Advance b d b' d')
    (h' : Advance b' d' b'' d'') : Advance b d b'' d'' :=
  ⟨h'.wf, h.same.trans h'.same, h'.suffix.trans h.suffix, h.read.trans h'.read,
    h'.delivered.trans h.delivered, h'.leftover.trans h.leftover⟩

theorem Advance.refl {b : Buffer} (wf : b.WF) (d : Decoder) : Advance b d b d :=
  ⟨wf, SameOctets.refl b, List.suffix_rfl, rfl, rfl, rfl⟩

theorem Advance.readMark {b b' : Buffer} {d d' : Decoder} (h : Advance b d b' d') :
    Advance b d b'.readMark d' :=
  ⟨Buffer.readMark_wf h.wf, h.same.trans (SameOctets.readMark b'), h.suffix, h.read, h.delivered,
    h.leftover⟩

/-- What is left unread while the parser waits decides nothing. -/
structure Idle (d : Decoder) (w : List Octet) : Prop where
  delivered : (d.read w).delivered = d.delivered
  phase : (d.read w).phase ≠ .complete
  size : ∀ begun, d.phase = .size begun → w = []

/-- What a call of `parseBody` comes to. -/
inductive Parsed (b : Buffer) (d : Decoder) (o : BodyOutcome χ ρ) : Prop where
  | waits (d' : Decoder) (code : o.code = .again) (decodes : Decodes o.state d')
      (advance : Advance b d o.input d') (idle : Idle d' o.input.unread)
      (inside : ∀ line, d'.phase ≠ .trailer line)
  | ends (d' : Decoder) (code : o.code = .success) (decodes : Decodes o.state d')
      (advance : Advance b d o.input d') (size : o.chunkSize = some 0)
      (phase : d'.phase = .trailer .start)
  | offers (d' : Decoder) (code : o.code = .success) (decodes : Decodes o.state d')
      (advance : Advance b d o.input d') (phase : d'.phase = .data)
      (start : o.startingPosition = some o.input.readPosition)
      (size : o.chunkSize = some (min d'.remaining o.input.readable))
      (readable : o.input.isReadable = true)

theorem Parsed.after {b b' : Buffer} {d d' : Decoder} {o : BodyOutcome χ ρ}
    (h : Advance b d b' d') (parsed : Parsed b' d' o) : Parsed b d o := by
  cases parsed with
  | waits d'' code decodes advance idle inside =>
      exact .waits d'' code decodes (h.trans advance) idle inside
  | ends d'' code decodes advance size phase =>
      exact .ends d'' code decodes (h.trans advance) size phase
  | offers d'' code decodes advance phase start size readable =>
      exact .offers d'' code decodes (h.trans advance) phase start size readable

/-! ## The parts of a chunk -/

section parse

variable {s : HttpMessageParser χ ρ} {d : Decoder} {b : Buffer}

theorem chunkedData_parsed (decodes : Decodes s d) (phase : d.phase = .data) (wf : b.WF) :
    Parsed b d (chunkedData s b) := by
  have flag : s.body.chunkData = true := by rw [decodes.body, phase]; rfl
  have ne : s.bodyBytesRemaining ≠ 0 := by
    rw [decodes.remaining]; exact Nat.pos_iff_ne_zero.1 (decodes.positive phase)
  cases readable : b.isReadable with
  | false =>
      have empty : b.unread = [] := by
        by_contra some; rw [(Buffer.isReadable_iff wf).2 some] at readable; cases readable
      have waits : chunkedData s b = ⟨.again, s, b, none, none⟩ := by
        simp [chunkedData, parseChunkData, flag, ne, readable]
      rw [waits]
      refine .waits d rfl decodes (.refl wf d) ⟨?_, ?_, fun _ _ => empty⟩ (by simp [phase])
      · simp only [empty, Decoder.read_nil]
      · simp [empty, phase]
  | true =>
      have offered : chunkedData s b = offer s b := by
        simp [chunkedData, parseChunkData, flag, ne, readable]
      rw [offered]
      exact .offers d rfl decodes (.refl wf d) phase rfl
        (by simp only [offer, decodes.remaining]) readable

theorem chunkedExtension_parsed (decodes : Decodes s d) (phase : d.phase = .extension)
    (wf : b.WF) : Parsed b d (chunkedExtension s b) := by
  have flag : s.body.chunkExtension = true := by rw [decodes.body, phase]; rfl
  have skips := SkipLine_spec wf
  cases found : skipLineOn false 0 b.unread with
  | none =>
      simp only [found] at skips
      have waits : chunkedExtension s b = ⟨.again, s, b, none, none⟩ := by
        simp only [chunkedExtension, flag, if_true, parseChunkExtension, skips]
      have noFeed := skipLineOn_eq_none found
      rw [waits]
      refine .waits d rfl decodes (.refl wf d) ⟨?_, ?_, fun begun h => ?_⟩ (by simp [phase])
      · rw [Decoder.read_extension phase noFeed]
      · rw [Decoder.read_extension phase noFeed, phase]; simp
      · rw [phase] at h; cases h
  | some line =>
      obtain ⟨n, r⟩ := line
      simp only [found] at skips
      obtain ⟨code, _, left, wf', same⟩ := skips
      obtain ⟨line, shape, noFeed, _⟩ := skipLineOn_line found
      have skipped : parseChunkExtension b = (.success, (SkipLine b).2.2) := by
        simp only [parseChunkExtension, code]
      have read : d.read b.unread =
          { d with phase := if d.remaining = 0 then .trailer .start else .data }.read r := by
        rw [shape, Decoder.read_append, Decoder.read_extension phase noFeed, Decoder.read_cons]
        simp only [Decoder.step, phase, Decoder.stepExtension, if_true]
      have suffix : r <:+ b.unread := by
        rw [shape]; exact (List.suffix_cons LF r).trans (List.suffix_append line _)
      have advance : ∀ p, (if d.remaining = 0 then ChunkPhase.trailer .start else .data) = p →
          Advance b d (SkipLine b).2.2.readMark { d with phase := p } := fun p h =>
        ⟨Buffer.readMark_wf wf', same.trans (SameOctets.readMark _), by rwa [Buffer.readMark_unread, left],
          by rw [Buffer.readMark_unread, left, ← h]; exact read, rfl, rfl⟩
      by_cases last : d.remaining = 0
      · have ended : chunkedExtension s b =
            ⟨.success, { s with body := { s.body with chunkExtension := false, trailer := true } },
              (SkipLine b).2.2.readMark, none, some 0⟩ := by
          simp only [chunkedExtension, flag, if_true, skipped, decodes.remaining, last]
        rw [ended]
        refine .ends { d with phase := .trailer .start } rfl
          ⟨decodes.stage, ?_, decodes.remaining, decodes.bound, ?_, ?_, ?_⟩ (advance _ (if_pos last))
          rfl rfl
        · simp only [decodes.body, phase, bodyFlags]
        · simp
        · simp
        · rintro line ⟨⟩; rfl
      · have goesOn : chunkedExtension s b =
            chunkedData { s with body := { s.body with chunkExtension := false, chunkData := true } }
              (SkipLine b).2.2.readMark := by
          simp only [chunkedExtension, flag, if_true, skipped, decodes.remaining, last, if_false]
        rw [goesOn]
        refine .after (advance _ (if_neg last)) (chunkedData_parsed
          ⟨decodes.stage, ?_, decodes.remaining, decodes.bound, ?_, ?_, ?_⟩ rfl
          (Buffer.readMark_wf wf'))
        · simp only [decodes.body, phase, bodyFlags]
        · simp
        · exact fun _ => Nat.pos_of_ne_zero last
        · simp

/-- The digit loop of `parseChunkSize`. -/
theorem chunkSizeLoop_spec (fuel : Nat) :
    ∀ (remaining : Nat) (b : Buffer), b.WF → b.unread.length ≤ fuel →
      ∃ b', chunkSizeLoop fuel remaining b =
          (if b.unread.dropWhile isHex = [] then .again else .success,
            (b.unread.takeWhile isHex).foldl Decoder.withDigit remaining, b') ∧
        b'.WF ∧ SameOctets b b' ∧ b'.unread = b.unread.dropWhile isHex := by
  induction fuel with
  | zero =>
      intro remaining b wf enough
      have empty : b.unread = [] := List.eq_nil_of_length_eq_zero (by omega)
      exact ⟨b, by simp [chunkSizeLoop, empty], wf, SameOctets.refl b, by simp [empty]⟩
  | succ fuel ih =>
      intro remaining b wf enough
      cases unread : b.unread with
      | nil =>
          refine ⟨b, ?_, wf, SameOctets.refl b, by simp [unread]⟩
          simp [chunkSizeLoop, Buffer.not_isReadable_of_unread wf unread]
      | cons c rest =>
          have readable := Buffer.isReadable_of_unread wf unread
          have tail := Buffer.skipNext_unread_cons wf unread
          simp only [chunkSizeLoop, readable, Bool.not_true, Bool.false_eq_true, if_false,
            Buffer.peekNext_of_unread wf unread, List.takeWhile_cons, List.dropWhile_cons]
          cases digit : isHex c with
          | true =>
              have fits : b.skipNext.unread.length ≤ fuel := by rw [tail]; simpa [unread] using enough
              obtain ⟨b', runs, wf', same, left⟩ :=
                ih (Decoder.withDigit remaining c) b.skipNext (Buffer.skipNext_wf wf) fits
              rw [tail] at runs left
              simp only [if_true, List.foldl_cons]
              exact ⟨b', runs, wf', (SameOctets.skipNext b).trans same, left⟩
          | false =>
              simp only [Bool.false_eq_true, if_false, List.foldl_nil, reduceCtorEq,
                Buffer.setReadPosition_skipNext wf readable]
              exact ⟨b, rfl, wf, SameOctets.refl b, unread⟩

theorem isSpace_not_isHex {c : Octet} (h : isSpace c = true) : isHex c = false := by
  have : c = SP ∨ c = HT := by simpa [isSpace] using h
  rcases this with rfl | rfl <;> decide

/-- The spaces that `parseChunkSize` skips are those the decoder passes over. -/
theorem sizeSpaces {begun : Bool} (phase : d.phase = .size begun)
    (zero : begun = false → d.remaining = 0) (ready : Ready d b.unread) (wf : b.WF) :
    ∃ b', (if d.remaining = 0 then SkipSpaces b else b) = b' ∧ b'.WF ∧ SameOctets b b' ∧
      b'.unread <:+ b.unread ∧ d.read b.unread = d.read b'.unread ∧
      (begun = false → ∀ c ∈ b'.unread.head?, isSpace c = false) := by
  by_cases none : d.remaining = 0
  · rw [if_pos none]
    obtain ⟨left, wf', same⟩ := SkipSpaces_spec wf
    refine ⟨SkipSpaces b, rfl, wf', same, by rw [left]; exact List.dropWhile_suffix _, ?_, ?_⟩
    · cases begun with
      | true =>
          have kept : b.unread.dropWhile isSpace = b.unread := by
            cases unread : b.unread with
            | nil => rfl
            | cons c rest =>
                have black := ready phase none c (by rw [unread]; rfl)
                simp [black]
          rw [left, kept]
      | false =>
          have split := List.takeWhile_append_dropWhile (p := isSpace) (l := b.unread)
          have spaces : ∀ c ∈ b.unread.takeWhile isSpace, isSpace c = true ∧ isHex c = false :=
            fun c inside => ⟨List.mem_takeWhile_imp inside,
              isSpace_not_isHex (List.mem_takeWhile_imp inside)⟩
          conv_lhs => rw [← split, Decoder.read_append, Decoder.read_spaces phase spaces]
          rw [left]
    · intro _ c first
      rw [left] at first
      have := List.head?_dropWhile_not isSpace b.unread
      rw [Option.mem_def.1 first] at this
      simpa using this
  · rw [if_neg none]
    refine ⟨b, rfl, wf, SameOctets.refl b, List.suffix_rfl, rfl, fun h => absurd (zero h) none⟩

theorem foldl_withDigit_lt {digits : List Octet} {n : Nat} (h : n < 2 ^ 64) :
    digits.foldl Decoder.withDigit n < 2 ^ 64 := by
  induction digits generalizing n with
  | nil => exact h
  | cons c rest ih => exact ih (Nat.mod_lt _ (by decide))

theorem chunkedSize_parsed {begun : Bool} (decodes : Decodes s d) (phase : d.phase = .size begun)
    (ready : Ready d b.unread) (wf : b.WF) : Parsed b d (chunkedSize s b) := by
  have flag : s.body.chunkSize = true := by rw [decodes.body, phase]; rfl
  have zero : begun = false → d.remaining = 0 := fun h => decodes.zero (.inl (by rw [phase, h]))
  obtain ⟨b1, skipped, wf1, same1, suffix1, read1, black⟩ := sizeSpaces phase zero ready wf
  obtain ⟨b2, looped, wf2, same2, left⟩ := chunkSizeLoop_spec b1.readable d.remaining b1 wf1
    (by rw [Buffer.unread_length wf1])
  have runs : parseChunkSize s.bodyBytesRemaining b =
      (if b1.unread.dropWhile isHex = [] then .again else .success,
        (b1.unread.takeWhile isHex).foldl Decoder.withDigit d.remaining, b2) := by
    rw [parseChunkSize, decodes.remaining, skipped, looped]
  -- the decoder reads the digits
  let sized : Decoder := { d with
    phase := .size (begun || !(b1.unread.takeWhile isHex).isEmpty)
    remaining := (b1.unread.takeWhile isHex).foldl Decoder.withDigit d.remaining }
  have digits : d.read b1.unread = sized.read b2.unread := by
    have split := List.takeWhile_append_dropWhile (p := isHex) (l := b1.unread)
    conv_lhs => rw [← split, Decoder.read_append,
      Decoder.read_digits phase fun c inside => List.mem_takeWhile_imp inside]
    rw [left]
  have suffix : b2.unread <:+ b.unread := by
    rw [left]; exact (List.dropWhile_suffix _).trans suffix1
  have advance : Advance b d b2 sized :=
    ⟨wf2, same1.trans same2, suffix, read1.trans digits, rfl, rfl⟩
  have bound : sized.remaining < 2 ^ 64 := foldl_withDigit_lt decodes.bound
  cases rest : b1.unread.dropWhile isHex with
  | nil =>
      have waits : chunkedSize s b =
          ⟨.again, { s with bodyBytesRemaining := sized.remaining }, b2, none, none⟩ := by
        simp only [chunkedSize, flag, if_true, runs, rest, sized]
      have empty : b2.unread = [] := left.trans rest
      rw [waits]
      refine .waits sized rfl ⟨decodes.stage, by rw [decodes.body, phase]; rfl, rfl, bound, ?_, ?_, ?_⟩
        advance ⟨by simp only [empty, Decoder.read_nil], by simp [empty, sized], fun _ _ => empty⟩
        (by simp [sized])
      · intro fresh
        have none : begun = false ∧ b1.unread.takeWhile isHex = [] := by
          simpa [sized] using fresh
        simp only [sized, none.2, List.foldl_nil, zero none.1]
      · intro h; cases h
      · intro line h; cases h
  | cons c r =>
      have unread : b2.unread = c :: r := left.trans rest
      have other : isHex c = false := by
        have := List.head?_dropWhile_not isHex b1.unread
        rw [rest] at this
        simpa using this
      have stays : isSpace c = true → (begun || !(b1.unread.takeWhile isHex).isEmpty) = true := by
        intro space
        cases begun with
        | true => rfl
        | false =>
            cases shape : b1.unread.takeWhile isHex with
            | cons _ _ => rfl
            | nil =>
                have whole : b1.unread = c :: r := by
                  have split := List.takeWhile_append_dropWhile (p := isHex) (l := b1.unread)
                  rw [shape, rest] at split; exact split.symm
                have := black rfl c (by rw [whole]; rfl)
                rw [space] at this; cases this
      have goesOn : chunkedSize s b =
          chunkedExtension { s with
            bodyBytesRemaining := sized.remaining
            body := { s.body with chunkSize := false, chunkExtension := true } } b2.readMark := by
        simp only [chunkedSize, flag, if_true, runs, rest, sized, reduceCtorEq, if_false]
      have moved : Advance b d b2.readMark { sized with phase := .extension } := by
        refine ⟨Buffer.readMark_wf wf2, (same1.trans same2).trans (SameOctets.readMark b2), suffix,
          ?_, rfl, rfl⟩
        rw [advance.read, Buffer.readMark_unread, unread]
        exact Decoder.read_afterSize rfl other stays r
      rw [goesOn]
      refine .after moved (chunkedExtension_parsed
        ⟨decodes.stage, ?_, rfl, bound, ?_, ?_, ?_⟩ rfl (Buffer.readMark_wf wf2))
      · simp only [decodes.body, phase, bodyFlags]
      · simp
      · simp
      · simp

/-- **A call of `parseBody`** moves parser and decoder alike and offers data only where
the decoder is inside a chunk. -/
theorem parseBody_parsed (decodes : Decodes s d) (ready : Ready d b.unread) (wf : b.WF)
    (inside : ∀ line, d.phase ≠ .trailer line) (more : d.phase ≠ .complete) :
    Parsed b d (parseBody s b) := by
  have chunked : parseBody s b = parseChunkedBody s b := by
    have flags : s.body.unencodedBody = false ∧ s.body.bodyUntilClose = false ∧
        s.body.chunkedBody = true := by
      rw [decodes.body]; cases d.phase <;> exact ⟨rfl, rfl, rfl⟩
    simp [parseBody, decodes.stage, flags]
  rw [chunked]
  cases phase : d.phase with
  | trailer line => exact absurd phase (inside line)
  | complete => exact absurd phase more
  | size begun =>
      have flag : s.body.endChunk = false := by rw [decodes.body, phase]; rfl
      have here : parseChunkedBody s b = chunkedSize s b := by simp [parseChunkedBody, flag]
      rw [here]
      exact chunkedSize_parsed decodes phase ready wf
  | extension =>
      have flags : s.body.endChunk = false ∧ s.body.chunkSize = false := by
        rw [decodes.body, phase]; exact ⟨rfl, rfl⟩
      have here : parseChunkedBody s b = chunkedExtension s b := by
        simp [parseChunkedBody, chunkedSize, flags]
      rw [here]
      exact chunkedExtension_parsed decodes phase wf
  | data =>
      have flags : s.body.endChunk = false ∧ s.body.chunkSize = false ∧
          s.body.chunkExtension = false := by
        rw [decodes.body, phase]; exact ⟨rfl, rfl, rfl⟩
      have here : parseChunkedBody s b = chunkedData s b := by
        simp [parseChunkedBody, chunkedSize, chunkedExtension, flags]
      rw [here]
      exact chunkedData_parsed decodes phase wf
  | endChunk =>
      have flag : s.body.endChunk = true := by rw [decodes.body, phase]; rfl
      have skips := SkipLine_spec wf
      cases found : skipLineOn false 0 b.unread with
      | none =>
          simp only [found] at skips
          have waits : parseChunkedBody s b = ⟨.again, s, b, none, none⟩ := by
            simp only [parseChunkedBody, flag, if_true, parseEndChunk, skips]
          have noFeed := skipLineOn_eq_none found
          rw [waits]
          refine .waits d rfl decodes (.refl wf d) ⟨?_, ?_, fun begun h => ?_⟩ (by simp [phase])
          · rw [Decoder.read_endChunk phase noFeed]
          · rw [Decoder.read_endChunk phase noFeed, phase]; simp
          · rw [phase] at h; cases h
      | some line =>
          obtain ⟨n, r⟩ := line
          simp only [found] at skips
          obtain ⟨code, _, left, wf', same⟩ := skips
          obtain ⟨line, shape, noFeed, _⟩ := skipLineOn_line found
          have skipped : parseEndChunk b = (.success, (SkipLine b).2.2) := by
            simp only [parseEndChunk, code]
          have goesOn : parseChunkedBody s b =
              chunkedSize { s with body := { s.body with endChunk := false, chunkSize := true } }
                (SkipLine b).2.2.readMark := by
            simp only [parseChunkedBody, flag, if_true, skipped]
          have advance : Advance b d (SkipLine b).2.2.readMark { d with phase := .size false } := by
            refine ⟨Buffer.readMark_wf wf', same.trans (SameOctets.readMark _), ?_, ?_, rfl, rfl⟩
            · rw [Buffer.readMark_unread, left, shape]
              exact (List.suffix_cons LF r).trans (List.suffix_append line _)
            · rw [Buffer.readMark_unread, left, shape, Decoder.read_append,
                Decoder.read_endChunk phase noFeed, Decoder.read_cons]
              simp only [Decoder.step, phase, if_true]
          rw [goesOn]
          refine .after advance (chunkedSize_parsed
            ⟨decodes.stage, ?_, decodes.remaining, decodes.bound,
              fun _ => decodes.zero (.inr phase), ?_, ?_⟩ rfl ?_ (Buffer.readMark_wf wf'))
          · simp only [decodes.body, phase, bodyFlags]
          · simp
          · simp
          · intro h; cases h

/-! ## Consuming -/

theorem lessConsumed_eq {remaining n : Nat} (bound : remaining < 2 ^ 64) (h : n ≤ remaining) :
    lessConsumed remaining n = remaining - n := by
  simp only [lessConsumed]
  omega

/-- **A call of `consumeBody`** within what was offered is the decoder reading those octets. -/
theorem consumeBody_spec (decodes : Decodes s d) (phase : d.phase = .data) (wf : b.WF) {n : Nat}
    (within : n ≤ d.remaining) (readable : n ≤ b.readable) :
    let o := consumeBody s b n
    o.code = .success ∧ Decodes o.state (d.read (b.unread.take n)) ∧ o.input.WF ∧
      SameOctets b o.input ∧ o.input.unread = b.unread.drop n := by
  have left := lessConsumed_eq decodes.bound within
  have flags : s.body.multipartBody = false ∧ s.body.unencodedBody = false ∧
      s.body.bodyUntilClose = false ∧ s.body.chunkedBody = true := by
    rw [decodes.body, phase]; exact ⟨rfl, rfl, rfl, rfl⟩
  have length : (b.unread.take n).length = n := by
    rw [List.length_take, Buffer.unread_length wf]; omega
  have skipped := Buffer.skip_unread wf readable
  have wf' := Buffer.skip_wf wf n
  by_cases all : d.remaining - n = 0
  · have some : b.unread.take n ≠ [] := by
      have := decodes.positive phase
      rw [← List.length_pos_iff, length]; omega
    have runs : consumeBody s b n =
        ⟨.success,
          { s with
            bodyBytesRemaining := 0
            body := { s.body with chunkData := false, endChunk := true } },
          (b.skip n).readMark⟩ := by
      simp [consumeBody, decodes.stage, decodes.remaining, flags, left, all]
    have whole : d.remaining = (b.unread.take n).length := by omega
    rw [Decoder.read_data phase some (by omega), if_pos whole, runs]
    refine ⟨rfl, ⟨decodes.stage, ?_, ?_, ?_, ?_, ?_, ?_⟩, Buffer.readMark_wf wf',
      (SameOctets.skip b n).trans (SameOctets.readMark _), skipped⟩
    · simp only [decodes.body, phase, bodyFlags]
    · simp only; omega
    · simp only; have := decodes.bound; omega
    · intro _; simp only; omega
    · simp
    · simp
  · have runs : consumeBody s b n =
        ⟨.success, { s with bodyBytesRemaining := d.remaining - n }, b.skip n⟩ := by
      simp [consumeBody, decodes.stage, decodes.remaining, flags, left, all]
    have shown : d.read (b.unread.take n) = { d with
        remaining := d.remaining - n, delivered := d.delivered ++ b.unread.take n } := by
      by_cases none : b.unread.take n = []
      · have zero : n = 0 := by rw [← length, none]; rfl
        simp [zero]
      · have part : ¬ d.remaining = (b.unread.take n).length := by omega
        rw [Decoder.read_data phase none (by omega), if_neg part, length, ← phase]
    rw [shown, runs]
    refine ⟨rfl, ⟨decodes.stage, decodes.body, rfl, ?_, ?_, ?_, ?_⟩, wf', SameOctets.skip b n,
      skipped⟩
    · simp only; have := decodes.bound; omega
    · rintro (h | h) <;> rw [phase] at h <;> cases h
    · intro _; simp only; omega
    · intro line h; rw [phase] at h; cases h

/-! ## The trailer -/

theorem skipTrailerLines_spec (phase : d.phase = .trailer .start) (fuel : Nat) :
    ∀ b : Buffer, b.WF → b.unread.length < fuel →
      ∃ e b', skipTrailerLines fuel b = (e, b') ∧ b'.WF ∧ SameOctets b b' ∧
        b'.unread <:+ b.unread ∧
        (e = .again ∧ d.read b.unread = d.read b'.unread ∧ LF ∉ b'.unread ∨
          e = .success ∧ d.read b.unread = { d with phase := .complete }.read b'.unread) := by
  classical
  induction fuel with
  | zero => intro b _ enough; exact absurd enough (Nat.not_lt_zero _)
  | succ fuel ih =>
      intro b wf enough
      have skips := SkipLine_spec wf
      cases found : skipLineOn false 0 b.unread with
      | none =>
          simp only [found] at skips
          have runs : SkipLine b = (.again, (SkipLine b).2.1, b) := by
            rw [← skips.1, Prod.ext_iff]; exact ⟨rfl, Prod.ext rfl skips.2⟩
          have waits : skipTrailerLines (fuel + 1) b = (.again, b) := by
            rw [skipTrailerLines, runs]
          exact ⟨.again, b, waits, wf, SameOctets.refl b, List.suffix_rfl,
            .inl ⟨rfl, rfl, skipLineOn_eq_none found⟩⟩
      | some line =>
          obtain ⟨n, r⟩ := line
          simp only [found] at skips
          obtain ⟨code, count, left, wf', same⟩ := skips
          obtain ⟨line, shape, noFeed, blank⟩ := skipLineOn_line found
          have runs : SkipLine b = (.success, n, (SkipLine b).2.2) := by
            rw [← code, ← count]
          have suffix : (SkipLine b).2.2.unread <:+ b.unread := by
            rw [left, shape]
            exact (List.suffix_cons LF r).trans (List.suffix_append line _)
          have read : d.read b.unread =
              { d with phase := if Decoder.IsBlank line then .complete else .trailer .start }.read r := by
            have split : b.unread = line ++ [LF] ++ r := by simp [shape]
            rw [split, Decoder.read_append, Decoder.read_trailerLine phase noFeed]
          cases n with
          | zero =>
              have empty : Decoder.IsBlank line := by simpa [Decoder.IsBlank] using blank
              have ends : skipTrailerLines (fuel + 1) b = (.success, (SkipLine b).2.2) := by
                rw [skipTrailerLines, runs]
              exact ⟨.success, (SkipLine b).2.2, ends, wf', same, suffix,
                .inr ⟨rfl, by rw [read, if_pos empty, left]⟩⟩
          | succ n =>
              have some : ¬ Decoder.IsBlank line := by simpa [Decoder.IsBlank] using blank
              have goesOn : skipTrailerLines (fuel + 1) b =
                  skipTrailerLines fuel (SkipLine b).2.2 := by
                rw [skipTrailerLines, runs]
              have shorter : (SkipLine b).2.2.unread.length < fuel := by
                rw [shape] at enough
                simp only [List.length_append, List.length_cons] at enough
                rw [left]; omega
              obtain ⟨e, b', runs', wf'', same', suffix', result⟩ := ih _ wf' shorter
              have here : d.read b.unread = d.read (SkipLine b).2.2.unread := by
                rw [read, if_neg some, left, ← phase]
              exact ⟨e, b', goesOn.trans runs', wf'', same.trans same', suffix'.trans suffix, by
                rwa [here]⟩

/-- What a call of `skipTrailer` comes to. -/
inductive Skipped (b : Buffer) (d : Decoder) (o : Theory.Outcome Error (HttpMessageParser χ ρ) Buffer) :
    Prop where
  | waits (code : o.code = .again) (decodes : Decodes o.state d) (advance : Advance b d o.input d)
      (idle : Idle d o.input.unread)
  | ends (code : o.code = .success) (advance : Advance b d o.input { d with phase := .complete })

theorem skipTrailer_skipped (decodes : Decodes s d) (phase : d.phase = .trailer .start) (wf : b.WF) :
    Skipped b d (skipTrailer s b) := by
  have flag : s.body.trailer = true := by rw [decodes.body, phase]; rfl
  obtain ⟨e, b', runs, wf', same, suffix, result⟩ := skipTrailerLines_spec phase (b.readable + 1) b wf
    (by rw [Buffer.unread_length wf]; exact Nat.lt_succ_self _)
  rcases result with ⟨rfl, read, noFeed⟩ | ⟨rfl, read⟩
  · have waits : skipTrailer s b = ⟨.again, s, b'⟩ := by
      simp only [skipTrailer, flag, if_true, runs]
    obtain ⟨part, inside, -⟩ := Decoder.read_trailer phase noFeed
    rw [waits]
    refine .waits rfl decodes ⟨wf', same, suffix, read, rfl, rfl⟩ ⟨?_, ?_, fun begun h => ?_⟩
    · rw [inside]
    · rw [inside]; simp
    · rw [phase] at h; cases h
  · have ends : skipTrailer s b =
        ⟨.success,
          { s with body := { s.body with trailer := false, bodyParseComplete := true } },
          b'.readMark⟩ := by
      simp only [skipTrailer, flag, if_true, runs]
    rw [ends]
    exact .ends rfl (Advance.readMark ⟨wf', same, suffix, read, rfl, rfl⟩)

end parse

end Everscale.HttpMessageParser
