/-
# Everscale.Http1.Assertions -- the assertions of the parsers

What the assertions of a parser assume of its state is `Sound`, which every call keeps.  One
assertion of `parseHeaders` is about the input: a field name begins with no space.  It holds
behind every field value and every status line, which end where no space follows; a call that
begins with a field name, or reads a request line before it, has to find none
(`StartsCleanly`).
-/
import Everscale.Http1.LineEnd

namespace Everscale

set_option autoImplicit false

open Theory HttpUtil

namespace HttpMessageParser

variable {χ ρ : Type}

/-- The headers have said how the body is delimited. -/
def Framed (body : BodyFlags) : Prop :=
  (body.unencodedBody || body.bodyUntilClose || body.chunkedBody) = true

/-- Inside a chunk nothing else is being parsed, and octets of it remain. -/
structure InChunk (s : HttpMessageParser χ ρ) : Prop where
  stage : s.stage = .headerParseComplete
  remaining : s.bodyBytesRemaining ≠ 0
  chunkSize : s.body.chunkSize = false
  endChunk : s.body.endChunk = false
  coded : (s.body.unencodedBody || s.body.bodyUntilClose) = false

/-- What the assertions assume of a parser. -/
structure Sound (s : HttpMessageParser χ ρ) : Prop where
  named : s.stage = .fieldValue → s.message.headers ≠ []
  chunk : s.body.chunkData = true → InChunk s
  trailer : s.body.trailer = true → s.stage = .headerParseComplete

/-! ## Fields -/

theorem fieldNameOn_asserts (s : Scratch ρ) (u : List Octet) :
    (fieldNameOn s u).code ≠ .assertFailed ∧
      ((fieldNameOn s u).code = .success → (fieldNameOn s u).state.message.headers ≠ []) := by
  refine scan_induction (K := fun _ _ o => o.code ≠ .assertFailed ∧
    (o.code = .success → o.state.message.headers ≠ [])) ?_ ?_ ?_ ?_ ?_ ?_ s u
  · exact fun _ => ⟨by simp, fun success => nomatch success⟩
  · intro s c rest e refused
    rcases workingFull_cases s with h | h <;> rw [h] at refused <;> cases refused
    exact ⟨by simp, fun success => nomatch success⟩
  · exact fun _ _ _ _ _ _ later => later
  · intro s c rest e s'
    unfold fieldNameOctet
    split_ifs <;> intro k <;> cases k
    · exact ⟨by simp, fun _ => by simp [HttpMessage.addHeader]⟩
    · exact ⟨by simp, fun success => nomatch success⟩
  · intro s c rest s'
    unfold fieldNameOctet
    split_ifs <;> intro k <;> cases k
  · intro s c rest s'
    unfold fieldNameOctet
    split_ifs <;> intro k <;> cases k

theorem setLastFieldValue_some {message : HttpMessage ρ} (some : message.headers ≠ [])
    (value : List Octet) :
    ∃ message', message.setLastFieldValue value = .some message' ∧ message'.headers ≠ [] := by
  unfold HttpMessage.setLastFieldValue
  rw [List.getLast?_eq_some_getLast some]
  exact ⟨_, rfl, by simp⟩

theorem saveFieldValue_asserts {s : Scratch ρ} (some : s.message.headers ≠ []) :
    (saveFieldValue s).1 ≠ .assertFailed ∧ (saveFieldValue s).2.message.headers ≠ [] := by
  obtain ⟨message', set, some'⟩ := setLastFieldValue_some some s.working.duplicate
  unfold saveFieldValue
  rw [set]
  exact ⟨by simp, some'⟩

theorem fieldValueOn_endsLine {s : Scratch ρ} (some : s.message.headers ≠ []) (u : List Octet) :
    EndsLine (fieldValueOn s u) :=
  foldedOn_endsLine ⟨by simp, by simp⟩ s u fun s' same =>
    (saveFieldValue_asserts (s := s') (same ▸ some)).1

theorem fieldValueOn_headers {s : Scratch ρ} (some : s.message.headers ≠ []) (u : List Octet) :
    (fieldValueOn s u).state.message.headers ≠ [] := by
  revert some
  refine foldedOn_induction (K := fun s o =>
    s.message.headers ≠ [] → o.state.message.headers ≠ []) ?_ ?_ ?_ s u
  · exact fun _ _ _ _ some => some
  · exact fun _ _ _ some => (saveFieldValue_asserts some).2
  · exact fun _ _ _ same later some => later (same ▸ some)

/-- What a call of `parseHeaders` leaves of a parser. -/
structure HeadParsed (s : HttpMessageParser χ ρ) (o : Outcome Error (HttpMessageParser χ ρ) (List Octet)) :
    Prop where
  named : o.state.stage = .fieldValue → o.state.message.headers ≠ []
  chunkData : o.state.body.chunkData = s.body.chunkData
  trailer : o.state.body.trailer = s.body.trailer
  waits : o.code = .again → o.state.stage ≠ .headerParseComplete
  framed : o.code = .success → o.state.stage = .headerParseComplete ∧ Framed o.state.body

namespace HeadParsed

/-- A call that ends before the empty line. -/
theorem stopped {s : HttpMessageParser χ ρ} {o : Outcome Error (HttpMessageParser χ ρ) (List Octet)}
    (body : o.state.body = s.body) (inside : o.state.stage ≠ .headerParseComplete)
    (named : o.state.stage = .fieldValue → o.state.message.headers ≠ [])
    (fails : o.code ≠ .success) : HeadParsed s o where
  named := named
  chunkData := by rw [body]
  trailer := by rw [body]
  waits _ := inside
  framed success := absurd success fails

theorem after {s s' : HttpMessageParser χ ρ}
    {o : Outcome Error (HttpMessageParser χ ρ) (List Octet)} (h : HeadParsed s' o)
    (body : s'.body = s.body) : HeadParsed s o where
  named := h.named
  chunkData := body ▸ h.chunkData
  trailer := body ▸ h.trailer
  waits := h.waits
  framed := h.framed

end HeadParsed

section fields

variable (methods : StartLineMethods χ ρ)

theorem delimitBody_parsed (s : HttpMessageParser χ ρ) (found : PostParse ρ) :
    (delimitBody methods s found).2.stage = s.stage ∧
      (delimitBody methods s found).2.body.chunkData = s.body.chunkData ∧
      (delimitBody methods s found).2.body.trailer = s.body.trailer ∧
      ((delimitBody methods s found).1 = .success → Framed (delimitBody methods s found).2.body) := by
  simp only [delimitBody]
  split_ifs <;> exact ⟨rfl, rfl, rfl, fun success => by first | cases success; done | simp [Framed]⟩

theorem endOfHeadersOn_parsed (s : HttpMessageParser χ ρ) (u : List Octet) :
    HeadParsed s (endOfHeadersOn methods s u) ∧ (endOfHeadersOn methods s u).code ≠ .assertFailed := by
  simp only [endOfHeadersOn, postParse]
  rcases postParseHeaders_code (enter .headerParseComplete s).message.headers
    (postParseStart (enter .headerParseComplete s).message) with code | code
  · simp only [code, ne_eq, not_true_eq_false, if_false]
    obtain ⟨stage, chunkData, trailer, framed⟩ := delimitBody_parsed methods
      (enter .headerParseComplete s) (postParseHeaders (enter .headerParseComplete s).message.headers
        (postParseStart (enter .headerParseComplete s).message)).2
    have final := delimitBody_code methods (enter .headerParseComplete s) (postParseHeaders
      (enter .headerParseComplete s).message.headers
      (postParseStart (enter .headerParseComplete s).message)).2
    refine ⟨⟨fun value => ?_, chunkData, trailer, fun waits => ?_, fun success =>
      ⟨stage, framed success⟩⟩, ?_⟩
    · exact absurd (stage.symm.trans value) (by simp [enter])
    · rcases final with code' | code' <;> exact absurd (code'.symm.trans waits) (by decide)
    · rcases final with code' | code' <;> simp [code']
  · simp only [code, ne_eq, reduceCtorEq, not_false_eq_true, if_true]
    exact ⟨⟨by rintro ⟨⟩, rfl, rfl, by rintro ⟨⟩,
      by rintro ⟨⟩⟩, trivial⟩

/-- Fields keep a parser sound, and an assertion fails in them only at a space that is there
from the beginning. -/
theorem fieldsOn_parsed (s : HttpMessageParser χ ρ) (u : List Octet)
    (h : s.stage = .fieldName ∨ s.stage = .fieldValue)
    (named : s.stage = .fieldValue → s.message.headers ≠ []) :
    HeadParsed s (fieldsOn methods s u) ∧ ((fieldsOn methods s u).code = .assertFailed →
      s.stage = .fieldName ∧ startsWithSpace u = true) := by
  have inside : s.stage ≠ .headerParseComplete := by rcases h with h | h <;> simp [h]
  have stays : ∀ {e : Error} {r : List Octet}, e ≠ .success →
      HeadParsed s (⟨e, s, r⟩ : Outcome Error (HttpMessageParser χ ρ) (List Octet)) :=
    fun fails => .stopped rfl inside named fails
  induction length : u.length using Nat.strong_induction_on generalizing s u with
  | _ n ih =>
      rcases h with h | h
      · refine fieldsOn_cases u ?_ ?_ ?_ ?_ ?_ ?_ ?_
        · rintro rfl
          rw [fieldsOn_nil h]
          exact ⟨stays (by simp), by simp⟩
        · rintro rfl
          rw [fieldsOn_return h]
          exact ⟨stays (by simp), by simp⟩
        · rintro rest rfl
          rw [fieldsOn_returnLineFeed h]
          have ended := endOfHeadersOn_parsed methods s rest
          exact ⟨ended.1, fun fails => absurd fails ended.2⟩
        · rintro rest rfl
          rw [fieldsOn_lineFeed h]
          have ended := endOfHeadersOn_parsed methods s rest
          exact ⟨ended.1, fun fails => absurd fails ended.2⟩
        · rintro d rest rfl ne
          rw [fieldsOn_returnOther h ne]
          exact ⟨stays (by simp), by simp⟩
        · rintro c rest rfl space
          rw [fieldsOn_space h space]
          refine ⟨stays (by simp), fun _ => ⟨h, ?_⟩⟩
          rcases space with rfl | rfl <;> rfl
        · rintro c rest rfl black
          rw [fieldsOn_name h black]
          obtain ⟨asserts, added⟩ := fieldNameOn_asserts s.toScratch (c :: rest)
          by_cases ok : (fieldNameOn s.toScratch (c :: rest)).code = .success
          · have ok' : (onScratchOn fieldNameOn s (c :: rest)).code = .success := ok
            have shorter := fieldNameOn_shorter s.toScratch (c :: rest) ok
            simp only [Theory.stage, ok', if_true]
            obtain ⟨parsed, space⟩ := ih _ (length ▸ shorter)
              (enter .fieldValue (onScratchOn fieldNameOn s (c :: rest)).state) _ (.inr rfl)
              (fun _ => added ok) (by rintro ⟨⟩)
              (fun fails => .stopped rfl (by rintro ⟨⟩) (fun _ => added ok) fails) rfl
            exact ⟨parsed.after rfl, fun fails => by cases (space fails).1⟩
          · have fails : (onScratchOn fieldNameOn s (c :: rest)).code ≠ .success := ok
            simp only [Theory.stage, fails, if_false]
            refine ⟨.stopped rfl inside (fun value => ?_) ok, fun asserted => absurd asserted asserts⟩
            exact absurd (h.symm.trans value) (by decide)
      · rw [fieldsOn_value h]
        have some := named h
        have ends := fieldValueOn_endsLine (s := s.toScratch) some u
        have headers := fieldValueOn_headers (s := s.toScratch) some u
        by_cases ok : (fieldValueOn s.toScratch u).code = .success
        · have ok' : (onScratchOn fieldValueOn s u).code = .success := ok
          have shorter := fieldValueOn_shorter s.toScratch u ok
          simp only [Theory.stage, ok', if_true]
          obtain ⟨parsed, space⟩ := ih _ (length ▸ shorter)
            (enter .fieldName (onScratchOn fieldValueOn s u).state) _ (.inl rfl)
            (by rintro ⟨⟩) (by rintro ⟨⟩)
            (fun fails => .stopped rfl (by rintro ⟨⟩) (by rintro ⟨⟩) fails) rfl
          refine ⟨parsed.after rfl, fun fails => ?_⟩
          exact absurd ((ends.2 ok).symm.trans (space fails).2) (by decide)
        · have fails : (onScratchOn fieldValueOn s u).code ≠ .success := ok
          simp only [Theory.stage, fails, if_false]
          exact ⟨.stopped rfl inside (fun _ => headers) ok, fun asserted => absurd asserted ends.1⟩

/-! ## Headers -/

variable {methods} (stream : StartLineStream methods)

/-- The line before the fields ends, and no field name begins with a space. -/
structure StartsCleanly (s : HttpMessageParser χ ρ) (u : List Octet) : Prop where
  first : s.stage = .initial → ∀ t, t.sub = s.sub →
    EndsLine (stream.parseStartLineOn t (u.dropWhile isLWS))
  line : s.stage = .startLine → EndsLine (stream.parseStartLineOn s.toStartLineParse u)
  name : s.stage = .fieldName → startsWithSpace u = false

/-- What a call of `parseHeaders` on a buffer leaves behind. -/
structure HeadersParsed (clean : Prop) (o : Outcome Error (HttpMessageParser χ ρ) Buffer) : Prop where
  asserts : clean → o.code ≠ .assertFailed
  sound : Sound o.state
  wf : o.input.WF
  success : o.code = .success → o.state.stage = .headerParseComplete ∧ Framed o.state.body
  waits : o.code = .again →
    o.state.stage ≠ .headerParseComplete ∧ (HeaderNeeds stream o.state → Marked o.input)

theorem startLineOn_parsed (s : HttpMessageParser χ ρ) (u : List Octet) (h : s.stage = .startLine) :
    HeadParsed s (fromStartLineOn stream s u) ∧
      (EndsLine (stream.parseStartLineOn s.toStartLineParse u) →
        (fromStartLineOn stream s u).code ≠ .assertFailed) := by
  simp only [fromStartLineOn, h, if_true]
  by_cases ok : (stream.parseStartLineOn s.toStartLineParse u).code = .success
  · have ok' : (onStartLineOn stream.parseStartLineOn s u).code = .success := ok
    simp only [Theory.stage, ok', if_true]
    obtain ⟨parsed, space⟩ := fieldsOn_parsed methods
      (enter .fieldName (onStartLineOn stream.parseStartLineOn s u).state)
      (onStartLineOn stream.parseStartLineOn s u).input (.inl rfl) (by rintro ⟨⟩)
    refine ⟨parsed.after rfl, fun ends fails => ?_⟩
    exact absurd ((ends.2 ok).symm.trans (space fails).2) (by decide)
  · have fails : (onStartLineOn stream.parseStartLineOn s u).code ≠ .success := ok
    simp only [Theory.stage, fails, if_false]
    have other : ∀ stage, stage ≠ .startLine → s.stage ≠ stage := fun stage ne same =>
      ne (same.symm.trans h)
    exact ⟨.stopped rfl (other _ (by decide)) (fun value => absurd value (other _ (by decide))) ok,
      fun ends => ends.1⟩

/-- `parseHeaders` keeps a sound parser, and its assertions hold where lines end cleanly. -/
theorem parseHeadersOn_parsed {s : HttpMessageParser χ ρ} (sound : Sound s) (u : List Octet) :
    HeadParsed s (parseHeadersOn stream s u) ∧
      (StartsCleanly stream s u → (parseHeadersOn stream s u).code ≠ .assertFailed) := by
  cases h : s.stage with
  | initial =>
      simp only [parseHeadersOn, h, reduceCtorEq, if_false, if_true]
      by_cases blank : u.dropWhile isLWS = []
      · rw [if_pos blank]
        refine ⟨.stopped rfl ?_ sound.named (by simp), fun _ => by simp⟩
        exact fun complete => absurd (h.symm.trans complete) (by decide)
      · rw [if_neg blank]
        obtain ⟨parsed, asserts⟩ := startLineOn_parsed stream (enter .startLine s)
          (u.dropWhile isLWS) rfl
        exact ⟨parsed.after rfl, fun clean => asserts (clean.first h _ rfl)⟩
  | startLine =>
      simp only [parseHeadersOn, h, reduceCtorEq, if_false]
      obtain ⟨parsed, asserts⟩ := startLineOn_parsed stream s u h
      exact ⟨parsed, fun clean => asserts (clean.line h)⟩
  | fieldName =>
      rw [parseHeadersOn_fields (.inl h)]
      obtain ⟨parsed, space⟩ := fieldsOn_parsed methods s u (.inl h) sound.named
      exact ⟨parsed, fun clean fails =>
        absurd ((clean.name h).symm.trans (space fails).2) (by decide)⟩
  | fieldValue =>
      rw [parseHeadersOn_fields (.inr h)]
      obtain ⟨parsed, space⟩ := fieldsOn_parsed methods s u (.inr h) sound.named
      exact ⟨parsed, fun _ fails => absurd (h.symm.trans (space fails).1) (by decide)⟩
  | headerParseComplete =>
      simp only [parseHeadersOn, h, if_true]
      exact ⟨⟨sound.named, rfl, rfl, by rintro ⟨⟩, by rintro ⟨⟩⟩,
        fun _ => by simp⟩

theorem parseHeadersOn_sound {s : HttpMessageParser χ ρ} (sound : Sound s) (u : List Octet) :
    Sound (parseHeadersOn stream s u).state := by
  have parsed := (parseHeadersOn_parsed stream sound u).1
  have unchanged : s.stage = .headerParseComplete → (parseHeadersOn stream s u).state = s :=
    fun complete => by simp only [parseHeadersOn, complete, if_true]
  refine ⟨parsed.named, fun chunk => ?_, fun trailer => ?_⟩
  · have before := sound.chunk (parsed.chunkData ▸ chunk)
    rwa [unchanged before.stage]
  · have before := sound.trailer (parsed.trailer ▸ trailer)
    rwa [unchanged before]

variable {stream}

theorem parseHeaders_parsed {s : HttpMessageParser χ ρ} (sound : Sound s) {b : Buffer} (wf : b.WF)
    (marked : HeaderNeeds stream s → Marked b) :
    HeadersParsed stream (StartsCleanly stream s b.unread) (parseHeaders methods s b) := by
  obtain ⟨reads, marks⟩ := parseHeaders_mirrors stream s b trivial wf marked
  obtain ⟨parsed, asserts⟩ := parseHeadersOn_parsed stream sound b.unread
  have sound' := parseHeadersOn_sound stream sound b.unread
  rw [← reads.state] at sound'
  refine ⟨fun clean => reads.code ▸ asserts clean, sound', reads.wf, fun success => ?_, fun waits => ?_⟩
  · rw [reads.state]
    exact parsed.framed (reads.code ▸ success)
  · refine ⟨?_, marks waits⟩
    rw [reads.state]
    exact parsed.waits (reads.code ▸ waits)

end fields

/-! ## Bodies -/

theorem SkipLine_asserts {b : Buffer} (wf : b.WF) :
    (SkipLine b).1 ≠ .assertFailed ∧ (SkipLine b).2.2.WF := by
  have spec := SkipLine_spec wf
  split at spec
  · exact ⟨by rw [spec.1]; decide, spec.2.symm ▸ wf⟩
  · exact ⟨by rw [spec.1]; decide, spec.2.2.2.1⟩

theorem parseChunkExtension_asserts {b : Buffer} (wf : b.WF) :
    (parseChunkExtension b).1 ≠ .assertFailed ∧ (parseChunkExtension b).2.WF :=
  SkipLine_asserts wf

theorem parseEndChunk_asserts {b : Buffer} (wf : b.WF) :
    (parseEndChunk b).1 ≠ .assertFailed ∧ (parseEndChunk b).2.WF :=
  SkipLine_asserts wf

theorem chunkSizeLoop_asserts (fuel remaining : Nat) {b : Buffer} (wf : b.WF) :
    (chunkSizeLoop fuel remaining b).1 ≠ .assertFailed ∧ (chunkSizeLoop fuel remaining b).2.2.WF := by
  induction fuel generalizing remaining b with
  | zero => exact ⟨by simp [chunkSizeLoop], wf⟩
  | succ fuel ih =>
      rw [chunkSizeLoop]
      cases readable : b.isReadable with
      | false => exact ⟨by simp, wf⟩
      | true =>
          simp only [Bool.not_true, Bool.false_eq_true, if_false]
          split_ifs
          · exact ih _ (Buffer.skipNext_wf wf)
          · refine ⟨by simp, ?_⟩
            rw [Buffer.setReadPosition_skipNext wf readable]
            exact wf

theorem parseChunkSize_asserts (remaining : Nat) {b : Buffer} (wf : b.WF) :
    (parseChunkSize remaining b).1 ≠ .assertFailed ∧ (parseChunkSize remaining b).2.2.WF := by
  unfold parseChunkSize
  dsimp only
  split_ifs
  · refine chunkSizeLoop_asserts _ _ ?_
    exact (Buffer.skipWhile_spec isSpace b.readable wf (by rw [Buffer.unread_length wf])).2.1
  · exact chunkSizeLoop_asserts _ _ wf

/-- What a call for a body, in the right state, leaves behind. -/
structure BodyParsed (s : HttpMessageParser χ ρ) (o : BodyOutcome χ ρ) : Prop where
  asserts : o.code ≠ .assertFailed
  sound : Sound o.state
  wf : o.input.WF
  stage : o.state.stage = s.stage
  framed : Framed s.body → Framed o.state.body ∨ o.code = .success ∧ o.chunkSize.getD 0 = 0

theorem BodyParsed.after (s' : HttpMessageParser χ ρ) {s : HttpMessageParser χ ρ}
    {o : BodyOutcome χ ρ} (stage : s'.stage = s.stage) (framed : Framed s'.body) (h : BodyParsed s' o) :
    BodyParsed s o :=
  { h with stage := h.stage.trans stage, framed := fun _ => h.framed framed }

section body

variable {s : HttpMessageParser χ ρ} {b : Buffer}

/-- A call that stops where it is. -/
theorem BodyParsed.stopped (sound : Sound s) (wf : b.WF) {e : Error} (ne : e ≠ .assertFailed) :
    BodyParsed s ⟨e, s, b, none, none⟩ :=
  ⟨ne, sound, wf, rfl, .inl⟩

theorem offer_parsed (sound : Sound s) (wf : b.WF) : BodyParsed s (offer s b) :=
  ⟨by simp [offer], sound, wf, rfl, .inl⟩

theorem parseUnencodedBody_parsed (sound : Sound s) (wf : b.WF)
    (coded : (s.body.unencodedBody || s.body.bodyUntilClose) = true) :
    BodyParsed s (parseUnencodedBody s b) := by
  have whole : s.body.chunkData ≠ true := fun chunk =>
    absurd ((sound.chunk chunk).coded.symm.trans coded) (by decide)
  unfold parseUnencodedBody
  split_ifs
  · exact ⟨by simp, ⟨sound.named, fun chunk => absurd chunk whole, sound.trailer⟩, wf, rfl,
      fun _ => .inr ⟨rfl, rfl⟩⟩
  · exact .stopped sound wf (by simp)
  · exact offer_parsed sound wf

theorem chunkedData_asserts (sound : Sound s) (wf : b.WF) : BodyParsed s (chunkedData s b) := by
  unfold chunkedData parseChunkData
  split_ifs with data none
  · exact absurd none (sound.chunk data).remaining
  · exact .stopped sound wf (by simp)
  · exact offer_parsed sound wf
  · exact .stopped sound wf (by simp)

/-- Between the lines of a chunked body. -/
structure Chunked (s : HttpMessageParser χ ρ) : Prop where
  sound : Sound s
  stage : s.stage = .headerParseComplete
  chunked : s.body.chunkedBody = true
  coded : (s.body.unencodedBody || s.body.bodyUntilClose) = false
  endChunk : s.body.endChunk = false

theorem Chunked.framed (h : Chunked s) : Framed s.body := by simp [Framed, h.chunked]

theorem chunkedExtension_asserts (h : Chunked s) (wf : b.WF) (chunkSize : s.body.chunkSize = false) :
    BodyParsed s (chunkedExtension s b) := by
  have line := parseChunkExtension_asserts wf
  unfold chunkedExtension
  by_cases pending : s.body.chunkExtension = true
  · rw [if_pos pending]
    split
    · rename_i b' skipped
      rw [skipped] at line
      have wf' := Buffer.readMark_wf line.2
      dsimp only
      split_ifs with last
      · refine ⟨by simp, ⟨h.sound.named, fun data => ?_, fun _ => h.stage⟩, wf', rfl,
          fun framed => .inl framed⟩
        exact absurd last (h.sound.chunk data).remaining
      · refine .after { s with body := { s.body with chunkExtension := false, chunkData := true } } rfl
          h.framed (chunkedData_asserts ⟨h.sound.named, fun _ => ?_, h.sound.trailer⟩ wf')
        exact ⟨h.stage, last, chunkSize, h.endChunk, h.coded⟩
    · rename_i e b' _ skipped
      rw [skipped] at line
      exact .stopped h.sound line.2 line.1
  · rw [if_neg pending]
    exact chunkedData_asserts h.sound wf

theorem chunkedSize_asserts (h : Chunked s) (wf : b.WF) : BodyParsed s (chunkedSize s b) := by
  have size := parseChunkSize_asserts s.bodyBytesRemaining wf
  unfold chunkedSize
  cases pending : s.body.chunkSize with
  | false =>
      simp only [Bool.false_eq_true, if_false]
      exact chunkedExtension_asserts h wf pending
  | true =>
      have noData : s.body.chunkData ≠ true := fun data =>
        absurd ((h.sound.chunk data).chunkSize.symm.trans pending) (by decide)
      simp only [if_true]
      split
      · rename_i remaining b' counted
        rw [counted] at size
        refine .after { s with
          bodyBytesRemaining := remaining
          body := { s.body with chunkSize := false, chunkExtension := true } } rfl h.framed ?_
        exact chunkedExtension_asserts ⟨⟨h.sound.named, fun data => absurd data noData,
          h.sound.trailer⟩, h.stage, h.chunked, h.coded, h.endChunk⟩ (Buffer.readMark_wf size.2) rfl
      · rename_i e remaining b' _ counted
        rw [counted] at size
        exact ⟨size.1, ⟨h.sound.named, fun data => absurd data noData, h.sound.trailer⟩, size.2, rfl,
          fun framed => .inl framed⟩

theorem parseChunkedBody_asserts (sound : Sound s) (wf : b.WF) (stage : s.stage = .headerParseComplete)
    (chunked : s.body.chunkedBody = true)
    (coded : (s.body.unencodedBody || s.body.bodyUntilClose) = false) :
    BodyParsed s (parseChunkedBody s b) := by
  have line := parseEndChunk_asserts wf
  unfold parseChunkedBody
  cases ending : s.body.endChunk with
  | false =>
      simp only [Bool.false_eq_true, if_false]
      exact chunkedSize_asserts ⟨sound, stage, chunked, coded, ending⟩ wf
  | true =>
      have noData : s.body.chunkData ≠ true := fun data =>
        absurd ((sound.chunk data).endChunk.symm.trans ending) (by decide)
      simp only [if_true]
      split
      · rename_i b' skipped
        rw [skipped] at line
        refine .after { s with body := { s.body with endChunk := false, chunkSize := true } } rfl
          (by simp [Framed, chunked]) ?_
        exact chunkedSize_asserts ⟨⟨sound.named, fun data => absurd data noData, sound.trailer⟩,
          stage, chunked, coded, rfl⟩ (Buffer.readMark_wf line.2)
      · rename_i e b' _ skipped
        rw [skipped] at line
        exact .stopped sound line.2 line.1

/-- `parseBody` behind the headers. -/
theorem parseBody_asserts (sound : Sound s) (wf : b.WF) (stage : s.stage = .headerParseComplete) :
    BodyParsed s (parseBody s b) := by
  unfold parseBody
  rw [if_neg (by simpa using stage)]
  split_ifs with coded chunked
  · exact parseUnencodedBody_parsed sound wf coded
  · exact parseChunkedBody_asserts sound wf stage chunked (by simpa using coded)
  · exact .stopped sound wf (by simp)
  · exact .stopped sound wf (by simp)

/-- Before the end of the headers it is its first assertion that fails. -/
theorem parseBody_early (early : s.stage ≠ .headerParseComplete) :
    parseBody s b = ⟨.assertFailed, s, b, none, none⟩ := by
  unfold parseBody
  rw [if_pos early]

/-- What `parseBody` leaves of a parser; it asserts that the headers have been parsed. -/
theorem parseBody_keeps (sound : Sound s) (wf : b.WF) :
    Sound (parseBody s b).state ∧ (parseBody s b).input.WF ∧
      (parseBody s b).state.stage = s.stage ∧
      (s.stage ≠ .headerParseComplete → (parseBody s b).state = s ∧ (parseBody s b).input = b) ∧
      (s.stage = .headerParseComplete → (parseBody s b).code ≠ .assertFailed) ∧
      ((parseBody s b).code ≠ .success ∨ (parseBody s b).chunkSize.getD 0 ≠ 0 →
        Framed s.body → Framed (parseBody s b).state.body) := by
  by_cases complete : s.stage = .headerParseComplete
  · have parsed := parseBody_asserts sound wf complete
    refine ⟨parsed.sound, parsed.wf, parsed.stage, fun early => absurd complete early,
      fun _ => parsed.asserts, fun goesOn framed => ?_⟩
    rcases parsed.framed framed with framed | ended
    · exact framed
    · exact absurd ended.1 (goesOn.resolve_right fun more => more ended.2)
  · rw [parseBody_early complete]
    exact ⟨sound, wf, rfl, fun _ => ⟨rfl, rfl⟩, fun same => absurd same complete, fun _ => id⟩

theorem consumeBody_early (early : s.stage ≠ .headerParseComplete) (n : Nat) :
    consumeBody s b n = ⟨.assertFailed, s, b⟩ := by
  unfold consumeBody
  dsimp only
  rw [if_pos early]

/-- What `consumeBody` leaves of a parser; it asserts that a body is being received. -/
theorem consumeBody_asserts (sound : Sound s) (wf : b.WF) (n : Nat) :
    Sound (consumeBody s b n).state ∧ (consumeBody s b n).input.WF ∧
      (consumeBody s b n).state.stage = s.stage ∧
      (Framed s.body → Framed (consumeBody s b n).state.body) ∧
      (s.stage = .headerParseComplete → Framed s.body → (consumeBody s b n).code ≠ .assertFailed) := by
  have wf' := Buffer.skip_wf wf n
  unfold consumeBody
  dsimp only
  by_cases early : s.stage ≠ .headerParseComplete
  · rw [if_pos early]
    exact ⟨sound, wf, rfl, id, fun complete => absurd complete early⟩
  · rw [if_neg early]
    split_ifs with multipart coded none chunked none
    · exact ⟨sound, wf, rfl, id, fun _ _ => by simp⟩
    · refine ⟨⟨sound.named, fun data => ?_, sound.trailer⟩, Buffer.readMark_wf wf', rfl, id,
        fun _ _ => by simp⟩
      exact absurd ((sound.chunk data).coded.symm.trans coded) (by decide)
    · refine ⟨⟨sound.named, fun data => ?_, sound.trailer⟩, wf', rfl, id, fun _ _ => by simp⟩
      exact absurd ((sound.chunk data).coded.symm.trans coded) (by decide)
    · exact ⟨⟨sound.named, fun data => (nomatch data), sound.trailer⟩, Buffer.readMark_wf wf', rfl,
        id, fun _ _ => by simp⟩
    · refine ⟨⟨sound.named, fun data => ?_, sound.trailer⟩, wf', rfl, id, fun _ _ => by simp⟩
      exact { sound.chunk data with remaining := none }
    · refine ⟨sound, wf, rfl, id, fun _ framed => ?_⟩
      simp only [Framed, coded, chunked, Bool.or_false] at framed
      cases framed

theorem skipTrailerLines_asserts (fuel : Nat) {b : Buffer} (wf : b.WF) :
    (skipTrailerLines fuel b).1 ≠ .assertFailed ∧ (skipTrailerLines fuel b).2.WF := by
  induction fuel generalizing b with
  | zero => exact ⟨by simp [skipTrailerLines], wf⟩
  | succ fuel ih =>
      have line := SkipLine_asserts wf
      rw [skipTrailerLines]
      split
      · rename_i b' skipped
        rw [skipped] at line
        exact ⟨by simp, line.2⟩
      · rename_i n b' skipped
        rw [skipped] at line
        exact ih line.2
      · rename_i e n b' _ _ skipped
        rw [skipped] at line
        exact line

theorem skipTrailer_asserts (sound : Sound s) (wf : b.WF) :
    (skipTrailer s b).code ≠ .assertFailed ∧ Sound (skipTrailer s b).state ∧
      (skipTrailer s b).input.WF ∧ (skipTrailer s b).state.stage = s.stage ∧
      (Framed s.body → Framed (skipTrailer s b).state.body) := by
  have lines := skipTrailerLines_asserts (b.readable + 1) wf
  unfold skipTrailer
  split_ifs
  · split
    · rename_i b' skipped
      rw [skipped] at lines
      refine ⟨by simp, ⟨sound.named, fun data => ?_, fun trailer => (nomatch trailer)⟩,
        Buffer.readMark_wf lines.2, rfl, id⟩
      exact { sound.chunk data with }
    · rename_i e b' _ skipped
      rw [skipped] at lines
      exact ⟨lines.1, sound, lines.2, rfl, id⟩
  · exact ⟨by simp, sound, wf, rfl, id⟩

/-- There is no trailer to skip before the end of the headers. -/
theorem skipTrailer_early (sound : Sound s) (early : s.stage ≠ .headerParseComplete) :
    skipTrailer s b = ⟨.success, s, b⟩ := by
  unfold skipTrailer
  rw [if_neg fun trailer => early (sound.trailer trailer)]

end body

end HttpMessageParser

end Everscale
