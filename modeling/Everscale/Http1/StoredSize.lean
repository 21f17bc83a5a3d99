/-
# Everscale.Http1.StoredSize -- the strings of an accepted head fit the working buffer

A string is duplicated when one octet more would still have fitted the working buffer, for the octet that
ends it was read like any other.  So all strings of a head that was accepted are shorter than the capacity
(`accepted_short`), and a parser with a buffer of that size has room for each of them again.
-/
import Everscale.Http1.AcceptedText

namespace Everscale

set_option autoImplicit false

open Theory HttpUtil

namespace HttpMessageParser

variable {χ ρ : Type}

/-- The strings of the header are shorter than this. -/
structure HeaderShort (size : Nat) (header : HttpHeader) : Prop where
  name : header.fieldName.length < size
  value : ∀ value ∈ header.fieldValue, value.length < size

theorem HeaderShort.mono {size larger : Nat} {header : HttpHeader} (h : HeaderShort size header) (le : size ≤ larger) :
    HeaderShort larger header :=
  ⟨h.name.trans_le le, fun value given => (h.value value given).trans_le le⟩

/-- The working buffer has this capacity, and what was stored from it is shorter. -/
structure Short (size : Nat) (K : ρ → Prop) (s : Scratch ρ) : Prop where
  wf : s.working.WF
  capacity : s.working.capacity = size
  line : K s.message.startLine
  headers : ∀ header ∈ s.message.headers, HeaderShort size header

section elements

variable {size : Nat} {K : ρ → Prop} {s : Scratch ρ}

theorem Short.put (h : Short size K s) (c : Octet) : Short size K (s.put c) :=
  ⟨Buffer.putNext_wf h.wf c, (Buffer.putNext_capacity s.working c).trans h.capacity, h.line, h.headers⟩

theorem Short.clear (h : Short size K s) : Short size K { s with working := s.working.clear } :=
  ⟨Buffer.clear_wf h.wf, (Buffer.clear_capacity s.working).trans h.capacity, h.line, h.headers⟩

/-- What is duplicated where there is room is shorter than the buffer. -/
theorem Short.duplicate (h : Short size K s) (room : s.working.isWritable = true) :
    s.working.duplicate.length < size := by
  have shorter : s.working.duplicate.length ≤ s.working.writePosition := by
    rw [← Buffer.written_length h.wf]
    exact (List.rdropWhile_prefix Buffer.isTrimmed s.working.written).length_le
  have below := (Buffer.isWritable_iff_lt s.working).mp room
  exact shorter.trans_lt (below.trans_eq h.capacity)

theorem parseFieldName_short : Reader.Keeps (Short size K) parseFieldName := by
  refine Reader.octetLoop_keeps (fun s c h room => ?_) fun s b h => h
  have writable : s.working.isWritable = true := by
    rw [Scratch.workingFull] at room
    by_contra full
    rw [if_neg full] at room
    cases room
  rw [fieldNameOctet]
  split_ifs
  · refine ⟨h.wf, h.capacity, h.line, fun header inside => ?_⟩
    rcases List.mem_append.mp inside with before | here
    · exact h.headers header before
    · rw [List.mem_singleton.mp here]
      exact ⟨h.duplicate writable, by rintro value ⟨⟩⟩
  · exact h.put c
  · exact h

theorem parseFieldValue_short : Reader.Keeps (Short size K) parseFieldValue := by
  intro s b
  refine foldedText_keeps (fun s c h => h.put c) (fun s h room => ?_) b.readable s b
  rw [saveFieldValue]
  split
  · exact h
  · rename_i message saved
    obtain ⟨last, found, rfl⟩ := Option.map_eq_some_iff.mp saved
    refine ⟨h.wf, h.capacity, h.line, fun header inside => ?_⟩
    rcases List.mem_append.mp inside with before | here
    · exact h.headers header (List.dropLast_subset _ before)
    · rw [List.mem_singleton.mp here]
      refine ⟨(h.headers last (List.mem_of_getLast? found)).name, fun value given => ?_⟩
      rw [← Option.some.inj given]
      exact h.duplicate room

theorem parseVersion_short (clientMode : Bool) : Reader.Keeps (Short size K) (parseVersion clientMode) :=
  parseVersion_keeps (fun _ _ h => ⟨h.wf, h.capacity, h.line, h.headers⟩) clientMode

end elements

/-! ## Heads -/

section head

variable {methods : StartLineMethods χ ρ} {size : Nat} {K : ρ → Prop} {s : HttpMessageParser χ ρ}

theorem postParseHeader_strings (header : HttpHeader) (found : PostParse ρ) :
    (postParseHeader header found).2.message.startLine = found.message.startLine ∧
      (postParseHeader header found).2.message.headers = found.message.headers := by
  rw [postParseHeader]
  split
  · exact ⟨rfl, rfl⟩
  · dsimp only
    split_ifs <;> exact ⟨rfl, rfl⟩

theorem postParseHeaders_strings (headers : List HttpHeader) (found : PostParse ρ) :
    (postParseHeaders headers found).2.message.startLine = found.message.startLine ∧
      (postParseHeaders headers found).2.message.headers = found.message.headers := by
  induction headers generalizing found with
  | nil => exact ⟨rfl, rfl⟩
  | cons header rest ih =>
      obtain ⟨line, same⟩ := postParseHeader_strings header found
      rw [postParseHeaders]
      dsimp only
      split_ifs
      · exact ⟨(ih _).1.trans line, (ih _).2.trans same⟩
      · exact ⟨line, same⟩

theorem postParse_short (h : Short size K s.toScratch) : Short size K (postParse methods s).2.toScratch := by
  obtain ⟨line, headers⟩ := postParseHeaders_strings s.message.headers (postParseStart s.message)
  have kept : Short size K { s.toScratch with
      message := (postParseHeaders s.message.headers (postParseStart s.message)).2.message } :=
    ⟨h.wf, h.capacity, line ▸ h.line, fun header inside => h.headers header (headers ▸ inside)⟩
  rw [postParse]
  dsimp only
  rw [delimitBody]
  split_ifs <;> exact ⟨kept.wf, kept.capacity, kept.line, kept.headers⟩

/-- What is said of the scratch of a parser. -/
abbrev StaysShort (size : Nat) (K : ρ → Prop) (f : Reader (HttpMessageParser χ ρ)) : Prop :=
  Reader.Keeps (fun s => Short size K s.toScratch) f

theorem enter_short {stage : HeaderStage} (h : Short size K s.toScratch) : Short size K (enter stage s).toScratch :=
  h.clear

theorem parseFields_short (fuel : Nat) : StaysShort size K (parseFields methods fuel) := by
  induction fuel with
  | zero => exact fun s b h => h
  | succ fuel ih =>
      intro s b h
      rw [parseFields.eq_def]
      dsimp only
      cases stage : s.stage with
      | fieldName =>
          dsimp only
          split_ifs <;> try exact h
          · exact postParse_short (enter_short h)
          · exact postParse_short (enter_short h)
          · exact Reader.stage_keeps (fun s b h => parseFieldName_short s.toScratch b h) (fun _ => enter_short) ih s b h
      | fieldValue =>
          exact Reader.stage_keeps (fun s b h => parseFieldValue_short s.toScratch b h) (fun _ => enter_short) ih s b h
      | initial => exact h
      | startLine => exact h
      | headerParseComplete => exact h

/-- A parser whose first lines leave short strings does so with whole heads. -/
theorem parseHeaders_short
    (line : Reader.Keeps (fun s : StartLineParse χ ρ => Short size K s.toScratch) methods.parseStartLine) :
    StaysShort size K (parseHeaders methods) := by
  have fields : StaysShort size K (parseHeaderFields methods) := fun s b => parseFields_short _ s b
  have rest : StaysShort size K (parseFromStartLine methods) := by
    intro s b h
    rw [parseFromStartLine]
    split_ifs
    · exact Reader.stage_keeps (fun s b h => line s.toStartLineParse b h) (fun _ => enter_short) fields s b h
    · exact fields s b h
  intro s b h
  rw [parseHeaders]
  dsimp only
  split_ifs
  · exact h
  · exact rest _ _ (enter_short h)
  · exact h
  · exact rest s b h

/-- **The strings of an accepted head are shorter than the working buffer**, however it was cut. -/
theorem accepted_short
    (line : Reader.Keeps (fun s : StartLineParse χ ρ => Short size K s.toScratch) methods.parseStartLine)
    {first s' : HttpMessageParser χ ρ} (fresh : Short size K first.toScratch) (accepts : Accepts methods first s') :
    Short size K s'.toScratch := by
  obtain ⟨s, b, b', parsing, accepted⟩ := accepts
  have before : Short size K s.toScratch := by
    clear accepted
    induction parsing with
    | start => exact fresh
    | @more s s' b b' _ parsed ih =>
        have kept := parseHeaders_short line s b ih
        rwa [parsed] at kept
  have kept := parseHeaders_short line s b before
  rwa [accepted] at kept

end head

end HttpMessageParser

namespace HttpResponseParser

open HttpMessageParser (Short Accepts foldedText_keeps parseVersion_short)

/-- The reason phrase is shorter than this. -/
def LineShort (size : Nat) (line : StatusLine) : Prop := ∀ text ∈ line.reasonPhrase, text.length < size

section line

variable {size : Nat}

theorem parseReasonPhrase_short : Reader.Keeps (Short size (LineShort size)) parseReasonPhrase := by
  intro s b
  refine foldedText_keeps (fun s c h => h.put c) (fun s h room => ⟨h.wf, h.capacity, fun text given => ?_, h.headers⟩)
    b.readable s b
  rw [← Option.some.inj given]
  exact h.duplicate room

theorem parseStatusCode_short : Reader.Keeps (Short size (LineShort size)) parseStatusCode := by
  intro s b h
  unfold parseStatusCode
  dsimp only
  split_ifs <;> exact ⟨h.wf, h.capacity, h.line, h.headers⟩

theorem parseStartLine_short :
    Reader.Keeps (fun s : StatusLineParse => Short size (LineShort size) s.toScratch) parseStartLine := by
  have clears (stage : ResponseStage) (s : StatusLineParse) (h : Short size (LineShort size) s.toScratch) :
      Short size (LineShort size) (enter stage s).toScratch := h.clear
  have phrase : Reader.Keeps (fun s : StatusLineParse => Short size (LineShort size) s.toScratch)
      lineFromReasonPhrase := by
    intro s b h
    rw [lineFromReasonPhrase]
    split_ifs
    · exact Reader.stage_keeps (fun s b h => parseReasonPhrase_short s.toScratch b h) (clears _) (fun _ _ h => h) s b h
    · exact h
  have code : Reader.Keeps (fun s : StatusLineParse => Short size (LineShort size) s.toScratch)
      lineFromStatusCode := by
    intro s b h
    rw [lineFromStatusCode]
    split_ifs
    · exact Reader.stage_keeps (fun s b h => parseStatusCode_short s.toScratch b h) (clears _) phrase s b h
    · exact phrase s b h
  have version : Reader.Keeps (fun s : StatusLineParse => Short size (LineShort size) s.toScratch)
      lineFromVersion := by
    intro s b h
    rw [lineFromVersion]
    split_ifs
    · exact Reader.stage_keeps (fun s b h => parseVersion_short true s.toScratch b h) (clears _) code s b h
    · exact code s b h
  intro s b h
  rw [parseStartLine]
  split_ifs
  · exact h
  · exact version _ _ (clears _ s h)
  · exact version s b h

/-- The strings of an accepted response. -/
theorem accepted_short {working : Buffer} (wf : working.WF) {s' : HttpResponseParser}
    (accepts : Accepts methods (fresh working) s') :
    Short working.capacity (LineShort working.capacity) s'.toScratch :=
  HttpMessageParser.accepted_short parseStartLine_short ⟨wf, rfl, by rintro text ⟨⟩, by rintro header ⟨⟩⟩ accepts

end line

end HttpResponseParser

/-! ## Requests -/

namespace HttpRequestUriParser

/-- The working buffer has this capacity. -/
structure Sized (size : Nat) (s : HttpRequestUriParser) : Prop where
  wf : s.working.WF
  capacity : s.working.capacity = size

section uri

variable {size : Nat} {s : HttpRequestUriParser}

theorem Sized.put (h : Sized size s) (c : Octet) : Sized size (s.put c) :=
  ⟨Buffer.putNext_wf h.wf c, (Buffer.putNext_capacity s.working c).trans h.capacity⟩

theorem Sized.leave (h : Sized size s) (next : UriStage) (uri : HttpRequestUri) : Sized size (s.leave next uri) :=
  ⟨Buffer.clear_wf h.wf, (Buffer.clear_capacity s.working).trans h.capacity⟩

abbrev StaysSized (size : Nat) (f : Reader HttpRequestUriParser) : Prop := Reader.Keeps (Sized size) f

theorem parseFragment_sized : StaysSized size parseFragment := by
  refine Reader.octetLoop_keeps (fun s c h _ => ?_) fun s b h => h
  rw [fragmentOctet]
  split_ifs
  · exact h.put c
  · exact h.leave _ _
  · exact h

theorem afterQuery_sized : StaysSized size afterQuery := by
  intro s b h
  rw [afterQuery]
  split
  · exact parseFragment_sized s b h
  · exact h

theorem parseQuery_sized : StaysSized size parseQuery := by
  refine Reader.octetLoop_keeps (fun s c h _ => ?_) fun s b => afterQuery_sized s b.readMark
  rw [queryOctet]
  split_ifs
  · exact h.put c
  · exact h.leave _ _
  · exact h.leave _ _
  · exact h

theorem afterAbsPath_sized : StaysSized size afterAbsPath := by
  intro s b h
  rw [afterAbsPath]
  split
  · exact parseQuery_sized s b h
  · exact afterQuery_sized s b h

theorem parseAbsPath_sized : StaysSized size parseAbsPath := by
  refine Reader.octetLoop_keeps (fun s c h _ => ?_) fun s b => afterAbsPath_sized s b.readMark
  rw [absPathOctet]
  dsimp only
  split_ifs <;> first | exact h.put c | exact h.leave _ _ | exact h

theorem afterPort_sized : StaysSized size afterPort := by
  intro s b h
  rw [afterPort]
  split
  · exact parseAbsPath_sized s b h
  · exact afterAbsPath_sized s b h

theorem parsePort_sized : StaysSized size parsePort := by
  refine Reader.octetLoop_keeps (fun s c h _ => ?_) fun s b => afterPort_sized s b.readMark
  rw [portOctet]
  dsimp only
  split_ifs <;> first | exact h.leave _ _ | exact ⟨h.wf, h.capacity⟩

theorem afterHost_sized : StaysSized size afterHost := by
  intro s b h
  rw [afterHost]
  split
  · exact parsePort_sized s b h
  · exact afterPort_sized s b h

theorem parseHost_sized : StaysSized size parseHost := by
  refine Reader.octetLoop_keeps (fun s c h _ => ?_) fun s b => afterHost_sized s b.readMark
  rw [hostOctet]
  dsimp only
  split_ifs <;> first | exact h.put c | exact h.leave _ _ | exact h

theorem skipForwardSlashes_sized : StaysSized size skipForwardSlashes := by
  intro s b h
  rw [skipForwardSlashes]
  split_ifs
  · exact parseHost_sized _ _ ⟨h.wf, h.capacity⟩
  · exact h

theorem parseNonHttpUri_sized : StaysSized size parseNonHttpUri := by
  refine Reader.octetLoop_keeps (fun s c h _ => ?_) fun s b h => h
  rw [nonHttpUriOctet]
  split_ifs
  · exact h.leave _ _
  · exact h.put c

theorem afterScheme_sized : StaysSized size afterScheme := by
  intro s b h
  rw [afterScheme]
  split
  · exact skipForwardSlashes_sized s b h
  · exact parseNonHttpUri_sized s b h

theorem parseScheme_sized : StaysSized size parseScheme := by
  refine Reader.octetLoop_keeps (fun s c h _ => ?_) fun s b => afterScheme_sized s b.readMark
  rw [schemeOctet]
  split_ifs
  · exact h.put c
  · exact h
  · exact h.put c
  · exact h.put c
  · exact h.leave _ _
  · exact h.leave _ _
  · exact ⟨(h.put c).wf, (h.put c).capacity⟩
  · exact h

theorem parseAsterisk_sized : StaysSized size parseAsterisk := by
  intro s b h
  rw [parseAsterisk]
  dsimp only
  split_ifs <;> exact ⟨h.wf, h.capacity⟩

theorem parse_sized : StaysSized size parse := by
  have component : StaysSized size parseComponent := by
    intro s b h
    rw [parseComponent]
    split
    · exact parseAsterisk_sized s b h
    · exact parseScheme_sized s b h
    · exact skipForwardSlashes_sized s b h
    · exact parseHost_sized s b h
    · exact parsePort_sized s b h
    · exact parseAbsPath_sized s b h
    · exact parseQuery_sized s b h
    · exact parseFragment_sized s b h
    · exact parseNonHttpUri_sized s b h
    · exact h
  intro s b h
  rw [parse]
  dsimp only
  split_ifs
  · exact h
  · exact component _ _ ⟨h.wf, h.capacity⟩
  · exact h
  · exact component s b h

end uri

end HttpRequestUriParser

namespace HttpRequestParser

open HttpMessageParser (Short Accepts parseVersion_short)

section line

variable {size : Nat}

theorem parseMethod_short : Reader.Keeps (Short size fun _ => True) parseMethod := by
  refine Reader.octetLoop_keeps (fun s c h _ => ?_) fun s b h => h
  rw [methodOctet]
  split_ifs
  · exact ⟨h.wf, h.capacity, trivial, h.headers⟩
  · exact h.put c
  · exact h

theorem parseStartLine_short :
    Reader.Keeps (fun s : RequestLineParse => Short size (fun _ => True) s.toScratch) parseStartLine := by
  have clears (stage : RequestStage) (s : RequestLineParse) (h : Short size (fun _ => True) s.toScratch) :
      Short size (fun _ => True) (enter stage s).toScratch := h.clear
  have version : Reader.Keeps (fun s : RequestLineParse => Short size (fun _ => True) s.toScratch) lineFromVersion := by
    intro s b h
    rw [lineFromVersion]
    split_ifs
    · exact Reader.stage_keeps (fun s b h => parseVersion_short false s.toScratch b h) (clears _) (fun _ _ h => h) s b h
    · exact h
  have target : Reader.Keeps (fun s : RequestLineParse => Short size (fun _ => True) s.toScratch)
      (onUri HttpRequestUriParser.parse) := by
    intro s b h
    have read := HttpRequestUriParser.parse_sized (getUri s) b ⟨h.wf, h.capacity⟩
    exact ⟨read.wf, read.capacity, trivial, h.headers⟩
  have uri : Reader.Keeps (fun s : RequestLineParse => Short size (fun _ => True) s.toScratch) lineFromUri := by
    intro s b h
    rw [lineFromUri]
    split_ifs
    · exact Reader.stage_keeps target (clears _) version s b h
    · exact version s b h
  have method : Reader.Keeps (fun s : RequestLineParse => Short size (fun _ => True) s.toScratch) lineFromMethod := by
    intro s b h
    rw [lineFromMethod]
    split_ifs
    · exact Reader.stage_keeps (fun s b h => parseMethod_short s.toScratch b h) (clears _) uri s b h
    · exact uri s b h
  intro s b h
  rw [parseStartLine]
  split_ifs
  · exact h
  · exact method _ _ (clears _ s h)
  · exact method s b h

/-- The strings of the headers of an accepted request. -/
theorem accepted_short {working : Buffer} (wf : working.WF) {s' : HttpRequestParser}
    (accepts : Accepts methods (fresh working) s') : Short working.capacity (fun _ => True) s'.toScratch :=
  HttpMessageParser.accepted_short parseStartLine_short ⟨wf, rfl, trivial, by rintro header ⟨⟩⟩ accepts

end line

end HttpRequestParser

end Everscale
