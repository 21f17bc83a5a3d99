/-
# Everscale.Http1.AcceptedText -- the strings of accepted requests and responses

Which octets the method, the target and the reason phrase of an accepted head may hold.  Each
component of a target has a class of its own (`admitted`); an opaque target admits everything but
spaces.
-/
import Everscale.Http1.GatheredText

namespace Everscale

set_option autoImplicit false

open Theory HttpUtil

/-! ## Request targets -/

namespace HttpRequestUriParser

/-- The octets that may be gathered in a state; elsewhere nothing is gathered. -/
def admitted : UriStage → Octet → Bool
  | .scheme => fun c => isAlphaNum c || c = octet '+' || c = octet '=' || c = octet '.'
  | .host => fun c => isAlphaNum c || c = octet '-' || c = octet '.'
  | .absPath => fun c => isPchar c || c = octet '/' || c = octet ';'
  | .query | .fragment => isUric
  | .nonHttpUri => fun c => !isSpace c
  | _ => fun _ => false

/-- The components of a target. -/
structure UriStored (uri : HttpRequestUri) : Prop where
  host : ∀ text ∈ uri.host, text.all (admitted .host) = true
  absPath : ∀ text ∈ uri.absPath, text.all (admitted .absPath) = true
  query : ∀ text ∈ uri.query, text.all (admitted .query) = true
  fragment : ∀ text ∈ uri.fragment, text.all (admitted .fragment) = true
  other : ∀ text ∈ uri.other, text.all (admitted .nonHttpUri) = true

/-- What is known of a target while it is read. -/
structure UriKnown (s : HttpRequestUriParser) : Prop where
  wf : s.working.WF
  gathered : s.working.written.all (admitted s.state) = true
  stored : UriStored s.requestUri

/-- What is known of a target that is being read in this state. -/
structure UriAt (state : UriStage) (s : HttpRequestUriParser) : Prop extends UriKnown s where
  state_eq : s.state = state

section uri

variable {s : HttpRequestUriParser} {state : UriStage}

theorem UriAt.put (h : UriAt state s) {c : Octet} (inside : admitted state c = true) : UriAt state (s.put c) where
  wf := Buffer.putNext_wf h.wf c
  gathered := by
    have := Buffer.putNext_all h.wf h.gathered (c := c) (by rw [h.state_eq]; exact inside)
    exact this
  stored := h.stored
  state_eq := h.state_eq

/-- A component that is complete; the next one begins with nothing gathered. -/
theorem UriAt.leave (h : UriAt state s) {next : UriStage} {uri : HttpRequestUri} (stored : UriStored uri) :
    UriKnown (s.leave next uri) :=
  ⟨Buffer.clear_wf h.wf, by rw [HttpRequestUriParser.leave]; dsimp only; rw [Buffer.clear_written]; rfl, stored⟩

theorem UriAt.duplicate (h : UriAt state s) : s.working.duplicate.all (admitted state) = true :=
  Buffer.duplicate_all (h.state_eq ▸ h.gathered)

/-- Whatever is read, what is known stays known. -/
abbrev KnowsUri (P : HttpRequestUriParser → Prop) (f : Reader HttpRequestUriParser) : Prop :=
  Reader.Leads P f fun _ => UriKnown

theorem octetLoop_known {guard : HttpRequestUriParser → Option Error}
    {act : HttpRequestUriParser → Octet → Act Error HttpRequestUriParser} {after : Reader HttpRequestUriParser}
    (acts : ∀ s c, UriAt state s → Reader.ActLeads (UriAt state) (fun _ => UriKnown) UriKnown (act s c))
    (afterKnown : KnowsUri UriKnown after) : KnowsUri (UriAt state) (Reader.octetLoop guard act after) :=
  Reader.octetLoop_leads acts (fun _ h => h.toUriKnown) (fun _ _ h _ => h.toUriKnown) afterKnown

theorem parseFragment_known : KnowsUri (UriAt .fragment) parseFragment := by
  refine octetLoop_known (fun s c h => ?_) fun s b h => h
  rw [fragmentOctet]
  split_ifs with uric
  · exact h.put uric
  · exact h.leave { h.stored with fragment := fun text here => Option.mem_some_iff.mp here ▸ h.duplicate }
  · exact h.toUriKnown

theorem afterQuery_known : KnowsUri UriKnown afterQuery := by
  intro s b h
  rw [afterQuery]
  split
  · exact parseFragment_known s b ⟨h, ‹_›⟩
  · exact h

theorem parseQuery_known : KnowsUri (UriAt .query) parseQuery := by
  refine octetLoop_known (fun s c h => ?_) fun s b h => afterQuery_known s _ h
  have stored : UriStored { s.requestUri with query := some s.working.duplicate } :=
    { h.stored with query := fun text here => Option.mem_some_iff.mp here ▸ h.duplicate }
  rw [queryOctet]
  dsimp only
  split_ifs with uric
  · exact h.put uric
  · exact h.leave stored
  · exact h.leave stored
  · exact h.toUriKnown

theorem afterAbsPath_known : KnowsUri UriKnown afterAbsPath := by
  intro s b h
  rw [afterAbsPath]
  split
  · exact parseQuery_known s b ⟨h, ‹_›⟩
  · exact afterQuery_known s b h

theorem parseAbsPath_known : KnowsUri (UriAt .absPath) parseAbsPath := by
  refine octetLoop_known (fun s c h => ?_) fun s b h => afterAbsPath_known s _ h
  have stored : UriStored { s.requestUri with absPath := some s.working.duplicate } :=
    { h.stored with absPath := fun text here => Option.mem_some_iff.mp here ▸ h.duplicate }
  rw [absPathOctet]
  dsimp only
  split_ifs with first slash pchar other
  · exact h.put (by simp [admitted, slash])
  · exact h.toUriKnown
  · exact h.put (by simp [admitted, pchar])
  · exact h.put (by rcases other with other | other <;> simp [admitted, other])
  · exact h.leave stored
  · exact h.leave stored
  · exact h.leave stored
  · exact h.toUriKnown

theorem UriStored.root {uri : HttpRequestUri} (h : UriStored uri) :
    UriStored { uri with absPath := some (octets "/") } :=
  { h with absPath := fun text here => Option.mem_some_iff.mp here ▸ by decide }

theorem afterPort_known : KnowsUri UriKnown afterPort := by
  intro s b h
  rw [afterPort]
  split
  · exact parseAbsPath_known s b ⟨h, ‹_›⟩
  · exact afterAbsPath_known s b h

theorem parsePort_known : KnowsUri (UriAt .port) parsePort := by
  refine octetLoop_known (fun s c h => ?_) fun s b h => afterPort_known s _ h
  have counted (port : Int) : UriAt .port { s with requestUri := { s.requestUri with port } } :=
    ⟨⟨h.wf, h.gathered, { h.stored with }⟩, h.state_eq⟩
  rw [portOctet]
  by_cases digit : isDigit c = true
  · rw [if_pos digit]
    dsimp only
    generalize (if s.requestUri.port < 0 then 0 else s.requestUri.port) * 10 + ((c.toNat - 48 : Nat) : Int) = port
    split_ifs
    · exact (counted port).toUriKnown
    · exact counted port
  rw [if_neg digit]
  dsimp only
  split_ifs
  · exact h.toUriKnown
  · exact h.leave h.stored.root
  · exact h.leave h.stored
  · exact h.leave h.stored.root
  · exact h.leave h.stored.root
  · exact h.toUriKnown

theorem afterHost_known : KnowsUri UriKnown afterHost := by
  intro s b h
  rw [afterHost]
  split
  · exact parsePort_known s b ⟨h, ‹_›⟩
  · exact afterPort_known s b h

theorem parseHost_known : KnowsUri (UriAt .host) parseHost := by
  refine octetLoop_known (fun s c h => ?_) fun s b h => afterHost_known s _ h
  have stored : UriStored { s.requestUri with host := some s.working.duplicate } :=
    { h.stored with host := fun text here => Option.mem_some_iff.mp here ▸ h.duplicate }
  rw [hostOctet]
  dsimp only
  split_ifs with first letter letter other
  · exact h.put (by simp [admitted, letter])
  · exact h.toUriKnown
  · exact h.put (by simp [admitted, letter])
  · exact h.put (by rcases other with other | other <;> simp [admitted, other])
  · exact h.leave stored
  · exact h.leave stored.root
  · exact h.leave stored
  · exact h.leave stored.root
  · exact h.leave stored.root
  · exact h.toUriKnown

theorem skipForwardSlashes_known : KnowsUri (UriAt .skippingFwdSlashes) skipForwardSlashes := by
  intro s b h
  rw [skipForwardSlashes]
  split_ifs
  · have empty : s.working.written.all (admitted .host) = true := by
      have := h.gathered
      rw [h.state_eq] at this
      exact List.all_eq_true.mpr fun c inside => absurd (List.all_eq_true.mp this c inside) nofun
    exact parseHost_known _ _ ⟨⟨h.wf, empty, h.stored⟩, rfl⟩
  · exact h.toUriKnown

theorem parseNonHttpUri_known : KnowsUri (UriAt .nonHttpUri) parseNonHttpUri := by
  refine octetLoop_known (fun s c h => ?_) fun s b h => h
  rw [nonHttpUriOctet]
  split_ifs with space
  · exact h.leave { h.stored with other := fun text here => Option.mem_some_iff.mp here ▸ h.duplicate }
  · exact h.put (by simp [admitted, space])

theorem afterScheme_known (s : HttpRequestUriParser) (b : Buffer)
    (h : UriAt .skippingFwdSlashes s ∨ UriAt .nonHttpUri s) : UriKnown (afterScheme s b).state := by
  rw [afterScheme]
  rcases h with h | h
  · rw [h.state_eq]
    exact skipForwardSlashes_known s b h
  · rw [h.state_eq]
    exact parseNonHttpUri_known s b h

/-- What a scheme is made of is no space. -/
theorem admitted_scheme {c : Octet} (h : admitted .scheme c = true) : admitted .nonHttpUri c = true := by
  have nest := classes_nest c
  simp only [admitted, Bool.or_eq_true, decide_eq_true_eq] at h
  rcases h with ((letter | rfl) | rfl) | rfl
  · simp only [isAlphaNum, inClass] at letter
    simp only [classesNest, letter] at nest
    simp only [admitted, isSpace]
    grind [isLWS]
  all_goals decide

theorem letter_alphaNum {c : Octet} (h : isAlpha c = true) : isAlphaNum c = true := by
  have nest := classes_nest c
  simp only [isAlpha, isAlphaNum, inClass] at h ⊢
  simp only [classesNest, h] at nest
  grind

theorem parseScheme_known : KnowsUri (UriAt .scheme) parseScheme := by
  refine Reader.octetLoop_leads (R := fun s => UriAt .skippingFwdSlashes s ∨ UriAt .nonHttpUri s)
    (fun s c h => ?_) (fun s h => h.toUriKnown) (fun s e h _ => h.toUriKnown) fun s b h => afterScheme_known s _ h
  have typed (type : UriType) : UriStored { s.requestUri with type } := { h.stored with }
  rw [schemeOctet]
  split_ifs with first letter letter other colon
  · exact h.put (by rw [admitted]; dsimp only; rw [letter_alphaNum letter]; rfl)
  · exact h.toUriKnown
  · exact h.put (by simp [admitted, letter])
  · exact h.put (by rcases other with rfl | rfl | rfl <;> decide)
  · exact .inl ⟨h.leave (typed .http), rfl⟩
  · exact .inl ⟨h.leave (typed .https), rfl⟩
  · have gathered : s.working.written.all (admitted .nonHttpUri) = true :=
      List.all_eq_true.mpr fun d inside =>
        admitted_scheme (h.state_eq ▸ List.all_eq_true.mp h.gathered d inside)
    exact .inr ⟨⟨Buffer.putNext_wf h.wf c, Buffer.putNext_all h.wf gathered (by rw [colon]; decide), typed .other⟩, rfl⟩
  · exact h.toUriKnown

theorem parseAsterisk_known : KnowsUri (UriAt .asterisk) parseAsterisk := by
  intro s b h
  have typed : UriStored { s.requestUri with type := .asterisk } := { h.stored with }
  have gathered : s.working.written.all (admitted .parseComplete) = true := by
    have := h.gathered
    rwa [h.state_eq] at this
  rw [parseAsterisk]
  dsimp only
  split_ifs
  · exact h.toUriKnown
  · exact h.toUriKnown
  · exact h.toUriKnown
  · exact h.toUriKnown
  · exact ⟨h.wf, gathered, typed⟩

theorem parseComponent_known : KnowsUri UriKnown parseComponent := by
  intro s b h
  rw [parseComponent]
  split
  · exact parseAsterisk_known s b ⟨h, ‹_›⟩
  · exact parseScheme_known s b ⟨h, ‹_›⟩
  · exact skipForwardSlashes_known s b ⟨h, ‹_›⟩
  · exact parseHost_known s b ⟨h, ‹_›⟩
  · exact parsePort_known s b ⟨h, ‹_›⟩
  · exact parseAbsPath_known s b ⟨h, ‹_›⟩
  · exact parseQuery_known s b ⟨h, ‹_›⟩
  · exact parseFragment_known s b ⟨h, ‹_›⟩
  · exact parseNonHttpUri_known s b ⟨h, ‹_›⟩
  · exact h

/-- Whatever is read of a target, its components hold octets of their own kind. -/
theorem parse_known : KnowsUri UriKnown parse := by
  intro s b h
  rw [parse]
  split_ifs with complete initial
  · exact h
  · dsimp only
    split_ifs
    · have empty : s.working.written = [] := by
        have := h.gathered
        rw [initial] at this
        exact List.eq_nil_iff_forall_not_mem.mpr fun c inside =>
          absurd (List.all_eq_true.mp this c inside) nofun
      exact parseComponent_known _ _ ⟨h.wf, by dsimp only; rw [empty]; rfl, h.stored⟩
    · exact h
  · exact parseComponent_known s b h

end uri

end HttpRequestUriParser

/-! ## First lines -/

namespace HttpRequestParser

open HttpMessageParser (Accepts KnowsLine FirstLineRead TextKnown HeadStored accepted_text parseVersion_keeps)
open HttpRequestUriParser (UriKnown UriStored parse_known)

/-- The strings of a request line. -/
structure LineStored (line : RequestLine) : Prop where
  method : ∀ text ∈ line.method, text.all isToken = true
  requestUri : UriStored line.requestUri

/-- What is known while a request line is read. -/
structure LineKnown (s : RequestLineParse) : Prop where
  line : LineStored s.message.startLine
  wf : s.working.WF
  headers : s.message.headers = []
  gathered : s.sub.requestState = .method → s.working.written.all isToken = true
  target : s.sub.requestState = .requestUri → UriKnown (getUri s)
  ahead : s.sub.requestState = .initial ∨ s.sub.requestState = .method → s.sub.uriState = .initial

section line

variable {s : RequestLineParse} {b : Buffer}

theorem LineKnown.of_later (read : FirstLineRead LineStored s)
    (later : s.sub.requestState = .httpVersion ∨ s.sub.requestState = .parseComplete) : LineKnown s := by
  refine ⟨read.line, read.wf, read.headers, fun turn => ?_, fun turn => ?_, fun turn => ?_⟩
  · rcases later with later | later <;> cases later.symm.trans turn
  · rcases later with later | later <;> cases later.symm.trans turn
  · rcases later with later | later <;> rcases turn with turn | turn <;> cases later.symm.trans turn

theorem LineKnown.read (h : LineKnown s) : FirstLineRead LineStored s := ⟨h.line, h.wf, h.headers⟩

theorem lineFromVersion_leaves (h : FirstLineRead LineStored s) :
    Reader.Leaves LineKnown (FirstLineRead LineStored) (lineFromVersion s b).code (lineFromVersion s b).state := by
  rw [lineFromVersion]
  split_ifs with turn
  · have kept : FirstLineRead LineStored (onScratch (HttpMessageParser.parseVersion false) s b).state := by
      obtain ⟨line, wf, headers⟩ := parseVersion_keeps
        (P := fun s => LineStored s.message.startLine ∧ s.working.WF ∧ s.message.headers = []) (fun _ _ h => h) false
        s.toScratch b ⟨h.line, h.wf, h.headers⟩
      exact ⟨line, wf, headers⟩
    exact Reader.stage_leaves (E := FirstLineRead LineStored)
      ⟨fun _ => .of_later kept (.inl turn), fun _ => kept⟩
      fun s b read => .done ⟨read.line, Buffer.clear_wf read.wf, read.headers⟩
  · exact .failed (by rintro ⟨⟩) (by rintro ⟨⟩)

theorem lineFromUri_leaves (h : LineKnown s) :
    Reader.Leaves LineKnown (FirstLineRead LineStored) (lineFromUri s b).code (lineFromUri s b).state := by
  rw [lineFromUri]
  split_ifs with turn
  · have known : UriKnown (HttpRequestUriParser.parse (getUri s) b).state := parse_known _ b (h.target turn)
    have line : LineStored (onUri HttpRequestUriParser.parse s b).state.message.startLine :=
      ⟨h.line.method, known.stored⟩
    refine Reader.stage_leaves (E := FirstLineRead LineStored)
      ⟨fun _ => ⟨line, known.wf, h.headers, fun other => ?_, fun _ => known, fun early => ?_⟩,
        fun _ => ⟨line, known.wf, h.headers⟩⟩
      fun s b read => lineFromVersion_leaves ⟨read.line, Buffer.clear_wf read.wf, read.headers⟩
    · cases turn.symm.trans other
    · rcases early with early | early <;> cases turn.symm.trans early
  · exact lineFromVersion_leaves h.read

/-- A method is being read. -/
structure InMethod (s : Scratch RequestLine) : Prop where
  line : LineStored s.message.startLine
  wf : s.working.WF
  headers : s.message.headers = []
  tokens : s.working.written.all isToken = true

/-- A method has been read. -/
structure MethodRead (s : Scratch RequestLine) : Prop where
  line : LineStored s.message.startLine
  wf : s.working.WF
  headers : s.message.headers = []

theorem parseMethod_leaves : Reader.Leads InMethod parseMethod (Reader.Leaves InMethod MethodRead) := by
  refine Reader.octetLoop_leads (R := fun _ => True) (fun s c h => ?_) (fun s h => .waits h)
    (fun s e h refused => ?_) fun s b _ => .failed (by rintro ⟨⟩) (by rintro ⟨⟩)
  · rw [methodOctet]
    split_ifs with space token
    · have method : ∀ text ∈ some s.working.duplicate, text.all isToken = true := fun text here =>
        Option.mem_some_iff.mp here ▸ Buffer.duplicate_all h.tokens
      exact .done ⟨⟨method, h.line.requestUri⟩, h.wf, h.headers⟩
    · exact ⟨h.line, Buffer.putNext_wf h.wf c, h.headers, Buffer.putNext_all h.wf h.tokens token⟩
    · exact .failed (by rintro ⟨⟩) (by rintro ⟨⟩)
  · rw [Scratch.workingFull] at refused
    split_ifs at refused
    cases refused
    exact .failed (by rintro ⟨⟩) (by rintro ⟨⟩)

theorem lineFromMethod_leaves (h : LineKnown s) :
    Reader.Leaves LineKnown (FirstLineRead LineStored) (lineFromMethod s b).code (lineFromMethod s b).state := by
  rw [lineFromMethod]
  split_ifs with turn
  · have read := parseMethod_leaves s.toScratch b ⟨h.line, h.wf, h.headers, h.gathered turn⟩
    have ahead := h.ahead (.inr turn)
    refine Reader.stage_leaves (E := fun s : RequestLineParse => MethodRead s.toScratch ∧ s.sub.uriState = .initial)
      ⟨fun code => ?_, fun code => ⟨read.success code, ahead⟩⟩ fun s b ⟨read, ahead⟩ => lineFromUri_leaves ?_
    · obtain ⟨line, wf, headers, tokens⟩ := read.again code
      exact ⟨line, wf, headers, fun _ => tokens, fun other => (nomatch turn.symm.trans other), fun _ => ahead⟩
    · refine ⟨read.line, Buffer.clear_wf read.wf, read.headers, nofun, fun _ => ?_, by rintro (⟨⟨⟩⟩ | ⟨⟨⟩⟩)⟩
      refine ⟨Buffer.clear_wf read.wf, ?_, read.line.requestUri⟩
      rw [getUri, enter]
      dsimp only
      rw [Buffer.clear_written]
      rfl
  · exact lineFromUri_leaves h

theorem parseStartLine_leaves :
    Reader.Leads LineKnown parseStartLine (Reader.Leaves LineKnown (FirstLineRead LineStored)) := by
  intro s b h
  rw [parseStartLine]
  split_ifs with complete initial
  · exact .failed (by rintro ⟨⟩) (by rintro ⟨⟩)
  · refine lineFromMethod_leaves
      ⟨h.line, Buffer.clear_wf h.wf, h.headers, fun _ => ?_, by rintro ⟨⟩, fun _ => h.ahead (.inl initial)⟩
    rw [enter]
    dsimp only
    rw [Buffer.clear_written]
    rfl
  · exact lineFromMethod_leaves h

theorem knowsLine : KnowsLine methods LineKnown LineStored where
  cleared s h := by
    refine ⟨h.line, Buffer.clear_wf h.wf, h.headers, fun _ => ?_, fun turn => ?_, h.ahead⟩
    · rw [Buffer.clear_written]; rfl
    · refine ⟨Buffer.clear_wf h.wf, ?_, h.line.requestUri⟩
      rw [getUri]; dsimp only; rw [Buffer.clear_written]; rfl
  reads := parseStartLine_leaves

end line

theorem fresh_known {working : Buffer} (wf : working.WF) : TextKnown LineKnown LineStored (fresh working) where
  stage := nofun
  line _ := ⟨⟨nofun, nofun, nofun, nofun, nofun, nofun⟩, wf, rfl, nofun, nofun, fun _ => rfl⟩
  read fields := by rcases fields with stage | stage <;> cases stage
  name := nofun
  value := nofun

/-- The strings of an accepted request. -/
theorem accepted_stored {working : Buffer} (wf : working.WF) {s' : HttpRequestParser}
    (accepts : Accepts methods (fresh working) s') : HeadStored LineStored s' :=
  accepted_text knowsLine (fresh_known wf) accepts

end HttpRequestParser

namespace HttpResponseParser

open HttpMessageParser (Accepts KnowsLine FirstLineRead TextKnown HeadStored accepted_text parseVersion_keeps Rested
  Gathered foldedText_gathered)

/-- The strings of a status line. -/
structure LineStored (line : StatusLine) : Prop where
  reasonPhrase : ∀ text ∈ line.reasonPhrase, Stored isText text
  statusCode : line.statusCode < 1000

/-- What is known while a status line is read. -/
structure LineKnown (s : StatusLineParse) : Prop where
  line : LineStored s.message.startLine
  wf : s.working.WF
  headers : s.message.headers = []
  gathered : s.sub = .reasonPhrase → Rested isText s.working

section line

variable {s : StatusLineParse} {b : Buffer}

theorem LineKnown.read (h : LineKnown s) : FirstLineRead LineStored s := ⟨h.line, h.wf, h.headers⟩

theorem parseReasonPhrase_leaves {s : Scratch StatusLine} (rested : Rested isText s.working) (b : Buffer) :
    Gathered isText saveReasonPhrase s (parseReasonPhrase s b) := by
  rw [parseReasonPhrase]
  exact foldedText_gathered (fun _ => show Error.success ≠ .again by decide) ⟨by decide, by decide⟩ b.readable s b
    rested.gathering (Nat.le_refl _)

theorem lineFromReasonPhrase_leaves (h : LineKnown s) :
    Reader.Leaves LineKnown (FirstLineRead LineStored) (lineFromReasonPhrase s b).code
      (lineFromReasonPhrase s b).state := by
  rw [lineFromReasonPhrase]
  split_ifs with turn
  · have read := parseReasonPhrase_leaves (h.gathered turn) b
    refine Reader.stage_leaves (E := FirstLineRead LineStored) ⟨fun code => ?_, fun code => ?_⟩
      fun s b read => .done ⟨read.line, Buffer.clear_wf read.wf, read.headers⟩
    · obtain ⟨rested, same⟩ := read.again code
      have message : (onScratch parseReasonPhrase s b).state.message = s.message := same
      exact ⟨message ▸ h.line, rested.wf, message ▸ h.headers, fun _ => rested⟩
    · obtain ⟨s', same, wf, text, saved⟩ := read.success code
      have state : (onScratch parseReasonPhrase s b).state.toScratch = (saveReasonPhrase s').2 :=
        (Prod.mk.inj saved).2.symm
      have reasonPhrase : ∀ text ∈ some s'.working.duplicate, Stored isText text := fun _ here =>
        Option.mem_some_iff.mp here ▸ text
      refine ⟨?_, ?_, ?_⟩ <;> rw [state, saveReasonPhrase]
      · exact ⟨reasonPhrase, by dsimp only; rw [same]; exact h.line.statusCode⟩
      · exact wf
      · exact (congrArg HttpMessage.headers same).trans h.headers
  · exact .failed (by rintro ⟨⟩) (by rintro ⟨⟩)

/-- A digit is worth less than ten. -/
theorem digit_lt {c : Octet} (digit : isDigit c = true) : c.toNat - 48 < 10 := by
  have row := forall_octet (p := fun c mask => !(mask &&& DIGIT != 0) || decide (c.toNat - 48 < 10))
    (by decide +kernel) c
  simp only [isDigit, inClass] at digit
  simpa [digit] using row

/-- Three digits are below a thousand. -/
theorem parseStatusCode_stored : Reader.Keeps (fun s : Scratch StatusLine =>
    LineStored s.message.startLine ∧ s.working.WF ∧ s.message.headers = []) parseStatusCode := by
  intro s b h
  unfold parseStatusCode
  dsimp only
  split_ifs with few c0 c1 c2 space <;> try exact h
  rw [Bool.not_eq_true', Bool.not_eq_false] at c0 c1 c2
  have first := digit_lt c0
  have second := digit_lt c1
  have third := digit_lt c2
  exact ⟨⟨h.1.reasonPhrase, by dsimp only; omega⟩, h.2⟩

theorem lineFromStatusCode_leaves (h : LineKnown s) :
    Reader.Leaves LineKnown (FirstLineRead LineStored) (lineFromStatusCode s b).code
      (lineFromStatusCode s b).state := by
  rw [lineFromStatusCode]
  split_ifs with turn
  · obtain ⟨line, wf, headers⟩ := parseStatusCode_stored s.toScratch b ⟨h.line, h.wf, h.headers⟩
    exact Reader.stage_leaves (E := FirstLineRead LineStored)
      ⟨fun _ => ⟨line, wf, headers, fun other => (nomatch turn.symm.trans other)⟩, fun _ => ⟨line, wf, headers⟩⟩
      fun s b read => lineFromReasonPhrase_leaves
        ⟨read.line, Buffer.clear_wf read.wf, read.headers, fun _ => .clear read.wf⟩
  · exact lineFromReasonPhrase_leaves h

theorem lineFromVersion_leaves (h : LineKnown s) :
    Reader.Leaves LineKnown (FirstLineRead LineStored) (lineFromVersion s b).code (lineFromVersion s b).state := by
  rw [lineFromVersion]
  split_ifs with turn
  · obtain ⟨line, wf, headers⟩ := parseVersion_keeps
      (P := fun s => LineStored s.message.startLine ∧ s.working.WF ∧ s.message.headers = []) (fun _ _ h => h) true
      s.toScratch b ⟨h.line, h.wf, h.headers⟩
    exact Reader.stage_leaves (E := FirstLineRead LineStored)
      ⟨fun _ => ⟨line, wf, headers, fun other => (nomatch turn.symm.trans other)⟩, fun _ => ⟨line, wf, headers⟩⟩
      fun s b read => lineFromStatusCode_leaves ⟨read.line, Buffer.clear_wf read.wf, read.headers, by rintro ⟨⟩⟩
  · exact lineFromStatusCode_leaves h

theorem parseStartLine_leaves :
    Reader.Leads LineKnown parseStartLine (Reader.Leaves LineKnown (FirstLineRead LineStored)) := by
  intro s b h
  rw [parseStartLine]
  split_ifs with complete initial
  · exact .failed (by rintro ⟨⟩) (by rintro ⟨⟩)
  · exact lineFromVersion_leaves ⟨h.line, Buffer.clear_wf h.wf, h.headers, by rintro ⟨⟩⟩
  · exact lineFromVersion_leaves h

theorem knowsLine : KnowsLine methods LineKnown LineStored where
  cleared _ h := ⟨h.line, Buffer.clear_wf h.wf, h.headers, fun _ => .clear h.wf⟩
  reads := parseStartLine_leaves

end line

theorem fresh_known {working : Buffer} (wf : working.WF) : TextKnown LineKnown LineStored (fresh working) where
  stage := nofun
  line _ := ⟨⟨nofun, show 0 < 1000 by decide⟩, wf, rfl, nofun⟩
  read fields := by rcases fields with stage | stage <;> cases stage
  name := nofun
  value := nofun

/-- The strings of an accepted response. -/
theorem accepted_stored {working : Buffer} (wf : working.WF) {s' : HttpResponseParser}
    (accepts : Accepts methods (fresh working) s') : HeadStored LineStored s' :=
  accepted_text knowsLine (fresh_known wf) accepts

end HttpResponseParser

end Everscale
