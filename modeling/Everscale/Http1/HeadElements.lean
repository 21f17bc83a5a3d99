/-
# Everscale.Http1.HeadElements -- the elements of a formatted head

What each element formatter writes, as a list of octets, and the elements that a
formatter in a given state still has to write.  The results say that the formatters
write these elements in this order (`formatHeaders_emits`); what is proved about formatted
heads afterwards is proved about the lists.
-/
import Everscale.Http1.RequestFormatter
import Everscale.Http1.ResponseFormatter

namespace Everscale

set_option autoImplicit false

open Theory HttpUtil

/-- The elements of a sequence, the first of them fresh. -/
def markFirst : List Element → List Element
  | [] => []
  | slot :: rest => { slot with fresh := true } :: rest

/-! ## Writers that are combined -/

/-- Two texts one behind the other. -/
def joined : Except Error (List Octet) → Except Error (List Octet) → Except Error (List Octet)
  | .ok s, .ok t => .ok (s ++ t)
  | .ok _, .error e => .error e
  | .error e, _ => .error e

namespace Writer

variable {f g : Writer} {s t : Except Error (List Octet)}

theorem renders_andThen (hf : Renders f s) (hg : Renders g t) :
    Renders (f.andThen g) (joined s t) := by
  cases s with
  | error e => exact fails_andThen_left hf
  | ok s =>
      cases t with
      | error e => exact fails_andThen_right hg
      | ok t => exact writes_andThen hf hg

theorem renders_literal (text : List Octet) : Renders (literal text) (.ok text) :=
  writes_literal text

theorem renders_nothing : Renders (fun b => (.success, b)) (.ok []) := by
  intro b held mark holds
  refine ⟨fun _ => ⟨rfl, by rwa [List.append_nil], rfl⟩, fun full => ?_⟩
  exact absurd holds.fits (by simpa using full)

theorem renders_failure {e : Error} (failed : e ≠ .success) :
    Renders (fun b => (e, b)) (.error e) := fun _ => failed

theorem renders_rollback {e : Error} (failed : e ≠ .success) :
    Renders (Rollback e) (.error e) := fun _ => failed

theorem renders_raw (text : List Octet) : Renders (each emitRaw () text) (.ok text) := by
  have renders := renders_each emitRaw_ne_nil (fun _ _ h => nomatch h) () text
  rwa [renderEach_raw] at renders

theorem renders_escaped (isPlain : Octet → Bool) (text : List Octet) :
    Renders (each (emitEscaped isPlain) () text)
      (.ok (text.flatMap fun c => if isPlain c then [c] else escape c)) := by
  have renders := renders_each (emitEscaped_ne_nil isPlain) (fun _ _ h => nomatch h) () text
  rwa [renderEach_escaped] at renders

theorem renders_token {bad : Error} (failed : bad ≠ .success) (text : List Octet) :
    Renders (each (emitToken bad) () text) (if text.all isToken then .ok text else .error bad) := by
  have renders := renders_each (emitToken_ne_nil bad) (t := ()) (s := text) fun _ c => by
    unfold emitToken
    split
    · nofun
    · exact fun h => failed (Except.error.inj h)
  rwa [renderEach_token] at renders

/-- A check for room in front of a text that needs it changes nothing. -/
theorem writes_room {n : Nat} {text : List Octet} (writes : Writes f text)
    (needed : n ≤ text.length) : Writes ((room n).andThen f) text := by
  intro b held mark holds
  have writable := holds.writable
  have within := holds.fits
  by_cases short : b.writable < n
  · have runs : (room n).andThen f b = Rollback .again b := by
      rw [andThen_of_failure (by rw [room, if_pos short]; nofun), room, if_pos short]
    rw [runs]
    exact ⟨fun fits => by omega, fun _ => rolledBack_of holds⟩
  · have runs : (room n).andThen f b = f b := by
      rw [andThen_of_success (by rw [room, if_neg short]), room, if_neg short]
    rw [runs]
    exact writes b held mark holds

end Writer

open Writer

/-! ## Headers -/

namespace HttpMessageFormatter

def versionName (httpVersion : Nat) : Except Error (List Octet) :=
  if httpVersion = 110 then .ok (octets "HTTP/1.1")
  else if httpVersion = 100 then .ok (octets "HTTP/1.0")
  else .error .badRequestVersion

def versionText (httpVersion : Nat) (clientMode : Bool) : Except Error (List Octet) :=
  if clientMode then joined (.ok [SP]) (joined (versionName httpVersion) (.ok CRLF))
  else joined (versionName httpVersion) (.ok [SP])

def fieldNameText (fieldName : List Octet) : Except Error (List Octet) :=
  joined (if (cstr fieldName).all isToken then .ok (cstr fieldName)
    else .error .badRequestFieldName) (.ok (octets ": "))

def fieldValueText : Option (List Octet) → Except Error (List Octet)
  | none => .error .nullDereference
  | some fieldValue => joined (renderEach emitFieldValue true (cstr fieldValue)) (.ok CRLF)

theorem formatVersion_renders (httpVersion : Nat) (clientMode : Bool) :
    Renders (formatVersion httpVersion clientMode) (versionText httpVersion clientMode) := by
  have name : Renders
      (if httpVersion = 110 then each emitRaw () (octets "HTTP/1.1")
        else if httpVersion = 100 then each emitRaw () (octets "HTTP/1.0")
        else Rollback .badRequestVersion) (versionName httpVersion) := by
    unfold versionName
    split
    · exact renders_raw _
    · split
      · exact renders_raw _
      · exact renders_rollback (by decide)
  unfold formatVersion versionText
  cases clientMode with
  | true => exact renders_andThen (renders_literal _) (renders_andThen name (renders_literal _))
  | false => exact renders_andThen name (renders_literal _)

theorem formatFieldName_renders (fieldName : List Octet) :
    Renders (formatFieldName fieldName) (fieldNameText fieldName) :=
  renders_andThen (renders_token (by decide) _) (renders_literal _)

theorem emitFieldValue_ne_success (t : Bool) (c : Octet) :
    emitFieldValue t c ≠ .error .success := by
  unfold emitFieldValue
  split
  · nofun
  · split <;> nofun

theorem formatFieldValue_renders (fieldValue : Option (List Octet)) :
    Renders (formatFieldValue fieldValue) (fieldValueText fieldValue) := by
  cases fieldValue with
  | none => exact renders_failure (by decide)
  | some fieldValue =>
      simp only [formatFieldValue, fieldValueText]
      cases rendered : renderEach emitFieldValue true (cstr fieldValue) with
      | error e =>
          exact fails_andThen_left fun b => fails_each rendered b emitFieldValue_ne_success
      | ok text => exact writes_each_literal rendered (by simp)

/-- The elements of the headers that are left, and of the empty line behind them. -/
def headerElements : List HttpHeader → List Element
  | [] => [⟨false, .ok CRLF⟩]
  | header :: rest =>
      ⟨false, fieldNameText header.fieldName⟩ :: ⟨false, fieldValueText header.fieldValue⟩ ::
        headerElements rest

/-- What the headers need to know of the formatter of a first line: the elements that
are left of a line that has been begun, and those of one that has not. -/
structure StartLineElements {χ : Type} (formatStartLine : Formatter χ) where
  begun : χ → Option (List Element)
  untouched : χ → Option (List Element)
  emits : ∀ s slots, begun s = some slots → slots ≠ [] ∧ Emits begun (formatStartLine s) slots
  begins : ∀ s slots, untouched s = some slots →
    ∃ slot rest first, slots = slot :: rest ∧ slot.fresh = true ∧
      begun first = some (slot.begun :: rest) ∧
        ∀ b, formatStartLine s b = formatStartLine first b.writeMark

variable {χ ρ : Type} {formatStartLine : Formatter χ}

/-- The elements that are left of a head. -/
def elements (line : StartLineElements formatStartLine) (message : HttpMessage ρ)
    (s : HttpMessageFormatter χ) : Option (List Element) :=
  match s.stage with
  | .headerFormatComplete => none
  | .initial => (line.untouched s.sub).map (· ++ headerElements message.headers)
  | .startLine => (line.begun s.sub).map (· ++ headerElements message.headers)
  | .fieldName => some (headerElements s.currentHeader)
  | .fieldValue =>
      match s.currentHeader with
      | header :: rest =>
          some (⟨false, fieldValueText header.fieldValue⟩ :: headerElements rest)
      | [] => none

variable (line : StartLineElements formatStartLine) (message : HttpMessage ρ)

theorem formatNames_emits (headers : List HttpHeader) :
    ∀ s : HttpMessageFormatter χ, s.stage = .fieldName → s.currentHeader = headers →
      Emits (elements line message) (formatNames headers s) (headerElements headers) := by
  induction headers with
  | nil =>
      intro s stage current
      refine emits_element (renders_literal _) ?_ (emits_complete _)
      simp only [elements, stage, current, headerElements]
  | cons header rest ih =>
      intro s stage current
      refine emits_element (formatFieldName_renders _) ?_
        (emits_element (formatFieldValue_renders _) ?_ (ih _ rfl rfl))
      · simp only [elements, stage, current, headerElements]
      · simp only [elements, foundField, current]

theorem formatValueThen_emits (s : HttpMessageFormatter χ) {header : HttpHeader}
    {rest : List HttpHeader} (stage : s.stage = .fieldValue)
    (current : s.currentHeader = header :: rest) :
    Emits (elements line message) (formatValueThen header rest (formatNames rest) s)
      (⟨false, fieldValueText header.fieldValue⟩ :: headerElements rest) :=
  emits_element (formatFieldValue_renders _) (by simp only [elements, stage, current])
    (formatNames_emits line message rest _ rfl rfl)

theorem fromStartLine_emits (s : HttpMessageFormatter χ) {slots : List Element}
    (stage : s.stage = .startLine) (begun : line.begun s.sub = some slots) :
    Emits (elements line message) (fromStartLine formatStartLine message s)
      (slots ++ headerElements message.headers) := by
  obtain ⟨nonempty, inside⟩ := line.emits s.sub slots begun
  refine emits_part nonempty inside (fun sub more left => ?_) fun sub =>
    formatNames_emits line message message.headers _ rfl rfl
  simp only [elements, stage, left, Option.map_some]

/-- Beginning a first line is marking the buffer and being in front of its first element. -/
theorem fromStartLine_begins (s : HttpMessageFormatter χ) {first : χ} {b : Buffer}
    (same : formatStartLine s.sub b = formatStartLine first b.writeMark) :
    fromStartLine formatStartLine message s b =
      fromStartLine formatStartLine message { s with sub := first } b.writeMark := by
  simp only [fromStartLine, Formatter.part, same]

/-- **Heads are written element by element.** -/
theorem formatHeaders_emits (s : HttpMessageFormatter χ) {slots : List Element}
    (left : elements line message s = some slots) :
    Emits (elements line message) (formatHeaders formatStartLine message s) slots := by
  have here := left
  cases stage : s.stage with
  | headerFormatComplete => simp only [elements, stage] at left; cases left
  | initial =>
      simp only [elements, stage, Option.map_eq_some_iff] at left
      obtain ⟨_, untouched, rfl⟩ := left
      obtain ⟨slot, rest, first, rfl, fresh, begun, same⟩ := line.begins s.sub _ untouched
      simp only [formatHeaders, stage]
      refine emits_start fresh here fun b held holds => ?_
      rw [fromStartLine_begins message { s with stage := .startLine } (same b)]
      exact fromStartLine_emits line message { s with stage := .startLine, sub := first } rfl begun
        b.writeMark held held.length holds.writeMark
  | startLine =>
      simp only [elements, stage, Option.map_eq_some_iff] at left
      obtain ⟨_, begun, rfl⟩ := left
      simp only [formatHeaders, stage]
      exact fromStartLine_emits line message s stage begun
  | fieldName =>
      simp only [elements, stage, Option.some.injEq] at left
      subst left
      simp only [formatHeaders, stage]
      exact formatNames_emits line message s.currentHeader s stage rfl
  | fieldValue =>
      cases current : s.currentHeader with
      | nil => simp only [elements, stage, current] at left; cases left
      | cons header rest =>
          simp only [elements, stage, current, Option.some.injEq] at left
          subst left
          simp only [formatHeaders, stage, current]
          exact formatValueThen_emits line message s stage current

end HttpMessageFormatter

/-! ## Request URIs -/

namespace HttpRequestUriFormatter

def schemeText (uri : HttpRequestUri) : Except Error (List Octet) :=
  match uri.type with
  | .asterisk => .error .assertFailed
  | .http => .ok (octets "http://")
  | .https => .ok (octets "https://")
  | .other => .ok []

def hostText (uri : HttpRequestUri) : Except Error (List Octet) :=
  if hasHost uri then .ok (cstr (uri.host.getD [])) else .error .assertFailed

def portText (uri : HttpRequestUri) : Except Error (List Octet) :=
  if !hasHost uri || 65536 ≤ uri.port then .error .assertFailed
  else if isDefaultPort uri then .ok []
  else .ok (octets ":" ++ numeral 10 uri.port.toNat)

def absPathText (uri : HttpRequestUri) : List Octet :=
  let absPath := cstr (uri.absPath.getD (octets "/"))
  let path := absPath.flatMap fun c => if isPath c then [c] else escape c
  if absPath.head? = some (octet '/') then path else octets "/" ++ path

def uricText (introducer : Octet) (component : Option (List Octet)) : List Octet :=
  match cstr (component.getD []) with
  | [] => []
  | c :: rest => introducer :: (c :: rest).flatMap fun c => if isUric c then [c] else escape c

def nonHttpUriText (uri : HttpRequestUri) : Except Error (List Octet) :=
  if uri.type ≠ .other then .error .assertFailed
  else
    match cstr (uri.other.getD []) with
    | [] => .error .invalidArgument
    | c :: rest => .ok (c :: rest)

theorem formatScheme_renders (uri : HttpRequestUri) :
    Renders (formatScheme uri) (schemeText uri) := by
  unfold formatScheme schemeText
  cases uri.type with
  | asterisk => exact renders_failure (by decide)
  | http => exact renders_raw _
  | https => exact renders_raw _
  | other => exact renders_nothing

theorem formatHost_renders (uri : HttpRequestUri) : Renders (formatHost uri) (hostText uri) := by
  unfold formatHost hostText
  split
  · exact renders_raw _
  · exact renders_failure (by decide)

theorem formatPort_renders (uri : HttpRequestUri) : Renders (formatPort uri) (portText uri) := by
  unfold formatPort portText
  split
  · exact renders_failure (by decide)
  · split
    · exact renders_nothing
    · rename_i valid _
      have below : uri.port.toNat < 10 ^ 5 := by
        simp only [Bool.or_eq_true, decide_eq_true_eq, not_or] at valid
        omega
      exact writes_andThen (writes_literal _)
        (FormatInteger_writes (by decide) (by decide) below (by decide))

theorem formatAbsPath_renders (uri : HttpRequestUri) :
    Renders (formatAbsPath uri) (.ok (absPathText uri)) := by
  unfold formatAbsPath absPathText
  simp only
  split
  · exact renders_escaped _ _
  · exact renders_andThen (renders_literal _) (renders_escaped _ _)

theorem formatUric_renders (introducer : Octet) (component : Option (List Octet)) :
    Renders (formatUric introducer component) (.ok (uricText introducer component)) := by
  unfold formatUric uricText
  cases cstr (component.getD []) with
  | nil => exact renders_nothing
  | cons c rest => exact renders_andThen (renders_literal _) (renders_escaped _ _)

theorem formatNonHttpUri_renders (uri : HttpRequestUri) :
    Renders (formatNonHttpUri uri) (nonHttpUriText uri) := by
  unfold formatNonHttpUri nonHttpUriText
  split
  · exact renders_failure (by decide)
  · cases cstr (uri.other.getD []) with
    | nil => exact renders_rollback (by decide)
    | cons c rest => exact renders_raw _

/-- The elements that are left of a URI that has been begun. -/
def begun (uri : HttpRequestUri) : UriFormatStage → List Element
  | .asterisk => [⟨false, .ok (octets "*")⟩]
  | .nonHttpUri => [⟨false, nonHttpUriText uri⟩]
  | .scheme => ⟨false, schemeText uri⟩ :: ⟨false, hostText uri⟩ :: ⟨false, portText uri⟩ :: tail
  | .host => ⟨false, hostText uri⟩ :: ⟨false, portText uri⟩ :: tail
  | .port => ⟨false, portText uri⟩ :: tail
  | .absPath => tail
  | .query => [⟨false, .ok (uricText (octet '?') uri.query)⟩,
      ⟨false, .ok (uricText (octet '#') uri.fragment)⟩]
  | .fragment => [⟨false, .ok (uricText (octet '#') uri.fragment)⟩]
  | .initial | .formatComplete => []
where
  tail := [⟨false, .ok (absPathText uri)⟩, ⟨false, .ok (uricText (octet '?') uri.query)⟩,
    ⟨false, .ok (uricText (octet '#') uri.fragment)⟩]

/-- The elements that are left of a URI. -/
def elements (uri : HttpRequestUri) : UriFormatStage → Option (List Element)
  | .formatComplete => none
  | .initial => some (markFirst (begun uri (firstStage uri)))
  | s => some (begun uri s)

theorem formatFrom_emits (uri : HttpRequestUri) (s : UriFormatStage) (initial : s ≠ .initial)
    (going : s ≠ .formatComplete) :
    begun uri s ≠ [] ∧ Emits (elements uri) (formatFrom uri s) (begun uri s) := by
  have atFragment : Emits (elements uri) (fromFragment uri .fragment) (begun uri .fragment) :=
    emits_element (formatUric_renders _ _) rfl (emits_complete _)
  have atQuery : Emits (elements uri) (fromQuery uri .query) (begun uri .query) :=
    emits_element (formatUric_renders _ _) rfl atFragment
  have atAbsPath : Emits (elements uri) (fromAbsPath uri .absPath) (begun uri .absPath) :=
    emits_element (formatAbsPath_renders uri) rfl atQuery
  have atPort : Emits (elements uri) (fromPort uri .port) (begun uri .port) :=
    emits_element (formatPort_renders uri) rfl atAbsPath
  have atHost : Emits (elements uri) (fromHost uri .host) (begun uri .host) :=
    emits_element (formatHost_renders uri) rfl atPort
  cases s with
  | initial => exact absurd rfl initial
  | formatComplete => exact absurd rfl going
  | asterisk =>
      exact ⟨List.cons_ne_nil _ _, emits_element (renders_literal _) rfl (emits_complete _)⟩
  | nonHttpUri =>
      exact ⟨List.cons_ne_nil _ _,
        emits_element (formatNonHttpUri_renders uri) rfl (emits_complete _)⟩
  | scheme =>
      exact ⟨List.cons_ne_nil _ _, emits_element (formatScheme_renders uri) rfl atHost⟩
  | host => exact ⟨List.cons_ne_nil _ _, atHost⟩
  | port => exact ⟨List.cons_ne_nil _ _, atPort⟩
  | absPath => exact ⟨List.cons_ne_nil _ _, atAbsPath⟩
  | query => exact ⟨List.cons_ne_nil _ _, atQuery⟩
  | fragment => exact ⟨List.cons_ne_nil _ _, atFragment⟩

theorem begun_not_fresh (uri : HttpRequestUri) {s : UriFormatStage} {slot : Element}
    {rest : List Element} (first : begun uri s = slot :: rest) :
    ({ slot with fresh := true } : Element).begun = slot := by
  have : slot.fresh = false := by
    cases s <;> cases first <;> rfl
  rw [Slot.begun, ← this]

theorem firstStage_begun (uri : HttpRequestUri) :
    firstStage uri ≠ .initial ∧ firstStage uri ≠ .formatComplete := by
  unfold firstStage
  split
  · decide
  · decide
  · split <;> decide

/-- **URIs are written element by element.** -/
theorem format_emits (uri : HttpRequestUri) {s : UriFormatStage} {slots : List Element}
    (left : elements uri s = some slots) :
    slots ≠ [] ∧ Emits (elements uri) (format uri s) slots := by
  have here := left
  cases s with
  | formatComplete => cases left
  | initial =>
      obtain ⟨initial, going⟩ := firstStage_begun uri
      obtain ⟨nonempty, emits⟩ := formatFrom_emits uri (firstStage uri) initial going
      cases left
      cases first : begun uri (firstStage uri) with
      | nil => exact absurd first nonempty
      | cons slot rest =>
          rw [first] at emits
          rw [first] at here
          refine ⟨List.cons_ne_nil _ _, emits_start rfl here fun b held holds => ?_⟩
          rw [begun_not_fresh uri first]
          exact emits b held held.length holds
  | asterisk | scheme | host | port | absPath | query | fragment | nonHttpUri =>
      cases left
      exact formatFrom_emits uri _ nofun nofun

end HttpRequestUriFormatter

/-! ## First lines -/

namespace HttpRequestFormatter

def methodText (request : HttpRequest) : Except Error (List Octet) :=
  match cstr (request.startLine.method.getD []) with
  | [] => .error .badRequestMethod
  | c :: rest =>
      joined (if (c :: rest).all isToken then .ok (c :: rest) else .error .badRequestMethod)
        (.ok [SP])

theorem formatMethod_renders (request : HttpRequest) :
    Renders (formatMethod request) (methodText request) := by
  unfold formatMethod methodText
  cases cstr (request.startLine.method.getD []) with
  | nil => exact renders_failure (by decide)
  | cons c rest => exact renders_andThen (renders_token (by decide) _) (renders_literal _)

section line

variable (request : HttpRequest)

/-- The element that ends a request line. -/
def versionElement : Element := ⟨false, HttpMessageFormatter.versionText request.httpVersion true⟩

/-- The elements that are left of a request line that has been begun. -/
def begun (s : RequestLineFormat) : Option (List Element) :=
  let fromUri := (HttpRequestUriFormatter.elements request.startLine.requestUri s.uri).map
    (· ++ [versionElement request])
  match s.stage with
  | .initial | .formatComplete => none
  | .method => fromUri.map (⟨false, methodText request⟩ :: ·)
  | .requestUri => fromUri
  | .httpVersion => some [versionElement request]

/-- The elements of a request line. -/
def untouched (s : RequestLineFormat) : Option (List Element) :=
  if s.stage = .initial then (begun request { s with stage := .method }).map markFirst else none

theorem fromVersion_emits {s : RequestLineFormat} (stage : s.stage = .httpVersion) :
    Emits (begun request) (fromVersion request s) [versionElement request] :=
  emits_element (HttpMessageFormatter.formatVersion_renders _ _) (by simp only [begun, stage]; rfl)
    (emits_complete _)

theorem fromUri_emits {s : RequestLineFormat} (stage : s.stage = .requestUri) {uri : List Element}
    (left : HttpRequestUriFormatter.elements request.startLine.requestUri s.uri = some uri) :
    Emits (begun request) (fromUri request s) (uri ++ [versionElement request]) := by
  obtain ⟨nonempty, emits⟩ := HttpRequestUriFormatter.format_emits request.startLine.requestUri left
  refine emits_part nonempty emits (fun s' more left' => ?_) fun s' =>
    fromVersion_emits request rfl
  simp only [begun, stage, left', Option.map_some]

theorem formatStartLine_emits {s : RequestLineFormat} {slots : List Element}
    (left : begun request s = some slots) :
    slots ≠ [] ∧ Emits (begun request) (formatStartLine request s) slots := by
  have here := left
  cases stage : s.stage with
  | initial | formatComplete => simp only [begun, stage] at left; cases left
  | method =>
      simp only [begun, stage, Option.map_map, Option.map_eq_some_iff] at left
      obtain ⟨uri, elements, rfl⟩ := left
      refine ⟨List.cons_ne_nil _ _, ?_⟩
      simp only [formatStartLine, stage]
      exact emits_element (formatMethod_renders request) here
        (fromUri_emits request rfl elements)
  | requestUri =>
      simp only [begun, stage, Option.map_eq_some_iff] at left
      obtain ⟨uri, elements, rfl⟩ := left
      refine ⟨by simp, ?_⟩
      simp only [formatStartLine, stage]
      exact fromUri_emits request stage elements
  | httpVersion =>
      simp only [begun, stage, Option.some.injEq] at left
      subst left
      refine ⟨List.cons_ne_nil _ _, ?_⟩
      simp only [formatStartLine, stage]
      exact fromVersion_emits request stage

theorem formatStartLine_begins {s : RequestLineFormat} {slots : List Element}
    (left : untouched request s = some slots) :
    ∃ slot rest first, slots = slot :: rest ∧ slot.fresh = true ∧
      begun request first = some (slot.begun :: rest) ∧
        ∀ b, formatStartLine request s b = formatStartLine request first b.writeMark := by
  by_cases stage : s.stage = .initial
  · simp only [untouched, stage, if_true, begun, Option.map_map, Option.map_eq_some_iff] at left
    obtain ⟨uri, elements, rfl⟩ := left
    refine ⟨_, _, { s with stage := .method }, rfl, rfl, ?_, fun b => ?_⟩
    · simp only [begun, elements, Option.map_some]; rfl
    · simp only [formatStartLine, stage]
  · simp only [untouched, stage, if_false] at left
    cases left

/-- The elements of request lines. -/
def lineElements : HttpMessageFormatter.StartLineElements (formatStartLine request) where
  begun := begun request
  untouched := untouched request
  emits _ _ left := formatStartLine_emits request left
  begins _ _ left := formatStartLine_begins request left

end line

/-- The elements that are left of a request head. -/
def elements (request : HttpRequest) :
    HttpMessageFormatter RequestLineFormat → Option (List Element) :=
  HttpMessageFormatter.elements (lineElements request) request

/-- The elements of a request head. -/
def headElements (request : HttpRequest) : List Element := (elements request fresh).getD []

theorem elements_fresh (request : HttpRequest) :
    elements request fresh = some (headElements request) := rfl

end HttpRequestFormatter

namespace HttpResponseFormatter

def statusCodeText (response : HttpResponse) : Except Error (List Octet) :=
  let statusCode := response.startLine.statusCode
  if statusCode < 100 ∨ 999 < statusCode then .error .badStatusCode
  else .ok (numeral 10 statusCode ++ [SP])

def reasonPhraseText (response : HttpResponse) : Except Error (List Octet) :=
  match cstr (response.startLine.reasonPhrase.getD []) with
  | [] => .error .badReasonPhrase
  | c :: rest => joined (renderEach emitReasonPhrase () (c :: rest)) (.ok CRLF)

/-- A status code has three digits. -/
theorem numeral_length {statusCode : Nat} (low : 100 ≤ statusCode) :
    3 ≤ (numeral 10 statusCode).length := by
  have some : statusCode ≠ 0 := by omega
  have digits : 2 < (Nat.digits 10 statusCode).length :=
    (Nat.lt_digits_length_iff (by decide) statusCode).2 low
  simp only [numeral, some, if_false, List.length_map, List.length_reverse]
  exact digits

theorem formatStatusCode_renders (response : HttpResponse) :
    Renders (formatStatusCode response) (statusCodeText response) := by
  unfold formatStatusCode statusCodeText
  simp only
  split
  · exact renders_rollback (by decide)
  · rename_i valid
    have below : response.startLine.statusCode < 10 ^ 3 := by omega
    have low : 100 ≤ response.startLine.statusCode := by omega
    have length := numeral_length low
    refine writes_room (writes_andThen ?_ (writes_literal _)) (by simp; omega)
    exact FormatInteger_writes (by decide) (by decide) below (by decide)

theorem emitReasonPhrase_ne_success (t : Unit) (c : Octet) :
    emitReasonPhrase t c ≠ .error .success := by
  unfold emitReasonPhrase
  split
  · nofun
  · split <;> nofun

theorem formatReasonPhrase_renders (response : HttpResponse) :
    Renders (formatReasonPhrase response) (reasonPhraseText response) := by
  unfold formatReasonPhrase reasonPhraseText
  cases cstr (response.startLine.reasonPhrase.getD []) with
  | nil => exact renders_rollback (by decide)
  | cons c rest =>
      simp only
      cases rendered : renderEach emitReasonPhrase () (c :: rest) with
      | error e => exact fails_andThen_left fun b => fails_each rendered b emitReasonPhrase_ne_success
      | ok text => exact writes_each_literal rendered (by simp)

section line

variable (response : HttpResponse)

/-- The elements that are left of a status line that has been begun. -/
def begun : ResponseFormatStage → Option (List Element)
  | .initial | .formatComplete => none
  | .version => some (⟨false, HttpMessageFormatter.versionText response.httpVersion false⟩ ::
      ⟨false, statusCodeText response⟩ :: [⟨false, reasonPhraseText response⟩])
  | .statusCode => some (⟨false, statusCodeText response⟩ :: [⟨false, reasonPhraseText response⟩])
  | .reasonPhrase => some [⟨false, reasonPhraseText response⟩]

/-- The elements of a status line. -/
def untouched (s : ResponseFormatStage) : Option (List Element) :=
  if s = .initial then (begun response .version).map markFirst else none

theorem formatStartLine_emits {s : ResponseFormatStage} {slots : List Element}
    (left : begun response s = some slots) :
    slots ≠ [] ∧ Emits (begun response) (formatStartLine response s) slots := by
  have atReasonPhrase : Emits (begun response) (fromReasonPhrase response .reasonPhrase)
      [⟨false, reasonPhraseText response⟩] :=
    emits_element (formatReasonPhrase_renders response) rfl (emits_complete _)
  have atStatusCode : Emits (begun response) (fromStatusCode response .statusCode)
      (⟨false, statusCodeText response⟩ :: [⟨false, reasonPhraseText response⟩]) :=
    emits_element (formatStatusCode_renders response) rfl atReasonPhrase
  cases s with
  | initial | formatComplete => cases left
  | version =>
      cases left
      exact ⟨List.cons_ne_nil _ _,
        emits_element (HttpMessageFormatter.formatVersion_renders _ _) rfl atStatusCode⟩
  | statusCode => cases left; exact ⟨List.cons_ne_nil _ _, atStatusCode⟩
  | reasonPhrase => cases left; exact ⟨List.cons_ne_nil _ _, atReasonPhrase⟩

theorem formatStartLine_begins {s : ResponseFormatStage} {slots : List Element}
    (left : untouched response s = some slots) :
    ∃ slot rest first, slots = slot :: rest ∧ slot.fresh = true ∧
      begun response first = some (slot.begun :: rest) ∧
        ∀ b, formatStartLine response s b = formatStartLine response first b.writeMark := by
  cases s with
  | initial => cases left; exact ⟨_, _, .version, rfl, rfl, rfl, fun b => rfl⟩
  | _ => cases left

/-- The elements of status lines. -/
def lineElements : HttpMessageFormatter.StartLineElements (formatStartLine response) where
  begun := begun response
  untouched := untouched response
  emits _ _ left := formatStartLine_emits response left
  begins _ _ left := formatStartLine_begins response left

end line

/-- The elements that are left of a response head. -/
def elements (response : HttpResponse) :
    HttpMessageFormatter ResponseFormatStage → Option (List Element) :=
  HttpMessageFormatter.elements (lineElements response) response

/-- The elements of a response head. -/
def headElements (response : HttpResponse) : List Element := (elements response fresh).getD []

theorem elements_fresh (response : HttpResponse) :
    elements response fresh = some (headElements response) := rfl

end HttpResponseFormatter

end Everscale
