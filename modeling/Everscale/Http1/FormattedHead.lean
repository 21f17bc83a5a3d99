/-
# Everscale.Http1.FormattedHead -- what is written of a head that was accepted

The head of a message that a parser has accepted and a formatter has written is a first line,
one line for each header and an empty line (`request_text`, `response_text`).  The strings of
the headers stand in it as they were stored, and read back as they were written
(`headLines_read`).
-/
import Everscale.Theory.Lines
import Everscale.Http1.AcceptedText
import Everscale.Http1.Send

namespace Everscale

set_option autoImplicit false

open Theory HttpUtil Writer
open HttpMessageParser (isFieldContent HeaderStored)

/-! ## Octets of stored strings -/

section strings

variable {isContent : Octet → Bool} {text : List Octet}

/-- Spaces and line breaks apart, and no NUL. -/
def isVisible (c : Octet) : Bool := !isLWS c && c != NUL

theorem token_visible {c : Octet} (h : isToken c = true) : isVisible c = true := by
  have nest := classes_nest c
  simp only [isToken, inClass] at h
  simp only [classesNest, h, Bool.true_or, Bool.not_true, Bool.false_or, Bool.and_eq_true] at nest
  simp [isVisible, nest.1.1.1.1.1]

theorem uric_visible {c : Octet} (h : isUric c = true) : isVisible c = true := by
  have nest := classes_nest c
  simp only [isUric, inClass] at h
  simp only [classesNest, h, Bool.or_true, Bool.not_true, Bool.false_or, Bool.and_eq_true] at nest
  simp [isVisible, nest.1.1.1.1.1]

theorem pchar_visible {c : Octet} (h : isPchar c = true) : isVisible c = true := uric_visible (isPchar_isUric h)

theorem alphaNum_visible {c : Octet} (h : isAlphaNum c = true) : isVisible c = true := by
  refine pchar_visible ?_
  have nest := classes_nest c
  simp only [isAlphaNum, isPchar, inClass] at h ⊢
  simp only [classesNest, h] at nest
  grind

theorem visible_ne {c : Octet} (h : isVisible c = true) : c ≠ CR ∧ c ≠ LF ∧ c ≠ NUL ∧ isSpace c = false := by
  simp only [isVisible, isLWS, isSpace] at h ⊢
  grind

theorem visible_black {c : Octet} (h : isVisible c = true) : isLWS c = false := by
  rw [isVisible, Bool.and_eq_true, Bool.not_eq_true'] at h
  exact h.1

theorem isTrimmed_eq_isLWS (c : Octet) : Buffer.isTrimmed c = isLWS c := by
  simp only [Buffer.isTrimmed, isLWS]
  grind

/-- Visible text is duplicated as it stands. -/
theorem rdropWhile_visible (all : text.all isVisible = true) : text.rdropWhile Buffer.isTrimmed = text := by
  refine List.rdropWhile_eq_self_iff.mpr fun some => ?_
  rw [isTrimmed_eq_isLWS, visible_black (List.all_eq_true.mp all _ (List.getLast_mem some))]
  decide

theorem cstr_visible (all : text.all isVisible = true) : cstr text = text :=
  cstr_eq_self fun inside => (visible_ne (List.all_eq_true.mp all NUL inside)).2.2.1 rfl

/-- Text that is made of content does not break a line. -/
theorem text_unbroken {c : Octet} (h : isText c = true) : c ≠ CR ∧ c ≠ LF ∧ c ≠ NUL := by
  have nest := classes_nest c
  simp only [isText, inClass] at h
  simp only [classesNest, h, Bool.not_true, Bool.false_or, Bool.and_eq_true, isLineBreak] at nest
  have := nest.2
  grind

theorem content_text {c : Octet} (h : isFieldContent c = true) : isText c = true := by
  have nest := classes_nest c
  simp only [isFieldContent, isToken, isSeparator, isText, inClass] at h ⊢
  simp only [classesNest] at nest
  grind

theorem spaced_unbroken (content : ∀ c, isContent c = true → isText c = true) {space : Bool}
    (h : spaced isContent space text = true) : ∀ c ∈ text, c ≠ CR ∧ c ≠ LF ∧ c ≠ NUL := by
  induction text generalizing space with
  | nil => exact nofun
  | cons d rest ih =>
      rw [spaced] at h
      intro c inside
      split_ifs at h with white
      · simp only [Bool.and_eq_true, decide_eq_true_eq] at h
        rcases List.mem_cons.mp inside with rfl | later
        · rw [h.1.1]; decide
        · exact ih h.2 c later
      · rw [Bool.and_eq_true] at h
        rcases List.mem_cons.mp inside with rfl | later
        · exact text_unbroken (content c h.1)
        · exact ih h.2 c later

theorem dropWhile_append_of_some {p : Octet → Bool} {u : List Octet} (some : u.dropWhile p ≠ []) (more : List Octet) :
    (u ++ more).dropWhile p = u.dropWhile p ++ more := by
  rw [List.dropWhile_append]
  simp [some]

namespace Stored

theorem unbroken (h : Stored isFieldContent text) : ∀ c ∈ text, c ≠ CR ∧ c ≠ LF ∧ c ≠ NUL :=
  spaced_unbroken (fun _ => content_text) h.spaced

theorem cstr_eq (h : Stored isFieldContent text) : cstr text = text :=
  cstr_eq_self fun inside => (h.unbroken NUL inside).2.2 rfl

/-- White space that is put around a stored string is found again. -/
theorem read_back (h : Stored isFieldContent text) : Everscale.trimmed (SP :: text) = text := by
  have front : text.dropWhile isSpace = text := by
    cases text with
    | nil => rfl
    | cons c rest =>
        have spaced := h.spaced
        rw [Everscale.spaced] at spaced
        refine List.dropWhile_cons_of_neg fun space => ?_
        have white : isLWS c = true := by
          simp only [isSpace, isLWS] at space ⊢
          grind
        rw [if_pos white] at spaced
        simp at spaced
  have back : text.rdropWhile isSpace = text := by
    rw [List.rdropWhile_eq_self_iff]
    intro nonempty space
    refine List.rdropWhile_eq_self_iff.mp h.trimmed nonempty ?_
    simp only [isSpace, Buffer.isTrimmed] at space ⊢
    grind
  rw [Everscale.trimmed, List.dropWhile_cons_of_pos (by decide), front, back]

end Stored

end strings

/-! ## Headers -/

/-- The line of a header. -/
def headerLine (header : HttpHeader) : List Octet :=
  header.fieldName ++ octets ": " ++ header.fieldValue.getD []

/-- The header that a line states: a name up to the colon, and a value without the white space around it. -/
def readHeader (line : List Octet) : HttpHeader where
  fieldName := line.takeWhile (· != octet ':')
  fieldValue := some (trimmed ((line.dropWhile (· != octet ':')).drop 1))

namespace HttpMessageParser.HeaderStored

variable {header : HttpHeader}

theorem name_visible (h : HeaderStored header) : header.fieldName.all isVisible = true :=
  List.all_eq_true.mpr fun c inside => token_visible (List.all_eq_true.mp h.name c inside)

theorem name_ne_colon (h : HeaderStored header) : ∀ c ∈ header.fieldName, (c != octet ':') = true := by
  intro c inside
  rw [bne_iff_ne]
  rintro rfl
  exact absurd (List.all_eq_true.mp h.name _ inside) (by decide)

/-- Copying a header that was stored changes nothing. -/
theorem copyHeader_eq (h : HeaderStored header) : HttpMessage.copyHeader header = header := by
  obtain ⟨value, some, stored⟩ := h.value
  rw [HttpMessage.copyHeader, cstr_visible h.name_visible]
  cases header
  dsimp only at some
  rw [some, Option.map_some, stored.cstr_eq]

/-- The line of a header is no empty line, and is not broken. -/
theorem line_plain (h : HeaderStored header) : headerLine header ≠ [] ∧ ∀ c ∈ headerLine header, c ≠ CR ∧ c ≠ LF := by
  obtain ⟨value, some, stored⟩ := h.value
  constructor
  · exact fun empty => absurd (List.append_eq_nil_iff.mp (List.append_eq_nil_iff.mp empty).1).2 (by decide)
  · intro c inside
    rw [headerLine, some, Option.getD_some] at inside
    rcases List.mem_append.mp inside with front | value
    · rcases List.mem_append.mp front with name | colon
      · have := visible_ne (List.all_eq_true.mp h.name_visible c name)
        exact ⟨this.1, this.2.1⟩
      · have : ∀ c ∈ octets ": ", c ≠ CR ∧ c ≠ LF := by decide +kernel
        exact this c colon
    · have := stored.unbroken c value
      exact ⟨this.1, this.2.1⟩

/-- The line of a header states the header. -/
theorem readHeader_line (h : HeaderStored header) : readHeader (headerLine header) = header := by
  obtain ⟨value, some, stored⟩ := h.value
  have line : headerLine header = header.fieldName ++ octet ':' :: SP :: value := by
    rw [headerLine, some, Option.getD_some, List.append_assoc]
    rfl
  have name : (headerLine header).takeWhile (· != octet ':') = header.fieldName := by
    rw [line, List.takeWhile_append_of_pos h.name_ne_colon, List.takeWhile_cons_of_neg (by decide), List.append_nil]
  have behind : (headerLine header).dropWhile (· != octet ':') = octet ':' :: SP :: value := by
    rw [line, List.dropWhile_append_of_pos h.name_ne_colon, List.dropWhile_cons_of_neg (by decide)]
  rw [readHeader, name, behind, List.drop_one, List.tail_cons, stored.read_back]
  cases header
  dsimp only at some ⊢
  rw [some]

end HttpMessageParser.HeaderStored

namespace HttpMessageFormatter

theorem renderEach_cons {τ : Type} {emit : τ → Octet → Except Error (List Octet × τ)} {t t' : τ} {c : Octet}
    {rest text later : List Octet} (emitted : emit t c = .ok (text, t'))
    (rendered : renderEach emit t' rest = .ok later) : renderEach emit t (c :: rest) = .ok (text ++ later) := by
  rw [renderEach, emitted]
  dsimp only
  rw [rendered]

theorem renderEach_spaced {text : List Octet} {space : Bool} (h : spaced isFieldContent space text = true) :
    renderEach emitFieldValue space text = .ok text := by
  induction text generalizing space with
  | nil => rfl
  | cons c rest ih =>
      rw [spaced] at h
      by_cases white : isLWS c = true
      · rw [if_pos white] at h
        simp only [Bool.and_eq_true, Bool.not_eq_true', decide_eq_true_eq] at h
        obtain ⟨⟨rfl, rfl⟩, later⟩ := h
        have emitted : emitFieldValue false SP = .ok ([SP], true) := rfl
        exact renderEach_cons emitted (ih later)
      · rw [if_neg white, Bool.and_eq_true] at h
        have emitted : emitFieldValue space c = .ok ([c], false) := by
          rw [emitFieldValue, if_neg white]
          exact if_pos h.1
        exact renderEach_cons emitted (ih h.2)

variable {header : HttpHeader} {headers : List HttpHeader}

theorem headerElements_ne_nil (headers : List HttpHeader) : headerElements headers ≠ [] := by
  cases headers <;> exact List.cons_ne_nil _ _

theorem headerElements_getLast? (headers : List HttpHeader) :
    (headerElements headers).getLast? = some ⟨false, .ok CRLF⟩ := by
  induction headers with
  | nil => rfl
  | cons header rest ih =>
      rw [headerElements, List.getLast?_cons_cons, List.getLast?_cons_of_ne_nil (headerElements_ne_nil rest), ih]

theorem headerElements_spells (stored : ∀ header ∈ headers, HeaderStored header) {text : List Octet} :
    Spells (headerElements headers) text ↔ text = unlines CR LF (headers.map headerLine) ++ CRLF := by
  induction headers generalizing text with
  | nil =>
      constructor
      · rintro ⟨first, later, here, rfl, rfl⟩
        cases here
        rfl
      · rintro rfl
        exact ⟨CRLF, [], rfl, rfl, rfl⟩
  | cons header rest ih =>
      have complete := stored header List.mem_cons_self
      obtain ⟨value, some, spaced⟩ := complete.value
      have name : fieldNameText header.fieldName = .ok (header.fieldName ++ octets ": ") := by
        rw [fieldNameText, cstr_visible complete.name_visible, if_pos complete.name]
        rfl
      have written : fieldValueText header.fieldValue = .ok (value ++ CRLF) := by
        rw [some, fieldValueText, spaced.cstr_eq, renderEach_spaced spaced.spaced]
        rfl
      have later (text : List Octet) :
          Spells (headerElements rest) text ↔ text = unlines CR LF (rest.map headerLine) ++ CRLF :=
        ih fun header inside => stored header (List.mem_cons_of_mem _ inside)
      have line : headerLine header = header.fieldName ++ octets ": " ++ value := by
        rw [headerLine, some, Option.getD_some]
      rw [headerElements, List.map_cons, unlines, List.flatMap_cons, line]
      constructor
      · rintro ⟨first, _, here, ⟨second, behind, here', spells, rfl⟩, rfl⟩
        rw [name] at here
        rw [written] at here'
        cases here
        cases here'
        rw [(later behind).mp spells]
        simp only [List.append_assoc, unlines]
      · rintro rfl
        refine ⟨_, _, name, ⟨_, _, written, (later _).mpr rfl, rfl⟩, ?_⟩
        simp only [List.append_assoc, unlines]

end HttpMessageFormatter

/-! ## Whole heads -/

section atOnce

variable {σ : Type} {plan : σ → Option (List Element)} {f : Formatter σ} {s : σ} {slots : List Element}
  {whole : List Octet}

/-- What one call writes into a large buffer is what the elements of the head spell. -/
theorem spells_of_atOnce (emits : Emits plan (f s) slots) (atOnce : WritesAtOnce f s whole) :
    Spells slots whole ∧ whole.length < 2 ^ 32 := by
  obtain ⟨large, small, code, unread⟩ := atOnce
  have came := emits (Buffer.create large) [] 0 (Holds.create small)
  rw [Buffer.create_capacity] at came
  cases outcome : emit large slots [] 0 with
  | done held =>
      rw [outcome] at came
      obtain ⟨_, capacity, mark, holds⟩ := came
      have fits := holds.fits
      rw [capacity] at fits
      obtain ⟨text, spells, rfl⟩ := emit_spells outcome
      rw [holds.unread] at unread
      subst unread
      exact ⟨spells, fits.trans_lt small⟩
  | again rest held mark =>
      rw [outcome] at came
      rw [came.1] at code
      cases code
  | failed =>
      rw [outcome] at came
      exact absurd code came

/-- A head that ends with some octets is written by one call, if there is a buffer for it. -/
theorem atOnce_of_spells (emits : Emits plan (f s) slots) (spells : Spells slots whole)
    (ends : ∀ last ∈ slots.getLast?, last.octets ≠ []) (small : whole.length < 2 ^ 32) : WritesAtOnce f s whole := by
  have came := emits (Buffer.create whole.length) [] 0 (Holds.create small)
  rw [Buffer.create_capacity, emit_of_spells spells ends (by simp)] at came
  obtain ⟨code, _, mark, holds⟩ := came
  exact ⟨whole.length, small, code, holds.unread⟩

end atOnce

theorem spells_markFirst {slots : List Element} {text : List Octet} :
    Spells (markFirst slots) text ↔ Spells slots text := by
  cases slots <;> exact Iff.rfl

theorem spells_singleton {slot : Element} {text : List Octet} : Spells [slot] text ↔ slot.text = .ok text := by
  constructor
  · rintro ⟨first, later, here, rfl, rfl⟩
    rw [here, List.append_nil]
  · exact fun here => ⟨text, [], here, rfl, (List.append_nil text).symm⟩

/-- The name of a version. -/
def IsVersion (name : List Octet) : Prop := name = octets "HTTP/1.1" ∨ name = octets "HTTP/1.0"

theorem versionName_ok {httpVersion : Nat} {name : List Octet}
    (named : HttpMessageFormatter.versionName httpVersion = .ok name) : IsVersion name := by
  rw [HttpMessageFormatter.versionName] at named
  split_ifs at named <;> cases named
  · exact .inl rfl
  · exact .inr rfl

theorem joined_ok {s t : Except Error (List Octet)} {text : List Octet} (h : joined s t = .ok text) :
    ∃ u v, s = .ok u ∧ t = .ok v ∧ text = u ++ v := by
  cases s <;> cases t <;> cases h
  exact ⟨_, _, rfl, rfl, rfl⟩

/-! ## Targets -/

namespace HttpRequestUriFormatter

open HttpRequestUriParser (UriStored admitted)

/-- The elements of a target. -/
def targetElements (uri : HttpRequestUri) : List Element := begun uri (firstStage uri)

/-- What is written of a target, where all of it can be written. -/
def targetText (uri : HttpRequestUri) : List Octet := remaining (targetElements uri)

section visible

variable {uri : HttpRequestUri} {text : List Octet}

theorem spells_all {p : Octet → Bool} {slots : List Element} (spells : Spells slots text)
    (all : ∀ slot ∈ slots, ∀ t, slot.text = .ok t → t.all p = true) : text.all p = true := by
  induction slots generalizing text with
  | nil => cases spells; rfl
  | cons slot rest ih =>
      obtain ⟨first, later, here, spells, rfl⟩ := spells
      rw [List.all_append, all slot List.mem_cons_self first here,
        ih spells fun slot inside => all slot (List.mem_cons_of_mem _ inside)]
      rfl

theorem escape_visible (c : Octet) : (escape c).all isVisible = true :=
  forall_octet (p := fun c _ => (escape c).all isVisible) (by decide +kernel) c

theorem escaped_visible {isPlain : Octet → Bool} (plain : ∀ c, isPlain c = true → isVisible c = true) :
    (text.flatMap fun c => if isPlain c then [c] else escape c).all isVisible = true := by
  refine List.all_eq_true.mpr fun c inside => ?_
  obtain ⟨d, -, written⟩ := List.mem_flatMap.mp inside
  split_ifs at written with kept
  · rw [List.mem_singleton.mp written]
    exact plain d kept
  · exact List.all_eq_true.mp (escape_visible d) c written

theorem path_visible {c : Octet} (h : isPath c = true) : isVisible c = true := by
  rw [isPath, Bool.or_eq_true, Bool.or_eq_true] at h
  rcases h with (pchar | slash) | semicolon
  · exact pchar_visible pchar
  · rw [of_decide_eq_true slash]; decide
  · rw [of_decide_eq_true semicolon]; decide

theorem scheme_visible (written : schemeText uri = .ok text) : text.all isVisible = true := by
  rw [schemeText] at written
  cases type : uri.type <;> rw [type] at written <;> cases written <;> decide

theorem hostLetter_visible {c : Octet} (h : admitted .host c = true) : isVisible c = true := by
  simp only [admitted, Bool.or_eq_true, decide_eq_true_eq] at h
  rcases h with (letter | rfl) | rfl
  · exact alphaNum_visible letter
  all_goals decide

theorem host_visible (stored : ∀ name ∈ uri.host, name.all (admitted .host) = true)
    (written : hostText uri = .ok text) : text.all isVisible = true := by
  rw [hostText] at written
  split_ifs at written with has
  cases written
  refine List.all_eq_true.mpr fun c inside => ?_
  have inside := (List.takeWhile_prefix _).subset inside
  cases host : uri.host with
  | none => rw [host] at inside; cases inside
  | some name =>
      rw [host] at inside
      exact hostLetter_visible (List.all_eq_true.mp (stored name (Option.mem_def.mpr host)) c inside)

theorem digitOctet_visible {digit : Nat} (small : digit < 10) : isVisible (digitOctet digit) = true := by
  interval_cases digit <;> decide

theorem numeral_visible (n : Nat) : (numeral 10 n).all isVisible = true := by
  refine List.all_eq_true.mpr fun c inside => ?_
  rw [numeral] at inside
  split_ifs at inside with zero
  · rw [List.mem_singleton.mp inside]; decide
  · obtain ⟨digit, member, rfl⟩ := List.mem_map.mp inside
    exact digitOctet_visible (Nat.digits_lt_base (by decide) (List.mem_reverse.mp member))

theorem port_visible (written : portText uri = .ok text) : text.all isVisible = true := by
  rw [portText] at written
  split_ifs at written
  · cases written; rfl
  · cases written
    rw [List.all_append, numeral_visible]
    decide

theorem absPath_visible : (absPathText uri).all isVisible = true := by
  rw [absPathText]
  split_ifs
  · exact escaped_visible fun _ => path_visible
  · rw [List.all_append, escaped_visible fun _ => path_visible]
    decide

theorem uricText_visible {introducer : Octet} (here : isVisible introducer = true) (component : Option (List Octet)) :
    (uricText introducer component).all isVisible = true := by
  rw [uricText]
  cases cstr (component.getD []) with
  | nil => rfl
  | cons c rest => rw [List.all_cons, here, escaped_visible fun _ => uric_visible]; rfl

/-- What is written of a target that is not opaque has neither spaces nor line breaks. -/
theorem target_visible (stored : ∀ name ∈ uri.host, name.all (admitted .host) = true) (known : uri.type ≠ .other)
    (spells : Spells (targetElements uri) text) : text.all isVisible = true := by
  have path : ∀ slot ∈ begun.tail uri, ∀ t, slot.text = .ok t → t.all isVisible = true := by
    intro slot inside t written
    simp only [begun.tail, List.mem_cons, List.not_mem_nil, or_false] at inside
    rcases inside with rfl | rfl | rfl <;> cases written
    · exact absPath_visible
    · exact uricText_visible (by decide) _
    · exact uricText_visible (by decide) _
  refine spells_all spells fun slot inside t written => ?_
  rw [targetElements, firstStage] at inside
  cases type : uri.type with
  | other => exact absurd type known
  | asterisk =>
      rw [type] at inside
      rw [List.mem_singleton.mp inside] at written
      cases written
      decide
  | http | https =>
      rw [type] at inside
      dsimp only at inside
      split_ifs at inside
      · simp only [begun, List.mem_cons] at inside
        rcases inside with rfl | rfl | rfl | inside
        · exact scheme_visible written
        · exact host_visible stored written
        · exact port_visible written
        · exact path slot inside t written
      · exact path slot inside t written

/-- An opaque target is written as it was stored. -/
theorem target_other (other : uri.type = .other) (spells : Spells (targetElements uri) text) :
    text = cstr (uri.other.getD []) := by
  rw [targetElements, firstStage, other] at spells
  have written := spells_singleton.mp spells
  change nonHttpUriText uri = .ok text at written
  rw [nonHttpUriText, if_neg (not_not.mpr other)] at written
  cases stored : cstr (uri.other.getD []) with
  | nil => rw [stored] at written; cases written
  | cons c rest => rw [stored] at written; cases written; rfl

/-- No target holds a space. -/
theorem target_unspaced (stored : UriStored uri) (spells : Spells (targetElements uri) text) :
    ∀ c ∈ text, isSpace c = false := by
  intro c inside
  by_cases other : uri.type = .other
  · rw [target_other other spells] at inside
    have inside := (List.takeWhile_prefix _).subset inside
    cases name : uri.other with
    | none => rw [name] at inside; cases inside
    | some text =>
        rw [name] at inside
        simpa [admitted] using List.all_eq_true.mp (stored.other text (Option.mem_def.mpr name)) c inside
  · exact (visible_ne (List.all_eq_true.mp (target_visible stored.host other spells) c inside)).2.2.2

end visible

end HttpRequestUriFormatter

/-! ## First lines -/

namespace HttpRequestFormatter

variable {request : HttpRequest} {text : List Octet}

/-- The request line. -/
structure IsRequestLine (request : HttpRequest) (method target version : List Octet) : Prop where
  method_eq : method = cstr (request.startLine.method.getD [])
  some : method ≠ []
  tokens : method.all isToken = true
  target : Spells (HttpRequestUriFormatter.targetElements request.startLine.requestUri) target
  version : IsVersion version

theorem methodText_ok {method : List Octet} (h : methodText request = .ok method) :
    cstr (request.startLine.method.getD []) ≠ [] ∧ (cstr (request.startLine.method.getD [])).all isToken = true ∧
      method = cstr (request.startLine.method.getD []) ++ [SP] := by
  rw [methodText] at h
  cases name : cstr (request.startLine.method.getD []) with
  | nil => rw [name] at h; cases h
  | cons c rest =>
      rw [name] at h
      dsimp only at h
      by_cases tokens : (c :: rest).all isToken = true
      · rw [if_pos tokens] at h
        cases h
        exact ⟨List.cons_ne_nil c rest, tokens, rfl⟩
      · rw [if_neg tokens] at h
        cases h

theorem request_text (stored : ∀ header ∈ request.headers, HeaderStored header)
    (atOnce : WritesAtOnce (formatHeaders request) fresh text) :
    ∃ method target version, IsRequestLine request method target version ∧
      text = unlines CR LF ((method ++ SP :: target ++ SP :: version) :: request.headers.map headerLine) ++ CRLF := by
  have spells : Spells (headElements request) text :=
    (spells_of_atOnce (HttpMessageFormatter.formatHeaders_emits _ _ _ (elements_fresh request)) atOnce).1
  obtain ⟨line, headers, front, behind, rfl⟩ := spells_append.mp spells
  rw [HttpMessageFormatter.headerElements_spells stored] at behind
  obtain ⟨method, later, named, rest, rfl⟩ := spells_markFirst.mp front
  obtain ⟨target, version, uri, last, rfl⟩ := spells_append.mp rest
  rw [spells_markFirst] at uri
  rw [spells_singleton] at last
  obtain ⟨_, _, here, more, rfl⟩ := joined_ok last
  cases here
  obtain ⟨version, _, known, here, rfl⟩ := joined_ok more
  cases here
  obtain ⟨some, tokens, rfl⟩ := methodText_ok named
  refine ⟨_, target, version, ⟨rfl, some, tokens, uri, versionName_ok known⟩, ?_⟩
  rw [behind, unlines_cons]
  simp only [List.append_assoc, List.cons_append, List.nil_append]

/-- A request line that can be written. -/
structure Writable (request : HttpRequest) (method version : List Octet) : Prop where
  given : request.startLine.method = some method
  nonempty : method ≠ []
  tokens : method.all isToken = true
  target : Spells (HttpRequestUriFormatter.targetElements request.startLine.requestUri)
    (HttpRequestUriFormatter.targetText request.startLine.requestUri)
  version : HttpMessageFormatter.versionName request.httpVersion = .ok version

/-- The text of a head with this method and version. -/
def headText (request : HttpRequest) (method version : List Octet) : List Octet :=
  unlines CR LF
    ((method ++ SP :: HttpRequestUriFormatter.targetText request.startLine.requestUri ++ SP :: version) ::
      request.headers.map headerLine) ++ CRLF

theorem headElements_spells (complete : ∀ header ∈ request.headers, HeaderStored header) {method version : List Octet}
    (line : Writable request method version) : Spells (headElements request) (headText request method version) := by
  have named : methodText request = .ok (method ++ [SP]) := by
    have whole : cstr method = method := cstr_visible (List.all_eq_true.mpr fun c inside =>
      token_visible (List.all_eq_true.mp line.tokens c inside))
    rw [methodText, line.given, Option.getD_some, whole]
    cases method with
    | nil => exact absurd rfl line.nonempty
    | cons c rest =>
        dsimp only
        rw [if_pos line.tokens]
        rfl
  have ends : HttpMessageFormatter.versionText request.httpVersion true = .ok (SP :: version ++ CRLF) := by
    rw [HttpMessageFormatter.versionText, if_pos rfl, line.version]
    rfl
  have target : Spells (markFirst (HttpRequestUriFormatter.targetElements request.startLine.requestUri) ++
      [versionElement request])
      (HttpRequestUriFormatter.targetText request.startLine.requestUri ++ (SP :: version ++ CRLF)) :=
    spells_append.mpr ⟨_, _, spells_markFirst.mpr line.target, spells_singleton.mpr ends, rfl⟩
  have front : Spells (markFirst (⟨false, methodText request⟩ ::
      (markFirst (HttpRequestUriFormatter.targetElements request.startLine.requestUri) ++ [versionElement request])))
      (method ++ [SP] ++ (HttpRequestUriFormatter.targetText request.startLine.requestUri ++
        (SP :: version ++ CRLF))) :=
    spells_markFirst.mpr ⟨_, _, named, target, rfl⟩
  refine spells_append.mpr ⟨_, _, front, (HttpMessageFormatter.headerElements_spells complete).mpr rfl, ?_⟩
  rw [headText, unlines_cons]
  simp only [List.append_assoc, List.cons_append, List.nil_append]

/-- The head that one call writes. -/
theorem writesAtOnce_iff (complete : ∀ header ∈ request.headers, HeaderStored header) {method version : List Octet}
    (line : Writable request method version) : WritesAtOnce (formatHeaders request) fresh text ↔
      text = headText request method version ∧ text.length < 2 ^ 32 := by
  have emits := HttpMessageFormatter.formatHeaders_emits _ _ _ (elements_fresh request)
  have spells := headElements_spells complete line
  constructor
  · intro atOnce
    obtain ⟨spells', small⟩ := spells_of_atOnce emits atOnce
    exact ⟨(spells_eq_remaining spells').trans (spells_eq_remaining spells).symm, small⟩
  · rintro ⟨rfl, small⟩
    refine atOnce_of_spells emits spells (fun last here => ?_) small
    have ends : (headElements request).getLast? = some ⟨false, .ok CRLF⟩ :=
      (List.getLast?_append_of_ne_nil _ (HttpMessageFormatter.headerElements_ne_nil request.headers)).trans
        (HttpMessageFormatter.headerElements_getLast? request.headers)
    rw [ends] at here
    cases here
    exact List.cons_ne_nil _ _

end HttpRequestFormatter

namespace HttpResponseFormatter

variable {response : HttpResponse} {text : List Octet}

/-- The status line. -/
structure IsStatusLine (response : HttpResponse) (version reason : List Octet) : Prop where
  version : HttpMessageFormatter.versionName response.httpVersion = .ok version
  statusCode : 100 ≤ response.startLine.statusCode ∧ response.startLine.statusCode ≤ 999
  reason_eq : reason = cstr (response.startLine.reasonPhrase.getD [])
  some : reason ≠ []

theorem renderEach_reason {reason : List Octet} {space : Bool} (h : spaced isText space reason = true) :
    renderEach emitReasonPhrase () reason = .ok reason := by
  have unbroken := spaced_unbroken (fun _ => id) h
  induction reason generalizing space with
  | nil => rfl
  | cons c rest ih =>
      have here := unbroken c List.mem_cons_self
      rw [spaced] at h
      have kept : isText c = true ∧ ∃ space', spaced isText space' rest = true := by
        split_ifs at h
        · simp only [Bool.and_eq_true, decide_eq_true_eq] at h
          exact ⟨by rw [h.1.1]; decide, _, h.2⟩
        · rw [Bool.and_eq_true] at h
          exact ⟨h.1, _, h.2⟩
      have emitted : emitReasonPhrase () c = .ok ([c], ()) := by
        rw [emitReasonPhrase, if_neg fun broken => broken.elim here.2.1 here.1, if_pos kept.1]
      obtain ⟨space', later⟩ := kept.2
      exact HttpMessageFormatter.renderEach_cons emitted
        (ih later fun d inside => unbroken d (List.mem_cons_of_mem c inside))

theorem statusCodeText_ok {code : List Octet} : statusCodeText response = .ok code ↔
    (100 ≤ response.startLine.statusCode ∧ response.startLine.statusCode ≤ 999) ∧
      code = numeral 10 response.startLine.statusCode ++ [SP] := by
  rw [statusCodeText]
  split_ifs with refused
  · exact iff_of_false nofun fun valid => by omega
  · rw [Except.ok.injEq]
    exact ⟨fun same => ⟨by omega, same.symm⟩, fun valid => valid.2.symm⟩

theorem reasonPhraseText_ok (stored : ∀ reason ∈ response.startLine.reasonPhrase, Stored isText reason)
    {reason : List Octet} : reasonPhraseText response = .ok reason ↔
      cstr (response.startLine.reasonPhrase.getD []) ≠ [] ∧
        reason = cstr (response.startLine.reasonPhrase.getD []) ++ CRLF := by
  have spaced : spaced isText true (cstr (response.startLine.reasonPhrase.getD [])) = true := by
    cases phrase : response.startLine.reasonPhrase with
    | none => rfl
    | some text => exact spaced_front (List.takeWhile_prefix _) (stored text (Option.mem_def.mpr phrase)).spaced
  rw [reasonPhraseText]
  cases text : cstr (response.startLine.reasonPhrase.getD []) with
  | nil => exact iff_of_false nofun fun some => some.1 rfl
  | cons c rest =>
      rw [text] at spaced
      dsimp only
      rw [renderEach_reason spaced]
      constructor
      · intro same
        cases same
        exact ⟨List.cons_ne_nil c rest, rfl⟩
      · rintro ⟨-, rfl⟩
        rfl

/-- A head ends with an empty line. -/
theorem headElements_getLast? : (headElements response).getLast? = some ⟨false, .ok CRLF⟩ :=
  (List.getLast?_append_of_ne_nil _ (HttpMessageFormatter.headerElements_ne_nil response.headers)).trans
    (HttpMessageFormatter.headerElements_getLast? response.headers)

/-- What a status line spells. -/
theorem statusLine_spells (stored : ∀ reason ∈ response.startLine.reasonPhrase, Stored isText reason)
    {line : List Octet} :
    Spells (markFirst [⟨false, HttpMessageFormatter.versionText response.httpVersion false⟩,
        ⟨false, statusCodeText response⟩, ⟨false, reasonPhraseText response⟩]) line ↔
      ∃ version reason, IsStatusLine response version reason ∧
        line = version ++ SP :: numeral 10 response.startLine.statusCode ++ SP :: reason ++ CRLF := by
  rw [spells_markFirst]
  constructor
  · rintro ⟨_, _, here, ⟨_, _, code, ⟨_, _, last, rfl, rfl⟩, rfl⟩, rfl⟩
    obtain ⟨version, _, named, space, rfl⟩ := joined_ok here
    cases space
    change statusCodeText response = _ at code
    change reasonPhraseText response = _ at last
    obtain ⟨valid, rfl⟩ := statusCodeText_ok.mp code
    obtain ⟨some, rfl⟩ := (reasonPhraseText_ok stored).mp last
    refine ⟨version, _, ⟨named, valid, rfl, some⟩, ?_⟩
    simp only [List.append_assoc, List.cons_append, List.nil_append, List.append_nil]
  · rintro ⟨version, reason, ⟨named, valid, rfl, some⟩, rfl⟩
    refine ⟨version ++ [SP], _, ?_, ⟨_, _, statusCodeText_ok.mpr ⟨valid, rfl⟩,
      ⟨_, _, (reasonPhraseText_ok stored).mpr ⟨some, rfl⟩, rfl, rfl⟩, rfl⟩, ?_⟩
    · change joined (HttpMessageFormatter.versionName response.httpVersion) (.ok [SP]) = _
      rw [named]
      rfl
    · simp only [List.append_assoc, List.cons_append, List.nil_append, List.append_nil]

/-- The text of a head with this status line. -/
def headText (response : HttpResponse) (version reason : List Octet) : List Octet :=
  unlines CR LF ((version ++ SP :: numeral 10 response.startLine.statusCode ++ SP :: reason) ::
    response.headers.map headerLine) ++ CRLF

/-- The heads that one call writes. -/
theorem atOnce_iff (complete : ∀ header ∈ response.headers, HeaderStored header)
    (stored : ∀ reason ∈ response.startLine.reasonPhrase, Stored isText reason) :
    WritesAtOnce (formatHeaders response) fresh text ↔
      ∃ version reason, IsStatusLine response version reason ∧ text = headText response version reason ∧
        text.length < 2 ^ 32 := by
  have emits := HttpMessageFormatter.formatHeaders_emits _ _ _ (elements_fresh response)
  have ends : ∀ last ∈ (headElements response).getLast?, last.octets ≠ [] := by
    intro last here
    rw [headElements_getLast?] at here
    cases here
    exact List.cons_ne_nil _ _
  have shape (line : List Octet) : line ++ CRLF ++ (unlines CR LF (response.headers.map headerLine) ++ CRLF) =
      unlines CR LF (line :: response.headers.map headerLine) ++ CRLF := by
    rw [unlines_cons]
    simp only [List.append_assoc, List.cons_append, List.nil_append]
  constructor
  · intro atOnce
    obtain ⟨spells, small⟩ := spells_of_atOnce emits atOnce
    obtain ⟨line, headers, front, behind, rfl⟩ := spells_append.mp spells
    rw [HttpMessageFormatter.headerElements_spells complete] at behind
    obtain ⟨version, reason, is, rfl⟩ := (statusLine_spells stored).mp front
    exact ⟨version, reason, is, by rw [behind, shape, headText], small⟩
  · rintro ⟨version, reason, is, rfl, small⟩
    have spells : Spells (headElements response) (headText response version reason) := by
      refine spells_append.mpr ⟨_, _, (statusLine_spells stored).mpr ⟨version, reason, is, rfl⟩,
        (HttpMessageFormatter.headerElements_spells complete).mpr rfl, ?_⟩
      rw [shape, headText]
    exact atOnce_of_spells emits spells ends small

theorem response_text (complete : ∀ header ∈ response.headers, HeaderStored header)
    (stored : ∀ reason ∈ response.startLine.reasonPhrase, Stored isText reason)
    (atOnce : WritesAtOnce (formatHeaders response) fresh text) :
    ∃ version reason, IsStatusLine response version reason ∧ text = headText response version reason := by
  obtain ⟨version, reason, is, same, -⟩ := (atOnce_iff complete stored).mp atOnce
  exact ⟨version, reason, is, same⟩

end HttpResponseFormatter

/-! ## Copies -/

section copies

theorem copyHeaders_eq {headers : List HttpHeader} (stored : ∀ header ∈ headers, HeaderStored header) :
    headers.map HttpMessage.copyHeader = headers :=
  (List.map_congr_left fun header inside => (stored header inside).copyHeader_eq).trans (List.map_id headers)

variable {request : HttpRequest} {response : HttpResponse}

/-- The head of a request is passed on with the headers that were stored. -/
theorem HttpRequest.copy_headers (stored : ∀ header ∈ request.headers, HeaderStored header) :
    (HttpRequest.copy .fresh request).headers = request.headers := copyHeaders_eq stored

theorem HttpResponse.copy_headers (stored : ∀ header ∈ response.headers, HeaderStored header) :
    (HttpResponse.copy .fresh response).headers = response.headers := copyHeaders_eq stored

theorem all_cstr {p : Octet → Bool} {text : Option (List Octet)} (all : ∀ s ∈ text, s.all p = true) :
    ∀ s ∈ text.map cstr, s.all p = true := by
  intro s inside
  obtain ⟨t, here, rfl⟩ := Option.map_eq_some_iff.mp inside
  exact List.all_eq_true.mpr fun c member =>
    List.all_eq_true.mp (all t here) c ((List.takeWhile_prefix _).subset member)

/-- A copy of a target has components of the same kinds. -/
theorem HttpRequestUriParser.UriStored.copy {uri : HttpRequestUri} (h : HttpRequestUriParser.UriStored uri) :
    HttpRequestUriParser.UriStored uri.copy :=
  ⟨all_cstr h.host, all_cstr h.absPath, all_cstr h.query, all_cstr h.fragment, all_cstr h.other⟩

end copies

end Everscale
