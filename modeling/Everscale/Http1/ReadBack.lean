/-
# Everscale.Http1.ReadBack -- parsing what was formatted

A response that was parsed and is formatted again is parsed to the same head (`reads_back_iff`), unless the
formatter refuses it: its status codes begin at 100, and it wants a reason phrase.

The elements are read back from the list of octets: `foldedOn_words` for texts whose white space is single
spaces, `fieldsOn_headers` for the headers.
-/
import Everscale.Http1.FormattedHead
import Everscale.Http1.ResponseStream
import Everscale.Http1.StoredSize

namespace Everscale

set_option autoImplicit false

open Theory HttpUtil

/-! ## Elements -/

/-- What ends a line, and what separates two words. -/
theorem skipLWSOn_word {c : Octet} (black : isLWS c = false) (rest : List Octet) :
    skipLWSOn false (SP :: c :: rest) = some (.inProgress, c :: rest) := by
  have : c ≠ CR ∧ c ≠ LF ∧ c ≠ SP ∧ c ≠ HT := by simpa [isLWS, and_assoc] using black
  obtain ⟨cr, lf, sp, ht⟩ := this
  rw [skipLWSOn, if_neg (by decide), if_neg (by decide), if_pos (.inl rfl), skipLWSOn, if_neg cr, if_neg lf,
    if_neg (by simp [sp, ht]), if_neg (by decide)]

theorem skipLWSOn_break {c : Octet} (stays : isSpace c = false) (rest : List Octet) :
    skipLWSOn false (CR :: LF :: c :: rest) = some (.success, c :: rest) := by
  have space : ¬ (c = SP ∨ c = HT) := by simpa [isSpace] using stays
  rw [skipLWSOn, if_pos rfl, if_neg (by decide), skipLWSOn, if_neg (by decide), if_pos rfl, if_neg (by decide),
    skipLWSOn]
  simp only [space, if_true, if_false, ite_self]

theorem skipLWSOn_blank {c : Octet} (stays : isSpace c = false) (rest : List Octet) :
    skipLWSOn false (SP :: CR :: LF :: c :: rest) = some (.success, c :: rest) := by
  rw [skipLWSOn, if_neg (by decide), if_neg (by decide), if_pos (.inl rfl), skipLWSOn_break stays]

theorem rdropWhile_eq_self_iff {text : List Octet} :
    text.rdropWhile Buffer.isTrimmed = text ↔ endsSpaced text = false := by
  rw [List.rdropWhile_eq_self_iff, endsSpaced]
  cases last : text.getLast? with
  | none =>
      rw [List.getLast?_eq_none_iff] at last
      exact iff_of_true (fun some => absurd last some) rfl
  | some c =>
      have some : text ≠ [] := by rintro rfl; cases last
      rw [List.getLast?_eq_some_getLast some, Option.some.injEq] at last
      rw [Option.any_some, ← last, ← isTrimmed_eq_isLWS, ← Bool.not_eq_true]
      exact ⟨fun black => black some, fun black _ => black⟩

theorem Stored.last_black {isContent : Octet → Bool} {text : List Octet} (h : Stored isContent text) :
    endsSpaced text = false := rdropWhile_eq_self_iff.mp h.trimmed

theorem Stored.cstr_text {text : List Octet} (h : Stored isText text) : cstr text = text :=
  cstr_eq_self fun inside => (spaced_unbroken (fun _ => id) h.spaced NUL inside).2.2 rfl

/-- A text whose white space is single spaces does not begin with one, behind another. -/
theorem spaced_black {isContent : Octet → Bool} {c : Octet} {rest : List Octet}
    (words : spaced isContent true (c :: rest) = true) : isLWS c = false := by
  rw [spaced] at words
  by_contra white
  rw [Bool.not_eq_false] at white
  rw [if_pos white] at words
  simp at words

namespace HttpMessageParser

variable {χ ρ : Type} {isContent : Octet → Bool} {save : Scratch ρ → Error × Scratch ρ} {bad : Error}

section folded

variable {s : Scratch ρ} {held text : List Octet} {c : Octet}

/-- A text whose white space is single spaces is read as it stands. -/
theorem foldedOn_words {space : Bool} (holds : Holds s.working held 0) (words : spaced isContent space text = true)
    (ends : endsSpaced text = false) (begun : space = false → held ≠ [])
    (room : held.length + text.length < s.working.capacity) (stays : isSpace c = false) (rest : List Octet) :
    ∃ working, Holds working (held ++ text) 0 ∧ working.capacity = s.working.capacity ∧
      foldedOn isContent save bad s (text ++ CR :: LF :: c :: rest) =
        ⟨(save { s with working }).1, (save { s with working }).2, c :: rest⟩ := by
  induction text generalizing s held space with
  | nil =>
      refine ⟨s.working, by rwa [List.append_nil], rfl, ?_⟩
      exact foldedOn_end (holds.isWritable.mpr (by simpa using room)) (by decide) (skipLWSOn_break stays rest)
  | cons d text ih =>
      rw [List.length_cons] at room
      have writable := holds.isWritable.mpr (by omega)
      obtain ⟨holds', capacity⟩ := holds.putNext (by omega) d
      have later : (held ++ [d]).length + text.length < (s.put d).working.capacity := by
        rw [Scratch.put, capacity, List.length_append, List.length_singleton]
        omega
      rw [spaced] at words
      by_cases white : isLWS d = true
      · rw [if_pos white] at words
        simp only [Bool.and_eq_true, decide_eq_true_eq, Bool.not_eq_true'] at words
        obtain ⟨⟨rfl, behind⟩, words⟩ := words
        have some := begun behind
        have put : putSpace s = s.put SP := by
          rw [putSpace, if_pos (by rw [holds.writePosition]; exact List.length_pos_iff.mpr some)]
        cases text with
        | nil => cases ends
        | cons e text =>
            rw [endsSpaced, List.getLast?_cons_cons] at ends
            obtain ⟨working, holds, same, read⟩ := ih (s := s.put SP) holds' words ends (by rintro ⟨⟩) later
            refine ⟨working, by rwa [← List.append_cons] at holds, same.trans capacity, ?_⟩
            rw [List.cons_append, List.cons_append,
              foldedOn_space writable (by decide) (skipLWSOn_word (spaced_black words) _), put]
            exact read
      · rw [if_neg white, Bool.and_eq_true] at words
        have ends : endsSpaced text = false := by
          cases text with
          | nil => rfl
          | cons e text => rwa [endsSpaced, List.getLast?_cons_cons] at ends
        obtain ⟨working, holds, same, read⟩ := ih (s := s.put d) holds' words.2 ends (fun _ => by simp) later
        refine ⟨working, by rwa [← List.append_cons] at holds, same.trans capacity, ?_⟩
        rw [List.cons_append, foldedOn_content writable (Bool.eq_false_iff.mpr white) words.1]
        exact read

/-- A stored text is read as it was stored, with or without a space in front of it. -/
theorem foldedOn_stored (holds : Holds s.working [] 0) (stored : Stored isContent text)
    (room : text.length < s.working.capacity) (stays : isSpace c = false) (rest : List Octet) :
    ∃ working, Holds working text 0 ∧ working.capacity = s.working.capacity ∧
      foldedOn isContent save bad s (text ++ CR :: LF :: c :: rest) =
        ⟨(save { s with working }).1, (save { s with working }).2, c :: rest⟩ :=
  foldedOn_words holds stored.spaced stored.last_black (by rintro ⟨⟩) (by simpa using room) stays rest

theorem foldedOn_behind_space (holds : Holds s.working [] 0) (stored : Stored isContent text)
    (room : text.length < s.working.capacity) (stays : isSpace c = false) (rest : List Octet) :
    ∃ working, Holds working text 0 ∧ working.capacity = s.working.capacity ∧
      foldedOn isContent save bad s (SP :: text ++ CR :: LF :: c :: rest) =
        ⟨(save { s with working }).1, (save { s with working }).2, c :: rest⟩ := by
  have writable := holds.isWritable.mpr (show ([] : List Octet).length < s.working.capacity from Nat.zero_lt_of_lt room)
  cases text with
  | nil => exact ⟨s.working, holds, rfl, foldedOn_end writable (by decide) (skipLWSOn_blank stays rest)⟩
  | cons d text =>
      have none : ¬ 0 < s.working.writePosition := by rw [holds.writePosition]; decide
      rw [List.cons_append, List.cons_append,
        foldedOn_space writable (by decide) (skipLWSOn_word (spaced_black stored.spaced) _), putSpace, if_neg none]
      exact foldedOn_stored holds stored room stays rest

end folded

/-! ## Headers -/

section fields

variable {s : Scratch ρ} {held name text : List Octet} {c : Octet}

theorem fieldValueOn_stored (holds : Holds s.working [] 0) (stored : Stored isFieldContent text)
    (room : text.length < s.working.capacity) (stays : isSpace c = false) (rest : List Octet) :
    ∃ working, Holds working text 0 ∧ working.capacity = s.working.capacity ∧
      fieldValueOn s (SP :: text ++ CR :: LF :: c :: rest) =
        ⟨(saveFieldValue { s with working }).1, (saveFieldValue { s with working }).2, c :: rest⟩ :=
  foldedOn_behind_space holds stored room stays rest

/-- A run of tokens that the loop keeps, in front of any rest. -/
theorem scan_tokens {act : Scratch ρ → Octet → Act Error (Scratch ρ)} (after : StreamParser (Scratch ρ))
    (takes : ∀ s c, isToken c = true → act s c = .keep (s.put c)) (holds : Holds s.working held 0)
    (tokens : name.all isToken = true) (room : held.length + name.length ≤ s.working.capacity) (rest : List Octet) :
    ∃ working, Holds working (held ++ name) 0 ∧ working.capacity = s.working.capacity ∧
      scan .again Scratch.workingFull act after s (name ++ rest) =
        scan .again Scratch.workingFull act after { s with working } rest := by
  induction name generalizing s held with
  | nil => exact ⟨s.working, by rwa [List.append_nil], rfl, rfl⟩
  | cons c name ih =>
      rw [List.all_cons, Bool.and_eq_true] at tokens
      rw [List.length_cons] at room
      have writable : s.workingFull = none := by
        rw [Scratch.workingFull, if_pos (holds.isWritable.mpr (by omega))]
      obtain ⟨holds', capacity⟩ := holds.putNext (by omega) c
      have later : (held ++ [c]).length + name.length ≤ (s.put c).working.capacity := by
        rw [Scratch.put, capacity, List.length_append, List.length_singleton]
        omega
      obtain ⟨working, holds, same, read⟩ := ih (s := s.put c) holds' tokens.2 later
      refine ⟨working, by rwa [← List.append_cons] at holds, same.trans capacity, ?_⟩
      rw [List.cons_append, scan, writable]
      dsimp only
      rw [takes s c tokens.1]
      exact read

theorem fieldNameOn_tokens (holds : Holds s.working [] 0) (tokens : name.all isToken = true)
    (room : name.length < s.working.capacity) (rest : List Octet) :
    ∃ working, Holds working name 0 ∧ working.capacity = s.working.capacity ∧
      fieldNameOn s (name ++ octet ':' :: rest) =
        ⟨.success, { working, message := s.message.addHeader { fieldName := name } }, rest⟩ := by
  have takes (s : Scratch ρ) (c : Octet) (token : isToken c = true) : fieldNameOctet s c = .keep (s.put c) := by
    have colon : c ≠ octet ':' := by
      rintro rfl
      exact absurd token (by decide)
    rw [fieldNameOctet, if_neg colon, if_pos token]
  obtain ⟨working, holds', same, read⟩ :=
    scan_tokens noMoreOn takes holds tokens (by simpa using room.le) (octet ':' :: rest)
  rw [List.nil_append] at holds'
  have writable : Scratch.workingFull { s with working } = none := by
    rw [Scratch.workingFull, if_pos (holds'.isWritable.mpr (same ▸ room))]
  have visible : name.all isVisible = true :=
    List.all_eq_true.mpr fun c inside => token_visible (List.all_eq_true.mp tokens c inside)
  refine ⟨working, holds', same, ?_⟩
  rw [fieldNameOn, read, scan, writable]
  dsimp only
  rw [fieldNameOctet, if_pos rfl]
  dsimp only
  rw [holds'.duplicate, rdropWhile_visible visible]

end fields

section headers

variable (methods : StartLineMethods χ ρ) {s : HttpMessageParser χ ρ} {header : HttpHeader} {headers : List HttpHeader}
  {c : Octet}

/-- The parser in front of the next field, with these headers more. -/
def withHeaders (s : HttpMessageParser χ ρ) (working : Buffer) (headers : List HttpHeader) : HttpMessageParser χ ρ :=
  { s with stage := .fieldName, working, message := { s.message with headers := s.message.headers ++ headers } }

theorem fieldsOn_header (stage : s.stage = .fieldName) (holds : Holds s.working [] 0) (stored : HeaderStored header)
    (room : HeaderShort s.working.capacity header) (stays : isSpace c = false) (rest : List Octet) :
    ∃ working, Holds working [] 0 ∧ working.capacity = s.working.capacity ∧
      fieldsOn methods s (headerLine header ++ CR :: LF :: c :: rest) =
        fieldsOn methods (withHeaders s working [header]) (c :: rest) := by
  obtain ⟨name, value⟩ := header
  obtain ⟨tokens, value, rfl, text⟩ := stored
  dsimp only at tokens
  have shape : headerLine ⟨name, some value⟩ ++ CR :: LF :: c :: rest =
      name ++ octet ':' :: (SP :: value ++ CR :: LF :: c :: rest) := by
    simp only [headerLine, Option.getD_some, List.append_assoc]
    rfl
  obtain ⟨working, named, same, read⟩ :=
    fieldNameOn_tokens holds tokens room.name (SP :: value ++ CR :: LF :: c :: rest)
  let s₁ : HttpMessageParser χ ρ := enter .fieldValue
    { s with working, message := s.message.addHeader { fieldName := name } }
  have first : fieldsOn methods s (headerLine ⟨name, some value⟩ ++ CR :: LF :: c :: rest) =
      fieldsOn methods s₁ (SP :: value ++ CR :: LF :: c :: rest) := by
    obtain ⟨d, tail, begins, black⟩ : ∃ d tail,
        name ++ octet ':' :: (SP :: value ++ CR :: LF :: c :: rest) = d :: tail ∧ isLWS d = false := by
      cases name with
      | nil => exact ⟨octet ':', _, rfl, by decide⟩
      | cons d name =>
          rw [List.all_cons, Bool.and_eq_true] at tokens
          exact ⟨d, _, rfl, visible_black (token_visible tokens.1)⟩
    rw [shape, begins, fieldsOn_name stage black, ← begins, Theory.stage, onScratchOn, Theory.Parser.on, read]
    exact if_pos rfl
  obtain ⟨working', valued, same', read'⟩ :=
    fieldValueOn_stored (s := s₁.toScratch) (.clear named.wf) text
      (by rw [show s₁.toScratch.working = working.clear from rfl, Buffer.clear_capacity, same]
          exact room.value value rfl) stays rest
  have saved : saveFieldValue { s₁.toScratch with working := working' } =
      (.success, { working := working', message := s.message.addHeader ⟨name, some value⟩ }) := by
    have headers : s₁.message.headers = s.message.headers ++ [⟨name, none⟩] := rfl
    rw [saveFieldValue, HttpMessage.setLastFieldValue, valued.duplicate, text.trimmed]
    dsimp only
    rw [headers, List.getLast?_concat, List.dropLast_concat]
    rfl
  refine ⟨working'.clear, .clear valued.wf, ?_, ?_⟩
  · rw [Buffer.clear_capacity, same', show s₁.toScratch.working = working.clear from rfl, Buffer.clear_capacity, same]
  rw [first, fieldsOn_value rfl, Theory.stage, onScratchOn, Theory.Parser.on, read', saved]
  exact if_pos rfl

/-- The first octet of a header, or of the empty line behind the headers, is no space. -/
theorem headers_begin (stored : ∀ header ∈ headers, HeaderStored header) (more : List Octet) :
    ∃ c rest, unlines CR LF (headers.map headerLine) ++ CRLF ++ more = c :: rest ∧ isSpace c = false := by
  cases headers with
  | nil => exact ⟨CR, LF :: more, rfl, by decide⟩
  | cons header headers =>
      have complete := stored header List.mem_cons_self
      rw [List.map_cons, unlines_cons]
      obtain ⟨name, value⟩ := header
      cases name with
      | nil => exact ⟨octet ':', _, rfl, by decide⟩
      | cons c name =>
          have tokens := complete.name
          rw [List.all_cons, Bool.and_eq_true] at tokens
          exact ⟨c, _, rfl, (visible_ne (token_visible tokens.1)).2.2.2⟩

/-- The headers are read as they were stored, and the empty line behind them ends the head. -/
theorem fieldsOn_headers (stage : s.stage = .fieldName) (holds : Holds s.working [] 0)
    (stored : ∀ header ∈ headers, HeaderStored header)
    (room : ∀ header ∈ headers, HeaderShort s.working.capacity header) (more : List Octet) :
    ∃ working, fieldsOn methods s (unlines CR LF (headers.map headerLine) ++ CRLF ++ more) =
      endOfHeadersOn methods (withHeaders s working headers) more := by
  induction headers generalizing s with
  | nil =>
      refine ⟨s.working, ?_⟩
      have same : withHeaders s s.working [] = s := by
        rw [withHeaders, List.append_nil, ← stage]
      rw [same]
      exact fieldsOn_returnLineFeed stage more
  | cons header headers ih =>
      have later : ∀ header ∈ headers, HeaderStored header := fun header inside =>
        stored header (List.mem_cons_of_mem _ inside)
      obtain ⟨c, rest, begins, stays⟩ := headers_begin later more
      obtain ⟨working, holds', same, read⟩ := fieldsOn_header methods stage holds (stored header List.mem_cons_self)
        (room header List.mem_cons_self) stays rest
      obtain ⟨working', read'⟩ := ih (s := withHeaders s working [header]) rfl holds' later fun header inside =>
        same ▸ room header (List.mem_cons_of_mem _ inside)
      have shape : unlines CR LF ((header :: headers).map headerLine) ++ CRLF ++ more =
          headerLine header ++ CR :: LF :: c :: rest := by
        rw [List.map_cons, unlines_cons, ← begins]
        simp only [List.append_assoc, List.cons_append]
      have both : withHeaders (withHeaders s working [header]) working' headers =
          withHeaders s working' (header :: headers) := by
        simp only [withHeaders, List.append_assoc, List.singleton_append]
      exact ⟨working', by rw [shape, read, ← begins, read', both]⟩

end headers

/-! ## Accepting a head again -/

theorem delimitBody_refuses (methods : StartLineMethods χ ρ) (s : HttpMessageParser χ ρ) (found : PostParse ρ) :
    (delimitBody methods s found).1 =
      if !found.foundTransferEncodedChunked && !found.foundContentLength && found.foundMultipartByteRange
        then .multipartNotSupported else .success := by
  rw [delimitBody]
  dsimp only
  cases found.foundTransferEncodedChunked <;> cases found.foundContentLength <;> cases found.foundMultipartByteRange <;>
    simp only [if_true, Bool.false_eq_true, if_false, Bool.not_true, Bool.not_false, Bool.and_false, Bool.and_true]
  split_ifs <;> rfl

/-- Whether a head is accepted depends on its headers alone. -/
theorem postParse_success {methods methods' : StartLineMethods χ ρ} {s s' : HttpMessageParser χ ρ}
    (same : s'.message.headers = s.message.headers) (accepted : (postParse methods s).1 = .success) :
    (postParse methods' s').1 = .success := by
  obtain ⟨read, found⟩ := postParseHeaders_gather s.message.headers (postParseStart s.message)
  obtain ⟨-, found'⟩ := postParseHeaders_gather s'.message.headers (postParseStart s'.message)
  rw [postParse] at accepted ⊢
  dsimp only at accepted ⊢
  by_cases lengths : LengthsRead s.message.headers
  · rw [found lengths] at accepted
    rw [found' (same ▸ lengths), same]
    dsimp only at accepted ⊢
    rw [if_neg (not_not.mpr rfl), delimitBody_refuses] at accepted ⊢
    exact accepted
  · rw [if_pos (mt read.mp lengths)] at accepted
    exact absurd accepted (mt read.mp lengths)

/-! ## Whole heads -/

section heads

variable {methods : StartLineMethods χ ρ} {stream : StartLineStream methods} {first : HttpMessageParser χ ρ}
  {line u : List Octet} {message : HttpMessage ρ} {headers : List HttpHeader} {b : Buffer}

theorem parseHeadersOn_entered (initial : first.stage = .initial) (front : u.dropWhile isLWS = u) (some : u ≠ []) :
    parseHeadersOn stream first u = parseHeadersOn stream (enter .startLine first) u := by
  simp only [parseHeadersOn, enter, initial, front, some, reduceCtorEq, if_false, if_true]

/-- The first line is read, whatever stands behind it that does not fold it. -/
def LineReads (stream : StartLineStream methods) (first : HttpMessageParser χ ρ) (line : List Octet)
    (message : HttpMessage ρ) : Prop :=
  ∀ c rest, isSpace c = false → ∃ s : StartLineParse χ ρ,
    stream.parseStartLineOn (enter .startLine first).toStartLineParse (line ++ CR :: LF :: c :: rest) =
        ⟨.success, s, c :: rest⟩ ∧
      s.working.WF ∧ s.working.capacity = first.working.capacity ∧ s.message = message

/-- A head is read as it was stored, where its first line is read and there is room for each of its strings. -/
theorem parseHeadersOn_reads (initial : first.stage = .initial) (front : line.dropWhile isLWS = line)
    (some : line ≠ []) (reads : LineReads stream first line message) (plain : message.headers = [])
    (complete : ∀ header ∈ headers, HeaderStored header)
    (room : ∀ header ∈ headers, HeaderShort first.working.capacity header) (more : List Octet) :
    ∃ s, parseHeadersOn stream first (unlines CR LF (line :: headers.map headerLine) ++ CRLF ++ more) =
      endOfHeadersOn methods s more ∧ s.message = { message with headers } := by
  obtain ⟨c, rest, begins, stays⟩ := headers_begin complete more
  have shape : unlines CR LF (line :: headers.map headerLine) ++ CRLF ++ more = line ++ CR :: LF :: c :: rest := by
    rw [unlines_cons, ← begins]
    simp only [List.append_assoc, List.cons_append]
  have start : (line ++ CR :: LF :: c :: rest).dropWhile isLWS = line ++ CR :: LF :: c :: rest := by
    rw [dropWhile_append_of_some (by rwa [front]), front]
  obtain ⟨s, read, wf, capacity, same⟩ := reads c rest stays
  let s₁ : HttpMessageParser χ ρ := enter .fieldName { enter .startLine first with toStartLineParse := s }
  have sized : s₁.working.capacity = first.working.capacity := (Buffer.clear_capacity s.working).trans capacity
  obtain ⟨working, fields⟩ := fieldsOn_headers methods (s := s₁) rfl (.clear wf) complete
    (fun header inside => sized ▸ room header inside) more
  refine ⟨withHeaders s₁ working headers, ?_, ?_⟩
  · rw [shape, parseHeadersOn_entered initial start (by simp), parseHeadersOn_startLine rfl, Theory.stage,
      onStartLineOn, Theory.Parser.on, read, ← fields, begins]
    exact if_pos rfl
  · have headers' : s₁.message = message := same
    rw [withHeaders, headers', plain, List.nil_append]

variable (stream)

/-- **A head that was accepted once is accepted again**, as what its first line is read as and with its headers. -/
theorem parseHeaders_reads (initial : first.stage = .initial) (front : line.dropWhile isLWS = line)
    (some : line ≠ []) (reads : LineReads stream first line message) (plain : message.headers = [])
    (complete : ∀ header ∈ headers, HeaderStored header)
    (room : ∀ header ∈ headers, HeaderShort first.working.capacity header) {s₀ : HttpMessageParser χ ρ}
    (accepted : (postParse methods s₀).1 = .success) (given : s₀.message.headers = headers) (wf : b.WF)
    {more : List Octet} (unread : b.unread = unlines CR LF (line :: headers.map headerLine) ++ CRLF ++ more) :
    let read := parseHeaders methods first b
    read.code = .success ∧ read.state.message.startLine = message.startLine ∧
      read.state.message.httpVersion = message.httpVersion ∧ read.state.message.headers = headers ∧
      read.input.unread = more := by
  obtain ⟨mirrored, -⟩ := parseHeaders_mirrors stream first b trivial wf fun needs => by
    rw [HeaderNeeds, initial] at needs
    cases needs.1
  obtain ⟨s, read, same⟩ := parseHeadersOn_reads initial front some reads plain complete room more
  rw [unread, read] at mirrored
  have again : (postParse methods (enter .headerParseComplete s)).1 = .success :=
    postParse_success ((congrArg HttpMessage.headers same).trans given.symm) accepted
  obtain ⟨startLine, httpVersion, headers'⟩ := postParse_text _ again
  have state : (parseHeaders methods first b).state = (postParse methods (enter .headerParseComplete s)).2 :=
    mirrored.state
  have kept : (enter .headerParseComplete s).message = { message with headers } := same
  rw [kept] at startLine httpVersion headers'
  exact ⟨mirrored.code.trans again, by rw [state, startLine], by rw [state, httpVersion], by rw [state, headers'],
    mirrored.unread⟩

/-- A head whose first line is refused is refused. -/
theorem parseHeaders_refuses (initial : first.stage = .initial) (front : u.dropWhile isLWS = u) (some : u ≠ [])
    (refused : (stream.parseStartLineOn (enter .startLine first).toStartLineParse u).code ≠ .success) (wf : b.WF)
    (unread : b.unread = u) : (parseHeaders methods first b).code ≠ .success := by
  obtain ⟨mirrored, -⟩ := parseHeaders_mirrors stream first b trivial wf fun needs => by
    rw [HeaderNeeds, initial] at needs
    cases needs.1
  rw [mirrored.code, unread, parseHeadersOn_entered initial front some, parseHeadersOn_startLine rfl, Theory.stage,
    onStartLineOn, Theory.Parser.on, if_neg refused]
  exact refused

end heads

/-! ## Versions -/

/-- A version is read as what stands behind it says. -/
theorem versionOn_named {httpVersion : Nat} {version behind : List Octet}
    (named : HttpMessageFormatter.versionName httpVersion = .ok version) (clientMode : Bool) (s : Scratch ρ)
    (enough : versionLength clientMode ≤ behind.length + 8) :
    versionOn clientMode s (version ++ behind) = versionEnd clientMode s httpVersion behind := by
  have known : version.dropWhile isSpace = version ∧ version.length = 8 ∧ versionMatch version = some httpVersion := by
    rw [HttpMessageFormatter.versionName] at named
    split_ifs at named with modern old <;> cases named
    · rw [modern]; decide +kernel
    · rw [old]; decide +kernel
  obtain ⟨front, length, matched⟩ := known
  have some : version.dropWhile isSpace ≠ [] := by
    rw [front]
    rintro rfl
    cases length
  rw [versionOn, dropWhile_append_of_some some, front, if_neg (by rw [List.length_append, length]; omega),
    versionMatch_append length.ge, matched]
  exact congrArg (versionEnd clientMode s httpVersion) (List.drop_left' length)

end HttpMessageParser

/-! ## Status lines -/

namespace HttpResponseParser

open HttpMessageParser (versionOn versionOn_named foldedOn_stored)

section line

variable {rest : List Octet}

theorem versionOn_name {httpVersion : Nat} {version : List Octet}
    (named : HttpMessageFormatter.versionName httpVersion = .ok version) (s : Scratch StatusLine) (rest : List Octet) :
    versionOn true s (version ++ SP :: rest) =
      ⟨.success, { s with message := { s.message with httpVersion } }, rest⟩ := by
  rw [versionOn_named named true s (by simp [HttpMessageParser.versionLength])]
  rfl

theorem digit_read {digit : Nat} (small : digit < 10) :
    isDigit (digitOctet digit) = true ∧ (digitOctet digit).toNat - 48 = digit := by
  interval_cases digit <;> decide

theorem numeral_three {n : Nat} (least : 100 ≤ n) (most : n ≤ 999) :
    numeral 10 n = [digitOctet (n / 10 / 10), digitOctet (n / 10 % 10), digitOctet (n % 10)] := by
  rw [numeral, if_neg (by omega), Nat.digits_def' (by decide) (by omega), Nat.digits_def' (by decide) (by omega),
    Nat.digits_of_lt 10 (n / 10 / 10) (by omega) (by omega)]
  rfl

theorem statusCodeOn_numeral {n : Nat} (least : 100 ≤ n) (most : n ≤ 999) (s : Scratch StatusLine) (rest : List Octet) :
    statusCodeOn s (numeral 10 n ++ SP :: rest) =
      ⟨.success, { s with message := { s.message with startLine := { s.message.startLine with statusCode := n } } },
        rest⟩ := by
  obtain ⟨hundreds, read₁⟩ := digit_read (show n / 10 / 10 < 10 by omega)
  obtain ⟨tens, read₂⟩ := digit_read (show n / 10 % 10 < 10 by omega)
  obtain ⟨units, read₃⟩ := digit_read (show n % 10 < 10 by omega)
  have black : isSpace (digitOctet (n / 10 / 10)) = false := 
    (visible_ne (HttpRequestUriFormatter.digitOctet_visible (by omega))).2.2.2
  have value : (n / 10 / 10 * 10 + n / 10 % 10) * 10 + n % 10 = n := by omega
  rw [numeral_three least most, statusCodeOn, List.cons_append, List.dropWhile_cons_of_neg (by rw [black]; decide)]
  simp only [List.cons_append, List.nil_append, digitsOn, hundreds, tens, units, read₁, read₂, read₃, value]
  rfl

theorem reasonPhraseOn_stored {s : Scratch StatusLine} {reason : List Octet} {c : Octet} (holds : Holds s.working [] 0)
    (stored : Stored isText reason) (room : reason.length < s.working.capacity) (stays : isSpace c = false)
    (rest : List Octet) :
    ∃ working, Holds working reason 0 ∧ working.capacity = s.working.capacity ∧
      reasonPhraseOn s (reason ++ CR :: LF :: c :: rest) =
        ⟨.success, { working, message := { s.message with
          startLine := { s.message.startLine with reasonPhrase := some reason } } }, c :: rest⟩ := by
  obtain ⟨working, holds', same, read⟩ := foldedOn_stored (s := s) holds stored room stays rest
  refine ⟨working, holds', same, read.trans ?_⟩
  rw [saveReasonPhrase, holds'.duplicate, stored.trimmed]

/-- A status line is read as it was stored. -/
theorem parseStartLineOn_reads {s : StatusLineParse} (initial : s.sub = .initial) (wf : s.working.WF)
    {httpVersion statusCode : Nat} {version reason : List Octet} {c : Octet}
    (named : HttpMessageFormatter.versionName httpVersion = .ok version) (least : 100 ≤ statusCode)
    (most : statusCode ≤ 999) (stored : Stored isText reason) (room : reason.length < s.working.capacity)
    (stays : isSpace c = false) (rest : List Octet) :
    ∃ working, working.WF ∧ working.capacity = s.working.capacity ∧
      parseStartLineOn s (version ++ SP :: numeral 10 statusCode ++ SP :: reason ++ CR :: LF :: c :: rest) =
        ⟨.success, { s with
          sub := .parseComplete, working
          message := { s.message with httpVersion, startLine := { statusCode, reasonPhrase := some reason } } },
          c :: rest⟩ := by
  let s₁ := enter .statusCode
    { enter .version s with message := { s.message with httpVersion } }
  let s₂ := enter .reasonPhrase
    { s₁ with message := { s₁.message with startLine := { s₁.message.startLine with statusCode } } }
  have cleared : Holds s₂.working [] 0 := .clear (Buffer.clear_wf (Buffer.clear_wf wf))
  obtain ⟨working, holds, same, read⟩ := reasonPhraseOn_stored (s := s₂.toScratch) cleared stored room stays rest
  refine ⟨working.clear, Buffer.clear_wf holds.wf, same, ?_⟩
  have shape : version ++ SP :: numeral 10 statusCode ++ SP :: reason ++ CR :: LF :: c :: rest =
      version ++ SP :: (numeral 10 statusCode ++ SP :: (reason ++ CR :: LF :: c :: rest)) := by
    simp only [List.append_assoc, List.cons_append]
  have third : lineFromReasonPhraseOn s₂ (reason ++ CR :: LF :: c :: rest) = ⟨.success, { s with
      sub := .parseComplete, working := working.clear
      message := { s.message with httpVersion, startLine := { statusCode, reasonPhrase := some reason } } },
      c :: rest⟩ := by
    rw [lineFromReasonPhraseOn, if_pos (show s₂.sub = .reasonPhrase from rfl), stage, onScratchOn, Theory.Parser.on,
      read]
    exact if_pos rfl
  have second : lineFromStatusCodeOn s₁ (numeral 10 statusCode ++ SP :: (reason ++ CR :: LF :: c :: rest)) =
      lineFromReasonPhraseOn s₂ (reason ++ CR :: LF :: c :: rest) := by
    rw [lineFromStatusCodeOn, if_pos (show s₁.sub = .statusCode from rfl), stage, onScratchOn, Theory.Parser.on,
      statusCodeOn_numeral least most]
    exact if_pos rfl
  rw [shape, parseStartLineOn, if_neg (by rw [initial]; decide), if_pos initial, lineFromVersionOn,
    if_pos (show (enter .version s).sub = .version from rfl), stage, onScratchOn, Theory.Parser.on,
    versionOn_name named, ← third, ← second]
  exact if_pos rfl

end line

/-! ## Whole heads -/

open HttpMessageParser (Accepts HeaderStored HeaderShort LineReads parseHeaders_reads postParse postParse_text
  accepted_postParse accepts_at_once)
open HttpResponseFormatter (IsStatusLine headText)

/-- Two heads say the same. -/
structure SameHead (response response' : HttpResponse) : Prop where
  httpVersion : response'.httpVersion = response.httpVersion
  startLine : response'.startLine = response.startLine
  headers : response'.headers = response.headers

section head

variable {response : HttpResponse} {version reason : List Octet} {working : Buffer}

theorem statusLine_reads (line : IsStatusLine response version reason) (stored : Stored isText reason)
    (wf : working.WF) (phrase : reason.length < working.capacity) :
    LineReads stream (fresh working) (version ++ SP :: numeral 10 response.startLine.statusCode ++ SP :: reason)
      { HttpResponse.fresh with
        httpVersion := response.httpVersion
        startLine := { statusCode := response.startLine.statusCode, reasonPhrase := some reason } } := by
  intro c rest stays
  let s : HttpResponseParser := HttpMessageParser.enter .startLine (fresh working)
  obtain ⟨working', wf', same, read⟩ := parseStartLineOn_reads (s := s.toStartLineParse) rfl (Buffer.clear_wf wf)
    line.version line.statusCode.1 line.statusCode.2 stored phrase stays rest
  exact ⟨_, read, wf', same, rfl⟩

/-- The parser reads this text as the response, whatever stands behind it, with a working buffer of this
capacity or more. -/
def ReadsAs (capacity : Nat) (text : List Octet) (response : HttpResponse) : Prop :=
  ∀ working b : Buffer, working.WF → capacity ≤ working.capacity → b.WF → ∀ more, b.unread = text ++ more →
    let read := parseHeaders (fresh working) b
    read.code = .success ∧ SameHead response read.state.message ∧ read.input.unread = more

/-- A head that was accepted once is accepted again, as the same head. -/
theorem headText_readsAs {s₀ : HttpResponseParser} (accepted : (postParse methods s₀).1 = .success)
    (headers : s₀.message.headers = response.headers) (line : IsStatusLine response version reason)
    (given : response.startLine.reasonPhrase = some reason) (stored : Stored isText reason)
    (complete : ∀ header ∈ response.headers, HeaderStored header) {capacity : Nat} (phrase : reason.length < capacity)
    (room : ∀ header ∈ response.headers, HeaderShort capacity header) :
    ReadsAs capacity (headText response version reason) response := by
  intro working b wf large wf' more unread
  have front : version.dropWhile isLWS = version ∧ version ≠ [] := by
    rcases versionName_ok line.version with rfl | rfl <;> decide +kernel
  obtain ⟨code, startLine, httpVersion, same, rest⟩ := parseHeaders_reads stream rfl
    (by rw [List.append_assoc, dropWhile_append_of_some (by rw [front.1]; exact front.2), front.1])
    (by simp [front.2]) (statusLine_reads line stored wf (phrase.trans_le large)) rfl complete
    (fun header inside => (room header inside).mono large) accepted headers wf' unread
  exact ⟨code, ⟨httpVersion, startLine.trans (by rw [← given]), same⟩, rest⟩

/-- The response can be formatted, and what was formatted is read as the response. -/
def ReadsBack (capacity : Nat) (response : HttpResponse) : Prop :=
  ∃ text, WritesAtOnce (HttpResponseFormatter.formatHeaders response) HttpResponseFormatter.fresh text ∧
    ReadsAs capacity text response

/-- The length of a head; all versions have the same. -/
def headLength (response : HttpResponse) : Nat :=
  (headText response (octets "HTTP/1.1") (response.startLine.reasonPhrase.getD [])).length

theorem headText_length (is : IsVersion version) :
    (headText response version (response.startLine.reasonPhrase.getD [])).length = headLength response := by
  have eight : version.length = (octets "HTTP/1.1").length := by rcases is with rfl | rfl <;> decide +kernel
  simp only [headLength, headText, unlines_cons, List.length_append, List.length_cons, eight]

/-- **An accepted response can be formatted and is read back from what was formatted, exactly when its status
code is 100 or more and its reason phrase is not empty**, if a buffer can hold the head at all. -/
theorem reads_back_iff (wf : working.WF) {s' : HttpResponseParser} (accepts : Accepts methods (fresh working) s') :
    ReadsBack working.capacity s'.message ↔
      100 ≤ s'.message.startLine.statusCode ∧ s'.message.startLine.reasonPhrase.getD [] ≠ [] ∧
        headLength s'.message < 2 ^ 32 := by
  obtain ⟨⟨stored, below⟩, complete⟩ := accepted_stored wf accepts
  obtain ⟨-, -, phrase, room⟩ := accepted_short wf accepts
  obtain ⟨s₀, -, -, known, accepted⟩ := accepted_postParse knowsVersion (fresh_unfinished working) accepts
  obtain ⟨-, httpVersion, headers⟩ := postParse_text s₀ (congrArg Prod.fst accepted)
  rw [accepted] at httpVersion headers
  have whole : cstr (s'.message.startLine.reasonPhrase.getD []) = s'.message.startLine.reasonPhrase.getD [] := by
    cases given : s'.message.startLine.reasonPhrase with
    | none => rfl
    | some text => exact (stored text given).cstr_text
  constructor
  · rintro ⟨text, atOnce, -⟩
    obtain ⟨version, reason, line, rfl, small⟩ := (HttpResponseFormatter.atOnce_iff complete stored).mp atOnce
    have same := line.reason_eq.trans whole
    rw [same, headText_length (versionName_ok line.version)] at small
    exact ⟨line.statusCode.1, same ▸ line.some, small⟩
  · rintro ⟨least, some, small⟩
    obtain ⟨version, named⟩ : ∃ version, HttpMessageFormatter.versionName s'.message.httpVersion = .ok version := by
      rw [httpVersion]
      rcases known with new | old
      · exact ⟨_, by rw [new]; rfl⟩
      · exact ⟨_, by rw [old]; rfl⟩
    obtain ⟨reason, given⟩ : ∃ reason, s'.message.startLine.reasonPhrase = Option.some reason := by
      cases given : s'.message.startLine.reasonPhrase with
      | none => rw [given] at some; exact absurd rfl some
      | some reason => exact ⟨reason, rfl⟩
    have line : IsStatusLine s'.message version reason :=
      ⟨named, ⟨least, by omega⟩, by rw [whole, given]; rfl, by rwa [given] at some⟩
    have length : (headText s'.message version (s'.message.startLine.reasonPhrase.getD [])).length =
        headLength s'.message := headText_length (versionName_ok named)
    rw [given] at length
    refine ⟨headText s'.message version reason, ?_, ?_⟩
    · exact (HttpResponseFormatter.atOnce_iff complete stored).mpr
        ⟨version, reason, line, rfl, length.trans_lt small⟩
    · exact headText_readsAs (congrArg Prod.fst accepted) headers.symm line given (stored reason given) complete
        (phrase reason given) room

/-- Folded text and an empty value: what is formatted has other octets than what was parsed, and says the same. -/
theorem reads_back_folded :
    ReadsBack 64 (readHead "HTTP/1.0 404 Not \r\n Found\r\nX:\r\nY: a\r\n\t b\r\n\r\n").message :=
  (reads_back_iff (Buffer.create_wf (show 64 < 2 ^ 32 by decide)) (accepts_at_once (by decide +kernel))).mpr
    (by decide +kernel)

/-- A response without a reason phrase and one whose status code begins with a zero are accepted; neither can
be formatted, whatever the buffer. -/
theorem accepted_not_formatted :
    let bare := parseHeaders (fresh (Buffer.create 64)) ((Buffer.create 128).fill (octets "HTTP/1.1 200 \r\n\r\n"))
    let low := parseHeaders (fresh (Buffer.create 64)) ((Buffer.create 128).fill (octets "HTTP/1.1 099 x\r\n\r\n"))
    (bare.code = .success ∧ ¬ ReadsBack 64 bare.state.message ∧
      (HttpResponseFormatter.formatHeaders bare.state.message HttpResponseFormatter.fresh (Buffer.create 128)).code =
        .badReasonPhrase) ∧
    (low.code = .success ∧ ¬ ReadsBack 64 low.state.message ∧
      (HttpResponseFormatter.formatHeaders low.state.message HttpResponseFormatter.fresh (Buffer.create 128)).code =
        .badStatusCode) := by
  intro bare low
  have first : bare.state.message.startLine = { statusCode := 200, reasonPhrase := some [] } ∧
      bare.state.message.headers = [] := by decide +kernel
  have second : low.state.message.startLine = { statusCode := 99, reasonPhrase := some (octets "x") } ∧
      low.state.message.headers = [] := by decide +kernel
  have plain {response : HttpResponse} (headers : response.headers = []) :
      ∀ header ∈ response.headers, HeaderStored header := by
    rw [headers]
    rintro header ⟨⟩
  refine ⟨⟨by decide +kernel, ?_, by decide +kernel⟩, by decide +kernel, ?_, by decide +kernel⟩
  · rintro ⟨text, atOnce, -⟩
    have stored : ∀ reason ∈ bare.state.message.startLine.reasonPhrase, Stored isText reason := by
      rw [first.1]
      rintro reason ⟨⟩
      exact ⟨rfl, rfl⟩
    obtain ⟨_, _, line, -⟩ := (HttpResponseFormatter.atOnce_iff (plain first.2) stored).mp atOnce
    exact line.some (line.reason_eq.trans (by rw [first.1]; rfl))
  · rintro ⟨text, atOnce, -⟩
    have stored : ∀ reason ∈ low.state.message.startLine.reasonPhrase, Stored isText reason := by
      rw [second.1]
      rintro reason ⟨⟩
      exact ⟨by decide +kernel, by decide +kernel⟩
    obtain ⟨_, _, line, -⟩ := (HttpResponseFormatter.atOnce_iff (plain second.2) stored).mp atOnce
    have least := line.statusCode.1
    rw [second.1] at least
    exact absurd least (by decide)

end head

end HttpResponseParser

end Everscale
