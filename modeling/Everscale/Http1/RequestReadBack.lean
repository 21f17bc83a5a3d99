/-
# Everscale.Http1.RequestReadBack -- parsing a request that was formatted

A request that was parsed and is formatted again is parsed to an equal request, exactly where its target
survives being written (`Survives`): an empty query is not written, which makes it a missing one, and of an
opaque target what stands in front of a NUL is written and then loses the white space at its end.
-/
import Everscale.Http1.TargetReadBack
import Everscale.Http1.CleanHead

namespace Everscale

set_option autoImplicit false

open Theory HttpUtil

namespace HttpRequestParser

open HttpRequestUriParser (WellRead Takes InFront SchemeFits readAgain Compare_readAgain_iff)
open HttpRequestUriFormatter (targetText)
open HttpRequestFormatter (Writable headText writesAtOnce_iff)
open HttpMessageParser (versionOn versionOn_named scan_tokens noMoreOn LineReads parseHeaders_reads parseHeaders_refuses
  HeaderStored HeaderShort AcceptsOctets postParse postParse_text accepted_postParse)

/-! ## Request lines -/

section line

variable {size : Nat} {method version : List Octet} {httpVersion : Nat} {uri : HttpRequestUri}

theorem methodOn_tokens {s : Scratch RequestLine} (holds : Holds s.working [] 0) (tokens : method.all isToken = true)
    (room : method.length < s.working.capacity) (rest : List Octet) :
    ∃ working, working.WF ∧ working.capacity = s.working.capacity ∧
      methodOn s (method ++ SP :: rest) = ⟨.success, setMethod { s with working } method, rest⟩ := by
  have visible : method.all isVisible = true :=
    List.all_eq_true.mpr fun c inside => token_visible (List.all_eq_true.mp tokens c inside)
  have takes (s : Scratch RequestLine) (c : Octet) (token : isToken c = true) : methodOctet s c = .keep (s.put c) := by
    rw [methodOctet, if_neg (by rw [(visible_ne (token_visible token)).2.2.2]; decide), if_pos token]
  obtain ⟨working, gathered, same, read⟩ :=
    scan_tokens noMoreOn takes holds tokens (by simpa using room.le) (SP :: rest)
  rw [List.nil_append] at gathered
  have writable : Scratch.workingFull { s with working } = none := by
    rw [Scratch.workingFull, if_pos (gathered.isWritable.mpr (same ▸ room))]
  refine ⟨working, gathered.wf, same, ?_⟩
  rw [methodOn, read, scan, writable]
  dsimp only
  rw [methodOctet, if_pos (by decide), gathered.duplicate, rdropWhile_visible visible]

theorem versionOn_end (named : HttpMessageFormatter.versionName httpVersion = .ok version) (s : Scratch RequestLine)
    (rest : List Octet) : versionOn false s (version ++ CR :: LF :: rest) =
      ⟨.success, { s with message := { s.message with httpVersion } }, rest⟩ := by
  rw [versionOn_named named false s (by simp [HttpMessageParser.versionLength])]
  rfl

/-- The parser in front of the target. -/
structure PastMethod (method : List Octet) (s s' : RequestLineParse) : Prop where
  turn : s'.sub.requestState = .requestUri
  initial : s'.sub.uriState = .initial
  holds : Holds s'.working [] 0
  capacity : s'.working.capacity = s.working.capacity
  message : s'.message = { s.message with startLine := { s.message.startLine with method := some method } }

theorem parseStartLineOn_method {s : RequestLineParse} (initial : s.sub = {}) (wf : s.working.WF)
    (tokens : method.all isToken = true) (room : method.length < s.working.capacity) (rest : List Octet) :
    ∃ s', PastMethod method s s' ∧ parseStartLineOn s (method ++ SP :: rest) = lineFromUriOn s' rest := by
  have first : s.sub.requestState = .initial := by rw [initial]
  let s₁ : RequestLineParse := enter .method s
  have cleared : s₁.working.capacity = s.working.capacity := Buffer.clear_capacity s.working
  obtain ⟨working, wf', same, read⟩ :=
    methodOn_tokens (s := s₁.toScratch) (.clear wf) tokens (room.trans_eq cleared.symm) rest
  refine ⟨enter .requestUri { s₁ with toScratch := setMethod { s₁.toScratch with working } method }, ?_, ?_⟩
  · exact ⟨rfl, congrArg RequestSub.uriState initial, .clear wf',
      (Buffer.clear_capacity working).trans (same.trans cleared), rfl⟩
  · rw [parseStartLineOn, if_neg (by rw [first]; decide), if_pos first, lineFromMethodOn,
      if_pos (show s₁.sub.requestState = .method from rfl), stage, onScratchOn, Theory.Parser.on, read]
    exact if_pos rfl

theorem lineFromUriOn_reads {s : RequestLineParse} {u rest : List Octet}
    (turn : s.sub.requestState = .requestUri)
    (takes : Takes size uri (version ++ CR :: LF :: rest) (HttpRequestUriParser.parseOn (getUri s) u))
    (named : HttpMessageFormatter.versionName httpVersion = .ok version) :
    ∃ s', lineFromUriOn s u = ⟨.success, s', rest⟩ ∧ s'.working.WF ∧ s'.working.capacity = size ∧
      s'.message = { s.message with httpVersion, startLine := { s.message.startLine with requestUri := uri } } := by
  obtain ⟨code, requestUri, input, wf, capacity⟩ := takes
  let s₁ : RequestLineParse := enter .httpVersion (setUri s (HttpRequestUriParser.parseOn (getUri s) u).state)
  have read : lineFromUriOn s u = lineFromVersionOn s₁ (version ++ CR :: LF :: rest) := by
    rw [lineFromUriOn, if_pos turn, stage, onUriOn, Theory.Parser.on, if_pos code, input]
  have ends := versionOn_end named s₁.toScratch rest
  refine ⟨enter .parseComplete
    { s₁ with toScratch := { s₁.toScratch with message := { s₁.message with httpVersion } } }, ?_, ?_, ?_, ?_⟩
  · rw [read, lineFromVersionOn, if_pos (show s₁.sub.requestState = .httpVersion from rfl), stage, onScratchOn,
      Theory.Parser.on, ends]
    exact if_pos rfl
  · exact Buffer.clear_wf (Buffer.clear_wf wf)
  · exact (Buffer.clear_capacity _).trans ((Buffer.clear_capacity _).trans capacity)
  · have uri' : s₁.message = { s.message with startLine := { s.message.startLine with requestUri := uri } } := by
      rw [← requestUri]
      rfl
    rw [enter, uri']

/-- The text of a request line. -/
def lineText (method : List Octet) (uri : HttpRequestUri) (version : List Octet) : List Octet :=
  method ++ SP :: targetText uri ++ SP :: version

variable {working : Buffer}

/-- In front of the target of a whole line. -/
theorem line_pastMethod (wf : working.WF) (tokens : method.all isToken = true) (room : method.length < working.capacity)
    (rest : List Octet) : ∃ s : RequestLineParse, s.sub.requestState = .requestUri ∧ s.sub.uriState = .initial ∧
      InFront working.capacity {} (getUri s) ∧
      s.message = { HttpRequest.fresh with startLine := { method := some method } } ∧
      parseStartLineOn (HttpMessageParser.enter .startLine (fresh working)).toStartLineParse
        (method ++ SP :: rest) = lineFromUriOn s rest := by
  let s : RequestLineParse := (HttpMessageParser.enter .startLine (fresh working)).toStartLineParse
  have cleared : s.working.capacity = working.capacity := Buffer.clear_capacity working
  obtain ⟨s', past, read⟩ := parseStartLineOn_method (s := s) rfl (Buffer.clear_wf wf) tokens
    (room.trans_eq cleared.symm) rest
  refine ⟨s', past.turn, past.initial, ⟨past.holds, past.capacity.trans cleared, ?_⟩, past.message, read⟩
  rw [getUri, past.message]
  rfl

/-- A request line is read as its target is. -/
theorem requestLine_reads (wf : working.WF) (tokens : method.all isToken = true) (some' : method ≠ [])
    (room : method.length < working.capacity) (well : WellRead working.capacity uri)
    (fits : SchemeFits working.capacity uri)
    (named : HttpMessageFormatter.versionName httpVersion = .ok version) :
    LineReads stream (fresh working) (lineText method uri version)
      { HttpRequest.fresh with httpVersion, startLine := { method := some method, requestUri := readAgain uri } } := by
  intro c rest _
  have two : 2 ≤ working.capacity := by
    have := List.length_pos_iff.mpr some'
    omega
  obtain ⟨s, turn, initial, stands, message, read⟩ :=
    line_pastMethod wf tokens room (targetText uri ++ SP :: (version ++ CR :: LF :: c :: rest))
  have takes := well.reads two fits (s := getUri s) initial stands (version ++ CR :: LF :: c :: rest)
  obtain ⟨s', reads, wf', capacity, same⟩ := lineFromUriOn_reads turn takes named
  refine ⟨s', ?_, wf', capacity, by rw [same, message]⟩
  rw [lineText, List.append_assoc, List.append_assoc, List.cons_append, List.cons_append]
  exact read.trans reads

/-- A request line is refused where there is no room for the scheme that is written. -/
theorem requestLine_refused (wf : working.WF) (tokens : method.all isToken = true)
    (room : method.length < working.capacity) (well : WellRead working.capacity uri)
    (tight : ¬ SchemeFits working.capacity uri) (rest : List Octet) :
    (parseStartLineOn (HttpMessageParser.enter .startLine (fresh working)).toStartLineParse
      (lineText method uri version ++ rest)).code ≠ .success := by
  obtain ⟨s, turn, initial, stands, -, read⟩ :=
    line_pastMethod wf tokens room (targetText uri ++ SP :: (version ++ rest))
  have refused := well.refuses tight (s := getUri s) initial stands (version ++ rest)
  rw [lineText, List.append_assoc, List.append_assoc, List.cons_append, List.cons_append, read, lineFromUriOn,
    if_pos turn, stage, onUriOn, Theory.Parser.on, if_neg refused]
  exact refused

end line

/-! ## Whole heads -/

/-- Two heads say the same; their targets are equal for `Compare`. -/
structure SameHead (request request' : HttpRequest) : Prop where
  method : request'.startLine.method = request.startLine.method
  requestUri : HttpRequestUri.Compare request'.startLine.requestUri request.startLine.requestUri = 0
  httpVersion : request'.httpVersion = request.httpVersion
  headers : request'.headers = request.headers

/-- The parser reads this text as the request, whatever stands behind it, with a working buffer of this
capacity or more. -/
def ReadsAs (capacity : Nat) (text : List Octet) (request : HttpRequest) : Prop :=
  ∀ working b : Buffer, working.WF → capacity ≤ working.capacity → b.WF → ∀ more, b.unread = text ++ more →
    let read := parseHeaders (fresh working) b
    read.code = .success ∧ SameHead request read.state.message ∧ read.input.unread = more

/-- The request can be formatted, and what was formatted is read as the request. -/
def ReadsBack (capacity : Nat) (request : HttpRequest) : Prop :=
  ∃ text, WritesAtOnce (HttpRequestFormatter.formatHeaders request) HttpRequestFormatter.fresh text ∧
    ReadsAs capacity text request

/-- Nothing that `Compare` sees is lost when the target is written, and there is room for its scheme. -/
structure Survives (size : Nat) (uri : HttpRequestUri) : Prop where
  other : uri.type = .other → endsSpaced (cstr (uri.other.getD [])) = false
  query : uri.type = .http ∨ uri.type = .https → uri.query ≠ some []
  scheme : SchemeFits size uri

/-- The length of a head; all versions have the same. -/
def headLength (request : HttpRequest) : Nat :=
  (headText request (request.startLine.method.getD []) (octets "HTTP/1.1")).length

section head

variable {request : HttpRequest} {method version : List Octet} {working : Buffer}

/-- No white space is skipped in front of a request line. -/
theorem lineText_front (tokens : method.all isToken = true) (some : method ≠ []) (uri : HttpRequestUri)
    (version : List Octet) :
    (lineText method uri version).dropWhile isLWS = lineText method uri version ∧ lineText method uri version ≠ [] := by
  cases method with
  | nil => exact absurd rfl some
  | cons c method =>
      rw [List.all_cons, Bool.and_eq_true] at tokens
      rw [lineText, List.cons_append, List.cons_append]
      exact ⟨List.dropWhile_cons_of_neg (by rw [visible_black (token_visible tokens.1)]; decide), List.cons_ne_nil _ _⟩

theorem headText_length (line : Writable request method version) :
    (headText request method version).length = headLength request := by
  have eight : version.length = (octets "HTTP/1.1").length := by
    rcases versionName_ok line.version with rfl | rfl <;> decide +kernel
  simp only [headLength, headText, unlines_cons, List.length_append, List.length_cons, eight, line.given,
    Option.getD_some]

theorem headText_eq (request : HttpRequest) (method version : List Octet) :
    ∃ rest, headText request method version = lineText method request.startLine.requestUri version ++ rest := by
  rw [headText, unlines_cons, List.append_assoc]
  exact ⟨_, rfl⟩

theorem headText_front (line : Writable request method version) :
    (headText request method version).dropWhile isLWS = headText request method version ∧
      headText request method version ≠ [] := by
  obtain ⟨rest, shape⟩ := headText_eq request method version
  obtain ⟨front, some⟩ := lineText_front line.tokens line.nonempty request.startLine.requestUri version
  rw [shape, dropWhile_append_of_some (by rwa [front]), front]
  exact ⟨rfl, by simp [some]⟩

/-- What is read of a head that was accepted once and has been written. -/
theorem headText_reads {s₀ : HttpRequestParser} (accepted : (postParse methods s₀).1 = .success)
    (headers : s₀.message.headers = request.headers) (line : Writable request method version) (wf : working.WF)
    (room : method.length < working.capacity) (well : WellRead working.capacity request.startLine.requestUri)
    (fits : SchemeFits working.capacity request.startLine.requestUri)
    (complete : ∀ header ∈ request.headers, HeaderStored header)
    (short : ∀ header ∈ request.headers, HeaderShort working.capacity header) {b : Buffer} (wf' : b.WF)
    {more : List Octet} (unread : b.unread = headText request method version ++ more) :
    let read := parseHeaders (fresh working) b
    read.code = .success ∧
      read.state.message.startLine =
        { method := some method, requestUri := readAgain request.startLine.requestUri } ∧
      read.state.message.httpVersion = request.httpVersion ∧ read.state.message.headers = request.headers ∧
      read.input.unread = more :=
  parseHeaders_reads stream rfl (lineText_front line.tokens line.nonempty _ _).1
    (lineText_front line.tokens line.nonempty _ _).2
    (requestLine_reads wf line.tokens line.nonempty room well fits line.version) rfl complete short accepted headers
    wf' unread

theorem exists_unread {text : List Octet} (small : text.length < 2 ^ 32) : ∃ b : Buffer, b.WF ∧ b.unread = text := by
  have empty := Buffer.create_wf small
  have room : text.length ≤ (Buffer.create text.length).writable := by
    rw [(Holds.create small).writable, Buffer.create_capacity]
    exact Nat.le_refl _
  exact ⟨_, Buffer.fill_wf empty room, by rw [Buffer.fill_unread empty, Buffer.create_unread, List.nil_append]⟩

/-- **An accepted request can be formatted and is read from what was formatted as an equal request, exactly when its
target survives**, if a buffer can hold the head at all. -/
theorem reads_equal_iff (wf : working.WF) {u : List Octet} {s' : HttpRequestParser}
    (accepts : AcceptsOctets stream (fresh working) u s') :
    ReadsBack working.capacity s'.message ↔
      Survives working.capacity s'.message.startLine.requestUri ∧ headLength s'.message < 2 ^ 32 := by
  have complete := (accepted_stored wf accepts.accepts).headers
  have short := (accepted_short wf accepts.accepts).headers
  obtain ⟨⟨method, given, some, tokens, room⟩, well⟩ := accepted_wellRead wf accepts
  obtain ⟨s₀, -, -, known, accepted⟩ := accepted_postParse knowsVersion (fresh_unfinished working) accepts.accepts
  obtain ⟨-, httpVersion, headers⟩ := postParse_text s₀ (congrArg Prod.fst accepted)
  rw [accepted] at httpVersion headers
  obtain ⟨version, named⟩ : ∃ version, HttpMessageFormatter.versionName s'.message.httpVersion = .ok version := by
    rw [httpVersion]
    rcases known with new | old
    · exact ⟨_, by rw [new]; rfl⟩
    · exact ⟨_, by rw [old]; rfl⟩
  have line : Writable s'.message method version := ⟨given, some, tokens, well.spells, named⟩
  constructor
  · rintro ⟨text, atOnce, reads⟩
    obtain ⟨rfl, small⟩ := (writesAtOnce_iff complete line).mp atOnce
    obtain ⟨b, wf', unread⟩ := exists_unread small
    have whole : b.unread = headText s'.message method version ++ [] := by rw [unread, List.append_nil]
    obtain ⟨code, same, -⟩ := reads working b wf (Nat.le_refl _) wf' [] whole
    have fits : SchemeFits working.capacity s'.message.startLine.requestUri := by
      by_contra tight
      obtain ⟨front, nonempty⟩ := headText_front line
      refine parseHeaders_refuses stream rfl front nonempty ?_ wf' unread code
      obtain ⟨rest, shape⟩ := headText_eq s'.message method version
      rw [shape]
      exact requestLine_refused wf tokens room well tight rest
    obtain ⟨-, startLine, -⟩ := headText_reads (congrArg Prod.fst accepted) headers.symm line wf room well fits
      complete short wf' whole
    have compared := same.requestUri
    rw [startLine] at compared
    obtain ⟨other, query⟩ := (Compare_readAgain_iff _).mp compared
    exact ⟨⟨other, query, fits⟩, headText_length line ▸ small⟩
  · rintro ⟨⟨other, query, fits⟩, small⟩
    refine ⟨headText s'.message method version,
      (writesAtOnce_iff complete line).mpr ⟨rfl, (headText_length line).trans_lt small⟩, ?_⟩
    intro working' b wf₁ large wf' more unread
    obtain ⟨code, startLine, version', same, rest⟩ := headText_reads (congrArg Prod.fst accepted) headers.symm line wf₁
      (room.trans_le large) (well.mono large) (fun type hosted => (fits type hosted).trans_le large) complete
      (fun header inside => (short header inside).mono large) wf' unread
    refine ⟨code, ⟨by rw [startLine, given], ?_, version', same⟩, rest⟩
    rw [startLine]
    exact (Compare_readAgain_iff _).mpr ⟨other, query⟩

/-- All shapes of targets, a default port and another, an empty fragment, and a scheme that is completed. -/
theorem reads_equal_for_five :
    ReadsBack 64 (readHead "OPTIONS * HTTP/1.1\r\n\r\n").message ∧
      ReadsBack 64 (readHead "GET /a%20b;c?q#f HTTP/1.0\r\nA: b\r\n c\r\n\r\n").message ∧
      ReadsBack 64 (readHead "GET ht:/Host:80?q# HTTP/1.1\r\n\r\n").message ∧
      ReadsBack 64 (readHead "GET https://a.b:8443 HTTP/1.1\r\nX:\r\n\r\n").message ∧
      ReadsBack 64 (readHead "GET urn:x-y?z HTTP/1.1\r\n\r\n").message := by
  have wf := Buffer.create_wf (show 64 < 2 ^ 32 by decide)
  refine ⟨?_, ?_, ?_, ?_, ?_⟩ <;>
    exact (reads_equal_iff wf (acceptsOctets_at_once (by decide +kernel) (by decide +kernel))).mpr
      ⟨⟨by decide +kernel, by decide +kernel, by decide +kernel⟩, by decide +kernel⟩

/-- A request is not read back, if what is written of it is another one for `Compare`. -/
theorem not_readsBack {request : HttpRequest} (head : String)
    (written : remaining (HttpRequestFormatter.headElements request) = octets head)
    (fits : (octets head).length ≤ 128)
    (differs : HttpRequestUri.Compare (readHead head).message.startLine.requestUri request.startLine.requestUri ≠ 0) :
    ¬ ReadsBack 64 request := by
  rintro ⟨text, atOnce, reads⟩
  have emits := HttpMessageFormatter.formatHeaders_emits _ _ _ (HttpRequestFormatter.elements_fresh request)
  have same := (spells_eq_remaining (spells_of_atOnce emits atOnce).1).trans written
  obtain ⟨wf, unread⟩ := filled fits
  have read := reads (Buffer.create 64) ((Buffer.create 128).fill (octets head)) (Buffer.create_wf (by decide))
    (by rw [Buffer.create_capacity]) wf [] (by rw [unread, same, List.append_nil])
  exact differs read.2.1.requestUri

/-- An empty query is written as none, and of an opaque target with a NUL the line feed in front of it is lost. -/
theorem equality_lost :
    let asked := parseHeaders (fresh (Buffer.create 64)) ((Buffer.create 128).fill (octets "GET /? HTTP/1.1\r\n\r\n"))
    let broken := parseHeaders (fresh (Buffer.create 64))
      ((Buffer.create 128).fill (octets "GET x:a\n\x00b HTTP/1.1\r\n\r\n"))
    (asked.code = .success ∧ asked.state.message.startLine.requestUri.query = some [] ∧
      ¬ ReadsBack 64 asked.state.message) ∧
    (broken.code = .success ∧ broken.state.message.startLine.requestUri.other = some (octets "x:a\n\x00b") ∧
      ¬ ReadsBack 64 broken.state.message) := by
  refine ⟨⟨by decide +kernel, by decide +kernel, ?_⟩, by decide +kernel, by decide +kernel, ?_⟩
  · exact not_readsBack "GET / HTTP/1.1\r\n\r\n" (by decide +kernel) (by decide +kernel) (by decide +kernel)
  · exact not_readsBack "GET x:a\n HTTP/1.1\r\n\r\n" (by decide +kernel) (by decide +kernel) (by decide +kernel)

end head

end HttpRequestParser

end Everscale
