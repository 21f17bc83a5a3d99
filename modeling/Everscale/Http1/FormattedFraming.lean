/-
# Everscale.Http1.FormattedFraming -- what a formatted head says of its body

The parser settles where a body ends, the headers are copied, and the formatter writes all of
them.  `headersRead` is what the next hop finds in the octets: a first line of at least three words, and
the headers up to the empty line.  Of these Content-Length states a length, and a Transfer-Encoding
other than `identity` the chunked coding (`rulesOf`).

The head states the one rule that the parser went by exactly for the heads of `RuleKept`: a
Content-Length that was ignored beside another Transfer-Encoding is passed on with it, and a
Transfer-Encoding is told from `identity` by its first eight octets.  A line break inside an opaque target
makes header lines of what is behind it.
-/
import Everscale.Http1.FormattedHead

namespace Everscale

set_option autoImplicit false

open Theory HttpUtil
open HttpMessageParser (HeaderStored LengthsRead Accepts accepts_at_once accepted_frames)

/-! ## Reading a head -/

/-- The headers of a head, if its first line has three words. -/
def headersRead (text : List Octet) : Option (List HttpHeader) :=
  match splitLines CR LF text with
  | [] => none
  | line :: lines =>
      if 2 ≤ line.count SP then some ((lines.takeWhile fun line => !line.isEmpty).map readHeader) else none

section read

variable {line : List Octet} {headers : List HttpHeader}

theorem headerLines_plain (stored : ∀ header ∈ headers, HeaderStored header) :
    ∀ line ∈ headers.map headerLine, LF ∉ line := by
  intro line inside feed
  obtain ⟨header, member, rfl⟩ := List.mem_map.mp inside
  exact ((stored header member).line_plain.2 LF feed).2 rfl

theorem splitLines_head_text (stored : ∀ header ∈ headers, HeaderStored header) :
    splitLines CR LF (unlines CR LF (line :: headers.map headerLine) ++ CRLF) =
      splitLines CR LF line ++ (headers.map headerLine ++ [[], []]) := by
  have behind : splitLines CR LF CRLF = [[], []] := by decide
  rw [unlines_cons, List.append_assoc, List.cons_append, List.cons_append, splitLines_append (by decide),
    splitLines_unlines (by decide) CRLF _ (headerLines_plain stored), behind]

/-- Behind a first line that is one line, the headers are found as they were stored. -/
theorem headersRead_whole (stored : ∀ header ∈ headers, HeaderStored header) (one : splitLines CR LF line = [line])
    (words : 2 ≤ line.count SP) :
    headersRead (unlines CR LF (line :: headers.map headerLine) ++ CRLF) = some headers := by
  have some : ∀ text ∈ headers.map headerLine, (!text.isEmpty) = true := by
    intro text inside
    obtain ⟨header, member, rfl⟩ := List.mem_map.mp inside
    rw [Bool.not_eq_true', List.isEmpty_eq_false_iff]
    exact (stored header member).line_plain.1
  have read : (headers.map headerLine).map readHeader = headers := by
    rw [List.map_map]
    exact (List.map_congr_left fun header inside => (stored header inside).readHeader_line).trans (List.map_id headers)
  rw [headersRead, splitLines_head_text stored, one, List.singleton_append]
  dsimp only
  rw [if_pos words, List.takeWhile_append_of_pos some, List.takeWhile_cons_of_neg (by decide), List.append_nil, read]

/-- A first line that is broken before its third word is none. -/
theorem headersRead_broken (stored : ∀ header ∈ headers, HeaderStored header) (front back : List Octet)
    (broken : line = front ++ CR :: LF :: back) (words : front.count SP < 2) :
    headersRead (unlines CR LF (line :: headers.map headerLine) ++ CRLF) = none := by
  rw [headersRead, splitLines_head_text stored, broken, splitLines_append (by decide)]
  cases split : splitLines CR LF front with
  | nil => exact absurd split (splitLines_ne_nil front)
  | cons first lines =>
      have fewer := (splitLines_head split).sublist.count_le SP
      exact if_neg (by omega)

end read

/-! ## The rules that headers state -/

/-- The rule that a Content-Length states, if it is a number. -/
def lengthRule (value : List Octet) : Option Framing :=
  if cstr value ≠ [] ∧ (cstr value).all isDigit then some (.length (decimal (cstr value))) else none

theorem lengthRule_ne_chunked (value : List Octet) : lengthRule value ≠ some .chunked := by
  rw [lengthRule]
  split_ifs <;> simp

/-- The rules that the headers state, one for each Content-Length and one for the Transfer-Encodings. -/
def rulesOf (headers : List HttpHeader) : List (Option Framing) :=
  (if nonIdentity headers then [some .chunked] else []) ++ (valuesOf "Content-Length" headers).map lengthRule

/-- The text is a head that states one rule, and it is this one. -/
def StatesOnly (text : List Octet) (framing : Framing) : Prop :=
  ∃ headers, headersRead text = some headers ∧ rulesOf headers ≠ [] ∧ ∀ rule ∈ rulesOf headers, rule = some framing

/-- A head that states one rule has not both headers. -/
theorem StatesOnly.not_both {text : List Octet} {framing : Framing} (h : StatesOnly text framing) :
    ∃ headers, headersRead text = some headers ∧
      ¬ (nonIdentity headers = true ∧ valuesOf "Content-Length" headers ≠ []) := by
  obtain ⟨headers, read, -, only⟩ := h
  refine ⟨headers, read, fun ⟨other, present⟩ => ?_⟩
  obtain ⟨value, member⟩ := List.exists_mem_of_ne_nil _ present
  have coded := only (some .chunked) (by rw [rulesOf, if_pos other]; exact List.mem_cons_self)
  have long := only (lengthRule value) (List.mem_append_right _ (List.mem_map_of_mem member))
  exact lengthRule_ne_chunked value (long.trans coded.symm)

/-- The headers state one rule, and the parser goes by it: a Transfer-Encoding other than `identity` that
is taken for chunked, without a length; or one number below `2 ^ 64`, however often, where no
Transfer-Encoding is taken for chunked. -/
def RuleKept (headers : List HttpHeader) : Prop :=
  if nonIdentity headers then takenForChunked headers = true ∧ valuesOf "Content-Length" headers = []
  else takenForChunked headers = false ∧ valuesOf "Content-Length" headers ≠ [] ∧
    (∀ value ∈ valuesOf "Content-Length" headers, cstr value ≠ []) ∧ LengthsAgree headers

instance (headers : List HttpHeader) : Decidable (RuleKept headers) :=
  inferInstanceAs (Decidable (if nonIdentity headers then _ ∧ _ else _ ∧ _ ∧ _ ∧ LengthsAgree headers))

theorem lengthRule_read {value : List Octet} (some' : cstr value ≠ []) (digits : (cstr value).all isDigit = true) :
    lengthRule value = some (.length (decimal (cstr value))) := if_pos ⟨some', digits⟩

theorem rulesOf_iff {headers : List HttpHeader} (read : LengthsRead headers) (bodyNotAllowed : Bool) :
    (rulesOf headers ≠ [] ∧ ∀ rule ∈ rulesOf headers, rule = some (chosenFraming headers bodyNotAllowed)) ↔
      RuleKept headers := by
  have digits : ∀ value ∈ valuesOf "Content-Length" headers, (cstr value).all isDigit = true := fun value inside =>
    (ParseInteger_spec value).1.mp (read value inside)
  unfold RuleKept rulesOf
  by_cases other : nonIdentity headers = true
  · rw [if_pos other, if_pos other]
    constructor
    · rintro ⟨-, only⟩
      have coded := only _ (List.mem_append_left _ List.mem_cons_self)
      refine ⟨chosenFraming_chunked.mp (Option.some.inj coded).symm, ?_⟩
      by_contra present
      obtain ⟨value, member⟩ := List.exists_mem_of_ne_nil _ present
      have long := only _ (List.mem_append_right _ (List.mem_map_of_mem member))
      exact lengthRule_ne_chunked value (long.trans coded.symm)
    · rintro ⟨taken, absent⟩
      rw [chosenFraming_taken taken, absent]
      simp
  rw [if_neg other, if_neg other, List.nil_append]
  constructor
  · rintro ⟨some', only⟩
    have present : valuesOf "Content-Length" headers ≠ [] := fun absent => some' (by rw [absent]; rfl)
    have each : ∀ value ∈ valuesOf "Content-Length" headers, cstr value ≠ [] ∧
        chosenFraming headers bodyNotAllowed = .length (decimal (cstr value)) := by
      intro value inside
      have rule := only _ (List.mem_map_of_mem inside)
      rw [lengthRule] at rule
      split_ifs at rule with number
      exact ⟨number.1, (Option.some.inj rule).symm⟩
    have plain : takenForChunked headers = false := by
      obtain ⟨value, member⟩ := List.exists_mem_of_ne_nil _ present
      by_contra taken
      rw [Bool.not_eq_false] at taken
      exact nomatch (chosenFraming_taken taken).symm.trans (each value member).2
    exact ⟨plain, present, fun value inside => (each value inside).1,
      (lengthExact_iff plain present bodyNotAllowed).mp fun value inside => (each value inside).2⟩
  · rintro ⟨plain, present, some', agree⟩
    have exactly := (lengthExact_iff plain present bodyNotAllowed).mpr agree
    refine ⟨fun absent => present (List.map_eq_nil_iff.mp absent), fun rule inside => ?_⟩
    obtain ⟨value, member, rfl⟩ := List.mem_map.mp inside
    rw [lengthRule_read (some' value member) (digits value member), exactly value member]

/-! ## Heads that are passed on -/

/-- An opaque target holds no line break. -/
def Unbroken (uri : HttpRequestUri) : Prop := uri.type = .other → ¬ [CR, LF] <:+: cstr (uri.other.getD [])

instance (uri : HttpRequestUri) : Decidable (Unbroken uri) := inferInstanceAs (Decidable (_ → _))

theorem count_SP_eq_zero {text : List Octet} (unspaced : ∀ c ∈ text, isSpace c = false) : text.count SP = 0 :=
  List.count_eq_zero.mpr fun inside => absurd (unspaced SP inside) (by decide)

theorem version_plain {version : List Octet} (is : IsVersion version) : SP ∉ version ∧ LF ∉ version := by
  rcases is with rfl | rfl <;> decide

section lines

variable {method target version : List Octet} {request : HttpRequest}

/-- A request line has three words. -/
theorem requestLine_words (tokens : method.all isToken = true) (unspaced : ∀ c ∈ target, isSpace c = false)
    (is : IsVersion version) : (method ++ SP :: target ++ SP :: version).count SP = 2 := by
  have word : method.count SP = 0 := count_SP_eq_zero fun c inside =>
    (visible_ne (token_visible (List.all_eq_true.mp tokens c inside))).2.2.2
  have last : version.count SP = 0 := List.count_eq_zero.mpr (version_plain is).1
  simp [List.count_append, word, last, count_SP_eq_zero unspaced]

/-- A request line is broken in its target, if at all. -/
theorem broken_target (tokens : method.all isToken = true) (is : IsVersion version)
    (marked : [CR, LF] <:+: method ++ SP :: target ++ SP :: version) : [CR, LF] <:+: target := by
  have plain : LF ∉ method := fun inside =>
    (visible_ne (token_visible (List.all_eq_true.mp tokens LF inside))).2.1 rfl
  have feeds {text : List Octet} (inside : [CR, LF] <:+: text) : LF ∈ text := inside.subset (by decide)
  have across : SP ≠ CR ∧ SP ≠ LF := by decide
  rw [List.append_assoc, List.cons_append] at marked
  rcases marked_append_cons across marked with inside | later
  · exact absurd (feeds inside) plain
  rcases marked_append_cons across later with inside | later
  · exact inside
  · exact absurd (feeds later) (version_plain is).2

/-- A request is read as it was stored, unless its target breaks the first line. -/
theorem headersRead_request (stored : ∀ header ∈ request.headers, HeaderStored header)
    (unspaced : ∀ c ∈ target, isSpace c = false)
    (line : HttpRequestFormatter.IsRequestLine request method target version) :
    headersRead (unlines CR LF ((method ++ SP :: target ++ SP :: version) :: request.headers.map headerLine) ++ CRLF) =
      if [CR, LF] <:+: target then none else some request.headers := by
  split_ifs with broken
  · obtain ⟨front, back, rfl⟩ := broken
    refine headersRead_broken stored (method ++ SP :: front) (back ++ SP :: version) (by simp) ?_
    have word : method.count SP = 0 := count_SP_eq_zero fun c inside =>
      (visible_ne (token_visible (List.all_eq_true.mp line.tokens c inside))).2.2.2
    have piece : front.count SP = 0 := count_SP_eq_zero fun c inside => unspaced c (by simp [inside])
    simp [List.count_append, word, piece]
  · refine headersRead_whole stored ?_ (requestLine_words line.tokens unspaced line.version).ge
    exact (splitLines_eq_singleton_iff (by decide)).mpr (mt (broken_target line.tokens line.version) broken)

/-- A response is read as it was stored. -/
theorem headersRead_response {response : HttpResponse} {reason : List Octet}
    (complete : ∀ header ∈ response.headers, HeaderStored header)
    (stored : ∀ reason ∈ response.startLine.reasonPhrase, Stored isText reason)
    (line : HttpResponseFormatter.IsStatusLine response version reason) :
    headersRead (HttpResponseFormatter.headText response version reason) = some response.headers := by
  have digits : LF ∉ numeral 10 response.startLine.statusCode := fun inside =>
    (visible_ne (List.all_eq_true.mp (HttpRequestUriFormatter.numeral_visible _) LF inside)).2.1 rfl
  have phrase : LF ∉ reason := by
    rw [line.reason_eq]
    intro inside
    have inside := (List.takeWhile_prefix _).subset inside
    cases some : response.startLine.reasonPhrase with
    | none => rw [some] at inside; cases inside
    | some text =>
        rw [some] at inside
        exact (spaced_unbroken (fun _ => id) (stored text (Option.mem_def.mpr some)).spaced LF inside).2.1 rfl
  have name := version_plain (versionName_ok line.version)
  refine headersRead_whole complete (splitLines_plain ?_) ?_
  · have space : ¬ LF = SP := by decide
    simp [digits, phrase, name.2, space]
  · simp [List.count_append]
    omega

end lines

/-! ## Whether the rule is kept -/

/-- The message has a Transfer-Encoding. -/
def Coded (headers : List HttpHeader) : Prop := valuesOf "Transfer-Encoding" headers ≠ []

instance (headers : List HttpHeader) : Decidable (Coded headers) := inferInstanceAs (Decidable (¬ _))

/-- **The head that is passed on states the one rule by which the body was delimited** for the heads of
`RuleKept`, and for requests whose target is not broken. -/
theorem rule_kept_iff {working : Buffer} (wf : working.WF) :
    (∀ s', Accepts HttpRequestParser.methods (HttpRequestParser.fresh working) s' → Coded s'.message.headers →
      ∀ text, WritesAtOnce (HttpRequestFormatter.formatHeaders (HttpRequest.copy .fresh s'.message))
          HttpRequestFormatter.fresh text →
        (StatesOnly text s'.framing ↔ Unbroken s'.message.startLine.requestUri ∧ RuleKept s'.message.headers)) ∧
    (∀ s', Accepts HttpResponseParser.methods (HttpResponseParser.fresh working) s' → Coded s'.message.headers →
      ∀ text, WritesAtOnce (HttpResponseFormatter.formatHeaders (HttpResponse.copy .fresh s'.message))
          HttpResponseFormatter.fresh text →
        (StatesOnly text s'.framing ↔ RuleKept s'.message.headers)) := by
  constructor
  · intro s' accepts _ text written
    obtain ⟨⟨method, uri⟩, stored⟩ := HttpRequestParser.accepted_stored wf accepts
    obtain ⟨s₀, frames, -⟩ := accepted_frames HttpRequestParser.knowsVersion
      (fun line => HttpRequestParser.isBodyNotAllowed { startLine := line }) (fun _ => rfl)
      (HttpRequestParser.fresh_unfinished working) accepts
    have copied := HttpRequest.copy_headers stored
    have complete : ∀ header ∈ (HttpRequest.copy .fresh s'.message).headers, HeaderStored header :=
      copied.symm ▸ stored
    obtain ⟨method, target, version, line, rfl⟩ := HttpRequestFormatter.request_text complete written
    have unspaced := HttpRequestUriFormatter.target_unspaced uri.copy line.target
    have broken : [CR, LF] <:+: target ↔ ¬ Unbroken s'.message.startLine.requestUri := by
      by_cases other : s'.message.startLine.requestUri.type = .other
      · have kept : target = cstr (s'.message.startLine.requestUri.other.getD []) := by
          have same : (HttpRequest.copy .fresh s'.message).startLine.requestUri.type = .other := other
          rw [HttpRequestUriFormatter.target_other same line.target]
          change cstr ((s'.message.startLine.requestUri.other.map cstr).getD []) = _
          cases s'.message.startLine.requestUri.other with
          | none => rfl
          | some name => exact cstr_cstr name
        rw [kept, Unbroken, forall_prop_of_true other, not_not]
      · refine iff_of_false (fun marked => ?_) fun broken => broken fun kind => absurd kind other
        have visible := HttpRequestUriFormatter.target_visible uri.copy.host other line.target
        exact (visible_ne (List.all_eq_true.mp visible LF (marked.subset (by decide)))).2.1 rfl
    rw [StatesOnly, headersRead_request complete unspaced line, copied, frames.framing, ← frames.headers]
    have rules := rulesOf_iff (frames.headers ▸ frames.lengthsRead)
      (HttpRequestParser.isBodyNotAllowed { startLine := s'.message.startLine })
    by_cases whole : Unbroken s'.message.startLine.requestUri
    · rw [if_neg (mt broken.mp (not_not.mpr whole)), and_iff_right whole, ← rules]
      simp
    · rw [if_pos (broken.mpr whole)]
      exact iff_of_false (fun read => nomatch read.choose_spec.1) fun both => whole both.1
  · intro s' accepts _ text written
    obtain ⟨⟨reason, -⟩, stored⟩ := HttpResponseParser.accepted_stored wf accepts
    obtain ⟨s₀, frames, -⟩ := accepted_frames HttpResponseParser.knowsVersion
      (fun line => decide (200 ≤ line.statusCode))
      (fun message => HttpResponseParser.bodyNotAllowed_iff message.startLine.statusCode)
      (HttpResponseParser.fresh_unfinished working) accepts
    have copied := HttpResponse.copy_headers stored
    have complete : ∀ header ∈ (HttpResponse.copy .fresh s'.message).headers, HeaderStored header :=
      copied.symm ▸ stored
    obtain ⟨version, phrase, line, rfl⟩ := HttpResponseFormatter.response_text complete reason written
    rw [StatesOnly, headersRead_response complete reason line, copied, frames.framing, ← frames.headers]
    have rules := rulesOf_iff (frames.headers ▸ frames.lengthsRead) (decide (200 ≤ s'.message.startLine.statusCode))
    rw [← rules]
    simp

open HttpMessageParser (accepts_at_once) in
/-- A chunked request, and a response with a length beside `identity`: both are passed on with the one
rule they came with. -/
theorem rule_kept_for_two :
    StatesOnly (octets "POST /a HTTP/1.1\r\nHost: b\r\nTransfer-Encoding: chunked\r\n\r\n")
        (HttpRequestParser.readHead "POST /a HTTP/1.1\r\nHost: b\r\nTransfer-Encoding: chunked\r\n\r\n").framing ∧
      StatesOnly (octets "HTTP/1.1 200 OK\r\nContent-Length: 5\r\nTransfer-Encoding: identity\r\n\r\n")
        (HttpResponseParser.readHead
          "HTTP/1.1 200 OK\r\nContent-Length: 5\r\nTransfer-Encoding:identity\r\n\r\n").framing :=
  have wf := Buffer.create_wf (show 64 < 2 ^ 32 by decide)
  ⟨((rule_kept_iff wf).1 _ (accepts_at_once (by decide +kernel)) (by decide +kernel) _
      ⟨256, by decide, by decide +kernel, by decide +kernel⟩).mpr (by decide +kernel),
    ((rule_kept_iff wf).2 _ (accepts_at_once (by decide +kernel)) (by decide +kernel) _
      ⟨256, by decide, by decide +kernel, by decide +kernel⟩).mpr (by decide +kernel)⟩

/-- The length that the parser ignored beside the chunked coding is passed on with it. -/
theorem ignored_length_passed_on :
    let head := "POST / HTTP/1.1\r\nContent-Length: 5\r\nTransfer-Encoding: chunked\r\n\r\n"
    let parsed := HttpRequestParser.parseHeaders (HttpRequestParser.fresh (Buffer.create 64))
      ((Buffer.create 128).fill (octets head))
    let formatted := HttpRequestFormatter.formatHeaders (HttpRequest.copy .fresh parsed.state.message)
      HttpRequestFormatter.fresh (Buffer.create 128)
    parsed.code = .success ∧ parsed.state.framing = .chunked ∧
      formatted.code = .success ∧ formatted.output.unread = octets head ∧
      ∃ headers, headersRead formatted.output.unread = some headers ∧
        nonIdentity headers = true ∧ valuesOf "Content-Length" headers = [octets "5"] := by
  decide +kernel

end Everscale
