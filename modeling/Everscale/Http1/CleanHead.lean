/-
# Everscale.Http1.CleanHead -- line breaks in what is stored and in what is passed on

No string of an accepted request holds a line break or a NUL, and every request that is made of these
strings is formatted line by line, a line for each header: `head_clean_iff` says that this depends on the target
alone.  An opaque target is kept up to the next space, whatever it holds.
-/
import Everscale.Http1.RequestTarget

namespace Everscale

set_option autoImplicit false

open Theory HttpUtil

/-- No line break and no NUL. -/
def IsClean (text : List Octet) : Prop := ∀ c ∈ text, c ≠ CR ∧ c ≠ LF ∧ c ≠ NUL

instance (text : List Octet) : Decidable (IsClean text) := inferInstanceAs (Decidable (∀ _ ∈ _, _))

theorem IsClean.of_visible {text : List Octet} (all : text.all isVisible = true) : IsClean text := fun c inside =>
  have plain := visible_ne (List.all_eq_true.mp all c inside)
  ⟨plain.1, plain.2.1, plain.2.2.1⟩

/-- The text is this many lines and an empty one, and holds no other line break. -/
def HasLines (text : List Octet) (count : Nat) : Prop :=
  ∃ lines : List (List Octet), text = unlines CR LF lines ++ CRLF ∧ lines.length = count ∧
    ∀ line ∈ lines, line ≠ [] ∧ ∀ c ∈ line, c ≠ CR ∧ c ≠ LF

namespace HttpRequestParser

open HttpRequestUriParser (UriStored admitted)
open HttpMessageParser (HeaderStored AcceptsOctets HeadStored)
open HttpRequestUriFormatter (hostLetter_visible path_visible target_visible target_other)

/-- The strings of a request. -/
def strings (request : HttpRequest) : List (List Octet) :=
  let uri := request.startLine.requestUri
  [request.startLine.method, uri.host, uri.absPath, uri.query, uri.fragment, uri.other].filterMap id ++
    request.headers.flatMap fun header => header.fieldName :: header.fieldValue.toList

/-- The component is a copy of the parser's, if there is one. -/
def Copied (own parsed : Option (List Octet)) : Prop := ∀ text ∈ own, text ∈ parsed.map cstr

/-- All strings of the request are the parser's or copies of them. -/
structure StringsFrom (parsed request : HttpRequest) : Prop where
  method : ∀ text ∈ request.startLine.method, text ∈ parsed.startLine.method
  host : Copied request.startLine.requestUri.host parsed.startLine.requestUri.host
  absPath : Copied request.startLine.requestUri.absPath parsed.startLine.requestUri.absPath
  query : Copied request.startLine.requestUri.query parsed.startLine.requestUri.query
  fragment : Copied request.startLine.requestUri.fragment parsed.startLine.requestUri.fragment
  other : Copied request.startLine.requestUri.other parsed.startLine.requestUri.other
  headers : ∀ header ∈ request.headers, header ∈ parsed.headers.map HttpMessage.copyHeader

/-- The request that the proxy passes on. -/
theorem stringsFrom_copy (parsed : HttpRequest) : StringsFrom parsed (HttpRequest.copy .fresh parsed) :=
  ⟨fun _ => id, fun _ => id, fun _ => id, fun _ => id, fun _ => id, fun _ => id, fun _ => id⟩

section clean

variable {s' : HttpRequestParser} {request : HttpRequest} {text : List Octet}

theorem headerStrings_clean {header : HttpHeader} (stored : HeaderStored header) :
    ∀ text ∈ header.fieldName :: header.fieldValue.toList, IsClean text := by
  obtain ⟨value, some, spaced⟩ := stored.value
  rw [some]
  rintro text (_ | ⟨_, _ | ⟨_, ⟨⟩⟩⟩)
  · exact .of_visible stored.name_visible
  · exact spaced.unbroken

theorem all_clean {p : Octet → Bool} (visible : ∀ c, p c = true → isVisible c = true) (all : text.all p = true) :
    IsClean text :=
  .of_visible (List.all_eq_true.mpr fun c inside => visible c (List.all_eq_true.mp all c inside))

/-- All strings of an accepted request but an opaque target are clean. -/
theorem strings_clean (stored : HeadStored LineStored s')
    (other : ∀ text ∈ s'.message.startLine.requestUri.other, IsClean text) :
    ∀ text ∈ strings s'.message, IsClean text := by
  obtain ⟨⟨method, uri⟩, headers⟩ := stored
  intro text inside
  rcases List.mem_append.mp inside with line | header
  · obtain ⟨string, member, here⟩ := List.mem_filterMap.mp line
    simp only [List.mem_cons, List.not_mem_nil, or_false] at member
    rcases member with rfl | rfl | rfl | rfl | rfl | rfl
    · exact all_clean (fun _ => token_visible) (method text here)
    · exact all_clean (fun _ => hostLetter_visible) (uri.host text here)
    · exact all_clean (fun _ => path_visible) (uri.absPath text here)
    · exact all_clean (fun _ => uric_visible) (uri.query text here)
    · exact all_clean (fun _ => uric_visible) (uri.fragment text here)
    · exact other text here
  · obtain ⟨header, member, here⟩ := List.mem_flatMap.mp header
    exact headerStrings_clean (headers header member) text here

/-- What is written of a target is clean, if the parser's opaque target is. -/
theorem target_clean (uri : UriStored s'.message.startLine.requestUri)
    (other : ∀ text ∈ s'.message.startLine.requestUri.other, IsClean text) (strings : StringsFrom s'.message request)
    (spells : Spells (HttpRequestUriFormatter.targetElements request.startLine.requestUri) text) : IsClean text := by
  by_cases kind : request.startLine.requestUri.type = .other
  · rw [target_other kind spells]
    cases own : request.startLine.requestUri.other with
    | none =>
        rintro c ⟨⟩
    | some name =>
        obtain ⟨stored, here, rfl⟩ := Option.map_eq_some_iff.mp (strings.other name own)
        intro c inside
        rw [Option.getD_some, cstr_cstr] at inside
        exact other stored here c ((List.takeWhile_prefix _).subset inside)
  · refine .of_visible (target_visible (fun name own => ?_) kind spells)
    exact all_cstr uri.host name (strings.host name own)

/-- A request that is made of clean strings is formatted line by line. -/
theorem formatted_lines (stored : HeadStored LineStored s')
    (other : ∀ text ∈ s'.message.startLine.requestUri.other, IsClean text) (strings : StringsFrom s'.message request)
    (written : WritesAtOnce (HttpRequestFormatter.formatHeaders request) HttpRequestFormatter.fresh text) :
    HasLines text (request.headers.length + 1) := by
  have headers : ∀ header ∈ request.headers, HeaderStored header := fun header inside =>
    stored.headers header (copyHeaders_eq stored.headers ▸ strings.headers header inside)
  obtain ⟨method, target, version, line, rfl⟩ := HttpRequestFormatter.request_text headers written
  have first : IsClean method := all_clean (fun _ => token_visible) line.tokens
  have second := target_clean stored.line.requestUri other strings line.target
  have third : IsClean version := .of_visible (by rcases line.version with rfl | rfl <;> decide +kernel)
  have space : SP ≠ CR ∧ SP ≠ LF := by decide
  refine ⟨_, rfl, by simp, fun whole inside => ?_⟩
  rcases List.mem_cons.mp inside with rfl | later
  · refine ⟨by simp, fun c member => ?_⟩
    simp only [List.append_assoc, List.cons_append, List.mem_append, List.mem_cons] at member
    rcases member with member | rfl | member | rfl | member
    · exact ⟨(first c member).1, (first c member).2.1⟩
    · exact space
    · exact ⟨(second c member).1, (second c member).2.1⟩
    · exact space
    · exact ⟨(third c member).1, (third c member).2.1⟩
  · obtain ⟨header, member, rfl⟩ := List.mem_map.mp later
    exact (headers header member).line_plain

/-- **No string of an accepted request holds a line break or a NUL, and what is made of the strings is formatted
line by line, exactly when the target is clean**, white space at its end apart. -/
theorem head_clean_iff {working : Buffer} (wf : working.WF) {u : List Octet} {s' : HttpRequestParser}
    (accepts : AcceptsOctets stream (fresh working) u s') :
    ((∀ text ∈ strings s'.message, IsClean text) ∧
      ∀ request, StringsFrom s'.message request →
        ∀ text, WritesAtOnce (HttpRequestFormatter.formatHeaders request) HttpRequestFormatter.fresh text →
          HasLines text (request.headers.length + 1)) ↔
      IsClean ((target u).rdropWhile Buffer.isTrimmed) := by
  have stored := accepted_stored wf accepts.accepts
  obtain ⟨whole, plain⟩ := accepted_target wf accepts
  by_cases kind : s'.message.startLine.requestUri.type = .other
  · have kept := whole kind
    constructor
    · rintro ⟨all, -⟩
      refine all _ (List.mem_append_left _ (List.mem_filterMap.mpr ⟨_, ?_, kept⟩))
      simp
    · intro clean
      have other : ∀ text ∈ s'.message.startLine.requestUri.other, IsClean text := by
        intro text here
        rw [kept, Option.mem_some_iff] at here
        exact here ▸ clean
      exact ⟨strings_clean stored other, fun request strings text => formatted_lines stored other strings⟩
  · obtain ⟨visible, none'⟩ := plain kind
    have other : ∀ text ∈ s'.message.startLine.requestUri.other, IsClean text := by
      rw [none']
      rintro text ⟨⟩
    refine iff_of_true ⟨strings_clean stored other, fun request strings text => formatted_lines stored other strings⟩ ?_
    intro c inside
    exact IsClean.of_visible visible c ((List.rdropWhile_prefix _ _).subset inside)

/-- A buffer with a whole head. -/
theorem filled {head : String} (fits : (octets head).length ≤ 128) :
    ((Buffer.create 128).fill (octets head)).WF ∧ ((Buffer.create 128).fill (octets head)).unread = octets head := by
  have wf := Buffer.create_wf (show 128 < 2 ^ 32 by decide)
  have room : (octets head).length ≤ (Buffer.create 128).writable := by
    rw [Buffer.writable, Buffer.create_capacity]
    exact fits
  exact ⟨Buffer.fill_wf wf room, by rw [Buffer.fill_unread wf, Buffer.create_unread, List.nil_append]⟩

/-- A head that comes in one piece. -/
theorem acceptsOctets_at_once {head : String} (fits : (octets head).length ≤ 128)
    (success : (parseHeaders (fresh (Buffer.create 64)) ((Buffer.create 128).fill (octets head))).code = .success) :
    AcceptsOctets stream (fresh (Buffer.create 64)) (octets head) (readHead head) := by
  obtain ⟨wf, unread⟩ := filled fits
  have accepts : AcceptsOctets stream (fresh (Buffer.create 64)) ([] ++ octets head) (readHead head) :=
    .last .start wf (fun needs => by cases needs.1) unread success
  rwa [List.nil_append] at accepts

/-- An opaque target and two headers, one of them empty. -/
theorem clean_for_one :
    (∀ text ∈ strings (readHead "GET urn:x-y HTTP/1.1\r\nHost: a b\r\nX:\r\n\r\n").message, IsClean text) ∧
      HasLines (octets "GET urn:x-y HTTP/1.1\r\nHost: a b\r\nX: \r\n\r\n") 3 :=
  have wf := Buffer.create_wf (show 64 < 2 ^ 32 by decide)
  have clean := (head_clean_iff wf (acceptsOctets_at_once (by decide +kernel) (by decide +kernel))).mpr
    (by decide +kernel)
  ⟨clean.1, clean.2 _ (stringsFrom_copy _) _ ⟨256, by decide, by decide +kernel, by decide +kernel⟩⟩

/-- A line break in an opaque target is stored, and adds a header to the head that is passed on. -/
theorem injected_header :
    let head := "GET x:a\r\nb: HTTP/1.1\r\n\r\n"
    let parsed := parseHeaders (fresh (Buffer.create 64)) ((Buffer.create 128).fill (octets head))
    let formatted := HttpRequestFormatter.formatHeaders (HttpRequest.copy .fresh parsed.state.message)
      HttpRequestFormatter.fresh (Buffer.create 128)
    parsed.code = .success ∧ octets "x:a\r\nb:" ∈ strings parsed.state.message ∧ ¬ IsClean (octets "x:a\r\nb:") ∧
      parsed.state.message.headers = [] ∧ formatted.code = .success ∧
      splitLines CR LF formatted.output.unread = [octets "GET x:a", octets "b: HTTP/1.1", [], []] := by
  decide +kernel

end clean

end HttpRequestParser

end Everscale
