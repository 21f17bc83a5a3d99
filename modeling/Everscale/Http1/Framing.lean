/-
# Everscale.Http1.Framing -- how the body of an accepted head is delimited

`postParse` goes through the headers once and then decides.  What it has found by then are a
few facts about the values of five headers, whatever their number and order
(`postParseHeaders_gather`); the framing of the body follows from them and from the first line
(`postParse_frames`).

Set against the rules that the source quotes, three decisions go wrong: which responses have a
body when no header says so, which requests do, and which connections are used again.
-/
import Everscale.Http1.AcceptedHead

namespace Everscale

set_option autoImplicit false

open Theory HttpUtil

/-! ## The values of a header -/

/-- The values of the headers with this name, in order. -/
def valuesOf (name : String) (headers : List HttpHeader) : List (List Octet) :=
  headers.filterMap fun header => if isNamed name header.fieldName then header.fieldValue else none

/-- A name as it is compared. -/
def lowered (name : String) : List Octet := (cstr (octets name)).map toLower

theorem isNamed_iff {name : String} {s : List Octet} :
    isNamed name s = true ↔ (cstr s).map toLower = lowered name := by
  rw [isNamed, decide_eq_true_iff, strcasecmp_eq_zero_iff, lowered]

/-- A header has one name. -/
theorem isNamed_other {name other : String} {s : List Octet} (named : isNamed name s = true)
    (ne : lowered name ≠ lowered other) : isNamed other s = false := by
  refine Bool.eq_false_iff.mpr fun both => ne ?_
  rw [← isNamed_iff.mp named, ← isNamed_iff.mp both]

section values

variable {name : String} {header : HttpHeader} {rest : List HttpHeader}

theorem valuesOf_null (null : header.fieldValue = none) :
    valuesOf name (header :: rest) = valuesOf name rest := by
  simp [valuesOf, null]

theorem valuesOf_named (named : isNamed name header.fieldName = true) {value : List Octet}
    (some : header.fieldValue = some value) :
    valuesOf name (header :: rest) = value :: valuesOf name rest := by
  simp [valuesOf, named, some]

theorem valuesOf_unnamed (other : isNamed name header.fieldName = false) :
    valuesOf name (header :: rest) = valuesOf name rest := by
  simp [valuesOf, other]

end values

/-- Some Transfer-Encoding does not begin with `identity`. -/
def takenForChunked (headers : List HttpHeader) : Bool :=
  (valuesOf "Transfer-Encoding" headers).any fun value => !beginsWith "identity" value

/-- Some Connection begins with `close`. -/
def takenForClose (headers : List HttpHeader) : Bool :=
  (valuesOf "Connection" headers).any (beginsWith "close")

/-! ## The loop over the headers -/

namespace HttpMessageParser

variable {χ ρ : Type}

/-- What the loop has found when it is through. -/
def PostParse.gather (found : PostParse ρ) (headers : List HttpHeader) : PostParse ρ :=
  { message := { found.message with
      send100Continue := found.message.send100Continue ||
        (valuesOf "Expect" headers).any (beginsWith "100-continue")
      reuseConnection := found.message.reuseConnection &&
        !(atLeast11 found.message && takenForClose headers) }
    contentLength :=
      ((valuesOf "Content-Length" headers).getLast?.map fun value => (ParseInteger value).2).getD
        found.contentLength
    foundContentLength := found.foundContentLength || !(valuesOf "Content-Length" headers).isEmpty
    foundMultipartByteRange := found.foundMultipartByteRange ||
      (valuesOf "Content-Type" headers).any (beginsWith "multipart/byteranges")
    foundTransferEncodedChunked := found.foundTransferEncodedChunked || takenForChunked headers }

theorem gather_nil (found : PostParse ρ) : found.gather [] = found := by
  simp [PostParse.gather, takenForChunked, takenForClose, valuesOf]

/-- Every value of Content-Length is a run of digits, perhaps empty. -/
def LengthsRead (headers : List HttpHeader) : Prop :=
  ∀ value ∈ valuesOf "Content-Length" headers, (ParseInteger value).1 = .success

theorem lowered_distinct :
    (["Expect", "Connection", "Content-Length", "Transfer-Encoding", "Content-Type"].map lowered).Nodup := by
  decide

/-- One header more at the front: it is read, or it fails and is a bad Content-Length. -/
theorem postParseHeader_gather (header : HttpHeader) (rest : List HttpHeader) (found : PostParse ρ) :
    ((postParseHeader header found).1 = .success →
      (postParseHeader header found).2.gather rest = found.gather (header :: rest)) ∧
    ((postParseHeader header found).1 = .success ∧ (LengthsRead (header :: rest) ↔ LengthsRead rest) ∨
      (postParseHeader header found).1 ≠ .success ∧ ¬ LengthsRead (header :: rest)) := by
  unfold postParseHeader LengthsRead
  cases value : header.fieldValue with
  | none =>
      simp only [PostParse.gather, takenForChunked, takenForClose, valuesOf_null value]
      simp
  | some value' =>
      have distinct := lowered_distinct
      simp only [List.map_cons, List.map_nil, List.nodup_cons, List.mem_cons, List.not_mem_nil, or_false,
        not_or] at distinct
      obtain ⟨⟨ec, el, et, ey⟩, ⟨cl, ct, cy⟩, ⟨lt, ly⟩, ty, -⟩ := distinct
      by_cases expect : isNamed "Expect" header.fieldName = true
      · have connection := isNamed_other expect ec
        have lengths := isNamed_other expect el
        have codings := isNamed_other expect et
        have types := isNamed_other expect ey
        simp only [PostParse.gather, takenForChunked, takenForClose, valuesOf_named expect value, valuesOf_unnamed connection,
          valuesOf_unnamed lengths, valuesOf_unnamed codings, valuesOf_unnamed types, expect]
        cases begins : beginsWith "100-continue" value' <;> simp [begins, atLeast11]
      have expect := Bool.eq_false_iff.mpr expect
      by_cases connection : isNamed "Connection" header.fieldName = true
      · have lengths := isNamed_other connection cl
        have codings := isNamed_other connection ct
        have types := isNamed_other connection cy
        simp only [PostParse.gather, takenForChunked, takenForClose, valuesOf_unnamed expect, valuesOf_named connection value,
          valuesOf_unnamed lengths, valuesOf_unnamed codings, valuesOf_unnamed types, expect, connection,
          lengths, codings, types]
        cases modern : atLeast11 found.message <;> cases begins : beginsWith "close" value' <;>
          simp_all [atLeast11]
      have connection := Bool.eq_false_iff.mpr connection
      by_cases lengths : isNamed "Content-Length" header.fieldName = true
      · have codings := isNamed_other lengths lt
        have types := isNamed_other lengths ly
        simp only [PostParse.gather, takenForChunked, takenForClose, valuesOf_unnamed expect, valuesOf_unnamed connection,
          valuesOf_named lengths value, valuesOf_unnamed codings, valuesOf_unnamed types, expect, connection,
          lengths, Bool.and_false]
        rcases ParseInteger_code value' with read | bad
        · have last : ((value' :: valuesOf "Content-Length" rest).getLast?.map fun value => (ParseInteger value).2).getD
              found.contentLength = ((valuesOf "Content-Length" rest).getLast?.map fun value =>
                (ParseInteger value).2).getD (ParseInteger value').2 := by
            cases valuesOf "Content-Length" rest with
            | nil => rfl
            | cons second more => rw [List.getLast?_cons_cons]; rfl
          simp [read, last]
        · simp [bad]
      have lengths := Bool.eq_false_iff.mpr lengths
      by_cases codings : isNamed "Transfer-Encoding" header.fieldName = true
      · have types := isNamed_other codings ty
        simp only [PostParse.gather, takenForChunked, takenForClose, valuesOf_unnamed expect, valuesOf_unnamed connection,
          valuesOf_unnamed lengths, valuesOf_named codings value, valuesOf_unnamed types, expect, connection,
          lengths, codings, Bool.and_false]
        cases begins : beginsWith "identity" value' <;> simp [begins]
      have codings := Bool.eq_false_iff.mpr codings
      by_cases types : isNamed "Content-Type" header.fieldName = true
      · simp only [PostParse.gather, takenForChunked, takenForClose, valuesOf_unnamed expect, valuesOf_unnamed connection,
          valuesOf_unnamed lengths, valuesOf_unnamed codings, valuesOf_named types value, expect, connection,
          lengths, codings, types, Bool.and_false]
        cases begins : beginsWith "multipart/byteranges" value' <;> simp [begins]
      have types := Bool.eq_false_iff.mpr types
      simp [PostParse.gather, takenForChunked, takenForClose, valuesOf_unnamed expect, valuesOf_unnamed connection,
        valuesOf_unnamed lengths, valuesOf_unnamed codings, valuesOf_unnamed types, expect, connection,
        lengths, codings, types]

theorem postParseHeaders_gather (headers : List HttpHeader) (found : PostParse ρ) :
    ((postParseHeaders headers found).1 = .success ↔ LengthsRead headers) ∧
      (LengthsRead headers → postParseHeaders headers found = (.success, found.gather headers)) := by
  induction headers generalizing found with
  | nil => simp [postParseHeaders, gather_nil, LengthsRead, valuesOf]
  | cons header rest ih =>
      obtain ⟨moved, read | failed⟩ := postParseHeader_gather header rest found
      · obtain ⟨success, same⟩ := read
        rw [postParseHeaders]
        dsimp only
        rw [if_pos success, same, ← moved success]
        exact ih _
      · obtain ⟨fails, bad⟩ := failed
        rw [postParseHeaders]
        dsimp only
        rw [if_neg fails]
        exact ⟨iff_of_false fails bad, fun read => absurd read bad⟩

end HttpMessageParser

/-! ## The framing that is chosen -/

/-- Where the body of a message ends. -/
inductive Framing where
  | chunked
  | length (octets : Nat)
  | untilClose
  deriving DecidableEq, Repr

/-- The order of precedence in `postParse`. -/
def chosenFraming (headers : List HttpHeader) (bodyNotAllowed : Bool) : Framing :=
  if takenForChunked headers then .chunked
  else
    match (valuesOf "Content-Length" headers).getLast? with
    | some value => .length (decimal (cstr value) % 2 ^ 64)
    | none => if bodyNotAllowed then .length 0 else .untilClose

section chosen

variable {headers : List HttpHeader} {bodyNotAllowed : Bool}

theorem chosenFraming_taken (taken : takenForChunked headers = true) :
    chosenFraming headers bodyNotAllowed = .chunked := if_pos taken

theorem chosenFraming_last (plain : takenForChunked headers = false) {value : List Octet}
    (last : (valuesOf "Content-Length" headers).getLast? = some value) :
    chosenFraming headers bodyNotAllowed = .length (decimal (cstr value) % 2 ^ 64) := by
  rw [chosenFraming, plain, last]
  rfl

theorem chosenFraming_absent (plain : takenForChunked headers = false)
    (absent : (valuesOf "Content-Length" headers).getLast? = none) (bodyNotAllowed : Bool) :
    chosenFraming headers bodyNotAllowed = if bodyNotAllowed then .length 0 else .untilClose := by
  rw [chosenFraming, plain, absent]
  rfl

theorem chosenFraming_chunked : chosenFraming headers bodyNotAllowed = .chunked ↔ takenForChunked headers = true := by
  refine ⟨fun chunked => ?_, chosenFraming_taken⟩
  by_contra plain
  have plain := Bool.eq_false_iff.mpr plain
  cases last : (valuesOf "Content-Length" headers).getLast? with
  | some value => exact nomatch (chosenFraming_last plain last).symm.trans chunked
  | none =>
      rw [chosenFraming_absent plain last _] at chunked
      split_ifs at chunked

end chosen

namespace HttpMessageParser

variable {χ ρ : Type}

/-- How the parser delimits the body from now on. -/
def framing (s : HttpMessageParser χ ρ) : Framing :=
  if s.body.chunkedBody then .chunked
  else if s.body.bodyUntilClose then .untilClose
  else .length s.bodyBytesRemaining

/-- What `postParse` has decided about a message. -/
structure Frames (bodyNotAllowed : Bool) (s s' : HttpMessageParser χ ρ) : Prop where
  startLine : s'.message.startLine = s.message.startLine
  httpVersion : s'.message.httpVersion = s.message.httpVersion
  headers : s'.message.headers = s.message.headers
  stage : s'.stage = s.stage
  lengthsRead : LengthsRead s.message.headers
  framing : s'.framing = chosenFraming s.message.headers bodyNotAllowed
  flags : s'.body =
    match s'.framing with
    | .chunked => { chunkedBody := true, chunkSize := true }
    | .length _ => { unencodedBody := true }
    | .untilClose => { bodyUntilClose := true }
  hasBody : s'.message.hasBody = decide (s'.framing ≠ .length 0)
  reuseConnection : s'.message.reuseConnection =
    (atLeast11 s.message && !takenForClose s.message.headers && decide (s'.framing ≠ .untilClose))

theorem chosenFraming_length {headers : List HttpHeader} (read : LengthsRead headers) (bodyNotAllowed : Bool)
    (plain : takenForChunked headers = false) {value : List Octet}
    (last : (valuesOf "Content-Length" headers).getLast? = some value) :
    chosenFraming headers bodyNotAllowed = .length (ParseInteger value).2 := by
  have digits := (ParseInteger_spec value).1.mp (read value (List.mem_of_getLast? last))
  rw [chosenFraming_last plain last, (ParseInteger_spec value).2 digits]

/-- An accepted head is framed by its headers and its first line. -/
theorem postParse_frames {methods : StartLineMethods χ ρ} {notAllowed : ρ → Bool}
    (line : ∀ message, methods.isBodyNotAllowed message = notAllowed message.startLine)
    {s s' : HttpMessageParser χ ρ} (clear : s.body = {}) (accepted : postParse methods s = (.success, s')) :
    Frames (notAllowed s.message.startLine) s s' := by
  rw [postParse] at accepted
  dsimp only at accepted
  obtain ⟨read, found⟩ := postParseHeaders_gather s.message.headers (postParseStart s.message)
  have once : ∀ modern close : Bool, (modern && (!modern || !close)) = (modern && !close) := by decide
  by_cases lengths : LengthsRead s.message.headers
  · rw [found lengths] at accepted
    dsimp only at accepted
    rw [if_neg (not_not.mpr rfl), delimitBody.eq_def] at accepted
    dsimp only [PostParse.gather, postParseStart] at accepted
    simp only [line, Bool.false_or] at accepted
    by_cases chunked : takenForChunked s.message.headers = true
    · rw [if_pos chunked] at accepted
      obtain rfl := (Prod.mk.inj accepted).2
      have framed : chosenFraming s.message.headers (notAllowed s.message.startLine) = .chunked :=
        chosenFraming_taken chunked
      refine ⟨rfl, rfl, rfl, rfl, lengths, framed.symm, ?_, ?_, ?_⟩
      · simp [framing, clear]
      · simp [framing]
      · simp [framing, atLeast11, once]
    have plain := Bool.eq_false_iff.mpr chunked
    rw [if_neg chunked] at accepted
    cases last : (valuesOf "Content-Length" s.message.headers).getLast? with
    | some value =>
        have present : (valuesOf "Content-Length" s.message.headers).isEmpty = false :=
          List.isEmpty_eq_false_iff.mpr (List.ne_nil_of_mem (List.mem_of_getLast? last))
        rw [if_pos (by rw [present]; rfl)] at accepted
        simp only [last, Option.map_some, Option.getD_some] at accepted
        obtain rfl := (Prod.mk.inj accepted).2
        have framed := chosenFraming_length lengths (notAllowed s.message.startLine) plain last
        refine ⟨rfl, rfl, rfl, rfl, lengths, ?_, ?_, ?_, ?_⟩
        · simp [framing, clear, framed]
        · simp [framing, clear]
        · simp [framing, clear, Nat.pos_iff_ne_zero]
        · simp [framing, clear, atLeast11, once]
    | none =>
        have absent : valuesOf "Content-Length" s.message.headers = [] := List.getLast?_eq_none_iff.mp last
        rw [if_neg (by rw [absent]; simp)] at accepted
        have framed := chosenFraming_absent plain last (notAllowed s.message.startLine)
        split_ifs at accepted with multipart notAllowed
        · simp at accepted
        · obtain rfl := (Prod.mk.inj accepted).2
          rw [if_pos notAllowed] at framed
          refine ⟨rfl, rfl, rfl, rfl, lengths, ?_, ?_, ?_, ?_⟩
          · simp [framing, clear, framed]
          · simp [framing, clear]
          · simp [framing, clear]
          · simp [framing, clear, atLeast11, once]
        · obtain rfl := (Prod.mk.inj accepted).2
          rw [if_neg notAllowed] at framed
          refine ⟨rfl, rfl, rfl, rfl, lengths, ?_, ?_, ?_, ?_⟩
          · simp [framing, clear, framed]
          · simp [framing, clear]
          · simp [framing, clear]
          · simp [framing, clear, atLeast11]
  · rw [if_pos (mt read.mp lengths)] at accepted
    exact absurd (Prod.mk.inj accepted).1 (mt read.mp lengths)

/-- An accepted head is framed by its headers and its first line, and has a known version. -/
theorem accepted_frames {methods : StartLineMethods χ ρ} {I : StartLineParse χ ρ → Prop}
    (knows : KnowsVersion methods I) (notAllowed : ρ → Bool)
    (line : ∀ message, methods.isBodyNotAllowed message = notAllowed message.startLine)
    {first s' : HttpMessageParser χ ρ} (fresh : Unfinished I first) (accepts : Accepts methods first s') :
    ∃ s₀, Frames (notAllowed s'.message.startLine) s₀ s' ∧ VersionKnown s'.message.httpVersion ∧
      s'.stage = .headerParseComplete := by
  obtain ⟨s₀, clear, stage, version, accepted⟩ := accepted_postParse knows fresh accepts
  have frames := postParse_frames line clear accepted
  exact ⟨s₀, frames.startLine ▸ frames, frames.httpVersion ▸ version, frames.stage.trans stage⟩

/-- A head that comes in one piece. -/
theorem accepts_at_once {methods : StartLineMethods χ ρ} {first : HttpMessageParser χ ρ} {b : Buffer}
    (success : (parseHeaders methods first b).code = .success) :
    Accepts methods first (parseHeaders methods first b).state :=
  ⟨first, b, (parseHeaders methods first b).input, .start, by rw [← success]⟩

end HttpMessageParser

/-! ## The rules -/

/-- The one transfer coding that changes nothing, in any letter case. -/
def isIdentity (value : List Octet) : Bool := (cstr value).map toLower = octets "identity"

/-- Some Transfer-Encoding has a value other than `identity`. -/
def nonIdentity (headers : List HttpHeader) : Bool :=
  (valuesOf "Transfer-Encoding" headers).any fun value => !isIdentity value

/-- All values of Content-Length are one number below `2 ^ 64`. -/
def LengthsAgree (headers : List HttpHeader) : Prop :=
  ∀ value ∈ valuesOf "Content-Length" headers, decimal (cstr value) < 2 ^ 64 ∧
    ∀ other ∈ valuesOf "Content-Length" headers, decimal (cstr other) = decimal (cstr value)

instance (headers : List HttpHeader) : Decidable (LengthsAgree headers) :=
  inferInstanceAs (Decidable (∀ value ∈ valuesOf "Content-Length" headers, _ ∧ _))

/-- The body has the length that every Content-Length says. -/
def LengthExact (headers : List HttpHeader) (framing : Framing) : Prop :=
  ∀ value ∈ valuesOf "Content-Length" headers, framing = .length (decimal (cstr value))

theorem lengthExact_iff {headers : List HttpHeader} (plain : takenForChunked headers = false)
    (present : valuesOf "Content-Length" headers ≠ []) (bodyNotAllowed : Bool) :
    LengthExact headers (chosenFraming headers bodyNotAllowed) ↔ LengthsAgree headers := by
  obtain ⟨last, found⟩ := Option.ne_none_iff_exists'.mp (mt List.getLast?_eq_none_iff.mp present)
  have member := List.mem_of_getLast? found
  rw [chosenFraming_last plain found]
  constructor
  · intro exactly value inside
    have same : ∀ v ∈ valuesOf "Content-Length" headers, decimal (cstr last) % 2 ^ 64 = decimal (cstr v) :=
      fun v inside => Framing.length.inj (exactly v inside)
    exact ⟨same value inside ▸ Nat.mod_lt _ (by decide), fun other inside' =>
      (same other inside').symm.trans (same value inside)⟩
  · intro agree value inside
    obtain ⟨small, same⟩ := agree value inside
    rw [same last member, Nat.mod_eq_of_lt small]

namespace HttpResponseParser

open HttpMessageParser (Accepts accepted_frames accepts_at_once)

/-! ## Bodies of responses -/

/-- The responses that never have a body. -/
def bodyless (statusCode : Nat) : Bool :=
  decide (100 ≤ statusCode ∧ statusCode < 200) || statusCode = 204 || statusCode = 304

/-- RFC 2616, section 4.4, as the source quotes it. -/
def FollowsRules (statusCode : Nat) (headers : List HttpHeader) (framing : Framing) : Prop :=
  if bodyless statusCode then framing = .length 0
  else if nonIdentity headers then framing = .chunked
  else if valuesOf "Content-Length" headers ≠ [] then LengthExact headers framing
  else framing = .untilClose

/-- Where the order of precedence and the test of the status do no harm: of the responses without
a body, those with status 204 or 304, or a length of zero, that are not taken for chunked; of the
others, those whose headers delimit the body, and those with a status below 100. -/
def RulesReached (statusCode : Nat) (headers : List HttpHeader) : Prop :=
  if bodyless statusCode then
    takenForChunked headers = false ∧
      match (valuesOf "Content-Length" headers).getLast? with
      | some value => decimal (cstr value) % 2 ^ 64 = 0
      | none => statusCode = 204 ∨ statusCode = 304
  else
    takenForChunked headers = nonIdentity headers ∧
      (nonIdentity headers = true ∨
        if valuesOf "Content-Length" headers = [] then statusCode < 200 else LengthsAgree headers)

theorem bodyNotAllowed_iff (statusCode : Nat) :
    (statusCode = 204 || statusCode = 304 || decide (200 ≤ statusCode)) = decide (200 ≤ statusCode) := by
  by_cases large : 200 ≤ statusCode
  · simp [large]
  · have : statusCode ≠ 204 := by omega
    have : statusCode ≠ 304 := by omega
    simp [*]

theorem chosen_follows_iff (statusCode : Nat) (headers : List HttpHeader) :
    FollowsRules statusCode headers (chosenFraming headers (decide (200 ≤ statusCode))) ↔
      RulesReached statusCode headers := by
  unfold FollowsRules RulesReached
  by_cases none : bodyless statusCode = true
  · rw [if_pos none, if_pos none]
    by_cases taken : takenForChunked headers = true
    · rw [chosenFraming_taken taken, taken]
      exact ⟨nofun, fun both => nomatch both.1⟩
    have plain := Bool.eq_false_iff.mpr taken
    rw [and_iff_right plain]
    cases last : (valuesOf "Content-Length" headers).getLast? with
    | some value => rw [chosenFraming_last plain last, Framing.length.injEq]
    | none =>
        rw [chosenFraming_absent plain last _]
        by_cases late : 200 ≤ statusCode
        · rw [if_pos (decide_eq_true late)]
          refine iff_of_true rfl ?_
          simp only [bodyless, Bool.or_eq_true, decide_eq_true_eq] at none
          omega
        · rw [if_neg (by simpa using late)]
          refine iff_of_false nofun ?_
          omega
  rw [if_neg none, if_neg none]
  by_cases other : nonIdentity headers = true
  · rw [if_pos other, other]
    by_cases taken : takenForChunked headers = true
    · rw [chosenFraming_taken taken, taken]
      exact iff_of_true rfl ⟨rfl, .inl rfl⟩
    · rw [Bool.eq_false_iff.mpr taken]
      refine iff_of_false (fun chunked => ?_) fun both => nomatch both.1
      exact taken (chosenFraming_chunked.mp chunked)
  rw [if_neg other, Bool.eq_false_iff.mpr other]
  by_cases taken : takenForChunked headers = true
  · rw [chosenFraming_taken taken, taken]
    refine iff_of_false ?_ fun both => nomatch both.1
    split_ifs with present
    · intro exactly
      obtain ⟨value, member⟩ := List.exists_mem_of_ne_nil _ present
      exact nomatch exactly value member
    · exact nofun
  have plain := Bool.eq_false_iff.mpr taken
  rw [and_iff_right plain]
  by_cases present : valuesOf "Content-Length" headers = []
  · rw [if_neg (not_not.mpr present), if_pos present, chosenFraming_absent plain (by rw [present]; rfl) _]
    by_cases late : 200 ≤ statusCode
    · rw [if_pos (decide_eq_true late)]
      exact iff_of_false nofun fun early => early.elim nofun (by omega)
    · rw [if_neg (by simpa using late)]
      exact iff_of_true rfl (.inr (by omega))
  · rw [if_pos present, if_neg present, lengthExact_iff plain present]
    exact (or_iff_right nofun).symm

/-- The framing of an accepted response follows the rules under exactly this condition. -/
theorem framing_follows_iff {working : Buffer} {s' : HttpResponseParser}
    (accepts : Accepts methods (fresh working) s') :
    FollowsRules s'.message.startLine.statusCode s'.message.headers s'.framing ↔
      RulesReached s'.message.startLine.statusCode s'.message.headers := by
  obtain ⟨s₀, frames, -⟩ := accepted_frames knowsVersion (fun line => decide (200 ≤ line.statusCode))
    (fun message => bodyNotAllowed_iff message.startLine.statusCode) (fresh_unfinished working) accepts
  rw [frames.framing, ← frames.headers]
  generalize s'.message.headers = headers
  generalize s'.message.startLine.statusCode = statusCode
  exact chosen_follows_iff statusCode headers

/-- The parser after this head. -/
def readHead (head : String) : HttpResponseParser :=
  (parseHeaders (fresh (Buffer.create 64)) ((Buffer.create 128).fill (octets head))).state

theorem framing_follows_for_no_content :
    Accepts methods (fresh (Buffer.create 64)) (readHead "HTTP/1.1 204 No Content\r\n\r\n") ∧
      (FollowsRules (readHead "HTTP/1.1 204 No Content\r\n\r\n").message.startLine.statusCode
          (readHead "HTTP/1.1 204 No Content\r\n\r\n").message.headers
          (readHead "HTTP/1.1 204 No Content\r\n\r\n").framing ↔
        RulesReached (readHead "HTTP/1.1 204 No Content\r\n\r\n").message.startLine.statusCode
          (readHead "HTTP/1.1 204 No Content\r\n\r\n").message.headers) :=
  have accepts : Accepts methods (fresh (Buffer.create 64)) (readHead "HTTP/1.1 204 No Content\r\n\r\n") :=
    accepts_at_once (by decide)
  ⟨accepts, framing_follows_iff accepts⟩

/-- A 200 without framing headers is given no body, and a 100 one up to the close; a length
overrides the 204. -/
theorem status_rule_inverted :
    (parseHeaders (fresh (Buffer.create 64))
        ((Buffer.create 128).fill (octets "HTTP/1.1 200 OK\r\n\r\n"))).code = .success ∧
      (readHead "HTTP/1.1 200 OK\r\n\r\n").framing = .length 0 ∧
    (parseHeaders (fresh (Buffer.create 64))
        ((Buffer.create 128).fill (octets "HTTP/1.1 100 Continue\r\n\r\n"))).code = .success ∧
      (readHead "HTTP/1.1 100 Continue\r\n\r\n").framing = .untilClose ∧
    (parseHeaders (fresh (Buffer.create 64))
        ((Buffer.create 128).fill (octets "HTTP/1.1 204 No Content\r\nContent-Length: 5\r\n\r\n"))).code = .success ∧
      (readHead "HTTP/1.1 204 No Content\r\nContent-Length: 5\r\n\r\n").framing = .length 5 := by
  decide

end HttpResponseParser

namespace HttpRequestParser

open HttpMessageParser (Accepts accepted_frames accepts_at_once)

/-! ## Bodies of requests -/

/-- A request is never delimited by the close, and has no body unless a header says so. -/
def EndsBeforeClose (headers : List HttpHeader) (framing : Framing) : Prop :=
  framing ≠ .untilClose ∧
    (nonIdentity headers = false → valuesOf "Content-Length" headers = [] → framing = .length 0)

/-- A length is given, or a request that is taken for chunked says so, or the method is one of
those that the parser takes to have no body. -/
def EndGiven (request : HttpRequest) : Prop :=
  valuesOf "Content-Length" request.headers ≠ [] ∨
    if takenForChunked request.headers then nonIdentity request.headers = true
    else isBodyNotAllowed request = true

/-- The framing of an accepted request never waits for the close under exactly this condition. -/
theorem ends_before_close_iff {working : Buffer} {s' : HttpRequestParser}
    (accepts : Accepts methods (fresh working) s') :
    EndsBeforeClose s'.message.headers s'.framing ↔ EndGiven s'.message := by
  obtain ⟨s₀, frames, -⟩ := accepted_frames knowsVersion (fun line => isBodyNotAllowed { startLine := line })
    (fun _ => rfl) (fresh_unfinished working) accepts
  rw [frames.framing, ← frames.headers]
  unfold EndsBeforeClose EndGiven
  by_cases taken : takenForChunked s'.message.headers = true
  · rw [chosenFraming_taken taken, if_pos taken]
    by_cases present : valuesOf "Content-Length" s'.message.headers = []
    · cases other : nonIdentity s'.message.headers <;> simp [present]
    · simp [present]
  have plain := Bool.eq_false_iff.mpr taken
  rw [if_neg taken]
  cases last : (valuesOf "Content-Length" s'.message.headers).getLast? with
  | some value =>
      have present : valuesOf "Content-Length" s'.message.headers ≠ [] :=
        List.ne_nil_of_mem (List.mem_of_getLast? last)
      rw [chosenFraming_last plain last]
      exact iff_of_true ⟨nofun, fun _ absent => absurd absent present⟩ (.inl present)
  | none =>
      have absent : valuesOf "Content-Length" s'.message.headers = [] := List.getLast?_eq_none_iff.mp last
      rw [chosenFraming_absent plain last, or_iff_right (not_not.mpr absent)]
      by_cases none : isBodyNotAllowed s'.message = true
      · rw [if_pos (show isBodyNotAllowed { startLine := s'.message.startLine } = true from none)]
        exact iff_of_true ⟨nofun, fun _ _ => rfl⟩ none
      · rw [if_neg (show ¬ isBodyNotAllowed { startLine := s'.message.startLine } = true from none)]
        exact iff_of_false (fun both => both.1 rfl) none

/-- The parser after this head. -/
def readHead (head : String) : HttpRequestParser :=
  (parseHeaders (fresh (Buffer.create 64)) ((Buffer.create 128).fill (octets head))).state

theorem get_ends_before_close :
    Accepts methods (fresh (Buffer.create 64)) (readHead "GET / HTTP/1.1\r\n\r\n") ∧
      (EndsBeforeClose (readHead "GET / HTTP/1.1\r\n\r\n").message.headers
          (readHead "GET / HTTP/1.1\r\n\r\n").framing ↔
        EndGiven (readHead "GET / HTTP/1.1\r\n\r\n").message) :=
  have accepts : Accepts methods (fresh (Buffer.create 64)) (readHead "GET / HTTP/1.1\r\n\r\n") :=
    accepts_at_once (by decide)
  ⟨accepts, ends_before_close_iff accepts⟩

/-- A POST without framing headers is read until the client closes. -/
theorem post_waits_for_close :
    (parseHeaders (fresh (Buffer.create 64))
        ((Buffer.create 128).fill (octets "POST / HTTP/1.1\r\n\r\n"))).code = .success ∧
      (readHead "POST / HTTP/1.1\r\n\r\n").message.headers = [] ∧
      (readHead "POST / HTTP/1.1\r\n\r\n").framing = .untilClose := by
  decide

end HttpRequestParser

/-! ## Using the connection again -/

/-- White space around an element of a list. -/
def trimmed (text : List Octet) : List Octet := (text.dropWhile isSpace).rdropWhile isSpace

/-- The elements of a comma-separated list. -/
def listElements (value : List Octet) : List (List Octet) :=
  (value.splitOnP (· == octet ',')).map trimmed

/-- Some Connection header has the token `close`, in any letter case. -/
def hasCloseToken (headers : List HttpHeader) : Bool :=
  (valuesOf "Connection" headers).any fun value =>
    (listElements (cstr value)).any fun token => token.map toLower = octets "close"

namespace HttpMessageParser

variable {χ ρ : Type}

/-- The connection may be used again after an HTTP/1.1 message that does not ask to close it and
does not end by closing it. -/
def ReuseRight (s : HttpMessageParser χ ρ) : Prop :=
  s.message.reuseConnection = true ↔
    s.message.httpVersion = 110 ∧ hasCloseToken s.message.headers = false ∧ s.framing ≠ .untilClose

/-- Nothing but the close ends the body. -/
def endsByClose (headers : List HttpHeader) (bodyNotAllowed : Bool) : Bool :=
  !takenForChunked headers && (valuesOf "Content-Length" headers).isEmpty && !bodyNotAllowed

/-- A Connection value that begins with `close` stands for an HTTP/1.0 message or for the token. -/
def CloseMeansClose (message : HttpMessage ρ) (bodyNotAllowed : Bool) : Prop :=
  endsByClose message.headers bodyNotAllowed = true ∨
    (takenForClose message.headers = true ↔
      message.httpVersion = 100 ∨ hasCloseToken message.headers = true)

theorem chosenFraming_untilClose {headers : List HttpHeader} {bodyNotAllowed : Bool} :
    chosenFraming headers bodyNotAllowed = .untilClose ↔ endsByClose headers bodyNotAllowed = true := by
  unfold endsByClose
  cases taken : takenForChunked headers with
  | true => simp [chosenFraming_taken taken]
  | false =>
      cases last : (valuesOf "Content-Length" headers).getLast? with
      | some value =>
          have present : valuesOf "Content-Length" headers ≠ [] := List.ne_nil_of_mem (List.mem_of_getLast? last)
          rw [chosenFraming_last taken last, List.isEmpty_eq_false_iff.mpr present]
          simp
      | none =>
          rw [chosenFraming_absent taken last, List.getLast?_eq_none_iff.mp last]
          cases bodyNotAllowed <;> simp

theorem reuse_iff {bodyNotAllowed : Bool} {s₀ s' : HttpMessageParser χ ρ} (frames : Frames bodyNotAllowed s₀ s')
    (known : VersionKnown s'.message.httpVersion) :
    ReuseRight s' ↔ CloseMeansClose s'.message bodyNotAllowed := by
  -- both versions pass the test for 1.1
  have modern : atLeast11 s₀.message = true := by
    rw [frames.httpVersion] at known
    rcases known with version | version <;> simp [atLeast11, version]
  have framed := frames.framing
  rw [← frames.headers] at framed
  unfold ReuseRight CloseMeansClose
  rw [frames.reuseConnection, modern, Bool.true_and, ← frames.headers]
  by_cases close : s'.framing = .untilClose
  · have ends := chosenFraming_untilClose.mp (framed ▸ close)
    simp [close, ends]
  · have open' : ¬ endsByClose s'.message.headers bodyNotAllowed = true := fun ends =>
      close (framed.trans (chosenFraming_untilClose.mpr ends))
    rw [or_iff_right open']
    rcases known with version | version
    · cases takenForClose s'.message.headers <;> cases hasCloseToken s'.message.headers <;> simp [close, version]
    · cases takenForClose s'.message.headers <;> simp [close, version]

/-- For requests and for responses: what is decided about the connection is right under exactly
this condition. -/
theorem reuse_right_iff (working : Buffer) :
    (∀ s', Accepts HttpRequestParser.methods (HttpRequestParser.fresh working) s' →
      (ReuseRight s' ↔ CloseMeansClose s'.message (HttpRequestParser.isBodyNotAllowed s'.message))) ∧
    (∀ s', Accepts HttpResponseParser.methods (HttpResponseParser.fresh working) s' →
      (ReuseRight s' ↔ CloseMeansClose s'.message (HttpResponseParser.isBodyNotAllowed s'.message))) := by
  constructor
  · intro s' accepts
    obtain ⟨s₀, frames, known, -⟩ := accepted_frames HttpRequestParser.knowsVersion
      (fun line => HttpRequestParser.isBodyNotAllowed { startLine := line }) (fun _ => rfl)
      (HttpRequestParser.fresh_unfinished working) accepts
    exact reuse_iff frames known
  · intro s' accepts
    obtain ⟨s₀, frames, known, -⟩ := accepted_frames HttpResponseParser.knowsVersion
      (fun line => HttpResponseParser.isBodyNotAllowed { startLine := line }) (fun _ => rfl)
      (HttpResponseParser.fresh_unfinished working) accepts
    exact reuse_iff frames known

end HttpMessageParser

open HttpMessageParser in
theorem reuse_right_for_get_and_ok :
    (ReuseRight (HttpRequestParser.readHead "GET / HTTP/1.1\r\nConnection: close\r\n\r\n") ↔
      CloseMeansClose (HttpRequestParser.readHead "GET / HTTP/1.1\r\nConnection: close\r\n\r\n").message
        (HttpRequestParser.isBodyNotAllowed
          (HttpRequestParser.readHead "GET / HTTP/1.1\r\nConnection: close\r\n\r\n").message)) ∧
    (ReuseRight (HttpResponseParser.readHead "HTTP/1.1 204 No Content\r\n\r\n") ↔
      CloseMeansClose (HttpResponseParser.readHead "HTTP/1.1 204 No Content\r\n\r\n").message
        (HttpResponseParser.isBodyNotAllowed
          (HttpResponseParser.readHead "HTTP/1.1 204 No Content\r\n\r\n").message)) :=
  ⟨(reuse_right_iff (Buffer.create 64)).1 _ (accepts_at_once (by decide)),
    (reuse_right_iff (Buffer.create 64)).2 _ (accepts_at_once (by decide))⟩

/-- HTTP/1.0 is taken for 1.1 or later, and `Close` and a later `close` are not seen. -/
theorem reuse_after_close :
    (HttpRequestParser.readHead "GET / HTTP/1.0\r\n\r\n").stage = .headerParseComplete ∧
      (HttpRequestParser.readHead "GET / HTTP/1.0\r\n\r\n").message.httpVersion = 100 ∧
      (HttpRequestParser.readHead "GET / HTTP/1.0\r\n\r\n").message.reuseConnection = true ∧
    (HttpRequestParser.readHead "GET / HTTP/1.1\r\nConnection: Close\r\n\r\n").stage = .headerParseComplete ∧
      hasCloseToken (HttpRequestParser.readHead "GET / HTTP/1.1\r\nConnection: Close\r\n\r\n").message.headers =
        true ∧
      (HttpRequestParser.readHead "GET / HTTP/1.1\r\nConnection: Close\r\n\r\n").message.reuseConnection = true := by
  decide

end Everscale
