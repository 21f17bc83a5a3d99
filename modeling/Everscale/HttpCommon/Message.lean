/-
# Everscale.HttpCommon.Message -- requests, responses and their parts

The data model of `data-plane/http-common`: headers, request URIs, messages.  A C
string is the list of the octets before its terminating NUL; a pointer that may
be null is an `Option`.  `HttpRequest` and `HttpResponse` share everything but the
first line, so `HttpMessage` takes the type of its first line as a parameter.

`HttpHeader::_fieldName` is set by every constructor, so it is not optional here.
-/
import Everscale.HttpCommon.Octet

namespace Everscale

set_option autoImplicit false

/-! ## C strings -/

/-- What the C library sees of a string: everything before the first NUL. -/
def cstr (s : List Octet) : List Octet := s.takeWhile (· != NUL)

/-- The difference of the first octets in which two lists differ. -/
def lexDifference : List Octet → List Octet → Int
  | [], [] => 0
  | [], d :: _ => -(d.toNat : Int)
  | c :: _, [] => c.toNat
  | c :: cs, d :: ds => if c = d then lexDifference cs ds else (c.toNat : Int) - d.toNat

def strcmp (s t : List Octet) : Int := lexDifference (cstr s) (cstr t)

/-- `tolower` in the C locale. -/
def toLower (c : Octet) : Octet := if 65 ≤ c ∧ c ≤ 90 then c + 32 else c

def strcasecmp (s t : List Octet) : Int :=
  lexDifference ((cstr s).map toLower) ((cstr t).map toLower)

/-- `0 == strncmp(s, literal, sizeof(literal) - 1)` for a literal without NUL. -/
def beginsWith (literal : String) (s : List Octet) : Bool :=
  (octets literal).isPrefixOf (cstr s)

/-- `0 == strcasecmp(s, literal)`. -/
def isNamed (literal : String) (s : List Octet) : Bool := strcasecmp s (octets literal) = 0

theorem lexDifference_swap (s t : List Octet) : lexDifference t s = -lexDifference s t := by
  induction s generalizing t with
  | nil => cases t <;> simp [lexDifference]
  | cons c cs ih =>
      cases t with
      | nil => simp [lexDifference]
      | cons d ds =>
          rw [lexDifference, lexDifference]
          by_cases same : c = d
          · rw [if_pos same, if_pos same.symm, ih]
          · rw [if_neg same, if_neg (Ne.symm same)]
            omega

theorem lexDifference_eq_zero_iff {s t : List Octet} (hs : NUL ∉ s) (ht : NUL ∉ t) :
    lexDifference s t = 0 ↔ s = t := by
  induction s generalizing t with
  | nil =>
      cases t with
      | nil => simp [lexDifference]
      | cons d ds =>
          have : d ≠ 0 := fun h => ht (by simp [h])
          have : d.toNat ≠ 0 := fun h => this (UInt8.toNat_inj.1 h)
          simp [lexDifference]; omega
  | cons c cs ih =>
      cases t with
      | nil =>
          have : c ≠ 0 := fun h => hs (by simp [h])
          have : c.toNat ≠ 0 := fun h => this (UInt8.toNat_inj.1 h)
          simp [lexDifference]; omega
      | cons d ds =>
          simp only [lexDifference, List.cons.injEq]
          split
          · rename_i same
            rw [ih (fun h => hs (by simp [h])) (fun h => ht (by simp [h]))]
            simp [same]
          · rename_i differ
            have : c.toNat ≠ d.toNat := fun h => differ (UInt8.toNat_inj.1 h)
            simp only [differ, false_and, iff_false]
            omega

theorem cstr_eq_self {s : List Octet} (h : NUL ∉ s) : cstr s = s := by
  induction s with
  | nil => rfl
  | cons c rest ih =>
      have visible : c ≠ NUL := fun nul => h (by simp [nul])
      have tail := ih (fun inside => h (List.mem_cons_of_mem c inside))
      simp only [cstr] at tail ⊢
      rw [List.takeWhile_cons, if_pos (by simpa using visible), tail]

theorem nul_notMem_cstr (s : List Octet) : NUL ∉ cstr s := by
  intro h
  have := List.all_eq_true.1 (List.all_takeWhile (p := (· != NUL)) (l := s)) NUL h
  simp at this

@[simp] theorem cstr_cstr (s : List Octet) : cstr (cstr s) = cstr s :=
  cstr_eq_self (nul_notMem_cstr s)

theorem strcmp_eq_zero_iff (s t : List Octet) : strcmp s t = 0 ↔ cstr s = cstr t :=
  lexDifference_eq_zero_iff (nul_notMem_cstr s) (nul_notMem_cstr t)

theorem toLower_eq_nul {c : Octet} (h : toLower c = NUL) : c = NUL := by
  unfold toLower at h
  split_ifs at h with capital
  · obtain ⟨low, high⟩ := capital
    have big : (c + 32).toNat = c.toNat + 32 := by
      have : c.toNat ≤ 90 := UInt8.le_iff_toNat_le.mp high
      rw [UInt8.toNat_add]
      exact Nat.mod_eq_of_lt (by change c.toNat + 32 < 256; omega)
    rw [h] at big
    exact absurd big (by change 0 ≠ c.toNat + 32; omega)
  · exact h

theorem nul_notMem_lowered (s : List Octet) : NUL ∉ (cstr s).map toLower := by
  intro inside
  obtain ⟨c, member, nul⟩ := List.mem_map.mp inside
  exact nul_notMem_cstr s (toLower_eq_nul nul ▸ member)

theorem strcasecmp_eq_zero_iff (s t : List Octet) :
    strcasecmp s t = 0 ↔ (cstr s).map toLower = (cstr t).map toLower :=
  lexDifference_eq_zero_iff (nul_notMem_lowered s) (nul_notMem_lowered t)

/-! ## Headers -/

structure HttpHeader where
  fieldName : List Octet
  fieldValue : Option (List Octet) := none
  deriving DecidableEq, Repr

/-! ## Request URIs -/

inductive UriType where
  | asterisk
  | http
  | https
  | other
  deriving DecidableEq, Repr

structure HttpRequestUri where
  type : UriType := .http
  port : Int := -1
  host : Option (List Octet) := none
  absPath : Option (List Octet) := none
  query : Option (List Octet) := none
  fragment : Option (List Octet) := none
  other : Option (List Octet) := none
  deriving DecidableEq, Repr

namespace HttpRequestUri

/-- The comparison of two strings either of which may be missing; a missing string
comes first.  The source compares the pointers before, which only saves work. -/
def compareOptional (compare : List Octet → List Octet → Int) :
    Option (List Octet) → Option (List Octet) → Int
  | none, none => 0
  | none, some _ => -1
  | some _, none => 1
  | some s, some t => compare s t

/-- The port a URI stands for: its own, else the default of its scheme. -/
def effectivePort (uri : HttpRequestUri) : Int :=
  if 0 ≤ uri.port then uri.port else if uri.type = .http then 80 else 443

/-- `HttpRequestUri::Compare`.  Null `other` strings do not occur in parsed URIs;
`strcmp` on one is undefined and read here as the empty string. -/
def Compare (r1 r2 : HttpRequestUri) : Int :=
  if r1.type = .asterisk ∧ r2.type = .asterisk then 0
  else if r1.type = .other ∧ r2.type = .other then
    strcmp (r1.other.getD []) (r2.other.getD [])
  else if r1.type ≠ r2.type then
    if r1.type = .http then 1 else -1
  else
    let result := compareOptional strcasecmp r1.host r2.host
    if result ≠ 0 then result
    else
      let ports := r1.effectivePort - r2.effectivePort
      if ports ≠ 0 then ports
      else
        let result := strcmp (r1.absPath.getD (octets "/")) (r2.absPath.getD (octets "/"))
        if result ≠ 0 then result
        else compareOptional strcmp r1.query r2.query

/-- `HttpUtil::Duplicate` copies up to the first NUL. -/
def copy (other : HttpRequestUri) : HttpRequestUri :=
  { other with
    host := other.host.map cstr
    absPath := other.absPath.map cstr
    query := other.query.map cstr
    fragment := other.fragment.map cstr
    other := other.other.map cstr }

end HttpRequestUri

/-! ## Messages -/

/-- `HttpMessage`, over the type `ρ` of the first line. -/
structure HttpMessage (ρ : Type) where
  startLine : ρ
  httpVersion : Nat := 110
  headers : List HttpHeader := []
  hasBody : Bool := false
  reuseConnection : Bool := false
  send100Continue : Bool := false
  deriving DecidableEq, Repr

structure RequestLine where
  method : Option (List Octet) := none
  requestUri : HttpRequestUri := {}
  deriving DecidableEq, Repr

structure StatusLine where
  statusCode : Nat := 0
  reasonPhrase : Option (List Octet) := none
  deriving DecidableEq, Repr

abbrev HttpRequest := HttpMessage RequestLine
abbrev HttpResponse := HttpMessage StatusLine

/-- A fresh `HttpRequest`. -/
def HttpRequest.fresh : HttpRequest := { startLine := {} }

/-- A fresh `HttpResponse`. -/
def HttpResponse.fresh : HttpResponse := { startLine := {} }

namespace HttpMessage

variable {ρ : Type}

/-- `addLast` on the header list. -/
def addHeader (message : HttpMessage ρ) (header : HttpHeader) : HttpMessage ρ :=
  { message with headers := message.headers ++ [header] }

/-- `setFieldValue` on the last header, if there is one. -/
def setLastFieldValue (message : HttpMessage ρ) (value : List Octet) : Option (HttpMessage ρ) :=
  message.headers.getLast?.map fun header =>
    { message with
      headers := message.headers.dropLast ++ [{ header with fieldValue := some value }] }

/-- `findHeader`: the first header of that name. -/
def findHeader (message : HttpMessage ρ) (fieldName : String) : Option HttpHeader :=
  message.headers.find? fun header => strcasecmp (octets fieldName) header.fieldName = 0

/-- `HttpMessage::reset` on a message whose first line is fresh; the flags are left alone. -/
def reset (message : HttpMessage ρ) (startLine : ρ) : HttpMessage ρ :=
  { message with startLine, httpVersion := 110, headers := [] }

/-- A header that `addHeader` copies, up to the NUL of each string.  A null value would be
read; parsed headers have one. -/
def copyHeader (header : HttpHeader) : HttpHeader :=
  { fieldName := cstr header.fieldName, fieldValue := header.fieldValue.map cstr }

/-- `copy` with the filter `HeaderCopyAll`; `startLine` is the copied first line. -/
def copy (message other : HttpMessage ρ) (startLine : ρ) : HttpMessage ρ :=
  { other with startLine, headers := message.headers ++ other.headers.map copyHeader }

end HttpMessage

/-- `HttpRequest::copy`; the method string is shared. -/
def HttpRequest.copy (request other : HttpRequest) : HttpRequest :=
  HttpMessage.copy request other
    { method := other.startLine.method, requestUri := other.startLine.requestUri.copy }

/-- `HttpResponse::copy`; the reason phrase is shared. -/
def HttpResponse.copy (response other : HttpResponse) : HttpResponse :=
  HttpMessage.copy response other other.startLine

end Everscale
