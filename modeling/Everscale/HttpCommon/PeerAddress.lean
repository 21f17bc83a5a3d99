/-
# Everscale.HttpCommon.PeerAddress -- whom a request asks to be sent to

`HttpRequest::parsePeerAddress` takes the host and the port from the URI, and from the `Host`
header when the URI has no host.  `States` says what a request states, read from its own text; the
function fails or returns that, except for some ports and some lengths
(`parsePeerAddress_states_iff`):

* a port counts as given from 1 on, both in the URI and in the header, so that port 0 becomes the
  default port; the URI parser accepts it and `Compare` takes it for a port;
* the digits in the header are summed up in 16 bits, and what stands behind them is not looked at;
* a length is an `int`.
-/
import Everscale.HttpCommon.Format

namespace Everscale

set_option autoImplicit false

open HttpUtil

/-- The variables of the caller; a null pointer is `none`. -/
structure Peer where
  hostname : Option (List Octet)
  port : Option UInt16
  isSecure : Option Bool
  deriving DecidableEq, Repr

namespace HttpRequest

/-- The digits up to the first other octet, in 16-bit arithmetic. -/
def portLoop : UInt16 → List Octet → UInt16
  | value, [] => value
  | value, c :: rest =>
      if isDigit c then portLoop (UInt16.ofNat (value.toNat * 10 + (c.toNat - 48))) rest else value

/-- Copies a host and the NUL behind it.  `none` is the undefined copy of a negative number of
octets. -/
def copyHost (hostname host : List Octet) (n : Int) : Option (List Octet) :=
  if n < 0 then none else some (host.take n.toNat ++ NUL :: hostname.drop (n.toNat + 1))

/-- The end of both branches of `parsePeerAddress`. -/
def setPeer (hostname host : List Octet) (size : Int) (port : UInt16) (peer : Peer) :
    Option (Error × Peer) :=
  let n := int32 host.length
  if size ≤ n then some (.overflow, peer)
  else
    (copyHost hostname host n).map fun hostname =>
      (.success, { peer with hostname := some hostname, port := some port })

def isSecure (request : HttpRequest) : Bool := request.startLine.requestUri.type = .https

def defaultPort (request : HttpRequest) : UInt16 := if request.isSecure then 443 else 80

/-- The value of the `Host` header, if there is one. -/
def hostValue (request : HttpRequest) : Option (List Octet) :=
  (request.findHeader "Host").bind HttpHeader.fieldValue

def parsePeerAddress (request : HttpRequest) (size : Int) (peer : Peer) : Option (Error × Peer) :=
  match peer with
  | ⟨some hostname, some _, some _⟩ =>
      if size ≤ 0 then some (.invalidArgument, peer)
      else
        let peer := { peer with isSecure := some request.isSecure }
        let uri := request.startLine.requestUri
        match uri.host with
        | some host =>
            let port := if uri.port ≤ 0 then request.defaultPort else UInt16.ofInt uri.port
            setPeer hostname (cstr host) size port peer
        | none =>
            match request.hostValue with
            | none => some (.invalidArgument, peer)
            | some value =>
                let host := (cstr value).takeWhile (· != octet ':')
                let rest := (cstr value).dropWhile (· != octet ':')
                let value := portLoop 0 (rest.drop 1)
                let port := if rest = [] ∨ value = 0 then request.defaultPort else value
                setPeer hostname host size port peer
  | _ => some (.nullPointer, peer)

/-! ## What a request states -/

/-- The host, or none if the request has no host. -/
def statedHost (request : HttpRequest) : Option (List Octet) :=
  match request.startLine.requestUri.host with
  | some host => some (cstr host)
  | none => request.hostValue.map fun value => (cstr value).takeWhile (· != octet ':')

/-- What stands behind the colon. -/
def portText (value : List Octet) : List Octet := ((cstr value).dropWhile (· != octet ':')).drop 1

/-- The port is the one that is written, or the default where none is written. -/
def StatesPort (request : HttpRequest) (port : Nat) : Prop :=
  match request.startLine.requestUri.host with
  | some _ =>
      if request.startLine.requestUri.port < 0 then port = request.defaultPort.toNat
      else request.startLine.requestUri.port = port
  | none =>
      ∃ value ∈ request.hostValue,
        if portText value = [] then port = request.defaultPort.toNat
        else (portText value).all isDigit = true ∧ port = decimal (portText value)

/-- The variables hold the host and the port of the request, and the NUL behind the host is
inside `size` octets. -/
def States (request : HttpRequest) (size : Int) (peer : Peer) : Prop :=
  ∃ host behind port,
    peer = ⟨some (host ++ NUL :: behind), some port, some request.isSecure⟩ ∧
    request.statedHost = some host ∧ host.length < size ∧ request.StatesPort port.toNat

/-- The port is one that is read as it is written. -/
def PortRead (request : HttpRequest) : Prop :=
  match request.startLine.requestUri.host with
  | some _ =>
      request.startLine.requestUri.port < 0 ∨
        0 < request.startLine.requestUri.port ∧ request.startLine.requestUri.port < 65536
  | none =>
      ∀ value ∈ request.hostValue, portText value = [] ∨
        (portText value).all isDigit = true ∧ 0 < decimal (portText value) ∧
          decimal (portText value) < 65536

/-- Some variable is missing, or the request has no host, or the host does not fit by its length as
an `int`, or that is its length and the port is read. -/
def ReadAsStated (request : HttpRequest) (size : Int) (peer : Peer) : Prop :=
  peer.hostname = none ∨ peer.port = none ∨ peer.isSecure = none ∨ size ≤ 0 ∨
    ∀ host ∈ request.statedHost,
      size ≤ int32 host.length ∨ int32 host.length = host.length ∧ request.PortRead

/-! ## Hosts -/

theorem statedHost_plain {request : HttpRequest} {host : List Octet}
    (stated : request.statedHost = some host) : NUL ∉ host := by
  unfold statedHost at stated
  cases uri : request.startLine.requestUri.host with
  | some host' =>
      simp only [uri, Option.some.injEq] at stated
      exact stated ▸ nul_notMem_cstr host'
  | none =>
      simp only [uri, Option.map_eq_some_iff] at stated
      obtain ⟨value, -, rfl⟩ := stated
      exact fun inside => nul_notMem_cstr value ((List.takeWhile_prefix _).subset inside)

/-- A shorter copy is another host. -/
theorem take_nul_eq {host front behind : List Octet} {n : Nat} (plain : NUL ∉ host)
    (same : host.take n ++ NUL :: behind = host ++ NUL :: front) : host.length ≤ n := by
  by_contra short
  have here : (host.take n ++ NUL :: behind)[n]? = some NUL := by
    rw [List.getElem?_append_right (by simp), List.length_take, min_eq_left (by omega)]
    simp
  rw [same, List.getElem?_append_left (by omega)] at here
  exact plain (List.mem_of_getElem? here)

/-- The end of both branches does what the request states if the host is copied whole and the port
is right, or fails. -/
theorem setPeer_states_iff {hostname host : List Octet} {size : Int} {port : UInt16}
    {request : HttpRequest} {peer : Peer} (secure : peer.isSecure = some request.isSecure)
    (stated : request.statedHost = some host) :
    (∃ error after, setPeer hostname host size port peer = some (error, after) ∧
        (error = .success → request.States size after)) ↔
      size ≤ int32 host.length ∨
        int32 host.length = host.length ∧ request.StatesPort port.toNat := by
  have plain := statedHost_plain stated
  have low := int32_le host.length
  unfold setPeer copyHost
  by_cases full : size ≤ int32 host.length
  · simp [full]
  · simp only [full, if_false, false_or]
    by_cases undefined : int32 host.length < 0
    · simp only [undefined, if_true, Option.map_none]
      constructor
      · rintro ⟨_, _, bad, _⟩
        cases bad
      · omega
    · simp only [undefined, if_false, Option.map_some, Option.some.injEq, Prod.mk.injEq]
      constructor
      · rintro ⟨_, after, ⟨rfl, rfl⟩, states⟩
        obtain ⟨host', behind, port', same, stated', fits, right⟩ := states rfl
        obtain rfl : host = host' := Option.some.inj (stated.symm.trans stated')
        simp only [Peer.mk.injEq, Option.some.injEq] at same
        obtain ⟨text, rfl, -⟩ := same
        have whole := take_nul_eq plain text
        exact ⟨by omega, right⟩
      · rintro ⟨whole, right⟩
        refine ⟨_, _, ⟨rfl, rfl⟩, fun _ => ⟨host, hostname.drop (host.length + 1), port, ?_, stated,
          by omega, right⟩⟩
        simp [whole, secure]

/-! ## Ports -/

theorem portLoop_eq (text : List Octet) (n : Nat) :
    portLoop (UInt16.ofNat n) text =
      UInt16.ofNat ((text.takeWhile isDigit).foldl (fun n c => n * 10 + (c.toNat - 48)) n) := by
  induction text generalizing n with
  | nil => rfl
  | cons c rest ih =>
      rw [portLoop, List.takeWhile_cons]
      by_cases digit : isDigit c = true
      · have carried : UInt16.ofNat ((UInt16.ofNat n).toNat * 10 + (c.toNat - 48)) =
            UInt16.ofNat (n * 10 + (c.toNat - 48)) := by
          rw [← UInt16.toNat_inj]
          simp only [UInt16.toNat_ofNat']
          omega
        rw [if_pos digit, if_pos digit, carried, ih, List.foldl_cons]
      · rw [if_neg digit, if_neg digit, List.foldl_nil]

theorem defaultPort_ne_zero (request : HttpRequest) : request.defaultPort.toNat ≠ 0 := by
  unfold defaultPort
  split <;> decide

/-- The port of the URI is right unless it is 0 or does not fit. -/
theorem uri_port_iff {request : HttpRequest} {host : List Octet}
    (uri : request.startLine.requestUri.host = some host) :
    request.StatesPort (if request.startLine.requestUri.port ≤ 0 then request.defaultPort
      else UInt16.ofInt request.startLine.requestUri.port).toNat ↔ request.PortRead := by
  have nonzero := defaultPort_ne_zero request
  simp only [StatesPort, PortRead, uri]
  by_cases absent : request.startLine.requestUri.port < 0
  · simp [absent, absent.le]
  · by_cases zero : request.startLine.requestUri.port = 0
    · simp only [zero, Int.le_refl, if_true, Int.lt_irrefl, if_false, false_and, or_false, iff_false]
      omega
    · have low : ¬ request.startLine.requestUri.port ≤ 0 := by omega
      have wraps : ((UInt16.ofInt request.startLine.requestUri.port).toNat : Int) =
          request.startLine.requestUri.port % 65536 := by
        rw [UInt16.ofInt, UInt16.toNat_ofNat']
        omega
      simp only [absent, low, if_false, wraps, false_or]
      omega

/-- The port of the header is right if it is missing, or is all digits and fits. -/
theorem header_port_iff {request : HttpRequest} {value : List Octet}
    (uri : request.startLine.requestUri.host = none) (header : request.hostValue = some value) :
    request.StatesPort (if (cstr value).dropWhile (· != octet ':') = [] ∨ portLoop 0 (portText value) = 0
      then request.defaultPort else portLoop 0 (portText value)).toNat ↔ request.PortRead := by
  have nonzero := defaultPort_ne_zero request
  simp only [StatesPort, PortRead, uri, header, Option.mem_some_iff, forall_eq', exists_eq_left']
  by_cases empty : portText value = []
  · simp [empty, portLoop]
  · have colon : (cstr value).dropWhile (· != octet ':') ≠ [] := fun none => empty (by simp [portText, none])
    simp only [empty, colon, false_or, if_false]
    by_cases digits : (portText value).all isDigit = true
    · have all : (portText value).takeWhile isDigit = portText value :=
        List.takeWhile_eq_self_iff.2 (List.all_eq_true.1 digits)
      have read : (portLoop 0 (portText value)).toNat = decimal (portText value) % 65536 := by
        have loop := portLoop_eq (portText value) 0
        rw [all] at loop
        exact (congrArg UInt16.toNat loop).trans (UInt16.toNat_ofNat' ..)
      by_cases zero : portLoop 0 (portText value) = 0
      · have multiple : decimal (portText value) % 65536 = 0 := by rw [← read, zero]; rfl
        simp only [zero, if_true, digits, true_and]
        have := request.defaultPort.toNat_lt
        omega
      · have remains : decimal (portText value) % 65536 ≠ 0 := by
          rw [← read]
          exact fun none => zero (UInt16.toNat_inj.1 none)
        simp only [zero, if_false, read, digits, true_and]
        omega
    · simp [digits]

/-! ## The peer address -/

/-- The call fails or returns what the request states, exactly if host and port are of the kind
that is read as it is written. -/
theorem parsePeerAddress_states_iff (request : HttpRequest) (size : Int) (peer : Peer) :
    (∃ error after, parsePeerAddress request size peer = some (error, after) ∧
        (error = .success → request.States size after)) ↔ request.ReadAsStated size peer := by
  obtain ⟨hostname, port, isSecure⟩ := peer
  unfold ReadAsStated
  cases hostname with
  | none => simp [parsePeerAddress]
  | some hostname =>
  cases port with
  | none => simp [parsePeerAddress]
  | some port =>
  cases isSecure with
  | none => simp [parsePeerAddress]
  | some isSecure =>
  by_cases room : size ≤ 0
  · simp [parsePeerAddress, room]
  · simp only [parsePeerAddress, room, if_false, reduceCtorEq, false_or]
    cases uri : request.startLine.requestUri.host with
    | some host =>
        have stated : request.statedHost = some (cstr host) := by simp only [statedHost, uri]
        refine (setPeer_states_iff rfl stated).trans ?_
        simp only [uri_port_iff uri, stated, Option.mem_some_iff, forall_eq']
    | none =>
        cases header : request.hostValue with
        | none => simp [statedHost, uri, header]
        | some value =>
            have stated : request.statedHost = some ((cstr value).takeWhile (· != octet ':')) := by
              simp only [statedHost, uri, header, Option.map_some]
            have right := header_port_iff uri header
            rw [portText] at right
            refine (setPeer_states_iff rfl stated).trans ?_
            simp only [right, stated, Option.mem_some_iff, forall_eq']

/-- A request for `/` with this `Host` header. -/
def forHost (value : String) : HttpRequest :=
  HttpRequest.fresh.addHeader { fieldName := octets "Host", fieldValue := some (octets value) }

/-- Port 65616 is read as port 80. -/
theorem port_wraps :
    decimal (portText (octets "a:65616")) = 65616 ∧
      parsePeerAddress (forHost "a:65616") 4 ⟨some [0, 0, 0, 0], some 0, some true⟩ =
        some (.success, ⟨some (octets "a" ++ [NUL, 0, 0]), some 80, some false⟩) := by
  decide

end HttpRequest

end Everscale
