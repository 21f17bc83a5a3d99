/-
# Everscale.Base.SocketAddress -- the order of socket addresses

`SocketAddress::compare` subtracts the 32 bits of one IP address from those of the other and returns
the difference as an `int`.  Among the addresses of one transport and one port it is so an order of
the positions on a circle: which of two comes first depends on which way round is shorter.  A set of
addresses is ordered exactly if those of each transport and port lie within half of the circle
(`compare_orders_iff`).  Only an address itself compares as equal to it.
-/
import Mathlib.Data.Finite.Prod
import Everscale.Base.String
import Everscale.Theory.Comparison

namespace Everscale

set_option autoImplicit false

open Theory

inductive TransportType where
  | NONE
  | UDP
  | TCP
  | TLS
  deriving DecidableEq, Repr

def TransportType.code : TransportType → Nat
  | .NONE => 0
  | .UDP => 1
  | .TCP => 2
  | .TLS => 3

theorem TransportType.code_inj {a b : TransportType} (same : a.code = b.code) : a = b := by
  cases a <;> cases b <;> first | rfl | cases same

theorem TransportType.code_lt (a : TransportType) : a.code < 4 := by cases a <;> decide

/-- The IP address and the port are the bits of `_address`, in network order. -/
structure SocketAddress where
  s_addr : UInt32
  sin_port : UInt16
  transport : TransportType
  deriving DecidableEq, Repr

namespace SocketAddress

def compare (a b : SocketAddress) : Int :=
  let result := (a.transport.code : Int) - b.transport.code
  if result ≠ 0 then result
  else
    let result := (a.sin_port.toNat : Int) - b.sin_port.toNat
    if result ≠ 0 then result
    else toInt ((a.s_addr - b.s_addr).toNat : Int)

def hash (a : SocketAddress) : UInt64 :=
  a.s_addr.toUInt64 ||| (a.sin_port.toUInt64 <<< 32) ||| (UInt64.ofNat a.transport.code <<< 48)

theorem ext_fields {a b : SocketAddress} (addr : a.s_addr = b.s_addr) (port : a.sin_port = b.sin_port)
    (transport : a.transport = b.transport) : a = b := by
  cases a; cases b
  simp_all

instance : Finite SocketAddress :=
  .of_injective
    (fun a => ((⟨a.transport.code, a.transport.code_lt⟩ : Fin 4), a.sin_port.toFin, a.s_addr.toFin))
    fun a b same => by
      simp only [Prod.mk.injEq, Fin.mk.injEq, UInt16.toFin_inj, UInt32.toFin_inj] at same
      obtain ⟨transport, port, addr⟩ := same
      exact ext_fields addr port (TransportType.code_inj transport)

/-- An IP address uniquely identifies an endpoint only among these. -/
def Alike (a b : SocketAddress) : Prop := a.transport = b.transport ∧ a.sin_port = b.sin_port

theorem Alike.symm {a b : SocketAddress} (h : Alike a b) : Alike b a := ⟨h.1.symm, h.2.symm⟩

theorem Alike.trans {a b c : SocketAddress} (h : Alike a b) (h' : Alike b c) : Alike a c :=
  ⟨h.1.trans h'.1, h.2.trans h'.2⟩

theorem compare_alike {a b : SocketAddress} (alike : Alike a b) :
    compare a b = toInt ((a.s_addr - b.s_addr).toNat : Int) := by
  simp [compare, alike.1, alike.2]

/-! ## The three comparisons -/

def compareTransports (a b : SocketAddress) : Int := (a.transport.code : Int) - b.transport.code

def comparePorts (a b : SocketAddress) : Int := (a.sin_port.toNat : Int) - b.sin_port.toNat

def compareAddrs (a b : SocketAddress) : Int := toInt ((a.s_addr - b.s_addr).toNat : Int)

theorem compare_eq (a b : SocketAddress) :
    compare a b = thenBy compareTransports (thenBy comparePorts compareAddrs) a b := rfl

theorem compareTransports_eq_zero_iff {a b : SocketAddress} :
    compareTransports a b = 0 ↔ a.transport = b.transport := by
  constructor
  · intro same
    exact TransportType.code_inj (by unfold compareTransports at same; omega)
  · intro same
    simp [compareTransports, same]

theorem comparePorts_eq_zero_iff {a b : SocketAddress} :
    comparePorts a b = 0 ↔ a.sin_port = b.sin_port := by
  rw [← UInt16.toNat_inj, comparePorts]
  omega

theorem compareAddrs_eq_zero_iff {a b : SocketAddress} :
    compareAddrs a b = 0 ↔ a.s_addr = b.s_addr := by
  have := a.s_addr.toNat_lt
  have := b.s_addr.toNat_lt
  rw [← UInt32.toNat_inj, compareAddrs, toInt, Int.bmod_def, UInt32.toNat_sub]
  split <;> omega

/-- Only an address itself compares as equal to it. -/
theorem compare_eq_zero_iff {a b : SocketAddress} : compare a b = 0 ↔ a = b := by
  rw [compare_eq, thenBy_eq_zero_iff, thenBy_eq_zero_iff, compareTransports_eq_zero_iff,
    comparePorts_eq_zero_iff, compareAddrs_eq_zero_iff]
  constructor
  · rintro ⟨transport, port, addr⟩
    exact ext_fields addr port transport
  · rintro rfl
    exact ⟨rfl, rfl, rfl⟩

/-! ## The order -/

/-- The IP addresses of each transport and port lie within half of the circle of `2 ^ 32`, seen from
one of them. -/
def HalfCircle (S : Set SocketAddress) : Prop :=
  ∀ a ∈ S, ∃ least ∈ S, Alike least a ∧ ∀ b ∈ S, Alike b a → (b.s_addr - least.s_addr).toNat < 2 ^ 31

theorem compareAddrs_orders {S : Set SocketAddress} (least : UInt32)
    (near : ∀ a ∈ S, (a.s_addr - least).toNat < 2 ^ 31) : OrdersOn compareAddrs S := by
  refine .of_key (fun a => (a.s_addr - least).toNat) ?_ ?_
  all_goals
    intro a ha b hb
    have low := near a ha
    have low' := near b hb
    have := least.toNat_lt
    have := a.s_addr.toNat_lt
    have := b.s_addr.toNat_lt
    rw [UInt32.toNat_sub] at low low'
    simp only [compareAddrs, toInt, Int.bmod_def, UInt32.toNat_sub]
    split <;> omega

/-- A set of addresses is ordered exactly if those of each transport and port lie within half of the
circle. -/
theorem compare_orders_iff (S : Set SocketAddress) : OrdersOn compare S ↔ HalfCircle S := by
  constructor
  · intro orders a ha
    have alike := orders.mono (Set.sep_subset S fun b => Alike b a)
    obtain ⟨least, ⟨inside, like⟩, below⟩ :=
      alike.exists_least (Set.toFinite _) ⟨a, ha, rfl, rfl⟩
    refine ⟨least, inside, like, fun b hb like' => ?_⟩
    have above := alike.neg_iff ⟨hb, like'⟩ ⟨inside, like⟩
    have below := below b ⟨hb, like'⟩
    rw [compare_alike (like'.trans like.symm)] at above
    have := (b.s_addr - least.s_addr).toNat_lt
    rw [toInt, Int.bmod_def] at above
    split at above <;> omega
  · intro half
    have transports : OrdersOn compareTransports S :=
      .sub_key fun a => (TransportType.code (transport a) : Int)
    refine transports.thenBy fun a ha => ?_
    have ports : OrdersOn comparePorts {b ∈ S | compareTransports a b = 0} :=
      .sub_key fun a => ((sin_port a).toNat : Int)
    refine ports.thenBy fun b hb => ?_
    obtain ⟨least, -, -, near⟩ := half b hb.1
    refine compareAddrs_orders least.s_addr fun c hc => near c hc.1.1 ⟨?_, ?_⟩
    · have first := compareTransports_eq_zero_iff.1 hb.2
      exact (compareTransports_eq_zero_iff.1 hc.1.2).symm.trans first
    · exact (comparePorts_eq_zero_iff.1 hc.2).symm

end SocketAddress

end Everscale
