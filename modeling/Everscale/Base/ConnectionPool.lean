/-
# Everscale.Base.ConnectionPool -- the keys and the pooled connections

The pool finds a connection by a key.  `SocketAddressCallbacks` compares a key with a connection and
hashes either of them, and a hash map needs that a key has the hash of every connection it is equal
to.  `compare` subtracts two pointers as 64-bit words and returns the difference as an `int`: contexts
that lie a multiple of `2 ^ 32` apart pass for one, and their hashes differ unless the IP address
happens to cancel the difference (`Far`).
-/
import Everscale.Base.SocketAddress
import Everscale.Base.TLSContextIndex
import Everscale.HttpCommon.Message

namespace Everscale

set_option autoImplicit false

open Theory

structure TLSKey where
  fqdn : Text
  rawContext : UInt64
  deriving DecidableEq, Repr

/-- What the pool reads of a `ClientTLSSocket`; without a certificate `peerCertificate` fails. -/
structure ClientTLSSocket where
  rawContext : UInt64
  peerCertificate : Option X509Certificate
  deriving DecidableEq, Repr

/-- A `SocketKey` with the tag of a key, clear or TLS. -/
structure PoolKey where
  peerAddress : SocketAddress
  tls : Option TLSKey
  deriving DecidableEq, Repr

/-- A `SocketKey` with the tag of an object. -/
structure PoolObject where
  peerAddress : SocketAddress
  tls : Option ClientTLSSocket
  deriving DecidableEq, Repr

namespace ConnectionPool

/-- The loop over the DNS names; each call of `subjectAltName` goes on behind the name that the one
before it returned. -/
def matchNames (fqdn : Text) : List GeneralName → Option Int
  | [] => some (-1)
  | .other :: rest => matchNames fqdn rest
  | .dns text :: rest =>
      if ESB_MAX_HOSTNAME + 1 ≤ text.length then some (-1)
      else
        let san := X509Certificate.copied text
        match StringWildcardMatch (san ++ [NUL]) san.length (cstr fqdn) with
        | none => none
        | some matchValue => if 0 ≤ matchValue then some 0 else matchNames fqdn rest

/-- The hostname must be compatible with the server's certificate. -/
def matchCertificate (certificate : X509Certificate) (fqdn : Text) : Option Int :=
  if certificate.numSubjectAltNames = 0 then
    match certificate.commonName (ESB_MAX_HOSTNAME + 1) with
    | (.success, cn) => some (strcmp cn fqdn)
    | _ => some (-1)
  else if certificate.certificate = false then some (-1)
  else matchNames fqdn (certificate.subjectAltNames.getD [])

/-- `SocketAddressCallbacks::compare`; `none` where an assertion of `StringWildcardMatch` fails. -/
def compare (key : PoolKey) (object : PoolObject) : Option Int :=
  match key.tls, object.tls with
  | none, none => some (key.peerAddress.compare object.peerAddress)
  | none, some _ => some (-1)
  | some _, none => some 1
  | some tlsKey, some socket =>
      let result := key.peerAddress.compare object.peerAddress
      if result ≠ 0 then some result
      else
        let result := tlsKey.rawContext - socket.rawContext
        if result ≠ 0 then some (toInt result.toNat)
        else
          match socket.peerCertificate with
          | none => some (-1)
          | some serverCertificate => matchCertificate serverCertificate tlsKey.fqdn

/-- `SocketAddressCallbacks::hash`, on the context of a TLS key or object. -/
def hash (peerAddress : SocketAddress) (rawContext : Option UInt64) : UInt64 :=
  match rawContext with
  | none => peerAddress.hash
  | some rawContext => peerAddress.hash * (31 + rawContext)

def keyHash (key : PoolKey) : UInt64 := hash key.peerAddress (key.tls.map TLSKey.rawContext)

def objectHash (object : PoolObject) : UInt64 :=
  hash object.peerAddress (object.tls.map ClientTLSSocket.rawContext)

/-! ## Equal and hashed alike -/

/-- A TLS key and a TLS connection to one address whose contexts lie a multiple of `2 ^ 32` apart,
and that multiple of the IP address is none of `2 ^ 32`. -/
def Far (key : PoolKey) (object : PoolObject) : Prop :=
  key.peerAddress = object.peerAddress ∧
    ∃ tlsKey ∈ key.tls, ∃ socket ∈ object.tls,
      (tlsKey.rawContext - socket.rawContext).toNat % 2 ^ 32 = 0 ∧
      key.peerAddress.s_addr.toNat * ((tlsKey.rawContext - socket.rawContext).toNat / 2 ^ 32) % 2 ^ 32 ≠ 0

theorem hash_low (address : SocketAddress) : address.hash.toNat % 2 ^ 32 = address.s_addr.toNat := by
  have := address.s_addr.toNat_lt
  have shifted : ∀ x, x * 2 ^ 32 % 2 ^ 64 % 2 ^ 32 = 0 := fun x => by omega
  have shifted' : ∀ x, x * 2 ^ 48 % 2 ^ 64 % 2 ^ 32 = 0 := fun x => by omega
  have by32 : UInt64.toNat 32 % 64 = 32 := rfl
  have by48 : UInt64.toNat 48 % 64 = 48 := rfl
  simp only [SocketAddress.hash, UInt64.toNat_or, UInt64.toNat_shiftLeft, Nat.or_mod_two_pow,
    UInt32.toNat_toUInt64, Nat.shiftLeft_eq, by32, by48, shifted, shifted', Nat.or_zero]
  omega

/-- Two multiples of one hash. -/
theorem mul_hash_eq_iff (code x y : UInt64) :
    code * (31 + x) = code * (31 + y) ↔ code.toNat * (x - y).toNat % 2 ^ 64 = 0 := by
  have factor : code * (31 + x) = code * (31 + y) ↔ code * (x - y) = 0 := by grind
  rw [factor, ← UInt64.toNat_inj, UInt64.toNat_mul]
  rfl

/-- Where the contexts lie a multiple of `2 ^ 32` apart, only the IP address decides. -/
theorem hash_eq_iff {address : SocketAddress} {x y : UInt64} (apart : (x - y).toNat % 2 ^ 32 = 0) :
    hash address (some x) = hash address (some y) ↔
      address.s_addr.toNat * ((x - y).toNat / 2 ^ 32) % 2 ^ 32 = 0 := by
  rw [hash, hash, mul_hash_eq_iff]
  obtain ⟨m, multiple⟩ : ∃ m, (x - y).toNat = 2 ^ 32 * m := ⟨(x - y).toNat / 2 ^ 32, by omega⟩
  have product : address.hash.toNat * (x - y).toNat % 2 ^ 64 =
      2 ^ 32 * (address.s_addr.toNat * m % 2 ^ 32) := by
    calc address.hash.toNat * (x - y).toNat % 2 ^ 64
        = 2 ^ 32 * (address.hash.toNat * m) % (2 ^ 32 * 2 ^ 32) := by
          rw [multiple, Nat.mul_left_comm, ← pow_add]
      _ = 2 ^ 32 * (address.hash.toNat * m % 2 ^ 32) := Nat.mul_mod_mul_left ..
      _ = 2 ^ 32 * (address.s_addr.toNat * m % 2 ^ 32) := by rw [← hash_low, Nat.mod_mul_mod]
  rw [product, multiple, Nat.mul_div_cancel_left _ (by decide)]
  omega

theorem toInt_eq_zero_iff (n : Nat) : toInt n = 0 ↔ n % 2 ^ 32 = 0 := by
  rw [toInt, Int.bmod_def]
  split <;> omega

/-- A TLS key and a TLS connection to one address. -/
theorem tls_equal_hash_iff (address : SocketAddress) (tlsKey : TLSKey) (socket : ClientTLSSocket) :
    (compare ⟨address, some tlsKey⟩ ⟨address, some socket⟩ = some 0 →
        hash address (some tlsKey.rawContext) = hash address (some socket.rawContext)) ↔
      ¬ Far ⟨address, some tlsKey⟩ ⟨address, some socket⟩ := by
  have self := (SocketAddress.compare_eq_zero_iff (a := address)).2 rfl
  simp only [compare, self, ne_eq, not_true_eq_false, if_false, Far, true_and, Option.mem_some_iff,
    exists_eq_left', not_and, not_not]
  by_cases same : tlsKey.rawContext - socket.rawContext = 0
  · have equal : tlsKey.rawContext = socket.rawContext := by grind
    simp [equal]
  · simp only [same, not_false_eq_true, if_true, Option.some.injEq, toInt_eq_zero_iff]
    exact forall_congr' fun apart => hash_eq_iff apart

/-- A key that is equal to a connection has its hash, except where their contexts are far apart. -/
theorem equal_hash_iff (key : PoolKey) (object : PoolObject) :
    (compare key object = some 0 → keyHash key = objectHash object) ↔ ¬ Far key object := by
  obtain ⟨address, tls⟩ := key
  obtain ⟨address', tls'⟩ := object
  by_cases same : address = address'
  · subst same
    cases tls with
    | none => cases tls' <;> simp [compare, Far, keyHash, objectHash]
    | some tlsKey =>
        cases tls' with
        | none => simp [compare, Far]
        | some socket => exact tls_equal_hash_iff address tlsKey socket
  · have apart := mt SocketAddress.compare_eq_zero_iff.1 same
    cases tls <;> cases tls' <;> simp [compare, Far, same, apart]

/-- The addresses are ordered, with each equal only to itself and hashed alike, and the keys are
hashed as the connections they are equal to, exactly if the addresses of each transport and port lie
within half of the circle and no key is far from a connection. -/
theorem orders_and_hashes_iff (S : Set SocketAddress) (keys : Set PoolKey) (objects : Set PoolObject) :
    (OrdersOn SocketAddress.compare S ∧
      (∀ a ∈ S, ∀ b ∈ S, (a.compare b = 0 ↔ a = b) ∧ (a.compare b = 0 → a.hash = b.hash)) ∧
      ∀ key ∈ keys, ∀ object ∈ objects,
        compare key object = some 0 → keyHash key = objectHash object) ↔
    SocketAddress.HalfCircle S ∧ ∀ key ∈ keys, ∀ object ∈ objects, ¬ Far key object := by
  constructor
  · rintro ⟨orders, -, law⟩
    refine ⟨(SocketAddress.compare_orders_iff S).1 orders, fun key hk object ho => ?_⟩
    exact (equal_hash_iff key object).1 (law key hk object ho)
  · rintro ⟨half, near⟩
    refine ⟨(SocketAddress.compare_orders_iff S).2 half, fun a _ b _ => ?_, fun key hk object ho => ?_⟩
    · refine ⟨SocketAddress.compare_eq_zero_iff, fun same => ?_⟩
      rw [SocketAddress.compare_eq_zero_iff.1 same]
    · exact (equal_hash_iff key object).2 (near key hk object ho)

/-- Of the addresses with the bits 0 and `2 ^ 31` each comes before the other. -/
theorem opposite_addresses :
    SocketAddress.compare ⟨0, 80, .TCP⟩ ⟨0x80000000, 80, .TCP⟩ = -2 ^ 31 ∧
      SocketAddress.compare ⟨0x80000000, 80, .TCP⟩ ⟨0, 80, .TCP⟩ = -2 ^ 31 := by
  decide

end ConnectionPool

end Everscale
