/-
# Everscale.Http1.UriOrder -- the order of request URIs

`HttpRequestUri::Compare` is documented as zero for equal URIs, negative for a smaller and positive
for a greater one.  It compares the types first and then, among HTTP or HTTPS URIs, five components
one after another; each of these comparisons is an order, and so is the chain of them
(`componentwise_orders`).  The types are not: a type other than `http` comes before every other type,
whichever of the two arguments it is.  So a set of URIs is ordered exactly if those that are not
HTTP URIs have one type (`Compare_orders_iff`).
-/
import Mathlib.Data.List.Lex
import Mathlib.Order.WithBot
import Everscale.Theory.Comparison
import Everscale.Http1.RequestParser

namespace Everscale

set_option autoImplicit false

open Theory

/-! ## Strings -/

/-- Strings without NUL compare as the lists of their octets do, octet by octet. -/
theorem lexDifference_neg_iff {s t : List Octet} (hs : NUL ∉ s) (ht : NUL ∉ t) :
    lexDifference s t < 0 ↔ s.map UInt8.toNat < t.map UInt8.toNat := by
  induction s generalizing t with
  | nil =>
      cases t with
      | nil => simp [lexDifference]
      | cons d ds =>
          have : d ≠ 0 := fun zero => ht (by simp [zero])
          have : d.toNat ≠ 0 := fun zero => this (UInt8.toNat_inj.1 zero)
          simp only [lexDifference, List.map_nil, List.map_cons, List.nil_lt_cons, iff_true]
          omega
  | cons c cs ih =>
      cases t with
      | nil => simp [lexDifference]
      | cons d ds =>
          simp only [lexDifference, List.map_cons, List.cons_lt_cons_iff]
          split
          · rename_i same
            rw [ih (fun h => hs (by simp [h])) (fun h => ht (by simp [h])), same]
            simp
          · rename_i differ
            have : c.toNat ≠ d.toNat := fun h => differ (UInt8.toNat_inj.1 h)
            simp only [this, false_and, or_false]
            omega

/-- A comparison of strings that goes through some list without NUL made from each. -/
theorem lexDifference_orders (f : List Octet → List Octet) (plain : ∀ s, NUL ∉ f s) :
    OrdersOn (fun s t => lexDifference (f s) (f t)) Set.univ :=
  .of_key (fun s => (f s).map UInt8.toNat)
    (fun s _ t _ => lexDifference_neg_iff (plain s) (plain t))
    fun s _ t _ => by
      rw [← lexDifference_neg_iff (plain t) (plain s), lexDifference_swap (f s) (f t)]
      omega

theorem strcmp_orders : OrdersOn strcmp Set.univ := lexDifference_orders cstr nul_notMem_cstr

theorem strcasecmp_orders : OrdersOn strcasecmp Set.univ :=
  lexDifference_orders (fun s => (cstr s).map toLower) nul_notMem_lowered

namespace HttpRequestUri

theorem compareOptional_orders {compare : List Octet → List Octet → Int}
    (h : OrdersOn compare Set.univ) : OrdersOn (compareOptional compare) Set.univ where
  opposite a _ b _ := by
    cases a with
    | none => cases b <;> rfl
    | some s =>
        cases b with
        | none => rfl
        | some t => exact h.opposite s trivial t trivial
  trans a _ b _ c _ le le' := by
    cases a with
    | none => cases c <;> simp [compareOptional]
    | some s =>
        cases b with
        | none => simp [compareOptional] at le
        | some t =>
            cases c with
            | none => simp [compareOptional] at le'
            | some u => exact h.trans s trivial t trivial u trivial le le'

theorem compareOptional_eq_zero_iff {compare : List Octet → List Octet → Int}
    {f : List Octet → List Octet} (zero : ∀ s t, compare s t = 0 ↔ f s = f t)
    (a b : Option (List Octet)) : compareOptional compare a b = 0 ↔ a.map f = b.map f := by
  cases a <;> cases b <;> simp [compareOptional, zero]

/-! ## Components -/

/-- The comparison of the types, which are told apart by whether they are `http`. -/
def compareTypes (r1 r2 : HttpRequestUri) : Int :=
  if r1.type = r2.type then 0 else if r1.type = .http then 1 else -1

/-- The comparison of two HTTP or two HTTPS URIs. -/
def componentwise : HttpRequestUri → HttpRequestUri → Int :=
  thenBy (fun r1 r2 => compareOptional strcasecmp r1.host r2.host)
    (thenBy (fun r1 r2 => r1.effectivePort - r2.effectivePort)
      (thenBy (fun r1 r2 => strcmp (r1.absPath.getD (octets "/")) (r2.absPath.getD (octets "/")))
        fun r1 r2 => compareOptional strcmp r1.query r2.query))

/-- The comparison of two URIs of one type. -/
def compareSame (r1 r2 : HttpRequestUri) : Int :=
  if r1.type = .asterisk then 0
  else if r1.type = .other then strcmp (r1.other.getD []) (r2.other.getD [])
  else componentwise r1 r2

theorem Compare_eq (r1 r2 : HttpRequestUri) : Compare r1 r2 = thenBy compareTypes compareSame r1 r2 := by
  unfold Compare thenBy compareTypes compareSame
  by_cases same : r1.type = r2.type
  · cases type : r2.type <;> simp [same, type, componentwise, thenBy]
  · have apart : ∀ type, ¬ (r1.type = type ∧ r2.type = type) := by
      rintro _ ⟨eq, eq'⟩
      exact same (eq.trans eq'.symm)
    simp only [apart, same, if_false, ne_eq, not_false_eq_true, if_true]
    split <;> simp

theorem componentwise_orders : OrdersOn componentwise Set.univ := by
  have hosts := (compareOptional_orders strcasecmp_orders).comap (S := Set.univ) HttpRequestUri.host
    fun _ _ => trivial
  have paths := strcmp_orders.comap (S := Set.univ)
    (fun uri : HttpRequestUri => uri.absPath.getD (octets "/")) fun _ _ => trivial
  have queries := (compareOptional_orders strcmp_orders).comap (S := Set.univ) HttpRequestUri.query
    fun _ _ => trivial
  apply hosts.thenBy
  refine fun _ _ => .mono ?_ (Set.subset_univ _)
  apply (OrdersOn.sub_key effectivePort).thenBy
  refine fun _ _ => .mono ?_ (Set.subset_univ _)
  apply paths.thenBy
  exact fun _ _ => queries.mono (Set.subset_univ _)

/-- Within one type the comparison is an order. -/
theorem compareSame_orders (type : UriType) : OrdersOn compareSame {uri | uri.type = type} := by
  cases type with
  | asterisk =>
      refine (OrdersOn.sub_key fun _ => 0).congr fun a ha b _ => ?_
      simp [compareSame, show a.type = .asterisk from ha]
  | other =>
      refine (strcmp_orders.comap (fun uri : HttpRequestUri => uri.other.getD [])
        fun _ _ => trivial).congr fun a ha b _ => ?_
      simp [compareSame, show a.type = .other from ha]
  | http =>
      refine (componentwise_orders.mono (Set.subset_univ _)).congr fun a ha b _ => ?_
      simp [compareSame, show a.type = .http from ha]
  | https =>
      refine (componentwise_orders.mono (Set.subset_univ _)).congr fun a ha b _ => ?_
      simp [compareSame, show a.type = .https from ha]

/-- The URIs that are not HTTP URIs have one type. -/
def OneOtherType (S : Set HttpRequestUri) : Prop :=
  ∀ a ∈ S, ∀ b ∈ S, a.type ≠ .http → b.type ≠ .http → a.type = b.type

theorem compareTypes_orders {S : Set HttpRequestUri} (one : OneOtherType S) :
    OrdersOn compareTypes S := by
  refine .of_key (fun uri : HttpRequestUri => if uri.type = .http then 1 else 0) ?_ ?_
  all_goals
    intro a ha b hb
    have one := one a ha b hb
    unfold compareTypes
    by_cases http : a.type = .http <;> by_cases http' : b.type = .http
    · simp [http, http']
    · simp [http, http', Ne.symm http']
    · simp [http, http']
    · simp [one http http', http']

/-! ## URIs that compare as equal -/

/-- HTTP or HTTPS URIs that name the same resource: the host is read without regard to case, a
missing port is that of the scheme and a missing path is the root. -/
structure Same (a b : HttpRequestUri) : Prop where
  type : a.type = b.type
  host : (a.host.map fun s => (cstr s).map toLower) = b.host.map fun s => (cstr s).map toLower
  port : a.effectivePort = b.effectivePort
  path : cstr (a.absPath.getD (octets "/")) = cstr (b.absPath.getD (octets "/"))
  query : a.query.map cstr = b.query.map cstr

def IsHttp (uri : HttpRequestUri) : Prop := uri.type = .http ∨ uri.type = .https

theorem componentwise_eq_zero_iff (a b : HttpRequestUri) :
    componentwise a b = 0 ↔
      (a.host.map fun s => (cstr s).map toLower) = (b.host.map fun s => (cstr s).map toLower) ∧
      a.effectivePort = b.effectivePort ∧
      cstr (a.absPath.getD (octets "/")) = cstr (b.absPath.getD (octets "/")) ∧
      a.query.map cstr = b.query.map cstr := by
  simp only [componentwise, thenBy_eq_zero_iff, compareOptional_eq_zero_iff strcasecmp_eq_zero_iff,
    compareOptional_eq_zero_iff strcmp_eq_zero_iff, strcmp_eq_zero_iff, sub_eq_zero]

theorem Compare_eq_zero_iff {a b : HttpRequestUri} (ha : a.IsHttp) :
    Compare a b = 0 ↔ Same a b := by
  have types : compareTypes a b = 0 ↔ a.type = b.type := by
    unfold compareTypes
    split
    · simpa
    · split <;> simpa
  have within : compareSame a b = componentwise a b := by
    rcases ha with type | type <;> simp [compareSame, type]
  rw [Compare_eq, thenBy_eq_zero_iff, types, within, componentwise_eq_zero_iff]
  constructor
  · rintro ⟨type, host, port, path, query⟩
    exact ⟨type, host, port, path, query⟩
  · rintro ⟨type, host, port, path, query⟩
    exact ⟨type, host, port, path, query⟩

/-- Two types other than `http` come before each other. -/
theorem Compare_of_other_types {a b : HttpRequestUri} (ha : a.type ≠ .http) (ne : a.type ≠ b.type) :
    Compare a b = -1 := by
  simp [Compare_eq, thenBy, compareTypes, ne, ha]

/-- A set of URIs is ordered, with the same URIs as its equal ones, exactly if those that are not
HTTP URIs have one type. -/
theorem Compare_orders_iff (S : Set HttpRequestUri) :
    (OrdersOn Compare S ∧
      ∀ a ∈ S, ∀ b ∈ S, a.IsHttp → b.IsHttp → (Compare a b = 0 ↔ Same a b)) ↔ OneOtherType S := by
  constructor
  · rintro ⟨orders, -⟩ a ha b hb other other'
    by_contra ne
    have opposite := orders.opposite a ha b hb
    rw [Compare_of_other_types other ne, Compare_of_other_types other' (Ne.symm ne)] at opposite
    exact absurd opposite (by decide)
  · intro one
    have first := compareTypes_orders one
    refine ⟨.congr (first.thenBy fun a ha => ?_) fun a _ b _ => Compare_eq a b,
      fun a _ b _ ha _ => Compare_eq_zero_iff ha⟩
    refine (compareSame_orders a.type).mono fun b ⟨_, tie⟩ => ?_
    by_contra ne
    have ne : a.type ≠ b.type := fun eq => ne eq.symm
    simp only [compareTypes, ne, if_false] at tie
    split at tie <;> cases tie

/-- What the parser makes of a request target. -/
def parseTarget (target : String) : Outcome Error HttpRequestUriParser Buffer :=
  HttpRequestUriParser.parse { working := Buffer.create 64, requestUri := {} }
    ((Buffer.create 64).fill (octets target))

/-- `*` comes before `https://a`, which comes before `*`. -/
theorem asterisk_and_https :
    (parseTarget "* ").code = .success ∧ (parseTarget "https://a ").code = .success ∧
      Compare (parseTarget "* ").state.requestUri (parseTarget "https://a ").state.requestUri = -1 ∧
      Compare (parseTarget "https://a ").state.requestUri (parseTarget "* ").state.requestUri = -1 := by
  decide

end HttpRequestUri

end Everscale
