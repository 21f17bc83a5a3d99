/-
# Everscale.Base.SharedEmbeddedMap -- the elements of a map and their count

All the elements in the buckets are a multiset (`EmbeddedMapBase.elements`).  What one call does to
it, where its elements stand and what it does to the count is said once for each of the functions
that change a bucket (`Housed.insert` and so on); from these come the calls of the derived classes,
which look for a key, or for an element, in the bucket of its hash.

`removeElement` and `clear` take elements out and leave the count as it is, so that the count is
that of the elements as long as these two find nothing (`KeepsCount`).
-/
import Everscale.Base.EmbeddedMapBase
import Mathlib.Algebra.BigOperators.Group.Finset.Basic
import Mathlib.Algebra.Order.Group.Multiset
import Mathlib.Logic.Relation

namespace Everscale

set_option autoImplicit false

/-- The callbacks of a map.  Keys that compare equal are hashed alike. -/
structure MapCallbacks (ε κ : Type) where
  key : ε → κ
  /-- whether `compare` returns zero -/
  equal : κ → κ → Bool
  hash : κ → Nat
  agree : ∀ {k k' : κ}, equal k k' = true → hash k = hash k'

namespace EmbeddedMapBase

variable {ε κ : Type}

/-- Everything in the buckets. -/
def elements (m : EmbeddedMapBase ε) : Multiset ε := ∑ b ∈ Finset.range m.numBuckets, (m.buckets b : Multiset ε)

theorem inc_numBuckets (m : EmbeddedMapBase ε) : m.inc.numBuckets = m.numBuckets := rfl

theorem inc_buckets (m : EmbeddedMapBase ε) : m.inc.buckets = m.buckets := rfl

theorem dec_numBuckets (m : EmbeddedMapBase ε) : m.dec.numBuckets = m.numBuckets := rfl

theorem dec_buckets (m : EmbeddedMapBase ε) : m.dec.buckets = m.buckets := rfl

@[simp] theorem elements_inc (m : EmbeddedMapBase ε) : m.inc.elements = m.elements := by
  unfold elements
  rw [inc_numBuckets, inc_buckets]

@[simp] theorem elements_dec (m : EmbeddedMapBase ε) : m.dec.elements = m.elements := by
  unfold elements
  rw [dec_numBuckets, dec_buckets]

theorem bucket_inc (m : EmbeddedMapBase ε) (hash : Nat) : m.inc.bucket hash = m.bucket hash := by
  unfold bucket
  rw [inc_numBuckets]

theorem bucket_dec (m : EmbeddedMapBase ε) (hash : Nat) : m.dec.bucket hash = m.bucket hash := by
  unfold bucket
  rw [dec_numBuckets]

theorem bucket_lt {m : EmbeddedMapBase ε} {hash b : Nat} (here : m.bucket hash = some b) : b < m.numBuckets := by
  unfold bucket at here
  split_ifs at here with none
  rw [← Option.some.inj here]
  exact Nat.mod_lt _ (Nat.pos_of_ne_zero none)

/-- One bucket and the rest of the map. -/
theorem elements_set (m : EmbeddedMapBase ε) {b : Nat} (inside : b < m.numBuckets) :
    ∃ rest, m.elements = m.buckets b + rest ∧ ∀ l, (m.set b l).elements = l + rest := by
  have member : b ∈ Finset.range m.numBuckets := Finset.mem_range.mpr inside
  refine ⟨∑ i ∈ (Finset.range m.numBuckets).erase b, (m.buckets i : Multiset ε), ?_, fun l => ?_⟩
  · exact (Finset.add_sum_erase _ _ member).symm
  · rw [elements, set_numBuckets, ← Finset.add_sum_erase _ _ member, set_self]
    congr 1
    exact Finset.sum_congr rfl fun i other => by rw [set_ne m l (Finset.ne_of_mem_erase other)]

theorem mem_elements {m : EmbeddedMapBase ε} {e : ε} : e ∈ m.elements ↔ ∃ b < m.numBuckets, e ∈ m.buckets b := by
  simp [elements, Multiset.mem_sum]

/-! ## Where the elements stand -/

/-- Every element is in the bucket of its key's hash. -/
structure Housed (callbacks : MapCallbacks ε κ) (m : EmbeddedMapBase ε) : Prop where
  housed : ∀ b, ∀ e ∈ m.buckets b, m.bucket (callbacks.hash (callbacks.key e)) = some b
  unallocated : m.allocated = false → ∀ b, m.buckets b = []

section housed

variable {callbacks : MapCallbacks ε κ} {m : EmbeddedMapBase ε} {b : Nat} {l : List ε} {k : κ} {value : ε}

theorem new_housed (numBuckets : Nat) (allocated : Error) : Housed callbacks (new numBuckets allocated) :=
  ⟨nofun, fun _ _ => rfl⟩

theorem Housed.set (h : Housed callbacks m) (own : ∀ e ∈ l, m.bucket (callbacks.hash (callbacks.key e)) = some b)
    (allocated : m.allocated = false → l = []) : Housed callbacks (m.set b l) := by
  refine ⟨fun b' e member => ?_, fun unallocated b' => ?_⟩
  · rcases eq_or_ne b' b with rfl | ne
    · rw [set_self] at member
      exact own e member
    · rw [set_ne m l ne] at member
      exact h.housed b' e member
  · rcases eq_or_ne b' b with rfl | ne
    · rw [set_self]
      exact allocated unallocated
    · rw [set_ne m l ne]
      exact h.unallocated unallocated b'

theorem Housed.inc (h : Housed callbacks m) : Housed callbacks m.inc :=
  ⟨fun b e member => (bucket_inc m _).trans (h.housed b e member), h.unallocated⟩

theorem Housed.dec (h : Housed callbacks m) : Housed callbacks m.dec :=
  ⟨fun b e member => (bucket_dec m _).trans (h.housed b e member), h.unallocated⟩

/-- What a search finds can be taken to the front. -/
theorem perm_eraseP {same : ε → Bool} {e : ε} (found : l.find? same = some e) : l.Perm (e :: l.eraseP same) := by
  induction l with
  | nil => cases found
  | cons e' rest ih =>
      rw [List.find?_cons] at found
      cases here : same e' with
      | true =>
          rw [here] at found
          obtain rfl := Option.some.inj found
          rw [List.eraseP_cons_of_pos here]
      | false =>
          rw [here] at found
          rw [List.eraseP_cons_of_neg (by simp [here])]
          exact ((ih found).cons e').trans (List.Perm.swap e e' _)

/-- What the bucket of a key does not have, no bucket has. -/
theorem Housed.nowhere (h : Housed callbacks m) (here : m.bucket (callbacks.hash k) = some b)
    (none : ∀ e ∈ m.buckets b, callbacks.equal k (callbacks.key e) = false) :
    ∀ e ∈ m.elements, callbacks.equal k (callbacks.key e) = false := by
  intro e member
  obtain ⟨b', -, inside⟩ := mem_elements.mp member
  by_contra equal
  have hashed := callbacks.agree (Bool.eq_true_of_not_eq_false equal)
  have same : b' = b := Option.some.inj ((h.housed b' e inside).symm.trans (hashed ▸ here))
  exact equal (none e (same ▸ inside))

theorem Housed.insert (h : Housed callbacks m) (here : m.bucket (callbacks.hash (callbacks.key value)) = some b) :
    m.allocated = false ∧ m.insert b value = (.outOfMemory, m) ∨
      ∃ m', m.insert b value = (.success, m') ∧ Housed callbacks m' ∧ m'.elements = value ::ₘ m.elements ∧
        m'.numElements = (m.numElements + 1) % 2 ^ 32 := by
  cases allocated : m.allocated with
  | false => exact .inl ⟨rfl, by rw [EmbeddedMapBase.insert, if_pos allocated]⟩
  | true =>
      obtain ⟨rest, before, after⟩ := m.elements_set (bucket_lt here)
      have housed := h.set (l := value :: m.buckets b) (b := b)
        (List.forall_mem_cons.mpr ⟨here, h.housed b⟩) (fun unallocated => by rw [allocated] at unallocated; cases unallocated)
      refine .inr ⟨_, by rw [EmbeddedMapBase.insert, if_neg (by simp [allocated])], housed.inc, ?_, rfl⟩
      rw [elements_inc, after, before, ← Multiset.cons_coe, Multiset.cons_add]

/-- A lookup only changes the order in a bucket. -/
theorem Housed.find (h : Housed callbacks m) (inside : b < m.numBuckets) (same : ε → Bool) :
    ∃ m', m.find b same = ((m.buckets b).find? same, m') ∧ Housed callbacks m' ∧ m'.elements = m.elements ∧
      m'.numElements = m.numElements ∧ m'.numBuckets = m.numBuckets ∧ m'.allocated = m.allocated ∧
      ∀ e, (m.buckets b).find? same = some e → ∃ rest, m' = m.set b (e :: rest) ∧ (m.buckets b).Perm (e :: rest) := by
  rw [EmbeddedMapBase.find]
  cases allocated : m.allocated with
  | false =>
      rw [if_pos rfl, h.unallocated allocated b]
      exact ⟨m, rfl, h, rfl, rfl, rfl, allocated, by simp⟩
  | true =>
      rw [if_neg (by simp)]
      cases found : (m.buckets b).find? same with
      | none => exact ⟨m, rfl, h, rfl, rfl, rfl, allocated, by simp⟩
      | some e =>
          have member := List.mem_of_find?_eq_some found
          have perm := perm_eraseP found
          obtain ⟨rest, before, after⟩ := m.elements_set inside
          refine ⟨_, rfl, h.set (fun e' inside => h.housed b e' (perm.mem_iff.mpr inside)) ?_, ?_, rfl, rfl, allocated,
            fun e' same => ?_⟩
          · intro unallocated
            rw [allocated] at unallocated
            cases unallocated
          · rw [after, before, Multiset.coe_eq_coe.mpr perm]
          · obtain rfl := Option.some.inj same
            exact ⟨_, rfl, perm⟩

theorem Housed.remove (h : Housed callbacks m) (inside : b < m.numBuckets) (same : ε → Bool) :
    (m.buckets b).find? same = none ∧ m.remove b same = (none, m) ∨
      ∃ e m', (m.buckets b).find? same = some e ∧ m.remove b same = (some e, m') ∧ Housed callbacks m' ∧
        m.elements = e ::ₘ m'.elements ∧
        m'.numElements = if m.numElements = 0 then 2 ^ 32 - 1 else m.numElements - 1 := by
  rw [EmbeddedMapBase.remove]
  cases allocated : m.allocated with
  | false =>
      rw [if_pos rfl, h.unallocated allocated b]
      exact .inl ⟨rfl, rfl⟩
  | true =>
      rw [if_neg (by simp)]
      cases found : (m.buckets b).find? same with
      | none => exact .inl ⟨rfl, rfl⟩
      | some e =>
          have perm := perm_eraseP found
          obtain ⟨rest, before, after⟩ := m.elements_set inside
          have housed := h.set (l := (m.buckets b).eraseP same) (b := b)
            (fun e' left => h.housed b e' (perm.mem_iff.mpr (List.mem_cons_of_mem e left)))
            (fun unallocated => by rw [allocated] at unallocated; cases unallocated)
          refine .inr ⟨e, _, rfl, rfl, housed.dec, ?_, rfl⟩
          rw [elements_dec, after, before, Multiset.coe_eq_coe.mpr perm, ← Multiset.cons_coe, Multiset.cons_add]

/-- An element that stands in the bucket is taken out of it, and not counted. -/
theorem Housed.removeElement (h : Housed callbacks m) (inside : b < m.numBuckets) {same : ε → Bool} {e : ε}
    (found : (m.buckets b).find? same = some e) :
    Housed callbacks (m.removeElement b same) ∧ m.elements = e ::ₘ (m.removeElement b same).elements ∧
      (m.removeElement b same).numElements = m.numElements := by
  have allocated : ¬ m.allocated = false := fun unallocated => by
    rw [h.unallocated unallocated b] at found
    cases found
  have perm := perm_eraseP found
  obtain ⟨rest, before, after⟩ := m.elements_set inside
  rw [EmbeddedMapBase.removeElement, if_neg allocated]
  refine ⟨h.set (fun e' left => h.housed b e' (perm.mem_iff.mpr (List.mem_cons_of_mem e left)))
    (fun unallocated => absurd unallocated allocated), ?_, rfl⟩
  rw [after, before, Multiset.coe_eq_coe.mpr perm, ← Multiset.cons_coe, Multiset.cons_add]

/-- Some buckets are emptied, one after another. -/
theorem Housed.clearBuckets (h : Housed callbacks m) (cleaned : List ε) (buckets : List Nat)
    (inside : ∀ b ∈ buckets, b < m.numBuckets) :
    ∃ cleaned' m', buckets.foldl (fun (cleaned, m) bucket => (cleaned ++ m.buckets bucket, m.set bucket []))
        (cleaned, m) = (cleaned', m') ∧ Housed callbacks m' ∧ (cleaned' : Multiset ε) + m'.elements = cleaned + m.elements ∧
      (∀ b, b ∈ buckets ∨ m.buckets b = [] → m'.buckets b = []) ∧ m'.numElements = m.numElements ∧
      m'.numBuckets = m.numBuckets := by
  induction buckets generalizing cleaned m with
  | nil => exact ⟨cleaned, m, rfl, h, rfl, fun b empty => empty.resolve_left List.not_mem_nil, rfl, rfl⟩
  | cons b buckets ih =>
      obtain ⟨rest, before, after⟩ := m.elements_set (inside b List.mem_cons_self)
      obtain ⟨cleaned', m', folded, housed, sum, empty, count, same⟩ := ih (h.set (l := []) nofun fun _ => rfl)
        (cleaned ++ m.buckets b) fun b' later => inside b' (List.mem_cons_of_mem b later)
      refine ⟨cleaned', m', folded, housed, ?_, fun b' gone => empty b' ?_, count, same⟩
      · rw [sum, after, before, ← Multiset.coe_add, add_assoc, Multiset.coe_nil, zero_add]
      · rcases eq_or_ne b' b with rfl | ne
        · exact .inr (set_self m b' [])
        · rw [set_ne m [] ne]
          exact gone.imp_left fun member => (List.mem_cons.mp member).resolve_left ne

theorem elements_eq_zero (empty : ∀ b < m.numBuckets, m.buckets b = []) : m.elements = 0 := by
  refine Multiset.eq_zero_of_forall_notMem fun e member => ?_
  obtain ⟨b, inside, here⟩ := mem_elements.mp member
  rw [empty b inside] at here
  cases here

theorem elements_new (numBuckets : Nat) (allocated : Error) : (new numBuckets allocated : EmbeddedMapBase ε).elements = 0 :=
  elements_eq_zero fun _ _ => rfl

theorem Housed.clear (h : Housed callbacks m) {cleaned : List ε} {m' : EmbeddedMapBase ε}
    (cleared : m.clear = some (cleaned, m')) :
    Housed callbacks m' ∧ (cleaned : Multiset ε) = m.elements ∧ m'.elements = 0 ∧ m'.numElements = m.numElements := by
  obtain ⟨cleaned', m'', folded, housed, sum, empty, count, same⟩ :=
    h.clearBuckets [] (List.range m.numBuckets) fun b member => List.mem_range.mp member
  unfold EmbeddedMapBase.clear at cleared
  split_ifs at cleared
  rw [folded] at cleared
  obtain ⟨rfl, rfl⟩ := Prod.mk.inj (Option.some.inj cleared)
  have none : m''.elements = 0 := elements_eq_zero fun b inside => empty b (.inl (List.mem_range.mpr (same ▸ inside)))
  rw [none, add_zero, Multiset.coe_nil, zero_add] at sum
  exact ⟨housed, sum, none, count⟩

end housed

/-! ## Calls -/

/-- The calls of a derived class.  An element that is inserted is in no list, and one that is taken
out of a bucket is in it, as `EmbeddedList` asserts. -/
inductive MapCall (ε κ : Type) where
  | insert (value : ε)
  | find (key : κ)
  | remove (key : κ)
  | removeElement (value : ε)
  | clear

inductive MapAnswer (ε : Type) where
  | returned (error : Error)
  | element (found : Option ε)
  | done
  /-- these went to `cleanup` -/
  | cleared (cleaned : List ε)
  deriving DecidableEq, Repr

section calls

variable [DecidableEq ε] (callbacks : MapCallbacks ε κ)

/-- Each call goes to the bucket of the key. -/
def perform (m : EmbeddedMapBase ε) : MapCall ε κ → Option (MapAnswer ε × EmbeddedMapBase ε)
  | .insert value =>
      (m.bucket (callbacks.hash (callbacks.key value))).bind fun bucket =>
        if value ∈ m.buckets bucket then none
        else
          let (error, m) := m.insert bucket value
          some (.returned error, m)
  | .find key =>
      (m.bucket (callbacks.hash key)).map fun bucket =>
        let (found, m) := m.find bucket fun e => callbacks.equal key (callbacks.key e)
        (.element found, m)
  | .remove key =>
      (m.bucket (callbacks.hash key)).map fun bucket =>
        let (found, m) := m.remove bucket fun e => callbacks.equal key (callbacks.key e)
        (.element found, m)
  | .removeElement value =>
      (m.bucket (callbacks.hash (callbacks.key value))).bind fun bucket =>
        if m.allocated = true ∧ value ∉ m.buckets bucket then none
        else some (.done, m.removeElement bucket fun e => e = value)
  | .clear => m.clear.map fun (cleaned, m) => (.cleared cleaned, m)

/-- What a call says that becomes of the elements. -/
inductive Changes : MapCall ε κ → MapAnswer ε → Multiset ε → Multiset ε → Prop where
  | inserted {value E} : Changes (.insert value) (.returned .success) E (value ::ₘ E)
  | notInserted {value E} : Changes (.insert value) (.returned .outOfMemory) E E
  | found {key e E} : e ∈ E → callbacks.equal key (callbacks.key e) = true → Changes (.find key) (.element (some e)) E E
  | notFound {key E} : (∀ e ∈ E, callbacks.equal key (callbacks.key e) = false) →
      Changes (.find key) (.element none) E E
  | removed {key e E} : callbacks.equal key (callbacks.key e) = true →
      Changes (.remove key) (.element (some e)) (e ::ₘ E) E
  | notRemoved {key E} : (∀ e ∈ E, callbacks.equal key (callbacks.key e) = false) →
      Changes (.remove key) (.element none) E E
  | elementRemoved {value E} : Changes (.removeElement value) .done (value ::ₘ E) E
  | nothingToRemove {value} : Changes (.removeElement value) .done 0 0
  | cleared {cleaned : List ε} : Changes .clear (.cleared cleaned) cleaned 0

/-- Nothing is taken out that is not counted, and the count has 32 bits. -/
def KeepsCount (m : EmbeddedMapBase ε) : MapCall ε κ → Prop
  | .insert _ => m.elements.card + 1 < 2 ^ 32
  | .removeElement _ => m.allocated = false
  | .clear => m.elements = 0
  | _ => True

instance (m : EmbeddedMapBase ε) : (call : MapCall ε κ) → Decidable (m.KeepsCount call)
  | .insert _ => inferInstanceAs (Decidable (_ < _))
  | .removeElement _ => inferInstanceAs (Decidable (_ = false))
  | .clear => inferInstanceAs (Decidable (m.elements = 0))
  | .find _ => isTrue trivial
  | .remove _ => isTrue trivial

variable {callbacks} {m m' : EmbeddedMapBase ε} {call : MapCall ε κ} {answer : MapAnswer ε}

/-- **One call**: what becomes of the elements, where they stand, and of their count if nothing is
taken out behind its back. -/
theorem Housed.perform (h : Housed callbacks m) (performed : m.perform callbacks call = some (answer, m')) :
    Housed callbacks m' ∧ Changes callbacks call answer m.elements m'.elements ∧
      (m.numElements = m.elements.card → KeepsCount m call → m'.numElements = m'.elements.card) := by
  cases call with
  | insert value =>
      obtain ⟨b, here, performed⟩ := Option.bind_eq_some_iff.mp performed
      split_ifs at performed
      rcases h.insert here with ⟨-, refused⟩ | ⟨m'', inserted, housed, elements, count⟩
      · rw [refused] at performed
        obtain ⟨rfl, rfl⟩ := Prod.mk.inj (Option.some.inj performed)
        exact ⟨h, .notInserted, fun counted _ => counted⟩
      · rw [inserted] at performed
        obtain ⟨rfl, rfl⟩ := Prod.mk.inj (Option.some.inj performed)
        rw [elements]
        refine ⟨housed, .inserted, fun counted fits => ?_⟩
        rw [count, counted, Multiset.card_cons, Nat.mod_eq_of_lt fits]
  | find key =>
      obtain ⟨b, here, performed⟩ := Option.map_eq_some_iff.mp performed
      obtain ⟨m'', sought, housed, elements, count, -⟩ :=
        h.find (bucket_lt here) fun e => callbacks.equal key (callbacks.key e)
      rw [sought] at performed
      obtain ⟨rfl, rfl⟩ := Prod.mk.inj performed
      rw [elements, count]
      refine ⟨housed, ?_, fun counted _ => counted⟩
      cases found : (m.buckets b).find? fun e => callbacks.equal key (callbacks.key e) with
      | none => exact .notFound (h.nowhere here fun e inside => by simpa using List.find?_eq_none.mp found e inside)
      | some e =>
          have inside := mem_elements.mpr ⟨b, bucket_lt here, List.mem_of_find?_eq_some found⟩
          exact .found inside (List.find?_some (p := fun e => callbacks.equal key (callbacks.key e)) found)
  | remove key =>
      obtain ⟨b, here, performed⟩ := Option.map_eq_some_iff.mp performed
      rcases h.remove (bucket_lt here) fun e => callbacks.equal key (callbacks.key e) with
        ⟨none, kept⟩ | ⟨e, m'', found, removed, housed, elements, count⟩
      · rw [kept] at performed
        obtain ⟨rfl, rfl⟩ := Prod.mk.inj performed
        refine ⟨h, ?_, fun counted _ => counted⟩
        exact .notRemoved (h.nowhere here fun e inside => by simpa using List.find?_eq_none.mp none e inside)
      · rw [removed] at performed
        obtain ⟨rfl, rfl⟩ := Prod.mk.inj performed
        rw [elements]
        refine ⟨housed, ?_, fun counted _ => ?_⟩
        · exact .removed (List.find?_some (p := fun e => callbacks.equal key (callbacks.key e)) found)
        · rw [count, counted, Multiset.card_cons, if_neg (Nat.succ_ne_zero _), Nat.add_sub_cancel]
  | removeElement value =>
      obtain ⟨b, here, performed⟩ := Option.bind_eq_some_iff.mp performed
      split_ifs at performed with asserted
      obtain ⟨rfl, rfl⟩ := Prod.mk.inj (Option.some.inj performed)
      cases allocated : m.allocated with
      | false =>
          have same : m.removeElement b (fun e => e = value) = m := if_pos allocated
          have nothing : m.elements = 0 := elements_eq_zero fun b _ => h.unallocated allocated b
          rw [same, nothing]
          exact ⟨h, .nothingToRemove, fun counted _ => counted⟩
      | true =>
          have inside : value ∈ m.buckets b := not_not.mp fun absent => asserted ⟨allocated, absent⟩
          obtain ⟨e, found⟩ := Option.isSome_iff_exists.mp
            (List.find?_isSome (p := fun e => decide (e = value)).mpr ⟨value, inside, by simp⟩)
          obtain rfl : e = value := by simpa using List.find?_some found
          obtain ⟨housed, elements, -⟩ := h.removeElement (bucket_lt here) found
          rw [elements]
          exact ⟨housed, .elementRemoved, fun _ keeps => absurd (allocated.symm.trans keeps) nofun⟩
  | clear =>
      obtain ⟨⟨cleaned, m''⟩, cleared, same⟩ := Option.map_eq_some_iff.mp performed
      obtain ⟨rfl, rfl⟩ := Prod.mk.inj same
      obtain ⟨housed, all, none, count⟩ := h.clear cleared
      rw [none, ← all]
      refine ⟨housed, .cleared, fun counted keeps => ?_⟩
      rw [count, counted, all, show m.elements = 0 from keeps]

/-- The elements stand where they should and are as many as the count. -/
structure Tidy (callbacks : MapCallbacks ε κ) (m : EmbeddedMapBase ε) : Prop where
  housed : Housed callbacks m
  counted : m.numElements = m.elements.card

omit [DecidableEq ε] in
theorem new_tidy (numBuckets : Nat) (allocated : Error) : Tidy callbacks (new numBuckets allocated) :=
  ⟨new_housed numBuckets allocated, by rw [elements_new]; rfl⟩

theorem Tidy.perform (h : Tidy callbacks m) (keeps : KeepsCount m call)
    (performed : m.perform callbacks call = some (answer, m')) : Tidy callbacks m' :=
  ⟨(h.housed.perform performed).1, (h.housed.perform performed).2.2 h.counted keeps⟩

end calls

end EmbeddedMapBase

/-! ## The class with locks -/

/-- Keys are pointers here, `none` the null pointer. -/
structure SharedEmbeddedMap (ε : Type) where
  map : EmbeddedMapBase ε
  numBucketLocks : Nat
  /-- whether `_bucketLocks` is not null -/
  bucketLocks : Bool

namespace SharedEmbeddedMap

open EmbeddedMapBase (MapCall MapAnswer Changes Tidy)

variable {ε κ : Type}

def new (numBuckets numLocks : Nat) (buckets locks : Error) : SharedEmbeddedMap ε :=
  { map := .new numBuckets buckets
    numBucketLocks := min numBuckets numLocks
    bucketLocks := decide (0 < min numBuckets numLocks ∧ locks = .success) }

def available (m : SharedEmbeddedMap ε) : Bool := m.numBucketLocks = 0 || m.bucketLocks

/-- `size`. -/
def size (m : SharedEmbeddedMap ε) : Nat := m.map.numElements

inductive SharedCall (ε κ : Type) where
  | insert (value : Option ε)
  | remove (key : Option κ)
  | find (key : Option κ)
  | clear

variable [DecidableEq ε] (callbacks : MapCallbacks ε (Option κ))

/-- The call of the base class, behind the lock of the bucket. -/
def onMap (m : SharedEmbeddedMap ε) (call : MapCall ε (Option κ)) : Option (MapAnswer ε × SharedEmbeddedMap ε) :=
  (m.map.perform callbacks call).map fun (answer, map) => (answer, { m with map := map })

def insert (m : SharedEmbeddedMap ε) (value : Option ε) : Option (MapAnswer ε × SharedEmbeddedMap ε) :=
  match value with
  | none => some (.returned .nullPointer, m)
  | some value =>
      if (callbacks.key value).isNone then some (.returned .invalidArgument, m)
      else if m.available = false then some (.returned .outOfMemory, m)
      else m.onMap callbacks (.insert value)

def remove (m : SharedEmbeddedMap ε) (key : Option κ) : Option (MapAnswer ε × SharedEmbeddedMap ε) :=
  if key.isNone then some (.element none, m)
  else if m.available = false then some (.element none, m)
  else m.onMap callbacks (.remove key)

def find (m : SharedEmbeddedMap ε) (key : Option κ) : Option (MapAnswer ε × SharedEmbeddedMap ε) :=
  if key.isNone then some (.element none, m)
  else if m.available = false then some (.element none, m)
  else m.onMap callbacks (.find key)

def perform (m : SharedEmbeddedMap ε) : SharedCall ε κ → Option (MapAnswer ε × SharedEmbeddedMap ε)
  | .insert value => m.insert callbacks value
  | .remove key => m.remove callbacks key
  | .find key => m.find callbacks key
  | .clear => m.onMap callbacks .clear

/-- The call of the base class that a call comes to. -/
def SharedCall.inner : SharedCall ε κ → Option (MapCall ε (Option κ))
  | .insert value => value.map .insert
  | .remove key => some (.remove key)
  | .find key => some (.find key)
  | .clear => some .clear

/-- A null pointer is handed over, or the locks are missing. -/
def Refused (m : SharedEmbeddedMap ε) : SharedCall ε κ → Prop
  | .insert value => m.available = false ∨ ∀ e, value = some e → callbacks.key e = none
  | .remove key => m.available = false ∨ key = none
  | .find key => m.available = false ∨ key = none
  | .clear => False

/-- A call is refused, or it does what the base class does. -/
def Does (m : SharedEmbeddedMap ε) (call : SharedCall ε κ) (answer : MapAnswer ε) (m' : SharedEmbeddedMap ε) : Prop :=
  m.Refused callbacks call ∧ m' = m ∧ (answer = .element none ∨ ∃ error, error ≠ .success ∧ answer = .returned error) ∨
    ∃ inner, call.inner = some inner ∧ m.map.perform callbacks inner = some (answer, m'.map)

variable {callbacks} {m m' : SharedEmbeddedMap ε} {call : SharedCall ε κ} {answer : MapAnswer ε}

theorem onMap_does {inner : MapCall ε (Option κ)} (same : call.inner = some inner)
    (performed : m.onMap callbacks inner = some (answer, m')) : m.Does callbacks call answer m' := by
  obtain ⟨⟨answer', map⟩, done, equal⟩ := Option.map_eq_some_iff.mp performed
  obtain ⟨rfl, rfl⟩ := Prod.mk.inj equal
  exact .inr ⟨inner, same, done⟩

theorem perform_does (performed : m.perform callbacks call = some (answer, m')) : m.Does callbacks call answer m' := by
  cases call with
  | insert value =>
      cases value with
      | none =>
          obtain ⟨rfl, rfl⟩ := Prod.mk.inj (Option.some.inj performed)
          exact .inl ⟨.inr nofun, rfl, .inr ⟨_, by decide, rfl⟩⟩
      | some value =>
          simp only [perform, insert] at performed
          split_ifs at performed with null unavailable
          · obtain ⟨rfl, rfl⟩ := Prod.mk.inj (Option.some.inj performed)
            refine .inl ⟨.inr fun e same => ?_, rfl, .inr ⟨_, by decide, rfl⟩⟩
            rw [← Option.some.inj same]
            exact Option.isNone_iff_eq_none.mp null
          · obtain ⟨rfl, rfl⟩ := Prod.mk.inj (Option.some.inj performed)
            exact .inl ⟨.inl unavailable, rfl, .inr ⟨_, by decide, rfl⟩⟩
          · exact onMap_does rfl performed
  | remove key =>
      simp only [perform, remove] at performed
      split_ifs at performed with null unavailable
      · obtain ⟨rfl, rfl⟩ := Prod.mk.inj (Option.some.inj performed)
        exact .inl ⟨.inr (Option.isNone_iff_eq_none.mp null), rfl, .inl rfl⟩
      · obtain ⟨rfl, rfl⟩ := Prod.mk.inj (Option.some.inj performed)
        exact .inl ⟨.inl unavailable, rfl, .inl rfl⟩
      · exact onMap_does rfl performed
  | find key =>
      simp only [perform, find] at performed
      split_ifs at performed with null unavailable
      · obtain ⟨rfl, rfl⟩ := Prod.mk.inj (Option.some.inj performed)
        exact .inl ⟨.inr (Option.isNone_iff_eq_none.mp null), rfl, .inl rfl⟩
      · obtain ⟨rfl, rfl⟩ := Prod.mk.inj (Option.some.inj performed)
        exact .inl ⟨.inl unavailable, rfl, .inl rfl⟩
      · exact onMap_does rfl performed
  | clear => exact onMap_does rfl performed

/-- A call that does something does not take elements out uncounted. -/
def KeepsCount (m : SharedEmbeddedMap ε) (call : SharedCall ε κ) : Prop :=
  ∀ inner, call.inner = some inner → m.map.KeepsCount inner

instance (m : SharedEmbeddedMap ε) (call : SharedCall ε κ) : Decidable (m.KeepsCount call) :=
  match same : call.inner with
  | none => isTrue fun _ isInner => nomatch same.symm.trans isInner
  | some inner => decidable_of_iff (m.map.KeepsCount inner)
      ⟨fun keeps _ isInner => Option.some.inj (same.symm.trans isInner) ▸ keeps, fun keeps => keeps inner same⟩

theorem Does.tidy (does : m.Does callbacks call answer m') (h : m.map.Tidy callbacks) (keeps : m.KeepsCount call) :
    m'.map.Tidy callbacks := by
  rcases does with ⟨-, rfl, -⟩ | ⟨inner, same, performed⟩
  · exact h
  · exact h.perform (keeps inner same) performed

end SharedEmbeddedMap

end Everscale
