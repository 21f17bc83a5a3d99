/-
# Everscale.Base.EmbeddedMapBase -- buckets of elements

A key is hashed to a bucket, which is searched from the front; a lookup moves what it finds to
the front of its bucket.  `insert` and `remove` count the elements, `removeElement` and `clear` do
not.  A bucket that keeps the elements of its own keys only, each key once
(`Placed`), is a finite map from keys to elements (`lookup`), and moving to the front does not
show in it.
-/
import Everscale.Base.Error
import Mathlib.Data.List.Nodup
import Mathlib.Data.List.Perm.Basic
import Mathlib.Logic.Function.Basic
import Mathlib.Tactic.Common

namespace Everscale

set_option autoImplicit false

structure EmbeddedMapBase (ε : Type) where
  numElements : Nat
  numBuckets : Nat
  /-- whether `_buckets` is not null -/
  allocated : Bool
  buckets : Nat → List ε

namespace EmbeddedMapBase

variable {ε : Type}

/-- The constructor: without buckets nothing is allocated. -/
def new (numBuckets : Nat) (allocated : Error) : EmbeddedMapBase ε :=
  { numElements := 0
    numBuckets := numBuckets
    allocated := decide (numBuckets ≠ 0 ∧ allocated = .success)
    buckets := fun _ => [] }

/-- The list of one bucket becomes another. -/
def set (m : EmbeddedMapBase ε) (bucket : Nat) (elements : List ε) : EmbeddedMapBase ε :=
  { m with buckets := Function.update m.buckets bucket elements }

@[simp] theorem set_self (m : EmbeddedMapBase ε) (bucket : Nat) (elements : List ε) :
    (m.set bucket elements).buckets bucket = elements := Function.update_self _ _ _

@[simp] theorem set_ne (m : EmbeddedMapBase ε) {bucket b : Nat} (elements : List ε) (ne : b ≠ bucket) :
    (m.set bucket elements).buckets b = m.buckets b := Function.update_of_ne ne _ _

@[simp] theorem set_allocated (m : EmbeddedMapBase ε) (bucket : Nat) (elements : List ε) :
    (m.set bucket elements).allocated = m.allocated := rfl

@[simp] theorem set_numBuckets (m : EmbeddedMapBase ε) (bucket : Nat) (elements : List ε) :
    (m.set bucket elements).numBuckets = m.numBuckets := rfl

@[simp] theorem set_numElements (m : EmbeddedMapBase ε) (bucket : Nat) (elements : List ε) :
    (m.set bucket elements).numElements = m.numElements := rfl

/-- `_numElements.inc()` and `dec()`, in 32 bits. -/
def inc (m : EmbeddedMapBase ε) : EmbeddedMapBase ε := { m with numElements := (m.numElements + 1) % 2 ^ 32 }

def dec (m : EmbeddedMapBase ε) : EmbeddedMapBase ε :=
  { m with numElements := if m.numElements = 0 then 2 ^ 32 - 1 else m.numElements - 1 }

/-- `none` is a division by zero. -/
def bucket (m : EmbeddedMapBase ε) (hash : Nat) : Option Nat :=
  if m.numBuckets = 0 then none else some (hash % m.numBuckets)

/-- `compare` finds the key in the elements for which `same` holds. -/
def find (m : EmbeddedMapBase ε) (bucket : Nat) (same : ε → Bool) : Option ε × EmbeddedMapBase ε :=
  if m.allocated = false then (none, m)
  else
    match (m.buckets bucket).find? same with
    | none => (none, m)
    | some elem => (some elem, m.set bucket (elem :: (m.buckets bucket).eraseP same))

def insert (m : EmbeddedMapBase ε) (bucket : Nat) (value : ε) : Error × EmbeddedMapBase ε :=
  if m.allocated = false then (.outOfMemory, m) else (.success, (m.set bucket (value :: m.buckets bucket)).inc)

def remove (m : EmbeddedMapBase ε) (bucket : Nat) (same : ε → Bool) : Option ε × EmbeddedMapBase ε :=
  if m.allocated = false then (none, m)
  else
    match (m.buckets bucket).find? same with
    | none => (none, m)
    | some elem => (some elem, (m.set bucket ((m.buckets bucket).eraseP same)).dec)

def removeElement (m : EmbeddedMapBase ε) (bucket : Nat) (same : ε → Bool) : EmbeddedMapBase ε :=
  if m.allocated = false then m else m.set bucket ((m.buckets bucket).eraseP same)

/-- The loops of `clear`; the elements go to `cleanup` in this order.  `none` is a null pointer
that is followed. -/
def clear (m : EmbeddedMapBase ε) : Option (List ε × EmbeddedMapBase ε) :=
  if m.numBuckets ≠ 0 ∧ m.allocated = false then none
  else
    some ((List.range m.numBuckets).foldl
      (fun (cleaned, m) bucket => (cleaned ++ m.buckets bucket, m.set bucket [])) ([], m))

/-- The element that a lookup brought to the front has changed. -/
def setFirst (m : EmbeddedMapBase ε) (bucket : Nat) (elem : ε) : EmbeddedMapBase ε :=
  m.set bucket (elem :: (m.buckets bucket).tail)

@[simp] theorem setFirst_set (m : EmbeddedMapBase ε) (bucket : Nat) (elem other : ε) (rest : List ε) :
    (m.set bucket (elem :: rest)).setFirst bucket other = m.set bucket (other :: rest) := by
  simp [setFirst, set]

theorem removeElement_set {m : EmbeddedMapBase ε} (allocated : m.allocated = true) (bucket : Nat) {elem : ε}
    (rest : List ε) {same : ε → Bool} (own : same elem = true) :
    (m.set bucket (elem :: rest)).removeElement bucket same = m.set bucket rest := by
  simp [removeElement, set, allocated, own]

/-! ## As a finite map -/

variable {κ : Type} [DecidableEq κ] (key : ε → κ) (place : κ → Nat)

/-- Every bucket has the elements of its own keys only, each key once. -/
structure Placed (m : EmbeddedMapBase ε) : Prop where
  placed : ∀ b, ∀ e ∈ m.buckets b, place (key e) = b
  distinct : ∀ b, ((m.buckets b).map key).Nodup

def lookup (m : EmbeddedMapBase ε) (k : κ) : Option ε := (m.buckets (place k)).find? fun e => key e = k

variable {key place} {m : EmbeddedMapBase ε} {k : κ} {elem : ε} {l : List ε}

theorem find?_key (distinct : (l.map key).Nodup) :
    l.find? (fun e => key e = k) = some elem ↔ elem ∈ l ∧ key elem = k := by
  constructor
  · intro found
    exact ⟨List.mem_of_find?_eq_some found, by simpa using List.find?_some found⟩
  · rintro ⟨member, rfl⟩
    cases found : l.find? fun e => key e = key elem with
    | none =>
        rw [List.find?_eq_none] at found
        exact absurd (decide_eq_true rfl) (found elem member)
    | some other =>
        have same : key other = key elem := by simpa using List.find?_some found
        rw [List.inj_on_of_nodup_map distinct (List.mem_of_find?_eq_some found) member same]

/-- One key has changed in one bucket, and perhaps the order there. -/
theorem Placed.change (h : m.Placed key place) (old now : Option ε) {rest : List ε}
    (before : (m.buckets (place k)).Perm (old.toList ++ rest)) (after : l.Perm (now.toList ++ rest))
    (apart : ∀ e ∈ rest, key e ≠ k) (gone : ∀ e ∈ old, key e = k) (own : ∀ e ∈ now, key e = k) :
    (m.set (place k) l).Placed key place ∧
      (m.set (place k) l).lookup key place = Function.update (m.lookup key place) k now := by
  have restDistinct : (rest.map key).Nodup := by
    have all := (before.map key).nodup_iff.mp (h.distinct _)
    rw [List.map_append] at all
    exact (List.nodup_append.mp all).2.1
  have distinct : (l.map key).Nodup := by
    refine (after.map key).nodup_iff.mpr ?_
    rw [List.map_append, List.nodup_append]
    refine ⟨?_, restDistinct, ?_⟩
    · cases now <;> simp
    · rintro _ member k' member' rfl
      obtain ⟨e, inside, rfl⟩ := List.mem_map.mp member
      obtain ⟨e', inside', same⟩ := List.mem_map.mp member'
      exact apart e' inside' (same.trans (own e (Option.mem_toList.mp inside)))
  have placed : (m.set (place k) l).Placed key place := by
    refine ⟨fun b e member => ?_, fun b => ?_⟩
    · rcases eq_or_ne b (place k) with rfl | ne
      · rw [set_self] at member
        rcases List.mem_append.mp (after.mem_iff.mp member) with inside | inside
        · rw [own e (Option.mem_toList.mp inside)]
        · exact h.placed _ e (before.mem_iff.mpr (List.mem_append_right _ inside))
      · rw [set_ne m _ ne] at member
        exact h.placed b e member
    · rcases eq_or_ne b (place k) with rfl | ne
      · rwa [set_self]
      · rw [set_ne m _ ne]
        exact h.distinct b
  refine ⟨placed, funext fun k' => Option.ext fun e => ?_⟩
  rw [lookup, find?_key (placed.distinct _)]
  rcases eq_or_ne k' k with rfl | ne
  · rw [Function.update_self, set_self, after.mem_iff, List.mem_append, Option.mem_toList]
    constructor
    · rintro ⟨inside | inside, same⟩
      · exact inside
      · exact absurd same (apart e inside)
    · exact fun inside => ⟨.inl inside, own e inside⟩
  · rw [Function.update_of_ne ne, lookup, find?_key (h.distinct _)]
    rcases eq_or_ne (place k') (place k) with together | elsewhere
    · rw [together, set_self, after.mem_iff, before.mem_iff, List.mem_append, List.mem_append]
      constructor
      · rintro ⟨inside | inside, same⟩
        · exact absurd ((own e (Option.mem_toList.mp inside)).symm.trans same).symm ne
        · exact ⟨.inr inside, same⟩
      · rintro ⟨inside | inside, same⟩
        · exact absurd ((gone e (Option.mem_toList.mp inside)).symm.trans same).symm ne
        · exact ⟨.inr inside, same⟩
    · rw [set_ne m _ elsewhere]

omit [DecidableEq κ] in
/-- The count does not show in the map. -/
theorem Placed.inc (h : m.Placed key place) : m.inc.Placed key place := ⟨h.placed, h.distinct⟩

/-- What a bucket is searched for: the element with the key comes to the front. -/
theorem Placed.find (h : m.Placed key place) (allocated : m.allocated = true) (k : κ) :
    (∃ elem rest, m.find (place k) (fun e => key e = k) = (some elem, m.set (place k) (elem :: rest)) ∧
      m.lookup key place k = some elem ∧ key elem = k ∧ (∀ e ∈ rest, key e ≠ k) ∧
      (m.buckets (place k)).Perm (elem :: rest)) ∨
    (m.find (place k) (fun e => key e = k) = (none, m) ∧ m.lookup key place k = none ∧
      ∀ e ∈ m.buckets (place k), key e ≠ k) := by
  rw [EmbeddedMapBase.find, if_neg (by simp [allocated]), lookup]
  cases found : (m.buckets (place k)).find? fun e => key e = k with
  | none =>
      rw [List.find?_eq_none] at found
      exact .inr ⟨rfl, rfl, fun e member same => found e member (decide_eq_true same)⟩
  | some elem =>
      obtain ⟨member, same⟩ := (find?_key (h.distinct _)).mp found
      obtain ⟨e, front, back, before, own, split, erased⟩ :=
        List.exists_of_eraseP (p := fun e => key e = k) member (decide_eq_true same)
      have here : e = elem := by
        refine List.inj_on_of_nodup_map (h.distinct (place k)) ?_ member ?_
        · rw [split]
          simp
        · rw [of_decide_eq_true own, same]
      subst here
      have apart : ∀ e' ∈ front ++ back, key e' ≠ k := fun e' inside other => by
        have distinct := h.distinct (place k)
        rw [split, List.map_append, List.map_cons, List.nodup_middle, List.nodup_cons, ← List.map_append] at distinct
        exact distinct.1 (same.trans other.symm ▸ List.mem_map_of_mem inside)
      refine .inl ⟨e, front ++ back, ?_, rfl, same, apart, ?_⟩
      · rw [erased]
      · rw [split]
        exact List.perm_middle

end EmbeddedMapBase

end Everscale
