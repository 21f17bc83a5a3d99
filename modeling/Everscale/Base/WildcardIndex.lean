/-
# Everscale.Base.WildcardIndex -- patterns by domain

The nodes stand in buckets by the hash of their domain.  An insert makes a node for a domain that
has none, from a dead one if there is one; a remove that leaves a node empty takes it out.  The
locks of the buckets play no part here: this is what one thread sees.

`none` stands for an access outside an array, a failed assertion, a null pointer that is
followed or a division by zero.
-/
import Everscale.Base.EmbeddedMapBase
import Everscale.Base.WildcardIndexNode
import Everscale.Theory.Serving

namespace Everscale

set_option autoImplicit false

open Theory (Key records entryMap Referenced serveAll AllFit ServesAll KeepsServing)
open ReferencedMap (Call Answer Serves)

/-- The characters in front of the terminating zero. -/
abbrev Domain := List UInt8

structure WildcardIndex where
  map : EmbeddedMapBase WildcardIndexNode
  numBucketLocks : Nat
  /-- whether `_bucketLocks` is not null -/
  bucketLocks : Bool
  deadNodes : Nat
  /-- the references that the index holds -/
  refs : References

namespace WildcardIndex

/-- The constructor, with the allocator's answers for the buckets and for the locks. -/
def new (numBuckets numLocks : Nat) (buckets locks : Error) : WildcardIndex :=
  { map := .new numBuckets buckets
    numBucketLocks := min numBuckets numLocks
    bucketLocks := decide (0 < min numBuckets numLocks ∧ locks = .success)
    deadNodes := 0
    refs := fun _ => 0 }

def available (index : WildcardIndex) : Bool := index.numBucketLocks = 0 || index.bucketLocks

/-- The node's destructor gives back what it holds, and its block waits for another use. -/
def cleanup (index : WildcardIndex) (node : WildcardIndexNode) : Option WildcardIndex :=
  (node.clear index.refs).map fun (_, refs) => { index with deadNodes := index.deadNodes + 1, refs := refs }

/-- The end of `insert`: the domain has no node yet. -/
def insertNode (index : WildcardIndex) (memory : Memory) (bucket : Nat) (domain : Domain) (wildcard : Key)
    (value : Pointer) (updateIfExists : Bool) : Option (Error × WildcardIndex) :=
  if WildcardIndexNode.goodKey domain = false then none
  else if index.deadNodes = 0 ∧ memory.allocate ≠ .success then some (.outOfMemory, index)
  else
    (WildcardIndexNode.create memory.block domain).bind fun node =>
      (node.insert index.refs memory (some wildcard) value updateIfExists).bind fun (error, node, refs) =>
        let index := { index with deadNodes := index.deadNodes - 1, refs := refs }
        if error ≠ .success then (index.cleanup node).map fun index => (error, index)
        else
          match index.map.insert bucket node with
          | (.success, map) => some (.success, { index with map := map })
          | (error, _) => (index.cleanup node).map fun index => (error, index)

def insert (index : WildcardIndex) (memory : Memory) (domain : Option Domain) (wildcard : Option Key)
    (value : Pointer) (updateIfExists : Bool) : Option (Error × WildcardIndex) :=
  match domain, wildcard with
  | some domain, some wildcard =>
      if index.available = false then some (.outOfMemory, index)
      else
        (index.map.bucket (StringHash domain).toNat).bind fun bucket =>
          match index.map.find bucket (fun node => node.key = domain) with
          | (some node, map) =>
              (node.insert index.refs memory (some wildcard) value updateIfExists).map fun (error, node, refs) =>
                (error, { index with map := map.setFirst bucket node, refs := refs })
          | (none, map) => { index with map := map }.insertNode memory bucket domain wildcard value updateIfExists
  | _, _ => some (.nullPointer, index)

def remove (index : WildcardIndex) (domain : Option Domain) (wildcard : Option Key) :
    Option (Error × WildcardIndex) :=
  match domain, wildcard with
  | some domain, some wildcard =>
      if index.available = false then some (.outOfMemory, index)
      else
        (index.map.bucket (StringHash domain).toNat).bind fun bucket =>
          match index.map.find bucket (fun node => node.key = domain) with
          | (none, map) => some (.cannotFind, { index with map := map })
          | (some node, map) =>
              (node.remove index.refs (some wildcard)).bind fun (error, node, refs) =>
                let index := { index with map := map.setFirst bucket node, refs := refs }
                if error ≠ .success then some (error, index)
                else
                  node.empty.bind fun empty =>
                    if empty then
                      let map := index.map.removeElement bucket fun node => node.key = domain
                      ({ index with map := map }.cleanup node).map fun index => (.success, index)
                    else some (.success, index)
  | _, _ => some (.nullPointer, index)

def update (index : WildcardIndex) (domain : Option Domain) (wildcard : Option Key) (value : Pointer) :
    Option (Error × Option Pointer × WildcardIndex) :=
  match domain, wildcard with
  | some domain, some wildcard =>
      if index.available = false then some (.outOfMemory, none, index)
      else
        (index.map.bucket (StringHash domain).toNat).bind fun bucket =>
          match index.map.find bucket (fun node => node.key = domain) with
          | (none, map) => some (.cannotFind, none, { index with map := map })
          | (some node, map) =>
              (node.update index.refs (some wildcard) value).map fun (error, old, node, refs) =>
                (error, old, { index with map := map.setFirst bucket node, refs := refs })
  | _, _ => some (.nullPointer, none, index)

def find (index : WildcardIndex) (domain : Option Domain) (wildcard : Option Key) :
    Option (Error × Option Pointer × WildcardIndex) :=
  match domain, wildcard with
  | some domain, some wildcard =>
      if index.available = false then some (.outOfMemory, none, index)
      else
        (index.map.bucket (StringHash domain).toNat).bind fun bucket =>
          match index.map.find bucket (fun node => node.key = domain) with
          | (none, map) => some (.cannotFind, none, { index with map := map })
          | (some node, map) =>
              (node.find (some wildcard)).map fun (error, value) => (error, value, { index with map := map })
  | _, _ => some (.nullPointer, none, index)

/-- Every node of the bucket is taken out and cleaned up. -/
def clearBucket (index : WildcardIndex) (bucket : Nat) : Option WildcardIndex :=
  ((index.map.buckets bucket).foldlM cleanup index).map fun index =>
    { index with map := index.map.set bucket [] }

def clear (index : WildcardIndex) : Option WildcardIndex :=
  if index.map.numBuckets ≠ 0 ∧ index.map.allocated = false then none
  else (List.range index.map.numBuckets).foldlM clearBucket index

/-! ## As a finite map -/

inductive IndexCall where
  | entry (call : Call (Domain × Key))
  | clear

def perform (index : WildcardIndex) : IndexCall → Option (Answer × WildcardIndex)
  | .entry (.insert memory (domain, wildcard) value updateIfExists) =>
      (index.insert memory (some domain) (some wildcard) value updateIfExists).map fun (error, index) =>
        (.returned error, index)
  | .entry (.remove (domain, wildcard)) =>
      (index.remove (some domain) (some wildcard)).map fun (error, index) => (.returned error, index)
  | .entry (.update (domain, wildcard) value) =>
      (index.update (some domain) (some wildcard) value).map fun (error, old, index) =>
        (.updated error old, index)
  | .entry (.find (domain, wildcard)) =>
      (index.find (some domain) (some wildcard)).map fun (error, value, index) => (.found error value, index)
  | .clear => index.clear.map fun index => (.returned .success, index)

abbrev FiniteMap := Domain × Key → Option Pointer

/-- The answer of an index without the locks it should have. -/
def refusal : Call (Domain × Key) → Answer
  | .insert .. | .remove .. => .returned .outOfMemory
  | .update .. => .updated .outOfMemory none
  | .find .. => .found .outOfMemory none

def short (allocated : Bool) (memory : Memory) : Prop :=
  memory.toHeap.Refuses ∨ memory.allocate ≠ .success ∨ allocated = false

/-- What the index is to its callers: a map of reference-counted values, unless it got no memory
for its locks. -/
inductive ServesIndex (available allocated : Bool) (f : FiniteMap) (refs : References) :
    IndexCall → Answer → FiniteMap → References → Prop where
  | served {call answer f' refs'} : available = true →
      Serves (fun key => WildcardIndexNode.legalKey key.2) (short allocated) f refs call answer f' refs' →
      ServesIndex available allocated f refs (.entry call) answer f' refs'
  | unavailable {call} : available = false → ServesIndex available allocated f refs (.entry call) (refusal call) f refs
  | cleared : ServesIndex available allocated f refs .clear (.returned .success) (fun _ => none) fun _ => 0

/-! ## What an index holds -/

def place (numBuckets : Nat) (domain : Domain) : Nat := (StringHash domain).toNat % numBuckets

abbrev nodeOf (index : WildcardIndex) (domain : Domain) : Option WildcardIndexNode :=
  index.map.lookup (fun node => node.key) (place index.map.numBuckets) domain

/-- What the node of a domain says about its entries in the map. -/
def Reads (node : Option WildcardIndexNode) (g : Key → Option Pointer) : Prop :=
  match node with
  | none => g = fun _ => none
  | some node => ∃ es xs, node.Holds es xs ∧ g = entryMap (es ++ xs)

structure Holds (index : WildcardIndex) (f : FiniteMap) : Prop where
  positive : 0 < index.map.numBuckets
  placed : index.map.Placed (fun node => node.key) (place index.map.numBuckets)
  reads : ∀ domain, Reads (index.nodeOf domain) fun wildcard => f (domain, wildcard)
  unallocated : index.map.allocated = false → ∀ domain, index.nodeOf domain = none
  referenced : Referenced f index.refs

theorem Reads.unique {node : Option WildcardIndexNode} {g g' : Key → Option Pointer} (h : Reads node g)
    (h' : Reads node g') : g = g' := by
  cases node with
  | none => exact h.trans h'.symm
  | some node =>
      obtain ⟨es, xs, holds, rfl⟩ := h
      obtain ⟨es', xs', holds', rfl⟩ := h'
      obtain ⟨rfl, rfl⟩ := holds.unique holds'
      rfl

/-- An index holds one map. -/
theorem Holds.unique {index : WildcardIndex} {f f' : FiniteMap} (h : Holds index f) (h' : Holds index f') : f = f' := by
  funext ⟨domain, wildcard⟩
  exact congrFun ((h.reads domain).unique (h'.reads domain)) wildcard

/-- The map with other entries for one domain. -/
def withDomain (f : FiniteMap) (domain : Domain) (g : Key → Option Pointer) : FiniteMap :=
  fun key => if key.1 = domain then g key.2 else f key

section

variable {f : FiniteMap} {domain : Domain} {g g' : Key → Option Pointer} {refs refs' : References}

theorem withDomain_self (agree : ∀ wildcard, f (domain, wildcard) = g wildcard) : withDomain f domain g = f := by
  funext ⟨d, wildcard⟩
  by_cases same : d = domain
  · subst same
    rw [withDomain, if_pos rfl, agree]
  · exact if_neg same

theorem withDomain_update (agree : ∀ wildcard, f (domain, wildcard) = g wildcard) (wildcard : Key)
    (value : Option Pointer) :
    withDomain f domain (Function.update g wildcard value) = Function.update f (domain, wildcard) value := by
  funext ⟨d, w⟩
  by_cases same : d = domain
  · subst same
    rw [withDomain, if_pos rfl]
    rcases eq_or_ne w wildcard with rfl | ne
    · rw [Function.update_self, Function.update_self]
    · have other : (d, w) ≠ (d, wildcard) := fun equal => ne (Prod.mk.inj equal).2
      rw [Function.update_of_ne ne, Function.update_of_ne other, agree]
  · have other : (d, w) ≠ (domain, wildcard) := fun equal => same (Prod.mk.inj equal).1
    rw [withDomain, if_neg same, Function.update_of_ne other]

/-- The same call, of a node and of the index. -/
def atDomain (domain : Domain) : Call Key → Call (Domain × Key)
  | .insert memory wildcard value updateIfExists => .insert memory (domain, wildcard) value updateIfExists
  | .remove wildcard => .remove (domain, wildcard)
  | .update wildcard value => .update (domain, wildcard) value
  | .find wildcard => .find (domain, wildcard)

/-- What a node does for its domain, the index does for the domain's keys. -/
theorem serves_atDomain (domain : Domain) {call : Call Key} {answer : Answer} (allocated : Bool)
    (serves : Serves WildcardIndexNode.legalKey WildcardIndexNode.short g refs call answer g' refs')
    (agree : ∀ wildcard, f (domain, wildcard) = g wildcard) :
    Serves (fun key => WildcardIndexNode.legalKey key.2) (short allocated) f refs (atDomain domain call) answer
      (withDomain f domain g') refs' := by
  have same : withDomain f domain g = f := withDomain_self agree
  cases serves with
  | inserted legal ne absent =>
      rw [withDomain_update agree]
      exact .inserted legal ne ((agree _).trans absent)
  | refused legal ne absent refuses =>
      rw [same]
      exact .refused legal ne ((agree _).trans absent) (.inl refuses)
  | replaced legal ne present =>
      rw [withDomain_update agree]
      exact .replaced legal ne ((agree _).trans present)
  | present legal ne present =>
      rw [same]
      exact .present legal ne ((agree _).trans present)
  | removed legal present =>
      rw [withDomain_update agree]
      exact .removed legal ((agree _).trans present)
  | notRemoved legal absent =>
      rw [same]
      exact .notRemoved legal ((agree _).trans absent)
  | updated legal ne present =>
      rw [withDomain_update agree]
      exact .updated legal ne ((agree _).trans present)
  | notUpdated legal ne absent =>
      rw [same]
      exact .notUpdated legal ne ((agree _).trans absent)
  | found present =>
      rw [same]
      exact .found ((agree _).trans present)
  | notFound absent =>
      rw [same]
      exact .notFound ((agree _).trans absent)
  | insertRejected illegal failed =>
      rw [same]
      exact .insertRejected illegal failed
  | removeRejected illegal failed =>
      rw [same]
      exact .removeRejected illegal failed
  | updateRejected illegal failed =>
      rw [same]
      exact .updateRejected illegal failed

variable {index : WildcardIndex}

/-- One domain has another node, or none. -/
theorem Holds.change (h : Holds index f) (map : EmbeddedMapBase WildcardIndexNode) {now : Option WildcardIndexNode}
    (sameBuckets : map.numBuckets = index.map.numBuckets) (sameArray : map.allocated = index.map.allocated)
    (placed : map.Placed (fun node => node.key) (place index.map.numBuckets))
    (lookup : map.lookup (fun node => node.key) (place index.map.numBuckets) =
      Function.update index.nodeOf domain now)
    (reads : Reads now g') (allocated : now ≠ none → index.map.allocated = true)
    (referenced : Referenced (withDomain f domain g') refs') (deadNodes : Nat) :
    Holds { index with map := map, refs := refs', deadNodes := deadNodes } (withDomain f domain g') where
  positive := sameBuckets ▸ h.positive
  placed := sameBuckets ▸ placed
  reads d := by
    rw [nodeOf]
    dsimp only
    rw [sameBuckets, lookup]
    rcases eq_or_ne d domain with rfl | ne
    · simpa only [Function.update_self, withDomain, if_true] using reads
    · simpa only [Function.update_of_ne ne, withDomain, if_neg ne] using h.reads d
  unallocated none d := by
    rw [nodeOf]
    dsimp only
    rw [sameBuckets, lookup]
    have unallocated : index.map.allocated = false := sameArray ▸ none
    rcases eq_or_ne d domain with rfl | ne
    · rw [Function.update_self]
      by_contra some
      exact nomatch unallocated.symm.trans (allocated some)
    · rw [Function.update_of_ne ne]
      exact h.unallocated unallocated d
  referenced := referenced

/-- The call is served as the map serves it, and the index is the map that is left. -/
def Does (index : WildcardIndex) (f : FiniteMap) (call : IndexCall) (answer : Answer) (index' : WildcardIndex) : Prop :=
  ∃ f', Holds index' f' ∧ index'.available = index.available ∧ index'.map.allocated = index.map.allocated ∧
    ServesIndex index.available index.map.allocated f index.refs call answer f' index'.refs

theorem Does.unchanged (h : Holds index f) {call : IndexCall} {answer : Answer}
    (serves : ServesIndex index.available index.map.allocated f index.refs call answer f index.refs) :
    Does index f call answer index := ⟨f, h, rfl, rfl, serves⟩

variable {node node' : WildcardIndexNode} {rest : List WildcardIndexNode}

/-- A lookup has brought the node of the domain to the front. -/
structure Front (index : WildcardIndex) (domain : Domain) (node : WildcardIndexNode) (rest : List WildcardIndexNode) :
    Prop where
  allocated : index.map.allocated = true
  own : node.key = domain
  apart : ∀ e ∈ rest, e.key ≠ domain
  perm : (index.map.buckets (place index.map.numBuckets domain)).Perm (node :: rest)

theorem find_node (h : Holds index f) (domain : Domain) :
    (∃ node rest, index.map.find (place index.map.numBuckets domain) (fun node => node.key = domain) =
        (some node, index.map.set (place index.map.numBuckets domain) (node :: rest)) ∧
      Front index domain node rest ∧ index.nodeOf domain = some node ∧
      ∃ es xs, node.Holds es xs ∧ (fun wildcard => f (domain, wildcard)) = entryMap (es ++ xs)) ∨
    (index.map.find (place index.map.numBuckets domain) (fun node => node.key = domain) = (none, index.map) ∧
      index.nodeOf domain = none ∧ (fun wildcard => f (domain, wildcard)) = fun _ => none) := by
  have reads := h.reads domain
  cases allocated : index.map.allocated with
  | false =>
      have none : index.nodeOf domain = none := h.unallocated allocated domain
      rw [none] at reads
      refine .inr ⟨?_, none, reads⟩
      rw [EmbeddedMapBase.find, if_pos allocated]
  | true =>
      rcases h.placed.find allocated domain with ⟨node, rest, found, lookup, own, apart, perm⟩ | ⟨found, lookup, -⟩
      · have some : index.nodeOf domain = some node := lookup
        rw [some] at reads
        exact .inl ⟨node, rest, found, ⟨allocated, own, apart, perm⟩, some, reads⟩
      · have none : index.nodeOf domain = none := lookup
        rw [none] at reads
        exact .inr ⟨found, none, reads⟩

theorem bucket_eq (h : Holds index f) (domain : Domain) :
    index.map.bucket (StringHash domain).toNat = some (place index.map.numBuckets domain) :=
  if_neg (Nat.pos_iff_ne_zero.mp h.positive)

/-- A node in front has served a call of its domain. -/
theorem Front.changed (h : Holds index f) (front : Front index domain node rest) (available : index.available = true)
    {es xs : List (Key × Pointer)} (agree : (fun wildcard => f (domain, wildcard)) = entryMap (es ++ xs))
    {call : Call Key} {answer : Answer}
    (answers : node.Answers es xs index.refs call answer node' refs') :
    Does index f (.entry (atDomain domain call)) answer
      { index with
        map := index.map.set (place index.map.numBuckets domain) (node' :: rest)
        refs := refs' } := by
  obtain ⟨es', xs', holds, sameKey, serves⟩ := answers
  have lifted := serves_atDomain domain index.map.allocated serves (congrFun agree)
  have moved : (node' :: rest).Perm ((some node').toList ++ rest) := List.Perm.refl _
  obtain ⟨placed, lookup⟩ := h.placed.change (some node) (some node') front.perm moved front.apart
    (by simpa using front.own) (by simpa using sameKey.trans front.own)
  have reads : Reads (some node') (entryMap (es' ++ xs')) := ⟨es', xs', holds, rfl⟩
  have holds := h.change (index.map.set (place index.map.numBuckets domain) (node' :: rest)) rfl rfl placed lookup
    reads (fun _ => front.allocated) (lifted.referenced h.referenced) index.deadNodes
  exact ⟨_, holds, rfl, rfl, .served available lifted⟩

theorem Does.refused (h : Holds index f) (unavailable : index.available = false) (call : Call (Domain × Key)) :
    Does index f (.entry call) (refusal call) index := .unchanged h (.unavailable unavailable)

theorem update_spec (h : Holds index f) (domain : Domain) (wildcard : Key) (value : Pointer) :
    ∃ error old index', index.update (some domain) (some wildcard) value = some (error, old, index') ∧
      Does index f (.entry (.update (domain, wildcard) value)) (.updated error old) index' := by
  rw [update]
  cases available : index.available with
  | false => exact ⟨.outOfMemory, none, index, rfl, .refused h available _⟩
  | true =>
      rw [if_neg (by simp), bucket_eq h, Option.bind_some]
      rcases find_node h domain with ⟨node, rest, found, front, -, es, xs, holds, agree⟩ | ⟨found, -, agree⟩
      · obtain ⟨error, old, node', refs', updated, answers⟩ := node.update_spec holds index.refs wildcard value
        rw [found]
        dsimp only
        rw [updated]
        refine ⟨error, old, _, rfl, ?_⟩
        rw [EmbeddedMapBase.setFirst_set]
        exact front.changed h available agree answers
      · rw [found]
        refine ⟨.cannotFind, none, index, rfl, .unchanged h (.served available ?_)⟩
        by_cases legal : WildcardIndexNode.legalKey wildcard ∧ value ≠ 0
        · exact .notUpdated legal.1 legal.2 (congrFun agree wildcard)
        · exact .updateRejected legal nofun

theorem find_spec (h : Holds index f) (domain : Domain) (wildcard : Key) :
    ∃ error value index', index.find (some domain) (some wildcard) = some (error, value, index') ∧
      Does index f (.entry (.find (domain, wildcard))) (.found error value) index' := by
  rw [find]
  cases available : index.available with
  | false => exact ⟨.outOfMemory, none, index, rfl, .refused h available _⟩
  | true =>
      rw [if_neg (by simp), bucket_eq h, Option.bind_some]
      rcases find_node h domain with ⟨node, rest, found, front, -, es, xs, holds, agree⟩ | ⟨found, -, agree⟩
      · obtain ⟨error, value, sought, answers⟩ := node.find_spec holds index.refs wildcard
        rw [found]
        dsimp only
        rw [sought]
        exact ⟨error, value, _, rfl, front.changed h available agree answers⟩
      · rw [found]
        exact ⟨.cannotFind, none, index, rfl, .unchanged h (.served available (.notFound (congrFun agree wildcard)))⟩

theorem cleanup_spec {es xs : List (Key × Pointer)} (index : WildcardIndex) (holds : node.Holds es xs) :
    index.cleanup node = some { index with
      deadNodes := index.deadNodes + 1
      refs := WildcardIndexNode.without index.refs (es ++ xs) } := by
  obtain ⟨node', cleared, -, -⟩ := node.clear_spec holds index.refs
  rw [cleanup, cleared, Option.map_some]

theorem remove_spec (h : Holds index f) (domain : Domain) (wildcard : Key) :
    ∃ error index', index.remove (some domain) (some wildcard) = some (error, index') ∧
      Does index f (.entry (.remove (domain, wildcard))) (.returned error) index' := by
  rw [remove]
  cases available : index.available with
  | false => exact ⟨.outOfMemory, index, rfl, .refused h available _⟩
  | true =>
      rw [if_neg (by simp), bucket_eq h, Option.bind_some]
      rcases find_node h domain with ⟨node, rest, found, front, -, es, xs, holds, agree⟩ | ⟨found, -, agree⟩
      · obtain ⟨error, node', refs', removed, answers⟩ := node.remove_spec holds index.refs wildcard
        rw [found]
        dsimp only
        rw [removed, Option.bind_some]
        dsimp only
        rw [EmbeddedMapBase.setFirst_set]
        by_cases failed : error ≠ .success
        · rw [if_pos failed]
          exact ⟨error, _, rfl, front.changed h available agree answers⟩
        rw [if_neg failed]
        obtain ⟨es', xs', holds', sameKey, serves⟩ := answers
        rw [WildcardIndexNode.empty_spec holds', Option.bind_some]
        by_cases empty : es' = [] ∧ xs' = []
        · obtain ⟨rfl, rfl⟩ := empty
          have own : decide (node'.key = domain) = true := decide_eq_true (sameKey.trans front.own)
          have lifted := serves_atDomain domain index.map.allocated serves (congrFun agree)
          obtain ⟨placed, lookup⟩ := h.placed.change (some node) none front.perm (List.Perm.refl rest) front.apart
            (by simpa using front.own) nofun
          have holds'' := h.change (index.map.set (place index.map.numBuckets domain) rest) rfl rfl placed lookup
            (show Reads none (entryMap ([] ++ [])) from rfl) (fun some => absurd rfl some)
            (lifted.referenced h.referenced) (index.deadNodes + 1)
          rw [decide_eq_true ⟨rfl, rfl⟩, if_pos rfl, EmbeddedMapBase.removeElement_set front.allocated _ rest own,
            cleanup_spec _ holds', Option.map_some]
          have success : error = .success := not_not.mp failed
          subst success
          exact ⟨.success, _, rfl, _, holds'', rfl, rfl, .served available lifted⟩
        · rw [decide_eq_false empty, if_neg (by simp)]
          have success : error = .success := not_not.mp failed
          subst success
          exact ⟨.success, _, rfl, front.changed h available agree ⟨es', xs', holds', sameKey, serves⟩⟩
      · rw [found]
        refine ⟨.cannotFind, index, rfl, .unchanged h (.served available ?_)⟩
        by_cases legal : WildcardIndexNode.legalKey wildcard
        · exact .notRemoved legal (congrFun agree wildcard)
        · exact .removeRejected legal nofun

theorem without_inc (refs : References) (key : Key) (value : Pointer) :
    WildcardIndexNode.without (refs.inc value) [(key, value)] = refs := by
  rw [WildcardIndexNode.without, List.foldl_cons, List.foldl_nil, References.lost, References.inc]
  simp

theorem Holds.with_deadNodes (h : Holds index f) (deadNodes : Nat) : Holds { index with deadNodes := deadNodes } f :=
  ⟨h.positive, h.placed, h.reads, h.unallocated, h.referenced⟩

/-- Too little memory for a new entry, or one that is rejected in any case. -/
theorem serves_outOfMemory {allocated : Bool} {memory : Memory} {wildcard : Key}
    (absent : f (domain, wildcard) = none) (refs : References) (value : Pointer) (updateIfExists : Bool)
    (tooLittle : short allocated memory) : Serves (fun key => WildcardIndexNode.legalKey key.2) (short allocated) f refs
      (.insert memory (domain, wildcard) value updateIfExists) (.returned .outOfMemory) f refs := by
  by_cases legal : WildcardIndexNode.legalKey wildcard ∧ value ≠ 0
  · exact .refused legal.1 legal.2 absent tooLittle
  · exact .insertRejected legal nofun

theorem insertNode_spec (h : Holds index f) (available : index.available = true) (none : index.nodeOf domain = none)
    (agree : (fun wildcard => f (domain, wildcard)) = fun _ => Option.none) (memory : Memory) (wildcard : Key)
    (value : Pointer) (updateIfExists : Bool) (good : WildcardIndexNode.goodKey domain = true) :
    ∃ error index', index.insertNode memory (place index.map.numBuckets domain) domain wildcard value updateIfExists =
        some (error, index') ∧
      Does index f (.entry (.insert memory (domain, wildcard) value updateIfExists)) (.returned error) index' := by
  rw [insertNode, if_neg (by simp [good])]
  by_cases noBlock : index.deadNodes = 0 ∧ memory.allocate ≠ .success
  · rw [if_pos noBlock]
    have serves := serves_outOfMemory (congrFun agree wildcard) index.refs value updateIfExists
      (show short index.map.allocated memory from .inr (.inl noBlock.2))
    exact ⟨.outOfMemory, index, rfl, .unchanged h (.served available serves)⟩
  rw [if_neg noBlock]
  obtain ⟨node, created, holds, own⟩ := WildcardIndexNode.create_spec memory good
  have fits : node.Fits wildcard updateIfExists := WildcardIndexNode.fits_nothing holds wildcard updateIfExists
  obtain ⟨error, node', refs', inserted, es', xs', holds', sameKey, serves⟩ :=
    node.insert_spec holds index.refs memory updateIfExists fits value
  have lifted := serves_atDomain domain index.map.allocated serves (congrFun agree)
  rw [created, Option.bind_some, inserted, Option.bind_some]
  dsimp only
  rcases serves.insert_absent rfl with ⟨rfl, legal, ne, map, rfl⟩ | ⟨failed, map, rfl⟩
  · have single : es' ++ xs' = [(wildcard, value)] := Theory.eq_single_of_entryMap holds'.sound.keyed map
    rw [if_neg (by simp), EmbeddedMapBase.insert]
    cases allocated : index.map.allocated with
    | false =>
        rw [if_pos rfl]
        dsimp only
        rw [cleanup_spec _ holds', single, Option.map_some]
        dsimp only
        rw [without_inc]
        have serves := serves_outOfMemory (congrFun agree wildcard) index.refs value updateIfExists
          (show short index.map.allocated memory from .inr (.inr allocated))
        exact ⟨.outOfMemory, _, rfl, _, h.with_deadNodes _, rfl, rfl, .served available serves⟩
    | true =>
        have apart : ∀ e ∈ index.map.buckets (place index.map.numBuckets domain), e.key ≠ domain := by
          rw [nodeOf, EmbeddedMapBase.lookup, List.find?_eq_none] at none
          exact fun e member => by simpa using none e member
        obtain ⟨placed, lookup⟩ := h.placed.change Option.none (some node') (List.Perm.refl _) (List.Perm.refl _) apart
          (by simp) (by simpa using sameKey.trans own)
        have reads : Reads (some node') (entryMap (es' ++ xs')) := ⟨es', xs', holds', rfl⟩
        have holds'' := h.change (index.map.set (place index.map.numBuckets domain)
          (node' :: index.map.buckets (place index.map.numBuckets domain))).inc rfl rfl placed.inc lookup reads
          (fun _ => allocated) (lifted.referenced h.referenced) (index.deadNodes - 1)
        rw [if_neg (by simp)]
        exact ⟨.success, _, rfl, _, holds'', rfl, rfl, .served available lifted⟩
  · have nothing' : es' ++ xs' = [] := Theory.eq_nil_of_entryMap map
    rw [if_pos failed, cleanup_spec _ holds', nothing', Option.map_some]
    have none : ∀ wildcard, f (domain, wildcard) = entryMap ([] ++ []) wildcard := congrFun agree
    rw [map, withDomain_self none] at lifted
    exact ⟨error, _, rfl, _, h.with_deadNodes _, rfl, rfl, .served available lifted⟩

/-- What an insert and a clear need: a domain that a node can have, a node that can take the
pattern (`WildcardIndexNode.Fits`), and buckets that were allocated. -/
def Fits (index : WildcardIndex) : IndexCall → Prop
  | .entry (.insert _ (domain, wildcard) _ updateIfExists) =>
      WildcardIndexNode.goodKey domain = true ∧
        ∀ node, index.nodeOf domain = some node → node.Fits wildcard updateIfExists
  | .clear => index.map.allocated = true
  | _ => True

theorem insert_spec (h : Holds index f) (memory : Memory) (domain : Domain) (wildcard : Key) (value : Pointer)
    (updateIfExists : Bool) (fits : index.Fits (.entry (.insert memory (domain, wildcard) value updateIfExists))) :
    ∃ error index', index.insert memory (some domain) (some wildcard) value updateIfExists = some (error, index') ∧
      Does index f (.entry (.insert memory (domain, wildcard) value updateIfExists)) (.returned error) index' := by
  rw [insert]
  cases available : index.available with
  | false => exact ⟨.outOfMemory, index, rfl, .refused h available _⟩
  | true =>
      rw [if_neg (by simp), bucket_eq h, Option.bind_some]
      rcases find_node h domain with ⟨node, rest, found, front, here, es, xs, holds, agree⟩ | ⟨found, none, agree⟩
      · obtain ⟨error, node', refs', inserted, answers⟩ :=
          node.insert_spec holds index.refs memory updateIfExists (fits.2 node here) value
        rw [found]
        dsimp only
        rw [inserted]
        refine ⟨error, _, rfl, ?_⟩
        rw [EmbeddedMapBase.setFirst_set]
        exact front.changed h available agree answers
      · rw [found]
        exact insertNode_spec h available none agree memory wildcard value updateIfExists fits.1

/-! ## Clearing -/

theorem withDomain_here (f : FiniteMap) (domain : Domain) (g : Key → Option Pointer) (wildcard : Key) :
    withDomain f domain g (domain, wildcard) = g wildcard := if_pos rfl

theorem withDomain_twice (f : FiniteMap) (domain : Domain) (g g' : Key → Option Pointer) :
    withDomain (withDomain f domain g) domain g' = withDomain f domain g' := by
  funext key
  by_cases same : key.1 = domain <;> simp [withDomain, same]

/-- A node gives back the references of its entries, one after another. -/
theorem referenced_without {es : List (Key × Pointer)} (keyed : Theory.WellKeyed es) (referenced : Referenced f refs)
    (agree : ∀ wildcard, f (domain, wildcard) = entryMap es wildcard) :
    Referenced (withDomain f domain (entryMap [])) (WildcardIndexNode.without refs es) := by
  induction es generalizing f refs with
  | nil =>
      rw [withDomain_self agree]
      exact referenced
  | cons e rest ih =>
      obtain ⟨key, value⟩ := e
      have middle : key ∉ rest.map Prod.fst := (List.nodup_cons.mp keyed.distinct).1
      have removed : entryMap rest = Function.update (entryMap ((key, value) :: rest)) key none :=
        Theory.entryMap_remove (show key ∉ [].map Prod.fst from List.not_mem_nil) middle
      have present : f (domain, key) = some value := by
        rw [agree, Theory.entryMap_cons, if_pos rfl]
      have lost := referenced.remove present
      rw [← withDomain_update agree, ← removed] at lost
      have rest' := ih keyed.tail lost (withDomain_here f domain _)
      rwa [withDomain_twice] at rest'

/-- The map without the domains of these nodes. -/
def withoutNodes (f : FiniteMap) (nodes : List WildcardIndexNode) : FiniteMap :=
  fun key => if ∃ node ∈ nodes, node.key = key.1 then none else f key

theorem cleanup_all {nodes : List WildcardIndexNode} (distinct : (nodes.map fun node => node.key).Nodup)
    (referenced : Referenced f index.refs)
    (reads : ∀ node ∈ nodes, Reads (some node) fun wildcard => f (node.key, wildcard)) :
    ∃ refs deadNodes, nodes.foldlM cleanup index = some { index with refs := refs, deadNodes := deadNodes } ∧
      Referenced (withoutNodes f nodes) refs := by
  induction nodes generalizing f index with
  | nil =>
      refine ⟨index.refs, index.deadNodes, rfl, ?_⟩
      have same : withoutNodes f [] = f := by
        funext key
        simp [withoutNodes]
      rwa [same]
  | cons node rest ih =>
      obtain ⟨es, xs, holds, agree⟩ := reads node List.mem_cons_self
      obtain ⟨fresh, distinct⟩ := List.nodup_cons.mp distinct
      have cleaned := referenced_without holds.sound.keyed referenced (congrFun agree)
      have reads' : ∀ other ∈ rest, Reads (some other) fun wildcard =>
          withDomain f node.key (entryMap []) (other.key, wildcard) := fun other member => by
        have ne : other.key ≠ node.key := fun same => fresh (List.mem_map.mpr ⟨other, member, same⟩)
        have kept := reads other (List.mem_cons_of_mem _ member)
        simpa only [withDomain, if_neg ne] using kept
      let index' : WildcardIndex := { index with
        deadNodes := index.deadNodes + 1
        refs := WildcardIndexNode.without index.refs (es ++ xs) }
      have cleaned' : Referenced (withDomain f node.key (entryMap [])) index'.refs := cleaned
      obtain ⟨refs, deadNodes, folded, all⟩ := ih distinct cleaned' reads'
      refine ⟨refs, deadNodes, ?_, ?_⟩
      · rw [List.foldlM_cons, cleanup_spec index holds]
        exact folded
      · have same : withoutNodes f (node :: rest) = withoutNodes (withDomain f node.key (entryMap [])) rest := by
          funext key
          by_cases here : key.1 = node.key
          · simp [withoutNodes, withDomain, here, Theory.entryMap]
          · simp [withoutNodes, withDomain, here, Ne.symm here]
        rwa [same]

/-- The map without the domains of this bucket. -/
def withoutBucket (numBuckets : Nat) (f : FiniteMap) (bucket : Nat) : FiniteMap :=
  fun key => if place numBuckets key.1 = bucket then none else f key

/-- What clearing leaves as it is. -/
def SameShape (index index' : WildcardIndex) : Prop :=
  index'.map.numBuckets = index.map.numBuckets ∧ index'.map.allocated = index.map.allocated ∧
    index'.available = index.available

theorem clearBucket_spec (h : Holds index f) (bucket : Nat) :
    ∃ index', index.clearBucket bucket = some index' ∧
      Holds index' (withoutBucket index.map.numBuckets f bucket) ∧ SameShape index index' := by
  have reads : ∀ node ∈ index.map.buckets bucket, Reads (some node) fun wildcard => f (node.key, wildcard) :=
    fun node member => by
      have here : index.nodeOf node.key = some node := by
        refine (EmbeddedMapBase.find?_key (h.placed.distinct _)).mpr ⟨?_, rfl⟩
        rwa [h.placed.placed bucket node member]
      exact here ▸ h.reads node.key
  obtain ⟨refs, deadNodes, folded, referenced⟩ := cleanup_all (h.placed.distinct bucket) h.referenced reads
  have lookup : ∀ domain, (index.map.set bucket []).lookup (fun node => node.key) (place index.map.numBuckets) domain =
      if place index.map.numBuckets domain = bucket then none else index.nodeOf domain := fun domain => by
    rw [EmbeddedMapBase.lookup]
    by_cases here : place index.map.numBuckets domain = bucket
    · rw [if_pos here, here, EmbeddedMapBase.set_self]
      rfl
    · rw [if_neg here, EmbeddedMapBase.set_ne _ _ here]
      rfl
  have same : withoutNodes f (index.map.buckets bucket) = withoutBucket index.map.numBuckets f bucket := by
    funext pair
    obtain ⟨domain, wildcard⟩ := pair
    rw [withoutNodes, withoutBucket]
    by_cases inside : ∃ node ∈ index.map.buckets bucket, node.key = domain
    · obtain ⟨node, member, rfl⟩ := inside
      rw [if_pos ⟨node, member, rfl⟩, if_pos (h.placed.placed bucket node member)]
    · rw [if_neg inside]
      by_cases here : place index.map.numBuckets domain = bucket
      · have none : index.nodeOf domain = none := by
          rw [nodeOf, EmbeddedMapBase.lookup, here, List.find?_eq_none]
          exact fun node member own => inside ⟨node, member, of_decide_eq_true own⟩
        have reads := h.reads domain
        rw [none] at reads
        rw [if_pos here]
        exact congrFun reads wildcard
      · rw [if_neg here]
  rw [same] at referenced
  refine ⟨{ index with map := index.map.set bucket [], refs := refs, deadNodes := deadNodes }, ?_,
    ⟨h.positive, ?_, ?_, ?_, referenced⟩, rfl, rfl, rfl⟩
  · rw [clearBucket, folded, Option.map_some]
  · refine ⟨fun b node member => ?_, fun b => ?_⟩
    · rcases eq_or_ne b bucket with rfl | ne
      · rw [EmbeddedMapBase.set_self] at member
        cases member
      · rw [EmbeddedMapBase.set_ne _ _ ne] at member
        exact h.placed.placed b node member
    · rcases eq_or_ne b bucket with rfl | ne
      · rw [EmbeddedMapBase.set_self]
        exact List.nodup_nil
      · rw [EmbeddedMapBase.set_ne _ _ ne]
        exact h.placed.distinct b
  · intro domain
    rw [nodeOf]
    dsimp only [EmbeddedMapBase.set_numBuckets]
    rw [lookup]
    by_cases here : place index.map.numBuckets domain = bucket
    · rw [if_pos here]
      exact funext fun _ => if_pos here
    · rw [if_neg here]
      have kept : (fun wildcard => withoutBucket index.map.numBuckets f bucket (domain, wildcard)) =
          fun wildcard => f (domain, wildcard) := funext fun _ => if_neg here
      rw [kept]
      exact h.reads domain
  · intro unallocated domain
    rw [nodeOf]
    dsimp only [EmbeddedMapBase.set_numBuckets]
    rw [lookup]
    by_cases here : place index.map.numBuckets domain = bucket
    · rw [if_pos here]
    · rw [if_neg here]
      exact h.unallocated unallocated domain

/-- Bucket by bucket. -/
theorem clearBuckets_spec (h : Holds index f) (buckets : List Nat) :
    ∃ index' f', buckets.foldlM clearBucket index = some index' ∧ Holds index' f' ∧ SameShape index index' ∧
      ∀ key, place index.map.numBuckets key.1 ∈ buckets ∨ f key = none → f' key = none := by
  induction buckets generalizing index f with
  | nil => exact ⟨index, f, rfl, h, ⟨rfl, rfl, rfl⟩, fun key none => none.resolve_left List.not_mem_nil⟩
  | cons bucket rest ih =>
      obtain ⟨index₁, cleared, h₁, numBuckets, allocated, available⟩ := clearBucket_spec h bucket
      obtain ⟨index', f', folded, h', same, empty⟩ := ih h₁
      refine ⟨index', f', ?_, h', ⟨same.1.trans numBuckets, same.2.1.trans allocated, same.2.2.trans available⟩,
        fun key gone => empty key ?_⟩
      · rw [List.foldlM_cons, cleared]
        exact folded
      · rw [numBuckets]
        rcases gone with member | none
        · rcases List.mem_cons.mp member with here | later
          · exact .inr (if_pos here)
          · exact .inl later
        · by_cases here : place index.map.numBuckets key.1 = bucket
          · exact .inr (if_pos here)
          · exact .inr ((if_neg here).trans none)

theorem clear_spec (h : Holds index f) (allocated : index.map.allocated = true) :
    ∃ index', index.clear = some index' ∧ Does index f .clear (.returned .success) index' := by
  obtain ⟨index', f', folded, h', same, empty⟩ := clearBuckets_spec h (List.range index.map.numBuckets)
  have nothing : f' = fun _ => none := by
    funext key
    exact empty key (.inl (List.mem_range.mpr (Nat.mod_lt _ h.positive)))
  subst nothing
  refine ⟨index', ?_, _, h', same.2.2, same.2.1, ?_⟩
  · rw [clear, if_neg (by simp [allocated]), folded]
  · rw [h'.referenced.refs_eq_zero]
    exact .cleared

/-! ## Histories -/

theorem perform_spec (h : Holds index f) (call : IndexCall) (fits : index.Fits call) :
    ∃ answer index', index.perform call = some (answer, index') ∧ Does index f call answer index' := by
  cases call with
  | clear =>
      obtain ⟨index', cleared, does⟩ := clear_spec h fits
      exact ⟨.returned .success, index', by rw [perform, cleared]; rfl, does⟩
  | entry call =>
      cases call with
      | insert memory key value updateIfExists =>
          obtain ⟨error, index', inserted, does⟩ := insert_spec h memory key.1 key.2 value updateIfExists fits
          exact ⟨.returned error, index', by rw [perform, inserted]; rfl, does⟩
      | remove key =>
          obtain ⟨error, index', removed, does⟩ := remove_spec h key.1 key.2
          exact ⟨.returned error, index', by rw [perform, removed]; rfl, does⟩
      | update key value =>
          obtain ⟨error, old, index', updated, does⟩ := update_spec h key.1 key.2 value
          exact ⟨.updated error old, index', by rw [perform, updated]; rfl, does⟩
      | find key =>
          obtain ⟨error, value, index', found, does⟩ := find_spec h key.1 key.2
          exact ⟨.found error value, index', by rw [perform, found]; rfl, does⟩

end

theorem new_holds (numBuckets numLocks : Nat) (buckets locks : Error) (positive : 0 < numBuckets) :
    Holds (new numBuckets numLocks buckets locks) fun _ => none where
  positive := positive
  placed := ⟨fun _ _ member => (nomatch member), fun _ => List.nodup_nil⟩
  reads _ := rfl
  unallocated _ _ := rfl
  referenced := Theory.referenced_none

/-- The index with this availability and array is the map with these references. -/
def Is (available allocated : Bool) (index : WildcardIndex) (t : FiniteMap × References) : Prop :=
  Holds index t.1 ∧ index.refs = t.2 ∧ index.available = available ∧ index.map.allocated = allocated

/-- `ServesIndex` of a map and its references. -/
def serves (available allocated : Bool) (t : FiniteMap × References) (call : IndexCall) (answer : Answer)
    (t' : FiniteMap × References) : Prop := ServesIndex available allocated t.1 t.2 call answer t'.1 t'.2

theorem keeps_serving (available allocated : Bool) :
    KeepsServing perform Fits (serves available allocated) (Is available allocated) := by
  rintro index ⟨f, _⟩ call ⟨h, rfl, rfl, rfl⟩ fits
  obtain ⟨answer, index', performed, f', h', available, allocated, served⟩ := perform_spec h call fits
  exact ⟨answer, index', (f', index'.refs), performed, ⟨h', rfl, available, allocated⟩, served⟩

/-- In a history whose calls all find what they need, the index answers as a finite map does, and in
the end holds one reference for each entry of the map. -/
theorem agrees_with_finite_map (numBuckets numLocks : Nat) (buckets locks : Error) (positive : 0 < numBuckets)
    (calls : List IndexCall) (fit : AllFit perform Fits (new numBuckets numLocks buckets locks) calls) :
    ∃ answers index f, serveAll perform (new numBuckets numLocks buckets locks) calls = some (answers, index) ∧
      ServesAll (serves (new numBuckets numLocks buckets locks).available (decide (numBuckets ≠ 0 ∧ buckets = .success)))
        (fun _ => none, fun _ => 0) calls answers (f, index.refs) ∧
      Referenced f index.refs := by
  have start : Is (new numBuckets numLocks buckets locks).available (decide (numBuckets ≠ 0 ∧ buckets = .success))
      (new numBuckets numLocks buckets locks) (fun _ => none, fun _ => 0) :=
    ⟨new_holds numBuckets numLocks buckets locks positive, rfl, rfl, rfl⟩
  obtain ⟨answers, index, ⟨f, _⟩, performed, ⟨h, rfl, -, -⟩, served⟩ := (keeps_serving _ _).run start fit
  exact ⟨answers, index, f, performed, served, h.referenced⟩

/-- A node without a second array fits, and so does a small second array in which nothing is replaced. -/
def fitsSurely (index : WildcardIndex) : IndexCall → Bool
  | .entry (.insert _ (domain, _) _ updateIfExists) =>
      WildcardIndexNode.goodKey domain && (index.nodeOf domain).all fun node =>
        node.extra.all fun extra => decide (extra.capacity < 2 ^ 31) && !updateIfExists
  | .clear => index.map.allocated
  | _ => true

theorem fits_of_surely (index : WildcardIndex) (call : IndexCall) (surely : index.fitsSurely call = true) :
    index.Fits call := by
  cases call with
  | clear => exact surely
  | entry call =>
      cases call with
      | insert memory key value updateIfExists =>
          obtain ⟨domain, wildcard⟩ := key
          obtain ⟨good, small⟩ := Bool.and_eq_true_iff.1 surely
          refine ⟨good, fun node here => ?_⟩
          rw [here, Option.all_some] at small
          constructor
          · intro es xs holds member
            cases extra : node.extra with
            | none =>
                rw [holds.noExtra extra] at member
                cases member
            | some buffer =>
                rw [extra, Option.all_some, Bool.and_eq_true_iff] at small
                simpa using small.2
          · intro es xs holds legal _
            have short : wildcard.length ≤ 255 := legal.2
            cases extra : node.extra with
            | none =>
                rw [holds.noExtra extra, Theory.records_nil, List.length_nil]
                omega
            | some buffer =>
                rw [extra, Option.all_some, Bool.and_eq_true_iff, decide_eq_true_eq] at small
                have := (holds.extra extra).length_lt
                omega
      | _ => trivial

/-- A domain that leaves 23 octets for patterns in its node. -/
def longDomain : Domain := List.replicate 255 97

/-- Three patterns of one domain, the third of which is in the second array, and one of another. -/
def fourPatterns : List IndexCall :=
  [.entry (.insert .plenty (longDomain, [97]) 1 false), .entry (.insert .plenty (longDomain, [98, 42]) 2 false),
    .entry (.insert .plenty (longDomain, [99]) 3 false), .entry (.insert .plenty ([120], [42]) 4 false),
    .entry (.update (longDomain, [99]) 5), .entry (.insert .plenty (longDomain, [97]) 6 false),
    .entry (.remove (longDomain, [97])), .entry (.find (longDomain, [97])), .entry (.find (longDomain, [99])),
    .entry (.find ([120], [42]))]

theorem agrees_for_four_patterns :
    (serveAll perform (new 2 1 .success .success) fourPatterns).map Prod.fst =
      some [.returned .success, .returned .success, .returned .success, .returned .success,
        .updated .success (some 3), .returned .uniquenessViolation, .returned .success, .found .cannotFind none,
        .found .success (some 5), .found .success (some 4)] ∧
    ∃ answers index f, serveAll perform (new 2 1 .success .success) fourPatterns = some (answers, index) ∧
      ServesAll (serves (new 2 1 .success .success).available (decide (2 ≠ 0 ∧ Error.success = .success)))
        (fun _ => none, fun _ => 0) fourPatterns answers (f, index.refs) ∧
      Referenced f index.refs := by
  have fits : AllFit perform Fits (new 2 1 .success .success) fourPatterns :=
    AllFit.mono fits_of_surely (by decide +kernel)
  exact ⟨by decide +kernel, agrees_with_finite_map 2 1 .success .success (by decide) fourPatterns fits⟩

/-- The third pattern is in the second array when its pointer is to be replaced: the insert
succeeds, the pattern cannot be found any more, and the value of the removed second pattern has
given back one reference too many. -/
theorem replaced_pattern_lost :
    (serveAll perform (new 1 0 .success .success)
        [.entry (.insert .plenty (longDomain, [97]) 1 false), .entry (.insert .plenty (longDomain, [98]) 2 false),
          .entry (.insert .plenty (longDomain, [99]) 3 false), .entry (.remove (longDomain, [98])),
          .entry (.insert .plenty (longDomain, [99]) 4 true), .entry (.find (longDomain, [99]))]).map
      (fun done => (done.1, done.2.refs 2)) =
    some ([.returned .success, .returned .success, .returned .success, .returned .success, .returned .success,
      .found .cannotFind none], -1) := by
  decide +kernel

end WildcardIndex

end Everscale
