/-
# Everscale.Base.ElementCount -- how many elements a map has

What the calls on a wildcard index do to its nodes, whatever the nodes themselves make of it, and
with it the histories of all three kinds of map: the elements change as each call says and stand in
the buckets of their keys (`Right`), and their count is right as long as no call takes elements out
uncounted.  `remove` of the last pattern of a domain and `clear` do: `count_stays_behind`.
-/
import Everscale.Base.SharedEmbeddedMap
import Everscale.Base.WildcardMatch

namespace Everscale

set_option autoImplicit false

open Theory (Key serveAll AllFit)
open EmbeddedMapBase (Housed Tidy)

namespace EmbeddedMapBase

variable {ε κ : Type} {callbacks : MapCallbacks ε κ} {m : EmbeddedMapBase ε} {b : Nat} {same : ε → Bool} {elem : ε}

/-- An element that a lookup has brought to the front may change or go. -/
theorem Housed.front (h : Housed callbacks m) (inside : b < m.numBuckets) (found : (m.buckets b).find? same = some elem) :
    ∃ rest others, m.find b same = (some elem, m.set b (elem :: rest)) ∧ m.allocated = true ∧
      m.elements = elem ::ₘ others ∧
      (∀ elem', callbacks.key elem' = callbacks.key elem → Housed callbacks (m.set b (elem' :: rest)) ∧
        (m.set b (elem' :: rest)).elements = elem' ::ₘ others) ∧
      Housed callbacks (m.set b rest) ∧ (m.set b rest).elements = others := by
  have allocated : m.allocated = true := by
    by_contra unallocated
    rw [h.unallocated (Bool.eq_false_of_not_eq_true unallocated) b] at found
    cases found
  obtain ⟨m', sought, -, -, -, -, -, moved⟩ := h.find inside same
  obtain ⟨rest, rfl, perm⟩ := moved elem found
  obtain ⟨others, before, after⟩ := m.elements_set inside
  have own := h.housed b elem (List.mem_of_find?_eq_some found)
  have apart : ∀ e ∈ rest, m.bucket (callbacks.hash (callbacks.key e)) = some b := fun e member =>
    h.housed b e (perm.mem_iff.mpr (List.mem_cons_of_mem elem member))
  have array : ∀ {l : List ε}, m.allocated = false → l = [] := fun none => absurd (allocated.symm.trans none) nofun
  refine ⟨rest, rest + others, by rw [sought, found], allocated, ?_, fun elem' sameKey => ⟨?_, ?_⟩, h.set apart array,
    after rest⟩
  · rw [before, Multiset.coe_eq_coe.mpr perm, ← Multiset.cons_coe, Multiset.cons_add]
  · refine h.set (List.forall_mem_cons.mpr ⟨?_, apart⟩) array
    rw [sameKey]
    exact own
  · rw [after, ← Multiset.cons_coe, Multiset.cons_add]

end EmbeddedMapBase

/-! ## The nodes of an index -/

namespace WildcardIndexNode

variable {node node' : WildcardIndexNode} {refs refs' : References} {error : Error}

/-- The node that a step returns has the key of this one. -/
theorem map_key {α : Type} {step : Option α} {f : α → Error × WildcardIndexNode × References}
    (keeps : ∀ a, (f a).2.1.key = node.key) (done : step.map f = some (error, node', refs')) : node'.key = node.key := by
  obtain ⟨a, -, same⟩ := Option.map_eq_some_iff.mp done
  have := keeps a
  rwa [same] at this

theorem spill_key {memory : Memory} {extra : SizedBuffer} {q : Nat} {key : Key} {value : Pointer}
    (done : node.spill refs memory extra q key value = some (error, node', refs')) : node'.key = node.key :=
  map_key (fun _ => rfl) done

theorem add_key {memory : Memory} {p : Nat} {extra : Option (SizedBuffer × Nat)} {key : Key} {value : Pointer}
    (done : node.add refs memory p extra key value = some (error, node', refs')) : node'.key = node.key := by
  unfold add at done
  split_ifs at done
  · exact map_key (fun _ => rfl) done
  · split at done
    · exact spill_key done
    · split at done
      · cases done
        rfl
      · obtain ⟨_, -, done⟩ := Option.bind_eq_some_iff.mp done
        exact spill_key done

/-- No call changes the key of a node. -/
theorem insert_key {memory : Memory} {key : Option Key} {value : Pointer} {updateIfExists : Bool}
    (done : node.insert refs memory key value updateIfExists = some (error, node', refs')) : node'.key = node.key := by
  unfold insert at done
  split at done
  · cases done; rfl
  · by_cases null : value = 0
    · rw [if_pos null] at done
      cases done; rfl
    · rw [if_neg null] at done
      split at done
      · cases done
      · split at done
        · cases done; rfl
        · exact map_key (fun _ => rfl) done
      · split at done
        · exact add_key done
        · split at done
          · cases done
          · split at done
            · cases done; rfl
            · obtain ⟨_, -, done⟩ := Option.bind_eq_some_iff.mp done
              obtain ⟨_, -, done⟩ := Option.bind_eq_some_iff.mp done
              exact map_key (fun _ => rfl) done
          · exact add_key done

theorem remove_key {key : Option Key} (done : node.remove refs key = some (error, node', refs')) :
    node'.key = node.key := by
  unfold remove at done
  split at done
  · cases done; rfl
  · split_ifs at done
    · cases done; rfl
    · cases done; rfl
    · split at done
      · cases done
      · exact map_key (fun _ => rfl) done
      · split at done
        · cases done; rfl
        · split at done
          · cases done
          · cases done; rfl
          · exact map_key (fun _ => rfl) done

theorem update_key {key : Option Key} {value : Pointer} {old : Option Pointer}
    (done : node.update refs key value = some (error, old, node', refs')) : node'.key = node.key := by
  have replaced : ∀ {α : Type} {step : Option α} {f : α → Error × Option Pointer × WildcardIndexNode × References},
      (∀ a, (f a).2.2.1.key = node.key) → step.map f = some (error, old, node', refs') → node'.key = node.key := by
    intro α step f keeps done
    obtain ⟨a, -, same⟩ := Option.map_eq_some_iff.mp done
    have := keeps a
    rwa [same] at this
  unfold update at done
  split at done
  · cases done; rfl
  · split_ifs at done
    · cases done; rfl
    · split at done
      · cases done
      · exact replaced (fun _ => rfl) done
      · split at done
        · cases done; rfl
        · split at done
          · cases done
          · cases done; rfl
          · exact replaced (fun _ => rfl) done

end WildcardIndexNode

namespace WildcardIndex

open EmbeddedMapBase (bucket_lt)

/-- Domains are compared as strings and hashed as strings. -/
def callbacks : MapCallbacks WildcardIndexNode Domain where
  key node := node.key
  equal domain domain' := domain' = domain
  hash domain := (StringHash domain).toNat
  agree same := by rw [of_decide_eq_true same]

/-- The pattern is there, and there is no other. -/
def Empties (index : WildcardIndex) (node : WildcardIndexNode) (wildcard : Key) : Prop :=
  ∃ node' refs', node.remove index.refs (some wildcard) = some (.success, node', refs') ∧ node'.empty = some true

instance (index : WildcardIndex) (node : WildcardIndexNode) (wildcard : Key) : Decidable (index.Empties node wildcard) :=
  decidable_of_iff ((node.remove index.refs (some wildcard)).any fun (error, node', _) =>
      decide (error = .success) && decide (node'.empty = some true)) <| by
    rw [Option.any_eq_true]
    constructor
    · rintro ⟨⟨error, node', refs'⟩, removed, holds⟩
      obtain ⟨success, empty⟩ := Bool.and_eq_true_iff.mp holds
      exact ⟨node', refs', of_decide_eq_true success ▸ removed, of_decide_eq_true empty⟩
    · rintro ⟨node', refs', removed, empty⟩
      exact ⟨(.success, node', refs'), removed, Bool.and_eq_true_iff.mpr ⟨rfl, decide_eq_true empty⟩⟩

/-- What a call says that becomes of the nodes. -/
inductive NodesChange (index : WildcardIndex) : HistoryCall → HistoryAnswer → Multiset WildcardIndexNode →
    Multiset WildcardIndexNode → Prop where
  | created {memory domain wildcard value updateIfExists node E} : node.key = domain → (∀ e ∈ E, e.key ≠ domain) →
      NodesChange index (.entry (.entry (.insert memory (domain, wildcard) value updateIfExists)))
        (.entry (.returned .success)) E (node ::ₘ E)
  | notCreated {memory key value updateIfExists error E} : error ≠ .success →
      NodesChange index (.entry (.entry (.insert memory key value updateIfExists))) (.entry (.returned error)) E E
  | inserted {memory domain wildcard value updateIfExists error node node' E} : node.key = domain → node'.key = domain →
      NodesChange index (.entry (.entry (.insert memory (domain, wildcard) value updateIfExists)))
        (.entry (.returned error)) (node ::ₘ E) (node' ::ₘ E)
  | emptied {domain wildcard node E} : node.key = domain → index.Empties node wildcard →
      NodesChange index (.entry (.entry (.remove (domain, wildcard)))) (.entry (.returned .success)) (node ::ₘ E) E
  | removed {domain wildcard error node node' E} : node.key = domain → node'.key = domain →
      NodesChange index (.entry (.entry (.remove (domain, wildcard)))) (.entry (.returned error)) (node ::ₘ E)
        (node' ::ₘ E)
  | notRemoved {key error E} : error ≠ .success →
      NodesChange index (.entry (.entry (.remove key))) (.entry (.returned error)) E E
  | updated {domain wildcard value error old node node' E} : node.key = domain → node'.key = domain →
      NodesChange index (.entry (.entry (.update (domain, wildcard) value))) (.entry (.updated error old)) (node ::ₘ E)
        (node' ::ₘ E)
  | notUpdated {key value error old E} : error ≠ .success →
      NodesChange index (.entry (.entry (.update key value))) (.entry (.updated error old)) E E
  | found {key error value E} : NodesChange index (.entry (.entry (.find key))) (.entry (.found error value)) E E
  | matched {domain hostname error value E} :
      NodesChange index (.matching domain hostname) (.matched error value) E E
  | cleared {E} : NodesChange index (.entry .clear) (.entry (.returned .success)) E 0

/-- No node is taken out, and the count has 32 bits. -/
def KeepsCount (index : WildcardIndex) : HistoryCall → Prop
  | .entry (.entry (.insert ..)) => index.map.elements.card + 1 < 2 ^ 32
  | .entry (.entry (.remove (domain, wildcard))) =>
      ∀ node ∈ index.map.elements, node.key = domain → ¬ index.Empties node wildcard
  | .entry .clear => index.map.elements = 0
  | _ => True

instance (index : WildcardIndex) : (call : HistoryCall) → Decidable (index.KeepsCount call)
  | .entry (.entry (.insert ..)) => inferInstanceAs (Decidable (_ < _))
  | .entry (.entry (.remove (domain, wildcard))) =>
      inferInstanceAs (Decidable (∀ node ∈ index.map.elements, node.key = domain → ¬ index.Empties node wildcard))
  | .entry .clear => decidable_of_iff (index.map.elements.card = 0) Multiset.card_eq_zero
  | .entry (.entry (.update ..)) => isTrue trivial
  | .entry (.entry (.find ..)) => isTrue trivial
  | .matching .. => isTrue trivial

/-- What one call does, apart from what the nodes say. -/
structure Changed (index : WildcardIndex) (call : HistoryCall) (answer : HistoryAnswer) (index' : WildcardIndex) :
    Prop where
  housed : Housed callbacks index'.map
  nodes : NodesChange index call answer index.map.elements index'.map.elements
  count : index.map.numElements = index.map.elements.card → index.KeepsCount call →
    index'.map.numElements = index'.map.elements.card

section calls

variable {index index' : WildcardIndex} {domain : Domain} {wildcard : Key} {error : Error} {b : Nat}

theorem Changed.unmoved (h : Housed callbacks index.map) (same : index'.map = index.map) {call : HistoryCall}
    {answer : HistoryAnswer} (nodes : ∀ E, NodesChange index call answer E E) : Changed index call answer index' :=
  ⟨same ▸ h, same.symm ▸ nodes _, fun counted _ => same.symm ▸ counted⟩

/-- A node gives way to another of the same domain. -/
theorem Changed.replaced {map : EmbeddedMapBase WildcardIndexNode} {node node' : WildcardIndexNode}
    {others : Multiset WildcardIndexNode} (same : index'.map = map) (housed : Housed callbacks map)
    (count : map.numElements = index.map.numElements) (before : index.map.elements = node ::ₘ others)
    (after : map.elements = node' ::ₘ others) {call : HistoryCall} {answer : HistoryAnswer}
    (nodes : NodesChange index call answer (node ::ₘ others) (node' ::ₘ others)) : Changed index call answer index' := by
  subst same
  refine ⟨housed, ?_, fun counted _ => ?_⟩
  · rw [before, after]
    exact nodes
  · rw [count, counted, before, after, Multiset.card_cons, Multiset.card_cons]

theorem cleanup_map {node : WildcardIndexNode} (cleaned : index.cleanup node = some index') : index'.map = index.map := by
  obtain ⟨_, -, rfl⟩ := Option.map_eq_some_iff.mp cleaned
  rfl

theorem insertNode_changed (h : Housed callbacks index.map) (here : index.map.bucket (StringHash domain).toNat = some b)
    (absent : ∀ node ∈ index.map.elements, node.key ≠ domain) {memory : Memory} {value : Pointer} {updateIfExists : Bool}
    (done : index.insertNode memory b domain wildcard value updateIfExists = some (error, index')) :
    Changed index (.entry (.entry (.insert memory (domain, wildcard) value updateIfExists))) (.entry (.returned error))
      index' := by
  unfold insertNode at done
  split_ifs at done with good noBlock
  · obtain ⟨rfl, rfl⟩ := Prod.mk.inj (Option.some.inj done)
    exact .unmoved h rfl fun _ => .notCreated (by decide)
  · obtain ⟨node, created, done⟩ := Option.bind_eq_some_iff.mp done
    obtain ⟨⟨error', node', refs'⟩, inserted, done⟩ := Option.bind_eq_some_iff.mp done
    have own : node'.key = domain := by
      obtain ⟨_, -, rfl⟩ := Option.map_eq_some_iff.mp created
      exact WildcardIndexNode.insert_key inserted
    by_cases failed : error' ≠ .success
    · simp only [failed, ne_eq, not_false_eq_true, if_true] at done
      obtain ⟨index'', cleaned, same⟩ := Option.map_eq_some_iff.mp done
      obtain ⟨rfl, rfl⟩ := Prod.mk.inj same
      have kept := cleanup_map cleaned
      exact .unmoved h kept fun _ => .notCreated failed
    · simp only [failed, if_false] at done
      rw [← own] at here
      rcases h.insert here with
        ⟨-, refused⟩ | ⟨map, added, housed, elements, count⟩
      · rw [refused] at done
        obtain ⟨index'', cleaned, same⟩ := Option.map_eq_some_iff.mp done
        obtain ⟨rfl, rfl⟩ := Prod.mk.inj same
        have kept := cleanup_map cleaned
        exact .unmoved h kept fun _ => .notCreated (by decide)
      · rw [added] at done
        obtain ⟨rfl, rfl⟩ := Prod.mk.inj (Option.some.inj done)
        refine ⟨housed, ?_, fun counted fits => ?_⟩
        · dsimp only
          rw [elements]
          exact .created own absent
        · dsimp only
          rw [count, counted, elements, Multiset.card_cons, Nat.mod_eq_of_lt fits]

/-- A lookup finds the node of the domain, or there is none. -/
theorem find_cases (h : Housed callbacks index.map) (here : index.map.bucket (StringHash domain).toNat = some b) :
    (∃ map, index.map.find b (fun node => node.key = domain) = (none, map) ∧ map = index.map ∧
      ∀ node ∈ index.map.elements, node.key ≠ domain) ∨
    ∃ node rest others, index.map.find b (fun node => node.key = domain) = (some node, index.map.set b (node :: rest)) ∧
      node.key = domain ∧ index.map.allocated = true ∧ index.map.elements = node ::ₘ others ∧
      (∀ node' : WildcardIndexNode, node'.key = domain → Housed callbacks (index.map.set b (node' :: rest)) ∧
        (index.map.set b (node' :: rest)).elements = node' ::ₘ others) ∧
      Housed callbacks (index.map.set b rest) ∧ (index.map.set b rest).elements = others := by
  cases found : (index.map.buckets b).find? fun node : WildcardIndexNode => node.key = domain with
  | none =>
      refine .inl ⟨index.map, ?_, rfl, fun node member => ?_⟩
      · rw [EmbeddedMapBase.find, found]
        split <;> rfl
      · have none : ∀ e ∈ index.map.buckets b, callbacks.equal domain (callbacks.key e) = false :=
          fun e inside => by simpa [callbacks] using List.find?_eq_none.mp found e inside
        exact of_decide_eq_false (h.nowhere here none node member)
  | some node =>
      have own : node.key = domain := of_decide_eq_true (List.find?_some (p := fun node : WildcardIndexNode => decide (node.key = domain)) found)
      obtain ⟨rest, others, sought, allocated, elements, changes, gone⟩ := h.front (bucket_lt here) found
      exact .inr ⟨node, rest, others, sought, own, allocated, elements,
        fun node' same => changes node' (same.trans own.symm), gone⟩

theorem insert_changed (h : Housed callbacks index.map) {memory : Memory} {value : Pointer} {updateIfExists : Bool}
    (done : index.insert memory (some domain) (some wildcard) value updateIfExists = some (error, index')) :
    Changed index (.entry (.entry (.insert memory (domain, wildcard) value updateIfExists))) (.entry (.returned error))
      index' := by
  unfold insert at done
  dsimp only at done
  split_ifs at done
  · obtain ⟨rfl, rfl⟩ := Prod.mk.inj (Option.some.inj done)
    exact .unmoved h rfl fun _ => .notCreated (by decide)
  · obtain ⟨b, here, done⟩ := Option.bind_eq_some_iff.mp done
    rcases find_cases h here with ⟨map, sought, rfl, absent⟩ | ⟨node, rest, others, sought, own, -, before, changes, -⟩
    · rw [sought] at done
      exact insertNode_changed h here absent done
    · rw [sought] at done
      obtain ⟨⟨error', node', refs'⟩, inserted, same⟩ := Option.map_eq_some_iff.mp done
      obtain ⟨rfl, rfl⟩ := Prod.mk.inj same
      have own' := (WildcardIndexNode.insert_key inserted).trans own
      obtain ⟨housed, after⟩ := changes node' own'
      exact .replaced (EmbeddedMapBase.setFirst_set ..) housed rfl before after (.inserted own own')

theorem remove_changed (h : Housed callbacks index.map)
    (done : index.remove (some domain) (some wildcard) = some (error, index')) :
    Changed index (.entry (.entry (.remove (domain, wildcard)))) (.entry (.returned error)) index' := by
  unfold remove at done
  dsimp only at done
  split_ifs at done
  · obtain ⟨rfl, rfl⟩ := Prod.mk.inj (Option.some.inj done)
    exact .unmoved h rfl fun _ => .notRemoved (by decide)
  · obtain ⟨b, here, done⟩ := Option.bind_eq_some_iff.mp done
    rcases find_cases h here with ⟨map, sought, rfl, absent⟩ |
      ⟨node, rest, others, sought, own, allocated, before, changes, gone, left⟩
    · rw [sought] at done
      obtain ⟨rfl, rfl⟩ := Prod.mk.inj (Option.some.inj done)
      exact .unmoved h rfl fun _ => .notRemoved (by decide)
    · rw [sought] at done
      obtain ⟨⟨error', node', refs'⟩, removed, done⟩ := Option.bind_eq_some_iff.mp done
      have own' := (WildcardIndexNode.remove_key removed).trans own
      obtain ⟨housed, after⟩ := changes node' own'
      by_cases failed : error' ≠ .success
      · simp only [failed, ne_eq, not_false_eq_true, if_true] at done
        obtain ⟨rfl, rfl⟩ := Prod.mk.inj (Option.some.inj done)
        exact .replaced (EmbeddedMapBase.setFirst_set ..) housed rfl before after (.removed own own')
      · simp only [failed, if_false] at done
        obtain ⟨empty, emptied, done⟩ := Option.bind_eq_some_iff.mp done
        cases empty with
        | false =>
            obtain ⟨rfl, rfl⟩ := Prod.mk.inj (Option.some.inj done)
            exact .replaced (EmbeddedMapBase.setFirst_set ..) housed rfl before after (.removed own own')
        | true =>
            obtain ⟨index'', cleaned, same⟩ := Option.map_eq_some_iff.mp done
            obtain ⟨rfl, rfl⟩ := Prod.mk.inj same
            have kept := cleanup_map cleaned
            rw [EmbeddedMapBase.setFirst_set, EmbeddedMapBase.removeElement_set allocated b rest
              (decide_eq_true own')] at kept
            dsimp only at kept
            have empties : index.Empties node wildcard := ⟨node', refs', not_not.mp failed ▸ removed, emptied⟩
            refine ⟨kept ▸ gone, ?_, fun _ keeps => ?_⟩
            · rw [kept, left, before]
              exact .emptied own empties
            · exact absurd empties (keeps node (before ▸ Multiset.mem_cons_self node others) own)

theorem update_changed (h : Housed callbacks index.map) {value : Pointer} {old : Option Pointer}
    (done : index.update (some domain) (some wildcard) value = some (error, old, index')) :
    Changed index (.entry (.entry (.update (domain, wildcard) value))) (.entry (.updated error old)) index' := by
  unfold update at done
  dsimp only at done
  split_ifs at done
  · cases done
    exact .unmoved h rfl fun _ => .notUpdated (by decide)
  · obtain ⟨b, here, done⟩ := Option.bind_eq_some_iff.mp done
    rcases find_cases h here with ⟨map, sought, rfl, absent⟩ | ⟨node, rest, others, sought, own, -, before, changes, -⟩
    · rw [sought] at done
      cases done
      exact .unmoved h rfl fun _ => .notUpdated (by decide)
    · rw [sought] at done
      obtain ⟨⟨error', old', node', refs'⟩, updated, same⟩ := Option.map_eq_some_iff.mp done
      cases same
      have own' := (WildcardIndexNode.update_key updated).trans own
      obtain ⟨housed, after⟩ := changes node' own'
      exact .replaced (EmbeddedMapBase.setFirst_set ..) housed rfl before after (.updated own own')

theorem find_changed (h : Housed callbacks index.map) {value : Option Pointer}
    (done : index.find (some domain) (some wildcard) = some (error, value, index')) :
    Changed index (.entry (.entry (.find (domain, wildcard)))) (.entry (.found error value)) index' := by
  unfold find at done
  dsimp only at done
  split_ifs at done
  · cases done
    exact .unmoved h rfl fun _ => .found
  · obtain ⟨b, here, done⟩ := Option.bind_eq_some_iff.mp done
    rcases find_cases h here with ⟨map, sought, rfl, absent⟩ | ⟨node, rest, others, sought, own, -, before, changes, -⟩
    · rw [sought] at done
      cases done
      exact .unmoved h rfl fun _ => .found
    · rw [sought] at done
      obtain ⟨_, -, same⟩ := Option.map_eq_some_iff.mp done
      cases same
      obtain ⟨housed, after⟩ := changes node own
      refine .replaced ?_ housed rfl before after .found
      rfl

theorem matchHostname_changed (h : Housed callbacks index.map) {hostname : List UInt8} {value : Option Pointer}
    (done : index.matchHostname (some domain) (some hostname) = some (error, value, index')) :
    Changed index (.matching domain hostname) (.matched error value) index' := by
  unfold matchHostname at done
  dsimp only at done
  split_ifs at done
  · cases done
    exact .unmoved h rfl fun _ => .matched
  · obtain ⟨b, here, done⟩ := Option.bind_eq_some_iff.mp done
    rcases find_cases h here with ⟨map, sought, rfl, absent⟩ | ⟨node, rest, others, sought, own, -, before, changes, -⟩
    · rw [sought] at done
      cases done
      exact .unmoved h rfl fun _ => .matched
    · rw [sought] at done
      obtain ⟨_, -, same⟩ := Option.map_eq_some_iff.mp done
      cases same
      obtain ⟨housed, after⟩ := changes node own
      refine .replaced ?_ housed rfl before after .matched
      rfl

theorem cleanups_map {nodes : List WildcardIndexNode} (cleaned : nodes.foldlM cleanup index = some index') :
    index'.map = index.map := by
  induction nodes generalizing index with
  | nil => cases cleaned; rfl
  | cons node rest ih =>
      rw [List.foldlM_cons] at cleaned
      obtain ⟨index'', first, others⟩ := Option.bind_eq_some_iff.mp cleaned
      exact (ih others).trans (cleanup_map first)

theorem clearBucket_map (cleared : index.clearBucket b = some index') : index'.map = index.map.set b [] := by
  obtain ⟨index'', cleaned, rfl⟩ := Option.map_eq_some_iff.mp cleared
  rw [cleanups_map cleaned]

/-- The loop over the buckets is that of the base class. -/
theorem clearBuckets_map {buckets : List Nat} (cleaned : List WildcardIndexNode)
    (cleared : buckets.foldlM clearBucket index = some index') :
    index'.map = (buckets.foldl (fun (cleaned, m) bucket => (cleaned ++ m.buckets bucket, m.set bucket []))
      (cleaned, index.map)).2 := by
  induction buckets generalizing index cleaned with
  | nil => cases cleared; rfl
  | cons b rest ih =>
      rw [List.foldlM_cons] at cleared
      obtain ⟨index'', first, others⟩ := Option.bind_eq_some_iff.mp cleared
      rw [ih (cleaned ++ index.map.buckets b) others, clearBucket_map first, List.foldl_cons]

theorem clear_changed (h : Housed callbacks index.map) (done : index.clear = some index') :
    Changed index (.entry .clear) (.entry (.returned .success)) index' := by
  unfold clear at done
  split_ifs at done with unallocated
  have same := clearBuckets_map [] done
  have cleared : index.map.clear = some ((List.range index.map.numBuckets).foldl
      (fun (cleaned, m) bucket => (cleaned ++ m.buckets bucket, m.set bucket [])) ([], index.map)) := if_neg unallocated
  obtain ⟨housed, -, none, count⟩ := h.clear cleared
  rw [← same] at housed none count
  refine ⟨housed, ?_, fun counted keeps => ?_⟩
  · rw [none]
    exact .cleared
  · rw [count, counted, none, show index.map.elements = 0 from keeps]

/-- **One call on an index.** -/
theorem performAny_changed (h : Housed callbacks index.map) {call : HistoryCall} {answer : HistoryAnswer}
    (done : index.performAny call = some (answer, index')) : Changed index call answer index' := by
  cases call with
  | matching domain hostname =>
      obtain ⟨⟨error, value, index''⟩, matched, same⟩ := Option.map_eq_some_iff.mp done
      cases same
      exact matchHostname_changed h matched
  | entry call =>
      obtain ⟨⟨answer', index''⟩, done, same⟩ := Option.map_eq_some_iff.mp done
      cases same
      cases call with
      | clear =>
          obtain ⟨index'', cleared, same⟩ := Option.map_eq_some_iff.mp done
          cases same
          exact clear_changed h cleared
      | entry call =>
          cases call with
          | insert memory key value updateIfExists =>
              obtain ⟨⟨error, index''⟩, inserted, same⟩ := Option.map_eq_some_iff.mp done
              cases same
              exact insert_changed h inserted
          | remove key =>
              obtain ⟨⟨error, index''⟩, removed, same⟩ := Option.map_eq_some_iff.mp done
              cases same
              exact remove_changed h removed
          | update key value =>
              obtain ⟨⟨error, old, index''⟩, updated, same⟩ := Option.map_eq_some_iff.mp done
              cases same
              exact update_changed h updated
          | find key =>
              obtain ⟨⟨error, value, index''⟩, found, same⟩ := Option.map_eq_some_iff.mp done
              cases same
              exact find_changed h found

end calls

end WildcardIndex

/-! ## Histories -/

section histories

variable {ε κ : Type} [DecidableEq ε]

namespace EmbeddedMapBase

variable (callbacks : MapCallbacks ε κ)

/-- A call that keeps the count. -/
def Steps (m m' : EmbeddedMapBase ε) : Prop :=
  ∃ call answer, m.KeepsCount call ∧ m.perform callbacks call = some (answer, m')

/-- The elements stand where they should and are as many as the count, and any call changes them
as it says. -/
structure Right (m : EmbeddedMapBase ε) : Prop where
  tidy : Tidy callbacks m
  changes : ∀ call answer m', m.perform callbacks call = some (answer, m') →
    Changes callbacks call answer m.elements m'.elements

theorem Tidy.right {m : EmbeddedMapBase ε} (h : Tidy callbacks m) : Right callbacks m :=
  ⟨h, fun _ _ _ performed => (h.housed.perform performed).2.1⟩

end EmbeddedMapBase

namespace SharedEmbeddedMap

variable (callbacks : MapCallbacks ε (Option κ))

def Steps (m m' : SharedEmbeddedMap ε) : Prop :=
  ∃ call answer, m.KeepsCount call ∧ m.perform callbacks call = some (answer, m')

structure Right (m : SharedEmbeddedMap ε) : Prop where
  right : m.map.Right callbacks
  does : ∀ call answer m', m.perform callbacks call = some (answer, m') → m.Does callbacks call answer m'

end SharedEmbeddedMap

namespace WildcardIndex

def Steps (index index' : WildcardIndex) : Prop :=
  ∃ call answer, index.KeepsCount call ∧ index.performAny call = some (answer, index')

structure Right (index : WildcardIndex) : Prop where
  tidy : Tidy callbacks index.map
  changes : ∀ call answer index', index.performAny call = some (answer, index') →
    NodesChange index call answer index.map.elements index'.map.elements

end WildcardIndex

open Relation (ReflTransGen)

/-- **In every history** of a map, of a map with locks and of an index, in which no call takes
elements out uncounted. -/
theorem elements_counted (callbacks : MapCallbacks ε κ) (nullable : MapCallbacks ε (Option κ)) (numBuckets numLocks : Nat)
    (buckets locks : Error) :
    (∀ m, ReflTransGen (EmbeddedMapBase.Steps callbacks) (.new numBuckets buckets) m → m.Right callbacks) ∧
    (∀ m, ReflTransGen (SharedEmbeddedMap.Steps nullable) (.new numBuckets numLocks buckets locks) m →
      m.Right nullable) ∧
    (∀ index, ReflTransGen WildcardIndex.Steps (.new numBuckets numLocks buckets locks) index → index.Right) := by
  refine ⟨fun m reached => ?_, fun m reached => ?_, fun index reached => ?_⟩
  · have tidy : m.Tidy callbacks := by
      induction reached with
      | refl => exact EmbeddedMapBase.new_tidy numBuckets buckets
      | tail _ step ih =>
          obtain ⟨call, answer, keeps, performed⟩ := step
          exact ih.perform keeps performed
    exact tidy.right
  · have tidy : m.map.Tidy nullable := by
      induction reached with
      | refl => exact EmbeddedMapBase.new_tidy numBuckets buckets
      | tail _ step ih =>
          obtain ⟨call, answer, keeps, performed⟩ := step
          exact (SharedEmbeddedMap.perform_does performed).tidy ih keeps
    exact ⟨tidy.right, fun _ _ _ performed => SharedEmbeddedMap.perform_does performed⟩
  · have tidy : index.map.Tidy WildcardIndex.callbacks := by
      induction reached with
      | refl => exact EmbeddedMapBase.new_tidy numBuckets buckets
      | tail _ step ih =>
          obtain ⟨call, answer, keeps, performed⟩ := step
          have changed := WildcardIndex.performAny_changed ih.housed performed
          exact ⟨changed.housed, changed.count ih.counted keeps⟩
    exact ⟨tidy, fun _ _ _ performed => (WildcardIndex.performAny_changed tidy.housed performed).nodes⟩

end histories

/-- Numbers as their own keys. -/
def numbers : MapCallbacks Nat Nat where
  key n := n
  equal n n' := n = n'
  hash n := n
  agree same := of_decide_eq_true same

/-- The same behind pointers. -/
def numberPointers : MapCallbacks Nat (Option Nat) where
  key n := some n
  equal n n' := n = n'
  hash n := n.getD 0
  agree same := by rw [of_decide_eq_true same]

/-- Two of seven elements go, and there are two buckets. -/
def numberCalls : List (EmbeddedMapBase.MapCall Nat Nat) :=
  [.clear, .insert 1, .insert 3, .insert 5, .insert 4, .find 3, .remove 1, .find 1, .insert 7, .insert 6, .insert 9,
    .remove 4, .remove 8]

def pointerCalls : List (SharedEmbeddedMap.SharedCall Nat Nat) :=
  [.insert (some 1), .insert (some 3), .insert none, .insert (some 4), .find (some 1), .remove (some 3), .find none,
    .find (some 3), .insert (some 5), .remove (some 2)]

/-- A pattern of one octet for a domain of one. -/
def insertOne : WildcardIndex.HistoryCall := .entry (.entry (.insert .plenty ([97], [42]) 7 false))

/-- Two patterns of one domain, one of which goes, and one of another. -/
def patternCalls : List WildcardIndex.HistoryCall :=
  [insertOne, .entry (.entry (.insert .plenty ([97], [98, 42]) 8 false)),
    .entry (.entry (.insert .plenty ([99], [42]) 9 false)), .entry (.entry (.find ([97], [98, 42]))),
    .entry (.entry (.remove ([97], [42]))), .entry (.entry (.update ([99], [42]) 5)), .matching [97] [98, 99],
    .entry (.entry (.remove ([100], [42])))]

theorem elements_counted_after_calls :
    (∃ m, serveAll (EmbeddedMapBase.perform numbers) (.new 2 .success) numberCalls =
        some ([.cleared [], .returned .success, .returned .success, .returned .success, .returned .success,
          .element (some 3), .element (some 1), .element none, .returned .success, .returned .success,
          .returned .success, .element (some 4), .element none], m) ∧
      (m.buckets 0, m.buckets 1, m.numElements) = ([6], [9, 7, 3, 5], 5) ∧ m.Right numbers) ∧
    (∃ m, serveAll (SharedEmbeddedMap.perform numberPointers) (.new 2 1 .success .success) pointerCalls =
        some ([.returned .success, .returned .success, .returned .nullPointer, .returned .success, .element (some 1),
          .element (some 3), .element none, .element none, .returned .success, .element none], m) ∧
      (m.map.buckets 0, m.map.buckets 1, m.size) = ([4], [5, 1], 3) ∧ m.Right numberPointers) ∧
    ∃ index, serveAll WildcardIndex.performAny (.new 1 1 .success .success) patternCalls =
        some ([.entry (.returned .success), .entry (.returned .success), .entry (.returned .success),
          .entry (.found .success (some 8)), .entry (.returned .success), .entry (.updated .success (some 9)),
          .matched .success (some 8), .entry (.returned .cannotFind)], index) ∧
      (index.map.numElements, (index.map.buckets 0).map (·.key)) = (2, [[97], [99]]) ∧ index.Right := by
  obtain ⟨base, shared, -⟩ := elements_counted numbers numberPointers 2 1 .success .success
  obtain ⟨-, -, index⟩ := elements_counted numbers numberPointers 1 1 .success .success
  refine ⟨?_, ?_, ?_⟩
  · have fits : AllFit (EmbeddedMapBase.perform numbers) EmbeddedMapBase.KeepsCount (.new 2 .success) numberCalls := by
      decide +kernel
    exact (fits.reached_view (fun m => (m.buckets 0, m.buckets 1, m.numElements))
      (by decide +kernel)).imp fun m ⟨served, shown, reached⟩ => ⟨served, shown, base m reached⟩
  · have fits : AllFit (SharedEmbeddedMap.perform numberPointers) SharedEmbeddedMap.KeepsCount
        (.new 2 1 .success .success) pointerCalls := by
      decide +kernel
    exact (fits.reached_view (fun m => (m.map.buckets 0, m.map.buckets 1, m.size))
      (by decide +kernel)).imp fun m ⟨served, shown, reached⟩ => ⟨served, shown, shared m reached⟩
  · have fits : AllFit WildcardIndex.performAny WildcardIndex.KeepsCount (.new 1 1 .success .success) patternCalls := by
      decide +kernel
    exact (fits.reached_view (fun index => (index.map.numElements, (index.map.buckets 0).map (·.key)))
      (by decide +kernel)).imp fun m ⟨served, shown, reached⟩ => ⟨served, shown, index m reached⟩

/-- A pattern is inserted and removed, and an element is inserted and cleared away: nothing is left
in the buckets, and one is counted. -/
theorem count_stays_behind :
    (((WildcardIndex.new 1 0 .success .success).performAny insertOne).bind fun done =>
        (done.2.performAny (.entry (.entry (.remove ([97], [42]))))).map fun done =>
          (done.1, done.2.map.numElements, done.2.map.elements.card)) =
      some (.entry (.returned .success), 1, 0) ∧
    (((SharedEmbeddedMap.new 1 0 .success .success).perform numberPointers (.insert (some 3))).bind fun done =>
        (done.2.perform numberPointers .clear).map fun done => (done.1, done.2.size, done.2.map.elements.card)) =
      some (.cleared [3], 1, 0) := by
  decide +kernel

end Everscale
