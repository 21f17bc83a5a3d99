/-
# Everscale.Base.TreeReplay -- a document is built and replayed

The parser delivers a document as callbacks, with the lengths of strings as 32-bit numbers.  The
tree that they build replays a reordering of the document, with every string cut at its first zero
(`Builds.replayed`).  So the document comes back if and only if no string has a zero in it or is 4 GiB
long (`replay_same_iff`).

What the parser library makes of the text of a document is no part of this model: it delivers the
marks of the document in order.
-/
import Everscale.Base.ASTTree
import Everscale.Theory.Document

namespace Everscale

set_option autoImplicit false

namespace AST

open Theory (Document Mark Reordered)

/-! ## Documents -/

inductive Leaf where
  | null
  | boolean (value : Bool)
  | integer (value : Int64)
  | decimal (value : Double)
  | string (value : List Octet)
  deriving DecidableEq, Repr

abbrev Json := Document (List Octet) Leaf

/-- The callback for a mark, with its string changed. -/
def eventOf (change : List Octet → List Octet) : Mark (List Octet) Leaf → Event
  | .objectStart => .mapStart
  | .objectEnd => .mapEnd
  | .listStart => .listStart
  | .listEnd => .listEnd
  | .key key => .string (some (change key))
  | .leaf .null => .null
  | .leaf (.boolean value) => .boolean value
  | .leaf (.integer value) => .integer value
  | .leaf (.decimal value) => .decimal value
  | .leaf (.string value) => .string (some (change value))

/-- What becomes of a `size_t` length where a `UInt32` is expected. -/
def narrow (text : List Octet) : List Octet := text.take (text.length % 2 ^ 32)

/-- `OnMapStart`, `OnMapKey` and the others. -/
def deliver (mark : Mark (List Octet) Leaf) : Event := eventOf narrow mark

/-- What the tree makes of it. -/
def replayed (mark : Mark (List Octet) Leaf) : Event := eventOf (fun text => cstr (narrow text)) mark

/-- Callbacks that keep a record. -/
def record (events : List Event) (event : Event) : ParseControl × List Event := (.CONTINUE, events ++ [event])

/-- The callbacks are those of the document, up to the order of the keys inside its objects. -/
def Same (v : Json) (events : List Event) : Prop := ∃ w, Reordered v w ∧ events = w.marks.map (eventOf id)

theorem feed_record (events seen : List Event) : feed record events seen = (.CONTINUE, seen ++ events) := by
  induction events generalizing seen with
  | nil => rw [feed, List.append_nil]
  | cons event events ih =>
      rw [feed, record]
      dsimp only
      rw [ih, List.append_assoc, List.singleton_append]

/-! ## One callback -/

namespace Tree

/-- No callback breaks, with answers of the allocator such as are possible. -/
inductive Builds (possible : Answers → Prop) : Tree → List Event → Tree → Prop where
  | nil {t} : Builds possible t [] t
  | cons {t t₁ t' event events} (answers) : possible answers → t.call event answers = some (.CONTINUE, t₁) →
      Builds possible t₁ events t' → Builds possible t (event :: events) t'

namespace Builds

variable {possible : Answers → Prop} {t t₁ t' : Tree} {event : Event} {events rest : List Event}

theorem append_iff : Builds possible t (events ++ rest) t' ↔
    ∃ t₁, Builds possible t events t₁ ∧ Builds possible t₁ rest t' := by
  induction events generalizing t with
  | nil =>
      refine ⟨fun h => ⟨t, .nil, h⟩, ?_⟩
      rintro ⟨t₁, ⟨⟩, h⟩
      exact h
  | cons event events ih =>
      constructor
      · intro h
        obtain _ | ⟨answers, given, called, later⟩ := h
        obtain ⟨t₁, first, second⟩ := ih.mp later
        exact ⟨t₁, .cons answers given called first, second⟩
      · rintro ⟨t₁, first, second⟩
        obtain _ | ⟨answers, given, called, later⟩ := first
        exact .cons answers given called (ih.mpr ⟨t₁, later, second⟩)

theorem single_iff : Builds possible t [event] t' ↔
    ∃ answers, possible answers ∧ t.call event answers = some (.CONTINUE, t') := by
  constructor
  · intro h
    obtain _ | ⟨answers, given, called, ⟨⟩⟩ := h
    exact ⟨answers, given, called⟩
  · rintro ⟨answers, given, called⟩
    exact .cons answers given called .nil

end Builds

/-- An element goes where the stack has a place for it: to the end of a list, or into a map with its
key. -/
inductive Placed : List Element → Element → List Element → Prop where
  | listed {block elements rest element} :
      Placed (.list block elements :: rest) element (.list block (elements ++ [element]) :: rest)
  | paired {key block entries entries' rest element} : Map.insertNode key element entries = some entries' →
      Placed (.scalar key :: .map block entries :: rest) element (.map block entries' :: rest)

section calls

variable {t t' : Tree} {answers : Answers}

theorem insertKeyPair_continue {element : Element} (done : t.insertKeyPair element answers = some (.CONTINUE, t')) :
    Placed t.stack element t'.stack ∧ t'.root = t.root := by
  rw [insertKeyPair] at done
  split at done
  · cases done
  · rename_i key below shape
    split at done
    · cases done
    · rename_i block entries rest
      split at done
      · rename_i entries' inserted
        obtain ⟨-, rfl⟩ := Prod.mk.inj (Option.some.inj done)
        exact ⟨shape ▸ .paired (Map.insert_success inserted), rfl⟩
      · cases done
    · cases done
  · cases done

theorem insertKeyOrValue_continue {element : Element} (done : t.insertKeyOrValue element answers = some (.CONTINUE, t')) :
    (Placed t.stack element t'.stack ∨
      (∃ block entries rest, t.stack = .map block entries :: rest) ∧ t'.stack = element :: t.stack) ∧
      t'.root = t.root := by
  rw [insertKeyOrValue] at done
  split at done
  · cases done
  · rename_i block elements rest shape
    obtain ⟨-, rfl⟩ := Prod.mk.inj (Option.some.inj done)
    exact ⟨.inl (shape ▸ .listed), rfl⟩
  · rename_i block entries rest shape
    obtain ⟨-, rfl⟩ := Prod.mk.inj (Option.some.inj done)
    exact ⟨.inr ⟨⟨block, entries, rest, shape⟩, rfl⟩, rfl⟩
  · obtain ⟨placed, same⟩ := insertKeyPair_continue done
    exact ⟨.inl placed, same⟩

/-- Where the last step does not break, the new element was not given back. -/
theorem orFree_continue {block : Block} {done : Option (ParseControl × Tree)}
    (called : done.map (orFree block) = some (.CONTINUE, t')) : done = some (.CONTINUE, t') := by
  obtain ⟨⟨control, t''⟩, rfl, kept⟩ := Option.map_eq_some_iff.mp called
  cases control with
  | BREAK => cases (Prod.mk.inj kept).1
  | CONTINUE => exact congrArg some kept

theorem validateKeyType_continue (validated : t.validateKeyType = (.CONTINUE, t')) : t' = t := by
  rw [validateKeyType] at validated
  split at validated
  · cases validated
  · cases validated
  · exact (Prod.mk.inj validated).2.symm

theorem onScalar_continue {value : Value} (done : t.onScalar value answers = some (.CONTINUE, t')) :
    ({ t with created := t.created + 1 } : Tree).insertKeyOrValue (.scalar ⟨t.block, value⟩) answers =
      some (.CONTINUE, t') := by
  rw [onScalar] at done
  split at done
  · cases done
  · rename_i same validated
    obtain rfl := validateKeyType_continue validated
    split at done
    · cases done
    · exact orFree_continue done

theorem onString_continue {text : List Octet} (done : t.onString (some text) answers = some (.CONTINUE, t')) :
    ({ t with created := t.created + 1 } : Tree).insertKeyOrValue (.scalar ⟨t.block, .string text⟩) answers =
      some (.CONTINUE, t') := by
  rw [onString] at done
  split at done
  · cases done
  · rename_i same validated
    obtain rfl := validateKeyType_continue validated
    split at done
    · cases done
    · rw [setValue] at done
      by_cases copied : answers.value = .success
      · rw [if_neg (not_not.mpr copied)] at done
        exact orFree_continue done
      · rw [if_pos copied] at done
        cases done

theorem onNull_continue (done : t.onNull answers = some (.CONTINUE, t')) :
    Placed t.stack (.null t.block) t'.stack ∧ t'.root = t.root := by
  rw [onNull] at done
  split at done
  · cases done
  · cases done
  · cases done
  · rename_i block elements rest shape
    split at done
    · cases done
    · obtain ⟨-, rfl⟩ := Prod.mk.inj (Option.some.inj done)
      exact ⟨shape ▸ .listed, rfl⟩
  · split at done
    · cases done
    · have inserted := orFree_continue done
      have placed := insertKeyPair_continue inserted
      exact placed

theorem settle_continue {element : Element} (done : t.settle element answers = some (.CONTINUE, t')) :
    (t.stack = [] ∧ t'.root = some element) ∨ (Placed t.stack element t'.stack ∧ t'.root = t.root) := by
  rw [settle] at done
  split at done
  · rename_i shape
    obtain ⟨-, rfl⟩ := Prod.mk.inj (Option.some.inj done)
    exact .inl ⟨shape, rfl⟩
  · rename_i block elements rest shape
    obtain ⟨-, rfl⟩ := Prod.mk.inj (Option.some.inj done)
    exact .inr ⟨shape ▸ .listed, rfl⟩
  · obtain ⟨⟨control, t''⟩, inserted, kept⟩ := Option.map_eq_some_iff.mp done
    cases control with
    | BREAK => cases (Prod.mk.inj kept).1
    | CONTINUE =>
        obtain ⟨-, rfl⟩ := Prod.mk.inj kept
        exact .inr (insertKeyPair_continue inserted)

end calls

/-! ## A document -/

/-- The next element has a place. -/
inductive Expecting : List Element → Prop where
  | list {block elements rest} : Expecting (.list block elements :: rest)
  | value {key block entries rest} : Expecting (.scalar key :: .map block entries :: rest)

/-- An element that is replayed as a reordering of the document. -/
def Stands (element : Element) (v : Json) : Prop := ∃ w, Reordered v w ∧ element.events = w.marks.map replayed

/-- An entry that is replayed as the member. -/
def Stores (entry : Scalar × Element) (member : List Octet × Json) : Prop :=
  entry.1.value.event = replayed (.key member.1) ∧ entry.2.events = member.2.marks.map replayed

section documents

variable {possible : Answers → Prop} {t t' : Tree}

theorem scalar_placed (expecting : Expecting t.stack) {own : Scalar}
    (done : (Placed t.stack (.scalar own) t'.stack ∨
      (∃ block entries rest, t.stack = .map block entries :: rest) ∧ t'.stack = .scalar own :: t.stack) ∧
      t'.root = t.root) : Placed t.stack (.scalar own) t'.stack := by
  obtain ⟨placed | ⟨⟨_, _, _, shape⟩, -⟩, -⟩ := done
  · exact placed
  · rw [shape] at expecting
    cases expecting

theorem leaf_built {leaf : Leaf} (h : Builds possible t ((Document.leaf leaf : Json).marks.map deliver) t')
    (expecting : Expecting t.stack) :
    ∃ element, Stands element (.leaf leaf) ∧ Placed t.stack element t'.stack ∧ t'.root = t.root := by
  obtain ⟨answers, -, called⟩ := Builds.single_iff.mp h
  have stands : ∀ {element : Element}, element.events = [replayed (.leaf leaf)] → Stands element (.leaf leaf) :=
    fun own => ⟨.leaf leaf, .refl _, own⟩
  cases leaf with
  | null =>
      obtain ⟨placed, same⟩ := onNull_continue called
      exact ⟨_, stands rfl, placed, same⟩
  | boolean | integer | decimal =>
      have done := insertKeyOrValue_continue (onScalar_continue called)
      exact ⟨_, stands rfl, scalar_placed expecting done, done.2⟩
  | string value =>
      have done := insertKeyOrValue_continue (onString_continue called)
      exact ⟨_, stands rfl, scalar_placed expecting done, done.2⟩

theorem key_built {key : List Octet} {block : Block} {entries : List (Scalar × Element)} {rest : List Element}
    {answers : Answers} (shape : t.stack = .map block entries :: rest)
    (called : t.call (deliver (.key key)) answers = some (.CONTINUE, t')) :
    t'.stack = .scalar ⟨t.block, .string (narrow key)⟩ :: .map block entries :: rest ∧ t'.root = t.root := by
  obtain ⟨placed | ⟨-, pushed⟩, same⟩ := insertKeyOrValue_continue (onString_continue called)
  · rw [show ({ t with created := t.created + 1 } : Tree).stack = _ from shape] at placed
    cases placed
  · exact ⟨pushed.trans (congrArg _ shape), same⟩

theorem settle_placed {below : List Element} {element : Element} {answers : Answers} (expecting : Expecting below)
    (done : ({ t with stack := below } : Tree).settle element answers = some (.CONTINUE, t')) :
    Placed below element t'.stack ∧ t'.root = t.root := by
  obtain ⟨empty, -⟩ | placed := settle_continue done
  · rw [show below = [] from empty] at expecting
    cases expecting
  · exact placed

/-- What the callbacks for the elements of a list add to it. -/
def ListBuilt (possible : Answers → Prop) (vs : List Json) : Prop :=
  ∀ {t t' : Tree} {block elements rest}, t.stack = .list block elements :: rest →
    Builds possible t ((Document.marksOfList vs).map deliver) t' →
    ∃ new, List.Forall₂ Stands new vs ∧ t'.stack = .list block (elements ++ new) :: rest ∧ t'.root = t.root

/-- What those for the members of an object add to a map. -/
def MapBuilt (possible : Answers → Prop) (ms : List (List Octet × Json)) : Prop :=
  ∀ {t t' : Tree} {block entries rest ns}, t.stack = .map block entries :: rest → List.Forall₂ Stores entries ns →
    Builds possible t ((Document.marksOfMembers ms).map deliver) t' →
    ∃ entries' ms' ns', List.Forall₂ (fun m n => m.1 = n.1 ∧ Reordered m.2 n.2) ms ms' ∧
      List.Forall₂ Stores entries' ns' ∧ ns'.Perm (ns ++ ms') ∧ t'.stack = .map block entries' :: rest ∧ t'.root = t.root

/-- The callbacks for a container leave it to be settled where the stack was. -/
def Closes (t : Tree) (v : Json) (t' : Tree) : Prop :=
  ∃ (answers : Answers) (t₁ : Tree) (element : Element), t₁.root = t.root ∧
    ({ t₁ with stack := t.stack } : Tree).settle element answers = some (.CONTINUE, t') ∧ Stands element v

theorem stands_list {block : Block} {elements : List Element} {vs : List Json} (h : List.Forall₂ Stands elements vs) :
    Stands (.list block elements) (.list vs) := by
  have each : ∃ ws, List.Forall₂ Reordered vs ws ∧
      Element.eventsOfAll elements = (Document.marksOfList ws).map replayed := by
    induction h with
    | nil => exact ⟨[], .nil, rfl⟩
    | cons first _ ih =>
        obtain ⟨w, reordered, events⟩ := first
        obtain ⟨ws, all, rest⟩ := ih
        refine ⟨w :: ws, .cons reordered all, ?_⟩
        rw [Element.eventsOfAll, Document.marksOfList, List.map_append, events, rest]
  obtain ⟨ws, all, events⟩ := each
  refine ⟨.list ws, .list_of all, ?_⟩
  rw [Element.events, Document.marks, List.map_cons, List.map_append, events]
  rfl

theorem stands_map {block : Block} {entries : List (Scalar × Element)} {ms ms' ns : List (List Octet × Json)}
    (members : List.Forall₂ (fun m n => m.1 = n.1 ∧ Reordered m.2 n.2) ms ms') (stored : List.Forall₂ Stores entries ns)
    (perm : ns.Perm ms') : Stands (.map block entries) (.object ms) := by
  have events : Element.eventsOfEntries entries = (Document.marksOfMembers ns).map replayed := by
    clear perm
    induction stored with
    | nil => rfl
    | @cons entry n _ _ first _ ih =>
        obtain ⟨key, value⟩ := entry
        obtain ⟨key', w⟩ := n
        rw [Element.eventsOfEntries, Document.marksOfMembers, List.map_cons, List.map_append, ih, ← first.2, ← first.1]
  refine ⟨.object ns, .object_of members perm.symm, ?_⟩
  rw [Element.events, Document.marks, List.map_cons, List.map_append, events]
  rfl

theorem list_closes {vs : List Json} (built : ListBuilt possible vs) (h : Builds possible t ((Document.list vs : Json).marks.map deliver) t') :
    Closes t (.list vs) t' := by
  rw [Document.marks, List.map_cons, List.map_append] at h
  obtain _ | ⟨answers, -, started, later⟩ := h
  obtain ⟨t₂, inner, last⟩ := Builds.append_iff.mp later
  obtain ⟨answers', -, ended⟩ := Builds.single_iff.mp last
  have started : t.onListStart answers = _ := Option.some.inj started
  rw [onListStart] at started
  split at started
  · cases started
  · obtain ⟨-, rfl⟩ := Prod.mk.inj started
    obtain ⟨new, stand, shape, same⟩ := built rfl inner
    have ended : t₂.onListEnd answers' = _ := ended
    rw [onListEnd, shape] at ended
    exact ⟨answers', t₂, _, same, ended, stands_list stand⟩

theorem map_closes {ms : List (List Octet × Json)} (built : MapBuilt possible ms)
    (h : Builds possible t ((Document.object ms : Json).marks.map deliver) t') : Closes t (.object ms) t' := by
  rw [Document.marks, List.map_cons, List.map_append] at h
  obtain _ | ⟨answers, -, started, later⟩ := h
  obtain ⟨t₂, inner, last⟩ := Builds.append_iff.mp later
  obtain ⟨answers', -, ended⟩ := Builds.single_iff.mp last
  have started : t.onMapStart answers = _ := Option.some.inj started
  rw [onMapStart] at started
  split at started
  · cases started
  · obtain ⟨-, rfl⟩ := Prod.mk.inj started
    obtain ⟨entries', ms', ns', members, stored, perm, shape, same⟩ := built rfl .nil inner
    have ended : t₂.onMapEnd answers' = _ := ended
    rw [onMapEnd, shape] at ended
    exact ⟨answers', t₂, _, same, ended, stands_map members stored perm⟩

theorem Closes.placed {v : Json} (h : Closes t v t') (expecting : Expecting t.stack) :
    ∃ element, Stands element v ∧ Placed t.stack element t'.stack ∧ t'.root = t.root := by
  obtain ⟨answers, t₁, element, same, done, stands⟩ := h
  obtain ⟨placed, sameRoot⟩ := settle_placed expecting done
  exact ⟨element, stands, placed, sameRoot.trans same⟩

mutual

/-- The callbacks for a document put an element that stands for it in its place. -/
theorem value_built : ∀ (v : Json) {t t' : Tree}, Builds possible t (v.marks.map deliver) t' → Expecting t.stack →
    ∃ element, Stands element v ∧ Placed t.stack element t'.stack ∧ t'.root = t.root
  | .leaf _, _, _, h, expecting => leaf_built h expecting
  | .list vs, _, _, h, expecting => (list_closes (elements_built vs) h).placed expecting
  | .object ms, _, _, h, expecting => (map_closes (members_built ms) h).placed expecting

theorem elements_built : ∀ vs : List Json, ListBuilt possible vs
  | [], t, t', block, elements, rest, shape, h => by
      obtain _ | _ := h
      exact ⟨[], .nil, by rw [List.append_nil, shape], rfl⟩
  | v :: vs, t, t', block, elements, rest, shape, h => by
      rw [Document.marksOfList, List.map_append] at h
      obtain ⟨t₁, first, later⟩ := Builds.append_iff.mp h
      obtain ⟨element, stands, placed, same⟩ := value_built v first (shape ▸ .list)
      rw [shape] at placed
      generalize shape₁ : t₁.stack = stack₁ at placed
      obtain _ | _ := placed
      obtain ⟨new, stand, shape', same'⟩ := elements_built vs shape₁ later
      refine ⟨element :: new, .cons stands stand, ?_, same'.trans same⟩
      rw [shape', List.append_assoc, List.singleton_append]

theorem members_built : ∀ ms : List (List Octet × Json), MapBuilt possible ms
  | [], t, t', block, entries, rest, ns, shape, stored, h => by
      obtain _ | _ := h
      exact ⟨entries, [], ns, .nil, stored, by rw [List.append_nil], shape, rfl⟩
  | (key, v) :: ms, t, t', block, entries, rest, ns, shape, stored, h => by
      rw [Document.marksOfMembers, List.map_cons, List.map_append] at h
      obtain _ | ⟨answers, -, keyed, later⟩ := h
      obtain ⟨t₂, valued, others⟩ := Builds.append_iff.mp later
      obtain ⟨shape₁, same₁⟩ := key_built shape keyed
      obtain ⟨element, ⟨w, reordered, events⟩, placed, same₂⟩ := value_built v valued (shape₁ ▸ .value)
      rw [shape₁] at placed
      generalize shape₂ : t₂.stack = stack₂ at placed
      obtain _ | inserted := placed
      -- the pair is somewhere among the entries, and so is the member among those it stands for
      obtain ⟨ns₁, stored₁, perm₁⟩ := List.perm_comp_forall₂ (Map.insertNode_perm inserted)
        (.cons (show Stores (_, element) (key, w) from ⟨rfl, events⟩) stored)
      obtain ⟨entries', ms', ns', members, stored', perm', shape', same'⟩ := members_built ms shape₂ stored₁ others
      refine ⟨entries', (key, w) :: ms', ns', .cons ⟨rfl, reordered⟩ members, stored', ?_, shape',
        same'.trans (same₂.trans same₁)⟩
      exact perm'.trans ((List.Perm.append_right ms' perm₁).trans List.perm_middle.symm)

end

end documents

/-! ## What is replayed -/

/-- The tree replays a reordering of the document, with every string as the tree holds it. -/
theorem Builds.replayed {possible : Answers → Prop} {allocator : Allocator} {v : Json} {t : Tree}
    (h : Builds possible (new allocator) (v.marks.map deliver) t) :
    ∃ w, Reordered v w ∧ t.traverse record [] = w.marks.map replayed := by
  have whole : Closes (new allocator) v t → ∃ w, Reordered v w ∧ t.traverse record [] = w.marks.map AST.replayed := by
    rintro ⟨answers, t₁, element, -, done, w, reordered, events⟩
    obtain ⟨-, root⟩ | ⟨placed, -⟩ := settle_continue done
    · refine ⟨w, reordered, ?_⟩
      rw [traverse, root]
      dsimp only
      rw [traverseElement_eq, feed_record, events]
      rfl
    · cases placed
  cases v with
  | leaf value =>
      obtain ⟨answers, -, called⟩ := single_iff.mp h
      cases value <;> cases called
  | list vs => exact whole (list_closes (elements_built vs) h)
  | object ms => exact whole (map_closes (members_built ms) h)

/-- The strings that come back as they were. -/
def Intact (text : List Octet) : Prop := text.length < 2 ^ 32 ∧ NUL ∉ text

def Clean : Mark (List Octet) Leaf → Prop
  | .key key => Intact key
  | .leaf (.string value) => Intact value
  | _ => True

theorem narrow_eq {text : List Octet} (short : text.length < 2 ^ 32) : narrow text = text := by
  rw [narrow, Nat.mod_eq_of_lt short, List.take_length]

theorem length_kept_iff (text : List Octet) : (cstr (narrow text)).length = text.length ↔ Intact text := by
  constructor
  · intro kept
    have cut : (cstr (narrow text)).length ≤ (narrow text).length := (List.takeWhile_sublist _).length_le
    have taken : (narrow text).length = min (text.length % 2 ^ 32) text.length := List.length_take
    have short : text.length < 2 ^ 32 := by
      by_contra long
      have low := Nat.mod_lt text.length (show 0 < 2 ^ 32 by decide)
      omega
    refine ⟨short, ?_⟩
    rw [narrow_eq short] at kept
    have whole : cstr text = text := (List.takeWhile_prefix _).eq_of_length kept
    exact whole ▸ nul_notMem_cstr text
  · rintro ⟨short, free⟩
    rw [narrow_eq short, cstr_eq_self free]

/-- The length of the string of a callback. -/
def textLength : Event → Nat
  | .string (some text) => text.length
  | _ => 0

theorem textLength_le (text : List Octet) : (cstr (narrow text)).length ≤ text.length :=
  ((List.takeWhile_sublist _).length_le).trans (List.length_take_le' _ _)

theorem replayed_shorter (mark : Mark (List Octet) Leaf) : textLength (replayed mark) ≤ textLength (eventOf id mark) := by
  cases mark with
  | key key => exact textLength_le key
  | leaf value =>
      cases value with
      | string text => exact textLength_le text
      | _ => exact Nat.le_refl _
  | _ => exact Nat.le_refl _

theorem clean_iff (mark : Mark (List Octet) Leaf) :
    Clean mark ↔ textLength (replayed mark) = textLength (eventOf id mark) := by
  cases mark with
  | key key => exact (length_kept_iff key).symm
  | leaf value =>
      cases value with
      | string text => exact (length_kept_iff text).symm
      | _ => exact iff_of_true trivial rfl
  | _ => exact iff_of_true trivial rfl

theorem Clean.replayed_eq {mark : Mark (List Octet) Leaf} (clean : Clean mark) : AST.replayed mark = eventOf id mark := by
  have same : ∀ {text : List Octet}, Intact text → cstr (narrow text) = text := fun intact => by
    rw [narrow_eq intact.1, cstr_eq_self intact.2]
  cases mark with
  | key key => exact congrArg (fun text => Event.string (some text)) (same clean)
  | leaf value =>
      cases value with
      | string text => exact congrArg (fun text => Event.string (some text)) (same clean)
      | _ => rfl
  | _ => rfl

/-- A document whose callbacks do not break comes back if and only if its strings are intact. -/
theorem Builds.same_iff {possible : Answers → Prop} {allocator : Allocator} {v : Json} {t : Tree}
    (h : Builds possible (new allocator) (v.marks.map deliver) t) :
    Same v (t.traverse record []) ↔ ∀ mark ∈ v.marks, Clean mark := by
  obtain ⟨w, reordered, emitted⟩ := h.replayed
  rw [emitted]
  constructor
  · rintro ⟨w', reordered', again⟩ mark member
    rw [clean_iff]
    refine Theory.sizes_kept replayed_shorter reordered.marks_perm.symm ?_ mark member
    rw [again]
    exact reordered'.marks_perm.symm.map _
  · intro clean
    refine ⟨w, reordered, List.map_congr_left fun mark member => ?_⟩
    exact (clean mark (reordered.marks_perm.symm.subset member)).replayed_eq

/-! ## What is accepted -/

/-- The stack takes another element: a list, or a map that has room and no equal key. -/
inductive Takes : List Element → Prop where
  | list {block elements rest} : Takes (.list block elements :: rest)
  | value {key block entries rest} : Map.Sorted entries → entries.length ≠ 2 ^ 32 - 1 →
      (∀ entry ∈ entries, key.value.compare entry.1.value ≠ 0) → Takes (.scalar key :: .map block entries :: rest)

theorem Takes.expecting {stack : List Element} (h : Takes stack) : Expecting stack := by
  cases h with
  | list => exact .list
  | value => exact .value

abbrev Granted (answers : Answers) : Prop := answers = .plenty

section accepted

variable {t : Tree}

theorem insertKeyPair_takes {key : Scalar} {block : Block} {entries : List (Scalar × Element)} {rest : List Element}
    (shape : t.stack = .scalar key :: .map block entries :: rest) (takes : Takes t.stack) (element : Element) :
    ∃ t', t.insertKeyPair element .plenty = some (.CONTINUE, t') := by
  rw [shape] at takes
  obtain _ | ⟨sorted, room, apart⟩ := takes
  have success := (Map.insert_success_iff element sorted).mpr ⟨room, show Answers.plenty.node = _ from rfl, apart⟩
  rw [insertKeyPair, shape]
  dsimp only
  cases inserted : Map.insert entries key element Answers.plenty.node with
  | mk error entries' =>
      rw [inserted] at success
      obtain rfl : error = .success := success
      exact ⟨_, rfl⟩

theorem settle_takes (element : Element) (takes : t.stack = [] ∨ Takes t.stack) :
    ∃ t', t.settle element .plenty = some (.CONTINUE, t') := by
  obtain empty | takes := takes
  · rw [settle, empty]
    exact ⟨_, rfl⟩
  · rw [settle]
    generalize shape : t.stack = stack at takes
    cases takes with
    | list => exact ⟨_, rfl⟩
    | @value key block entries rest sorted room apart =>
        obtain ⟨t', inserted⟩ := insertKeyPair_takes shape (shape ▸ .value sorted room apart) element
        exact ⟨t', by dsimp only; rw [inserted]; rfl⟩

/-- A scalar goes to its place. -/
theorem insertKeyOrValue_takes (own : Scalar) (takes : Takes t.stack) :
    ∃ t', (({ t with created := t.created + 1 } : Tree).insertKeyOrValue (.scalar own) .plenty).map (orFree t.block) =
      some (.CONTINUE, t') := by
  rw [insertKeyOrValue]
  generalize shape : t.stack = stack at takes
  cases takes with
  | list => exact ⟨_, rfl⟩
  | @value key block entries rest sorted room apart =>
      have takes : Takes ({ t with created := t.created + 1 } : Tree).stack := shape ▸ .value sorted room apart
      obtain ⟨t', inserted⟩ := insertKeyPair_takes (show ({ t with created := t.created + 1 } : Tree).stack = _ from shape)
        takes (.scalar own)
      rw [shape] at inserted
      exact ⟨t', by dsimp only; rw [inserted]; rfl⟩

theorem leaf_accepted (leaf : Leaf) (takes : Takes t.stack) :
    ∃ t', Builds Granted t ((Document.leaf leaf : Json).marks.map deliver) t' := by
  suffices ∃ t', t.call (deliver (.leaf leaf)) .plenty = some (.CONTINUE, t') from
    this.imp fun t' called => .cons .plenty rfl called .nil
  have validated : t.validateKeyType = (.CONTINUE, t) := by
    rw [validateKeyType]
    generalize t.stack = stack at takes
    cases takes <;> rfl
  have scalar : ∀ value, ∃ t', t.onScalar value .plenty = some (.CONTINUE, t') := by
    intro value
    rw [onScalar, validated]
    exact insertKeyOrValue_takes ⟨t.block, value⟩ takes
  cases leaf with
  | boolean value => exact scalar (.boolean value)
  | integer value => exact scalar (.integer value)
  | decimal value => exact scalar (.decimal value)
  | string value =>
      obtain ⟨t', called⟩ := insertKeyOrValue_takes ⟨t.block, .string (narrow value)⟩ takes
      refine ⟨t', ?_⟩
      rw [show t.call (deliver (.leaf (.string value))) .plenty = t.onString (some (narrow value)) .plenty from rfl,
        onString, validated]
      exact called
  | null =>
      rw [show t.call _ _ = t.onNull .plenty from rfl, onNull]
      generalize shape : t.stack = stack at takes
      cases takes with
      | list => exact ⟨_, rfl⟩
      | @value key block entries rest sorted room apart =>
          have takes : Takes ({ t with created := t.created + 1 } : Tree).stack := shape ▸ .value sorted room apart
          obtain ⟨t', inserted⟩ := insertKeyPair_takes
            (show ({ t with created := t.created + 1 } : Tree).stack = _ from shape) takes (.null t.block)
          rw [shape] at inserted
          exact ⟨t', by dsimp only; rw [if_neg (by decide), inserted]; rfl⟩

/-- An object whose keys are unique, and few enough for the size of a map. -/
def Distinct (ms : List (List Octet × Json)) : Prop := (ms.map Prod.fst).Nodup ∧ ms.length < 2 ^ 32

theorem compare_apart {key key' : List Octet} (intact : Intact key) (intact' : Intact key') (ne : key ≠ key') :
    (Value.string (narrow key)).compare (.string (narrow key')) ≠ 0 := by
  rw [narrow_eq intact.1, narrow_eq intact'.1]
  intro same
  have equal := (strcmp_eq_zero_iff key key').mp same
  rw [cstr_eq_self intact.2, cstr_eq_self intact'.2] at equal
  exact ne equal

/-- A key is pushed on top of its map. -/
theorem key_accepted (key : List Octet) {block : Block} {entries : List (Scalar × Element)} {rest : List Element}
    (shape : t.stack = .map block entries :: rest) :
    ∃ t', t.call (deliver (.key key)) .plenty = some (.CONTINUE, t') := by
  rw [show t.call (deliver (.key key)) .plenty = t.onString (some (narrow key)) .plenty from rfl, onString, validateKeyType,
    shape]
  dsimp only
  rw [if_neg (by decide), setValue, if_neg (by decide)]
  dsimp only
  rw [insertKeyOrValue, shape]
  exact ⟨_, rfl⟩

/-- The container on top of the stack, once its contents are there, ends. -/
theorem container_accepted {v : Json} {start finish : Mark (List Octet) Leaf} {contents : List (Mark (List Octet) Leaf)}
    (marks : v.marks = start :: (contents ++ [finish])) {t₁ t₂ t₃ : Tree}
    (started : t.call (deliver start) .plenty = some (.CONTINUE, t₁)) (inner : Builds Granted t₁ (contents.map deliver) t₂)
    (ended : t₂.call (deliver finish) .plenty = some (.CONTINUE, t₃)) : Builds Granted t (v.marks.map deliver) t₃ := by
  rw [marks, List.map_cons, List.map_append]
  exact .cons .plenty rfl started (Builds.append_iff.mpr ⟨t₂, inner, .cons .plenty rfl ended .nil⟩)

mutual

/-- With memory enough, the callbacks for a document with intact strings and distinct keys do not
break. -/
theorem value_accepted : ∀ (v : Json) {t : Tree}, v.AllObjects Distinct → (∀ mark ∈ v.marks, Clean mark) →
    (Takes t.stack ∨ t.stack = [] ∧ ∀ leaf, v ≠ .leaf leaf) → ∃ t', Builds Granted t (v.marks.map deliver) t'
  | .leaf leaf, _, _, _, takes => by
      obtain takes | ⟨-, container⟩ := takes
      · exact leaf_accepted leaf takes
      · exact absurd rfl (container leaf)
  | .list vs, t, distinct, clean, takes => by
      have inside : ∀ mark ∈ Document.marksOfList vs, Clean mark := fun mark member =>
        clean mark (List.mem_cons_of_mem _ (List.mem_append_left _ member))
      obtain ⟨t₂, inner⟩ := elements_accepted vs (t := { t with stack := .list t.block [] :: t.stack, created := t.created + 1 })
        rfl distinct inside
      obtain ⟨new, -, shape, -⟩ := elements_built vs rfl inner
      obtain ⟨t₃, ended⟩ := settle_takes (t := { t₂ with stack := t.stack }) (.list t.block new)
        (takes.elim .inr fun root => .inl root.1)
      refine ⟨t₃, container_accepted rfl rfl inner ?_⟩
      rw [show t₂.call (deliver .listEnd) .plenty = t₂.onListEnd .plenty from rfl, onListEnd, shape]
      exact ended
  | .object ms, t, distinct, clean, takes => by
      have inside : ∀ mark ∈ Document.marksOfMembers ms, Clean mark := fun mark member =>
        clean mark (List.mem_cons_of_mem _ (List.mem_append_left _ member))
      obtain ⟨t₂, inner⟩ := members_accepted ms
        (t := { t with stack := .map ⟨t.created, SystemAllocator⟩ [] :: t.stack, created := t.created + 1 })
        [] rfl .nil nofun distinct.2 inside (by simpa using distinct.1.1) nofun (by simpa using distinct.1.2)
      obtain ⟨entries, -, -, -, -, -, shape, -⟩ := members_built ms rfl .nil inner
      obtain ⟨t₃, ended⟩ := settle_takes (t := { t₂ with stack := t.stack }) (.map ⟨t.created, SystemAllocator⟩ entries)
        (takes.elim .inr fun root => .inl root.1)
      refine ⟨t₃, container_accepted rfl rfl inner ?_⟩
      rw [show t₂.call (deliver .objectEnd) .plenty = t₂.onMapEnd .plenty from rfl, onMapEnd, shape]
      exact ended

theorem elements_accepted : ∀ (vs : List Json) {t : Tree} {block elements rest}, t.stack = .list block elements :: rest →
    Document.AllObjectsOfList Distinct vs → (∀ mark ∈ Document.marksOfList vs, Clean mark) →
    ∃ t', Builds Granted t ((Document.marksOfList vs).map deliver) t'
  | [], t, _, _, _, _, _, _ => ⟨t, .nil⟩
  | v :: vs, t, block, elements, rest, shape, distinct, clean => by
      have takes : Takes t.stack := shape ▸ .list
      obtain ⟨t₁, first⟩ := value_accepted v distinct.1 (fun mark member => clean mark (List.mem_append_left _ member))
        (.inl takes)
      obtain ⟨element, -, placed, -⟩ := value_built v first takes.expecting
      rw [shape] at placed
      generalize shape₁ : t₁.stack = stack₁ at placed
      obtain _ | _ := placed
      obtain ⟨t', later⟩ := elements_accepted vs shape₁ distinct.2 fun mark member =>
        clean mark (List.mem_append_right _ member)
      refine ⟨t', ?_⟩
      rw [Document.marksOfList, List.map_append]
      exact Builds.append_iff.mpr ⟨t₁, first, later⟩

theorem members_accepted : ∀ (ms : List (List Octet × Json)) {t : Tree} {block entries rest} (done : List (List Octet)),
    t.stack = .map block entries :: rest → Map.Sorted entries →
    (∀ entry ∈ entries, ∃ key ∈ done, entry.1.value = .string (narrow key)) →
    Document.AllObjectsOfMembers Distinct ms → (∀ mark ∈ Document.marksOfMembers ms, Clean mark) →
    (done ++ ms.map Prod.fst).Nodup → (∀ key ∈ done, Intact key) → entries.length + ms.length < 2 ^ 32 →
    ∃ t', Builds Granted t ((Document.marksOfMembers ms).map deliver) t'
  | [], t, _, _, _, _, _, _, _, _, _, _, _, _ => ⟨t, .nil⟩
  | (key, v) :: ms, t, block, entries, rest, done, shape, sorted, keys, distinct, clean, nodup, intact, few => by
      have own : Intact key := clean (.key key) List.mem_cons_self
      have apart : ∀ other ∈ done, key ≠ other := fun other member same =>
        (List.nodup_append.mp nodup).2.2 other member key List.mem_cons_self same.symm
      obtain ⟨t₁, keyed⟩ := key_accepted key shape
      obtain ⟨shape₁, -⟩ := key_built shape keyed
      have takes : Takes t₁.stack := by
        rw [shape₁]
        refine .value sorted (by simp only [List.length_cons] at few; omega) fun entry member => ?_
        obtain ⟨other, before, same⟩ := keys entry member
        rw [same]
        exact compare_apart own (intact other before) (apart other before)
      obtain ⟨t₂, valued⟩ := value_accepted v distinct.1
        (fun mark member => clean mark (List.mem_cons_of_mem _ (List.mem_append_left _ member))) (.inl takes)
      obtain ⟨element, -, placed, -⟩ := value_built v valued takes.expecting
      rw [shape₁] at placed
      generalize shape₂ : t₂.stack = stack₂ at placed
      obtain _ | inserted := placed
      have perm := Map.insertNode_perm inserted
      obtain ⟨t', later⟩ := members_accepted ms (done ++ [key]) shape₂ (Map.insertNode_sorted sorted inserted)
        (fun entry member => by
          rcases List.mem_cons.mp (perm.subset member) with rfl | member
          · exact ⟨key, List.mem_append_right _ List.mem_cons_self, rfl⟩
          · obtain ⟨other, before, same⟩ := keys entry member
            exact ⟨other, List.mem_append_left _ before, same⟩)
        distinct.2 (fun mark member => clean mark (List.mem_cons_of_mem _ (List.mem_append_right _ member)))
        (by simpa [List.append_assoc] using nodup)
        (fun other member => by
          rcases List.mem_append.mp member with before | same
          · exact intact other before
          · exact List.mem_singleton.mp same ▸ own)
        (by rw [perm.length_eq]; simp only [List.length_cons] at few ⊢; omega)
      refine ⟨t', ?_⟩
      rw [Document.marksOfMembers, List.map_cons, List.map_append]
      exact .cons .plenty rfl keyed (Builds.append_iff.mpr ⟨t₂, valued, later⟩)

end

end accepted

/-- A leaf finds no place in an empty tree. -/
theorem Builds.not_leaf {possible : Answers → Prop} {allocator : Allocator} {v : Json} {t : Tree}
    (h : Builds possible (new allocator) (v.marks.map deliver) t) (leaf : Leaf) : v ≠ .leaf leaf := by
  rintro rfl
  obtain ⟨answers, -, called⟩ := single_iff.mp h
  cases leaf <;> cases called

/-- **Replay**: a document whose callbacks do not break comes back, up to the order of keys, if and
only if its strings are intact.  With memory enough they break only for a document that is no
container. -/
theorem replay_same_iff (allocator : Allocator) (v : Json) :
    (∀ possible t, Builds possible (new allocator) (v.marks.map deliver) t →
      (Same v (t.traverse record []) ↔ ∀ mark ∈ v.marks, Clean mark)) ∧
    (v.AllObjects Distinct →
      ((∃ t, Builds Granted (new allocator) (v.marks.map deliver) t ∧ Same v (t.traverse record [])) ↔
        (∀ leaf, v ≠ .leaf leaf) ∧ ∀ mark ∈ v.marks, Clean mark)) := by
  refine ⟨fun _ _ built => built.same_iff, fun distinct => ⟨?_, ?_⟩⟩
  · rintro ⟨t, built, same⟩
    exact ⟨built.not_leaf, built.same_iff.mp same⟩
  · rintro ⟨container, clean⟩
    obtain ⟨t, built⟩ := value_accepted v (t := new allocator) distinct clean (.inr ⟨rfl, container⟩)
    exact ⟨t, built, built.same_iff.mpr clean⟩

/-- `{"b":null,"a":true}` -/
def twoKeys : Json := .object [([98], .leaf .null), ([97], .leaf (.boolean true))]

theorem replay_same_for_two_keys :
    ∃ t, Builds Granted (new SystemAllocator) (twoKeys.marks.map deliver) t ∧ Same twoKeys (t.traverse record []) := by
  refine ((replay_same_iff SystemAllocator twoKeys).2 ⟨⟨by decide, by decide⟩, trivial, trivial, trivial⟩).mpr
    ⟨nofun, fun mark member => ?_⟩
  simp only [twoKeys, Document.marks, Document.marksOfMembers, List.mem_cons, List.mem_append, List.not_mem_nil,
    or_false] at member
  rcases member with rfl | (rfl | rfl | rfl | rfl) | rfl
  · trivial
  · exact ⟨by decide, by decide⟩
  · trivial
  · exact ⟨by decide, by decide⟩
  · trivial
  · trivial

/-- The list of one string, with a zero between two letters. -/
def zeroInside : Json := .list [.leaf (.string [97, 0, 98])]

theorem string_cut_at_zero :
    ∃ t, Builds Granted (new SystemAllocator) (zeroInside.marks.map deliver) t ∧
      t.traverse record [] = [.listStart, .string (some [97]), .listEnd] ∧ ¬ Same zeroInside (t.traverse record []) := by
  have built : Builds Granted (new SystemAllocator) (zeroInside.marks.map deliver) _ :=
    .cons .plenty rfl rfl (.cons .plenty rfl rfl (.cons .plenty rfl rfl .nil))
  refine ⟨_, built, by decide, fun same => ?_⟩
  obtain ⟨-, free⟩ := built.same_iff.mp same (.leaf (.string [97, 0, 98])) (.tail _ (.head _))
  exact absurd free (by decide)

end Tree

end AST

end Everscale
