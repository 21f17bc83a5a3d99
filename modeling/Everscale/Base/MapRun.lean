/-
# Everscale.Base.MapRun -- the map over a run, as a sorted table

`tableStep` says what each operation answers and does when the map is the list of its pairs in the order
of their keys.  A map represents a table if its links make a red-black tree with these pairs in this
order, its size is the count in 32 bits, and every node that came from the allocator is in the table or
went back (`Represents`).  Every operation answers as the table does and keeps the map representing it
(`step_represents`), so every run from the empty map does (`run_refines`).

The pairs of a table carry the addresses of their nodes: that no operation moves a pair to another node
is what keeps iterators valid.
-/
import Everscale.Base.MapRemove

namespace Everscale

set_option autoImplicit false

open Theory Theory.RedBlack Theory.SortedTable

/-- A call of an operation of `Map`; one that inserts comes with the allocator's answer. -/
inductive MapOp (κ ν : Type) where
  | insert (key : Option κ) (value : Option ν) (node : Option MapNode)
  | insertIterator (key : Option κ) (value : Option ν) (iterator : Bool) (node : Option MapNode)
  | remove (key : Option κ)
  | find (key : Option κ)
  | update (key : Option κ) (value : Option ν) (old : Bool)
  | findIterator (key : Option κ)
  | erase (iterator : Option (Option MapNode))
  | clear
  | size
  deriving DecidableEq, Repr

inductive MapAnswer (ν : Type) where
  | error (error : Error)
  | inserted (error : Error) (iterator : Option MapNode)
  | value (value : Option ν)
  | updated (error : Error) (old : Option (Option ν))
  | iterator (node : Option MapNode)
  | size (size : UInt32)
  deriving DecidableEq, Repr

namespace Map

variable {κ ν : Type}

section Step

variable (compare : κ → κ → Int) (fuel : Nat)

def step (s : Map κ ν) : MapOp κ ν → Option (MapAnswer ν × Map κ ν)
  | .insert key value node => (s.insert compare fuel key value node).map fun (e, s) => (.error e, s)
  | .insertIterator key value iterator node =>
      (s.insertIterator compare fuel key value iterator node).map fun ((e, it), s) => (.inserted e it, s)
  | .remove key => (s.remove compare fuel key).map fun (e, s) => (.error e, s)
  | .find key => (s.find compare fuel key).map fun value => (.value value, s)
  | .update key value old =>
      (s.update compare fuel key value old).map fun ((e, old), s) => (.updated e old, s)
  | .findIterator key => (s.findIterator compare fuel key).map fun node => (.iterator node, s)
  | .erase iterator => (s.erase fuel iterator).map fun (e, s) => (.error e, s)
  | .clear => (s.clear fuel).map fun (e, s) => (.error e, s)
  | .size => some (.size s.size, s)

def run : Map κ ν → List (MapOp κ ν) → Option (List (MapAnswer ν) × Map κ ν)
  | s, [] => some ([], s)
  | s, op :: ops => do
      let (answer, s) ← s.step compare fuel op
      let (answers, s) ← run s ops
      return (answer :: answers, s)

end Step

/-! ## The table -/

section Table

variable (compare : κ → κ → Int)

/-- An insertion that has a key, a value and a node. -/
def tableInsert (e : MapEntry κ ν) (xs : List (MapEntry κ ν)) : Error × List (MapEntry κ ν) :=
  match lookup compare MapEntry.key e.key xs with
  | some _ => (.uniquenessViolation, xs)
  | none => (.success, put compare MapEntry.key e xs)

/-- What an operation answers when the map is a sorted table, and the table after it. -/
def tableStep (xs : List (MapEntry κ ν)) : MapOp κ ν → MapAnswer ν × List (MapEntry κ ν)
  | .insert none _ _ => (.error .nullPointer, xs)
  | .insert (some key) value node =>
      if UInt32.ofNat xs.length = 0xFFFFFFFF then (.error .overflow, xs)
      else
        match node with
        | none => (.error .outOfMemory, xs)
        | some node =>
            let inserted := tableInsert compare ⟨node, key, value⟩ xs
            (.error inserted.1, inserted.2)
  | .insertIterator (some key) (some value) true node =>
      match node with
      | none => (.inserted .outOfMemory none, xs)
      | some node =>
          let inserted := tableInsert compare ⟨node, key, some value⟩ xs
          (.inserted inserted.1 (if inserted.1 = .success then some node else none), inserted.2)
  | .insertIterator _ _ _ _ => (.inserted .nullPointer none, xs)
  | .remove none => (.error .nullPointer, xs)
  | .remove (some key) =>
      match lookup compare MapEntry.key key xs with
      | none => (.error .cannotFind, xs)
      | some _ => (.error .success, drop compare MapEntry.key key xs)
  | .find key => (.value (key.bind fun key => (lookup compare MapEntry.key key xs).bind MapEntry.value), xs)
  | .update none _ _ => (.updated .nullPointer none, xs)
  | .update (some key) value old =>
      match lookup compare MapEntry.key key xs with
      | none => (.updated .cannotFind none, xs)
      | some e =>
          (.updated .success (if old then some e.value else none),
            change compare MapEntry.key key (fun a => { a with value := value }) xs)
  | .findIterator none => (.iterator none, xs)
  | .findIterator (some key) =>
      (.iterator (some ((lookup compare MapEntry.key key xs).elim mapSentinel MapEntry.node)), xs)
  | .erase none => (.error .nullPointer, xs)
  | .erase (some none) => (.error .invalidIterator, xs)
  | .erase (some (some node)) =>
      if xs.any (·.node = node) then (.error .success, xs.filter (·.node ≠ node))
      else (.error .invalidIterator, xs)
  | .clear => (.error .success, [])
  | .size => (.size (UInt32.ofNat xs.length), xs)

def tableRun : List (MapEntry κ ν) → List (MapOp κ ν) → List (MapAnswer ν) × List (MapEntry κ ν)
  | xs, [] => ([], xs)
  | xs, op :: ops =>
      let (answer, xs) := tableStep compare xs op
      let (answers, xs) := tableRun xs ops
      (answer :: answers, xs)

/-- A node is at an address of its own: not the sentinel's, nor that of a node in the map. -/
def Fresh (xs : List (MapEntry κ ν)) (node : MapNode) : Prop :=
  node ≠ mapSentinel ∧ node ∉ xs.map MapEntry.node

/-- What the operations ask of their callers and of the allocator: a new node is new, and an iterator
points to a node of the map, if to any. -/
def Allowed (xs : List (MapEntry κ ν)) : MapOp κ ν → Prop
  | .insert _ _ (some node) => Fresh xs node
  | .insertIterator _ _ _ (some node) => Fresh xs node
  | .erase (some (some node)) => node = mapSentinel ∨ node ∈ xs.map MapEntry.node
  | _ => True

/-- Every operation of the run is allowed where it stands. -/
def AllowedRun : List (MapEntry κ ν) → List (MapOp κ ν) → Prop
  | _, [] => True
  | xs, op :: ops => Allowed xs op ∧ AllowedRun (tableStep compare xs op).2 ops

instance (xs : List (MapEntry κ ν)) (node : MapNode) : Decidable (Fresh xs node) := inferInstanceAs (Decidable (_ ∧ _))

instance (xs : List (MapEntry κ ν)) : (op : MapOp κ ν) → Decidable (Allowed xs op)
  | .insert _ _ (some node) | .insertIterator _ _ _ (some node) => inferInstanceAs (Decidable (Fresh xs node))
  | .erase (some (some node)) => inferInstanceAs (Decidable (node = mapSentinel ∨ node ∈ xs.map MapEntry.node))
  | .insert _ _ none | .insertIterator _ _ _ none | .erase none | .erase (some none) | .remove _ | .find _
  | .update .. | .findIterator _ | .clear | .size => isTrue trivial

instance decidableAllowedRun (xs : List (MapEntry κ ν)) : (ops : List (MapOp κ ν)) → Decidable (AllowedRun compare xs ops)
  | [] => isTrue trivial
  | op :: ops =>
      have := decidableAllowedRun (tableStep compare xs op).2 ops
      inferInstanceAs (Decidable (Allowed xs op ∧ AllowedRun compare (tableStep compare xs op).2 ops))

/-- The map holds the pairs of the table in a red-black tree, in order. -/
structure Represents (s : Map κ ν) (xs : List (MapEntry κ ν)) : Prop where
  tree : ∃ t, At s [] t ∧ IsRedBlack t ∧ t.inorder = xs
  sorted : Sorted compare MapEntry.key xs
  size : s.size = UInt32.ofNat xs.length
  books : s.allocated.Perm (s.deallocated ++ xs.map MapEntry.node)

end Table

variable {compare : κ → κ → Int} {s : Map κ ν} {xs : List (MapEntry κ ν)} {fuel : Nat}

theorem empty_represents (compare : κ → κ → Int) : (empty : Map κ ν).Represents compare [] where
  tree := ⟨.leaf, ⟨trivial, rfl, .nil, rfl, rfl⟩, ⟨rfl, 0, rfl⟩, rfl⟩
  sorted := .nil
  size := rfl
  books := .nil

/-! ## Search -/

/-- The search of the code finds what the table has for the key, or the sentinel. -/
theorem Represents.search (h : s.Represents compare xs) (orders : OrdersOn compare Set.univ) (k : κ)
    (enough : xs.length < fuel) :
    (lookup compare MapEntry.key k xs = none ∧ findNode compare fuel s s.root k = some mapSentinel ∧
      s.hasKey mapSentinel = false) ∨
    ∃ path isBlack left e right, lookup compare MapEntry.key k xs = some e ∧ compare k e.key = 0 ∧
      findNode compare fuel s s.root k = some e.node ∧ s.hasKey e.node = true ∧
      At s path (.node isBlack left e right) ∧ IsRedBlack (plug path (.node isBlack left e right)) ∧
      xs = (before path ++ left.inorder) ++ e :: (right.inorder ++ after path) := by
  obtain ⟨t, hAt, redBlack, rfl⟩ := h.tree
  have low := t.height_le_length
  have cut : Cut (against compare k) t.inorder := h.sorted.cut orders k
  have fits : t.height < fuel := by omega
  obtain ⟨result, there⟩ := findNode_spec compare hAt k fits
  have whole : plug _ _ = t := plug_search (against compare k) t []
  rw [← hAt.root_eq] at result
  generalize (RedBlack.search (against compare k) t []).2 = path at *
  generalize found : (RedBlack.search (against compare k) t []).1 = u at *
  cases u with
  | leaf =>
      refine .inl ⟨lookup_eq_none (search_leaf cut found).2.2, result, ?_⟩
      simp [hasKey, there.nullKey]
  | node isBlack left e right =>
      have zero : compare k e.key = 0 := search_eq_node (f := against compare k) found
      have shape : t.inorder = (before path ++ left.inorder) ++ e :: (right.inorder ++ after path) := by
        rw [← whole, inorder_plug]
        simp [Coloured.inorder]
      refine .inr ⟨path, isBlack, left, e, right, ?_, zero, result, ?_, there, ?_, shape⟩
      · rw [shape] at cut ⊢
        exact lookup_split cut zero
      · exact there.hasKey_iff.2 (by simp)
      · rwa [whole]

/-! ## Removal -/

/-- A node of the map goes, and the other pairs stay where they are. -/
theorem Represents.deleteNode {path : List (Frame (MapEntry κ ν))} {isBlack : Bool}
    {left right : Coloured (MapEntry κ ν)} {e : MapEntry κ ν} (h : s.Represents compare xs)
    (hAt : At s path (.node isBlack left e right))
    (redBlack : IsRedBlack (plug path (.node isBlack left e right)))
    (shape : xs = (before path ++ left.inorder) ++ e :: (right.inorder ++ after path))
    (enough : xs.length + 2 < fuel) :
    ∃ s', s.deleteNode fuel e.node = some s' ∧
      s'.Represents compare ((before path ++ left.inorder) ++ (right.inorder ++ after path)) := by
  have order : (plug path (.node isBlack left e right)).inorder = xs := by
    rw [shape, inorder_plug]
    simp [Coloured.inorder]
  have fits : (plug path (.node isBlack left e right)).inorder.length + 2 < fuel := by rwa [order]
  obtain ⟨s', T, result, hT, redBlackT, order', size, allocated, deallocated⟩ :=
    deleteNode_spec hAt redBlack fits
  refine ⟨s', result, ⟨T, hT, redBlackT, by simp [order']⟩, ?_, ?_, ?_⟩
  · have sorted := h.sorted
    rw [shape] at sorted
    exact sorted.sublist ((List.sublist_cons_self e _).append_left _)
  · have count : xs.length =
        ((before path ++ left.inorder) ++ (right.inorder ++ after path)).length + 1 := by
      rw [shape]
      simp only [List.length_append, List.length_cons]
      omega
    rw [size]
    simp only [h.size, count, UInt32.ofNat_add]
    exact UInt32.add_sub_cancel _ _
  · have books := h.books
    rw [shape] at books
    rw [allocated, deallocated]
    refine books.trans ?_
    have moved (d us vs : List MapNode) (x : MapNode) : (d ++ (us ++ x :: vs)).Perm (x :: d ++ (us ++ vs)) :=
      (List.perm_middle.append_left d).trans List.perm_middle
    simp only [List.map_append, List.map_cons]
    exact moved _ _ _ _

/-! ## Insertion -/

/-- A new node with a key that no pair has comes into the table, and one with a key that some pair has
goes back. -/
theorem Represents.insertNode (h : s.Represents compare xs) (orders : OrdersOn compare Set.univ)
    {node : MapNode} (fresh : Fresh xs node) (key : κ) (value : Option ν) (enough : xs.length + 2 < fuel) :
    (∃ e s', lookup compare MapEntry.key key xs = some e ∧
      insertNode compare fuel (s.construct node key value) node key = some (false, s') ∧
      (s'.deallocate node).Represents compare xs) ∨
    (lookup compare MapEntry.key key xs = none ∧ ∃ s',
      insertNode compare fuel (s.construct node key value) node key = some (true, s') ∧
      s'.Represents compare (put compare MapEntry.key ⟨node, key, value⟩ xs)) := by
  obtain ⟨t, hAt, redBlack, rfl⟩ := h.tree
  have constructed := hAt.construct fresh.2 fresh.1 key value
  have cut : Cut (against compare key) t.inorder := h.sorted.cut orders key
  have spec := insertNode_spec compare (e := ⟨node, key, value⟩) constructed redBlack fresh.1 fresh.2
    (if_pos rfl) (if_pos rfl) cut enough
  rcases spec with ⟨a, member, zero, result⟩ | ⟨nonzero, s', T, result, hT, redBlackT, order, books⟩
  · obtain ⟨e, found⟩ : ∃ e, lookup compare MapEntry.key key t.inorder = some e := by
      refine Option.isSome_iff_exists.1 (List.find?_isSome.2 ⟨a, member, ?_⟩)
      simpa using zero
    refine .inl ⟨e, _, found, result, ⟨t, constructed.congr rfl fun x => ⟨rfl, rfl, rfl, rfl, fun _ => rfl⟩,
      redBlack, rfl⟩, h.sorted, h.size, ?_⟩
    exact h.books.cons node
  · refine .inr ⟨lookup_eq_none nonzero, s', result, ⟨T, hT, redBlackT, order⟩, h.sorted.put orders, ?_, ?_⟩
    · rw [books.size, (put_perm (e := (⟨node, key, value⟩ : MapEntry κ ν)) nonzero).length_eq, List.length_cons,
        UInt32.ofNat_add]
      exact congrArg (· + 1) h.size
    · rw [books.allocated, books.deallocated]
      have nodes := (put_perm (e := (⟨node, key, value⟩ : MapEntry κ ν)) nonzero).map MapEntry.node
      refine (h.books.cons node).trans ?_
      exact List.perm_middle.symm.trans (nodes.symm.append_left _)

/-! ## A new value -/

/-- A node of the map gets another value. -/
theorem Represents.setValue {path : List (Frame (MapEntry κ ν))} {isBlack : Bool}
    {left right : Coloured (MapEntry κ ν)} {e : MapEntry κ ν} (h : s.Represents compare xs)
    (hAt : At s path (.node isBlack left e right))
    (redBlack : IsRedBlack (plug path (.node isBlack left e right)))
    (shape : xs = (before path ++ left.inorder) ++ e :: (right.inorder ++ after path)) (value : Option ν) :
    (s.setValue e.node value).Represents compare
      ((before path ++ left.inorder) ++ { e with value := value } :: (right.inorder ++ after path)) := by
  have joined : At s path (.join .left isBlack left e right) := hAt
  refine ⟨⟨_, At.plug_iff.1 ((List.append_nil path).symm ▸ joined.setValue value), ?_, ?_⟩, ?_, ?_, ?_⟩
  · obtain ⟨n, balanced, fits⟩ := redBlack_plug.1 redBlack
    exact redBlack_plug.2 ⟨n, balanced, fits⟩
  · rw [inorder_plug]
    simp [Coloured.inorder, Coloured.join]
  · have sorted := h.sorted
    rw [shape] at sorted
    have keys (ys : List (MapEntry κ ν)) :
        Sorted compare MapEntry.key ys ↔ (ys.map MapEntry.key).Pairwise fun a b => compare a b < 0 := by
      rw [Sorted, List.pairwise_map]
    rw [keys] at sorted ⊢
    simpa using sorted
  · exact h.size.trans (by rw [shape]; simp)
  · refine h.books.trans ?_
    rw [shape]
    simp [Map.setValue]

/-! ## `clear` -/

/-- The hole that a node without children leaves. -/
theorem At.unhang {f : Frame (MapEntry κ ν)} {path : List (Frame (MapEntry κ ν))} {isBlack : Bool}
    {e : MapEntry κ ν} (h : At s (f :: path) (.node isBlack .leaf e .leaf)) :
    At (s.setChild f.side f.a.node mapSentinel) (f :: path) .leaf := by
  have nodup := (List.nodup_append.1 h.nodup_parts).2.1
  refine ⟨trivial, h.hangs.relinked nodup (by simp) (fun _ => rfl) ?_ ?_, nodup, h.nullKey, h.nullBlack⟩
  · intro f' first
    obtain rfl : f = f' := by simpa using first
    exact .refl _ _
  · intro x member ne
    exact ⟨rfl, rfl, rfl, rfl, fun d => if_neg fun both => ne both.2⟩

/-- A node without children goes back to the allocator, and the loop goes on at its parent. -/
theorem clearFrom_leaf {f : Frame (MapEntry κ ν)} {path : List (Frame (MapEntry κ ν))} {isBlack : Bool}
    {e : MapEntry κ ν} (h : At s (f :: path) (.node isBlack .leaf e .leaf)) (fuel : Nat) :
    clearFrom (fuel + 1) s e.node =
      clearFrom fuel ((s.deallocate e.node).setChild f.side f.a.node mapSentinel) f.a.node := by
  have cell := h.subtree.1
  have key : s.hasKey e.node = true := by simp [hasKey, cell.key]
  have noKey : s.hasKey mapSentinel = false := by simp [hasKey, h.nullKey]
  have left : s.left e.node = mapSentinel := cell.near
  have right : s.right e.node = mapSentinel := cell.far
  have parent : s.parent e.node = f.a.node := cell.parent
  have parentKey : s.hasKey f.a.node = true := h.hasKey_parentOf_iff.2 (by simp)
  obtain ⟨side, black, a, sibling⟩ := f
  have near : s.child side a.node = e.node := h.hangs.1.near
  have test : e.node = s.child .right a.node ↔ .right = side := h.eq_child_iff (.inl (by simp)) .right
  simp only [clearFrom, key, left, right, parent, noKey, parentKey]
  cases side with
  | right =>
      have here : e.node = s.right a.node := test.2 rfl
      simp [← here]
  | left =>
      have here : e.node ≠ s.right a.node := fun same => by simpa using test.1 same
      have there : s.left a.node = e.node := near
      simp [here, there]

/-- The nodes of the list went back, the last one first. -/
def Returned (s s' : Map κ ν) (gone : List MapNode) : Prop :=
  s'.size = s.size ∧ s'.allocated = s.allocated ∧ s'.deallocated = gone ++ s.deallocated

theorem Returned.trans {s' s'' : Map κ ν} {gone gone' : List MapNode} (h : Returned s s' gone)
    (h' : Returned s' s'' gone') : Returned s s'' (gone' ++ gone) :=
  ⟨h'.1.trans h.1, h'.2.1.trans h.2.1, by rw [h'.2.2, h.2.2, List.append_assoc]⟩

/-- From a subtree the loop comes back to the node above it, with all of the subtree gone. -/
def Clears (t : Coloured (MapEntry κ ν)) : Prop :=
  ∀ (s : Map κ ν) (f : Frame (MapEntry κ ν)) (path : List (Frame (MapEntry κ ν))), At s (f :: path) t →
    t ≠ .leaf → ∃ n s' gone, n + 1 ≤ 2 * (nodes t).length ∧
      (∀ fuel, clearFrom (fuel + n) s (pointer t) = clearFrom fuel s' f.a.node) ∧ At s' (f :: path) .leaf ∧
      Returned s s' gone ∧ gone.Perm (nodes t)

/-- From a node the loop comes back to it without its right subtree, and then without the left one. -/
theorem Clears.children {path : List (Frame (MapEntry κ ν))} {isBlack : Bool}
    {left right : Coloured (MapEntry κ ν)} {e : MapEntry κ ν} (leftClears : Clears left)
    (rightClears : Clears right) (h : At s path (.node isBlack left e right)) :
    ∃ n s' gone, n ≤ 2 * ((nodes left).length + (nodes right).length) ∧
      (∀ fuel, clearFrom (fuel + n) s e.node = clearFrom fuel s' e.node) ∧
      At s' path (.node isBlack .leaf e .leaf) ∧ Returned s s' gone ∧
      gone.Perm (nodes left ++ nodes right) := by
  obtain ⟨n₁, s₁, gone₁, few₁, goes₁, at₁, returned₁, perm₁⟩ : ∃ n s' gone, n ≤ 2 * (nodes right).length ∧
      (∀ fuel, clearFrom (fuel + n) s e.node = clearFrom fuel s' e.node) ∧
      At s' path (.node isBlack left e .leaf) ∧ Returned s s' gone ∧ gone.Perm (nodes right) := by
    by_cases none : right = .leaf
    · subst none
      exact ⟨0, s, [], Nat.zero_le _, fun _ => rfl, h, ⟨rfl, rfl, rfl⟩, .nil⟩
    · have rightAt : At s (⟨.right, isBlack, e, left⟩ :: path) right := At.up.2 h
      obtain ⟨n, s', gone, few, goes, at', returned, perm⟩ := rightClears _ _ _ rightAt none
      refine ⟨n + 1, s', gone, few, fun fuel => ?_, At.up.1 at', returned, perm⟩
      have key : s.hasKey e.node = true := by simp [hasKey, h.subtree.1.key]
      have rightPointer : s.right e.node = pointer right := h.subtree.1.far
      have rightKey : s.hasKey (pointer right) = true := rightAt.hasKey_iff.2 none
      rw [← goes fuel, ← Nat.add_assoc]
      simp [clearFrom, key, rightPointer, rightKey]
  obtain ⟨n₂, s₂, gone₂, few₂, goes₂, at₂, returned₂, perm₂⟩ : ∃ n s' gone, n ≤ 2 * (nodes left).length ∧
      (∀ fuel, clearFrom (fuel + n) s₁ e.node = clearFrom fuel s' e.node) ∧
      At s' path (.node isBlack .leaf e .leaf) ∧ Returned s₁ s' gone ∧ gone.Perm (nodes left) := by
    by_cases none : left = .leaf
    · subst none
      exact ⟨0, s₁, [], Nat.zero_le _, fun _ => rfl, at₁, ⟨rfl, rfl, rfl⟩, .nil⟩
    · have leftAt : At s₁ (⟨.left, isBlack, e, .leaf⟩ :: path) left := At.up.2 at₁
      obtain ⟨n, s', gone, few, goes, at', returned, perm⟩ := leftClears _ _ _ leftAt none
      refine ⟨n + 1, s', gone, few, fun fuel => ?_, At.up.1 at', returned, perm⟩
      have key : s₁.hasKey e.node = true := by simp [hasKey, at₁.subtree.1.key]
      have rightPointer : s₁.right e.node = mapSentinel := at₁.subtree.1.far
      have leftPointer : s₁.left e.node = pointer left := at₁.subtree.1.near
      have leftKey : s₁.hasKey (pointer left) = true := leftAt.hasKey_iff.2 none
      have noKey : s₁.hasKey mapSentinel = false := by simp [hasKey, at₁.nullKey]
      rw [← goes fuel, ← Nat.add_assoc]
      simp [clearFrom, key, rightPointer, leftPointer, leftKey, noKey]
  refine ⟨n₂ + n₁, s₂, gone₂ ++ gone₁, by omega, fun fuel => ?_, at₂, returned₁.trans returned₂,
    perm₂.append perm₁⟩
  rw [← Nat.add_assoc, goes₁, goes₂]

theorem clears (t : Coloured (MapEntry κ ν)) : Clears t := by
  induction t with
  | leaf => exact fun s f path h ne => absurd rfl ne
  | node isBlack left e right ihLeft ihRight =>
      intro s f path h _
      obtain ⟨n, s', gone, few, goes, at', returned, perm⟩ := ihLeft.children ihRight h
      refine ⟨n + 1, (s'.deallocate e.node).setChild f.side f.a.node mapSentinel, e.node :: gone, ?_,
        fun fuel => ?_, ?_, ?_, ?_⟩
      · simp only [nodes, Coloured.inorder, List.map_append, List.map_cons, List.length_append, List.length_cons] at few ⊢
        omega
      · rw [Nat.add_comm n 1, ← Nat.add_assoc, pointer, goes, clearFrom_leaf at']
      · have freed : At (s'.deallocate e.node) (f :: path) (.node isBlack .leaf e .leaf) :=
          at'.congr rfl fun x => ⟨rfl, rfl, rfl, rfl, fun _ => rfl⟩
        exact freed.unhang
      · exact ⟨returned.1, returned.2.1, congrArg (e.node :: ·) returned.2.2⟩
      · refine (perm.cons e.node).trans ?_
        simp only [nodes, Coloured.inorder, List.map_append, List.map_cons]
        exact List.perm_middle.symm

/-- `clear` gives every node back and leaves an empty map. -/
theorem Represents.clear (h : s.Represents compare xs) (enough : 2 * xs.length + 1 < fuel) :
    ∃ s', s.clear fuel = some (.success, s') ∧ s'.Represents compare [] := by
  obtain ⟨t, hAt, redBlack, rfl⟩ := h.tree
  cases t with
  | leaf =>
      obtain ⟨fuel, rfl⟩ := Nat.exists_eq_succ_of_ne_zero (Nat.ne_of_gt (Nat.zero_lt_of_lt enough))
      refine ⟨s, ?_, h⟩
      have root : s.root = mapSentinel := hAt.root_eq
      simp [Map.clear, clearFrom, root, hasKey, hAt.nullKey]
  | node isBlack left e right =>
      obtain ⟨n, s', gone, few, goes, at', returned, perm⟩ := (clears left).children (clears right) hAt
      have count : (nodes left).length + (nodes right).length + 1 =
          (Coloured.node isBlack left e right).inorder.length := by
        simp only [nodes, Coloured.inorder, List.length_append, List.length_cons, List.length_map]
        omega
      obtain ⟨rest, rfl⟩ := Nat.exists_eq_add_of_le (show n + 1 ≤ fuel by omega)
      have cell := at'.subtree.1
      have key : s'.hasKey e.node = true := by simp [hasKey, cell.key]
      have noKey : s'.hasKey mapSentinel = false := by simp [hasKey, at'.nullKey]
      have noLeft : s'.left e.node = mapSentinel := cell.near
      have noRight : s'.right e.node = mapSentinel := cell.far
      have parent : s'.parent e.node = mapSentinel := cell.parent
      have root : s.root = e.node := hAt.root_eq
      have last : clearFrom (rest + 1) s' e.node =
          some { s'.deallocate e.node with root := mapSentinel, size := 0 } := by
        simp [clearFrom, key, noLeft, noRight, parent, noKey]
      refine ⟨{ s'.deallocate e.node with root := mapSentinel, size := 0 }, ?_,
        ⟨.leaf, ⟨trivial, rfl, .nil, at'.nullKey, at'.nullBlack⟩, ⟨rfl, 0, rfl⟩, rfl⟩, .nil, rfl, ?_⟩
      · have goes' := goes (rest + 1)
        rw [last] at goes'
        have fuelEq : n + 1 + rest = rest + 1 + n := by omega
        simp [Map.clear, root, fuelEq, goes']
      · have books := h.books
        have freed : { s'.deallocate e.node with root := mapSentinel, size := 0 }.deallocated =
            e.node :: (gone ++ s.deallocated) := congrArg (e.node :: ·) returned.2.2
        rw [freed, List.map_nil, List.append_nil]
        refine (List.Perm.of_eq returned.2.1).trans (books.trans ?_)
        refine List.perm_append_comm.trans ?_
        have all : ((Coloured.node isBlack left e right).inorder.map MapEntry.node).Perm (e.node :: gone) := by
          simp only [Coloured.inorder, List.map_append, List.map_cons]
          exact List.perm_middle.trans (perm.symm.cons e.node)
        exact all.append_right s.deallocated

/-! ## Runs -/

section Runs

variable {op : MapOp κ ν} {ops : List (MapOp κ ν)}

/-- The operation answers as the table does, and the map represents the table after it. -/
def Refines (compare : κ → κ → Int) (fuel : Nat) (s : Map κ ν) (xs : List (MapEntry κ ν)) (op : MapOp κ ν) : Prop :=
  ∃ s', s.step compare fuel op = some ((tableStep compare xs op).1, s') ∧
    s'.Represents compare (tableStep compare xs op).2

theorem Represents.refines_insert (h : s.Represents compare xs) (orders : OrdersOn compare Set.univ)
    {key : Option κ} {value : Option ν} {node : Option MapNode}
    (allowed : Allowed xs (.insert key value node)) (enough : xs.length + 2 < fuel) :
    Refines compare fuel s xs (.insert key value node) := by
  cases key with
  | none => exact ⟨s, rfl, h⟩
  | some key =>
      by_cases full : UInt32.ofNat xs.length = 0xFFFFFFFF
      · have size : 0xFFFFFFFF = s.size := by rw [h.size, full]
        refine ⟨s, ?_, ?_⟩
        · simp only [step, Map.insert, tableStep, if_pos size, if_pos full, Option.map_some]
        · simpa only [tableStep, if_pos full] using h
      · have size : ¬ 0xFFFFFFFF = s.size := by
          rw [h.size]
          exact Ne.symm full
        cases node with
        | none =>
            refine ⟨s, ?_, ?_⟩
            · simp only [step, Map.insert, tableStep, if_neg size, if_neg full, Option.map_some]
            · simpa only [tableStep, if_neg full] using h
        | some node =>
            rcases h.insertNode orders allowed key value enough with
              ⟨e, s', found, result, kept⟩ | ⟨missing, s', result, kept⟩
            · refine ⟨s'.deallocate node, ?_, ?_⟩
              · simp [step, Map.insert, tableStep, tableInsert, size, full, result, found]
              · simpa [tableStep, tableInsert, full, found] using kept
            · refine ⟨s', ?_, ?_⟩
              · simp [step, Map.insert, tableStep, tableInsert, size, full, result, missing]
              · simpa [tableStep, tableInsert, full, missing] using kept

theorem Represents.refines_insertIterator (h : s.Represents compare xs) (orders : OrdersOn compare Set.univ)
    {key : Option κ} {value : Option ν} {iterator : Bool} {node : Option MapNode}
    (allowed : Allowed xs (.insertIterator key value iterator node)) (enough : xs.length + 2 < fuel) :
    Refines compare fuel s xs (.insertIterator key value iterator node) := by
  cases key with
  | none => exact ⟨s, rfl, h⟩
  | some key =>
      cases value with
      | none => exact ⟨s, rfl, h⟩
      | some value =>
          cases iterator with
          | false => exact ⟨s, rfl, h⟩
          | true =>
              cases node with
              | none => exact ⟨s, rfl, h⟩
              | some node =>
                  rcases h.insertNode orders allowed key (some value) enough with
                    ⟨e, s', found, result, kept⟩ | ⟨missing, s', result, kept⟩
                  · refine ⟨s'.deallocate node, ?_, ?_⟩
                    · simp [step, Map.insertIterator, tableStep, tableInsert, result, found]
                    · simpa [tableStep, tableInsert, found] using kept
                  · refine ⟨s', ?_, ?_⟩
                    · simp [step, Map.insertIterator, tableStep, tableInsert, result, missing]
                    · simpa [tableStep, tableInsert, missing] using kept

theorem Represents.refines_remove (h : s.Represents compare xs) (orders : OrdersOn compare Set.univ)
    {key : Option κ} (enough : xs.length + 2 < fuel) : Refines compare fuel s xs (.remove key) := by
  cases key with
  | none => exact ⟨s, rfl, h⟩
  | some key =>
      have short : xs.length < fuel := by omega
      rcases h.search orders key short with ⟨missing, result, noKey⟩ |
        ⟨path, isBlack, left, e, right, found, zero, result, hasKey, hAt, redBlack, shape⟩
      · refine ⟨s, ?_, ?_⟩
        · simp [step, Map.remove, tableStep, result, noKey, missing]
        · simpa [tableStep, missing] using h
      · obtain ⟨s', gone, kept⟩ := h.deleteNode hAt redBlack shape enough
        have cut := h.sorted.cut orders key
        rw [shape] at cut
        have dropped : drop compare MapEntry.key key xs =
            (before path ++ left.inorder) ++ (right.inorder ++ after path) := by
          rw [shape]
          exact drop_split cut zero
        refine ⟨s', ?_, ?_⟩
        · simp [step, Map.remove, tableStep, result, hasKey, found, gone]
        · rw [← dropped] at kept
          simpa [tableStep, found] using kept

theorem Represents.refines_find (h : s.Represents compare xs) (orders : OrdersOn compare Set.univ)
    {key : Option κ} (enough : xs.length < fuel) : Refines compare fuel s xs (.find key) := by
  cases key with
  | none => exact ⟨s, rfl, h⟩
  | some key =>
      rcases h.search orders key enough with ⟨missing, result, noKey⟩ |
        ⟨path, isBlack, left, e, right, found, zero, result, hasKey, hAt, redBlack, shape⟩
      · exact ⟨s, by simp [step, Map.find, tableStep, result, noKey, missing], h⟩
      · have value : s.value e.node = e.value := hAt.subtree.1.value
        exact ⟨s, by simp [step, Map.find, tableStep, result, hasKey, found, value], h⟩

theorem Represents.refines_findIterator (h : s.Represents compare xs) (orders : OrdersOn compare Set.univ)
    {key : Option κ} (enough : xs.length < fuel) : Refines compare fuel s xs (.findIterator key) := by
  cases key with
  | none => exact ⟨s, rfl, h⟩
  | some key =>
      rcases h.search orders key enough with ⟨missing, result, noKey⟩ |
        ⟨path, isBlack, left, e, right, found, zero, result, hasKey, hAt, redBlack, shape⟩
      · exact ⟨s, by simp [step, Map.findIterator, tableStep, result, missing], h⟩
      · exact ⟨s, by simp [step, Map.findIterator, tableStep, result, found], h⟩

theorem Represents.refines_update (h : s.Represents compare xs) (orders : OrdersOn compare Set.univ)
    {key : Option κ} {value : Option ν} {old : Bool} (enough : xs.length < fuel) :
    Refines compare fuel s xs (.update key value old) := by
  cases key with
  | none => exact ⟨s, rfl, h⟩
  | some key =>
      rcases h.search orders key enough with ⟨missing, result, noKey⟩ |
        ⟨path, isBlack, left, e, right, found, zero, result, hasKey, hAt, redBlack, shape⟩
      · refine ⟨s, ?_, ?_⟩
        · simp [step, Map.update, tableStep, result, noKey, missing]
        · simpa [tableStep, missing] using h
      · have oldValue : s.value e.node = e.value := hAt.subtree.1.value
        have cut := h.sorted.cut orders key
        rw [shape] at cut
        have changed : change compare MapEntry.key key (fun a => { a with value := value }) xs =
            (before path ++ left.inorder) ++ { e with value := value } :: (right.inorder ++ after path) := by
          rw [shape]
          exact change_split cut zero _
        refine ⟨s.setValue e.node value, ?_, ?_⟩
        · simp [step, Map.update, tableStep, result, hasKey, found, oldValue]
        · have kept := h.setValue hAt redBlack shape value
          rw [← changed] at kept
          simpa only [tableStep, found] using kept

theorem filter_node {us vs : List (MapEntry κ ν)} {e : MapEntry κ ν}
    (nodup : ((us ++ e :: vs).map MapEntry.node).Nodup) :
    (us ++ e :: vs).filter (fun a => a.node ≠ e.node) = us ++ vs := by
  have perm : ((us ++ e :: vs).map MapEntry.node).Perm (e.node :: (us ++ vs).map MapEntry.node) := by
    simp only [List.map_append, List.map_cons]
    exact List.perm_middle
  have apart := (List.nodup_cons.1 (perm.nodup_iff.1 nodup)).1
  have keep (zs : List (MapEntry κ ν)) (sub : ∀ a ∈ zs, a ∈ us ++ vs) :
      zs.filter (fun a => decide (a.node ≠ e.node)) = zs := by
    refine List.filter_eq_self.2 fun a member => decide_eq_true fun same => apart ?_
    rw [← same]
    exact List.mem_map_of_mem (sub a member)
  rw [List.filter_append, List.filter_cons_of_neg (by simp), keep us fun a member => List.mem_append_left _ member,
    keep vs fun a member => List.mem_append_right _ member]

theorem Represents.refines_erase (h : s.Represents compare xs) {iterator : Option (Option MapNode)}
    (allowed : Allowed xs (.erase iterator)) (enough : xs.length + 2 < fuel) :
    Refines compare fuel s xs (.erase iterator) := by
  obtain ⟨t, hAt, redBlack, rfl⟩ := h.tree
  rcases iterator with _ | _ | node
  · exact ⟨s, rfl, h⟩
  · exact ⟨s, rfl, h⟩
  · by_cases inside : node ∈ t.inorder.map MapEntry.node
    · obtain ⟨e, member, rfl⟩ := List.mem_map.1 inside
      obtain ⟨path, isBlack, left, right, rfl⟩ := exists_focus member
      have there : At s (path ++ []) (.node isBlack left e right) := At.plug_iff.2 hAt
      rw [List.append_nil] at there
      have shape : (plug path (.node isBlack left e right)).inorder =
          (before path ++ left.inorder) ++ e :: (right.inorder ++ after path) := by
        rw [inorder_plug]
        simp [Coloured.inorder]
      obtain ⟨s', gone, kept⟩ := h.deleteNode there redBlack shape enough
      have hasKey : s.hasKey e.node = true := there.hasKey_iff.2 (by simp)
      have any : (plug path (.node isBlack left e right)).inorder.any (·.node = e.node) = true :=
        List.any_eq_true.2 ⟨e, member, decide_eq_true rfl⟩
      have nodup := hAt.nodup
      simp only [nodes, plug, shape] at nodup
      have dropped := filter_node nodup
      rw [← shape] at dropped
      rw [← dropped] at kept
      refine ⟨s', ?_, ?_⟩
      · simp only [step, Map.erase, tableStep, any, hasKey, gone, if_true]
        rfl
      · simpa only [tableStep, any, if_true] using kept
    · rcases allowed with rfl | inside'
      · have noKey : s.hasKey mapSentinel = false := by simp [hasKey, hAt.nullKey]
        have any : t.inorder.any (·.node = mapSentinel) = false := by
          refine List.any_eq_false.2 fun a member same => inside ?_
          exact List.mem_map.2 ⟨a, member, of_decide_eq_true same⟩
        refine ⟨s, ?_, ?_⟩
        · simp [step, Map.erase, tableStep, any, noKey]
        · rw [tableStep, any]
          exact h
      · exact absurd inside' inside

/-- Every operation refines the table's. -/
theorem step_represents (h : s.Represents compare xs) (orders : OrdersOn compare Set.univ)
    (allowed : Allowed xs op) (enough : 2 * xs.length + 4 ≤ fuel) : Refines compare fuel s xs op := by
  cases op with
  | insert key value node => exact h.refines_insert orders allowed (by omega)
  | insertIterator key value iterator node => exact h.refines_insertIterator orders allowed (by omega)
  | remove key => exact h.refines_remove orders (by omega)
  | find key => exact h.refines_find orders (by omega)
  | update key value old => exact h.refines_update orders (by omega)
  | findIterator key => exact h.refines_findIterator orders (by omega)
  | erase iterator => exact h.refines_erase allowed (by omega)
  | clear =>
      have more : 2 * xs.length + 1 < fuel := by omega
      obtain ⟨s', result, kept⟩ := h.clear more
      exact ⟨s', by simp [step, tableStep, result], kept⟩
  | size => exact ⟨s, by simp [step, tableStep, h.size], h⟩

/-- An operation adds one pair at most. -/
theorem length_tableStep_le (compare : κ → κ → Int) (xs : List (MapEntry κ ν)) (op : MapOp κ ν) :
    (tableStep compare xs op).2.length ≤ xs.length + 1 := by
  have inserted (e : MapEntry κ ν) : (tableInsert compare e xs).2.length ≤ xs.length + 1 := by
    unfold tableInsert
    split
    · exact Nat.le_succ _
    · exact length_put_le compare MapEntry.key e xs
  fun_cases tableStep compare xs op
  all_goals first
    | exact Nat.le_succ _
    | exact inserted _
    | exact Nat.zero_le _
    | exact (List.length_filter_le _ _).trans (Nat.le_succ _)
    | exact (List.length_map _).le.trans (Nat.le_succ _)

theorem length_tableRun_le (compare : κ → κ → Int) (xs : List (MapEntry κ ν)) (ops : List (MapOp κ ν)) :
    (tableRun compare xs ops).2.length ≤ xs.length + ops.length := by
  induction ops generalizing xs with
  | nil => exact Nat.le_refl _
  | cons op ops ih =>
      have first := length_tableStep_le compare xs op
      have rest := ih (tableStep compare xs op).2
      simp only [tableRun, List.length_cons]
      omega

/-- A run answers as the table's does, and the map represents the table after it. -/
theorem run_represents (h : s.Represents compare xs) (orders : OrdersOn compare Set.univ)
    (allowed : AllowedRun compare xs ops) (enough : 2 * (xs.length + ops.length) + 4 ≤ fuel) :
    ∃ s', s.run compare fuel ops = some ((tableRun compare xs ops).1, s') ∧
      s'.Represents compare (tableRun compare xs ops).2 := by
  induction ops generalizing s xs with
  | nil => exact ⟨s, rfl, h⟩
  | cons op ops ih =>
      rw [List.length_cons] at enough
      have fits : 2 * xs.length + 4 ≤ fuel := by omega
      obtain ⟨s', result, kept⟩ := step_represents h orders allowed.1 fits
      have length := length_tableStep_le compare xs op
      obtain ⟨s'', result', kept'⟩ := ih kept allowed.2 (by omega)
      exact ⟨s'', by simp [run, tableRun, result, result'], kept'⟩

end Runs

end Map

end Everscale
