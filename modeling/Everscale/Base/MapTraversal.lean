/-
# Everscale.Base.MapTraversal -- the nodes that a loop over the map reads

A loop from `minimumIterator` meets the pairs of a map in ascending order and reads only their nodes and
the sentinel (`Represents.meets`), and so does one from any iterator that was there before an erase of
another pair.  An empty map is another matter.  `findMinimum` starts at the sentinel there, and
`deleteNode` stores a node in the sentinel's `_left` whenever it takes out a root with two children,
where it stays after the node is gone: `run_traverses_iff` says that this is all that can go wrong.
-/
import Everscale.Base.MapWalk

namespace Everscale

set_option autoImplicit false

open Theory Theory.RedBlack Theory.SortedTable

namespace Map

variable {κ ν : Type}

/-! ## Reads -/

section Reads

variable (side : Side)

/-- The nodes of which `findExtreme` reads a field. -/
def findExtremeReads : Nat → Map κ ν → MapNode → List MapNode
  | 0, _, _ => []
  | fuel + 1, s, x =>
      x :: s.child side x ::
        if s.hasKey (s.child side x) then findExtremeReads fuel s (s.child side x) else []

def climbReads : Nat → Map κ ν → MapNode → List MapNode
  | 0, _, _ => []
  | fuel + 1, s, x =>
      x :: s.parent x ::
        if s.hasKey (s.parent x) ∧ x = s.child side (s.parent x) then climbReads fuel s (s.parent x) else []

def findNeighbourReads (fuel : Nat) (s : Map κ ν) (x : MapNode) : List MapNode :=
  x :: s.child side x ::
    if s.hasKey (s.child side x) then findExtremeReads side.other fuel s (s.child side x)
    else climbReads side fuel s x

/-- The nodes that the loop of `iterate` reads: at each iterator for its key and its value, and to move it. -/
def iterateReads (fuel : Nat) (s : Map κ ν) : Nat → MapIterator → List MapNode
  | 0, _ => []
  | n + 1, it =>
      match it.node with
      | none => []
      | some x =>
          x :: if s.hasKey x then
            findNeighbourReads side fuel s x ++
              ((it.move side fuel s).elim [] fun next => iterateReads fuel s n next)
          else []

end Reads

def minimumIteratorReads (fuel : Nat) (s : Map κ ν) : List MapNode := findExtremeReads .left fuel s s.root

/-- The sentinel and the nodes of the table, which are those that have not gone back to the allocator. -/
def Live (xs : List (MapEntry κ ν)) (x : MapNode) : Prop := x = mapSentinel ∨ x ∈ xs.map MapEntry.node

/-- A loop from the iterator meets the pairs in this order and ends, and reads live nodes only. -/
structure Meets (side : Side) (fuel : Nat) (s : Map κ ν) (xs : List (MapEntry κ ν)) (it : MapIterator)
    (pairs : List (MapEntry κ ν)) : Prop where
  pairs : iterate side fuel s fuel it = some (pairs.map fun e => (e.key, e.value))
  reads : ∀ x ∈ iterateReads side fuel s fuel it, Live xs x

/-- What the iterators of a map with the pairs of the table promise. -/
structure Traverses (compare : κ → κ → Int) (fuel : Nat) (s : Map κ ν) (xs : List (MapEntry κ ν)) : Prop where
  ascending : xs.Pairwise fun a b => compare a.key b.key < 0
  minimum : ∃ first, minimumIterator fuel s = some first ∧ (∀ x ∈ minimumIteratorReads fuel s, Live xs x) ∧
    Meets .right fuel s xs ⟨first⟩ xs
  erased : ∀ e ∈ xs, ∃ s', s.erase fuel (some (some e.node)) = some (.success, s') ∧
    ∀ us other vs, xs.filter (·.node ≠ e.node) = us ++ other :: vs →
      Meets .right fuel s' (us ++ other :: vs) ⟨some other.node⟩ (other :: vs) ∧
      Meets .left fuel s' (us ++ other :: vs) ⟨some other.node⟩ (other :: us.reverse)

variable {compare : κ → κ → Int} {s : Map κ ν} {xs : List (MapEntry κ ν)} {fuel : Nat} {side : Side} {x : MapNode}

/-- Every link of a node of the table leads to one, or to the sentinel. -/
theorem Represents.links (h : s.Represents compare xs) (inside : x ∈ xs.map MapEntry.node) :
    Live xs (s.parent x) ∧ ∀ side, Live xs (s.child side x) := by
  obtain ⟨t, hAt, -, rfl⟩ := h.tree
  obtain ⟨e, member, rfl⟩ := List.mem_map.1 inside
  obtain ⟨path, isBlack, left, right, rfl⟩ := exists_focus member
  have there : At s (path ++ []) (.node isBlack left e right) := At.plug_iff.2 hAt
  rw [List.append_nil] at there
  have cell := there.subtree.1
  have all := nodes_plug_perm path (.node isBlack left e right)
  have parts {y : MapNode} : y ∈ nodes (.join .left isBlack left e right) ↔ _ := mem_nodes_join
  have live {y : MapNode} (found : y ∈ nodes (.node isBlack left e right) ∨ y ∈ around path) :
      Live (plug path (.node isBlack left e right)).inorder y :=
    .inr (all.mem_iff.2 (List.mem_append.2 found))
  have child {u : Coloured (MapEntry κ ν)} (sub : ∀ y ∈ nodes u, y ∈ nodes (.node isBlack left e right)) :
      Live (plug path (.node isBlack left e right)).inorder (pointer u) := by
    by_cases leaf : u = .leaf
    · exact .inl (by rw [leaf]; rfl)
    · exact live (.inl (sub _ (pointer_mem leaf)))
  refine ⟨?_, fun side => ?_⟩
  · rw [cell.parent]
    cases path with
    | nil => exact .inl rfl
    | cons f path => exact live (.inr (mem_around_cons.2 (.inl rfl)))
  · cases side with
    | left =>
        rw [cell.near]
        exact child fun y below => parts.2 (.inr (.inl below))
    | right =>
        have far : s.child .right e.node = pointer right := cell.far
        rw [far]
        exact child fun y below => parts.2 (.inr (.inr below))

theorem Represents.not_hasKey (h : s.Represents compare xs) : s.hasKey mapSentinel = false := by
  obtain ⟨t, hAt, -⟩ := h.tree
  simp [hasKey, hAt.nullKey]

/-- Where the loops go on is a node of the table. -/
theorem Represents.inside (h : s.Represents compare xs) (live : Live xs x) (key : s.hasKey x = true) :
    x ∈ xs.map MapEntry.node := by
  refine live.resolve_left ?_
  rintro rfl
  rw [h.not_hasKey] at key
  cases key

theorem Represents.findExtremeReads (h : s.Represents compare xs) (inside : x ∈ xs.map MapEntry.node) :
    ∀ y ∈ Map.findExtremeReads side fuel s x, Live xs y := by
  induction fuel generalizing x with
  | zero => simp [Map.findExtremeReads]
  | succ fuel ih =>
      have child := (h.links inside).2 side
      intro y read
      rcases List.mem_cons.1 read with rfl | read
      · exact .inr inside
      rcases List.mem_cons.1 read with rfl | read
      · exact child
      split at read
      · rename_i key
        exact ih (h.inside child key) y read
      · cases read

theorem Represents.climbReads (h : s.Represents compare xs) (inside : x ∈ xs.map MapEntry.node) :
    ∀ y ∈ Map.climbReads side fuel s x, Live xs y := by
  induction fuel generalizing x with
  | zero => simp [Map.climbReads]
  | succ fuel ih =>
      have parent := (h.links inside).1
      intro y read
      rcases List.mem_cons.1 read with rfl | read
      · exact .inr inside
      rcases List.mem_cons.1 read with rfl | read
      · exact parent
      split at read
      · rename_i further
        exact ih (h.inside parent further.1) y read
      · cases read

theorem Represents.findNeighbourReads (h : s.Represents compare xs) (inside : x ∈ xs.map MapEntry.node) :
    ∀ y ∈ Map.findNeighbourReads side fuel s x, Live xs y := by
  have child := (h.links inside).2 side
  intro y read
  rcases List.mem_cons.1 read with rfl | read
  · exact .inr inside
  rcases List.mem_cons.1 read with rfl | read
  · exact child
  split at read
  · rename_i key
    exact h.findExtremeReads (h.inside child key) y read
  · exact h.climbReads inside y read

theorem firstNode_live {vs : List (MapEntry κ ν)} (sub : ∀ e ∈ vs, e ∈ xs) : Live xs (firstNode vs) := by
  cases vs with
  | nil => exact .inl rfl
  | cons e vs => exact .inr (List.mem_map_of_mem (sub e List.mem_cons_self))

/-- The loop reads the nodes of the table, and moves from each to the next. -/
theorem Represents.iterateReads (h : s.Represents compare xs) {us vs : List (MapEntry κ ν)}
    (split : inOrder side xs = us ++ vs) (enough : xs.length < fuel) (n : Nat) :
    ∀ y ∈ Map.iterateReads side fuel s n ⟨some (firstNode vs)⟩, Live xs y := by
  have members (e : MapEntry κ ν) (there : e ∈ vs) : e ∈ xs := by
    have there : e ∈ inOrder side xs := by simp [split, there]
    cases side <;> simpa [inOrder] using there
  have live := firstNode_live members
  induction n generalizing us vs with
  | zero => simp [Map.iterateReads]
  | succ n ih =>
      intro y read
      rcases List.mem_cons.1 read with rfl | read
      · exact live
      split at read
      · rename_i key
        have inside := h.inside live key
        rcases List.mem_append.1 read with read | read
        · exact h.findNeighbourReads inside y read
        · cases vs with
          | nil =>
              rw [firstNode, List.head?_nil, Option.elim_none, h.not_hasKey] at key
              cases key
          | cons e vs =>
              have first : firstNode (e :: vs) = e.node := rfl
              have next := h.neighbour split enough
              rw [first] at read
              simp only [MapIterator.move, next, bind, Option.bind_some, pure, Option.elim_some] at read
              have later : inOrder side xs = (us ++ [e]) ++ vs := by simpa using split
              have rest (a : MapEntry κ ν) (there : a ∈ vs) : a ∈ xs := members a (List.mem_cons_of_mem e there)
              exact ih later rest (firstNode_live rest) y read
      · cases read

/-- From the first of the pairs of a walk that are left, the loop meets them all. -/
theorem Represents.meets (h : s.Represents compare xs) {us vs : List (MapEntry κ ν)}
    (split : inOrder side xs = us ++ vs) (enough : xs.length < fuel) :
    Meets side fuel s xs ⟨some (firstNode vs)⟩ vs where
  pairs := by
    have length : (inOrder side xs).length = xs.length := by cases side <;> simp [inOrder]
    rw [split, List.length_append] at length
    exact h.iterate split enough (by omega)
  reads := h.iterateReads split enough fuel

/-- The iterators at other nodes are valid after an erase. -/
theorem Represents.meets_erased (h : s.Represents compare xs) {e : MapEntry κ ν} (member : e ∈ xs)
    (enough : xs.length + 2 < fuel) :
    ∃ s', s.erase fuel (some (some e.node)) = some (.success, s') ∧
      ∀ us other vs, xs.filter (·.node ≠ e.node) = us ++ other :: vs →
        Meets .right fuel s' (us ++ other :: vs) ⟨some other.node⟩ (other :: vs) ∧
        Meets .left fuel s' (us ++ other :: vs) ⟨some other.node⟩ (other :: us.reverse) := by
  have any : xs.any (·.node = e.node) = true := List.any_eq_true.2 ⟨e, member, decide_eq_true rfl⟩
  have allowed : Allowed xs (.erase (some (some e.node))) := .inr (List.mem_map_of_mem member)
  obtain ⟨s', result, kept⟩ := h.refines_erase allowed enough
  simp only [tableStep, any, if_true] at result kept
  refine ⟨s', ?_, fun us other vs split => ?_⟩
  · simp only [step, Option.map_eq_some_iff, Prod.mk.injEq, MapAnswer.error.injEq] at result
    obtain ⟨⟨error, s''⟩, erased, rfl, rfl⟩ := result
    exact erased
  · rw [split] at kept
    have shorter := List.length_filter_le (fun a : MapEntry κ ν => decide (a.node ≠ e.node)) xs
    rw [split] at shorter
    have fits : (us ++ other :: vs).length < fuel := by omega
    have forth : inOrder .right (us ++ other :: vs) = us ++ other :: vs := rfl
    have back : inOrder .left (us ++ other :: vs) = vs.reverse ++ other :: us.reverse := by simp [inOrder]
    exact ⟨kept.meets forth fits, kept.meets back fits⟩

/-! ## Over a run -/

section Runs

variable {ops : List (MapOp κ ν)}

/-- The iterators keep their promise just if there is a pair to start from or the sentinel's left child
is the sentinel. -/
theorem Represents.traverses_iff (h : s.Represents compare xs) (enough : xs.length + 2 < fuel) :
    Traverses compare fuel s xs ↔ xs ≠ [] ∨ s.left mapSentinel = mapSentinel := by
  have fits : xs.length < fuel := by omega
  obtain ⟨more, rfl⟩ := Nat.exists_eq_add_of_lt (Nat.zero_lt_of_lt fits)
  rw [Nat.zero_add] at *
  have root (none : xs = []) : s.root = mapSentinel := by
    obtain ⟨t, hAt, -, order⟩ := h.tree
    rw [hAt.root_eq, Coloured.inorder_eq_nil.1 (order.trans none)]
    rfl
  constructor
  · intro traverses
    by_cases none : xs = []
    · obtain ⟨first, -, reads, -⟩ := traverses.minimum
      have read : s.left mapSentinel ∈ minimumIteratorReads (more + 1) s := by
        rw [minimumIteratorReads, root none, Map.findExtremeReads]
        exact List.mem_cons_of_mem _ List.mem_cons_self
      have live := reads _ read
      rw [none] at live
      exact .inr (live.resolve_right List.not_mem_nil)
    · exact .inl none
  · intro condition
    refine ⟨h.sorted, ?_, fun e member => h.meets_erased member enough⟩
    have all : inOrder .right xs = [] ++ xs := rfl
    by_cases none : xs = []
    · have itself : s.child .left mapSentinel = mapSentinel := condition.resolve_left (not_not.2 none)
      refine ⟨some mapSentinel, ?_, ?_, ?_⟩
      · simp [minimumIterator, findMinimum, findExtreme, root none, itself, h.not_hasKey]
      · intro x read
        simp only [minimumIteratorReads, Map.findExtremeReads, root none, itself, h.not_hasKey, List.mem_cons,
          List.not_mem_nil, Bool.false_eq_true, if_false, or_false, or_self] at read
        exact .inl read
      · have meets := h.meets all fits
        rwa [none] at meets ⊢
    · have minimum : findMinimum (more + 1) s s.root = some (firstNode xs) := h.extreme none .right fits
      refine ⟨some (firstNode xs), by simp [minimumIterator, minimum], ?_, h.meets all fits⟩
      obtain ⟨t, hAt, -, order⟩ := h.tree
      have inside : s.root ∈ xs.map MapEntry.node := by
        rw [hAt.root_eq, ← order]
        exact pointer_mem fun leaf => none (order.symm.trans (Coloured.inorder_eq_nil.2 leaf))
      exact h.findExtremeReads inside

/-- After every run, a loop from `minimumIterator` meets the pairs of the map in ascending order, each
once, ends, and reads no node that is gone, and every iterator survives an erase of another pair, just if
the map has a pair or nothing was left in the sentinel. -/
theorem run_traverses_iff (orders : OrdersOn compare Set.univ) (allowed : AllowedRun compare [] ops)
    (enough : 2 * ops.length + 4 ≤ fuel) :
    ∃ answers s, run compare fuel empty ops = some (answers, s) ∧
      (Traverses compare fuel s (tableRun compare [] ops).2 ↔
        (tableRun compare [] ops).2 ≠ [] ∨ s.left mapSentinel = mapSentinel) := by
  have fits : 2 * (([] : List (MapEntry κ ν)).length + ops.length) + 4 ≤ fuel := by simpa using enough
  obtain ⟨s, result, shows⟩ := run_represents (empty_represents compare) orders allowed fits
  have length := length_tableRun_le compare ([] : List (MapEntry κ ν)) ops
  rw [List.length_nil] at length
  exact ⟨_, s, result, shows.traverses_iff (by omega)⟩

/-- The last to go is the root, which has two children, so that its successor is left in the sentinel. -/
def turningRootOps : List (MapOp Int Nat) := turningOps ++ [.remove (some 6)]

theorem run_traverses_turning :
    ∃ answers s, run (fun a b : Int => a - b) 38 (empty : Map Int Nat) turningRootOps = some (answers, s) ∧
      s.left mapSentinel = 7 ∧
      Traverses (fun a b : Int => a - b) 38 s
        [⟨4, 4, some 40⟩, ⟨5, 5, some 50⟩, ⟨7, 7, some 70⟩, ⟨8, 8, none⟩] := by
  have left : ((run (fun a b : Int => a - b) 38 (empty : Map Int Nat) turningRootOps).all fun (_, s) =>
      s.left mapSentinel = 7) = true := by
    decide +kernel
  have table : (tableRun (fun a b : Int => a - b) [] turningRootOps).2 =
      [⟨4, 4, some 40⟩, ⟨5, 5, some 50⟩, ⟨7, 7, some 70⟩, ⟨8, 8, none⟩] := by
    decide +kernel
  obtain ⟨answers, s, ran, traverses⟩ := run_traverses_iff sub_orders
    (show AllowedRun (fun a b : Int => a - b) [] turningRootOps by decide +kernel)
    (show 2 * turningRootOps.length + 4 ≤ 38 by decide)
  rw [ran, Option.all_some] at left
  rw [table] at traverses
  exact ⟨answers, s, ran, of_decide_eq_true left, traverses.2 (.inl (List.cons_ne_nil _ _))⟩

/-- The root, which has two children, goes first, then the rest. -/
def rootFirst : List (MapOp Int Nat) :=
  [.insert (some 2) (some 20) (some 2), .insert (some 1) (some 10) (some 1), .insert (some 3) (some 30) (some 3),
    .remove (some 2), .remove (some 1), .remove (some 3)]

/-- The iterator of the empty map is at a node that is gone. -/
theorem empty_map_reads_deleted :
    ∃ answers s, run (fun a b : Int => a - b) 16 (empty : Map Int Nat) rootFirst = some (answers, s) ∧
      (tableRun (fun a b : Int => a - b) [] rootFirst).2 = [] ∧ minimumIterator 16 s = some (some 3) ∧
      3 ∈ s.deallocated ∧ ¬ Traverses (fun a b : Int => a - b) 16 s [] := by
  have shape : ((run (fun a b : Int => a - b) 16 (empty : Map Int Nat) rootFirst).any fun (_, s) =>
      minimumIterator 16 s = some (some 3) ∧ 3 ∈ s.deallocated ∧ 3 ∈ minimumIteratorReads 16 s) = true := by
    decide +kernel
  obtain ⟨⟨answers, s⟩, ran, shown⟩ := (Option.any_eq_true _ _).1 shape
  obtain ⟨minimum, gone, read⟩ := of_decide_eq_true shown
  refine ⟨answers, s, ran, by decide +kernel, minimum, gone, fun traverses => ?_⟩
  obtain ⟨-, -, reads, -⟩ := traverses.minimum
  rcases reads 3 read with sentinel | inside
  · cases sentinel
  · cases inside

end Runs

end Map

end Everscale
