/-
# Everscale.Base.MapWalk -- iterators over the map, and its balance

An iterator that is moved goes to the next pair of the table on that side, or to the sentinel
(`Represents.neighbour`), so a loop from the first iterator of a map that is not empty meets every pair once,
in order, and ends (`Represents.iterate`).
-/
import Everscale.Base.MapRun

namespace Everscale

set_option autoImplicit false

open Theory Theory.RedBlack Theory.SortedTable

namespace Map

variable {κ ν : Type} {compare : κ → κ → Int} {s : Map κ ν} {xs : List (MapEntry κ ν)} {fuel : Nat}
  {path : List (Frame (MapEntry κ ν))} {t near far : Coloured (MapEntry κ ν)} {side : Side} {isBlack : Bool}
  {e : MapEntry κ ν}

/-- The node of the first pair, or the sentinel. -/
def firstNode (xs : List (MapEntry κ ν)) : MapNode := xs.head?.elim mapSentinel MapEntry.node

theorem firstNode_append {ys : List (MapEntry κ ν)} (ne : xs ≠ []) : firstNode (xs ++ ys) = firstNode xs := by
  cases xs with
  | nil => exact absurd rfl ne
  | cons e xs => rfl

/-- The way up ends at the next node on the side. -/
theorem climb_spec (h : At s path t) (ne : t ≠ .leaf) (enough : path.length < fuel) :
    climb side fuel s (pointer t) = some (firstNode (beyond side path)) := by
  induction path generalizing t fuel with
  | nil =>
      obtain ⟨fuel, rfl⟩ := Nat.exists_eq_succ_of_ne_zero (Nat.ne_of_gt enough)
      have parent : s.parent (pointer t) = mapSentinel := h.parent_eq ne
      have noKey : s.hasKey mapSentinel = false := by simp [hasKey, h.nullKey]
      have nothing : beyond side ([] : List (Frame (MapEntry κ ν))) = [] := by cases side <;> rfl
      simp [climb, parent, noKey, nothing, firstNode]
  | cons f path ih =>
      obtain ⟨fuel, rfl⟩ := Nat.exists_eq_succ_of_ne_zero (Nat.ne_of_gt (Nat.zero_lt_of_lt enough))
      rw [List.length_cons] at enough
      obtain ⟨inner, isBlack, a, sibling⟩ := f
      have parent : s.parent (pointer t) = a.node := h.parent_eq ne
      have key : s.hasKey a.node = true := h.hasKey_parentOf_iff.2 (by simp)
      have test := h.eq_child_iff (.inl ne) side
      unfold climb
      rw [parent]
      by_cases same : side = inner
      · subst same
        have above := ih (At.up.1 h) (Coloured.join_ne_leaf _ _ _ _ _) (Nat.lt_of_succ_lt_succ enough)
        rw [if_pos ⟨key, test.2 rfl⟩, beyond_same]
        rw [Frame.fill, pointer_join] at above
        exact above
      · obtain rfl := Side.eq_other_of_ne (Ne.symm same)
        rw [if_neg fun both => same (test.1 both.2), beyond_other]
        rfl

/-- The neighbour on the side is the next node of the walk. -/
theorem findNeighbour_spec (h : At s path (.join side isBlack far e near)) (enough : path.length < fuel)
    (enough' : far.height < fuel) :
    findNeighbour side fuel s e.node = some (firstNode (walk side far ++ beyond side path)) := by
  have cell := h.cell
  have key := h.down.hasKey_iff
  unfold findNeighbour
  rw [cell.near]
  by_cases none : far = .leaf
  · subst none
    rw [if_neg fun keyed => key.1 keyed rfl]
    have climbed : climb side fuel s (pointer (.join side isBlack .leaf e near)) = _ :=
      climb_spec h (Coloured.join_ne_leaf _ _ _ _ _) enough
    rw [pointer_join] at climbed
    rw [climbed]
    cases side <;> rfl
  · obtain ⟨q, black, a, far', shape, all, found⟩ := findExtreme_spec side.other h.down none enough'
    rw [if_pos (key.2 none), found]
    have first := walk_extreme all black a far'
    rw [← shape] at first
    have ne : walk side far ≠ [] := by
      intro nil
      rw [nil] at first
      cases first
    rw [firstNode_append ne, firstNode, first]
    rfl

/-- The table in the order of a walk. -/
def inOrder (side : Side) (xs : List (MapEntry κ ν)) : List (MapEntry κ ν) :=
  match side with
  | .left => xs.reverse
  | .right => xs

theorem split_unique {us vs us' vs' : List (MapEntry κ ν)} (same : us ++ e :: vs = us' ++ e :: vs')
    (nodup : ((us ++ e :: vs).map MapEntry.node).Nodup) : vs = vs' := by
  induction us generalizing us' with
  | nil =>
      cases us' with
      | nil => exact (List.cons.inj same).2
      | cons u us' =>
          obtain ⟨rfl, rfl⟩ := List.cons.inj same
          simp at nodup
  | cons u us ih =>
      cases us' with
      | nil =>
          obtain ⟨rfl, rfl⟩ := List.cons.inj same
          simp at nodup
      | cons u' us' =>
          obtain ⟨rfl, rest⟩ := List.cons.inj same
          exact ih rest (List.nodup_cons.1 nodup).2

/-- From the node of a pair the neighbour on a side is that of the next pair. -/
theorem Represents.neighbour (h : s.Represents compare xs) {us vs : List (MapEntry κ ν)}
    (split : inOrder side xs = us ++ e :: vs) (enough : xs.length < fuel) :
    findNeighbour side fuel s e.node = some (firstNode vs) := by
  obtain ⟨t, hAt, -, rfl⟩ := h.tree
  have ordered : inOrder side t.inorder = walk side t := by cases side <;> rfl
  have member : e ∈ t.inorder := by
    have there : e ∈ inOrder side t.inorder := by simp [split]
    cases side <;> simpa [inOrder] using there
  obtain ⟨path, isBlack, left, right, rfl⟩ := exists_focus member
  obtain ⟨far, near, shape⟩ : ∃ far near, Coloured.node isBlack left e right = .join side isBlack far e near := by
    cases side
    · exact ⟨left, right, rfl⟩
    · exact ⟨right, left, rfl⟩
  rw [shape] at hAt ordered split enough
  have there : At s (path ++ []) (.join side isBlack far e near) := At.plug_iff.2 hAt
  rw [List.append_nil] at there
  have pathLength := length_path_le path (.join side isBlack far e near)
  have low : far.height < (plug path (Coloured.join side isBlack far e near)).inorder.length := by
    have height := Coloured.height_le_length (Coloured.join side isBlack far e near)
    rw [Coloured.height_join] at height
    rw [inorder_plug, List.length_append, List.length_append]
    omega
  obtain ⟨met, walked⟩ := exists_walk_plug side path (.join side isBlack far e near)
  rw [walk_join] at walked
  have same : us ++ e :: vs = (met ++ walk side near) ++ e :: (walk side far ++ beyond side path) := by
    rw [← split, ordered, walked]
    simp
  have nodup : ((us ++ e :: vs).map MapEntry.node).Nodup := by
    rw [← split]
    have nodes := hAt.nodup
    cases side
    · rw [inOrder, List.map_reverse, List.nodup_reverse]
      exact nodes
    · exact nodes
  rw [findNeighbour_spec there (by omega) (by omega), split_unique same nodup]

/-- The first iterator of a walk is at the first pair. -/
theorem Represents.extreme (h : s.Represents compare xs) (ne : xs ≠ []) (side : Side)
    (enough : xs.length < fuel) :
    findExtreme side.other fuel s s.root = some (firstNode (inOrder side xs)) := by
  obtain ⟨t, hAt, -, rfl⟩ := h.tree
  have tNe : t ≠ .leaf := fun leaf => ne (Coloured.inorder_eq_nil.2 leaf)
  have low := t.height_le_length
  have fits : t.height < fuel := by omega
  obtain ⟨q, black, a, far, shape, all, found⟩ := findExtreme_spec side.other hAt tNe fits
  have ordered : inOrder side t.inorder = walk side t := by cases side <;> rfl
  have first := walk_extreme all black a far
  rw [← shape] at first
  rw [hAt.root_eq, found, ordered, firstNode, first]
  rfl

/-- The node of a pair has its key and its value. -/
theorem Represents.fields (h : s.Represents compare xs) (member : e ∈ xs) :
    s.key e.node = some e.key ∧ s.value e.node = e.value := by
  obtain ⟨t, hAt, -, rfl⟩ := h.tree
  obtain ⟨path, isBlack, left, right, rfl⟩ := exists_focus member
  have there : At s (path ++ []) (.node isBlack left e right) := At.plug_iff.2 hAt
  exact ⟨there.subtree.1.key, there.subtree.1.value⟩

/-- `for (; !it.isNull(); ++it)`, or with `--it`, and the pairs it meets. -/
def iterate (side : Side) (fuel : Nat) (s : Map κ ν) : Nat → MapIterator → Option (List (κ × Option ν))
  | 0, _ => none
  | n + 1, it =>
      match it.key s with
      | none => some []
      | some key => do
          let next ← it.move side fuel s
          let rest ← iterate side fuel s n next
          return (key, it.value s) :: rest

theorem Represents.iterate (h : s.Represents compare xs) {us vs : List (MapEntry κ ν)}
    (split : inOrder side xs = us ++ vs) (enough : xs.length < fuel) {n : Nat} (more : vs.length < n) :
    Map.iterate side fuel s n ⟨some (firstNode vs)⟩ = some (vs.map fun e => (e.key, e.value)) := by
  obtain ⟨n, rfl⟩ := Nat.exists_eq_succ_of_ne_zero (Nat.ne_of_gt (Nat.zero_lt_of_lt more))
  induction vs generalizing us n with
  | nil =>
      obtain ⟨t, hAt, -⟩ := h.tree
      simp [Map.iterate, MapIterator.key, firstNode, hAt.nullKey]
  | cons e vs ih =>
      have later : inOrder side xs = (us ++ [e]) ++ vs := by simpa using split
      have left := Nat.lt_of_succ_lt_succ more
      obtain ⟨n, rfl⟩ := Nat.exists_eq_succ_of_ne_zero (Nat.ne_of_gt (Nat.zero_lt_of_lt left))
      have rest := ih later n left
      have next := h.neighbour split enough
      have member : e ∈ xs := by
        have there : e ∈ inOrder side xs := by simp [split]
        cases side <;> simpa [inOrder] using there
      obtain ⟨key, value⟩ := h.fields member
      have first : firstNode (e :: vs) = e.node := rfl
      rw [Map.iterate, first]
      simp [MapIterator.key, MapIterator.value, MapIterator.move, key, value, next, rest]

/-! ## Balance -/

theorem getHeight_spec (h : At s path t) (enough : t.height < fuel) :
    getHeight fuel s (pointer t) = some (t.height : Int) := by
  induction t generalizing path fuel with
  | leaf =>
      obtain ⟨fuel, rfl⟩ := Nat.exists_eq_succ_of_ne_zero (Nat.ne_of_gt enough)
      simp [getHeight, pointer, hasKey, h.nullKey, Coloured.height]
  | node isBlack left e right ihLeft ihRight =>
      obtain ⟨fuel, rfl⟩ := Nat.exists_eq_succ_of_ne_zero (Nat.ne_of_gt (Nat.zero_lt_of_lt enough))
      have cell := h.subtree.1
      have key : s.hasKey e.node = true := by simp [hasKey, cell.key]
      have leftPointer : s.left e.node = pointer left := cell.near
      have rightPointer : s.right e.node = pointer right := cell.far
      have leftAt : At s (⟨.left, isBlack, e, right⟩ :: path) left := At.up.2 h
      have rightAt : At s (⟨.right, isBlack, e, left⟩ :: path) right := At.up.2 h
      simp only [Coloured.height] at enough ⊢
      have leftHeight := ihLeft leftAt (show left.height < fuel by omega)
      have rightHeight := ihRight rightAt (show right.height < fuel by omega)
      have top : pointer (.node isBlack left e right) = e.node := rfl
      rw [top, getHeight, if_neg (not_not.2 key), leftPointer, rightPointer, leftHeight, rightHeight]
      simp only [bind, Option.bind_some, pure]
      split <;> congr 1 <;> omega

/-- Every way down meets the same number of black nodes, so no node is found out of balance. -/
theorem getBlackHeight_spec {n : Nat} (h : At s path t) (balanced : Balanced t n) (enough : t.height < fuel) :
    getBlackHeight fuel s (pointer t) = some ((n : Int), false) := by
  induction t generalizing path fuel n with
  | leaf =>
      obtain ⟨fuel, rfl⟩ := Nat.exists_eq_succ_of_ne_zero (Nat.ne_of_gt enough)
      obtain rfl : n = 0 := balanced
      simp [getBlackHeight, pointer, hasKey, h.nullKey]
  | node isBlack left e right ihLeft ihRight =>
      obtain ⟨fuel, rfl⟩ := Nat.exists_eq_succ_of_ne_zero (Nat.ne_of_gt (Nat.zero_lt_of_lt enough))
      obtain ⟨m, rfl, leftBalanced, rightBalanced, -⟩ := balanced
      have cell := h.subtree.1
      have key : s.hasKey e.node = true := by simp [hasKey, cell.key]
      have leftPointer : s.left e.node = pointer left := cell.near
      have rightPointer : s.right e.node = pointer right := cell.far
      have leftAt : At s (⟨.left, isBlack, e, right⟩ :: path) left := At.up.2 h
      have rightAt : At s (⟨.right, isBlack, e, left⟩ :: path) right := At.up.2 h
      simp only [Coloured.height] at enough
      have leftHeight := ihLeft leftAt leftBalanced (show left.height < fuel by omega)
      have rightHeight := ihRight rightAt rightBalanced (show right.height < fuel by omega)
      have colour : s.isBlack e.node = isBlack := cell.isBlack
      have top : pointer (.node isBlack left e right) = e.node := rfl
      rw [top, getBlackHeight, if_neg (not_not.2 key), leftPointer, rightPointer, leftHeight, rightHeight, colour]
      cases isBlack <;> simp

/-! ## Over a run -/

section Runs

variable {ops : List (MapOp κ ν)}

/-- From the empty map every run of allowed operations answers as the sorted table does, and ends in a
red-black tree of the table's pairs, each still at the address it came in with. -/
theorem run_refines (orders : OrdersOn compare Set.univ) (allowed : AllowedRun compare [] ops)
    (enough : 2 * ops.length + 4 ≤ fuel) :
    ∃ s, run compare fuel empty ops = some ((tableRun compare [] ops).1, s) ∧
      s.Represents compare (tableRun compare [] ops).2 :=
  run_represents (empty_represents compare) orders allowed (by simpa using enough)

theorem sub_orders : OrdersOn (fun a b : Int => a - b) Set.univ := OrdersOn.sub_key id

/-- The keys come in ascending order, which turns the tree to the left, and the black nodes that go are
made up for in both ways: the first by colours, the last by another turn. -/
def turningOps : List (MapOp Int Nat) :=
  [.insert (some 1) (some 10) (some 1), .insert (some 2) (some 20) (some 2), .insert (some 3) (some 30) (some 3),
    .insert (some 4) (some 40) (some 4), .insert (some 5) (some 50) (some 5), .insert (some 6) (some 60) (some 6),
    .insertIterator (some 7) (some 70) true (some 7), .insert (some 8) none (some 8),
    .insertIterator (some 5) (some 55) true (some 9), .remove (some 1), .erase (some (some 3)),
    .update (some 6) (some 66) true, .remove (some 2), .find (some 6), .find (some 2), .size]

/-- What is left of them. -/
def turnedTable : List (MapEntry Int Nat) :=
  [⟨4, 4, some 40⟩, ⟨5, 5, some 50⟩, ⟨6, 6, some 66⟩, ⟨7, 7, some 70⟩, ⟨8, 8, none⟩]

theorem tableRun_turningOps : tableRun (fun a b : Int => a - b) [] turningOps =
    ([.error .success, .error .success, .error .success, .error .success, .error .success, .error .success,
      .inserted .success (some 7), .error .success, .inserted .uniquenessViolation none, .error .success,
      .error .success, .updated .success (some (some 60)), .error .success, .value (some 66), .value none, .size 5],
      turnedTable) := by
  decide +kernel

theorem run_refines_turning :
    ∃ s, run (fun a b : Int => a - b) 36 (empty : Map Int Nat) turningOps =
        some ([.error .success, .error .success, .error .success, .error .success, .error .success, .error .success,
          .inserted .success (some 7), .error .success, .inserted .uniquenessViolation none, .error .success,
          .error .success, .updated .success (some (some 60)), .error .success, .value (some 66), .value none,
          .size 5], s) ∧
      s.Represents (fun a b : Int => a - b) turnedTable := by
  have shows := run_refines sub_orders (show AllowedRun (fun a b : Int => a - b) [] turningOps by decide +kernel)
    (show 2 * turningOps.length + 4 ≤ 36 by decide)
  rwa [tableRun_turningOps] at shows

/-- Whatever the run, when the map is cleared after it every node that came from the allocator has gone
back to it once. -/
theorem run_clear_returns (orders : OrdersOn compare Set.univ) (allowed : AllowedRun compare [] ops)
    (enough : 2 * ops.length + 4 ≤ fuel) :
    ∃ answers s s', run compare fuel empty ops = some (answers, s) ∧ s.clear fuel = some (.success, s') ∧
      s'.allocated.Perm s'.deallocated ∧ s'.size = 0 ∧ s'.root = mapSentinel := by
  have fits : 2 * (([] : List (MapEntry κ ν)).length + ops.length) + 4 ≤ fuel := by simpa using enough
  obtain ⟨s, result, shows⟩ := run_represents (empty_represents compare) orders allowed fits
  have length := length_tableRun_le compare ([] : List (MapEntry κ ν)) ops
  rw [List.length_nil] at length
  have more : 2 * (tableRun compare [] ops).2.length + 1 < fuel := by omega
  obtain ⟨s', cleared, empty⟩ := shows.clear more
  obtain ⟨t, hAt, -, order⟩ := empty.tree
  have books := empty.books
  rw [List.map_nil, List.append_nil] at books
  refine ⟨_, s, s', result, cleared, books, empty.size, ?_⟩
  rw [hAt.root_eq, Coloured.inorder_eq_nil.1 order]
  rfl

theorem run_clear_returns_turning :
    ∃ answers s s', run (fun a b : Int => a - b) 36 (empty : Map Int Nat) turningOps = some (answers, s) ∧
      (s.size = 5 ∧ getHeight 36 s s.root = some 3) ∧ s.clear 36 = some (.success, s') ∧
      s'.allocated.Perm s'.deallocated ∧ s'.size = 0 ∧ s'.root = mapSentinel := by
  have shape : ((run (fun a b : Int => a - b) 36 (empty : Map Int Nat) turningOps).all fun (_, s) =>
      s.size = 5 ∧ getHeight 36 s s.root = some 3) = true := by
    decide +kernel
  obtain ⟨answers, s, s', ran, cleared, returned⟩ := run_clear_returns sub_orders
    (show AllowedRun (fun a b : Int => a - b) [] turningOps by decide +kernel)
    (show 2 * turningOps.length + 4 ≤ 36 by decide)
  rw [ran, Option.all_some] at shape
  exact ⟨answers, s, s', ran, of_decide_eq_true shape, cleared, returned⟩

/-- From the first iterator of a map that is not empty the increment meets all pairs in ascending order,
and from the last one the decrement meets them in descending order. -/
theorem run_iterates (orders : OrdersOn compare Set.univ) (allowed : AllowedRun compare [] ops)
    (enough : 2 * ops.length + 4 ≤ fuel) (ne : (tableRun compare [] ops).2 ≠ []) :
    ∃ answers s first last, run compare fuel empty ops = some (answers, s) ∧
      minimumIterator fuel s = some first ∧ maximumIterator fuel s = some last ∧
      iterate .right fuel s fuel ⟨first⟩ = some ((tableRun compare [] ops).2.map fun e => (e.key, e.value)) ∧
      iterate .left fuel s fuel ⟨last⟩ =
        some ((tableRun compare [] ops).2.map fun e => (e.key, e.value)).reverse ∧
      (tableRun compare [] ops).2.Pairwise fun a b => compare a.key b.key < 0 := by
  have fits : 2 * (([] : List (MapEntry κ ν)).length + ops.length) + 4 ≤ fuel := by simpa using enough
  obtain ⟨s, result, shows⟩ := run_represents (empty_represents compare) orders allowed fits
  have length := length_tableRun_le compare ([] : List (MapEntry κ ν)) ops
  rw [List.length_nil] at length
  have short : (tableRun compare [] ops).2.length < fuel := by omega
  have minimum : findMinimum fuel s s.root = some (firstNode (tableRun compare [] ops).2) :=
    shows.extreme ne .right short
  have maximum : findMaximum fuel s s.root = some (firstNode (tableRun compare [] ops).2.reverse) :=
    shows.extreme ne .left short
  refine ⟨_, s, some (firstNode (tableRun compare [] ops).2), some (firstNode (tableRun compare [] ops).2.reverse),
    result, ?_, ?_, ?_, ?_, shows.sorted⟩
  · simp [minimumIterator, minimum]
  · simp [maximumIterator, maximum]
  · have all : inOrder .right (tableRun compare [] ops).2 = [] ++ (tableRun compare [] ops).2 := rfl
    exact shows.iterate all short short
  · have all : inOrder .left (tableRun compare [] ops).2 = [] ++ (tableRun compare [] ops).2.reverse := rfl
    rw [shows.iterate all short (by rwa [List.length_reverse]), List.map_reverse]

theorem run_iterates_two :
    ∃ answers s first last, run (fun a b : Int => a - b) 8 (empty : Map Int Nat)
        [.insert (some 5) (some 50) (some 1), .insert (some 3) (some 30) (some 2)] = some (answers, s) ∧
      minimumIterator 8 s = some first ∧ maximumIterator 8 s = some last ∧
      iterate .right 8 s 8 ⟨first⟩ = some [(3, some 30), (5, some 50)] ∧
      iterate .left 8 s 8 ⟨last⟩ = some [(5, some 50), (3, some 30)] ∧
      ([⟨2, 3, some 30⟩, ⟨1, 5, some 50⟩] : List (MapEntry Int Nat)).Pairwise fun a b => a.key - b.key < 0 :=
  run_iterates sub_orders (by decide) (by decide) (by decide)

/-- After every run the tree is at most twice as high as the logarithm of its size, the black heights
agree, and a search compares the key once for each level at most. -/
theorem run_balanced (orders : OrdersOn compare Set.univ) (allowed : AllowedRun compare [] ops)
    (enough : 2 * ops.length + 4 ≤ fuel) :
    ∃ answers s height black, run compare fuel empty ops = some (answers, s) ∧
      getHeight fuel s s.root = some height ∧ getBlackHeight fuel s s.root = some (black, false) ∧
      height ≤ 2 * Nat.log 2 ((tableRun compare [] ops).2.length + 1) ∧
      ∀ k, ∃ node, findNode compare (2 * Nat.log 2 ((tableRun compare [] ops).2.length + 1) + 1) s s.root k =
        some node := by
  have fits : 2 * (([] : List (MapEntry κ ν)).length + ops.length) + 4 ≤ fuel := by simpa using enough
  obtain ⟨s, result, shows⟩ := run_represents (empty_represents compare) orders allowed fits
  have length := length_tableRun_le compare ([] : List (MapEntry κ ν)) ops
  rw [List.length_nil] at length
  obtain ⟨t, hAt, redBlack, order⟩ := shows.tree
  have low := t.height_le_length
  have high := redBlack.height_le
  obtain ⟨-, n, balanced⟩ := redBlack
  rw [order] at low high
  refine ⟨_, s, t.height, n, result, ?_, ?_, ?_, fun k => ?_⟩
  · rw [hAt.root_eq]
    exact getHeight_spec hAt (by omega)
  · rw [hAt.root_eq]
    exact getBlackHeight_spec hAt balanced (by omega)
  · exact_mod_cast high
  · rw [hAt.root_eq]
    exact ⟨_, (findNode_spec compare hAt k (by omega)).1⟩

theorem run_balanced_turning :
    ∃ answers s height black, run (fun a b : Int => a - b) 36 (empty : Map Int Nat) turningOps = some (answers, s) ∧
      getHeight 36 s s.root = some height ∧ getBlackHeight 36 s s.root = some (black, false) ∧
      height ≤ 2 * Nat.log 2 6 ∧
      ∀ k, ∃ node, findNode (fun a b : Int => a - b) (2 * Nat.log 2 6 + 1) s s.root k = some node := by
  have balanced := run_balanced sub_orders
    (show AllowedRun (fun a b : Int => a - b) [] turningOps by decide +kernel)
    (show 2 * turningOps.length + 4 ≤ 36 by decide)
  rwa [tableRun_turningOps] at balanced

end Runs

end Map

end Everscale
