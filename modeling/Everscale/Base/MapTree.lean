/-
# Everscale.Base.MapTree -- the tree that the links of a map make

`At s path t` says that the links of `s` are those of the tree that `path` and `t` make: every node of it
is held at its address (`Cell`), and `_root` points to the top.  The focus moves up, down and across
without a change to the map (`At.up`, `At.across`), and each of the four things that the code does to the
links is one lemma: a colour is set (`At.recolour`), a child goes above its parent (`At.rotate`), a node
goes (`At.splice`), a node takes the place of another (`At.replace`).
-/
import Everscale.Base.Map

namespace Everscale

set_option autoImplicit false

open Theory.RedBlack

/-- What the map holds at the address of a node. -/
structure MapEntry (κ ν : Type) where
  node : MapNode
  key : κ
  value : Option ν
  deriving DecidableEq, Repr

namespace Map

variable {κ ν : Type} {s s' : Map κ ν} {path : List (Frame (MapEntry κ ν))} {t u : Coloured (MapEntry κ ν)}
  {near mid far w : Coloured (MapEntry κ ν)} {side : Side} {isBlack : Bool} {a e e' g : MapEntry κ ν}
  {above : MapNode}

/-- The pointer to a subtree. -/
def pointer : Coloured (MapEntry κ ν) → MapNode
  | .leaf => mapSentinel
  | .node _ _ e _ => e.node

/-- The parent of what hangs under a path. -/
def parentOf : List (Frame (MapEntry κ ν)) → MapNode
  | [] => mapSentinel
  | f :: _ => f.a.node

def nodes (t : Coloured (MapEntry κ ν)) : List MapNode := t.inorder.map MapEntry.node

/-- The fields at the address of `e`, seen from a side. -/
structure Cell (s : Map κ ν) (e : MapEntry κ ν) (above : MapNode) (side : Side) (isBlack : Bool)
    (near far : MapNode) : Prop where
  ne : e.node ≠ mapSentinel
  key : s.key e.node = some e.key
  value : s.value e.node = e.value
  isBlack : s.isBlack e.node = isBlack
  parent : s.parent e.node = above
  near : s.child side e.node = near
  far : s.child side.other e.node = far

/-- Every node of the subtree is at its address, and the one on top has the parent. -/
def Subtree (s : Map κ ν) : Coloured (MapEntry κ ν) → MapNode → Prop
  | .leaf, _ => True
  | .node isBlack left e right, above =>
      s.Cell e above .left isBlack (pointer left) (pointer right) ∧ s.Subtree left e.node ∧
        s.Subtree right e.node

/-- Every node around the hole is at its address, and what is in the hole is at `hole`. -/
def Hangs (s : Map κ ν) : List (Frame (MapEntry κ ν)) → MapNode → Prop
  | [], hole => s.root = hole
  | f :: path, hole =>
      s.Cell f.a (parentOf path) f.side f.isBlack hole (pointer f.sibling) ∧
        s.Subtree f.sibling f.a.node ∧ s.Hangs path f.a.node

/-- The links of the map are those of the tree, seen from a node of it. -/
structure At (s : Map κ ν) (path : List (Frame (MapEntry κ ν))) (t : Coloured (MapEntry κ ν)) : Prop where
  subtree : s.Subtree t (parentOf path)
  hangs : s.Hangs path (pointer t)
  nodup : (nodes (plug path t)).Nodup
  nullKey : s.key mapSentinel = none
  nullBlack : s.isBlack mapSentinel = true

/-- The two maps have the same at an address. -/
structure SameAt (s s' : Map κ ν) (x : MapNode) : Prop where
  key : s'.key x = s.key x
  value : s'.value x = s.value x
  isBlack : s'.isBlack x = s.isBlack x
  parent : s'.parent x = s.parent x
  child : ∀ side, s'.child side x = s.child side x

theorem SameAt.refl (s : Map κ ν) (x : MapNode) : SameAt s s x := ⟨rfl, rfl, rfl, rfl, fun _ => rfl⟩

theorem SameAt.trans {s'' : Map κ ν} {x : MapNode} (h : SameAt s s' x) (h' : SameAt s' s'' x) :
    SameAt s s'' x where
  key := h'.key.trans h.key
  value := h'.value.trans h.value
  isBlack := h'.isBlack.trans h.isBlack
  parent := h'.parent.trans h.parent
  child side := (h'.child side).trans (h.child side)

theorem Cell.congr {near far : MapNode} (cell : s.Cell e above side isBlack near far)
    (same : SameAt s s' e.node) : s'.Cell e above side isBlack near far where
  ne := cell.ne
  key := same.key.trans cell.key
  value := same.value.trans cell.value
  isBlack := same.isBlack.trans cell.isBlack
  parent := same.parent.trans cell.parent
  near := (same.child _).trans cell.near
  far := (same.child _).trans cell.far

theorem Cell.other {near far : MapNode} (cell : s.Cell e above side isBlack near far) :
    s.Cell e above side.other isBlack far near where
  ne := cell.ne
  key := cell.key
  value := cell.value
  isBlack := cell.isBlack
  parent := cell.parent
  near := cell.far
  far := by rw [Side.other_other]; exact cell.near

theorem Subtree.congr (subtree : s.Subtree t above) (same : ∀ x ∈ nodes t, SameAt s s' x) :
    s'.Subtree t above := by
  induction t generalizing above with
  | leaf => trivial
  | node isBlack left e right ihLeft ihRight =>
      obtain ⟨cell, leftSubtree, rightSubtree⟩ := subtree
      simp only [nodes, Coloured.inorder, List.map_append, List.map_cons, List.mem_append, List.mem_cons] at same
      exact ⟨cell.congr (same _ (.inr (.inl rfl))), ihLeft leftSubtree fun x member => same x (.inl member),
        ihRight rightSubtree fun x member => same x (.inr (.inr member))⟩

/-- Only the parent of the node on top has changed. -/
theorem Subtree.reparent {above' : MapNode} (subtree : s.Subtree t above) (nodup : (nodes t).Nodup)
    (same : ∀ x ∈ nodes t, x ≠ pointer t → SameAt s s' x)
    (top : t ≠ .leaf → SameAt (s.setParent (pointer t) above') s' (pointer t)) : s'.Subtree t above' := by
  cases t with
  | leaf => trivial
  | node isBlack left e right =>
      obtain ⟨cell, leftSubtree, rightSubtree⟩ := subtree
      simp only [nodes, Coloured.inorder, List.map_append, List.map_cons] at nodup same
      have same' := top (by simp)
      rw [pointer] at same'
      have parent : (s.setParent e.node above').parent e.node = above' := if_pos rfl
      obtain ⟨-, nodupRight, disjoint⟩ := List.nodup_append.1 nodup
      refine ⟨⟨cell.ne, same'.key.trans cell.key, same'.value.trans cell.value,
        same'.isBlack.trans cell.isBlack, same'.parent.trans parent, (same'.child _).trans cell.near,
        (same'.child _).trans cell.far⟩, leftSubtree.congr ?_, rightSubtree.congr ?_⟩
      · intro x member
        exact same x (by simp [nodes] at member ⊢; exact .inl member) (disjoint x member _ (.head _))
      · intro x member
        refine same x (by simp [nodes] at member ⊢; exact .inr (.inr member)) ?_
        rintro rfl
        exact (List.nodup_cons.1 nodupRight).1 member

theorem subtree_join : s.Subtree (.join side isBlack near e far) above ↔
    s.Cell e above side isBlack (pointer near) (pointer far) ∧ s.Subtree near e.node ∧
      s.Subtree far e.node := by
  cases side with
  | left => rfl
  | right =>
      constructor
      · rintro ⟨cell, farSubtree, nearSubtree⟩
        exact ⟨cell.other, nearSubtree, farSubtree⟩
      · rintro ⟨cell, nearSubtree, farSubtree⟩
        exact ⟨cell.other, farSubtree, nearSubtree⟩

@[simp] theorem pointer_join : pointer (.join side isBlack near e far) = e.node := by cases side <;> rfl

theorem pointer_mem (ne : t ≠ .leaf) : pointer t ∈ nodes t := by
  cases t with
  | leaf => exact absurd rfl ne
  | node isBlack left e right => simp [pointer, nodes, Coloured.inorder]

theorem Subtree.ne_sentinel (subtree : s.Subtree t above) : mapSentinel ∉ nodes t := by
  induction t generalizing above with
  | leaf => simp [nodes, Coloured.inorder]
  | node isBlack left e right ihLeft ihRight =>
      obtain ⟨cell, leftSubtree, rightSubtree⟩ := subtree
      have inLeft := ihLeft leftSubtree
      have inRight := ihRight rightSubtree
      simp only [nodes, Coloured.inorder, List.map_append, List.map_cons, List.mem_append, List.mem_cons] at *
      rintro (member | same | member)
      · exact inLeft member
      · exact cell.ne same.symm
      · exact inRight member

/-- Nodes on the way to the hole, and of the subtrees beside it. -/
def around (path : List (Frame (MapEntry κ ν))) : List MapNode := nodes (plug path .leaf)

theorem nodes_plug_perm (path : List (Frame (MapEntry κ ν))) (t : Coloured (MapEntry κ ν)) :
    (nodes (plug path t)).Perm (nodes t ++ around path) := by
  simp only [nodes, around, inorder_plug, Coloured.inorder, List.map_append, List.nil_append]
  exact List.perm_append_comm_assoc _ _ _

theorem around_cons_perm (f : Frame (MapEntry κ ν)) (path : List (Frame (MapEntry κ ν))) :
    (around (f :: path)).Perm (f.a.node :: (nodes f.sibling ++ around path)) := by
  refine (nodes_plug_perm path (f.fill .leaf)).trans ?_
  obtain ⟨side, isBlack, a, sibling⟩ := f
  cases side
  · simp [nodes, Frame.fill, Coloured.join, Coloured.inorder]
  · simp only [nodes, Frame.fill, Coloured.join, Coloured.inorder, List.map_append, List.map_cons, List.map_nil,
      List.append_assoc, List.cons_append, List.nil_append]
    exact List.perm_middle

theorem mem_around_cons {x : MapNode} {f : Frame (MapEntry κ ν)} :
    x ∈ around (f :: path) ↔ x = f.a.node ∨ x ∈ nodes f.sibling ∨ x ∈ around path := by
  rw [(around_cons_perm f path).mem_iff, List.mem_cons, List.mem_append]

theorem nodes_join_perm : (nodes (.join side isBlack near e far)).Perm (e.node :: (nodes near ++ nodes far)) := by
  cases side
  · simp only [nodes, Coloured.join, Coloured.inorder, List.map_append, List.map_cons]
    exact List.perm_middle
  · simp only [nodes, Coloured.join, Coloured.inorder, List.map_append, List.map_cons]
    exact List.perm_middle.trans (List.perm_append_comm.cons _)

theorem mem_nodes_join {x : MapNode} :
    x ∈ nodes (.join side isBlack near e far) ↔ x = e.node ∨ x ∈ nodes near ∨ x ∈ nodes far := by
  rw [nodes_join_perm.mem_iff, List.mem_cons, List.mem_append]

theorem Hangs.congr {hole : MapNode} (hangs : s.Hangs path hole) (root : s'.root = s.root)
    (same : ∀ x ∈ around path, SameAt s s' x) : s'.Hangs path hole := by
  induction path generalizing hole with
  | nil => exact root.trans hangs
  | cons f path ih =>
      obtain ⟨cell, subtree, rest⟩ := hangs
      exact ⟨cell.congr (same _ (mem_around_cons.2 (.inl rfl))),
        subtree.congr fun x member => same x (mem_around_cons.2 (.inr (.inl member))),
        ih rest fun x member => same x (mem_around_cons.2 (.inr (.inr member)))⟩

/-- Only the link to what is in the hole has changed. -/
theorem Hangs.relinked {hole hole' : MapNode} (hangs : s.Hangs path hole) (nodup : (around path).Nodup)
    (top : path = [] → s'.root = hole') (root : path ≠ [] → s'.root = s.root)
    (link : ∀ f ∈ path.head?, SameAt (s.setChild f.side f.a.node hole') s' f.a.node)
    (same : ∀ x ∈ around path, x ≠ parentOf path → SameAt s s' x) : s'.Hangs path hole' := by
  cases path with
  | nil => exact top rfl
  | cons f path =>
      obtain ⟨cell, subtree, rest⟩ := hangs
      have parentNew := (List.nodup_cons.1 ((around_cons_perm f path).nodup_iff.1 nodup)).1
      rw [List.mem_append, not_or] at parentNew
      have linked := link f rfl
      have near : (s.setChild f.side f.a.node hole').child f.side f.a.node = hole' := if_pos ⟨rfl, rfl⟩
      have far : (s.setChild f.side f.a.node hole').child f.side.other f.a.node =
          s.child f.side.other f.a.node := if_neg (by simp)
      refine ⟨⟨cell.ne, linked.key.trans cell.key, linked.value.trans cell.value,
        linked.isBlack.trans cell.isBlack, linked.parent.trans cell.parent, (linked.child _).trans near,
        (linked.child _).trans (far.trans cell.far)⟩, subtree.congr ?_, rest.congr (root (by simp)) ?_⟩
      · intro x member
        refine same x (mem_around_cons.2 (.inr (.inl member))) ?_
        rintro rfl
        exact parentNew.1 member
      · intro x member
        refine same x (mem_around_cons.2 (.inr (.inr member))) ?_
        rintro rfl
        exact parentNew.2 member

theorem Hangs.ne_sentinel {hole : MapNode} (hangs : s.Hangs path hole) : mapSentinel ∉ around path := by
  induction path generalizing hole with
  | nil => simp [around, plug, nodes, Coloured.inorder]
  | cons f path ih =>
      obtain ⟨cell, subtree, rest⟩ := hangs
      rw [mem_around_cons]
      rintro (same | member | member)
      · exact cell.ne same.symm
      · exact subtree.ne_sentinel member
      · exact ih rest member

/-! ## The focus -/

theorem join_other (side : Side) : Coloured.join side.other isBlack near e far = .join side isBlack far e near := by
  cases side <;> rfl

theorem Hangs.root_mem {hole : MapNode} (hangs : s.Hangs path hole) (below : path ≠ []) :
    s.root ∈ around path := by
  induction path generalizing hole with
  | nil => exact absurd rfl below
  | cons f path ih =>
      obtain ⟨-, -, rest⟩ := hangs
      rw [mem_around_cons]
      by_cases top : path = []
      · subst top
        exact .inl rest
      · exact .inr (.inr (ih rest top))

namespace At

variable {f : Frame (MapEntry κ ν)}

theorem up : At s (f :: path) t ↔ At s path (f.fill t) := by
  constructor
  · intro h
    obtain ⟨cell, sibling, rest⟩ := h.hangs
    refine ⟨subtree_join.2 ⟨cell, h.subtree, sibling⟩, ?_, h.nodup, h.nullKey, h.nullBlack⟩
    rw [Frame.fill, pointer_join]
    exact rest
  · intro h
    obtain ⟨cell, subtree, sibling⟩ := subtree_join.1 h.subtree
    have rest := h.hangs
    rw [Frame.fill, pointer_join] at rest
    exact ⟨subtree, ⟨cell, sibling, rest⟩, h.nodup, h.nullKey, h.nullBlack⟩

/-- From a child to the other child. -/
theorem across : At s (⟨side, isBlack, e, w⟩ :: path) t ↔ At s (⟨side.other, isBlack, e, t⟩ :: path) w := by
  rw [up, up, Frame.fill, Frame.fill, join_other]

theorem down (h : At s path (.join side isBlack near e far)) : At s (⟨side, isBlack, e, far⟩ :: path) near :=
  up.2 h

theorem plug_iff {inner : List (Frame (MapEntry κ ν))} : At s (inner ++ path) t ↔ At s path (plug inner t) := by
  induction inner generalizing t with
  | nil => exact Iff.rfl
  | cons f inner ih =>
      rw [List.cons_append, up, ih]
      rfl

theorem nodup_parts (h : At s path t) : (nodes t ++ around path).Nodup :=
  (nodes_plug_perm path t).nodup_iff.1 h.nodup

theorem not_around (h : At s path t) {x : MapNode} (member : x ∈ nodes t) : x ∉ around path :=
  fun outside => (List.nodup_append.1 h.nodup_parts).2.2 x member x outside rfl

theorem cell (h : At s path (.join side isBlack near e far)) :
    s.Cell e (parentOf path) side isBlack (pointer near) (pointer far) :=
  (subtree_join.1 h.subtree).1

theorem hasKey_iff (h : At s path t) : s.hasKey (pointer t) = true ↔ t ≠ .leaf := by
  cases t with
  | leaf => simp [hasKey, pointer, h.nullKey]
  | node isBlack left e right =>
      have cell := h.subtree.1
      simp [hasKey, pointer, cell.key]

theorem hasKey_parentOf_iff (h : At s path t) : s.hasKey (parentOf path) = true ↔ path ≠ [] := by
  cases path with
  | nil => simp [hasKey, parentOf, h.nullKey]
  | cons f path =>
      have cell := h.hangs.1
      simp [hasKey, parentOf, cell.key]

theorem isBlack_eq (h : At s path t) : s.isBlack (pointer t) = t.rootBlack := by
  cases t with
  | leaf => exact h.nullBlack
  | node isBlack left e right => exact h.subtree.1.isBlack

theorem parent_eq (h : At s path t) (ne : t ≠ .leaf) : s.parent (pointer t) = parentOf path := by
  cases t with
  | leaf => exact absurd rfl ne
  | node isBlack left e right => exact h.subtree.1.parent

theorem pointer_ne (h : At s path t) (ne : t ≠ .leaf) : pointer t ≠ mapSentinel := by
  intro same
  have member := pointer_mem ne
  rw [same] at member
  exact h.subtree.ne_sentinel member

/-- Two children of a node are not at one address unless both are missing. -/
theorem pointer_ne_sibling (h : At s (⟨side, isBlack, e, w⟩ :: path) t) (ne : t ≠ .leaf ∨ w ≠ .leaf) :
    pointer t ≠ pointer w := by
  intro same
  by_cases leaf : t = .leaf
  · have wNe : w ≠ .leaf := ne.resolve_left (not_not.2 leaf)
    refine (across.1 h).pointer_ne wNe ?_
    rw [← same, leaf]
    rfl
  · by_cases wLeaf : w = .leaf
    · rw [wLeaf] at same
      exact h.pointer_ne leaf same
    · refine h.not_around (pointer_mem leaf) (mem_around_cons.2 (.inr (.inl ?_)))
      rw [same]
      exact pointer_mem wLeaf

/-- The focus is the child on its own side. -/
theorem eq_child_iff (h : At s (⟨side, isBlack, e, w⟩ :: path) t) (ne : t ≠ .leaf ∨ w ≠ .leaf)
    (side' : Side) : pointer t = s.child side' e.node ↔ side' = side := by
  have cell := h.hangs.1
  constructor
  · intro same
    by_contra differ
    obtain rfl := Side.eq_other_of_ne differ
    rw [cell.far] at same
    exact h.pointer_ne_sibling ne same
  · rintro rfl
    exact cell.near.symm

theorem root_eq (h : At s [] t) : s.root = pointer t := h.hangs

/-- The focus is the root just where there is nothing above it. -/
theorem eq_root_iff (h : At s path t) : pointer t = s.root ↔ path = [] := by
  constructor
  · intro same
    by_contra below
    have root := h.hangs.root_mem below
    rw [← same] at root
    cases t with
    | leaf => exact h.hangs.ne_sentinel root
    | node isBlack left e right => exact h.not_around (pointer_mem (by simp)) root
  · rintro rfl
    exact h.root_eq.symm

/-- Nothing but the links, the colours and the pairs matters. -/
theorem congr (h : At s path t) (root : s'.root = s.root) (same : ∀ x, SameAt s s' x) : At s' path t :=
  ⟨h.subtree.congr fun x _ => same x, h.hangs.congr root fun x _ => same x, h.nodup,
    (same _).key.trans h.nullKey, (same _).isBlack.trans h.nullBlack⟩

end At

/-! ## Colours -/

@[simp] theorem setBlack_parent {x : MapNode} : (s.setBlack x isBlack).parent = s.parent := rfl

@[simp] theorem setBlack_child {x : MapNode} : (s.setBlack x isBlack).child = s.child := rfl

theorem sameAt_setBlack {x y : MapNode} (ne : y ≠ x) : SameAt s (s.setBlack x isBlack) y :=
  ⟨rfl, rfl, if_neg ne, rfl, fun _ => rfl⟩

namespace At

/-- Only the fields of one node have changed, and not its links. -/
theorem modify {colour : Bool} (h : At s path (.join side isBlack near e far)) (root : s'.root = s.root)
    (same : ∀ x, x ≠ e.node → SameAt s s' x) (node : e'.node = e.node)
    (cell' : s'.Cell e' (parentOf path) side colour (pointer near) (pointer far)) :
    At s' path (.join side colour near e' far) := by
  obtain ⟨cell, nearSubtree, farSubtree⟩ := subtree_join.1 h.subtree
  have nodup := h.nodup_parts
  have perm : (nodes (.join side colour near e' far) ++ around path).Perm
      (nodes (.join side isBlack near e far) ++ around path) := by
    have joined : (nodes (.join side colour near e' far)).Perm (e'.node :: (nodes near ++ nodes far)) :=
      nodes_join_perm
    rw [node] at joined
    exact (joined.trans nodes_join_perm.symm).append_right _
  have inside := (List.nodup_append.1 nodup).1
  have fresh := (List.nodup_cons.1 (nodes_join_perm.nodup_iff.1 inside)).1
  rw [List.mem_append, not_or] at fresh
  have outside : e.node ∉ around path := h.not_around (mem_nodes_join.2 (.inl rfl))
  have hangs := h.hangs
  rw [pointer_join] at hangs
  refine ⟨subtree_join.2 ⟨cell', ?_, ?_⟩, ?_, ?_, ?_, ?_⟩
  · rw [node]
    exact nearSubtree.congr fun x member => same x fun eq => fresh.1 (eq ▸ member)
  · rw [node]
    exact farSubtree.congr fun x member => same x fun eq => fresh.2 (eq ▸ member)
  · rw [pointer_join, node]
    exact hangs.congr root fun x member => same x fun eq => outside (eq ▸ member)
  · exact (nodes_plug_perm _ _).nodup_iff.2 (perm.nodup_iff.2 nodup)
  · exact (same _ cell.ne.symm).key.trans h.nullKey
  · exact (same _ cell.ne.symm).isBlack.trans h.nullBlack

theorem recolour {colour : Bool} (h : At s path (.join side isBlack near e far)) :
    At (s.setBlack e.node colour) path (.join side colour near e far) := by
  have cell := h.cell
  refine h.modify rfl (fun x ne => sameAt_setBlack ne) rfl ?_
  exact ⟨cell.ne, cell.key, cell.value, if_pos rfl, cell.parent, cell.near, cell.far⟩

theorem setValue (h : At s path (.join side isBlack near e far)) (value : Option ν) :
    At (s.setValue e.node value) path (.join side isBlack near { e with value := value } far) := by
  have cell := h.cell
  refine h.modify rfl (fun x ne => ⟨rfl, if_neg ne, rfl, rfl, fun _ => rfl⟩) rfl ?_
  exact ⟨cell.ne, cell.key, if_pos rfl, cell.isBlack, cell.parent, cell.near, cell.far⟩

theorem blacken (h : At s path t) : At (s.setBlack (pointer t) true) path t.blacken := by
  cases t with
  | leaf =>
      have same : s.setBlack mapSentinel true = s := by
        have isBlack : (fun a => if a = mapSentinel then true else s.isBlack a) = s.isBlack := by
          funext a
          split
          · next eq => rw [eq, h.nullBlack]
          · rfl
        rw [setBlack, isBlack]
      rw [pointer, same]
      exact h
  | node isBlack left e right =>
      have joined : At s path (.join .left isBlack left e right) := h
      exact joined.recolour

end At

/-! ## Rotation -/

section Relink

variable {x y z : MapNode}

@[simp] theorem relink_parent : (s.relink side x y).parent = s.parent := by
  unfold relink
  split
  · rfl
  · split <;> rfl

@[simp] theorem relink_isBlack : (s.relink side x y).isBlack = s.isBlack := by
  unfold relink
  split
  · rfl
  · split <;> rfl

@[simp] theorem relink_key : (s.relink side x y).key = s.key := by
  unfold relink
  split
  · rfl
  · split <;> rfl

@[simp] theorem relink_value : (s.relink side x y).value = s.value := by
  unfold relink
  split
  · rfl
  · split <;> rfl

theorem relink_child (ne : z ≠ s.parent x) (d : Side) : (s.relink side x y).child d z = s.child d z := by
  unfold relink
  split
  · rfl
  · split <;> simp [setChild, ne]

theorem sameAt_relink (ne : z ≠ s.parent x) : SameAt s (s.relink side x y) z where
  key := by rw [relink_key]
  value := by rw [relink_value]
  isBlack := by rw [relink_isBlack]
  parent := by rw [relink_parent]
  child := relink_child ne

/-- The link that led to `x` leads to `y`. -/
theorem Hangs.relink (hangs : s.Hangs path x) (nodup : (around path).Nodup) (outside : x ∉ around path)
    (ne : x ≠ mapSentinel) (parent : s.parent x = parentOf path) (nullKey : s.key mapSentinel = none)
    (side : Side) (y : MapNode) : (s.relink side x y).Hangs path y := by
  cases path with
  | nil =>
      have top : ¬ s.hasKey (s.parent x) = true := by
        rw [parent]
        simp [hasKey, parentOf, nullKey]
      rw [Map.relink, if_pos top]
      rfl
  | cons f path =>
      have cell := hangs.1
      have below : s.hasKey (s.parent x) = true := by
        rw [parent]
        simp [hasKey, parentOf, cell.key]
      have child : s.relink side x y = s.setChild f.side (s.parent x) y := by
        rw [Map.relink, if_neg (not_not.2 below), parent, parentOf]
        by_cases same : side = f.side
        · subst same
          rw [if_pos cell.near.symm]
        · obtain rfl := Side.eq_other_of_ne same
          rw [Side.other_other, cell.far, if_neg]
          rintro rfl
          by_cases leaf : f.sibling = .leaf
          · rw [leaf] at ne
            exact ne rfl
          · exact outside (mem_around_cons.2 (.inr (.inl (pointer_mem leaf))))
      rw [child]
      refine hangs.relinked nodup (by simp) (fun _ => rfl) ?_ ?_
      · intro f' first
        obtain rfl : f = f' := by simpa using first
        rw [parent]
        exact .refl _ _
      · intro z _ ne
        rw [← parent] at ne
        exact ⟨rfl, rfl, rfl, rfl, fun d => if_neg fun both => ne both.2⟩

end Relink

section Rotate

variable {x y m z : MapNode}

@[simp] theorem adopt_child : (s.adopt y x).child = s.child := by
  unfold adopt
  split <;> rfl

@[simp] theorem adopt_isBlack : (s.adopt y x).isBlack = s.isBlack := by
  unfold adopt
  split <;> rfl

@[simp] theorem adopt_key : (s.adopt y x).key = s.key := by
  unfold adopt
  split <;> rfl

@[simp] theorem adopt_value : (s.adopt y x).value = s.value := by
  unfold adopt
  split <;> rfl

theorem adopt_parent : (s.adopt y x).parent z = if s.hasKey y ∧ z = y then x else s.parent z := by
  unfold adopt
  split
  · next key => simp [setParent, key]
  · next key => simp [key]

@[simp] theorem rotate_isBlack : (s.rotate side x).isBlack = s.isBlack := by
  simp only [Map.rotate, setChild, setParent, relink_isBlack, adopt_isBlack]

@[simp] theorem rotate_key : (s.rotate side x).key = s.key := by
  simp only [Map.rotate, setChild, setParent, relink_key, adopt_key]

@[simp] theorem rotate_value : (s.rotate side x).value = s.value := by
  simp only [Map.rotate, setChild, setParent, relink_value, adopt_value]

/-- The parents after a rotation. -/
theorem rotate_parent (hy : s.child side.other x = y) (hm : s.child side y = m) (yx : y ≠ x) (mx : m ≠ x) :
    (s.rotate side x).parent z =
      if z = x then y else if z = y then s.parent x else if s.hasKey m ∧ z = m then x else s.parent z := by
  simp only [Map.rotate, hy, relink_parent, setChild, setParent, hasKey, yx, and_false, if_false, hm,
    adopt_parent, adopt_child, mx.symm]
  rfl

theorem rotate_child (hy : s.child side.other x = y) (hm : s.child side y = m) (yx : y ≠ x) (mx : m ≠ x)
    (zp : z ≠ s.parent x) (d : Side) :
    (s.rotate side x).child d z =
      if d = side ∧ z = y then x else if d = side.other ∧ z = x then m else s.child d z := by
  simp only [Map.rotate, hy, setChild, setParent, yx, and_false, if_false, hm]
  split
  · rfl
  · rw [relink_child]
    · simp
    · simpa [yx.symm, adopt_parent, mx.symm] using zp

theorem sameAt_rotate (hy : s.child side.other x = y) (hm : s.child side y = m) (yx : y ≠ x) (mx : m ≠ x)
    (zx : z ≠ x) (zy : z ≠ y) (zm : z ≠ m) (zp : z ≠ s.parent x) : SameAt s (s.rotate side x) z where
  key := by rw [rotate_key]
  value := by rw [rotate_value]
  isBlack := by rw [rotate_isBlack]
  parent := by simp [rotate_parent hy hm yx mx, zx, zy, zm]
  child d := by simp [rotate_child hy hm yx mx zp, zx, zy]

/-- The child that goes above its parent is where the parent was. -/
theorem Hangs.rotate (hangs : s.Hangs path x) (nodup : (around path).Nodup) (outside : x ∉ around path)
    (ne : x ≠ mapSentinel) (parent : s.parent x = parentOf path) (nullKey : s.key mapSentinel = none)
    (hy : s.child side.other x = y) (hm : s.child side y = m) (yx : y ≠ x) (mx : m ≠ x)
    (yOutside : y ∉ around path) (mOutside : m ∉ around path) : (s.rotate side x).Hangs path y := by
  have moved : (((s.setChild side.other x m).adopt m x).setParent y (s.parent x)).Hangs path x := by
    refine hangs.congr ?_ fun z member => ?_
    · unfold setParent adopt
      split <;> rfl
    · have zx : z ≠ x := fun same => outside (same ▸ member)
      have zy : z ≠ y := fun same => yOutside (same ▸ member)
      have zm : z ≠ m := fun same => mOutside (same ▸ member)
      refine ⟨?_, ?_, ?_, ?_, ?_⟩ <;> simp [setParent, setChild, adopt_parent, zx, zy, zm]
  have linked := moved.relink nodup outside ne ?_ ?_ side y
  · have eq : s.rotate side x =
        (((((s.setChild side.other x m).adopt m x).setParent y (s.parent x)).relink side x y).setChild
          side y x).setParent x y := by
      simp only [Map.rotate, hy, hm, setChild, yx, and_false, if_false, adopt_parent, mx.symm]
    rw [eq]
    refine linked.congr rfl fun z member => ?_
    have zx : z ≠ x := fun same => outside (same ▸ member)
    have zy : z ≠ y := fun same => yOutside (same ▸ member)
    refine ⟨?_, ?_, ?_, ?_, ?_⟩ <;> simp [setParent, setChild, zx, zy]
  · simp [setParent, setChild, adopt_parent, yx.symm, mx.symm, parent]
  · simpa [setParent, setChild] using nullKey

end Rotate

theorem ne_pointer {x : MapNode} (ne : x ≠ mapSentinel) (outside : x ∉ nodes t) : x ≠ pointer t := by
  rintro rfl
  cases t with
  | leaf => exact ne rfl
  | node isBlack left e right => exact outside (pointer_mem (by simp))

theorem ne_parentOf {x : MapNode} (ne : x ≠ mapSentinel) (outside : x ∉ around path) : x ≠ parentOf path := by
  rintro rfl
  cases path with
  | nil => exact ne rfl
  | cons f path => exact outside (mem_around_cons.2 (.inl rfl))

theorem At.rotate {b b' : Bool} {c : MapEntry κ ν}
    (h : At s path (.join side b near a (.join side b' mid c far))) :
    At (s.rotate side a.node) path (.join side b' (.join side b near a mid) c far) := by
  obtain ⟨aCell, nearSubtree, rest⟩ := subtree_join.1 h.subtree
  obtain ⟨cCell, midSubtree, farSubtree⟩ := subtree_join.1 rest
  have perm : (nodes (.join side b near a (.join side b' mid c far)) ++ around path).Perm
      (a.node :: c.node :: (nodes near ++ (nodes mid ++ (nodes far ++ around path)))) := by
    refine (nodes_join_perm.append_right _).trans ?_
    refine ((nodes_join_perm.append_left _).append_right _).cons _ |>.trans (.cons _ ?_)
    simp only [List.append_assoc, List.cons_append]
    exact List.perm_middle
  have distinct := perm.nodup_iff.1 h.nodup_parts
  obtain ⟨aApart, distinct⟩ := List.nodup_cons.1 distinct
  obtain ⟨cApart, distinct⟩ := List.nodup_cons.1 distinct
  obtain ⟨-, distinct, nearApart⟩ := List.nodup_append.1 distinct
  obtain ⟨midNodup, distinct, midApart⟩ := List.nodup_append.1 distinct
  obtain ⟨-, aroundNodup, farApart⟩ := List.nodup_append.1 distinct
  simp only [List.mem_cons, List.mem_append, not_or] at aApart cApart
  have midNe : mapSentinel ∉ nodes mid := midSubtree.ne_sentinel
  have aroundNe : mapSentinel ∉ around path := h.hangs.ne_sentinel
  have hy : s.child side.other a.node = c.node := by rw [aCell.far, pointer_join]
  have hm : s.child side c.node = pointer mid := cCell.near
  have yx : c.node ≠ a.node := Ne.symm aApart.1
  have mx : pointer mid ≠ a.node := (ne_pointer aCell.ne aApart.2.2.1).symm
  have aOut : a.node ≠ s.parent a.node := aCell.parent ▸ ne_parentOf aCell.ne aApart.2.2.2.2
  have cOut : c.node ≠ s.parent a.node := aCell.parent ▸ ne_parentOf cCell.ne cApart.2.2.2
  have keep : ∀ z, z ∈ nodes near ++ (nodes mid ++ nodes far) → z ≠ pointer mid →
      SameAt s (s.rotate side a.node) z := by
    intro z member zm
    have zx : z ≠ a.node := by
      rintro rfl
      simp [aApart] at member
    have zy : z ≠ c.node := by
      rintro rfl
      simp [cApart] at member
    have inside : z ∈ nodes (.join side b near a (.join side b' mid c far)) := by
      simp only [mem_nodes_join]
      simp only [List.mem_append] at member
      exact .inr (member.imp_right .inr)
    have ne : z ≠ mapSentinel := fun same => h.subtree.ne_sentinel (same ▸ inside)
    exact sameAt_rotate hy hm yx mx zx zy zm (aCell.parent ▸ ne_parentOf ne (h.not_around inside))
  have apart : ∀ z, z ∈ nodes near ∨ z ∈ nodes far → z ≠ pointer mid := by
    rintro z member rfl
    have ne : mid ≠ .leaf := by
      rintro rfl
      rcases member with member | member
      · exact nearSubtree.ne_sentinel member
      · exact farSubtree.ne_sentinel member
    rcases member with member | member
    · exact nearApart _ member _ (List.mem_append_left _ (pointer_mem ne)) rfl
    · exact midApart _ (pointer_mem ne) _ (List.mem_append_left _ member) rfl
  refine ⟨subtree_join.2 ⟨?_, subtree_join.2 ⟨?_, ?_, ?_⟩, ?_⟩, ?_, ?_, ?_, ?_⟩
  · refine ⟨cCell.ne, ?_, ?_, ?_, ?_, ?_, ?_⟩
    · rw [rotate_key, cCell.key]
    · rw [rotate_value, cCell.value]
    · rw [rotate_isBlack, cCell.isBlack]
    · rw [rotate_parent hy hm yx mx, if_neg yx, if_pos rfl, aCell.parent]
    · rw [rotate_child hy hm yx mx cOut, if_pos ⟨rfl, rfl⟩, pointer_join]
    · rw [rotate_child hy hm yx mx cOut, if_neg (by simp), if_neg (by simp [yx]), cCell.far]
  · refine ⟨aCell.ne, ?_, ?_, ?_, ?_, ?_, ?_⟩
    · rw [rotate_key, aCell.key]
    · rw [rotate_value, aCell.value]
    · rw [rotate_isBlack, aCell.isBlack]
    · rw [rotate_parent hy hm yx mx, if_pos rfl]
    · rw [rotate_child hy hm yx mx aOut, if_neg (by simp [yx.symm]), if_neg (by simp), aCell.near]
    · rw [rotate_child hy hm yx mx aOut, if_neg (by simp), if_pos ⟨rfl, rfl⟩]
  · exact nearSubtree.congr fun z member => keep z (by simp [member]) (apart z (.inl member))
  · refine midSubtree.reparent midNodup (fun z member => keep z (by simp [member])) fun ne => ?_
    have key : s.hasKey (pointer mid) = true := by
      cases mid with
      | leaf => exact absurd rfl ne
      | node isBlack left e right => simp [hasKey, pointer, midSubtree.1.key]
    have my : pointer mid ≠ c.node := by
      intro same
      exact cApart.2.1 (same ▸ pointer_mem ne)
    have mOut : pointer mid ≠ s.parent a.node := by
      rw [aCell.parent]
      refine ne_parentOf (fun same => midNe (same ▸ pointer_mem ne)) fun outside => ?_
      exact midApart _ (pointer_mem ne) _ (List.mem_append_right _ outside) rfl
    refine ⟨by rw [rotate_key]; rfl, by rw [rotate_value]; rfl, by rw [rotate_isBlack]; rfl, ?_, fun d => ?_⟩
    · rw [rotate_parent hy hm yx mx, if_neg mx, if_neg my, if_pos ⟨key, rfl⟩]
      exact (if_pos rfl).symm
    · rw [rotate_child hy hm yx mx mOut, if_neg (by simp [my]), if_neg (by simp [mx])]
      rfl
  · exact farSubtree.congr fun z member => keep z (by simp [member]) (apart z (.inr member))
  · have hangs := h.hangs
    rw [pointer_join] at hangs ⊢
    refine hangs.rotate aroundNodup aApart.2.2.2.2 aCell.ne aCell.parent h.nullKey hy hm yx mx cApart.2.2.2 ?_
    by_cases leaf : mid = .leaf
    · rw [leaf]
      exact aroundNe
    · exact fun outside => midApart _ (pointer_mem leaf) _ (List.mem_append_right _ outside) rfl
  · have same := h.nodup
    unfold nodes at same ⊢
    rwa [inorder_plug, Coloured.inorder_rotate side b b' b b', ← inorder_plug]
  · rw [rotate_key, h.nullKey]
  · rw [rotate_isBlack, h.nullBlack]

/-- A rotation leaves the sentinel's parent alone. -/
theorem At.rotate_parent_sentinel {b b' : Bool} {c : MapEntry κ ν}
    (h : At s path (.join side b near a (.join side b' mid c far))) :
    (s.rotate side a.node).parent mapSentinel = s.parent mapSentinel := by
  obtain ⟨aCell, -, rest⟩ := subtree_join.1 h.subtree
  obtain ⟨cCell, -, -⟩ := subtree_join.1 rest
  have distinct := nodes_join_perm.nodup_iff.1 (List.nodup_append.1 h.nodup_parts).1
  have aApart := (List.nodup_cons.1 distinct).1
  simp only [List.mem_append, not_or, mem_nodes_join] at aApart
  have hy : s.child side.other a.node = c.node := by rw [aCell.far, pointer_join]
  rw [rotate_parent hy cCell.near (Ne.symm aApart.2.1) (ne_pointer aCell.ne aApart.2.2.1).symm,
    if_neg aCell.ne.symm, if_neg cCell.ne.symm, if_neg]
  rintro ⟨key, same⟩
  rw [← same, hasKey, h.nullKey] at key
  cases key

/-! ## Removal -/

@[simp] theorem splice_key {x y : MapNode} : (s.splice y x).key = s.key := relink_key

@[simp] theorem splice_value {x y : MapNode} : (s.splice y x).value = s.value := relink_value

@[simp] theorem splice_isBlack {x y : MapNode} : (s.splice y x).isBlack = s.isBlack := relink_isBlack

theorem At.splice (h : At s path (.join side isBlack .leaf e t)) :
    At (s.splice e.node (pointer t)) path t := by
  obtain ⟨cell, -, subtree⟩ := subtree_join.1 h.subtree
  have parts := h.nodup_parts
  have distinct := nodes_join_perm.nodup_iff.1 (List.nodup_append.1 parts).1
  have apart := (List.nodup_cons.1 distinct).1
  rw [List.mem_append, not_or] at apart
  have outside : e.node ∉ around path := h.not_around (mem_nodes_join.2 (.inl rfl))
  have tOutside : ∀ x ∈ nodes t, x ∉ around path := fun x member =>
    h.not_around (mem_nodes_join.2 (.inr (.inr member)))
  have parent : (s.setParent (pointer t) (s.parent e.node)).parent e.node = parentOf path :=
    (if_neg (ne_pointer cell.ne apart.2)).trans cell.parent
  refine ⟨?_, ?_, ?_, ?_, ?_⟩
  · refine subtree.reparent (List.nodup_append.1 (List.nodup_cons.1 distinct).2).2.1 ?_ fun ne => ?_
    · intro x member top
      have moved : SameAt s (s.setParent (pointer t) (s.parent e.node)) x :=
        ⟨rfl, rfl, rfl, if_neg top, fun _ => rfl⟩
      refine moved.trans (sameAt_relink ?_)
      rw [parent]
      exact ne_parentOf (fun same => subtree.ne_sentinel (same ▸ member)) (tOutside x member)
    · rw [← cell.parent]
      refine sameAt_relink ?_
      rw [parent]
      exact ne_parentOf (fun same => subtree.ne_sentinel (same ▸ pointer_mem ne)) (tOutside _ (pointer_mem ne))
  · have hangs := h.hangs
    rw [pointer_join] at hangs
    have moved : (s.setParent (pointer t) (s.parent e.node)).Hangs path e.node := by
      refine hangs.congr rfl fun x member => ⟨rfl, rfl, rfl, if_neg fun same => ?_, fun _ => rfl⟩
      subst same
      by_cases leaf : t = .leaf
      · rw [leaf] at member
        exact h.hangs.ne_sentinel member
      · exact tOutside _ (pointer_mem leaf) member
    exact moved.relink (List.nodup_append.1 parts).2.1 outside cell.ne parent h.nullKey .left (pointer t)
  · refine (nodes_plug_perm path t).nodup_iff.2 (List.Nodup.sublist ?_ parts)
    refine List.Sublist.append_right ?_ _
    cases side <;> simp [nodes, Coloured.join, Coloured.inorder]
  · rw [splice_key, h.nullKey]
  · rw [splice_isBlack, h.nullBlack]

/-- What takes the place of a node has its parent, be it the sentinel. -/
theorem At.splice_parent (h : At s path (.join side isBlack .leaf e t)) :
    (s.splice e.node (pointer t)).parent (pointer t) = parentOf path := by
  rw [Map.splice, relink_parent]
  exact (if_pos rfl).trans h.cell.parent

/-! ## A node in the place of another -/

section Replace

variable {x y z : MapNode}

theorem takeLinks_child (d : Side) :
    (s.takeLinks z y).child d x = if x = y then s.child d z else s.child d x := by
  cases d <;> by_cases same : x = y <;> simp [takeLinks, setParent, setBlack, setChild, Map.left, Map.right, same]

theorem takeLinks_parent :
    (s.takeLinks z y).parent x =
      if x = s.left z ∨ x = s.right z then y else if x = y then s.parent z else s.parent x := by
  simp only [takeLinks, setParent, setBlack, setChild, Map.left, Map.right]
  by_cases isLeft : x = s.child .left z <;> by_cases isRight : x = s.child .right z <;> simp [isLeft, isRight]

@[simp] theorem takePlace_parent : (s.takePlace z y).parent = s.parent := rfl

theorem takePlace_child (ne : x ≠ s.parent y) (d : Side) : (s.takePlace z y).child d x = s.child d x :=
  if_neg fun both => ne both.2

/-- The parents after `y` took the place of `z`. -/
theorem replaceNode_parent (side : Side) : (s.replaceNode z y).parent x =
    if x = s.child side z ∨ x = s.child side.other z then y else if x = y then s.parent z else s.parent x := by
  rw [replaceNode, takePlace_parent, takeLinks_parent]
  cases side
  · rfl
  · exact if_congr or_comm rfl rfl

theorem replaceNode_child (yNear : y ≠ s.child side z) (yFar : y ≠ s.child side.other z)
    (ne : x ≠ s.parent z) (d : Side) :
    (s.replaceNode z y).child d x = if x = y then s.child d z else s.child d x := by
  have parent := replaceNode_parent (x := y) (y := y) (z := z) (s := s) side
  rw [if_neg (by simp [yNear, yFar]), if_pos rfl] at parent
  rw [replaceNode, takePlace_child, takeLinks_child]
  rwa [← takePlace_parent, ← replaceNode, parent]

theorem replaceNode_isBlack :
    (s.replaceNode z y).isBlack x = if x = y then s.isBlack z else s.isBlack x := rfl

@[simp] theorem replaceNode_key : (s.replaceNode z y).key = s.key := rfl

@[simp] theorem replaceNode_value : (s.replaceNode z y).value = s.value := rfl

theorem sameAt_replaceNode (yNear : y ≠ s.child side z) (yFar : y ≠ s.child side.other z)
    (xy : x ≠ y) (xNear : x ≠ s.child side z) (xFar : x ≠ s.child side.other z) (xp : x ≠ s.parent z) :
    SameAt s (s.replaceNode z y) x where
  key := rfl
  value := rfl
  isBlack := by rw [replaceNode_isBlack, if_neg xy]
  parent := by rw [replaceNode_parent side, if_neg (by simp [xNear, xFar]), if_neg xy]
  child d := by rw [replaceNode_child yNear yFar xp, if_neg xy]

/-- A child gets the new node for a parent, and nothing else below it changes. -/
theorem Subtree.replaceNode (subtree : s.Subtree t z) (nodup : (nodes t).Nodup)
    (yNear : y ≠ s.child side z) (yFar : y ≠ s.child side.other z)
    (top : pointer t = s.child side z ∨ pointer t = s.child side.other z)
    (apart : ∀ x ∈ nodes t, x ≠ y ∧ x ≠ s.parent z ∧
      (x = s.child side z ∨ x = s.child side.other z → x = pointer t)) :
    (s.replaceNode z y).Subtree t y := by
  refine subtree.reparent nodup ?_ fun ne => ?_
  · intro x member differ
    obtain ⟨xy, xp, only⟩ := apart x member
    exact sameAt_replaceNode yNear yFar xy (fun same => differ (only (.inl same)))
      (fun same => differ (only (.inr same))) xp
  · obtain ⟨xy, xp, -⟩ := apart _ (pointer_mem ne)
    refine ⟨rfl, rfl, ?_, ?_, fun d => ?_⟩
    · rw [replaceNode_isBlack, if_neg xy]
      rfl
    · rw [replaceNode_parent side, if_pos top]
      exact (if_pos rfl).symm
    · rw [replaceNode_child yNear yFar xp, if_neg xy]
      rfl

/-- What hung under `z` hangs under `y`. -/
theorem Hangs.replaceNode (hangs : s.Hangs path z) (nodup : (around path).Nodup)
    (zOutside : z ∉ around path) (yOutside : y ∉ around path) (zNe : z ≠ mapSentinel)
    (parent : s.parent z = parentOf path) (yNear : y ≠ s.child side z) (yFar : y ≠ s.child side.other z)
    (apart : ∀ x ∈ around path, x ≠ s.child side z ∧ x ≠ s.child side.other z) :
    (s.replaceNode z y).Hangs path y := by
  have root : (s.replaceNode z y).root = if s.root = z then y else s.root := rfl
  refine hangs.relinked nodup ?_ ?_ ?_ ?_
  · rintro rfl
    rw [root]
    exact if_pos hangs
  · intro below
    have differ : s.root ≠ z := fun same => zOutside (same ▸ hangs.root_mem below)
    rw [root, if_neg differ]
  · intro f first
    cases path with
    | nil => cases first
    | cons f' path =>
        obtain rfl : f' = f := by simpa using first
        obtain ⟨cell, -, -⟩ := hangs
        have inside : f'.a.node ∈ around (f' :: path) := mem_around_cons.2 (.inl rfl)
        obtain ⟨fNear, fFar⟩ := apart _ inside
        have fy : f'.a.node ≠ y := fun same => yOutside (same ▸ inside)
        have yParent : (s.takeLinks z y).parent y = f'.a.node := by
          have moved := replaceNode_parent (s := s) (x := y) (y := y) (z := z) side
          rw [if_neg (by simp [yNear, yFar]), if_pos rfl, parent] at moved
          exact moved
        have zSide : (if z = s.right f'.a.node then Side.right else .left) = f'.side := by
          obtain ⟨d, isBlack, a, sibling⟩ := f'
          cases d with
          | right => exact if_pos cell.near.symm
          | left =>
              refine if_neg fun same => ?_
              have far : s.right a.node = pointer sibling := cell.far
              rw [far] at same
              by_cases leaf : sibling = .leaf
              · rw [leaf] at same
                exact zNe same
              · exact zOutside (mem_around_cons.2 (.inr (.inl (same ▸ pointer_mem leaf))))
        refine ⟨rfl, rfl, ?_, ?_, fun d => ?_⟩
        · rw [replaceNode_isBlack, if_neg fy]
          rfl
        · rw [replaceNode_parent side, if_neg (by simp [fNear, fFar]), if_neg fy]
          rfl
        · have right : (s.takeLinks z y).right f'.a.node = s.right f'.a.node := by
            rw [Map.right, takeLinks_child, if_neg fy]
            rfl
          simp only [Map.replaceNode, takePlace, setChild, yParent, right, zSide, takeLinks_child, if_neg fy]
  · intro x member differ
    obtain ⟨xNear, xFar⟩ := apart x member
    refine sameAt_replaceNode yNear yFar (fun same => yOutside (same ▸ member)) xNear xFar ?_
    rwa [parent]

end Replace

/-- A node outside of the tree takes the place of one in it. -/
theorem At.replace (h : At s path (.join side isBlack near e far))
    (ne : e'.node ≠ mapSentinel) (key : s.key e'.node = some e'.key) (value : s.value e'.node = e'.value)
    (outside : e'.node ∉ nodes (plug path (.join side isBlack near e far))) :
    At (s.replaceNode e.node e'.node) path (.join side isBlack near e' far) := by
  obtain ⟨cell, nearSubtree, farSubtree⟩ := subtree_join.1 h.subtree
  have parts := h.nodup_parts
  rw [(nodes_plug_perm _ _).mem_iff, List.mem_append, mem_nodes_join, not_or, not_or, not_or] at outside
  obtain ⟨⟨differ, nearOut, farOut⟩, aroundOut⟩ := outside
  have nearSide : s.child side e.node = pointer near := cell.near
  have farSide : s.child side.other e.node = pointer far := cell.far
  have yNear : e'.node ≠ s.child side e.node := nearSide ▸ ne_pointer ne nearOut
  have yFar : e'.node ≠ s.child side.other e.node := farSide ▸ ne_pointer ne farOut
  have distinct := (List.nodup_cons.1 (nodes_join_perm.nodup_iff.1 (List.nodup_append.1 parts).1)).2
  obtain ⟨nearNodup, farNodup, disjoint⟩ := List.nodup_append.1 distinct
  have zNe : ∀ x, x ∈ nodes near ∨ x ∈ nodes far → x ≠ mapSentinel := by
    rintro x (member | member) rfl
    · exact nearSubtree.ne_sentinel member
    · exact farSubtree.ne_sentinel member
  have beside : ∀ x, x ∈ nodes near ∨ x ∈ nodes far → x ∉ around path := fun x member =>
    h.not_around (mem_nodes_join.2 (.inr member))
  have apart : ∀ x, x ∈ nodes near ∨ x ∈ nodes far → x ≠ e'.node ∧ x ≠ s.parent e.node := by
    intro x member
    constructor
    · rintro rfl
      exact member.elim nearOut farOut
    · rw [cell.parent]
      exact ne_parentOf (zNe x member) (beside x member)
  have hangs := h.hangs
  rw [pointer_join] at hangs
  have nodup := (List.nodup_append.1 parts).2.1
  refine ⟨subtree_join.2 ⟨?_, ?_, ?_⟩, ?_, ?_, h.nullKey, ?_⟩
  · have fields := replaceNode_child yNear yFar (cell.parent ▸ ne_parentOf ne aroundOut)
    refine ⟨ne, key, value, ?_, ?_, ?_, ?_⟩
    · rw [replaceNode_isBlack, if_pos rfl, cell.isBlack]
    · rw [replaceNode_parent side, if_neg (by simp [yNear, yFar]), if_pos rfl, cell.parent]
    · rw [fields, if_pos rfl, nearSide]
    · rw [fields, if_pos rfl, farSide]
  · refine nearSubtree.replaceNode nearNodup yNear yFar (.inl nearSide.symm) fun x member => ?_
    refine ⟨(apart x (.inl member)).1, (apart x (.inl member)).2, ?_⟩
    rw [nearSide, farSide]
    rintro (same | same)
    · exact same
    · refine absurd same (ne_pointer (zNe x (.inl member)) fun inFar => disjoint x member x inFar rfl)
  · refine farSubtree.replaceNode farNodup yNear yFar (.inr farSide.symm) fun x member => ?_
    refine ⟨(apart x (.inr member)).1, (apart x (.inr member)).2, ?_⟩
    rw [nearSide, farSide]
    rintro (same | same)
    · refine absurd same (ne_pointer (zNe x (.inr member)) fun inNear => disjoint x inNear x member rfl)
    · exact same
  · rw [pointer_join]
    refine hangs.replaceNode nodup (h.not_around (mem_nodes_join.2 (.inl rfl))) aroundOut cell.ne cell.parent
      yNear yFar fun x member => ?_
    have xNe : x ≠ mapSentinel := fun same => h.hangs.ne_sentinel (same ▸ member)
    rw [nearSide, farSide]
    exact ⟨ne_pointer xNe fun inNear => beside x (.inl inNear) member,
      ne_pointer xNe fun inFar => beside x (.inr inFar) member⟩
  · refine (nodes_plug_perm _ _).nodup_iff.2 (List.nodup_append.2 ⟨?_, nodup, ?_⟩)
    · refine nodes_join_perm.nodup_iff.2 (List.nodup_cons.2 ⟨?_, distinct⟩)
      rw [List.mem_append, not_or]
      exact ⟨nearOut, farOut⟩
    · intro x member y inPath same
      subst same
      rcases mem_nodes_join.1 member with rfl | inside
      · exact aroundOut inPath
      · exact beside x inside inPath
  · rw [replaceNode_isBlack, if_neg ne.symm, h.nullBlack]

end Map

end Everscale
