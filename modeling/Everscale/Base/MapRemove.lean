/-
# Everscale.Base.MapRemove -- removal from the red-black map

A pass of the loop of `deleteNode` is one of the moves of a subtree that is one black node short
(`deleteFixupTurn_spec`).  The node that goes has one child at most, or its successor takes its place, so
that no other node changes its address (`deleteNode_spec`).
-/
import Everscale.Base.MapInsert

namespace Everscale

set_option autoImplicit false

open Theory.RedBlack

namespace Map

variable {κ ν : Type} {s s' : Map κ ν} {path : List (Frame (MapEntry κ ν))} {t w : Coloured (MapEntry κ ν)}
  {near mid far : Coloured (MapEntry κ ν)} {side : Side} {isBlack : Bool} {p c e : MapEntry κ ν}

/-! ## The fix-up -/

/-- The passes that are left at most: with a red far nephew the next one is the last. -/
def passes : List (Frame (MapEntry κ ν)) → Coloured (MapEntry κ ν) → Nat
  | [], _ => 0
  | f :: path, t =>
      if t.rootBlack = false then 0
      else if f.sibling.rootBlack = true ∧ (f.sibling.child f.side.other).rootBlack = false then 1
      else path.length + 2

theorem passes_le (path : List (Frame (MapEntry κ ν))) (t : Coloured (MapEntry κ ν)) :
    passes path t ≤ path.length + 1 := by
  unfold passes
  split
  · exact Nat.zero_le _
  · split
    · exact Nat.zero_le _
    · split <;> simp

/-- The focus has the node above it for a parent, and so has the sentinel in the place of a leaf. -/
theorem At.parent_focus {f : Frame (MapEntry κ ν)} (h : At s (f :: path) t)
    (leaf : t = .leaf → s.parent mapSentinel = f.a.node) : s.parent (pointer t) = f.a.node := by
  by_cases none : t = .leaf
  · rw [none]
    exact leaf none
  · exact h.parent_eq none

theorem deleteFixupTurn_books (side : Side) (s : Map κ ν) (x : MapNode) :
    SameBooks s (s.deleteFixupTurn side x) := by
  simp only [deleteFixupTurn]
  split
  · exact rotate_books _ ((s.setBlack _ true).setBlack _ false) _
  · exact .refl s

/-- After the first steps of a pass the sibling is black. -/
theorem deleteFixupTurn_spec (h : At s (⟨side, isBlack, p, w⟩ :: path) t)
    (sinking : Sinking (⟨side, isBlack, p, w⟩ :: path) t) (parent : s.parent (pointer t) = p.node) :
    ∃ isBlack' near' c' far' path',
      At (s.deleteFixupTurn side (pointer t)) (⟨side, isBlack', p, .join side true near' c' far'⟩ :: path') t ∧
      Sinking (⟨side, isBlack', p, .join side true near' c' far'⟩ :: path') t ∧
      (s.deleteFixupTurn side (pointer t)).parent (pointer t) = p.node ∧
      (plug (⟨side, isBlack', p, .join side true near' c' far'⟩ :: path') t).inorder =
        (plug (⟨side, isBlack, p, w⟩ :: path) t).inorder ∧
      (w = .join side true near' c' far' ∧ path' = path ∨ isBlack' = false ∧ w.rootBlack = false) := by
  obtain ⟨near, c, far, eq⟩ := sinking.sibling side
  have sibling : s.child side.other p.node = pointer w := h.hangs.1.far
  have colour : s.isBlack (pointer w) = w.rootBlack := (At.across.1 h).isBlack_eq
  simp only [deleteFixupTurn, parent, sibling, colour]
  cases black : w.rootBlack with
  | true =>
      rw [if_neg (by simp)]
      simp only [black] at eq
      subst eq
      exact ⟨isBlack, near, c, far, path, h, sinking, parent, rfl, .inl ⟨rfl, rfl⟩⟩
  | false =>
      rw [if_pos (by simp)]
      simp only [black] at eq
      subst eq
      obtain ⟨rfl, nearBlack, sunk⟩ := sinking.turn
      have siblingBlack : At (s.setBlack c.node true) (⟨side.other, true, p, t⟩ :: path)
          (.join side true near c far) := (At.across.1 h).recolour
      rw [At.across, Side.other_other] at siblingBlack
      have parentRed : At ((s.setBlack c.node true).setBlack p.node false) path
          (.join side false t p (.join side true near c far)) := (At.up.1 siblingBlack).recolour
      have turned := parentRed.rotate.down.down
      have turnedParent := turned.parent_focus fun leaf => by
        rw [leaf] at parent
        rw [parentRed.rotate_parent_sentinel]
        exact parent
      obtain ⟨near', c', far', nearEq⟩ := sunk.sibling side
      rw [nearBlack] at nearEq
      subst nearEq
      rw [pointer_join]
      refine ⟨false, near', c', far', ⟨side, true, c, far⟩ :: path, turned, sunk, turnedParent, ?_,
        .inr ⟨rfl, rfl⟩⟩
      exact inorder_plug_congr path (Coloured.inorder_rotate side true false false true t _ far p c)

theorem deleteFixupRest_books (side : Side) (s : Map κ ν) (x : MapNode) :
    SameBooks s (s.deleteFixupRest side x).1 := by
  simp only [deleteFixupRest]
  split
  · exact .refl _
  · split
    · exact rotate_books _ ((s.setBlack _ true).setBlack _ false) _
    · exact rotate_books _ (((s.setBlack _ _).setBlack _ true).setBlack _ true) _

theorem deleteFixupRest_spec (h : At s (⟨side, isBlack, p, .join side true near c far⟩ :: path) t)
    (sinking : Sinking (⟨side, isBlack, p, .join side true near c far⟩ :: path) t) (black : t.rootBlack = true)
    (parent : s.parent (pointer t) = p.node) :
    ∃ path' t', At (s.deleteFixupRest side (pointer t)).1 path' t' ∧
      (s.deleteFixupRest side (pointer t)).2 = pointer t' ∧ Sinking path' t' ∧
      (path' ≠ [] → (s.deleteFixupRest side (pointer t)).1.parent (pointer t') = parentOf path') ∧
      (plug path' t').inorder = (plug (⟨side, isBlack, p, .join side true near c far⟩ :: path) t).inorder ∧
      (path' = path ∧ t'.rootBlack = isBlack ∧ far.rootBlack = true ∨ passes path' t' = 0 ∨
        far.rootBlack = true ∧ passes path' t' = 1) := by
  have sibling : s.child side.other p.node = c.node := by rw [h.hangs.1.far, pointer_join]
  have across := At.across.1 h
  have nearPointer : s.child side c.node = pointer near := across.cell.near
  have farPointer : s.child side.other c.node = pointer far := across.cell.far
  have nearColour : s.isBlack (pointer near) = near.rootBlack := across.down.isBlack_eq
  have farColour : s.isBlack (pointer far) = far.rootBlack := (At.across.1 across.down).isBlack_eq
  simp only [deleteFixupRest, setBlack_parent, setBlack_child, parent, sibling, nearPointer, farPointer,
    nearColour, farColour]
  cases farBlack : far.rootBlack with
  | false =>
      rw [if_neg (by simp), if_neg (by simp)]
      have siblingColoured : At (s.setBlack c.node isBlack) (⟨side.other, isBlack, p, t⟩ :: path)
          (.join side isBlack near c far) := across.recolour
      rw [At.across, Side.other_other] at siblingColoured
      have parentBlack : At ((s.setBlack c.node isBlack).setBlack p.node true) path
          (.join side true t p (.join side isBlack near c far)) := (At.up.1 siblingColoured).recolour
      have nephewBlack : At (((s.setBlack c.node isBlack).setBlack p.node true).setBlack (pointer far) true)
          (⟨side.other, isBlack, c, near⟩ :: ⟨side.other, true, p, t⟩ :: path) far.blacken :=
        (At.across.1 (At.across.1 parentBlack.down).down).blacken
      rw [At.across, Side.other_other, At.up, Frame.fill, At.across, Side.other_other, At.up] at nephewBlack
      have turned := At.plug_iff.1 ((List.append_nil path).symm ▸ nephewBlack.rotate)
      have colour : s.isBlack p.node = isBlack := h.hangs.1.isBlack
      obtain ⟨-, n, balance⟩ := sinking.outward black farBlack
      rw [colour]
      refine ⟨[], _, turned, turned.root_eq, ⟨n, balance.loose, rfl⟩, by simp, ?_, .inr (.inl rfl)⟩
      refine inorder_plug_congr path ?_
      cases side <;> simp [Frame.fill, Coloured.join, Coloured.inorder]
  | true =>
      cases nearBlack : near.rootBlack with
      | true =>
          rw [if_pos ⟨rfl, rfl⟩]
          have red : At (s.setBlack c.node false) (⟨side.other, isBlack, p, t⟩ :: path)
              (.join side false near c far) := across.recolour
          rw [At.across, Side.other_other] at red
          have joined := At.up.1 red
          refine ⟨path, _, joined, ?_, sinking.lift black nearBlack farBlack, fun _ => ?_, ?_, ?_⟩
          · rw [Frame.fill, pointer_join]
          · exact joined.parent_eq (Coloured.join_ne_leaf _ _ _ _ _)
          · refine inorder_plug_congr path ?_
            cases side <;> simp [Frame.fill, Coloured.join, Coloured.inorder]
          · exact .inl ⟨rfl, Coloured.rootBlack_join .., rfl⟩
      | false =>
          rw [if_neg (by simp), if_pos rfl]
          have nearNe : near ≠ .leaf := by
            rintro rfl
            cases nearBlack
          obtain ⟨near', a, mid, eq⟩ := Coloured.exists_join side nearNe
          rw [nearBlack] at eq
          subst eq
          have nephewBlack : At (s.setBlack a.node true)
              (⟨side, true, c, far⟩ :: ⟨side.other, isBlack, p, t⟩ :: path) (.join side true near' a mid) :=
            across.down.recolour
          have siblingRed : At ((s.setBlack a.node true).setBlack c.node false)
              (⟨side.other, isBlack, p, t⟩ :: path) (.join side false (.join side true near' a mid) c far) :=
            (At.up.1 nephewBlack).recolour
          have shape : Coloured.join side false (.join side true near' a mid) c far =
              .join side.other false far c (.join side.other true mid a near') := by
            rw [join_other, join_other]
          rw [shape] at siblingRed
          have turned := siblingRed.rotate
          rw [join_other, join_other, At.across, Side.other_other] at turned
          rw [pointer_join]
          refine ⟨_, t, turned, rfl, sinking.inward farBlack, fun _ => ?_, ?_, ?_⟩
          · refine turned.parent_focus fun leaf => ?_
            rw [siblingRed.rotate_parent_sentinel]
            rw [leaf] at parent
            exact parent
          · refine inorder_plug_congr path ?_
            cases side <;> simp [Frame.fill, Coloured.join, Coloured.inorder]
          · refine .inr (.inr ⟨rfl, ?_⟩)
            simp [passes, black]

theorem passes_of_red (path : List (Frame (MapEntry κ ν))) (red : t.rootBlack = false) : passes path t = 0 := by
  cases path with
  | nil => rfl
  | cons f path => exact if_pos red

theorem passes_cons {f : Frame (MapEntry κ ν)} (black : t.rootBlack = true) : passes (f :: path) t =
    if f.sibling.rootBlack = true ∧ (f.sibling.child f.side.other).rootBlack = false then 1
    else path.length + 2 := if_neg (by simp [black])

/-- The loop of `deleteNode` makes the tree red-black and leaves the pairs in order. -/
theorem deleteFixup_spec {fuel : Nat} (h : At s path t) (sinking : Sinking path t)
    (parent : path ≠ [] → s.parent (pointer t) = parentOf path) (enough : passes path t < fuel) :
    ∃ s' T, s.deleteFixup fuel (pointer t) = some s' ∧ At s' [] T ∧ IsRedBlack T ∧
      T.inorder = (plug path t).inorder ∧ SameBooks s s' := by
  induction fuel generalizing s path t with
  | zero => omega
  | succ fuel ih =>
      have atRoot := h.eq_root_iff
      have colour := h.isBlack_eq
      unfold deleteFixup
      by_cases done : path = [] ∨ t.rootBlack = false
      · rw [if_neg]
        · have black := At.plug_iff.1 ((List.append_nil path).symm ▸ h.blacken)
          exact ⟨_, _, rfl, black, sinking.settled done, inorder_plug_congr path (Coloured.inorder_blacken t), .refl s⟩
        · rintro ⟨below, black⟩
          rcases done with top | red
          · exact below (atRoot.2 top).symm
          · rw [colour, red] at black
            cases black
      · obtain ⟨below, notRed⟩ := not_or.1 done
        have black : t.rootBlack = true := by simpa using notRed
        obtain ⟨⟨side, isBlack, p, w⟩, path, rfl⟩ := List.exists_cons_of_ne_nil below
        have parentEq : s.parent (pointer t) = p.node := parent (by simp)
        obtain ⟨near, c, far, wEq⟩ : ∃ near c far, w = .join side w.rootBlack near c far := sinking.sibling side
        have wNe : w ≠ .leaf := by
          rw [wEq]
          exact Coloured.join_ne_leaf _ _ _ _ _
        have sideTest : pointer t = s.child .left p.node ↔ .left = side := h.eq_child_iff (.inr wNe) .left
        have chosen : (if pointer t = s.left p.node then Side.left else .right) = side := by
          rw [Map.left]
          cases side with
          | left => exact if_pos (sideTest.2 rfl)
          | right => exact if_neg fun same => by simpa using sideTest.1 same
        obtain ⟨isBlack', near', c', far', path', turned, sunk, turnedParent, order, was⟩ :=
          deleteFixupTurn_spec h sinking parentEq
        obtain ⟨path'', t'', hAt, focus, sunk', parent', order', fewer⟩ :=
          deleteFixupRest_spec turned sunk black turnedParent
        have less : passes path'' t'' < passes (⟨side, isBlack, p, w⟩ :: path) t := by
          have bound := passes_le path'' t''
          rcases was with ⟨rfl, rfl⟩ | ⟨rfl, red⟩
          · rw [passes_cons black]
            simp only [Coloured.rootBlack_join, Coloured.child_other_join, true_and]
            rcases fewer with ⟨rfl, -, farBlack⟩ | none | ⟨farBlack, one⟩
            · simp [farBlack]
              omega
            · rw [none]
              split <;> simp
            · simp [farBlack, one]
          · rw [passes_cons black]
            simp only [red]
            rcases fewer with ⟨-, red', -⟩ | none | ⟨-, one⟩
            · simp [passes_of_red path'' red']
            · simp [none]
            · simp [one]
        obtain ⟨s', T, result, hT, redBlack, order'', books⟩ := ih hAt sunk' parent' (by omega)
        refine ⟨s', T, ?_, hT, redBlack, (order''.trans order').trans order, ?_⟩
        · have goes : s.root ≠ pointer t ∧ s.isBlack (pointer t) = true := by
            refine ⟨fun same => ?_, colour.trans black⟩
            simpa using atRoot.1 same.symm
          rw [if_pos goes]
          simp only [parentEq, chosen, deleteFixupStep, focus]
          exact result
        · exact ((deleteFixupTurn_books side s _).trans (deleteFixupRest_books side _ _)).trans books

/-! ## `deleteNode` -/

/-- Down a side to the last node. -/
theorem findExtreme_spec (side : Side) (h : At s path t) (ne : t ≠ .leaf) {fuel : Nat} (enough : t.height < fuel) :
    ∃ q isBlack a far, t = plug q (.join side isBlack .leaf a far) ∧ (∀ f ∈ q, f.side = side) ∧
      findExtreme side fuel s (pointer t) = some a.node := by
  induction fuel generalizing path t with
  | zero => omega
  | succ fuel ih =>
      obtain ⟨near, e, far, eq⟩ := Coloured.exists_join side ne
      rw [eq] at h enough ⊢
      rw [Coloured.height_join] at enough
      have key := h.down.hasKey_iff
      rw [pointer_join]
      unfold findExtreme
      rw [h.cell.near]
      by_cases last : near = .leaf
      · rw [if_neg fun keyed => key.1 keyed last, last]
        exact ⟨[], _, e, far, rfl, by simp, rfl⟩
      · rw [if_pos (key.2 last)]
        obtain ⟨q, isBlack, a, far', shape, sides, result⟩ := ih h.down last (by omega)
        refine ⟨q ++ [⟨side, t.rootBlack, e, far⟩], isBlack, a, far', ?_, ?_, result⟩
        · rw [plug_append, ← shape]
          rfl
        · simpa [or_imp, forall_and] using sides

theorem splice_books (s : Map κ ν) (y x : MapNode) : SameBooks s (s.splice y x) :=
  relink_books .left (s.setParent x (s.parent y)) y x

theorem replaceNode_books (s : Map κ ν) (z y : MapNode) : SameBooks s (s.replaceNode z y) := ⟨rfl, rfl, rfl⟩

theorem SameBooks.freed {z : MapNode} (h : SameBooks s s') :
    SameBooks { s.deallocate z with size := s.size - 1 } { s'.deallocate z with size := s'.size - 1 } :=
  ⟨by simp only [h.size], h.allocated, by simp only [deallocate, h.deallocated]⟩

theorem finishDelete_spec {fuel : Nat} {z : MapNode} (h : At s path t)
    (parent : path ≠ [] → s.parent (pointer t) = parentOf path)
    (rest : (isBlack = false → IsRedBlack (plug path t)) ∧ (isBlack = true → Sinking path t))
    (enough : path.length + 1 < fuel) :
    ∃ s' T, s.finishDelete fuel z (pointer t) isBlack = some s' ∧ At s' [] T ∧ IsRedBlack T ∧
      T.inorder = (plug path t).inorder ∧ SameBooks { s.deallocate z with size := s.size - 1 } s' := by
  have freed : At { s.deallocate z with size := s.size - 1 } path t :=
    h.congr rfl fun x => ⟨rfl, rfl, rfl, rfl, fun _ => rfl⟩
  cases isBlack with
  | false =>
      exact ⟨_, _, rfl, At.plug_iff.1 ((List.append_nil path).symm ▸ freed), rest.1 rfl, rfl, .refl _⟩
  | true =>
      have most := passes_le path t
      have fuelLeft : passes path t < fuel := by omega
      exact deleteFixup_spec freed (rest.2 rfl) parent fuelLeft

/-- A node with one child at most goes. -/
theorem spliceDelete_spec {fuel : Nat} (h : At s path (.join side isBlack .leaf e t))
    (redBlack : IsRedBlack (plug path (.join side isBlack .leaf e t))) (enough : path.length + 1 < fuel) :
    ∃ s' T, (s.splice e.node (pointer t)).finishDelete fuel e.node (pointer t)
        ((s.splice e.node (pointer t)).isBlack e.node) = some s' ∧
      At s' [] T ∧ IsRedBlack T ∧ T.inorder = before path ++ (t.inorder ++ after path) ∧
      SameBooks { s.deallocate e.node with size := s.size - 1 } s' := by
  have books := splice_books s e.node (pointer t)
  obtain ⟨s', T, result, hT, redBlackT, order, freed⟩ :=
    finishDelete_spec (z := e.node) h.splice (fun _ => h.splice_parent) redBlack.splice enough
  refine ⟨s', T, ?_, hT, redBlackT, order.trans (inorder_plug path t), books.freed.trans freed⟩
  rw [splice_isBlack, h.cell.isBlack]
  exact result

theorem sinking_relabel {inners : List (Frame (MapEntry κ ν))} {e' : MapEntry κ ν}
    (h : Sinking (inners ++ ⟨side, isBlack, e, w⟩ :: path) t) :
    Sinking (inners ++ ⟨side, isBlack, e', w⟩ :: path) t := by
  obtain ⟨n, loose, fits⟩ := h
  exact ⟨n, loose, fits_relabel.1 fits⟩

theorem redBlack_relabel {inners : List (Frame (MapEntry κ ν))} {e' : MapEntry κ ν}
    (h : IsRedBlack (plug (inners ++ ⟨side, isBlack, e, w⟩ :: path) t)) :
    IsRedBlack (plug (inners ++ ⟨side, isBlack, e', w⟩ :: path) t) := by
  obtain ⟨n, balanced, fits⟩ := redBlack_plug.1 h
  exact redBlack_plug.2 ⟨n, balanced, fits_relabel.1 fits⟩

/-- The removal of a node with one child at most. -/
theorem deleteNode_single {fuel : Nat} (h : At s path (.join side isBlack .leaf e t))
    (redBlack : IsRedBlack (plug path (.join side isBlack .leaf e t))) (enough : path.length + 1 < fuel) :
    ∃ s' T, s.deleteNode fuel e.node = some s' ∧ At s' [] T ∧ IsRedBlack T ∧
      T.inorder = before path ++ (t.inorder ++ after path) ∧
      SameBooks { s.deallocate e.node with size := s.size - 1 } s' := by
  have spliced := spliceDelete_spec h redBlack enough
  have noKey : s.hasKey mapSentinel = false := by simp [hasKey, h.nullKey]
  have tKey := (At.across.1 h.down).hasKey_iff
  have child : (if s.hasKey (s.left e.node) then s.left e.node else s.right e.node) = pointer t := by
    cases side with
    | left =>
        have near : s.left e.node = mapSentinel := h.cell.near
        rw [near, noKey]
        exact h.cell.far
    | right =>
        have near : s.right e.node = mapSentinel := h.cell.near
        have far : s.left e.node = pointer t := h.cell.far
        rw [near, far]
        by_cases leaf : t = .leaf
        · rw [leaf]
          exact ite_self _
        · exact if_pos (tKey.2 leaf)
  have single : ¬ s.hasKey (s.left e.node) ∨ ¬ s.hasKey (s.right e.node) := by
    cases side with
    | left =>
        have near : s.left e.node = mapSentinel := h.cell.near
        simp [near, noKey]
    | right =>
        have near : s.right e.node = mapSentinel := h.cell.near
        simp [near, noKey]
  have unfolded : s.deleteNode fuel e.node = (s.splice e.node (pointer t)).finishDelete fuel e.node (pointer t)
      ((s.splice e.node (pointer t)).isBlack e.node) := by
    unfold deleteNode
    rw [if_pos single]
    simp only [bind, Option.bind_some, child, ne_eq, not_true, if_false]
  rw [unfolded]
  exact spliced

/-- The removal of a node with two children: its successor takes its place. -/
theorem deleteNode_double {fuel : Nat} {left right : Coloured (MapEntry κ ν)}
    (h : At s path (.node isBlack left e right)) (redBlack : IsRedBlack (plug path (.node isBlack left e right)))
    (enough : (plug path (.node isBlack left e right)).inorder.length + 2 < fuel)
    (hasLeft : left ≠ .leaf) (hasRight : right ≠ .leaf) :
    ∃ s' T, s.deleteNode fuel e.node = some s' ∧ At s' [] T ∧ IsRedBlack T ∧
      T.inorder = before path ++ (left.inorder ++ right.inorder ++ after path) ∧
      SameBooks { s.deallocate e.node with size := s.size - 1 } s' := by
  have cell := h.subtree.1
  have leftPointer : s.left e.node = pointer left := cell.near
  have rightPointer : s.right e.node = pointer right := cell.far
  have leftAt : At s (⟨.left, isBlack, e, right⟩ :: path) left := At.up.2 h
  have rightAt : At s (⟨.right, isBlack, e, left⟩ :: path) right := At.up.2 h
  have leftKey := leftAt.hasKey_iff.2 hasLeft
  have rightKey := rightAt.hasKey_iff.2 hasRight
  have shorter : right.height < fuel := by
    have := right.height_le_length
    rw [inorder_plug] at enough
    simp only [Coloured.inorder, List.length_append, List.length_cons] at enough
    omega
  obtain ⟨q, black, y, far, rfl, sides, found⟩ := findExtreme_spec .left rightAt hasRight shorter
  have inner : At s (q ++ ⟨.right, isBlack, e, left⟩ :: path) (.join .left black .leaf y far) :=
    At.plug_iff.2 rightAt
  have whole : plug path (.node isBlack left e (plug q (.join .left black .leaf y far))) =
      plug (q ++ ⟨.right, isBlack, e, left⟩ :: path) (.join .left black .leaf y far) := by
    rw [plug_append]
    rfl
  rw [whole] at redBlack enough
  have yCell := inner.cell
  have noKey : s.hasKey mapSentinel = false := by simp [hasKey, h.nullKey]
  have child : (if s.hasKey (s.left y.node) then s.left y.node else s.right y.node) = pointer far := by
    have near : s.left y.node = mapSentinel := yCell.near
    rw [near, noKey]
    exact yCell.far
  have parts := nodes_join_perm.append_right _ |>.nodup_iff.1 inner.nodup_parts
  have yFresh := (List.nodup_cons.1 parts).1
  simp only [nodes, Coloured.inorder, List.map_nil, List.nil_append] at yFresh
  have books := (splice_books s y.node (pointer far)).trans (replaceNode_books _ e.node y.node)
  have focused := inner.splice_parent
  have rest := redBlack.splice
  -- Without its successor, the tree around `e`; the successor is a node outside of it.
  have around : At (s.splice y.node (pointer far)) path (.join .right isBlack (plug q far) e left) :=
    At.up.1 (At.plug_iff.1 inner.splice)
  have outside : y.node ∉ nodes (plug path (.join .right isBlack (plug q far) e left)) := by
    have same : plug path (.join .right isBlack (plug q far) e left) =
        plug (q ++ ⟨.right, isBlack, e, left⟩ :: path) far := by
      rw [plug_append]
      rfl
    rw [same, (nodes_plug_perm _ _).mem_iff]
    exact yFresh
  have key : (s.splice y.node (pointer far)).key y.node = some y.key := by rw [splice_key, yCell.key]
  have value : (s.splice y.node (pointer far)).value y.node = y.value := by rw [splice_value, yCell.value]
  have replaced := around.replace yCell.ne key value outside
  have final : At ((s.splice y.node (pointer far)).replaceNode e.node y.node)
      (q ++ ⟨.right, isBlack, y, left⟩ :: path) far := At.plug_iff.2 replaced.down
  have parent : ((s.splice y.node (pointer far)).replaceNode e.node y.node).parent (pointer far) =
      parentOf (q ++ ⟨.right, isBlack, y, left⟩ :: path) := by
    by_cases leaf : far = .leaf
    · subst leaf
      rw [replaceNode_parent .right, around.cell.near, around.cell.far]
      cases q with
      | nil => exact if_pos (.inl rfl)
      | cons f q =>
          have nearNe := around.down.pointer_ne plug_ne_leaf
          have farNe := (At.across.1 around.down).pointer_ne hasLeft
          exact (if_neg (not_or.2 ⟨nearNe.symm, farNe.symm⟩)).trans ((if_neg yCell.ne.symm).trans focused)
    · exact final.parent_eq leaf
  have differ : y.node ≠ e.node := by
    rintro same
    apply outside
    rw [same, (nodes_plug_perm _ _).mem_iff, List.mem_append, mem_nodes_join]
    exact .inl (.inl rfl)
  have long : (q ++ ⟨.right, isBlack, y, left⟩ :: path).length + 1 < fuel := by
    have length := length_path_le (q ++ ⟨.right, isBlack, e, left⟩ :: path) (.join .left black .leaf y far)
    simp only [List.length_append, List.length_cons] at length ⊢
    omega
  have relabelled :
      (black = false → IsRedBlack (plug (q ++ ⟨.right, isBlack, y, left⟩ :: path) far)) ∧
        (black = true → Sinking (q ++ ⟨.right, isBlack, y, left⟩ :: path) far) :=
    ⟨fun red => redBlack_relabel (rest.1 red), fun isBlack => sinking_relabel (rest.2 isBlack)⟩
  obtain ⟨s', T, result, hT, redBlackT, order, freed⟩ :=
    finishDelete_spec (z := e.node) final (fun _ => parent) relabelled long
  refine ⟨s', T, ?_, hT, redBlackT, ?_, books.freed.trans freed⟩
  · have both : ¬ (¬ s.hasKey (s.left e.node) ∨ ¬ s.hasKey (s.right e.node)) := by
      rw [leftPointer, rightPointer, leftKey, rightKey]
      simp
    have successor : s.findSuccessor fuel e.node = some y.node := by
      have keyed : s.hasKey (s.child .right e.node) = true := by
        rw [show s.child .right e.node = _ from rightPointer]
        exact rightKey
      rw [findSuccessor, findNeighbour, if_pos keyed, show s.child .right e.node = _ from rightPointer]
      exact found
    unfold deleteNode
    rw [if_neg both, successor]
    simp only [bind, Option.bind_some, child, ne_eq, differ, not_false_eq_true, if_true]
    rw [splice_isBlack, yCell.isBlack]
    exact result
  · have none : before q = [] := before_eq_nil sides
    rw [order, plug_append, inorder_plug, inorder_plug, none, before_cons_right, after_cons_right, inorder_plug,
      none]
    simp [Coloured.join, Coloured.inorder]

/-- A node goes, and all others keep their addresses and stay in order. -/
theorem deleteNode_spec {fuel : Nat} {left right : Coloured (MapEntry κ ν)}
    (h : At s path (.node isBlack left e right)) (redBlack : IsRedBlack (plug path (.node isBlack left e right)))
    (enough : (plug path (.node isBlack left e right)).inorder.length + 2 < fuel) :
    ∃ s' T, s.deleteNode fuel e.node = some s' ∧ At s' [] T ∧ IsRedBlack T ∧
      T.inorder = before path ++ (left.inorder ++ right.inorder ++ after path) ∧
      SameBooks { s.deallocate e.node with size := s.size - 1 } s' := by
  have pathLength := length_path_le path (.node isBlack left e right)
  by_cases hasLeft : left = .leaf
  · subst hasLeft
    have joined : At s path (.join .left isBlack .leaf e right) := h
    exact deleteNode_single joined redBlack (by omega)
  · by_cases hasRight : right = .leaf
    · subst hasRight
      have joined : At s path (.join .right isBlack .leaf e left) := h
      rw [Coloured.inorder, List.append_nil]
      exact deleteNode_single joined redBlack (by omega)
    · exact deleteNode_double h redBlack enough hasLeft hasRight

end Map

end Everscale
