/-
# Everscale.Base.MapInsert -- insertion into the red-black map

A pass of the loop of `insertNode` is one of the moves of a rising red node (`insertFixupStep_spec`), so the
loop ends with a red-black tree that holds the same pairs in the same order (`insertFixup_spec`).
-/
import Everscale.Base.MapTree

namespace Everscale

set_option autoImplicit false

open Theory.RedBlack
open Theory.SortedTable (Cut)

namespace Map

variable {κ ν : Type} {s s' : Map κ ν} {path : List (Frame (MapEntry κ ν))} {t u w : Coloured (MapEntry κ ν)}
  {side inner : Side} {p g e : MapEntry κ ν}

/-- The size and the dealings with the allocator are the same. -/
def SameBooks (s s' : Map κ ν) : Prop :=
  s'.size = s.size ∧ s'.allocated = s.allocated ∧ s'.deallocated = s.deallocated

theorem SameBooks.size (h : SameBooks s s') : s'.size = s.size := h.1

theorem SameBooks.allocated (h : SameBooks s s') : s'.allocated = s.allocated := h.2.1

theorem SameBooks.deallocated (h : SameBooks s s') : s'.deallocated = s.deallocated := h.2.2

theorem SameBooks.refl (s : Map κ ν) : SameBooks s s := ⟨rfl, rfl, rfl⟩

theorem SameBooks.trans {s'' : Map κ ν} (h : SameBooks s s') (h' : SameBooks s' s'') : SameBooks s s'' :=
  ⟨h'.size.trans h.size, h'.allocated.trans h.allocated, h'.deallocated.trans h.deallocated⟩

theorem relink_books (side : Side) (s : Map κ ν) (x y : MapNode) : SameBooks s (s.relink side x y) := by
  unfold relink
  split
  · exact .refl s
  · split <;> exact .refl s

theorem adopt_books (s : Map κ ν) (y x : MapNode) : SameBooks s (s.adopt y x) := by
  unfold adopt
  split <;> exact .refl s

theorem rotate_books (side : Side) (s : Map κ ν) (x : MapNode) : SameBooks s (s.rotate side x) := by
  let y := s.child side.other x
  let s' := s.setChild side.other x (s.child side y)
  let s'' := s'.adopt (s'.child side y) x
  exact (adopt_books s' _ x).trans (relink_books side (s''.setParent y (s''.parent x)) x y)

/-! ## The fix-up -/

/-- The passes that are left at most: a rotation of an inner grandchild does not go up. -/
def turns : List (Frame (MapEntry κ ν)) → Nat
  | f :: f' :: path => path.length + 2 + if f.isBlack ∨ f.side = f'.side then 0 else 1
  | path => path.length

theorem turns_le (path : List (Frame (MapEntry κ ν))) : turns path ≤ path.length + 1 := by
  unfold turns
  split
  · split <;> simp only [List.length_cons] <;> omega
  · omega

theorem turns_of_black {f : Frame (MapEntry κ ν)} (black : f.isBlack = true) :
    turns (f :: path) = path.length + 1 := by
  cases path with
  | nil => rfl
  | cons f' path => simp [turns, black]

theorem insertFixupStep_books (side : Side) (s : Map κ ν) (x : MapNode) :
    SameBooks s (s.insertFixupStep side x).1 := by
  simp only [insertFixupStep]
  split
  · exact .refl s
  · split
    · exact rotate_books _ _ _
    · exact rotate_books _ ((s.setBlack _ true).setBlack _ false) _

/-- A pass of the loop goes up the path, or ends at a black parent, and the pairs stay in order. -/
theorem insertFixupStep_spec (h : At s (⟨inner, false, p, w⟩ :: ⟨side, true, g, u⟩ :: path) t)
    (rising : Rising (⟨inner, false, p, w⟩ :: ⟨side, true, g, u⟩ :: path) t) :
    ∃ path' t', At (s.insertFixupStep side (pointer t)).1 path' t' ∧
      (s.insertFixupStep side (pointer t)).2 = pointer t' ∧ Rising path' t' ∧
      (plug path' t').inorder = (plug (⟨inner, false, p, w⟩ :: ⟨side, true, g, u⟩ :: path) t).inorder ∧
      turns path' < turns (⟨inner, false, p, w⟩ :: ⟨side, true, g, u⟩ :: path) := by
  have tNe : t ≠ .leaf := by
    rintro rfl
    cases rising.1
  have hp : s.parent (pointer t) = p.node := h.parent_eq tNe
  have above := At.up.1 h
  have hg : s.parent p.node = g.node := h.hangs.1.parent
  have hu : s.child side.other g.node = pointer u := above.hangs.1.far
  have uncle : s.isBlack (pointer u) = u.rootBlack := (At.across.1 above).isBlack_eq
  have parentBlack : At (s.setBlack p.node true) (⟨side, true, g, u⟩ :: path) (.join inner true t p w) :=
    above.recolour
  simp only [insertFixupStep, hp, hg, hu, uncle]
  have turns_eq (f f' : Frame (MapEntry κ ν)) :
      turns (f :: f' :: path) = path.length + 2 + if f.isBlack ∨ f.side = f'.side then 0 else 1 := rfl
  cases black : u.rootBlack with
  | false =>
      rw [if_pos (by simp)]
      refine ⟨path, _, ?_, ?_, rising.recolour black, ?_, ?_⟩
      · have uncleBlack := (At.across.1 parentBlack).blacken
        rw [At.across, Side.other_other] at uncleBlack
        exact (At.up.1 uncleBlack).recolour
      · rw [pointer_join]
      · refine inorder_plug_congr path ?_
        cases side <;> cases inner <;> simp [Frame.fill, Coloured.join, Coloured.inorder]
      · have := turns_le path
        rw [turns_eq]
        omega
  | true =>
      rw [if_neg (by simp)]
      have test : pointer t = s.child side.other p.node ↔ side.other = inner := h.eq_child_iff (.inl tNe) _
      by_cases isInner : side.other = inner
      · subst isInner
        rw [if_pos (test.2 rfl)]
        obtain ⟨near, a, far, eq⟩ := Coloured.exists_join side tNe
        rw [rising.1] at eq
        subst eq
        rw [Frame.fill, join_other] at above
        refine ⟨_, _, above.rotate.down, ?_, rising.inward, ?_, ?_⟩
        · rw [pointer_join]
        · refine inorder_plug_congr (⟨side, true, g, u⟩ :: path) ?_
          rw [Frame.fill, Frame.fill, join_other]
          exact Coloured.inorder_rotate side false false false false w near far p a
        · rw [turns_eq, turns_eq, if_pos (.inr rfl), if_neg (by simp)]
          omega
      · obtain rfl : side = inner := by
          by_contra differ
          exact isInner (Side.eq_other_of_ne (Ne.symm differ)).symm
        rw [if_neg fun same => isInner (test.1 same)]
        have turned : At ((s.setBlack p.node true).setBlack g.node false) path
            (.join side false (.join side true t p w) g u) := (At.up.1 parentBlack).recolour
        have shape : Coloured.join side false (.join side true t p w) g u =
            .join side.other false u g (.join side.other true w p t) := by
          rw [join_other, join_other]
        rw [shape] at turned
        have rotated := turned.rotate
        rw [join_other] at rotated
        refine ⟨_, _, rotated.down, rfl, rising.outward black, ?_, ?_⟩
        · refine inorder_plug_congr path ?_
          cases side <;> simp [Frame.fill, Coloured.join, Coloured.inorder, Side.other]
        · rw [turns_of_black rfl, turns_eq]
          omega

/-- The loop of `insertNode` makes the tree red-black and leaves the pairs in order. -/
theorem insertFixup_spec {fuel : Nat} (h : At s path t) (rising : Rising path t) (enough : turns path < fuel) :
    ∃ s' T, s.insertFixup fuel (pointer t) = some s' ∧ At s' [] T ∧ IsRedBlack T ∧
      T.inorder = (plug path t).inorder ∧ SameBooks s s' := by
  induction fuel generalizing s path t with
  | zero => omega
  | succ fuel ih =>
      have tNe : t ≠ .leaf := by
        rintro rfl
        cases rising.1
      have atRoot := h.eq_root_iff
      have parent := h.parent_eq tNe
      have whole : At s [] (plug path t) := At.plug_iff.1 (by rwa [List.append_nil])
      unfold insertFixup
      by_cases done : ∀ f ∈ path.head?, f.isBlack = true
      · rw [if_neg]
        · refine ⟨_, _, rfl, ?_, rising.settled done, by simp, .refl s⟩
          rw [whole.root_eq]
          exact whole.blacken
        · rintro ⟨below, red⟩
          cases path with
          | nil => exact below (atRoot.2 rfl)
          | cons f path =>
              have black : s.isBlack f.a.node = true := by rw [h.hangs.1.isBlack, done f rfl]
              rw [parent, parentOf, black] at red
              exact red rfl
      · cases path with
        | nil => simp at done
        | cons f path =>
            obtain ⟨inner, isBlack, p, w⟩ := f
            obtain rfl : isBlack = false := by simpa using done
            obtain ⟨side, g, u, rest, rfl⟩ := rising.grandparent rfl
            have parentRed : s.isBlack p.node = false := h.hangs.1.isBlack
            have grandparent : s.parent p.node = g.node := h.hangs.1.parent
            have sideTest : p.node = s.child .left g.node ↔ .left = side := by
              have test := (At.up.1 h).eq_child_iff (.inl (by cases inner <;> simp [Frame.fill, Coloured.join])) .left
              rwa [Frame.fill, pointer_join] at test
            have chosen : (if p.node = s.left g.node then Side.left else .right) = side := by
              rw [Map.left]
              cases side with
              | left => exact if_pos (sideTest.2 rfl)
              | right => exact if_neg fun same => by simpa using sideTest.1 same
            obtain ⟨path', t', hAt, focus, rising', order, fewer⟩ := insertFixupStep_spec h rising
            obtain ⟨s', T, result, hT, redBlack, order', books⟩ := ih hAt rising' (by omega)
            refine ⟨s', T, ?_, hT, redBlack, order'.trans order, (insertFixupStep_books side s _).trans books⟩
            have below : pointer t ≠ s.root ∧ ¬ s.isBlack (s.parent (pointer t)) = true := by
              constructor
              · intro same
                simpa using atRoot.1 same
              · rw [parent, parentOf, parentRed]
                simp
            rw [if_pos below]
            simp only [parent, parentOf, grandparent, chosen, focus]
            exact result

/-! ## Search -/

section Search

variable (compare : κ → κ → Int)

/-- How a key compares with that of a pair. -/
def against (k : κ) (e : MapEntry κ ν) : Int := compare k e.key

/-- The loop of `findNode` is the search in the tree. -/
theorem findNode_spec (h : At s path t) (k : κ) {fuel : Nat} (enough : t.height < fuel) :
    findNode compare fuel s (pointer t) k = some (pointer (search (against compare k) t path).1) ∧
      At s (search (against compare k) t path).2 (search (against compare k) t path).1 := by
  induction t generalizing path fuel with
  | leaf =>
      obtain ⟨fuel, rfl⟩ := Nat.exists_eq_succ_of_ne_zero (Nat.ne_of_gt enough)
      refine ⟨?_, h⟩
      simp [findNode, pointer, h.nullKey, search]
  | node isBlack left e right ihLeft ihRight =>
      obtain ⟨fuel, rfl⟩ := Nat.exists_eq_succ_of_ne_zero (Nat.ne_of_gt (Nat.zero_lt_of_lt enough))
      have cell := h.subtree.1
      simp only [Coloured.height] at enough
      have leftAt : At s (⟨.left, isBlack, e, right⟩ :: path) left := At.up.2 h
      have rightAt : At s (⟨.right, isBlack, e, left⟩ :: path) right := At.up.2 h
      have leftEnough : left.height < fuel := by omega
      have rightEnough : right.height < fuel := by omega
      have step : findNode compare (fuel + 1) s (pointer (.node isBlack left e right)) k =
          if 0 = compare k e.key then some e.node
          else if 0 < compare k e.key then findNode compare fuel s (pointer right) k
          else findNode compare fuel s (pointer left) k := by
        have near : s.left e.node = pointer left := cell.near
        have far : s.right e.node = pointer right := cell.far
        simp only [findNode, pointer, cell.key, near, far]
      rw [step]
      rcases Int.lt_trichotomy (compare k e.key) 0 with negative | zero | positive
      · rw [search_left (f := against compare k) negative, if_neg (by omega), if_neg (by omega)]
        exact ihLeft leftAt leftEnough
      · rw [search_here (f := against compare k) zero, if_pos zero.symm]
        exact ⟨rfl, h⟩
      · rw [search_right (f := against compare k) positive, if_neg (by omega), if_pos positive]
        exact ihRight rightAt rightEnough

/-- The first loop of `insertNode` is the search in the tree too: it fails at a node, and at a leaf it
leaves the parent and a comparison that says the side. -/
theorem findPlace_spec (h : At s path t) (k : κ) {fuel : Nat} (enough : t.height < fuel) {result : Int}
    (said : ∀ f ∈ path.head?, 0 ≥ result ↔ f.side = .left) :
    ((search (against compare k) t path).1 ≠ .leaf ∧
      findPlace compare fuel s k (parentOf path) (pointer t) result = some none) ∨
    ((search (against compare k) t path).1 = .leaf ∧ ∃ result',
      findPlace compare fuel s k (parentOf path) (pointer t) result =
        some (some (parentOf (search (against compare k) t path).2, result')) ∧
      ∀ f ∈ (search (against compare k) t path).2.head?, 0 ≥ result' ↔ f.side = .left) := by
  induction t generalizing path fuel result with
  | leaf =>
      obtain ⟨fuel, rfl⟩ := Nat.exists_eq_succ_of_ne_zero (Nat.ne_of_gt enough)
      refine .inr ⟨rfl, result, ?_, said⟩
      simp [findPlace, pointer, h.nullKey, search]
  | node isBlack left e right ihLeft ihRight =>
      obtain ⟨fuel, rfl⟩ := Nat.exists_eq_succ_of_ne_zero (Nat.ne_of_gt (Nat.zero_lt_of_lt enough))
      have cell := h.subtree.1
      simp only [Coloured.height] at enough
      have leftAt : At s (⟨.left, isBlack, e, right⟩ :: path) left := At.up.2 h
      have rightAt : At s (⟨.right, isBlack, e, left⟩ :: path) right := At.up.2 h
      have leftEnough : left.height < fuel := by omega
      have rightEnough : right.height < fuel := by omega
      have step : findPlace compare (fuel + 1) s k (parentOf path) (pointer (.node isBlack left e right)) result =
          if 0 > compare k e.key then findPlace compare fuel s k e.node (pointer left) (compare k e.key)
          else if 0 < compare k e.key then findPlace compare fuel s k e.node (pointer right) (compare k e.key)
          else some none := by
        have near : s.left e.node = pointer left := cell.near
        have far : s.right e.node = pointer right := cell.far
        simp only [findPlace, pointer, cell.key, near, far]
      rw [step]
      rcases Int.lt_trichotomy (compare k e.key) 0 with negative | zero | positive
      · rw [search_left (f := against compare k) negative, if_pos negative]
        refine ihLeft leftAt leftEnough fun f first => ?_
        obtain rfl : _ = f := Option.some.inj first
        simp only [iff_true]
        omega
      · rw [search_here (f := against compare k) zero, if_neg (by omega), if_neg (by omega)]
        exact .inl ⟨by simp, rfl⟩
      · rw [search_right (f := against compare k) positive, if_neg (by omega), if_pos positive]
        refine ihRight rightAt rightEnough fun f first => ?_
        obtain rfl : _ = f := Option.some.inj first
        simp
        omega

end Search

/-! ## A new node -/

theorem At.construct {z : MapNode} (h : At s path t) (fresh : z ∉ nodes (plug path t)) (ne : z ≠ mapSentinel)
    (k : κ) (v : Option ν) : At (s.construct z k v) path t := by
  have same : ∀ x, x ∈ nodes (plug path t) → SameAt s (s.construct z k v) x := by
    intro x member
    have xz : x ≠ z := fun same => fresh (same ▸ member)
    exact ⟨if_neg xz, if_neg xz, if_neg xz, if_neg xz, fun _ => if_neg xz⟩
  have split := nodes_plug_perm path t
  refine ⟨h.subtree.congr fun x member => same x ?_, h.hangs.congr rfl fun x member => same x ?_, h.nodup, ?_, ?_⟩
  · exact split.mem_iff.2 (List.mem_append_left _ member)
  · exact split.mem_iff.2 (List.mem_append_right _ member)
  · exact (if_neg ne.symm).trans h.nullKey
  · exact (if_neg ne.symm).trans h.nullBlack

section Hang

variable {x y z : MapNode} {result : Int}

/-- `hang` changes links and the size only. -/
theorem hang_fields (s : Map κ ν) (z y : MapNode) (result : Int) : (s.hang z y result).key = s.key ∧ (s.hang z y result).value = s.value ∧
    (s.hang z y result).isBlack = s.isBlack ∧ (s.hang z y result).parent = (s.setParent z y).parent ∧
    (s.hang z y result).root = (if mapSentinel = y then z else s.root) ∧
    SameBooks { s with size := s.size + 1 } (s.hang z y result) := by
  unfold hang
  dsimp only
  split
  · exact ⟨rfl, rfl, rfl, rfl, rfl, rfl, rfl, rfl⟩
  · split <;> exact ⟨rfl, rfl, rfl, rfl, rfl, rfl, rfl, rfl⟩

theorem hang_child (apart : y ≠ z) (xy : x ≠ y) (d : Side) :
    (s.hang z y result).child d x = if x = z then mapSentinel else s.child d x := by
  simp only [Map.hang, setParent, setChild]
  split
  · cases d <;> by_cases same : x = z <;> simp [same]
  · split <;> cases d <;> by_cases same : x = z <;> simp [same, xy, apart.symm]

/-- The parent of the new node has it on the side that the last comparison says. -/
theorem hang_child_parent (apart : y ≠ z) (below : mapSentinel ≠ y) {side : Side}
    (said : 0 ≥ result ↔ side = .left) (d : Side) :
    (s.hang z y result).child d y = if d = side then z else s.child d y := by
  simp only [Map.hang, setParent, setChild, if_neg below]
  cases side with
  | left =>
      rw [if_pos (said.2 rfl)]
      cases d <;> simp [apart]
  | right =>
      rw [if_neg fun most => by simpa using said.1 most]
      cases d <;> simp [apart]

end Hang

/-- A red node without children fills the hole. -/
theorem At.hang (h : At s path .leaf) (ne : e.node ≠ mapSentinel) (fresh : e.node ∉ around path)
    (key : s.key e.node = some e.key) (value : s.value e.node = e.value) {result : Int}
    (said : ∀ f ∈ path.head?, 0 ≥ result ↔ f.side = .left) :
    At ((s.hang e.node (parentOf path) result).setBlack e.node false) path (.node false .leaf e .leaf) := by
  have apart : parentOf path ≠ e.node := (ne_parentOf ne fresh).symm
  obtain ⟨keys, values, isBlack, parents, root, -⟩ := hang_fields s e.node (parentOf path) result
  refine ⟨⟨⟨ne, ?_, ?_, if_pos rfl, ?_, ?_, ?_⟩, trivial, trivial⟩, ?_, ?_, ?_, ?_⟩
  · exact (congrFun keys _).trans key
  · exact (congrFun values _).trans value
  · exact (congrFun parents _).trans (if_pos rfl)
  · exact (hang_child apart apart.symm _).trans (if_pos rfl)
  · exact (hang_child apart apart.symm _).trans (if_pos rfl)
  · refine h.hangs.relinked (List.nodup_append.1 h.nodup_parts).2.1 ?_ ?_ ?_ ?_
    · rintro rfl
      exact root.trans (if_pos rfl)
    · intro below
      cases path with
      | nil => exact absurd rfl below
      | cons f path => exact root.trans (if_neg h.hangs.1.ne.symm)
    · intro f first
      cases path with
      | nil => cases first
      | cons f' path =>
          obtain rfl : f' = f := by simpa using first
          refine ⟨congrFun keys _, congrFun values _, ?_, ?_, fun d => ?_⟩
          · exact (if_neg apart).trans (congrFun isBlack _)
          · exact (congrFun parents _).trans (if_neg apart)
          · refine (hang_child_parent apart h.hangs.1.ne.symm (said f' rfl) d).trans ?_
            simp [setChild, pointer, parentOf]
    · intro x member xp
      have xz : x ≠ e.node := fun same => fresh (same ▸ member)
      refine ⟨congrFun keys _, congrFun values _, ?_, ?_, fun d => ?_⟩
      · exact (if_neg xz).trans (congrFun isBlack _)
      · exact (congrFun parents _).trans (if_neg xz)
      · exact (hang_child apart xp d).trans (if_neg xz)
  · refine (nodes_plug_perm _ _).nodup_iff.2 (List.nodup_cons.2 ⟨fresh, ?_⟩)
    exact (List.nodup_append.1 h.nodup_parts).2.1
  · exact (congrFun keys _).trans h.nullKey
  · exact (if_neg ne.symm).trans ((congrFun isBlack _).trans h.nullBlack)

/-! ## `insertNode` -/

variable (compare : κ → κ → Int)

/-- A key that is not in the tree gets in, between the smaller and the larger ones; one that is in the
tree leaves the map as it is. -/
theorem insertNode_spec (h : At s [] t) (redBlack : IsRedBlack t) (ne : e.node ≠ mapSentinel)
    (fresh : e.node ∉ nodes t) (key : s.key e.node = some e.key) (value : s.value e.node = e.value)
    (cut : Cut (against compare e.key) t.inorder) {fuel : Nat} (enough : t.inorder.length + 2 < fuel) :
    (∃ a ∈ t.inorder, compare e.key a.key = 0 ∧ insertNode compare fuel s e.node e.key = some (false, s)) ∨
    ((∀ a ∈ t.inorder, compare e.key a.key ≠ 0) ∧ ∃ s' T,
      insertNode compare fuel s e.node e.key = some (true, s') ∧ At s' [] T ∧ IsRedBlack T ∧
      T.inorder = t.inorder.filter (fun a => 0 < compare e.key a.key) ++
        e :: t.inorder.filter (fun a => compare e.key a.key < 0) ∧
      SameBooks { s with size := s.size + 1 } s') := by
  have low := t.height_le_length
  have fits : t.height < fuel := by omega
  have said : ∀ f ∈ ([] : List (Frame (MapEntry κ ν))).head?, 0 ≥ (0 : Int) ↔ f.side = .left := by simp
  have place := findPlace_spec compare h e.key fits said
  have whole := plug_search (against compare e.key) t []
  obtain ⟨-, there⟩ := findNode_spec compare h e.key fits
  rw [← h.root_eq, parentOf] at place
  rcases place with ⟨found, stops⟩ | ⟨missing, result, goes, said⟩
  · left
    obtain ⟨left, a, right, eq⟩ := Coloured.exists_join .left found
    have zero : compare e.key a.key = 0 := search_eq_node (f := against compare e.key) eq
    refine ⟨a, ?_, zero, ?_⟩
    · rw [← show plug [] t = t from rfl, ← whole, inorder_plug, eq]
      simp [Coloured.inorder, Coloured.join]
    · simp [insertNode, stops]
  · right
    obtain ⟨lower, upper, nonzero⟩ := search_leaf cut missing
    rw [missing] at there whole
    have around : e.node ∉ around (search (against compare e.key) t []).2 := by
      rw [Map.around, whole]
      exact fresh
    have hung := there.hang ne around key value said
    have rising : Rising (search (against compare e.key) t []).2 (.node false .leaf e .leaf) := by
      have balanced := redBlack
      rw [← show plug [] t = t from rfl, ← whole] at balanced
      obtain ⟨n, rfl, fits⟩ := redBlack_plug.1 balanced
      exact ⟨rfl, 0, ⟨0, rfl, rfl, rfl, by simp [Coloured.rootBlack]⟩, fits⟩
    have short : turns (search (against compare e.key) t []).2 < fuel := by
      have length := length_path_le (search (against compare e.key) t []).2 .leaf
      rw [whole, plug] at length
      have := turns_le (search (against compare e.key) t []).2
      omega
    obtain ⟨s', T, result', hT, redBlackT, order, books⟩ := insertFixup_spec hung rising short
    obtain ⟨-, -, -, -, -, hangBooks⟩ :=
      hang_fields s e.node (parentOf (search (against compare e.key) t []).2) result
    refine ⟨nonzero, s', T, ?_, hT, redBlackT, ?_, ⟨books.size.trans hangBooks.size,
      books.allocated.trans hangBooks.allocated, books.deallocated.trans hangBooks.deallocated⟩⟩
    · simp only [pointer] at result'
      simp [insertNode, goes, result']
    · rw [order, inorder_plug, lower, upper]
      rfl

end Map

end Everscale
