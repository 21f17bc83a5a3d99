/-
# Theory.RedBlack -- red-black trees, taken apart at a node

A coloured tree is looked at from one of its nodes: the subtree that hangs there, and the path of
frames from there up to the root (`plug` puts the two together).  `Balanced t n` says that no red node
of `t` has a red child and that every way down meets `n` black nodes; `Fits path n isBlack` says what
the path asks of the subtree below it, so a whole tree is red-black exactly if the two agree
(`redBlack_plug`).

An insertion leaves a red node that may have a red parent (`Rising`), a removal a subtree that is one
black node short (`Sinking`); `Rising.recolour` to `Rising.outward` and `Sinking.lift` to `Sinking.outward`
are the moves that push either up the path or end it.  A rotation leaves the elements in order
(`inorder_rotate`), and the height is at most twice the logarithm (`IsRedBlack.height_le`).
-/
import Everscale.Theory.SortedTable
import Mathlib.Algebra.Group.Nat.Defs
import Mathlib.Data.Nat.Log
import Mathlib.Tactic.Common

namespace Everscale.Theory.RedBlack

set_option autoImplicit false

open SortedTable (Cut)

variable {α β : Type*}

inductive Side where
  | left
  | right
  deriving DecidableEq, Repr

def Side.other : Side → Side
  | .left => .right
  | .right => .left

@[simp] theorem Side.other_other (side : Side) : side.other.other = side := by cases side <;> rfl

theorem Side.eq_other_of_ne {side side' : Side} (ne : side ≠ side') : side = side'.other := by
  cases side <;> cases side' <;> simp_all [Side.other]

@[simp] theorem Side.ne_other (side : Side) : side ≠ side.other := by cases side <;> simp [Side.other]

@[simp] theorem Side.other_ne (side : Side) : side.other ≠ side := by cases side <;> simp [Side.other]

inductive Coloured (α : Type*) where
  | leaf
  | node (isBlack : Bool) (left : Coloured α) (a : α) (right : Coloured α)
  deriving DecidableEq, Repr

namespace Coloured

/-- A node with the subtree on a side, its element, and the subtree on the other side. -/
def join (side : Side) (isBlack : Bool) (near : Coloured α) (a : α) (far : Coloured α) : Coloured α :=
  match side with
  | .left => .node isBlack near a far
  | .right => .node isBlack far a near

/-- A leaf is black. -/
def rootBlack : Coloured α → Bool
  | .leaf => true
  | .node isBlack _ _ _ => isBlack

def blacken : Coloured α → Coloured α
  | .leaf => .leaf
  | .node _ left a right => .node true left a right

def inorder : Coloured α → List α
  | .leaf => []
  | .node _ left a right => left.inorder ++ a :: right.inorder

def child : Side → Coloured α → Coloured α
  | _, .leaf => .leaf
  | .left, .node _ left _ _ => left
  | .right, .node _ _ _ right => right

def height : Coloured α → Nat
  | .leaf => 0
  | .node _ left _ right => max left.height right.height + 1

@[simp] theorem rootBlack_join (side : Side) (isBlack : Bool) (near : Coloured α) (a : α) (far : Coloured α) :
    (join side isBlack near a far).rootBlack = isBlack := by cases side <;> rfl

theorem height_join (side : Side) (isBlack : Bool) (near : Coloured α) (a : α) (far : Coloured α) :
    (join side isBlack near a far).height = max near.height far.height + 1 := by
  cases side
  · rfl
  · exact congrArg (· + 1) (Nat.max_comm _ _)

@[simp] theorem join_ne_leaf (side : Side) (isBlack : Bool) (near : Coloured α) (a : α) (far : Coloured α) :
    join side isBlack near a far ≠ .leaf := by cases side <;> simp [join]

@[simp] theorem child_join (side : Side) (isBlack : Bool) (near : Coloured α) (a : α) (far : Coloured α) :
    (join side isBlack near a far).child side = near := by cases side <;> rfl

@[simp] theorem child_other_join (side : Side) (isBlack : Bool) (near : Coloured α) (a : α) (far : Coloured α) :
    (join side isBlack near a far).child side.other = far := by cases side <;> rfl

@[simp] theorem rootBlack_blacken (t : Coloured α) : t.blacken.rootBlack = true := by cases t <;> rfl

@[simp] theorem blacken_join (side : Side) (isBlack : Bool) (near : Coloured α) (a : α) (far : Coloured α) :
    (join side isBlack near a far).blacken = join side true near a far := by cases side <;> rfl

theorem blacken_of_rootBlack {t : Coloured α} (black : t.rootBlack = true) : t.blacken = t := by
  cases t with
  | leaf => rfl
  | node isBlack left a right =>
      obtain rfl : isBlack = true := black
      rfl

@[simp] theorem inorder_blacken (t : Coloured α) : t.blacken.inorder = t.inorder := by cases t <;> rfl

@[simp] theorem inorder_eq_nil {t : Coloured α} : t.inorder = [] ↔ t = .leaf := by
  cases t <;> simp [inorder]

theorem height_le_length (t : Coloured α) : t.height ≤ t.inorder.length := by
  induction t with
  | leaf => exact Nat.le_refl 0
  | node isBlack left a right ihLeft ihRight =>
      simp only [height, inorder, List.length_append, List.length_cons]
      omega

/-- The elements do not move when a child takes the place of its parent. -/
theorem inorder_rotate (side : Side) (b b' c c' : Bool) (near mid far : Coloured α) (x y : α) :
    (join side c' (join side c near x mid) y far).inorder =
      (join side b near x (join side b' mid y far)).inorder := by
  cases side <;> simp [join, inorder]

/-- A tree with an element is a node, seen from any side. -/
theorem exists_join (side : Side) {t : Coloured α} (ne : t ≠ .leaf) :
    ∃ near a far, t = join side t.rootBlack near a far := by
  cases t with
  | leaf => exact absurd rfl ne
  | node isBlack left a right =>
      cases side
      · exact ⟨left, a, right, rfl⟩
      · exact ⟨right, a, left, rfl⟩

end Coloured

open Coloured

/-! ## Paths -/

/-- A node on the way up: the side the hole is on, and what is not in the hole. -/
structure Frame (α : Type*) where
  side : Side
  isBlack : Bool
  a : α
  sibling : Coloured α

def Frame.fill (f : Frame α) (t : Coloured α) : Coloured α := join f.side f.isBlack t f.a f.sibling

/-- The whole tree, from the subtree in the hole and the frames above it, the nearest one first. -/
def plug : List (Frame α) → Coloured α → Coloured α
  | [], t => t
  | f :: path, t => plug path (f.fill t)

@[simp] theorem plug_append (inner outer : List (Frame α)) (t : Coloured α) :
    plug (inner ++ outer) t = plug outer (plug inner t) := by
  induction inner generalizing t with
  | nil => rfl
  | cons f inner ih => exact ih _

theorem plug_ne_leaf {f : Frame α} {path : List (Frame α)} {t : Coloured α} : plug (f :: path) t ≠ .leaf := by
  induction path generalizing f t with
  | nil => exact join_ne_leaf _ _ _ _ _
  | cons f' path ih => exact ih

/-- What stands before the hole. -/
def before : List (Frame α) → List α
  | [] => []
  | f :: path =>
      match f.side with
      | .left => before path
      | .right => before path ++ (f.sibling.inorder ++ [f.a])

/-- What stands behind the hole. -/
def after : List (Frame α) → List α
  | [] => []
  | f :: path =>
      match f.side with
      | .left => f.a :: f.sibling.inorder ++ after path
      | .right => after path

theorem inorder_plug (path : List (Frame α)) (t : Coloured α) :
    (plug path t).inorder = before path ++ (t.inorder ++ after path) := by
  induction path generalizing t with
  | nil => simp [plug, before, after]
  | cons f path ih =>
      obtain ⟨side, isBlack, a, sibling⟩ := f
      cases side <;> simp [plug, before, after, ih, Frame.fill, join, inorder]

theorem inorder_plug_congr (path : List (Frame α)) {t u : Coloured α} (same : t.inorder = u.inorder) :
    (plug path t).inorder = (plug path u).inorder := by
  rw [inorder_plug, inorder_plug, same]

theorem after_cons_left (isBlack : Bool) (a : α) (sibling : Coloured α) (path : List (Frame α)) :
    after (⟨.left, isBlack, a, sibling⟩ :: path) = a :: sibling.inorder ++ after path := rfl

theorem before_cons_right (isBlack : Bool) (a : α) (sibling : Coloured α) (path : List (Frame α)) :
    before (⟨.right, isBlack, a, sibling⟩ :: path) = before path ++ (sibling.inorder ++ [a]) := rfl

theorem after_cons_right (isBlack : Bool) (a : α) (sibling : Coloured α) (path : List (Frame α)) :
    after (⟨.right, isBlack, a, sibling⟩ :: path) = after path := rfl

theorem length_path_le (path : List (Frame α)) (t : Coloured α) :
    path.length ≤ (plug path t).inorder.length := by
  induction path generalizing t with
  | nil => exact Nat.zero_le _
  | cons f path ih =>
      obtain ⟨side, isBlack, a, sibling⟩ := f
      rw [inorder_plug]
      have rest := ih Coloured.leaf
      rw [inorder_plug] at rest
      cases side <;> simp [before, after, inorder] at rest ⊢ <;> omega

theorem before_eq_nil {path : List (Frame α)} (all : ∀ f ∈ path, f.side = .left) : before path = [] := by
  induction path with
  | nil => rfl
  | cons f path ih =>
      obtain ⟨side, isBlack, a, sibling⟩ := f
      obtain rfl : side = .left := all _ (.head _)
      exact ih fun g member => all g (.tail _ member)

/-! ## Walks -/

/-- The elements as a walk to the side meets them. -/
def walk (side : Side) (t : Coloured α) : List α :=
  match side with
  | .left => t.inorder.reverse
  | .right => t.inorder

/-- What a walk to the side meets after the hole. -/
def beyond (side : Side) (path : List (Frame α)) : List α :=
  match side with
  | .left => (before path).reverse
  | .right => after path

theorem walk_join (side : Side) (isBlack : Bool) (far : Coloured α) (a : α) (near : Coloured α) :
    walk side (join side isBlack far a near) = walk side near ++ a :: walk side far := by
  cases side <;> simp [walk, join, inorder]

theorem exists_walk_plug (side : Side) (path : List (Frame α)) (t : Coloured α) :
    ∃ met, walk side (plug path t) = met ++ (walk side t ++ beyond side path) := by
  cases side
  · exact ⟨(after path).reverse, by simp [walk, beyond, inorder_plug]⟩
  · exact ⟨before path, by simp [walk, beyond, inorder_plug]⟩

theorem beyond_same (side : Side) (isBlack : Bool) (a : α) (sibling : Coloured α) (path : List (Frame α)) :
    beyond side (⟨side, isBlack, a, sibling⟩ :: path) = beyond side path := by
  cases side <;> rfl

theorem beyond_other (side : Side) (isBlack : Bool) (a : α) (sibling : Coloured α) (path : List (Frame α)) :
    beyond side (⟨side.other, isBlack, a, sibling⟩ :: path) = a :: (walk side sibling ++ beyond side path) := by
  cases side
  · simp [beyond, walk, Side.other, before]
  · simp [beyond, walk, Side.other, after]

/-- A walk to the side starts at the last node on the other side. -/
theorem walk_extreme {side : Side} {path : List (Frame α)} (all : ∀ f ∈ path, f.side = side.other)
    (isBlack : Bool) (a : α) (far : Coloured α) :
    (walk side (plug path (join side.other isBlack .leaf a far))).head? = some a := by
  cases side with
  | left =>
      have none : after path = [] := by
        induction path with
        | nil => rfl
        | cons f path ih =>
            obtain ⟨side, isBlack, a, sibling⟩ := f
            obtain rfl : side = .right := all _ (.head _)
            exact ih fun g member => all g (.tail _ member)
      simp [walk, inorder_plug, none, Side.other, join, inorder]
  | right =>
      have none : before path = [] := before_eq_nil all
      simp [walk, inorder_plug, none, Side.other, join, inorder]

/-! ## Balance -/

/-- No red node has a red child, and every way down meets `n` black nodes. -/
def Balanced : Coloured α → Nat → Prop
  | .leaf, n => n = 0
  | .node isBlack left _ right, n =>
      ∃ m, n = m + isBlack.toNat ∧ Balanced left m ∧ Balanced right m ∧
        (isBlack = false → left.rootBlack = true ∧ right.rootBlack = true)

/-- Balanced but for the colour of the root. -/
def Loose : Coloured α → Nat → Prop
  | .leaf, n => n = 0
  | .node isBlack left _ right, n => ∃ m, n = m + isBlack.toNat ∧ Balanced left m ∧ Balanced right m

/-- The tree is balanced and its root is black. -/
def IsRedBlack (t : Coloured α) : Prop := t.rootBlack = true ∧ ∃ n, Balanced t n

/-- What a path asks of the subtree in its hole: `n` black nodes on every way down, and a root of the
colour. -/
def Fits : List (Frame α) → Nat → Bool → Prop
  | [], _, isBlack => isBlack = true
  | f :: path, n, isBlack =>
      Balanced f.sibling n ∧ (f.isBlack = false → isBlack = true ∧ f.sibling.rootBlack = true) ∧
        Fits path (n + f.isBlack.toNat) f.isBlack

variable {path : List (Frame α)} {t near mid far u w : Coloured α} {n : Nat} {side inner : Side}
  {isBlack colour : Bool} {a p g c e e' : α}

theorem balanced_join : Balanced (join side isBlack near a far) n ↔
    ∃ m, n = m + isBlack.toNat ∧ Balanced near m ∧ Balanced far m ∧
      (isBlack = false → near.rootBlack = true ∧ far.rootBlack = true) := by
  cases side with
  | left => rfl
  | right =>
      constructor
      · rintro ⟨m, eq, farBalanced, nearBalanced, colours⟩
        exact ⟨m, eq, nearBalanced, farBalanced, fun red => (colours red).symm⟩
      · rintro ⟨m, eq, nearBalanced, farBalanced, colours⟩
        exact ⟨m, eq, farBalanced, nearBalanced, fun red => (colours red).symm⟩

theorem loose_join : Loose (join side isBlack near a far) n ↔
    ∃ m, n = m + isBlack.toNat ∧ Balanced near m ∧ Balanced far m := by
  cases side with
  | left => rfl
  | right =>
      constructor
      · rintro ⟨m, eq, farBalanced, nearBalanced⟩
        exact ⟨m, eq, nearBalanced, farBalanced⟩
      · rintro ⟨m, eq, nearBalanced, farBalanced⟩
        exact ⟨m, eq, farBalanced, nearBalanced⟩

/-- Under a red node there is as much black on either side, and no red root. -/
theorem balanced_red : Balanced (join side false near a far) n ↔
    Balanced near n ∧ Balanced far n ∧ near.rootBlack = true ∧ far.rootBlack = true := by
  rw [balanced_join]
  constructor
  · rintro ⟨m, rfl, nearBalanced, farBalanced, colours⟩
    exact ⟨nearBalanced, farBalanced, colours rfl⟩
  · rintro ⟨nearBalanced, farBalanced, colours⟩
    exact ⟨n, rfl, nearBalanced, farBalanced, fun _ => colours⟩

theorem balanced_black : Balanced (join side true near a far) (n + 1) ↔
    Balanced near n ∧ Balanced far n := by
  rw [balanced_join]
  constructor
  · rintro ⟨m, eq, nearBalanced, farBalanced, -⟩
    obtain rfl : n = m := Nat.succ.inj eq
    exact ⟨nearBalanced, farBalanced⟩
  · rintro ⟨nearBalanced, farBalanced⟩
    exact ⟨n, rfl, nearBalanced, farBalanced, by simp⟩

theorem Balanced.loose (balanced : Balanced t n) : Loose t n := by
  cases t with
  | leaf => exact balanced
  | node isBlack left a right =>
      obtain ⟨m, eq, leftBalanced, rightBalanced, -⟩ := balanced
      exact ⟨m, eq, leftBalanced, rightBalanced⟩

theorem Loose.balanced (loose : Loose t n) (black : t.rootBlack = true) : Balanced t n := by
  cases t with
  | leaf => exact loose
  | node isBlack left a right =>
      obtain ⟨m, eq, leftBalanced, rightBalanced⟩ := loose
      obtain rfl : isBlack = true := black
      exact ⟨m, eq, leftBalanced, rightBalanced, by simp⟩

/-- A red root made black adds one black node to every way down. -/
theorem Loose.blacken (loose : Loose t n) :
    Balanced t.blacken (n + if t.rootBlack then 0 else 1) := by
  cases t with
  | leaf => exact loose
  | node isBlack left a right =>
      obtain ⟨m, rfl, leftBalanced, rightBalanced⟩ := loose
      refine ⟨m, ?_, leftBalanced, rightBalanced, by simp⟩
      cases isBlack <;> rfl

/-- A tree with a black node on every way down is not a leaf. -/
theorem Balanced.ne_leaf (balanced : Balanced t (n + 1)) : t ≠ .leaf := by
  rintro rfl
  exact Nat.succ_ne_zero n balanced

theorem redBlack_plug : IsRedBlack (plug path t) ↔ ∃ n, Balanced t n ∧ Fits path n t.rootBlack := by
  induction path generalizing t with
  | nil =>
      constructor
      · rintro ⟨black, n, balanced⟩
        exact ⟨n, balanced, black⟩
      · rintro ⟨n, balanced, black⟩
        exact ⟨black, n, balanced⟩
  | cons f path ih =>
      rw [plug, ih]
      constructor
      · rintro ⟨n, balanced, fits⟩
        obtain ⟨m, rfl, holeBalanced, siblingBalanced, colours⟩ := balanced_join.1 balanced
        rw [Frame.fill, rootBlack_join] at fits
        exact ⟨m, holeBalanced, siblingBalanced, colours, fits⟩
      · rintro ⟨n, balanced, siblingBalanced, colours, fits⟩
        refine ⟨n + f.isBlack.toNat, balanced_join.2 ⟨n, rfl, balanced, siblingBalanced, colours⟩, ?_⟩
        rw [Frame.fill, rootBlack_join]
        exact fits

/-- A path that takes a red root takes a black one. -/
theorem Fits.black (fits : Fits path n isBlack) : Fits path n true := by
  cases path with
  | nil => rfl
  | cons f path =>
      obtain ⟨sibling, colours, rest⟩ := fits
      exact ⟨sibling, fun red => ⟨rfl, (colours red).2⟩, rest⟩

/-- Under a black node either colour will do. -/
theorem Fits.any {f : Frame α} (fits : Fits (f :: path) n true) (black : f.isBlack = true)
    (isBlack : Bool) : Fits (f :: path) n isBlack :=
  ⟨fits.1, by simp [black], fits.2.2⟩

/-- A path does not care which elements its nodes hold. -/
theorem fits_relabel {inners : List (Frame α)} :
    Fits (inners ++ ⟨side, isBlack, e, u⟩ :: path) n colour ↔
      Fits (inners ++ ⟨side, isBlack, e', u⟩ :: path) n colour := by
  induction inners generalizing n colour with
  | nil => exact Iff.rfl
  | cons f inners ih => simp only [List.cons_append, Fits, ih]

/-! ## A red node that may have a red parent -/

/-- The subtree is balanced under a red root, and only its parent's colour may be amiss. -/
def Rising (path : List (Frame α)) (t : Coloured α) : Prop :=
  t.rootBlack = false ∧ ∃ n, Balanced t n ∧ Fits path n true

namespace Rising

/-- Under the root, or under a black node, nothing is amiss once the root is black. -/
theorem settled (rising : Rising path t) (done : ∀ f ∈ path.head?, f.isBlack = true) :
    IsRedBlack (plug path t).blacken := by
  obtain ⟨red, n, balanced, fits⟩ := rising
  cases path with
  | nil => exact ⟨rootBlack_blacken t, _, balanced.loose.blacken⟩
  | cons f path =>
      have black : f.isBlack = true := done f rfl
      have whole := redBlack_plug.2 ⟨n, balanced, fits.any black t.rootBlack⟩
      rwa [blacken_of_rootBlack whole.1]

/-- A red parent is not the root, and its own parent is black. -/
theorem grandparent {f : Frame α} (rising : Rising (f :: path) t) (red : f.isBlack = false) :
    ∃ side g u rest, path = ⟨side, true, g, u⟩ :: rest := by
  obtain ⟨-, n, -, -, -, fits⟩ := rising
  rw [red] at fits
  cases path with
  | nil => cases fits
  | cons f' rest =>
      obtain ⟨side, isBlack, g, u⟩ := f'
      obtain ⟨-, colours, -⟩ := fits
      cases isBlack with
      | true => exact ⟨side, g, u, rest, rfl⟩
      | false => cases (colours rfl).1

/-- Parent and uncle are red: both become black, the grandparent red. -/
theorem recolour (rising : Rising (⟨inner, false, p, w⟩ :: ⟨side, true, g, u⟩ :: path) t)
    (uncle : u.rootBlack = false) :
    Rising path (join side false (join inner true t p w) g u.blacken) := by
  obtain ⟨-, n, balanced, wBalanced, -, uBalanced, -, fits⟩ := rising
  refine ⟨rootBlack_join .., n + 1, balanced_red.2 ⟨?_, ?_, by simp, by simp⟩, fits⟩
  · exact balanced_black.2 ⟨balanced, wBalanced⟩
  · have blackened := uBalanced.loose.blacken
    rwa [uncle] at blackened

/-- The node is the inner grandchild: it changes places with its parent. -/
theorem inward
    (rising : Rising (⟨side.other, false, p, w⟩ :: ⟨side, true, g, u⟩ :: path) (join side false near a far)) :
    Rising (⟨side, false, a, far⟩ :: ⟨side, true, g, u⟩ :: path) (join side false w p near) := by
  obtain ⟨-, n, balanced, wBalanced, colours, fits⟩ := rising
  obtain ⟨nearBalanced, farBalanced, nearBlack, farBlack⟩ := balanced_red.1 balanced
  have wBlack : w.rootBlack = true := (colours rfl).2
  refine ⟨rootBlack_join .., n, balanced_red.2 ⟨wBalanced, nearBalanced, wBlack, nearBlack⟩, ?_⟩
  exact ⟨farBalanced, fun _ => ⟨rfl, farBlack⟩, fits⟩

/-- The node is the outer grandchild: its parent goes above its grandparent, and all is well. -/
theorem outward (rising : Rising (⟨side, false, p, w⟩ :: ⟨side, true, g, u⟩ :: path) t)
    (uncle : u.rootBlack = true) :
    Rising (⟨side, true, p, join side.other false u g w⟩ :: path) t := by
  obtain ⟨red, n, balanced, wBalanced, colours, uBalanced, -, fits⟩ := rising
  have wBlack : w.rootBlack = true := (colours rfl).2
  exact ⟨red, n, balanced, balanced_red.2 ⟨uBalanced, wBalanced, uncle, wBlack⟩, by simp, fits⟩

end Rising

/-! ## A subtree that is one black node short -/

/-- The subtree is balanced but for the colour of its root, and one black node short. -/
def Sinking (path : List (Frame α)) (t : Coloured α) : Prop :=
  ∃ n, Loose t n ∧ Fits path (n + 1) true

namespace Sinking

/-- At the root, or with a red root, it is enough to make the root of the subtree black. -/
theorem settled (sinking : Sinking path t) (done : path = [] ∨ t.rootBlack = false) :
    IsRedBlack (plug path t.blacken) := by
  obtain ⟨n, loose, fits⟩ := sinking
  have blackened := loose.blacken
  rcases done with rfl | red
  · exact ⟨rootBlack_blacken t, _, blackened⟩
  · rw [red] at blackened
    refine redBlack_plug.2 ⟨n + 1, blackened, ?_⟩
    rwa [rootBlack_blacken]

/-- The sibling of a subtree that is short is not a leaf. -/
theorem sibling {f : Frame α} (sinking : Sinking (f :: path) t) (side : Side) :
    ∃ near c far, f.sibling = join side f.sibling.rootBlack near c far := by
  obtain ⟨n, -, siblingBalanced, -⟩ := sinking
  exact exists_join side siblingBalanced.ne_leaf

/-- A red sibling goes above the parent, and a black one comes in its place. -/
theorem turn (sinking : Sinking (⟨side, isBlack, p, join side false near c far⟩ :: path) t) :
    isBlack = true ∧ near.rootBlack = true ∧
      Sinking (⟨side, false, p, near⟩ :: ⟨side, true, c, far⟩ :: path) t := by
  obtain ⟨n, loose, siblingBalanced, colours, fits⟩ := sinking
  obtain ⟨nearBalanced, farBalanced, nearBlack, farBlack⟩ := balanced_red.1 siblingBalanced
  cases isBlack with
  | false =>
      have black := (colours rfl).2
      rw [rootBlack_join] at black
      cases black
  | true =>
      exact ⟨rfl, nearBlack, n, loose, nearBalanced, fun _ => ⟨rfl, nearBlack⟩, farBalanced, by simp, fits⟩

/-- A black sibling with black children becomes red, and the parent is short instead. -/
theorem lift (sinking : Sinking (⟨side, isBlack, p, join side true near c far⟩ :: path) t)
    (black : t.rootBlack = true) (nearBlack : near.rootBlack = true) (farBlack : far.rootBlack = true) :
    Sinking path (join side isBlack t p (join side false near c far)) := by
  obtain ⟨n, loose, siblingBalanced, -, fits⟩ := sinking
  obtain ⟨nearBalanced, farBalanced⟩ := balanced_black.1 siblingBalanced
  refine ⟨n + isBlack.toNat, loose_join.2 ⟨n, rfl, loose.balanced black, ?_⟩, ?_⟩
  · exact balanced_red.2 ⟨nearBalanced, farBalanced, nearBlack, farBlack⟩
  · rw [Nat.add_right_comm]
    exact fits.black

/-- A red near nephew goes above the sibling, which leaves a red far nephew. -/
theorem inward
    (sinking : Sinking (⟨side, isBlack, p, join side true (join side false near a mid) c far⟩ :: path) t)
    (farBlack : far.rootBlack = true) :
    Sinking (⟨side, isBlack, p, join side true near a (join side false mid c far)⟩ :: path) t := by
  obtain ⟨n, loose, siblingBalanced, colours, fits⟩ := sinking
  obtain ⟨nephewBalanced, farBalanced⟩ := balanced_black.1 siblingBalanced
  obtain ⟨nearBalanced, midBalanced, -, midBlack⟩ := balanced_red.1 nephewBalanced
  refine ⟨n, loose, balanced_black.2 ⟨nearBalanced, ?_⟩, by simp, fits⟩
  exact balanced_red.2 ⟨midBalanced, farBalanced, midBlack, farBlack⟩

/-- With a red far nephew the sibling goes above the parent, and nothing is short. -/
theorem outward (sinking : Sinking (⟨side, isBlack, p, join side true near c far⟩ :: path) t)
    (black : t.rootBlack = true) (farRed : far.rootBlack = false) :
    IsRedBlack (plug path (join side isBlack (join side true t p near) c far.blacken)) := by
  obtain ⟨n, loose, siblingBalanced, -, fits⟩ := sinking
  obtain ⟨nearBalanced, farBalanced⟩ := balanced_black.1 siblingBalanced
  have farBlackened := farBalanced.loose.blacken
  rw [farRed] at farBlackened
  refine redBlack_plug.2 ⟨n + 1 + isBlack.toNat, balanced_join.2 ⟨n + 1, rfl, ?_, farBlackened, by simp⟩, ?_⟩
  · exact balanced_black.2 ⟨loose.balanced black, nearBalanced⟩
  · rw [rootBlack_join]
    exact fits

end Sinking

/-- Taking out a node with one child at most leaves the path short by that node's black. -/
theorem IsRedBlack.splice (whole : IsRedBlack (plug path (join side isBlack .leaf a t))) :
    (isBlack = false → IsRedBlack (plug path t)) ∧ (isBlack = true → Sinking path t) := by
  obtain ⟨n, balanced, fits⟩ := redBlack_plug.1 whole
  rw [rootBlack_join] at fits
  obtain ⟨m, rfl, rfl, tBalanced, colours⟩ := balanced_join.1 balanced
  constructor
  · rintro rfl
    have black := (colours rfl).2
    refine redBlack_plug.2 ⟨0, tBalanced, ?_⟩
    rw [black]
    exact fits.black
  · rintro rfl
    exact ⟨0, tBalanced.loose, fits⟩

/-! ## Height -/

theorem Balanced.height_le (balanced : Balanced t n) :
    t.height ≤ 2 * n + if t.rootBlack then 0 else 1 := by
  induction t generalizing n with
  | leaf => exact Nat.zero_le _
  | node isBlack left a right ihLeft ihRight =>
      obtain ⟨m, rfl, leftBalanced, rightBalanced, colours⟩ := balanced
      have leftHeight := ihLeft leftBalanced
      have rightHeight := ihRight rightBalanced
      cases isBlack with
      | false =>
          obtain ⟨leftBlack, rightBlack⟩ := colours rfl
          simp only [leftBlack, rightBlack, if_true] at leftHeight rightHeight
          simp only [height, rootBlack, Bool.toNat_false]
          simp
          omega
      | true =>
          simp only [height, rootBlack, Bool.toNat_true, if_true]
          split at leftHeight <;> split at rightHeight <;> omega

theorem Balanced.two_pow_le (balanced : Balanced t n) : 2 ^ n ≤ t.inorder.length + 1 := by
  induction t generalizing n with
  | leaf =>
      obtain rfl : n = 0 := balanced
      exact Nat.le_refl 1
  | node isBlack left a right ihLeft ihRight =>
      obtain ⟨m, rfl, leftBalanced, rightBalanced, -⟩ := balanced
      have leftCount := ihLeft leftBalanced
      have rightCount := ihRight rightBalanced
      have grows : 2 ^ (m + isBlack.toNat) ≤ 2 * 2 ^ m := by
        cases isBlack with
        | false =>
            rw [Bool.toNat_false, Nat.add_zero]
            omega
        | true => rw [Bool.toNat_true, Nat.pow_succ, Nat.mul_comm]
      simp only [inorder, List.length_append, List.length_cons]
      omega

/-- A red-black tree is at most twice as high as the logarithm of its size. -/
theorem IsRedBlack.height_le (whole : IsRedBlack t) :
    t.height ≤ 2 * Nat.log 2 (t.inorder.length + 1) := by
  obtain ⟨black, n, balanced⟩ := whole
  have height := balanced.height_le
  rw [black, if_pos rfl] at height
  have log : n ≤ Nat.log 2 (t.inorder.length + 1) :=
    Nat.le_log_of_pow_le (by omega) balanced.two_pow_le
  omega

/-! ## Search -/

/-- Down from a hole by the sign of `f`, to a node where it is zero or to a leaf. -/
def search (f : α → Int) : Coloured α → List (Frame α) → Coloured α × List (Frame α)
  | .leaf, path => (.leaf, path)
  | .node isBlack left a right, path =>
      if f a = 0 then (.node isBlack left a right, path)
      else if 0 < f a then search f right (⟨.right, isBlack, a, left⟩ :: path)
      else search f left (⟨.left, isBlack, a, right⟩ :: path)

theorem search_here {f : α → Int} {left right : Coloured α} (zero : f a = 0) :
    search f (.node isBlack left a right) path = (.node isBlack left a right, path) := if_pos zero

theorem search_right {f : α → Int} {left right : Coloured α} (positive : 0 < f a) :
    search f (.node isBlack left a right) path = search f right (⟨.right, isBlack, a, left⟩ :: path) :=
  (if_neg (by omega)).trans (if_pos positive)

theorem search_left {f : α → Int} {left right : Coloured α} (negative : f a < 0) :
    search f (.node isBlack left a right) path = search f left (⟨.left, isBlack, a, right⟩ :: path) :=
  (if_neg (by omega)).trans (if_neg (by omega))

theorem plug_search (f : α → Int) (t : Coloured α) (path : List (Frame α)) :
    plug (search f t path).2 (search f t path).1 = plug path t := by
  induction t generalizing path with
  | leaf => rfl
  | node isBlack left a right ihLeft ihRight =>
      unfold search
      split
      · rfl
      · split
        · rw [ihRight]
          rfl
        · rw [ihLeft]
          rfl

/-- A search that ends at a node has found it. -/
theorem search_eq_node {f : α → Int} {t : Coloured α} {path : List (Frame α)} {left right : Coloured α}
    (found : (search f t path).1 = .node isBlack left a right) : f a = 0 := by
  induction t generalizing path with
  | leaf => cases found
  | node isBlack' left' a' right' ihLeft ihRight =>
      unfold search at found
      split at found
      · next zero =>
          cases found
          exact zero
      · split at found
        · exact ihRight found
        · exact ihLeft found

/-- What the search passed on its way is on the side of the hole where it belongs. -/
theorem search_sides {f : α → Int} {t : Coloured α} {path : List (Frame α)}
    (cut : Cut f (plug path t).inorder) (passedLeft : ∀ b ∈ before path, 0 < f b)
    (passedRight : ∀ b ∈ after path, f b < 0) :
    (∀ b ∈ before (search f t path).2, 0 < f b) ∧ ∀ b ∈ after (search f t path).2, f b < 0 := by
  induction t generalizing path with
  | leaf => exact ⟨passedLeft, passedRight⟩
  | node isBlack left a right ihLeft ihRight =>
      unfold search
      split
      · exact ⟨passedLeft, passedRight⟩
      · next nonzero =>
          have here : Cut f (left.inorder ++ a :: right.inorder) := by
            rw [inorder_plug] at cut
            exact (List.pairwise_append.1 (List.pairwise_append.1 cut).2.1).1
          obtain ⟨-, atNode, across⟩ := List.pairwise_append.1 here
          split
          · next positive =>
              refine ihRight cut ?_ passedRight
              intro b member
              rw [before_cons_right, List.mem_append, List.mem_append, List.mem_singleton] at member
              rcases member with passed | inLeft | rfl
              · exact passedLeft b passed
              · have := across b inLeft a (.head _)
                omega
              · exact positive
          · next notPositive =>
              refine ihLeft cut passedLeft ?_
              intro b member
              rw [after_cons_left, List.cons_append, List.mem_cons, List.mem_append] at member
              rcases member with rfl | inRight | passed
              · omega
              · exact (List.pairwise_cons.1 atNode).1 b inRight (by omega)
              · exact passedRight b passed

/-- Where an element is in the tree there is a focus on it. -/
theorem exists_focus (member : a ∈ t.inorder) : ∃ path isBlack left right, t = plug path (.node isBlack left a right) := by
  induction t with
  | leaf => cases member
  | node isBlack left b right ihLeft ihRight =>
      simp only [Coloured.inorder, List.mem_append, List.mem_cons] at member
      rcases member with inLeft | rfl | inRight
      · obtain ⟨path, black, l, r, rfl⟩ := ihLeft inLeft
        refine ⟨path ++ [⟨.left, isBlack, b, right⟩], black, l, r, ?_⟩
        rw [plug_append]
        rfl
      · exact ⟨[], isBlack, left, right, rfl⟩
      · obtain ⟨path, black, l, r, rfl⟩ := ihRight inRight
        refine ⟨path ++ [⟨.right, isBlack, b, left⟩], black, l, r, ?_⟩
        rw [plug_append]
        rfl

/-- A search that ends at a leaf ends between what is below and what is above. -/
theorem search_leaf {f : α → Int} (cut : Cut f t.inorder) (missing : (search f t []).1 = .leaf) :
    before (search f t []).2 = t.inorder.filter (fun b => 0 < f b) ∧
      after (search f t []).2 = t.inorder.filter (fun b => f b < 0) ∧ ∀ b ∈ t.inorder, f b ≠ 0 := by
  have noneLeft : ∀ b ∈ before ([] : List (Frame α)), 0 < f b := by simp [before]
  have noneRight : ∀ b ∈ after ([] : List (Frame α)), f b < 0 := by simp [after]
  obtain ⟨lower, upper⟩ := search_sides cut noneLeft noneRight
  have whole := congrArg Coloured.inorder (plug_search f t [])
  rw [missing, inorder_plug] at whole
  simp only [plug, Coloured.inorder, List.nil_append] at whole
  rw [← whole]
  refine ⟨?_, ?_, fun b member => ?_⟩
  · rw [List.filter_append, List.filter_eq_self.2 fun b member => decide_eq_true (lower b member),
      List.filter_eq_nil_iff.2, List.append_nil]
    intro b member
    have := upper b member
    simp
    omega
  · rw [List.filter_append, List.filter_eq_nil_iff.2,
      List.filter_eq_self.2 fun b member => decide_eq_true (upper b member), List.nil_append]
    intro b member
    have := lower b member
    simp
    omega
  · rcases List.mem_append.1 member with below | above
    · have := lower b below
      omega
    · have := upper b above
      omega

end Everscale.Theory.RedBlack
