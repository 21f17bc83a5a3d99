/-
# Everscale.Base.Map -- the red-black map

`ESB::Map` keeps its pairs in nodes that point to a parent and two children, with one sentinel in the
place of every missing node.  A node is an address here, and the map holds what its fields are at every
address.  The sentinel has no key, which is how the code tells it from a node.

`leftRotate` and `rightRotate`, `findMinimum` and `findMaximum`, `findSuccessor` and `findPredecessor`,
and the two halves of either fix-up loop differ in the side alone, so each pair is one definition with a
side.  A loop runs for as long as its fuel lasts and answers `none` when the fuel is out.

`Allocator::allocate` answers with the address of a new node, or none; `allocated` lists the nodes that
came from it and `deallocated` those that went back, the latest first.
-/
import Everscale.Base.Error
import Everscale.Theory.RedBlack

namespace Everscale

set_option autoImplicit false

open Theory.RedBlack (Side)

abbrev MapNode := Nat

/-- `Map::_sentinel`. -/
def mapSentinel : MapNode := 0

structure Map (κ ν : Type) where
  size : UInt32
  root : MapNode
  parent : MapNode → MapNode
  child : Side → MapNode → MapNode
  isBlack : MapNode → Bool
  key : MapNode → Option κ
  value : MapNode → Option ν
  allocated : List MapNode
  deallocated : List MapNode

namespace Map

variable {κ ν : Type}

/-- `Map::Map`. -/
def empty : Map κ ν where
  size := 0
  root := mapSentinel
  parent _ := mapSentinel
  child _ _ := mapSentinel
  isBlack _ := true
  key _ := none
  value _ := none
  allocated := []
  deallocated := []

def left (s : Map κ ν) (x : MapNode) : MapNode := s.child .left x

def right (s : Map κ ν) (x : MapNode) : MapNode := s.child .right x

def hasKey (s : Map κ ν) (x : MapNode) : Bool := (s.key x).isSome

def setParent (s : Map κ ν) (x p : MapNode) : Map κ ν :=
  { s with parent := fun a => if a = x then p else s.parent a }

def setChild (s : Map κ ν) (side : Side) (x y : MapNode) : Map κ ν :=
  { s with child := fun d a => if d = side ∧ a = x then y else s.child d a }

def setBlack (s : Map κ ν) (x : MapNode) (isBlack : Bool) : Map κ ν :=
  { s with isBlack := fun a => if a = x then isBlack else s.isBlack a }

def setValue (s : Map κ ν) (x : MapNode) (value : Option ν) : Map κ ν :=
  { s with value := fun a => if a = x then value else s.value a }

/-- `new (_allocator) MapNode(&_sentinel, &_sentinel, &_sentinel, true, key, value)`. -/
def construct (s : Map κ ν) (node : MapNode) (key : κ) (value : Option ν) : Map κ ν :=
  { s with
    parent := fun a => if a = node then mapSentinel else s.parent a
    child := fun d a => if a = node then mapSentinel else s.child d a
    isBlack := fun a => if a = node then true else s.isBlack a
    key := fun a => if a = node then some key else s.key a
    value := fun a => if a = node then value else s.value a
    allocated := node :: s.allocated }

def deallocate (s : Map κ ν) (node : MapNode) : Map κ ν :=
  { s with deallocated := node :: s.deallocated }

/-! ## Rotation -/

/-- What leads to `x`, be it `_root` or a child of its parent, leads to `y`; the child that is looked at
first is the one on the side. -/
def relink (side : Side) (s : Map κ ν) (x y : MapNode) : Map κ ν :=
  if ¬ s.hasKey (s.parent x) then { s with root := y }
  else if x = s.child side (s.parent x) then s.setChild side (s.parent x) y
  else s.setChild side.other (s.parent x) y

/-- `x` becomes the parent of `y`, unless `y` is the sentinel. -/
def adopt (s : Map κ ν) (y x : MapNode) : Map κ ν := if s.hasKey y then s.setParent y x else s

/-- `x` goes down to the side, and its child on the other side takes its place. -/
def rotate (side : Side) (s : Map κ ν) (x : MapNode) : Map κ ν :=
  let y := s.child side.other x
  let s := s.setChild side.other x (s.child side y)
  let s := s.adopt (s.child side y) x
  let s := s.setParent y (s.parent x)
  let s := s.relink side x y
  (s.setChild side y x).setParent x y

def leftRotate (s : Map κ ν) (x : MapNode) : Map κ ν := s.rotate .left x

def rightRotate (s : Map κ ν) (x : MapNode) : Map κ ν := s.rotate .right x

/-! ## Search -/

section Search

variable (compare : κ → κ → Int)

def findNode : Nat → Map κ ν → MapNode → κ → Option MapNode
  | 0, _, _, _ => none
  | fuel + 1, s, x, k =>
      match s.key x with
      | none => some mapSentinel
      | some key =>
          let result := compare k key
          if 0 = result then some x
          else if 0 < result then findNode fuel s (s.right x) k
          else findNode fuel s (s.left x) k

/-- `findMinimum` for the left side, `findMaximum` for the right one. -/
def findExtreme (side : Side) : Nat → Map κ ν → MapNode → Option MapNode
  | 0, _, _ => none
  | fuel + 1, s, x => if s.hasKey (s.child side x) then findExtreme side fuel s (s.child side x) else some x

def findMinimum : Nat → Map κ ν → MapNode → Option MapNode := findExtreme .left

def findMaximum : Nat → Map κ ν → MapNode → Option MapNode := findExtreme .right

/-- Up from `x` for as long as it is its parent's child on the side. -/
def climb (side : Side) : Nat → Map κ ν → MapNode → Option MapNode
  | 0, _, _ => none
  | fuel + 1, s, x =>
      if s.hasKey (s.parent x) ∧ x = s.child side (s.parent x) then climb side fuel s (s.parent x)
      else some (s.parent x)

/-- `findSuccessor` for the right side, `findPredecessor` for the left one. -/
def findNeighbour (side : Side) (fuel : Nat) (s : Map κ ν) (x : MapNode) : Option MapNode :=
  if s.hasKey (s.child side x) then findExtreme side.other fuel s (s.child side x)
  else climb side fuel s x

def findSuccessor (fuel : Nat) (s : Map κ ν) (x : MapNode) : Option MapNode := findNeighbour .right fuel s x

def findPredecessor (fuel : Nat) (s : Map κ ν) (x : MapNode) : Option MapNode := findNeighbour .left fuel s x

/-! ## Insertion -/

/-- The first loop of `insertNode`: the node `y` under which the key belongs and the last comparison,
or none where the key is in the map. -/
def findPlace : Nat → Map κ ν → κ → (y x : MapNode) → Int → Option (Option (MapNode × Int))
  | 0, _, _, _, _, _ => none
  | fuel + 1, s, k, y, x, result =>
      match s.key x with
      | none => some (some (y, result))
      | some key =>
          let result := compare k key
          if 0 > result then findPlace fuel s k x (s.left x) result
          else if 0 < result then findPlace fuel s k x (s.right x) result
          else some none

/-- `z` under `y`, on the side that the last comparison says. -/
def hang (s : Map κ ν) (z y : MapNode) (result : Int) : Map κ ν :=
  let s := s.setParent z y
  let s := (s.setChild .left z mapSentinel).setChild .right z mapSentinel
  let s :=
    if mapSentinel = y then { s with root := z }
    else if 0 ≥ result then s.setChild .left y z
    else s.setChild .right y z
  { s with size := s.size + 1 }

/-- A pass of the loop of RB-Insert, where the parent of `x` is the grandparent's child on the side. -/
def insertFixupStep (side : Side) (s : Map κ ν) (x : MapNode) : Map κ ν × MapNode :=
  let p := s.parent x
  let g := s.parent p
  let y := s.child side.other g
  if ¬ s.isBlack y then (((s.setBlack p true).setBlack y true).setBlack g false, g)
  else if x = s.child side.other p then (s.rotate side p, p)
  else (((s.setBlack p true).setBlack g false).rotate side.other g, x)

def insertFixup : Nat → Map κ ν → MapNode → Option (Map κ ν)
  | 0, _, _ => none
  | fuel + 1, s, x =>
      if x ≠ s.root ∧ ¬ s.isBlack (s.parent x) then
        let p := s.parent x
        let side : Side := if p = s.left (s.parent p) then .left else .right
        let (s, x) := s.insertFixupStep side x
        insertFixup fuel s x
      else some (s.setBlack s.root true)

/-- Whether the node was inserted, and the map. -/
def insertNode (fuel : Nat) (s : Map κ ν) (z : MapNode) (k : κ) : Option (Bool × Map κ ν) := do
  match ← findPlace compare fuel s k mapSentinel s.root 0 with
  | none => return (false, s)
  | some (y, result) =>
      let s := (s.hang z y result).setBlack z false
      let s ← s.insertFixup fuel z
      return (true, s)

end Search

/-! ## Removal -/

/-- `y` takes the links and the colour of `z`, another node, and the children of `z` get `y` for a
parent. -/
def takeLinks (s : Map κ ν) (z y : MapNode) : Map κ ν :=
  let s := (s.setParent y (s.parent z)).setBlack y (s.isBlack z)
  let s := (s.setChild .left y (s.left z)).setChild .right y (s.right z)
  (s.setParent (s.right y) y).setParent (s.left y) y

/-- What pointed to `z` from above points to `y`; where `z` was the root, that is a child of the sentinel
too. -/
def takePlace (s : Map κ ν) (z y : MapNode) : Map κ ν :=
  { s.setChild (if z = s.right (s.parent y) then .right else .left) (s.parent y) y with
    root := if s.root = z then y else s.root }

/-- The steps of `deleteNode` that put `y` in the place of `z`. -/
def replaceNode (s : Map κ ν) (z y : MapNode) : Map κ ν := (s.takeLinks z y).takePlace z y

/-- The red sibling of `x`, if it is red, goes above the parent. -/
def deleteFixupTurn (side : Side) (s : Map κ ν) (x : MapNode) : Map κ ν :=
  let w := s.child side.other (s.parent x)
  if ¬ s.isBlack w then ((s.setBlack w true).setBlack (s.parent x) false).rotate side (s.parent x) else s

/-- The rest of a pass, with a black sibling of `x`. -/
def deleteFixupRest (side : Side) (s : Map κ ν) (x : MapNode) : Map κ ν × MapNode :=
  let w := s.child side.other (s.parent x)
  if s.isBlack (s.child side w) ∧ s.isBlack (s.child side.other w) then (s.setBlack w false, s.parent x)
  else if s.isBlack (s.child side.other w) then
    (((s.setBlack (s.child side w) true).setBlack w false).rotate side.other w, x)
  else
    let s := s.setBlack w (s.isBlack (s.parent x))
    let s := (s.setBlack (s.parent x) true).setBlack (s.child side.other w) true
    let s := s.rotate side (s.parent x)
    (s, s.root)

/-- A pass of the loop of RB-Delete-Fixup, where `x` is its parent's child on the side. -/
def deleteFixupStep (side : Side) (s : Map κ ν) (x : MapNode) : Map κ ν × MapNode :=
  (s.deleteFixupTurn side x).deleteFixupRest side x

def deleteFixup : Nat → Map κ ν → MapNode → Option (Map κ ν)
  | 0, _, _ => none
  | fuel + 1, s, x =>
      if s.root ≠ x ∧ s.isBlack x then
        let side : Side := if x = s.left (s.parent x) then .left else .right
        let (s, x) := s.deleteFixupStep side x
        deleteFixup fuel s x
      else some (s.setBlack x true)

/-- `x` takes the place of `y`. -/
def splice (s : Map κ ν) (y x : MapNode) : Map κ ν := (s.setParent x (s.parent y)).relink .left y x

/-- The last steps of `deleteNode`, where a node of the colour has been taken out above `x`. -/
def finishDelete (fuel : Nat) (s : Map κ ν) (z x : MapNode) (isBlack : Bool) : Option (Map κ ν) :=
  let s := s.deallocate z
  let s := { s with size := s.size - 1 }
  if ¬ isBlack then some s else s.deleteFixup fuel x

def deleteNode (fuel : Nat) (s : Map κ ν) (z : MapNode) : Option (Map κ ν) := do
  let y ← if ¬ s.hasKey (s.left z) ∨ ¬ s.hasKey (s.right z) then some z else s.findSuccessor fuel z
  let x := if s.hasKey (s.left y) then s.left y else s.right y
  let s := s.splice y x
  let isBlack := s.isBlack y
  let s := if y ≠ z then s.replaceNode z y else s
  s.finishDelete fuel z x isBlack

/-! ## The operations -/

section Operations

variable (compare : κ → κ → Int) (fuel : Nat)

/-- `insert` of a pair; a null key is `none`, and so is a node that could not be had. -/
def insert (s : Map κ ν) (key : Option κ) (value : Option ν) (node : Option MapNode) :
    Option (Error × Map κ ν) :=
  match key with
  | none => some (.nullPointer, s)
  | some key =>
      if 0xFFFFFFFF = s.size then some (.overflow, s)
      else
        match node with
        | none => some (.outOfMemory, s)
        | some node => do
            let (inserted, s) ← insertNode compare fuel (s.construct node key value) node key
            if ¬ inserted then return (.uniquenessViolation, s.deallocate node)
            return (.success, s)

/-- `insert` with an iterator, which may be a null pointer; the value may not be one, and the size is not
looked at. -/
def insertIterator (s : Map κ ν) (key : Option κ) (value : Option ν) (iterator : Bool)
    (node : Option MapNode) : Option ((Error × Option MapNode) × Map κ ν) :=
  match key, value, iterator with
  | some key, some value, true =>
      match node with
      | none => some ((.outOfMemory, none), s)
      | some node => do
          let (inserted, s) ← insertNode compare fuel (s.construct node key (some value)) node key
          if ¬ inserted then return ((.uniquenessViolation, none), s.deallocate node)
          return ((.success, some node), s)
  | _, _, _ => some ((.nullPointer, none), s)

def remove (s : Map κ ν) (key : Option κ) : Option (Error × Map κ ν) :=
  match key with
  | none => some (.nullPointer, s)
  | some key => do
      let node ← findNode compare fuel s s.root key
      if ¬ s.hasKey node then return (.cannotFind, s)
      let s ← s.deleteNode fuel node
      return (.success, s)

def find (s : Map κ ν) (key : Option κ) : Option (Option ν) :=
  match key with
  | none => some none
  | some key => do
      let node ← findNode compare fuel s s.root key
      if ¬ s.hasKey node then return none
      return s.value node

/-- `update`, with the old value where there is room for it. -/
def update (s : Map κ ν) (key : Option κ) (value : Option ν) (old : Bool) :
    Option ((Error × Option (Option ν)) × Map κ ν) :=
  match key with
  | none => some ((.nullPointer, none), s)
  | some key => do
      let node ← findNode compare fuel s s.root key
      if ¬ s.hasKey node then return ((.cannotFind, none), s)
      return ((.success, if old then some (s.value node) else none), s.setValue node value)

/-- An iterator is the address of a node, of the sentinel, or null. -/
def findIterator (s : Map κ ν) (key : Option κ) : Option (Option MapNode) :=
  match key with
  | none => some none
  | some key => do
      let node ← findNode compare fuel s s.root key
      return some node

/-- `erase` of what an iterator points to; there may be no iterator at all. -/
def erase (s : Map κ ν) (iterator : Option (Option MapNode)) : Option (Error × Map κ ν) :=
  match iterator with
  | none => some (.nullPointer, s)
  | some none => some (.invalidIterator, s)
  | some (some node) => do
      if ¬ s.hasKey node then return (.invalidIterator, s)
      let s ← s.deleteNode fuel node
      return (.success, s)

/-- The loop of `clear`: down to a node without children, which goes, and back to its parent. -/
def clearFrom : Nat → Map κ ν → MapNode → Option (Map κ ν)
  | 0, _, _ => none
  | fuel + 1, s, x =>
      if ¬ s.hasKey x then some s
      else if s.hasKey (s.right x) then clearFrom fuel s (s.right x)
      else if s.hasKey (s.left x) then clearFrom fuel s (s.left x)
      else if ¬ s.hasKey (s.parent x) then
        some { s.deallocate x with root := mapSentinel, size := 0 }
      else if x = s.right (s.parent x) then
        let x := s.parent x
        clearFrom fuel ((s.deallocate (s.right x)).setChild .right x mapSentinel) x
      else
        let x := s.parent x
        clearFrom fuel ((s.deallocate (s.left x)).setChild .left x mapSentinel) x

def clear (s : Map κ ν) : Option (Error × Map κ ν) := do
  let s ← s.clearFrom fuel s.root
  return (.success, s)

def minimumIterator (s : Map κ ν) : Option (Option MapNode) := do
  let node ← s.findMinimum fuel s.root
  return some node

def maximumIterator (s : Map κ ν) : Option (Option MapNode) := do
  let node ← s.findMaximum fuel s.root
  return some node

/-! ## Balance -/

/-- The black height of a node, and whether two sides of a node below differ. -/
def getBlackHeight : Nat → Map κ ν → MapNode → Option (Int × Bool)
  | 0, _, _ => none
  | fuel + 1, s, node =>
      if ¬ s.hasKey node then some (0, false)
      else do
        let (right, unbalancedRight) ← getBlackHeight fuel s (s.right node)
        let (left, unbalancedLeft) ← getBlackHeight fuel s (s.left node)
        let unbalanced := unbalancedRight || unbalancedLeft || decide (right ≠ left)
        if s.isBlack node then return (if right > left then right + 1 else left + 1, unbalanced)
        return (if right > left then right else left, unbalanced)

def getHeight : Nat → Map κ ν → MapNode → Option Int
  | 0, _, _ => none
  | fuel + 1, s, node =>
      if ¬ s.hasKey node then some 0
      else do
        let right ← getHeight fuel s (s.right node)
        let left ← getHeight fuel s (s.left node)
        return if right > left then right + 1 else left + 1

end Operations

end Map

/-! ## Iterators -/

/-- The address of a node, of the sentinel, or null. -/
structure MapIterator where
  node : Option MapNode
  deriving DecidableEq, Repr

namespace MapIterator

variable {κ ν : Type}

def isNull (s : Map κ ν) (it : MapIterator) : Bool :=
  match it.node with
  | none => true
  | some node => ¬ s.hasKey node

def key (s : Map κ ν) (it : MapIterator) : Option κ := it.node.bind s.key

def value (s : Map κ ν) (it : MapIterator) : Option ν := it.node.bind s.value

/-- The increment for the right side, the decrement for the left one. -/
def move (side : Side) (fuel : Nat) (s : Map κ ν) (it : MapIterator) : Option MapIterator :=
  match it.node with
  | none => some ⟨none⟩
  | some node => do
      let node ← s.findNeighbour side fuel node
      return ⟨some node⟩

def next (fuel : Nat) (s : Map κ ν) (it : MapIterator) : Option MapIterator := it.move .right fuel s

def previous (fuel : Nat) (s : Map κ ν) (it : MapIterator) : Option MapIterator := it.move .left fuel s

end MapIterator

end Everscale
