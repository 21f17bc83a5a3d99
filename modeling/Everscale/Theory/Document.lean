/-
# Theory.Document -- nested lists and objects, and the marks they are sent as

A document is a leaf, a list of documents, or an object whose members have keys.  It is sent as a
sequence of marks (`Document.marks`).  A document is a reordering of another one if only the order
of the members inside objects differs (`Reordered`): its marks are the same ones in another order
(`Reordered.marks_perm`).
-/
import Mathlib.Algebra.Order.BigOperators.Group.List
import Mathlib.Algebra.Order.Group.Nat
import Mathlib.Data.List.Forall2
import Mathlib.Data.List.Perm.Basic
import Mathlib.Tactic.Common

namespace Everscale.Theory

set_option autoImplicit false

variable {κ α : Type*}

inductive Document (κ α : Type*) where
  | leaf (value : α)
  | list (elements : List (Document κ α))
  | object (members : List (κ × Document κ α))

inductive Mark (κ α : Type*) where
  | objectStart
  | objectEnd
  | listStart
  | listEnd
  | key (key : κ)
  | leaf (value : α)
  deriving DecidableEq, Repr

namespace Document

mutual

def marks : Document κ α → List (Mark κ α)
  | .leaf value => [.leaf value]
  | .list elements => .listStart :: (marksOfList elements ++ [.listEnd])
  | .object members => .objectStart :: (marksOfMembers members ++ [.objectEnd])

def marksOfList : List (Document κ α) → List (Mark κ α)
  | [] => []
  | element :: rest => element.marks ++ marksOfList rest

def marksOfMembers : List (κ × Document κ α) → List (Mark κ α)
  | [] => []
  | (key, value) :: rest => .key key :: (value.marks ++ marksOfMembers rest)

end

mutual

/-- Every object inside has these members. -/
def AllObjects (P : List (κ × Document κ α) → Prop) : Document κ α → Prop
  | .leaf _ => True
  | .list elements => AllObjectsOfList P elements
  | .object members => P members ∧ AllObjectsOfMembers P members

def AllObjectsOfList (P : List (κ × Document κ α) → Prop) : List (Document κ α) → Prop
  | [] => True
  | element :: rest => element.AllObjects P ∧ AllObjectsOfList P rest

def AllObjectsOfMembers (P : List (κ × Document κ α) → Prop) : List (κ × Document κ α) → Prop
  | [] => True
  | (_, value) :: rest => value.AllObjects P ∧ AllObjectsOfMembers P rest

end

theorem marksOfList_eq (elements : List (Document κ α)) : marksOfList elements = elements.flatMap marks := by
  induction elements with
  | nil => rfl
  | cons element rest ih => rw [marksOfList, ih, List.flatMap_cons]

theorem marksOfMembers_eq (members : List (κ × Document κ α)) :
    marksOfMembers members = members.flatMap fun member => .key member.1 :: member.2.marks := by
  induction members with
  | nil => rfl
  | cons member rest ih => rw [marksOfMembers, ih, List.flatMap_cons, List.cons_append]

end Document

/-- The second document is the first with the members of its objects in another order. -/
inductive Reordered : Document κ α → Document κ α → Prop where
  | refl (v) : Reordered v v
  | trans {v w x} : Reordered v w → Reordered w x → Reordered v x
  | element {front back v w} : Reordered v w → Reordered (.list (front ++ v :: back)) (.list (front ++ w :: back))
  | member {front back key v w} : Reordered v w →
      Reordered (.object (front ++ (key, v) :: back)) (.object (front ++ (key, w) :: back))
  | members {members members'} : members.Perm members' → Reordered (.object members) (.object members')

namespace Reordered

variable {v w : Document κ α}

theorem marks_perm (h : Reordered v w) : v.marks.Perm w.marks := by
  induction h with
  | refl => exact .refl _
  | trans _ _ ih ih' => exact ih.trans ih'
  | element _ ih =>
      simp only [Document.marks, Document.marksOfList_eq, List.flatMap_append, List.flatMap_cons]
      exact .cons _ (.append_right _ (.append_left _ (.append_right _ ih)))
  | member _ ih =>
      simp only [Document.marks, Document.marksOfMembers_eq, List.flatMap_append, List.flatMap_cons]
      exact .cons _ (.append_right _ (.append_left _ (.append_right _ (.cons _ ih))))
  | members h =>
      simp only [Document.marks, Document.marksOfMembers_eq]
      exact .cons _ (.append_right _ (h.flatMap_right _))

/-- The elements of a list are reordered, each on its own. -/
theorem list_of {vs ws : List (Document κ α)} (h : List.Forall₂ Reordered vs ws) : Reordered (.list vs) (.list ws) := by
  suffices ∀ front, Reordered (.list (front ++ vs)) (.list (front ++ ws)) from this []
  induction h with
  | nil => exact fun front => .refl _
  | @cons v w _ _ first _ ih =>
      intro front
      have rest := ih (front ++ [w])
      simp only [List.append_assoc, List.singleton_append] at rest
      exact .trans (.element first) rest

/-- So are the members of an object, and then put in another order. -/
theorem object_of {ms ns ns' : List (κ × Document κ α)}
    (h : List.Forall₂ (fun m n => m.1 = n.1 ∧ Reordered m.2 n.2) ms ns) (perm : ns.Perm ns') :
    Reordered (.object ms) (.object ns') := by
  refine .trans ?_ (.members perm)
  clear perm
  suffices ∀ front, Reordered (.object (front ++ ms)) (.object (front ++ ns)) from this []
  induction h with
  | nil => exact fun front => .refl _
  | @cons m n _ _ first _ ih =>
      intro front
      obtain ⟨key, v⟩ := m
      obtain ⟨key', w⟩ := n
      obtain ⟨rfl, first⟩ := first
      have rest := ih (front ++ [(key, w)])
      simp only [List.append_assoc, List.singleton_append] at rest
      exact .trans (.member first) rest

end Reordered

/-- Where no mark comes out longer and the marks that come out are those of a reordering, none comes
out shorter. -/
theorem sizes_kept {β γ : Type*} {f g : β → γ} {size : γ → Nat} {marks marks' : List β}
    (shorter : ∀ m, size (g m) ≤ size (f m)) (perm : marks'.Perm marks) (again : (marks'.map g).Perm (marks.map f)) :
    ∀ m ∈ marks, size (g m) = size (f m) := by
  intro m member
  have sums : (marks.map fun m => size (g m)).sum = (marks.map fun m => size (f m)).sum := by
    have here := ((perm.symm.map g).trans again).map size
    rw [List.map_map, List.map_map] at here
    exact here.sum_eq
  by_contra changed
  have less : size (g m) < size (f m) := lt_of_le_of_ne (shorter m) changed
  exact absurd sums (Nat.ne_of_lt (List.sum_lt_sum _ _ (fun m _ => shorter m) ⟨m, member, less⟩))

end Everscale.Theory
