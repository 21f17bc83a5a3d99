/-
# Everscale.Base.ASTElement -- the elements of an abstract syntax tree

Scalars, lists and maps of `AST`.  A map is the sequence of its entries in the order in which its
iterator visits them; an insert walks to the place of its key, as `ESB::Map` does in its tree.  The
comparator orders keys by type and then by value (`compare_trans`, `compare_swap`), so an insert
keeps the entries in order and succeeds if and only if no key is equal (`insertNode_isSome_iff`).

Assertions are left out: where the condition of one is false, the code goes on as it is written.

Every element knows which allocator gets its block back.  A map always gives it to the
`SystemAllocator`, since its constructor hands no allocator on to `Element`.
-/
import Everscale.Base.Error
import Everscale.HttpCommon.Message

namespace Everscale

set_option autoImplicit false

namespace AST

/-! ## Values -/

/-- The bits of a `double`. -/
structure Double where
  bits : UInt64
  deriving DecidableEq, Repr

namespace Double

def magnitude (x : Double) : Nat := x.bits.toNat % 2 ^ 63

def isNaN (x : Double) : Bool := 0x7FF0000000000000 < x.magnitude

/-- The order of the numbers, with one zero. -/
def rank (x : Double) : Int := if x.bits.toNat < 2 ^ 63 then x.magnitude else -(x.magnitude : Int)

def less (x y : Double) : Bool := !x.isNaN && !y.isNaN && x.rank < y.rank

theorem less_trans {x y z : Double} (h : x.less y = true) (h' : y.less z = true) : x.less z = true := by
  simp only [less, Bool.and_eq_true, Bool.not_eq_true', decide_eq_true_eq] at *
  exact ⟨⟨h.1.1, h'.1.2⟩, Int.lt_trans h.2 h'.2⟩

theorem less_asymm {x y : Double} (h : x.less y = true) : y.less x = false := by
  refine Bool.eq_false_iff.mpr fun both => ?_
  have itself := less_trans h both
  simp [less] at itself

end Double

/-- What a scalar holds; a string holds the octets that were copied, without the zero behind them. -/
inductive Value where
  | string (value : List Octet)
  | integer (value : Int64)
  | decimal (value : Double)
  | boolean (value : Bool)
  deriving DecidableEq, Repr

/-- `left > right ? 1 : left < right ? -1 : 0` -/
def threeWay (greater less : Bool) : Int := if greater then 1 else if less then -1 else 0

theorem threeWay_neg_iff {greater less : Bool} : threeWay greater less < 0 ↔ greater = false ∧ less = true := by
  cases greater <;> cases less <;> decide

theorem threeWay_pos_iff {greater less : Bool} : 0 < threeWay greater less ↔ greater = true := by
  cases greater <;> cases less <;> decide

namespace Value

def type : Value → Int
  | .string _ => 3
  | .integer _ => 4
  | .decimal _ => 5
  | .boolean _ => 6

/-- `JsonMapComparator`; two booleans are the case that its assertion excludes. -/
def compare (left right : Value) : Int :=
  if left.type ≠ right.type then left.type - right.type
  else
    match left, right with
    | .string x, .string y => strcmp x y
    | .integer x, .integer y => threeWay (y < x) (x < y)
    | .decimal x, .decimal y => threeWay (y.less x) (x.less y)
    | _, _ => -1

end Value

theorem lexDifference_trans {s t u : List Octet} (h : lexDifference s t < 0) (h' : lexDifference t u < 0) :
    lexDifference s u < 0 := by
  induction s generalizing t u with
  | nil =>
      cases t with
      | nil => exact h'
      | cons d ds =>
          cases u with
          | nil => simp only [lexDifference] at h'; omega
          | cons e es =>
              simp only [lexDifference] at h h' ⊢
              by_cases same : d = e
              · subst same; omega
              · rw [if_neg same] at h'; omega
  | cons c cs ih =>
      cases t with
      | nil => simp only [lexDifference] at h; omega
      | cons d ds =>
          cases u with
          | nil => simp only [lexDifference] at h'; omega
          | cons e es =>
              simp only [lexDifference] at h h' ⊢
              by_cases same : c = d
              · subst same
                rw [if_pos rfl] at h
                by_cases same' : c = e
                · rw [if_pos same'] at h' ⊢; exact ih h h'
                · rw [if_neg same'] at h' ⊢; exact h'
              · rw [if_neg same] at h
                by_cases same' : d = e
                · subst same'; rw [if_neg same]; exact h
                · rw [if_neg same'] at h'
                  have less : c.toNat < e.toNat := by omega
                  rw [if_neg fun equal => by subst equal; omega]
                  omega

namespace Value

theorem compare_trans {x y z : Value} (h : x.compare y < 0) (h' : y.compare z < 0) : x.compare z < 0 := by
  unfold compare at *
  by_cases same : x.type = y.type
  · rw [if_neg (not_not.mpr same)] at h
    by_cases same' : y.type = z.type
    · rw [if_neg (not_not.mpr same')] at h'
      rw [if_neg (not_not.mpr (same.trans same'))]
      rcases x with s | _ | _ | _ <;> rcases y with t | _ | _ | _ <;> cases same <;>
        rcases z with u | _ | _ | _ <;> cases same'
      · exact lexDifference_trans (t := cstr t) h h'
      · simp only [threeWay_neg_iff, decide_eq_true_eq, decide_eq_false_iff_not] at *
        exact ⟨fun back => Int64.lt_irrefl (Int64.lt_trans (Int64.lt_trans h.2 h'.2) back), Int64.lt_trans h.2 h'.2⟩
      · simp only [threeWay_neg_iff] at *
        have less := Double.less_trans h.2 h'.2
        exact ⟨Double.less_asymm less, less⟩
      · exact Int.negSucc_lt_zero 0
    · rw [if_pos same'] at h'
      rw [if_pos fun equal => same' (same.symm.trans equal)]
      omega
  · rw [if_pos same] at h
    by_cases same' : y.type = z.type
    · rw [if_pos fun equal => same (equal.trans same'.symm)]
      omega
    · rw [if_pos same'] at h'
      rw [if_pos fun equal => by omega]
      omega

theorem compare_swap {x y : Value} (h : 0 < x.compare y) : y.compare x < 0 := by
  unfold compare at *
  by_cases same : x.type = y.type
  · rw [if_neg (not_not.mpr same)] at h
    rw [if_neg (not_not.mpr same.symm)]
    rcases x with s | _ | _ | _ <;> rcases y with t | _ | _ | _ <;> cases same
    · have swapped : strcmp t s = -strcmp s t := lexDifference_swap _ _
      exact lt_of_eq_of_lt swapped (Int.neg_neg_of_pos h)
    · simp only [threeWay_neg_iff, threeWay_pos_iff, decide_eq_true_eq, decide_eq_false_iff_not] at *
      exact ⟨fun back => Int64.lt_irrefl (Int64.lt_trans h back), h⟩
    · simp only [threeWay_neg_iff, threeWay_pos_iff] at *
      exact ⟨Double.less_asymm h, h⟩
    · exact absurd h (Int.not_lt.mpr (Int.le_of_lt (Int.negSucc_lt_zero 0)))
  · rw [if_pos same] at h
    rw [if_pos (Ne.symm same)]
    omega

end Value

/-! ## Elements -/

abbrev Allocator := Nat

def SystemAllocator : Allocator := 0

/-- The memory of an element: elements are numbered in the order in which they are allocated, and
`allocator` gets the memory back. -/
structure Block where
  number : Nat
  allocator : Allocator
  deriving DecidableEq, Repr

structure Scalar where
  block : Block
  value : Value
  deriving DecidableEq, Repr

inductive Element where
  | null (block : Block)
  | scalar (scalar : Scalar)
  | list (block : Block) (elements : List Element)
  | map (block : Block) (entries : List (Scalar × Element))
  deriving Repr

namespace Element

mutual

/-- `destroy` of the cleanup handler: the blocks that are given back, in order. -/
def destroy : Element → List Block
  | .null block => [block]
  | .scalar own => [own.block]
  | .list block elements => destroyAll elements ++ [block]
  | .map block entries => clear entries ++ [block]

/-- `EmbeddedList::clear` -/
def destroyAll : List Element → List Block
  | [] => []
  | element :: rest => element.destroy ++ destroyAll rest

/-- `Map::clear` -/
def clear : List (Scalar × Element) → List Block
  | [] => []
  | (key, value) :: rest => key.block :: (value.destroy ++ clear rest)

end

theorem destroyAll_append (elements rest : List Element) :
    destroyAll (elements ++ rest) = destroyAll elements ++ destroyAll rest := by
  induction elements with
  | nil => rfl
  | cons element elements ih => rw [List.cons_append, destroyAll, ih, destroyAll, List.append_assoc]

theorem clear_perm {entries entries' : List (Scalar × Element)} (h : entries.Perm entries') :
    (clear entries).Perm (clear entries') := by
  induction h with
  | nil => exact .refl _
  | cons _ _ ih => exact .cons _ (.append_left _ ih)
  | swap first second rest =>
      simp only [clear, ← List.cons_append, ← List.append_assoc]
      exact .append_right _ List.perm_append_comm
  | trans _ _ ih ih' => exact ih.trans ih'

end Element

/-! ## Maps -/

namespace Map

/-- The walk of an insert, in the order of the keys. -/
def insertNode (key : Scalar) (value : Element) : List (Scalar × Element) → Option (List (Scalar × Element))
  | [] => some [(key, value)]
  | (k, v) :: rest =>
      let result := key.value.compare k.value
      if result < 0 then some ((key, value) :: (k, v) :: rest)
      else if 0 < result then (insertNode key value rest).map ((k, v) :: ·)
      else none

/-- `ESB::Map::insert`, with the allocator's answer for the node. -/
def insert (entries : List (Scalar × Element)) (key : Scalar) (value : Element) (node : Error) :
    Error × List (Scalar × Element) :=
  if entries.length = 2 ^ 32 - 1 then (.overflow, entries)
  else if node ≠ .success then (.outOfMemory, entries)
  else
    match insertNode key value entries with
    | none => (.uniquenessViolation, entries)
    | some entries => (.success, entries)

/-- The keys come in order. -/
def Sorted (entries : List (Scalar × Element)) : Prop :=
  entries.Pairwise fun entry later => entry.1.value.compare later.1.value < 0

section

variable {key : Scalar} {value : Element} {entries entries' : List (Scalar × Element)}

theorem insertNode_perm (h : insertNode key value entries = some entries') : entries'.Perm ((key, value) :: entries) := by
  induction entries generalizing entries' with
  | nil => cases h; exact .refl _
  | cons entry rest ih =>
      obtain ⟨k, v⟩ := entry
      simp only [insertNode] at h
      split at h
      · cases h; exact .refl _
      · split at h
        · obtain ⟨rest', inserted, rfl⟩ := Option.map_eq_some_iff.mp h
          exact ((ih inserted).cons _).trans (.swap _ _ _)
        · cases h

theorem insertNode_sorted (sorted : Sorted entries) (h : insertNode key value entries = some entries') : Sorted entries' := by
  induction entries generalizing entries' with
  | nil => cases h; exact List.pairwise_singleton _ _
  | cons entry rest ih =>
      obtain ⟨k, v⟩ := entry
      obtain ⟨before, later⟩ := List.pairwise_cons.mp sorted
      simp only [insertNode] at h
      split at h
      · rename_i less
        cases h
        refine .cons (fun entry member => ?_) sorted
        rcases List.mem_cons.mp member with rfl | member
        · exact less
        · exact Value.compare_trans less (before entry member)
      · split at h
        · rename_i greater
          obtain ⟨rest', inserted, rfl⟩ := Option.map_eq_some_iff.mp h
          refine .cons (fun entry member => ?_) (ih later inserted)
          rcases List.mem_cons.mp ((insertNode_perm inserted).subset member) with rfl | member
          · exact Value.compare_swap greater
          · exact before entry member
        · cases h

theorem insertNode_isSome_iff (value : Element) (sorted : Sorted entries) :
    (insertNode key value entries).isSome = true ↔ ∀ entry ∈ entries, key.value.compare entry.1.value ≠ 0 := by
  induction entries with
  | nil => exact iff_of_true rfl nofun
  | cons entry rest ih =>
      obtain ⟨k, v⟩ := entry
      obtain ⟨before, later⟩ := List.pairwise_cons.mp sorted
      rw [List.forall_mem_cons]
      simp only [insertNode]
      split
      · rename_i less
        refine iff_of_true rfl ⟨Int.ne_of_lt less, fun entry member => ?_⟩
        exact Int.ne_of_lt (Value.compare_trans less (before entry member))
      · split
        · rename_i greater
          rw [Option.isSome_map, ih later]
          exact ⟨fun others => ⟨(Int.ne_of_lt greater).symm, others⟩, fun all => all.2⟩
        · rename_i notLess notGreater
          exact iff_of_false (by simp) fun all => all.1 (by omega)

/-- An insert succeeds where a node can be had and no key is equal. -/
theorem insert_success_iff (value : Element) (sorted : Sorted entries) {node : Error} :
    (insert entries key value node).1 = .success ↔
      entries.length ≠ 2 ^ 32 - 1 ∧ node = .success ∧ ∀ entry ∈ entries, key.value.compare entry.1.value ≠ 0 := by
  rw [insert, ← insertNode_isSome_iff value sorted]
  by_cases full : entries.length = 2 ^ 32 - 1
  · rw [if_pos full]
    exact iff_of_false nofun fun all => all.1 full
  · rw [if_neg full]
    by_cases granted : node = .success
    · rw [if_neg (not_not.mpr granted)]
      cases insertNode key value entries with
      | none => exact iff_of_false nofun fun all => by cases all.2.2
      | some entries' => exact iff_of_true rfl ⟨full, granted, rfl⟩
    · rw [if_pos granted]
      exact iff_of_false nofun fun all => granted all.2.1

/-- What an insert that succeeds has done. -/
theorem insert_success {node : Error} (h : insert entries key value node = (.success, entries')) :
    insertNode key value entries = some entries' := by
  rw [insert] at h
  split at h
  · cases h
  · split at h
    · cases h
    · cases walked : insertNode key value entries with
      | none => rw [walked] at h; cases h
      | some entries'' => rw [walked] at h; rw [(Prod.mk.inj h).2]

end

end Map

end AST

end Everscale
