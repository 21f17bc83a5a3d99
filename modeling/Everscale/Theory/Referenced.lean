/-
# Theory.Referenced -- a map that holds a reference to each of its values

Where a map adds an entry it takes a reference to the value, and where an entry goes it gives one
back.  Then each value has as many references as there are entries with it (`Referenced`).
-/
import Mathlib.Data.Set.Card
import Mathlib.Tactic.Common

namespace Everscale.Theory

set_option autoImplicit false

variable {α ν : Type*}

/-- Every entry holds one reference to its value, and nothing else does. -/
structure Referenced (f : α → Option ν) (refs : ν → Int) : Prop where
  finite : {a | f a ≠ none}.Finite
  counts : ∀ v, refs v = ({a | f a = some v}.ncard : Int)

theorem referenced_none : Referenced (fun _ : α => (none : Option ν)) fun _ => 0 := by
  refine ⟨?_, fun v => ?_⟩ <;> simp

/-- A map without entries holds no reference. -/
theorem Referenced.refs_eq_zero {refs : ν → Int} (h : Referenced (fun _ : α => (none : Option ν)) refs) :
    refs = fun _ => 0 := by
  funext v
  simp [h.counts]

namespace Referenced

variable {f : α → Option ν} {refs : ν → Int} {a : α} {v old : ν}

theorem finite_value (h : Referenced f refs) (v : ν) : {a | f a = some v}.Finite := by
  refine h.finite.subset fun a value => ?_
  have value : f a = some v := value
  simp [value]

variable [DecidableEq α] [DecidableEq ν]

theorem add (h : Referenced f refs) (absent : f a = none) :
    Referenced (Function.update f a (some v)) (Function.update refs v (refs v + 1)) := by
  refine ⟨(h.finite.insert a).subset fun b present => ?_, fun w => ?_⟩
  · rcases eq_or_ne b a with rfl | ne
    · exact Set.mem_insert _ _
    · refine Set.mem_insert_of_mem _ ?_
      simpa [Function.update_of_ne ne] using present
  · rcases eq_or_ne w v with rfl | ne
    · have more : {b | Function.update f a (some w) b = some w} = insert a {b | f b = some w} := by
        ext b
        rcases eq_or_ne b a with rfl | ne <;> simp [*]
      have fresh : a ∉ {b | f b = some w} := fun present => nomatch absent.symm.trans present
      rw [Function.update_self, h.counts, more, Set.ncard_insert_of_notMem fresh (h.finite_value w)]
      rfl
    · have same : {b | Function.update f a (some v) b = some w} = {b | f b = some w} := by
        ext b
        rcases eq_or_ne b a with rfl | other
        · simp [absent, ne.symm]
        · simp [other]
      rw [Function.update_of_ne ne, h.counts, same]

theorem remove (h : Referenced f refs) (present : f a = some v) :
    Referenced (Function.update f a none) (Function.update refs v (refs v - 1)) := by
  refine ⟨h.finite.subset fun b still => ?_, fun w => ?_⟩
  · rcases eq_or_ne b a with rfl | ne
    · simp at still
    · simpa [Function.update_of_ne ne] using still
  · rcases eq_or_ne w v with rfl | ne
    · have less : {b | f b = some w} = insert a {b | Function.update f a none b = some w} := by
        ext b
        rcases eq_or_ne b a with rfl | ne <;> simp [*]
      have gone : a ∉ {b | Function.update f a none b = some w} := by simp
      have finite : {b | Function.update f a none b = some w}.Finite :=
        (h.finite_value w).subset (less ▸ Set.subset_insert _ _)
      rw [Function.update_self, h.counts, less, Set.ncard_insert_of_notMem gone finite]
      omega
    · have same : {b | Function.update f a none b = some w} = {b | f b = some w} := by
        ext b
        rcases eq_or_ne b a with rfl | other
        · simp [present, ne.symm]
        · simp [other]
      rw [Function.update_of_ne ne, h.counts, same]

theorem replace (h : Referenced f refs) (present : f a = some old) (new : ν) :
    Referenced (Function.update f a (some new)) (Function.update (Function.update refs old (refs old - 1)) new
      (Function.update refs old (refs old - 1) new + 1)) := by
  have removed := h.remove present
  have added := removed.add (v := new) (Function.update_self a none f)
  rwa [Function.update_idem] at added

end Referenced

end Everscale.Theory
