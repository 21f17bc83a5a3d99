/-
# Everscale.Base.ReferencedMap -- what a map of reference-counted values does

The map that a `WildcardIndex` is to its callers, and that each of its nodes is to it.  A key is
any value; `legal` are the keys that are accepted, `short` says when there is too little memory
for an entry.
-/
import Everscale.Base.SizedBuffer
import Everscale.Theory.Referenced

namespace Everscale

set_option autoImplicit false

/-- The references that a container holds to each object. -/
abbrev References := Pointer → Int

namespace References

def inc (refs : References) (value : Pointer) : References := Function.update refs value (refs value + 1)

def lost (refs : References) (value : Pointer) : References := Function.update refs value (refs value - 1)

/-- `ptr->dec()`, which asserts that the pointer is not null. -/
def dec (refs : References) (value : Pointer) : Option References :=
  if value = 0 then none else some (refs.lost value)

theorem dec_of_ne {refs : References} {value : Pointer} (ne : value ≠ 0) : refs.dec value = some (refs.lost value) :=
  if_neg ne

end References

/-- The memory there is for a call: the heap's, and one block for a node. -/
structure Memory extends Heap where
  allocate : Error
  /-- what the block holds at first, new or used before -/
  block : Nat → List UInt8
  length_block : ∀ n, (block n).length = n

/-- Memory that never runs short, all zeros. -/
def Memory.plenty : Memory where
  toHeap := Heap.plenty
  allocate := .success
  block n := List.replicate n 0
  length_block _ := List.length_replicate

namespace ReferencedMap

variable {α : Type}

inductive Call (α : Type) where
  | insert (memory : Memory) (key : α) (value : Pointer) (updateIfExists : Bool)
  | remove (key : α)
  | update (key : α) (value : Pointer)
  | find (key : α)

inductive Answer where
  | returned (error : Error)
  | updated (error : Error) (old : Option Pointer)
  | found (error : Error) (value : Option Pointer)
  deriving DecidableEq, Repr

/-- The answer of the map to a call, and the map and its references afterwards. -/
inductive Serves [DecidableEq α] (legal : α → Prop) (short : Memory → Prop) (f : α → Option Pointer)
    (refs : References) : Call α → Answer → (α → Option Pointer) → References → Prop where
  | inserted {memory k value updateIfExists} : legal k → value ≠ 0 → f k = none →
      Serves legal short f refs (.insert memory k value updateIfExists) (.returned .success)
        (Function.update f k (some value)) (refs.inc value)
  | refused {memory k value updateIfExists} : legal k → value ≠ 0 → f k = none → short memory →
      Serves legal short f refs (.insert memory k value updateIfExists) (.returned .outOfMemory) f refs
  | replaced {memory k value old} : legal k → value ≠ 0 → f k = some old →
      Serves legal short f refs (.insert memory k value true) (.returned .success)
        (Function.update f k (some value)) ((refs.lost old).inc value)
  | present {memory k value old} : legal k → value ≠ 0 → f k = some old →
      Serves legal short f refs (.insert memory k value false) (.returned .uniquenessViolation) f refs
  | removed {k old} : legal k → f k = some old →
      Serves legal short f refs (.remove k) (.returned .success) (Function.update f k none) (refs.lost old)
  | notRemoved {k} : legal k → f k = none → Serves legal short f refs (.remove k) (.returned .cannotFind) f refs
  | updated {k value old} : legal k → value ≠ 0 → f k = some old →
      Serves legal short f refs (.update k value) (.updated .success (some old))
        (Function.update f k (some value)) ((refs.lost old).inc value)
  | notUpdated {k value} : legal k → value ≠ 0 → f k = none →
      Serves legal short f refs (.update k value) (.updated .cannotFind none) f refs
  | found {k value} : f k = some value → Serves legal short f refs (.find k) (.found .success (some value)) f refs
  | notFound {k} : f k = none → Serves legal short f refs (.find k) (.found .cannotFind none) f refs
  | insertRejected {memory k value updateIfExists error} : ¬ (legal k ∧ value ≠ 0) → error ≠ .success →
      Serves legal short f refs (.insert memory k value updateIfExists) (.returned error) f refs
  | removeRejected {k error} : ¬ legal k → error ≠ .success →
      Serves legal short f refs (.remove k) (.returned error) f refs
  | updateRejected {k value error} : ¬ (legal k ∧ value ≠ 0) → error ≠ .success →
      Serves legal short f refs (.update k value) (.updated error none) f refs

/-- Every value keeps one reference for each of its entries. -/
theorem Serves.referenced [DecidableEq α] {legal : α → Prop} {short : Memory → Prop} {f f' : α → Option Pointer}
    {refs refs' : References} {call : Call α} {answer : Answer}
    (serves : Serves legal short f refs call answer f' refs') (h : Theory.Referenced f refs) :
    Theory.Referenced f' refs' := by
  cases serves with
  | inserted _ _ absent => exact h.add absent
  | replaced _ _ present | updated _ _ present => exact h.replace present _
  | removed _ present => exact h.remove present
  | refused | present | notRemoved | notUpdated | found | notFound | insertRejected | removeRejected
  | updateRejected => exact h

/-- An insert of a key that is not there adds the entry or changes nothing. -/
theorem Serves.insert_absent [DecidableEq α] {legal : α → Prop} {short : Memory → Prop} {f f' : α → Option Pointer}
    {refs refs' : References} {memory : Memory} {k : α} {value : Pointer} {updateIfExists : Bool} {error : Error}
    (serves : Serves legal short f refs (.insert memory k value updateIfExists) (.returned error) f' refs')
    (absent : f k = none) :
    (error = .success ∧ legal k ∧ value ≠ 0 ∧ f' = Function.update f k (some value) ∧ refs' = refs.inc value) ∨
      (error ≠ .success ∧ f' = f ∧ refs' = refs) := by
  cases serves with
  | inserted ok ne => exact .inl ⟨rfl, ok, ne, rfl, rfl⟩
  | replaced _ _ present | present _ _ present => exact nomatch absent.symm.trans present
  | refused => exact .inr ⟨nofun, rfl, rfl⟩
  | insertRejected _ failed => exact .inr ⟨failed, rfl, rfl⟩

end ReferencedMap

end Everscale
