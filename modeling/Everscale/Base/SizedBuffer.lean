/-
# Everscale.Base.SizedBuffer -- an array of packed keys and pointers, with its capacity

`CompactStringMap` and the nodes of `WildcardIndex` keep their entries in the same way and go
about them with the same statements.  Those are here, each with what it does to an array that
holds entries (`Stores`).  `none` stands for an access outside the array or a failed assertion.
-/
import Everscale.Base.Error
import Everscale.Base.String

namespace Everscale

set_option autoImplicit false

open Theory (Key slice overwrite closeUp record records seek seek_packs Packs Sought entryMap)

/-- What `malloc` and `realloc` answer: so many octets, or nothing. -/
structure Heap where
  malloc : Nat → Option (List UInt8)
  realloc : Nat → Option (List UInt8)
  malloc_length : ∀ {n fresh}, malloc n = some fresh → fresh.length = n
  realloc_length : ∀ {n fresh}, realloc n = some fresh → fresh.length = n

namespace Heap

/-- The octets move along, as many as there is room for. -/
def reallocate (heap : Heap) (data : List UInt8) (n : Nat) : Option (List UInt8) :=
  (heap.realloc n).map fun fresh => data.take n ++ fresh.drop data.length

def Refuses (heap : Heap) : Prop := ∃ n, heap.malloc n = none ∨ heap.realloc n = none

/-- A heap that never refuses. -/
def plenty : Heap where
  malloc n := some (List.replicate n 0)
  realloc n := some (List.replicate n 0)
  malloc_length some := Option.some.inj some ▸ List.length_replicate
  realloc_length some := Option.some.inj some ▸ List.length_replicate

theorem plenty_grants : ¬ plenty.Refuses := by
  rintro ⟨n, none | none⟩ <;> cases none

end Heap

/-- The checks that `insert` and `update` begin with. -/
def checkKey : Option Key → Except Error Key
  | none => .error .nullPointer
  | some key =>
      if key.length < 1 then .error .underflow
      else if key.length > 255 then .error .overflow
      else .ok key

theorem checkKey_ok {key : Option Key} {k : Key} (ok : checkKey key = .ok k) :
    key = some k ∧ 1 ≤ k.length ∧ k.length ≤ 255 := by
  cases key with
  | none => cases ok
  | some key =>
      rw [checkKey] at ok
      by_cases short : key.length < 1
      · rw [if_pos short] at ok
        cases ok
      · by_cases long : key.length > 255
        · rw [if_neg short, if_pos long] at ok
          cases ok
        · rw [if_neg short, if_neg long] at ok
          cases ok
          exact ⟨rfl, Nat.le_of_not_lt short, Nat.le_of_not_lt long⟩

theorem checkKey_some {key : Key} (low : 1 ≤ key.length) (high : key.length ≤ 255) :
    checkKey (some key) = .ok key := by
  rw [checkKey, if_neg (Nat.not_lt.mpr low), if_neg (Nat.not_lt.mpr high)]

/-- `MAX(_capacity * 2, _capacity + keySize + sizeof(void *) + 2 - freeSpace)`, in 32 bits up to
the `sizeof` and in 64 from there on, and stored in 32. -/
def requestSize (capacity keySize freeSpace : Nat) : Nat :=
  max (capacity * 2 % 2 ^ 32)
    (((capacity + keySize) % 2 ^ 32 + pointers.width + 2 + 2 ^ 64 - freeSpace) % 2 ^ 64) % 2 ^ 32

theorem requestSize_enough {capacity keySize p : Nat} (bounded : capacity < 2 ^ 32) (inside : p < capacity)
    (full : capacity - p ≤ keySize + 10) (fits : p + keySize + 10 < 2 ^ 32) :
    p + keySize + 10 ≤ requestSize capacity keySize (capacity - p) ∧
      requestSize capacity keySize (capacity - p) < 2 ^ 32 := by
  rw [requestSize, show pointers.width = 8 from rfl]
  omega

structure SizedBuffer where
  data : List UInt8
  capacity : Nat
  deriving DecidableEq, Repr

namespace SizedBuffer

/-- Where the key stands (`true`), or where the entries end (`false`). -/
def find (buffer : SizedBuffer) (key : Key) : Option (Bool × Nat) :=
  seek buffer.data buffer.capacity pointers.width key buffer.data.length 0

def readPointer (buffer : SizedBuffer) (p : Nat) : Option Pointer :=
  (slice buffer.data p pointers.width).map ReadPointer

def writePointer (buffer : SizedBuffer) (p : Nat) (value : Pointer) : Option SizedBuffer :=
  (overwrite buffer.data p (WritePointer value)).map fun data => { buffer with data := data }

/-- The `memmove` over the entry at `p`, whose key has this size. -/
def promote (buffer : SizedBuffer) (p keySize : Nat) : Option SizedBuffer :=
  let nextKey := p + keySize + pointers.width + 1
  let promoteSize := (buffer.capacity + 2 ^ 32 - nextKey) % 2 ^ 32
  (closeUp buffer.data p nextKey promoteSize).map fun data => { buffer with data := data }

def freeSpace (buffer : SizedBuffer) (p : Nat) : Nat := (buffer.capacity + 2 ^ 32 - p) % 2 ^ 32

/-- The new entry at the end `p`, and the new end. -/
def append (buffer : SizedBuffer) (p : Nat) (key : Key) (value : Pointer) : Option SizedBuffer :=
  (overwrite buffer.data p (record pointers key value ++ [0])).map fun data => { buffer with data := data }

/-- The same in an array that is reallocated if there is too little space. -/
def push (buffer : SizedBuffer) (heap : Heap) (p : Nat) (key : Key) (value : Pointer) :
    Option (Error × SizedBuffer) :=
  if buffer.freeSpace p ≤ key.length + pointers.width + 2 then
    let request := requestSize buffer.capacity key.length (buffer.freeSpace p)
    match heap.reallocate buffer.data request with
    | none => some (.outOfMemory, buffer)
    | some data =>
        if data[p]? = some 0 then
          (SizedBuffer.append ⟨data, request⟩ p key value).map fun buffer => (.success, buffer)
        else none
  else (buffer.append p key value).map fun buffer => (.success, buffer)

/-- `_data[0] = 0` -/
def empty (buffer : SizedBuffer) : Option SizedBuffer :=
  (overwrite buffer.data 0 [0]).map fun data => { buffer with data := data }

/-- The buffer holds these entries. -/
structure Stores (buffer : SizedBuffer) (es : List (Key × Pointer)) : Prop where
  length : buffer.data.length = buffer.capacity
  bounded : buffer.capacity < 2 ^ 32
  packs : Packs pointers buffer.data es

variable {buffer : SizedBuffer} {es before after : List (Key × Pointer)} {key : Key} {value : Pointer}

namespace Stores

theorem length_lt (h : buffer.Stores es) : (records pointers es).length < buffer.capacity :=
  h.length ▸ h.packs.length_lt

theorem find (h : buffer.Stores es) (key : Key) :
    ∃ found, buffer.find key = some found ∧ Sought pointers key es 0 found := by
  rw [SizedBuffer.find, ← h.length]
  exact seek_packs h.packs key

theorem readPointer (h : buffer.Stores (before ++ (key, value) :: after)) :
    buffer.readPointer ((records pointers before).length + 1 + key.length) = some value := by
  rw [SizedBuffer.readPointer, h.packs.value_at, Option.map_some]
  exact congrArg some (read_write value)

theorem writePointer (h : buffer.Stores (before ++ (key, value) :: after)) (new : Pointer) :
    ∃ buffer', buffer.writePointer ((records pointers before).length + 1 + key.length) new = some buffer' ∧
      buffer'.capacity = buffer.capacity ∧ buffer'.Stores (before ++ (key, new) :: after) := by
  obtain ⟨data, written, length, packs⟩ := h.packs.set_value new
  refine ⟨{ buffer with data := data }, ?_, rfl, length.trans h.length, h.bounded, packs⟩
  rw [SizedBuffer.writePointer, show WritePointer new = pointers.encode new from rfl, written, Option.map_some]

theorem promote (h : buffer.Stores (before ++ (key, value) :: after)) :
    ∃ buffer', buffer.promote (records pointers before).length key.length = some buffer' ∧
      buffer'.capacity = buffer.capacity ∧ buffer'.Stores (before ++ after) := by
  obtain ⟨data, closed, length, packs⟩ := h.packs.close_up
  have inside : (records pointers before).length + key.length + pointers.width + 1 ≤ buffer.capacity := by
    have := h.length_lt
    simp only [Theory.records_append, Theory.records_cons, List.length_append, Theory.length_record] at this
    omega
  have size : (buffer.capacity + 2 ^ 32 - ((records pointers before).length + key.length + pointers.width + 1)) %
      2 ^ 32 = buffer.data.length - ((records pointers before).length + key.length + pointers.width + 1) := by
    have := h.bounded
    have := h.length
    omega
  refine ⟨{ buffer with data := data }, ?_, rfl, length.trans h.length, h.bounded, packs⟩
  rw [SizedBuffer.promote, size, closed, Option.map_some]

theorem freeSpace (h : buffer.Stores es) :
    buffer.freeSpace (records pointers es).length = buffer.capacity - (records pointers es).length := by
  have := h.length_lt
  have := h.bounded
  rw [SizedBuffer.freeSpace]
  omega

theorem append (h : buffer.Stores es) (low : 1 ≤ key.length) (high : key.length ≤ 255)
    (absent : key ∉ es.map Prod.fst) (value : Pointer)
    (room : (records pointers es).length + key.length + 10 ≤ buffer.capacity) :
    ∃ buffer', buffer.append (records pointers es).length key value = some buffer' ∧
      buffer'.capacity = buffer.capacity ∧ buffer'.Stores (es ++ [(key, value)]) := by
  obtain ⟨data, written, length, packs⟩ := h.packs.append value low high absent (h.length ▸ room)
  refine ⟨{ buffer with data := data }, ?_, rfl, length.trans h.length, h.bounded, packs⟩
  rw [SizedBuffer.append, written, Option.map_some]

theorem push (h : buffer.Stores es) (low : 1 ≤ key.length) (high : key.length ≤ 255)
    (absent : key ∉ es.map Prod.fst) (fits : (records pointers es).length + key.length + 10 < 2 ^ 32)
    (heap : Heap) (value : Pointer) :
    (∃ buffer', buffer.push heap (records pointers es).length key value = some (.success, buffer') ∧
      buffer'.Stores (es ++ [(key, value)])) ∨
    (buffer.push heap (records pointers es).length key value = some (.outOfMemory, buffer) ∧ heap.Refuses) := by
  rw [SizedBuffer.push, h.freeSpace]
  by_cases full : buffer.capacity - (records pointers es).length ≤ key.length + pointers.width + 2
  · rw [if_pos full]
    dsimp only
    obtain ⟨enough, small⟩ := requestSize_enough h.bounded h.length_lt full fits
    generalize requestSize buffer.capacity key.length (buffer.capacity - (records pointers es).length) = n
      at enough small
    cases granted : heap.realloc n with
    | none =>
        rw [Heap.reallocate, granted]
        exact .inr ⟨rfl, n, .inr granted⟩
    | some fresh =>
        have packs := h.packs.reallocated (n := n) (by omega) (fresh.drop buffer.data.length)
        have length : (buffer.data.take n ++ fresh.drop buffer.data.length).length = n := by
          have : fresh.length = n := heap.realloc_length granted
          simp only [List.length_append, List.length_take, List.length_drop]
          omega
        have grown : Stores ⟨_, n⟩ es := ⟨length, small, packs⟩
        obtain ⟨buffer', written, -, stores⟩ := grown.append low high absent value enough
        rw [Heap.reallocate, granted, Option.map_some]
        dsimp only
        rw [if_pos packs.end_at, written]
        exact .inl ⟨buffer', rfl, stores⟩
  · rw [if_neg full]
    have room : (records pointers es).length + key.length + 10 ≤ buffer.capacity := by
      have : pointers.width = 8 := rfl
      omega
    obtain ⟨buffer', written, -, stores⟩ := h.append low high absent value room
    rw [written]
    exact .inl ⟨buffer', rfl, stores⟩

theorem empty (buffer : SizedBuffer) (positive : 1 ≤ buffer.capacity) (length : buffer.data.length = buffer.capacity)
    (bounded : buffer.capacity < 2 ^ 32) :
    ∃ buffer', buffer.empty = some buffer' ∧ buffer'.capacity = buffer.capacity ∧ buffer'.Stores [] := by
  obtain ⟨data, capacity⟩ := buffer
  obtain ⟨x, slack, rfl⟩ := List.exists_cons_of_length_pos (length ▸ positive)
  refine ⟨⟨0 :: slack, capacity⟩, ?_, rfl, length, bounded, Theory.packs_nil⟩
  rw [SizedBuffer.empty, Theory.overwrite_front, Option.map_some]

/-- Beyond 4 GiB the array that `realloc` gives is too short. -/
theorem push_outside (h : buffer.Stores es)
    (large : 2 ^ 32 ≤ (records pointers es).length + key.length + 10) {heap : Heap} (grants : ¬ heap.Refuses)
    (value : Pointer) : buffer.push heap (records pointers es).length key value = none := by
  have := h.length_lt
  have := h.bounded
  have width : pointers.width = 8 := rfl
  have full : buffer.capacity - (records pointers es).length ≤ key.length + pointers.width + 2 := by omega
  rw [SizedBuffer.push, h.freeSpace, if_pos full]
  dsimp only
  have small : requestSize buffer.capacity key.length (buffer.capacity - (records pointers es).length) < 2 ^ 32 :=
    Nat.mod_lt _ (Nat.two_pow_pos 32)
  generalize requestSize buffer.capacity key.length (buffer.capacity - (records pointers es).length) = n at small
  cases granted : heap.realloc n with
  | none => exact absurd ⟨n, .inr granted⟩ grants
  | some fresh =>
      have short : (buffer.data.take n ++ fresh.drop buffer.data.length).length < (records pointers es).length +
          (record pointers key value ++ [0]).length := by
        have : fresh.length = n := heap.realloc_length granted
        have := h.length
        simp only [List.length_append, List.length_take, List.length_drop, Theory.length_record,
          List.length_singleton]
        omega
      rw [Heap.reallocate, granted, Option.map_some]
      dsimp only
      rw [SizedBuffer.append, overwrite, if_neg (Nat.not_le.mpr short), Option.map_none, Option.map_none, ite_self]

end Stores

end SizedBuffer

end Everscale
