/-
# Everscale.Base.BuddyAllocator -- the buddy system in a pool of memory

`BuddyAllocator` (`ESBBuddyAllocator.cpp`), function by function, on a byte-addressed
memory: every block begins with an `AvailListElem`, whose fields are read and written where
the source's compiler puts them on a 64-bit machine.  A pointer is an address, null is `0`.

What the source allocator answers is an argument.  The loops of `UWordToKVal` need not end;
`none` is a call that does not return.
-/
import Everscale.Base.Error
import Everscale.Theory.Memory
import Mathlib.Logic.Function.Basic

namespace Everscale

set_option autoImplicit false

open Theory

/-! ## The head of a block -/

namespace AvailListElem

inductive Field where
  | linkB
  | linkF
  | kVal
  | tag
  deriving DecidableEq, Repr

def Field.offset : Field → Nat
  | .linkB => 0
  | .linkF => 8
  | .kVal => 16
  | .tag => 17

def Field.width : Field → Nat
  | .linkB => 8
  | .linkF => 8
  | .kVal => 1
  | .tag => 1

/-- `sizeof(AvailListElem)`. -/
abbrev size : Nat := 24

/-- `elem->field`. -/
def peek (m : Memory) (elem : Nat) (field : Field) : Nat := m.load (elem + field.offset) field.width

/-- `elem->field = value`. -/
def poke (m : Memory) (elem : Nat) (field : Field) (value : Nat) : Memory :=
  m.store (elem + field.offset) field.width value

end AvailListElem

/-- `ESB_AVAIL_LIST_LENGTH`. -/
abbrev ESB_AVAIL_LIST_LENGTH : Nat := 64

structure BuddyAllocator where
  poolKVal : Nat
  pool : Nat := 0
  availList : Nat → Nat := fun _ => 0
  memory : Memory

namespace BuddyAllocator

open AvailListElem

/-! ## Sizes -/

/-- The loop of `UWordToKVal`, a binary search for the exponent. -/
def kValLoop (uWord : Nat) : Nat → Nat → Nat → Nat → Option Nat
  | 0, _, _, _ => none
  | turns + 1, min, kVal, max =>
      if 2 ^ kVal < uWord then kValLoop uWord turns kVal (kVal + (max - kVal) / 2) max
      else if 2 ^ (kVal - 1) < uWord then some kVal
      else kValLoop uWord turns min (kVal - (kVal - min) / 2) kVal

/-- `UWordToKVal`.  Every turn narrows the search or leaves it as it is. -/
def UWordToKVal (uWord : Nat) : Option Nat :=
  kValLoop uWord ESB_AVAIL_LIST_LENGTH 0 8 ESB_AVAIL_LIST_LENGTH

/-- `AdjustedKVal`; the sum is taken in 64 bits. -/
def AdjustedKVal (requestedSize : Nat) : Option Nat :=
  UWordToKVal ((requestedSize + AvailListElem.size) % 2 ^ 64)

/-- The constructor, for a 32-bit size. -/
def create (size : UInt32) (memory : Memory) : Option BuddyAllocator :=
  (UWordToKVal size.toNat).map fun poolKVal => { poolKVal, memory }

/-! ## The lists of available blocks -/

/-- `elem->field = value` in the allocator's memory. -/
def write (elem : Nat) (field : Field) (value : Nat) (s : BuddyAllocator) : BuddyAllocator :=
  { s with memory := poke s.memory elem field value }

/-- `_availList[kVal] = elem`. -/
def setAvailList (kVal elem : Nat) (s : BuddyAllocator) : BuddyAllocator :=
  { s with availList := Function.update s.availList kVal elem }

/-- The links and the tag of a block that is on no list. -/
def unlisted (elem : Nat) (s : BuddyAllocator) : BuddyAllocator :=
  ((s.write elem .linkB 0).write elem .linkF 0).write elem .tag 0

/-- `popAvailList`: the block taken from the list. -/
def popAvailList (kVal : Nat) (s : BuddyAllocator) : Nat × BuddyAllocator :=
  let elem := s.availList kVal
  if elem = 0 then (0, s)
  else
    let next := peek s.memory elem .linkF
    let s := s.unlisted elem
    if next ≠ 0 then (elem, (s.write next .linkB 0).setAvailList kVal next)
    else (elem, s.setAvailList kVal 0)

def removeFromAvailList (elem : Nat) (s : BuddyAllocator) : BuddyAllocator :=
  let s := if peek s.memory elem .linkB ≠ 0 then
      s.write (peek s.memory elem .linkB) .linkF (peek s.memory elem .linkF)
    else s
  let s := if peek s.memory elem .linkF ≠ 0 then
      s.write (peek s.memory elem .linkF) .linkB (peek s.memory elem .linkB)
    else s
  let s := if peek s.memory elem .linkB = 0 then
      s.setAvailList (peek s.memory elem .kVal) (peek s.memory elem .linkF)
    else s
  s.unlisted elem

def pushAvailList (elem : Nat) (s : BuddyAllocator) : BuddyAllocator :=
  let kVal := peek s.memory elem .kVal
  let next := s.availList kVal
  let s := ((s.write elem .linkB 0).write elem .linkF next).write elem .tag 1
  let s := if next ≠ 0 then s.write next .linkB elem else s
  s.setAvailList kVal elem

/-! ## Allocating -/

/-- `BuddyAllocator::initialize`. -/
def initializePool (source : Except Failure Nat) (s : BuddyAllocator) : Error × BuddyAllocator :=
  if s.pool ≠ 0 ∨ s.poolKVal < 1 ∨ ESB_AVAIL_LIST_LENGTH ≤ s.poolKVal then (.invalidState, s)
  else
    match source with
    | .error error => (error, s)
    | .ok pool =>
        let s := { s with pool }
        let s := ((s.write pool .linkB 0).write pool .linkF 0).write pool .tag 1
        (.success, (s.write pool .kVal s.poolKVal).setAvailList s.poolKVal pool)

/-- The block at `elem` becomes two of order `kVal`. -/
def halve (elem kVal : Nat) (s : BuddyAllocator) : BuddyAllocator :=
  let half := elem + 2 ^ kVal
  let s := s.write elem .kVal kVal
  (((s.write half .linkB 0).write half .linkF 0).write half .kVal kVal).write half .tag 0

/-- One turn of the loop that splits a block: the right half goes on its list. -/
def splitOnce (elem kVal : Nat) (s : BuddyAllocator) : BuddyAllocator :=
  (s.halve elem kVal).pushAvailList (elem + 2 ^ kVal)

/-- A block of order `actualKVal` is split down to order `minimumKVal`. -/
def splitDown (elem minimumKVal : Nat) : Nat → BuddyAllocator → BuddyAllocator
  | 0, s => s
  | actualKVal + 1, s =>
      if minimumKVal < actualKVal + 1 then
        splitDown elem minimumKVal actualKVal (s.splitOnce elem actualKVal)
      else s

/-- The first list that is not empty, from order `minimumKVal` on. -/
def firstAvailable (minimumKVal : Nat) (s : BuddyAllocator) : Option Nat :=
  (List.range ESB_AVAIL_LIST_LENGTH).find? fun kVal => minimumKVal ≤ kVal && s.availList kVal ≠ 0

/-- `allocate` once there is a pool: the code and the block, null on failure. -/
def allocateFromPool (minimumKVal : Nat) (s : BuddyAllocator) : (Error × Nat) × BuddyAllocator :=
  match s.firstAvailable minimumKVal with
  | none => ((.outOfMemory, 0), s)
  | some actualKVal =>
      let (elem, s) := s.popAvailList actualKVal
      ((.success, elem + AvailListElem.size), splitDown elem minimumKVal actualKVal s)

/-- `allocate`, with what the source allocator answers if it is asked. -/
def allocate (size : Nat) (source : Except Failure Nat) (s : BuddyAllocator) :
    Option ((Error × Nat) × BuddyAllocator) :=
  if size = 0 then some ((.invalidArgument, 0), s)
  else
    let (error, s) := if s.pool = 0 then s.initializePool source else (.success, s)
    if error ≠ .success then some ((error, 0), s)
    else (AdjustedKVal size).map fun minimumKVal => s.allocateFromPool minimumKVal

/-! ## Deallocating -/

/-- `owns`. -/
def owns (block : Nat) (s : BuddyAllocator) : Bool :=
  s.pool ≤ block && block < s.pool + 2 ^ s.poolKVal

/-- The buddy is on a list, and whole. -/
def canMerge (elem buddy : Nat) (s : BuddyAllocator) : Bool :=
  peek s.memory buddy .tag ≠ 0 && peek s.memory buddy .kVal = peek s.memory elem .kVal

/-- The buddy is taken off its list, and the block at `elem` is of the next order. -/
def mergeInto (elem buddy : Nat) (s : BuddyAllocator) : BuddyAllocator :=
  let s := s.removeFromAvailList buddy
  s.write elem .kVal (peek s.memory elem .kVal + 1)

/-- The loop of `deallocate`.  A turn that goes on raises the order, so that a block of the
pool takes no more than `poolKVal` turns before the last one. -/
def coalesce : Nat → Nat → BuddyAllocator → BuddyAllocator
  | 0, _, s => s
  | turns + 1, elem, s =>
      let kVal := peek s.memory elem .kVal
      if kVal = s.poolKVal then s.pushAvailList elem
      else if (elem - s.pool) % 2 ^ (kVal + 1) = 0 then
        let buddy := elem + 2 ^ kVal
        if s.canMerge elem buddy then coalesce turns elem (s.mergeInto elem buddy)
        else s.pushAvailList elem
      else
        let buddy := elem - 2 ^ kVal
        if s.canMerge elem buddy then coalesce turns buddy (s.mergeInto buddy buddy)
        else s.pushAvailList elem

def deallocate (block : Nat) (s : BuddyAllocator) : Error × BuddyAllocator :=
  if block = 0 then (.nullPointer, s)
  else if s.pool = 0 then (.invalidState, s)
  else if !s.owns block then (.notOwner, s)
  else (.success, s.coalesce (s.poolKVal + 1) (block - AvailListElem.size))

/-- `allocationSize`: what the block has room for, zero when it is not from the pool. -/
def allocationSize (block : Nat) (s : BuddyAllocator) : Nat :=
  if !s.owns block then 0
  else (2 ^ peek s.memory (block - AvailListElem.size) .kVal + (2 ^ 64 - AvailListElem.size)) % 2 ^ 64

/-- `memcpy(target, src, n)` in the allocator's memory. -/
def memcpy (target src n : Nat) (s : BuddyAllocator) : BuddyAllocator :=
  { s with memory := s.memory.copy target src n }

/-- `reallocate`: the code and the new block, null where none is given.  It ends the process when the old
block is not taken back. -/
def reallocate (oldBlock size : Nat) (source : Except Failure Nat) (s : BuddyAllocator) :
    Option ((Error × Nat) × BuddyAllocator) :=
  if oldBlock = 0 then s.allocate size source
  else if size = 0 then
    let (error, s) := s.deallocate oldBlock
    some ((error, 0), s)
  else if s.pool = 0 then some ((.invalidState, 0), s)
  else
    let originalSize := s.allocationSize oldBlock
    if originalSize = 0 then some ((.notOwner, 0), s)
    else
      (s.allocate size source).bind fun ((error, newBlock), s) =>
        if error ≠ .success then some ((error, 0), s)
        else
          let (error, s) := (s.memcpy newBlock oldBlock (min size originalSize)).deallocate oldBlock
          if error = .success then some ((.success, newBlock), s) else none

/-- `reset`; the list keeps its pointer into the pool that is gone. -/
def reset (s : BuddyAllocator) : Error × BuddyAllocator :=
  if s.pool = 0 then (.invalidState, s)
  else if s.availList s.poolKVal = 0 then (.inUse, s)
  else (.success, { s with pool := 0 })

end BuddyAllocator

end Everscale
