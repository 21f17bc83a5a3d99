/-
# Everscale.Base.BuddyCacheAllocator -- a buddy allocator in front of another

`BuddyCacheAllocator` (`ESBBuddyCacheAllocator.cpp`) and `BuddyAllocator::reallocate`, whose
calls of `allocate` and `deallocate` are those of the cache.  The source and the failover
allocator are not modelled: what they answer during a call is an argument, and what the
failover allocator was asked is kept in `asked`, the latest call first.  `none` is a call that
does not return, because it loops or because it ends the process.
-/
import Everscale.Base.BuddyAllocator

namespace Everscale

set_option autoImplicit false

open Theory

/-- A call of the failover allocator. -/
inductive FailoverCall where
  | allocate (size : Nat)
  | deallocate (block : Nat)
  | reallocate (oldBlock size : Nat)
  deriving DecidableEq, Repr

/-- What the other allocators answer during one call.  A reallocation may ask the failover
allocator for a block a second time. -/
structure Answers where
  source : Except Failure Nat
  allocate : Except Failure Nat
  allocateAgain : Except Failure Nat
  deallocate : Error
  /-- The block, and the memory once its contents are there. -/
  reallocate : Except Failure (Nat × Memory)
  reallocates : Bool

structure BuddyCacheAllocator where
  buddy : BuddyAllocator
  cacheBytes : Nat := 0
  failoverBytes : Nat := 0
  asked : List FailoverCall := []

namespace BuddyCacheAllocator

/-- `_cacheBytes += size`. -/
def addCacheBytes (size : Nat) (c : BuddyCacheAllocator) : BuddyCacheAllocator :=
  { c with cacheBytes := (c.cacheBytes + size) % 2 ^ 64 }

/-- `_failoverBytes += size`. -/
def addFailoverBytes (size : Nat) (c : BuddyCacheAllocator) : BuddyCacheAllocator :=
  { c with failoverBytes := (c.failoverBytes + size) % 2 ^ 64 }

def ask (call : FailoverCall) (c : BuddyCacheAllocator) : BuddyCacheAllocator :=
  { c with asked := call :: c.asked }

/-- `_failover.allocate`, and the count of what came of it. -/
def failoverAllocate (size : Nat) (answer : Except Failure Nat) (c : BuddyCacheAllocator) :
    (Error × Nat) × BuddyCacheAllocator :=
  let c := c.ask (.allocate size)
  match answer with
  | .ok block => ((.success, block), c.addFailoverBytes size)
  | .error error => ((error, 0), c)

/-- `allocate`: the code and the block, null on failure. -/
def allocate (size : Nat) (answers : Answers) (c : BuddyCacheAllocator) :
    Option ((Error × Nat) × BuddyCacheAllocator) :=
  (c.buddy.allocate size answers.source).map fun ((error, block), buddy) =>
    let c := { c with buddy }
    if error = .success then ((.success, block), c.addCacheBytes size)
    else c.failoverAllocate size answers.allocate

def deallocate (block : Nat) (answers : Answers) (c : BuddyCacheAllocator) : Error × BuddyCacheAllocator :=
  let (error, buddy) := c.buddy.deallocate block
  let c := { c with buddy }
  if error = .notOwner then (answers.deallocate, c.ask (.deallocate block)) else (error, c)

/-- `BuddyAllocator::reallocate`.  It ends the process when the old block is not taken back. -/
def buddyReallocate (oldBlock size : Nat) (answers : Answers) (c : BuddyCacheAllocator) :
    Option ((Error × Nat) × BuddyCacheAllocator) :=
  if oldBlock = 0 then c.allocate size answers
  else if size = 0 then
    let (error, c) := c.deallocate oldBlock answers
    some ((error, 0), c)
  else if c.buddy.pool = 0 then some ((.invalidState, 0), c)
  else
    let originalSize := c.buddy.allocationSize oldBlock
    if originalSize = 0 then some ((.notOwner, 0), c)
    else
      (c.allocate size answers).bind fun ((error, newBlock), c) =>
        if error ≠ .success then some ((error, 0), c)
        else
          let c := { c with buddy := c.buddy.memcpy newBlock oldBlock (min size originalSize) }
          let (error, c) := c.deallocate oldBlock answers
          if error = .success then some ((.success, newBlock), c) else none

/-- `reallocate` when the pool and the failover allocator are exhausted: the latter is asked
again.  A null block has no size, and where there is no pool it counts as one of the pool. -/
def reallocateExhausted (oldBlock newBlockSize : Nat) (answers : Answers) (c : BuddyCacheAllocator) :
    Option ((Error × Nat) × BuddyCacheAllocator) :=
  match c.failoverAllocate newBlockSize answers.allocateAgain with
  | ((.success, block), c) =>
      if oldBlock = 0 then none
      else
        -- the size is kept in 32 bits
        let oldBlockSize := c.buddy.allocationSize oldBlock % 2 ^ 32
        if oldBlockSize = 0 then none
        else
          let buddy := c.buddy.memcpy block oldBlock (min oldBlockSize newBlockSize)
          some ((.success, block), { c with buddy := (buddy.deallocate oldBlock).2 })
  | failed => some failed

/-- What `reallocate` makes of the code that `BuddyAllocator::reallocate` returns. -/
def afterBuddy (oldBlock newBlockSize : Nat) (answers : Answers) :
    (Error × Nat) × BuddyCacheAllocator → Option ((Error × Nat) × BuddyCacheAllocator)
  | ((.success, block), c) => some ((.success, block), c.addCacheBytes newBlockSize)
  | ((.notOwner, _), c) =>
      let c := c.ask (.reallocate oldBlock newBlockSize)
      match answers.reallocate with
      | .ok (block, memory) => some
          ((.success, block), { c with buddy := { c.buddy with memory } }.addFailoverBytes newBlockSize)
      | .error error => some ((error, 0), c)
  | ((.outOfMemory, _), c) => c.reallocateExhausted oldBlock newBlockSize answers
  | other => some other

def reallocate (oldBlock newBlockSize : Nat) (answers : Answers) (c : BuddyCacheAllocator) :
    Option ((Error × Nat) × BuddyCacheAllocator) :=
  if !answers.reallocates then some ((.operationNotSupported, 0), c)
  else (c.buddyReallocate oldBlock newBlockSize answers).bind (afterBuddy oldBlock newBlockSize answers)

end BuddyCacheAllocator

end Everscale
