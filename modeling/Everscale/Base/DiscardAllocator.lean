/-
# Everscale.Base.DiscardAllocator -- blocks cut from chunks

`DiscardAllocator` (`ESBDiscardAllocator.cpp`).  A chunk is a piece of memory from the source
allocator that begins with its own head; the chunks are a list, `_head` first.  Sizes are kept
in 32 and 64 bits as the source does; what the source allocator answers is an argument.
-/
import Everscale.Base.Error
import Everscale.Theory.Layout

namespace Everscale

set_option autoImplicit false

open Theory

/-- The macro, for a value of `w` bits. -/
def ESB_ALIGN (w value size : Nat) : Nat :=
  if value % size ≠ 0 then ((value &&& (2 ^ w - size)) + size) % 2 ^ w else value

structure DiscardAllocator.Chunk where
  address : Nat
  idx : Nat
  size : Nat
  data : Nat
  /-- How much the source allocator was asked for. -/
  granted : Nat
  deriving DecidableEq, Repr

structure DiscardAllocator where
  alignmentSize : Nat
  multipleOf : Nat
  chunkSize : Nat
  chunks : List DiscardAllocator.Chunk := []
  deriving DecidableEq, Repr

namespace DiscardAllocator

/-- The constructor. -/
def create (chunkSize : UInt32) (alignmentSize multipleOf : UInt16) : DiscardAllocator where
  alignmentSize := alignmentSize.toNat
  multipleOf := multipleOf.toNat
  chunkSize := ESB_ALIGN 32 (if 128 > chunkSize.toNat then 128 else chunkSize.toNat) alignmentSize.toNat

/-- `SizeofChunk`, from the 32 octets of a `Chunk`. -/
def SizeofChunk (alignmentSize : Nat) : Nat := ESB_ALIGN 32 32 alignmentSize

/-- An `int` made of the low 32 bits, as a word of 64. -/
def signExtended (size : Nat) : Nat :=
  if size % 2 ^ 32 < 2 ^ 31 then size % 2 ^ 32 else size % 2 ^ 32 + (2 ^ 64 - 2 ^ 32)

/-- The size in 32 bits that `allocateChunk` asks the source allocator for. -/
def chunkRequest (chunkSize : Nat) (a : DiscardAllocator) : Nat :=
  (SizeofChunk a.alignmentSize + chunkSize % 2 ^ 32) % 2 ^ 32

def allocateChunk (chunkSize : Nat) (source : Except Failure Nat) (a : DiscardAllocator) : Except Error Chunk :=
  if a.chunkRequest chunkSize % a.multipleOf ≠ 0 then .error .invalidState
  else
    match source with
    | .error error => .error error
    | .ok address => .ok
        { address
          idx := 0
          size := signExtended chunkSize
          data := address + SizeofChunk a.alignmentSize
          granted := a.chunkRequest chunkSize }

/-- A request above the size of a chunk has a chunk of its own, behind the head. -/
def allocateLarge (size : Nat) (source : Except Failure Nat) (a : DiscardAllocator) :
    (Error × Nat) × DiscardAllocator :=
  match a.allocateChunk size source with
  | .error error => ((error, 0), a)
  | .ok chunk =>
      let chunk := { chunk with idx := chunk.size }
      match a.chunks with
      | [] => ((.success, chunk.data), { a with chunks := [chunk] })
      | head :: rest => ((.success, chunk.data), { a with chunks := head :: chunk :: rest })

/-- The block is cut from the head, and what is left begins aligned. -/
def cut (head : Chunk) (rest : List Chunk) (size : Nat) (a : DiscardAllocator) :
    (Error × Nat) × DiscardAllocator :=
  let idx := (head.idx + ESB_ALIGN 64 size a.alignmentSize) % 2 ^ 64
  ((.success, head.data + head.idx), { a with chunks := { head with idx } :: rest })

/-- From the head when it has room, else from a new one. -/
def allocateSmall (head : Chunk) (rest : List Chunk) (size : Nat) (source : Except Failure Nat)
    (a : DiscardAllocator) : (Error × Nat) × DiscardAllocator :=
  if (if head.idx > head.size then 0 else head.size - head.idx) < size then
    match a.allocateChunk a.chunkSize source with
    | .error error => ((error, 0), { a with chunks := head :: rest })
    | .ok newHead => a.cut newHead (head :: rest) size
  else a.cut head rest size

/-- `allocate`: the code and the block, null on failure.  The source allocator is asked `again`
when a head that was just made has no room. -/
def allocate (size : Nat) (source again : Except Failure Nat) (a : DiscardAllocator) :
    (Error × Nat) × DiscardAllocator :=
  if size = 0 then ((.invalidArgument, 0), a)
  else if a.chunkSize < size then a.allocateLarge size source
  else
    match a.chunks with
    | [] =>
        match a.allocateChunk a.chunkSize source with
        | .error error => ((error, 0), a)
        | .ok head => a.allocateSmall head [] size again
    | head :: rest => a.allocateSmall head rest size source

/-- `reset` keeps the last chunk. -/
def reset (a : DiscardAllocator) : DiscardAllocator :=
  { a with chunks := (a.chunks.getLast?.map fun chunk => { chunk with idx := 0 }).toList }

end DiscardAllocator

end Everscale
