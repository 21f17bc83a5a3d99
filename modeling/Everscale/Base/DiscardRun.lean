/-
# Everscale.Base.DiscardRun -- histories of a discard allocator

A run is an allocator with the blocks it gave out since the last reset.  The source allocator
gives out aligned memory that is apart from all it gave out before.
-/
import Everscale.Base.DiscardAllocator

namespace Everscale

set_option autoImplicit false

open Theory

namespace DiscardAllocator

/-- The memory of a chunk. -/
def Chunk.range (c : Chunk) : Range := ⟨c.address, c.granted⟩

/-- What a chunk has besides its head. -/
def Chunk.room (alignmentSize : Nat) (c : Chunk) : Range :=
  ⟨c.address + SizeofChunk alignmentSize, c.granted - SizeofChunk alignmentSize⟩

end DiscardAllocator

structure DiscardRun where
  allocator : DiscardAllocator
  since : List Range := []

inductive DiscardCall where
  | allocate (size : Nat) (source again : Except Failure Nat)
  | reset

namespace DiscardRun

open DiscardAllocator

def answered (r : DiscardRun) (size : Nat) : (Error × Nat) × DiscardAllocator → DiscardRun
  | ((error, block), allocator) =>
      if error = .success then ⟨allocator, ⟨block, size⟩ :: r.since⟩ else ⟨allocator, r.since⟩

def happen (r : DiscardRun) : DiscardCall → DiscardRun
  | .allocate size source again => r.answered size (r.allocator.allocate size source again)
  | .reset => ⟨r.allocator.reset, []⟩

def run (r : DiscardRun) (calls : List DiscardCall) : DiscardRun := calls.foldl happen r

/-- The memory is aligned as configured, and apart from that of the chunks. -/
def Granted (a : DiscardAllocator) (size address : Nat) : Prop :=
  a.alignmentSize ∣ address ∧ ∀ c ∈ a.chunks,
    Range.Apart ⟨address, a.chunkRequest (if a.chunkSize < size then size else a.chunkSize)⟩ c.range

def Legal (r : DiscardRun) : DiscardCall → Prop
  | .allocate size (.ok address) _ => Granted r.allocator size address
  | _ => True

def LegalRun (r : DiscardRun) : List DiscardCall → Prop
  | [] => True
  | call :: calls => r.Legal call ∧ LegalRun (r.happen call) calls

/-- The chunk is of a size that an `int` holds, if there is room in it. -/
def Measured (c : Chunk) : Prop := c.idx < c.size → c.size < 2 ^ 31

/-- A chunk for the request alone is of a size of 32 bits, another one of a size that an `int`
holds. -/
def Fits (r : DiscardRun) : DiscardCall → Prop
  | .allocate size _ _ =>
      if r.allocator.chunkSize < size then SizeofChunk r.allocator.alignmentSize + size < 2 ^ 32
      else r.allocator.chunkSize < 2 ^ 31 ∧ ∀ head ∈ r.allocator.chunks.head?, Measured head
  | .reset => True

def FitsRun (r : DiscardRun) : List DiscardCall → Prop
  | [] => True
  | call :: calls => r.Fits call ∧ FitsRun (r.happen call) calls

/-- What the users rely on: blocks are aligned, each within one chunk, and apart. -/
structure WellCut (r : DiscardRun) : Prop where
  aligned : ∀ b ∈ r.since, r.allocator.alignmentSize ∣ b.start
  within : ∀ b ∈ r.since, ∃ c ∈ r.allocator.chunks, b.Within (c.room r.allocator.alignmentSize)
  apart : r.since.Pairwise Range.Apart

/-! ## Alignment -/

theorem ESB_ALIGN_spec (w a value : Nat) (le : a ≤ w) (fits : value + 2 ^ a < 2 ^ w) :
    2 ^ a ∣ ESB_ALIGN w value (2 ^ a) ∧ value ≤ ESB_ALIGN w value (2 ^ a) ∧
      ESB_ALIGN w value (2 ^ a) < value + 2 ^ a := by
  have pos := Nat.two_pow_pos a
  unfold ESB_ALIGN
  split
  · rename_i rest
    have parts := Nat.div_add_mod value (2 ^ a)
    have small := Nat.mod_lt value pos
    rw [and_mask le (by omega)]
    have masked : value / 2 ^ a * 2 ^ a + 2 ^ a < 2 ^ w := by
      rw [Nat.mul_comm]
      omega
    rw [Nat.mod_eq_of_lt masked]
    refine ⟨?_, ?_, ?_⟩
    · exact Nat.dvd_add (Nat.dvd_mul_left _ _) (Nat.dvd_refl _)
    · rw [Nat.mul_comm]; omega
    · rw [Nat.mul_comm]; omega
  · rename_i rest
    exact ⟨Nat.dvd_of_mod_eq_zero (by omega), Nat.le_refl _, by omega⟩

/-- The head of a chunk leaves the address aligned. -/
theorem SizeofChunk_spec {a : Nat} (le : a ≤ 15) :
    2 ^ a ∣ SizeofChunk (2 ^ a) ∧ SizeofChunk (2 ^ a) < 2 ^ 16 := by
  have bound : 2 ^ a ≤ 2 ^ 15 := Nat.pow_le_pow_right (by decide) le
  have spec := ESB_ALIGN_spec 32 a 32 (by omega) (by omega)
  unfold SizeofChunk
  exact ⟨spec.1, by omega⟩

/-! ## Chunks and the blocks in them -/

structure Whole (alignmentSize : Nat) (c : Chunk) : Prop where
  data : c.data = c.address + SizeofChunk alignmentSize
  aligned : alignmentSize ∣ c.address
  granted : SizeofChunk alignmentSize ≤ c.granted
  sized : c.size < 2 ^ 31 → c.granted = SizeofChunk alignmentSize + c.size
  idx : c.idx < c.size → alignmentSize ∣ c.idx

structure Sound (r : DiscardRun) : Prop where
  power : ∃ a ≤ 15, r.allocator.alignmentSize = 2 ^ a
  whole : ∀ c ∈ r.allocator.chunks, Whole r.allocator.alignmentSize c
  chunksApart : r.allocator.chunks.Pairwise fun c c' => c.range.Apart c'.range
  aligned : ∀ b ∈ r.since, r.allocator.alignmentSize ∣ b.start
  used : ∀ b ∈ r.since, ∃ c ∈ r.allocator.chunks, b.Within (c.room r.allocator.alignmentSize) ∧
    b.start + b.length ≤ c.data + c.idx
  apart : r.since.Pairwise Range.Apart

theorem Sound.wellCut {r : DiscardRun} (sound : r.Sound) : r.WellCut where
  aligned := sound.aligned
  within b member := by
    obtain ⟨c, chunk, within, -⟩ := sound.used b member
    exact ⟨c, chunk, within⟩
  apart := sound.apart

theorem room_within {alignmentSize : Nat} {c : Chunk} (whole : Whole alignmentSize c) :
    (c.room alignmentSize).Within c.range := by
  have := whole.granted
  unfold Range.Within Chunk.room Chunk.range
  dsimp only
  omega

/-- A chunk more, with no block in it. -/
theorem Sound.insert {r : DiscardRun} (sound : r.Sound) {c : Chunk} (whole : Whole r.allocator.alignmentSize c)
    (apart : ∀ c' ∈ r.allocator.chunks, c.range.Apart c'.range) {chunks : List Chunk}
    (perm : chunks.Perm (c :: r.allocator.chunks)) :
    Sound ⟨{ r.allocator with chunks }, r.since⟩ where
  power := sound.power
  whole c' member := by
    rcases List.mem_cons.1 (perm.mem_iff.1 member) with rfl | member
    · exact whole
    · exact sound.whole c' member
  chunksApart := by
    refine (perm.pairwise_iff fun {_ _} => Range.Apart.symm).2 ?_
    exact List.pairwise_cons.2 ⟨apart, sound.chunksApart⟩
  aligned := sound.aligned
  used b member := by
    obtain ⟨c', chunk, used⟩ := sound.used b member
    exact ⟨c', perm.mem_iff.2 (List.mem_cons_of_mem _ chunk), used⟩
  apart := sound.apart

/-! ## One call -/

theorem chunkRequest_eq {a : DiscardAllocator} {n : Nat} (noWrap : SizeofChunk a.alignmentSize + n < 2 ^ 32) :
    a.chunkRequest n = SizeofChunk a.alignmentSize + n := by
  unfold chunkRequest
  rw [Nat.mod_eq_of_lt (show n < 2 ^ 32 by omega), Nat.mod_eq_of_lt noWrap]

theorem signExtended_of_int {n : Nat} (small : n < 2 ^ 31) : signExtended n = n := by
  unfold signExtended
  rw [Nat.mod_eq_of_lt (by omega), if_pos small]

theorem le_signExtended {n : Nat} (small : n < 2 ^ 32) :
    n ≤ signExtended n ∧ (signExtended n < 2 ^ 31 → signExtended n = n) := by
  unfold signExtended
  rw [Nat.mod_eq_of_lt small]
  split
  · exact ⟨Nat.le_refl _, fun _ => rfl⟩
  · exact ⟨by omega, fun _ => by omega⟩

/-- A chunk for a size that does not wrap. -/
theorem allocateChunk_spec {a : DiscardAllocator} {n : Nat} {source : Except Failure Nat} {c : Chunk}
    (power : ∃ e ≤ 15, a.alignmentSize = 2 ^ e) (noWrap : SizeofChunk a.alignmentSize + n < 2 ^ 32)
    (made : a.allocateChunk n source = .ok c) (aligned : ∀ address, source = .ok address → a.alignmentSize ∣ address) :
    (∃ address, source = .ok address ∧ c.range = ⟨address, a.chunkRequest n⟩) ∧
      Whole a.alignmentSize c ∧ c.idx = 0 ∧ c.size = signExtended n ∧
      c.granted = SizeofChunk a.alignmentSize + n := by
  unfold allocateChunk at made
  split at made
  · exact nomatch made
  · cases source with
    | error error => exact nomatch made
    | ok address =>
        cases made
        have request := chunkRequest_eq noWrap
        refine ⟨⟨address, rfl, rfl⟩, ⟨rfl, aligned address rfl, ?_, fun small => ?_, fun _ => Nat.dvd_zero _⟩,
          rfl, rfl, request⟩
        · dsimp only
          omega
        · dsimp only at small ⊢
          rw [request, (le_signExtended (by omega)).2 small]

/-- A block cut from a head that has room for it. -/
theorem Sound.cut {r : DiscardRun} (sound : r.Sound) {head : Chunk} {rest : List Chunk}
    (chunks : r.allocator.chunks = head :: rest) {size : Nat} (positive : size ≠ 0)
    (room : head.idx + size ≤ head.size) (measured : head.size < 2 ^ 31) :
    (r.answered size (r.allocator.cut head rest size)).Sound := by
  obtain ⟨e, le, power⟩ := sound.power
  have headMember : head ∈ r.allocator.chunks := by rw [chunks]; exact List.mem_cons_self
  have whole := sound.whole head headMember
  have bound : 2 ^ e ≤ 2 ^ 15 := Nat.pow_le_pow_right (by decide) le
  have align := ESB_ALIGN_spec 64 e size (by omega) (by omega)
  rw [← power] at align bound
  have idxAligned := whole.idx (by omega)
  have granted := whole.sized measured
  have sum : (head.idx + ESB_ALIGN 64 size r.allocator.alignmentSize) % 2 ^ 64 =
      head.idx + ESB_ALIGN 64 size r.allocator.alignmentSize := Nat.mod_eq_of_lt (by omega)
  have headAligned : r.allocator.alignmentSize ∣ head.data := by
    rw [whole.data]
    refine Nat.dvd_add whole.aligned ?_
    rw [power]
    exact (SizeofChunk_spec le).1
  -- the block lies in the head, behind all that was cut from it
  have within : Range.Within ⟨head.data + head.idx, size⟩ (head.room r.allocator.alignmentSize) := by
    have data := whole.data
    unfold Range.Within Chunk.room
    dsimp only
    omega
  have fresh : ∀ b ∈ r.since, Range.Apart ⟨head.data + head.idx, size⟩ b := by
    intro b member
    obtain ⟨c, chunk, inRoom, before⟩ := sound.used b member
    rw [chunks] at chunk
    rcases List.mem_cons.1 chunk with rfl | other
    · unfold Range.Apart
      dsimp only
      omega
    · have apart := sound.chunksApart
      rw [chunks] at apart
      have otherWhole := sound.whole c (by rw [chunks]; exact chunk)
      exact (within.trans (room_within whole)).apart (inRoom.trans (room_within otherWhole))
        ((List.pairwise_cons.1 apart).1 c other)
  show Sound ⟨(r.allocator.cut head rest size).2, ⟨head.data + head.idx, size⟩ :: r.since⟩
  unfold DiscardAllocator.cut
  dsimp only
  rw [sum]
  constructor
  case power => exact sound.power
  case whole =>
    intro c member
    rcases List.mem_cons.1 member with rfl | member
    · exact ⟨whole.data, whole.aligned, whole.granted, whole.sized, fun _ => Nat.dvd_add idxAligned align.1⟩
    · exact sound.whole c (by rw [chunks]; exact List.mem_cons_of_mem _ member)
  case chunksApart =>
    have apart := sound.chunksApart
    rw [chunks] at apart
    exact List.pairwise_cons.2 (List.pairwise_cons.1 apart)
  case aligned => exact List.forall_mem_cons.2 ⟨Nat.dvd_add headAligned idxAligned, sound.aligned⟩
  case used =>
    intro b member
    rcases List.mem_cons.1 member with rfl | member
    · exact ⟨_, List.mem_cons_self, within, by dsimp only; omega⟩
    · obtain ⟨c, chunk, inRoom, before⟩ := sound.used b member
      rw [chunks] at chunk
      rcases List.mem_cons.1 chunk with rfl | other
      · exact ⟨_, List.mem_cons_self, inRoom, by dsimp only; omega⟩
      · exact ⟨c, List.mem_cons_of_mem _ other, inRoom, before⟩
  case apart => exact List.pairwise_cons.2 ⟨fresh, sound.apart⟩

theorem allocateChunk_failure {a : DiscardAllocator} {n : Nat} {source : Except Failure Nat} {error : Error}
    (failed : a.allocateChunk n source = .error error) : error ≠ .success := by
  unfold allocateChunk at failed
  split at failed
  · cases failed; decide
  · cases source with
    | error failure => cases failed; exact failure.2
    | ok address => exact nomatch failed

/-- Without an answer from the source there is no chunk. -/
theorem allocateChunk_made {a : DiscardAllocator} {n : Nat} {source : Except Failure Nat} {c : Chunk}
    (made : a.allocateChunk n source = .ok c) : ∃ address, source = .ok address := by
  unfold allocateChunk at made
  split at made
  · exact nomatch made
  · cases source with
    | error failure => exact nomatch made
    | ok address => exact ⟨address, rfl⟩

section calls

variable {r : DiscardRun} (sound : r.Sound)

include sound

theorem Sound.refused (size : Nat) {error : Error} (failure : error ≠ .success) :
    (r.answered size ((error, 0), r.allocator)).Sound := by
  rw [answered, if_neg failure]
  exact sound

/-- A new head has room for what made it. -/
theorem Sound.cut_new {head : Chunk} {size : Nat} (positive : size ≠ 0) {address : Nat}
    (made : r.allocator.allocateChunk r.allocator.chunkSize (.ok address) = .ok head)
    (fits : size ≤ r.allocator.chunkSize) (small : r.allocator.chunkSize < 2 ^ 31)
    (granted : Granted r.allocator size address) :
    head.idx = 0 ∧ head.size = r.allocator.chunkSize ∧
      (r.answered size (r.allocator.cut head r.allocator.chunks size)).Sound := by
  obtain ⟨e, le, power⟩ := sound.power
  have short : SizeofChunk r.allocator.alignmentSize < 2 ^ 16 := by
    rw [power]
    exact (SizeofChunk_spec le).2
  have aligned : ∀ a, (Except.ok address : Except Failure Nat) = .ok a → r.allocator.alignmentSize ∣ a :=
    fun a same => Except.ok.inj same ▸ granted.1
  obtain ⟨⟨address', same, range⟩, whole, idx, headSize, -⟩ :=
    allocateChunk_spec sound.power (by omega) made aligned
  cases same
  rw [signExtended_of_int small] at headSize
  refine ⟨idx, headSize, ?_⟩
  have apart : ∀ c ∈ r.allocator.chunks, head.range.Apart c.range := by
    have apart := granted.2
    rw [if_neg (by omega)] at apart
    rw [range]
    exact apart
  have more := sound.insert whole apart (List.Perm.refl _)
  exact more.cut rfl positive (by omega) (by omega)

theorem Sound.allocate_small {size : Nat} (positive : size ≠ 0) (fits : size ≤ r.allocator.chunkSize)
    (small : r.allocator.chunkSize < 2 ^ 31) (measured : ∀ head ∈ r.allocator.chunks.head?, Measured head)
    {source again : Except Failure Nat} (legal : r.Legal (.allocate size source again)) :
    (r.answered size (r.allocator.allocate size source again)).Sound := by
  unfold DiscardAllocator.allocate
  rw [if_neg positive, if_neg (by omega)]
  have new : ∀ {head : Chunk}, r.allocator.allocateChunk r.allocator.chunkSize source = .ok head →
      head.idx = 0 ∧ head.size = r.allocator.chunkSize ∧
        (r.answered size (r.allocator.cut head r.allocator.chunks size)).Sound := by
    intro head made
    obtain ⟨address, rfl⟩ := allocateChunk_made made
    exact sound.cut_new positive made fits small legal
  cases chunks : r.allocator.chunks with
  | nil =>
      dsimp only
      cases opened : r.allocator.allocateChunk r.allocator.chunkSize source with
      | error error => exact sound.refused size (allocateChunk_failure opened)
      | ok head =>
          obtain ⟨idx, headSize, sound'⟩ := new opened
          rw [chunks] at sound'
          dsimp only
          unfold allocateSmall
          rw [idx, headSize, if_neg (by simp only [gt_iff_lt, Nat.not_lt_zero, if_false]; omega)]
          exact sound'
  | cons head rest =>
      dsimp only
      unfold allocateSmall
      by_cases room : (if head.idx > head.size then 0 else head.size - head.idx) < size
      · rw [if_pos room]
        cases opened : r.allocator.allocateChunk r.allocator.chunkSize source with
        | error error =>
            have same : { r.allocator with chunks := head :: rest } = r.allocator := by rw [← chunks]
            dsimp only
            rw [same]
            exact sound.refused size (allocateChunk_failure opened)
        | ok newHead =>
            obtain ⟨-, -, sound'⟩ := new opened
            rw [chunks] at sound'
            exact sound'
      · rw [if_neg room]
        have some_ : head.idx + size ≤ head.size := by
          split at room <;> omega
        exact sound.cut chunks positive some_ (measured head (by rw [chunks]; rfl) (by omega))

theorem Sound.allocate_large {size : Nat} (large : r.allocator.chunkSize < size)
    (fits : SizeofChunk r.allocator.alignmentSize + size < 2 ^ 32) {source again : Except Failure Nat}
    (legal : r.Legal (.allocate size source again)) :
    (r.answered size (r.allocator.allocateLarge size source)).Sound := by
  unfold allocateLarge
  cases made : r.allocator.allocateChunk size source with
  | error error => exact sound.refused size (allocateChunk_failure made)
  | ok chunk =>
      obtain ⟨address, rfl⟩ := allocateChunk_made made
      obtain ⟨e, le, power⟩ := sound.power
      have aligned : ∀ a, (Except.ok address : Except Failure Nat) = .ok a → r.allocator.alignmentSize ∣ a :=
        fun a same => Except.ok.inj same ▸ legal.1
      obtain ⟨⟨address', same, range⟩, whole, -, chunkSize, granted⟩ :=
        allocateChunk_spec sound.power fits made aligned
      cases same
      have full : Whole r.allocator.alignmentSize { chunk with idx := chunk.size } :=
        ⟨whole.data, whole.aligned, whole.granted, whole.sized, fun less => absurd less (Nat.lt_irrefl _)⟩
      have apart : ∀ c ∈ r.allocator.chunks, chunk.range.Apart c.range := by
        have apart := legal.2
        rw [if_pos large] at apart
        rw [range]
        exact apart
      have data := whole.data
      have within : Range.Within ⟨chunk.data, size⟩ (chunk.room r.allocator.alignmentSize) := by
        unfold Range.Within Chunk.room
        dsimp only
        omega
      have used : chunk.data + size ≤ chunk.data + chunk.size := by
        have := (le_signExtended (show size < 2 ^ 32 by omega)).1
        omega
      have dataAligned : r.allocator.alignmentSize ∣ chunk.data := by
        rw [data]
        refine Nat.dvd_add whole.aligned ?_
        rw [power]
        exact (SizeofChunk_spec le).1
      have fresh : ∀ b ∈ r.since, Range.Apart ⟨chunk.data, size⟩ b := by
        intro b member
        obtain ⟨c, other, inRoom, -⟩ := sound.used b member
        exact (within.trans (room_within whole)).apart (inRoom.trans (room_within (sound.whole c other)))
          (apart c other)
      -- the chunk stands first or second
      have joined : ∀ {chunks : List Chunk},
          chunks.Perm ({ chunk with idx := chunk.size } :: r.allocator.chunks) →
          Sound ⟨{ r.allocator with chunks }, ⟨chunk.data, size⟩ :: r.since⟩ := by
        intro chunks perm
        have more := sound.insert full apart perm
        refine ⟨more.power, more.whole, more.chunksApart, ?_, ?_, List.pairwise_cons.2 ⟨fresh, more.apart⟩⟩
        · exact List.forall_mem_cons.2 ⟨dataAligned, more.aligned⟩
        · exact List.forall_mem_cons.2 ⟨⟨_, perm.mem_iff.2 List.mem_cons_self, within, used⟩, more.used⟩
      cases chunks : r.allocator.chunks with
      | nil => exact joined (by rw [chunks])
      | cons head rest => exact joined (by rw [chunks]; exact List.Perm.swap _ _ _)

theorem Sound.reset : (r.happen .reset).Sound := by
  show Sound ⟨r.allocator.reset, []⟩
  unfold DiscardAllocator.reset
  cases last : r.allocator.chunks.getLast? with
  | none =>
      exact ⟨sound.power, fun _ member => (nomatch member), .nil, fun _ member => (nomatch member),
        fun _ member => (nomatch member), .nil⟩
  | some chunk =>
      have whole := sound.whole chunk (List.mem_of_getLast? last)
      refine ⟨sound.power, fun c member => ?_, List.pairwise_singleton _ _, fun _ member => (nomatch member),
        fun _ member => (nomatch member), .nil⟩
      rw [List.mem_singleton.1 member]
      exact ⟨whole.data, whole.aligned, whole.granted, whole.sized, fun _ => Nat.dvd_zero _⟩

theorem happen_sound {call : DiscardCall} (legal : r.Legal call) (fits : r.Fits call) : (r.happen call).Sound := by
  cases call with
  | reset => exact sound.reset
  | allocate size source again =>
      by_cases nothing : size = 0
      · subst nothing
        exact sound.refused 0 (show Error.invalidArgument ≠ .success by decide)
      · unfold Fits at fits
        dsimp only at fits
        rw [happen]
        by_cases large : r.allocator.chunkSize < size
        · rw [if_pos large] at fits
          unfold DiscardAllocator.allocate
          rw [if_neg nothing, if_pos large]
          exact sound.allocate_large large fits legal
        · rw [if_neg large] at fits
          exact sound.allocate_small nothing (by omega) fits.1 fits.2 legal

end calls

/-! ## Whole runs -/

theorem run_sound (calls : List DiscardCall) :
    ∀ {r : DiscardRun}, r.Sound → r.LegalRun calls → r.FitsRun calls → (r.run calls).Sound := by
  induction calls with
  | nil =>
      intro r sound legal fits
      exact sound
  | cons call calls ih =>
      intro r sound legal fits
      exact ih (happen_sound sound legal.1 fits.1) legal.2 fits.2

/-- Between two resets, blocks are aligned, within a chunk, and apart. -/
theorem run_wellCut {chunkSize : UInt32} {alignmentSize multipleOf : UInt16}
    (power : ∃ e ≤ 15, alignmentSize.toNat = 2 ^ e) (calls : List DiscardCall)
    (legal : LegalRun ⟨create chunkSize alignmentSize multipleOf, []⟩ calls)
    (fits : FitsRun ⟨create chunkSize alignmentSize multipleOf, []⟩ calls) :
    (run ⟨create chunkSize alignmentSize multipleOf, []⟩ calls).WellCut := by
  have sound : Sound ⟨create chunkSize alignmentSize multipleOf, []⟩ :=
    ⟨power, fun _ member => (nomatch member), .nil, fun _ member => (nomatch member),
      fun _ member => (nomatch member), .nil⟩
  exact (run_sound calls sound legal fits).wellCut

instance (a : DiscardAllocator) (size address : Nat) : Decidable (Granted a size address) :=
  inferInstanceAs (Decidable (_ ∧ _))

instance (r : DiscardRun) (call : DiscardCall) : Decidable (r.Legal call) :=
  match call with
  | .allocate _ (.ok _) _ => inferInstanceAs (Decidable (Granted _ _ _))
  | .allocate _ (.error _) _ => isTrue trivial
  | .reset => isTrue trivial

instance decidableLegalRun (r : DiscardRun) : (calls : List DiscardCall) → Decidable (r.LegalRun calls)
  | [] => isTrue trivial
  | call :: calls =>
      have := decidableLegalRun (r.happen call) calls
      inferInstanceAs (Decidable (_ ∧ _))

instance (c : Chunk) : Decidable (Measured c) := inferInstanceAs (Decidable (_ → _))

instance (r : DiscardRun) (call : DiscardCall) : Decidable (r.Fits call) :=
  match call with
  | .allocate size _ _ => inferInstanceAs (Decidable (if r.allocator.chunkSize < size then _ else _))
  | .reset => isTrue trivial

instance decidableFitsRun (r : DiscardRun) : (calls : List DiscardCall) → Decidable (r.FitsRun calls)
  | [] => isTrue trivial
  | call :: calls =>
      have := decidableFitsRun (r.happen call) calls
      inferInstanceAs (Decidable (_ ∧ _))

/-- Two blocks in one chunk, a chunk for a large one, and a reset that keeps the first chunk. -/
def someCalls : List DiscardCall :=
  [.allocate 10 (.ok 4096) (.ok 0), .allocate 100 (.ok 0) (.ok 0), .allocate 500 (.ok 8192) (.ok 0), .reset,
    .allocate 50 (.ok 0) (.ok 0)]

theorem someCalls_wellCut :
    LegalRun ⟨create 128 8 1, []⟩ someCalls ∧ FitsRun ⟨create 128 8 1, []⟩ someCalls ∧
      (run ⟨create 128 8 1, []⟩ someCalls).WellCut :=
  have legal : LegalRun ⟨create 128 8 1, []⟩ someCalls := by decide
  have fits : FitsRun ⟨create 128 8 1, []⟩ someCalls := by decide
  ⟨legal, fits, run_wellCut ⟨3, by decide, by decide⟩ someCalls legal fits⟩

/-- A request above 32 bits loses its high bits, and the source is asked for 132 octets. -/
theorem truncated_request :
    LegalRun ⟨create 128 8 1, []⟩ [.allocate (2 ^ 32 + 100) (.ok 4096) (.ok 0)] ∧
      ¬ (run ⟨create 128 8 1, []⟩ [.allocate (2 ^ 32 + 100) (.ok 4096) (.ok 0)]).WellCut := by
  refine ⟨by decide, fun wellCut => ?_⟩
  have since : (run ⟨create 128 8 1, []⟩ [.allocate (2 ^ 32 + 100) (.ok 4096) (.ok 0)]).since =
      [⟨4128, 2 ^ 32 + 100⟩] := by decide
  have chunks : (run ⟨create 128 8 1, []⟩ [.allocate (2 ^ 32 + 100) (.ok 4096) (.ok 0)]).allocator.chunks =
      [⟨4096, 100, 100, 4128, 132⟩] := by decide
  obtain ⟨c, chunk, within⟩ := wellCut.within ⟨4128, 2 ^ 32 + 100⟩ (by rw [since]; exact List.mem_cons_self)
  rw [chunks, List.mem_singleton] at chunk
  subst chunk
  unfold Range.Within Chunk.room at within
  dsimp only at within
  omega

end DiscardRun

end Everscale
