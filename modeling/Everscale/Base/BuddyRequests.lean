/-
# Everscale.Base.BuddyRequests -- what a buddy allocator makes of a size

The search for an exponent ends exactly for the sizes from 2 up to `2 ^ 63`, with the least exponent
there is (`UWordToKVal_returns_iff`, `UWordToKVal_least`).  So a request whose head still fits gets a
block of the smallest order that has room for both, or a refusal when no block as large is free
(`requests_served`).

A reallocation takes a new block, copies and gives the old one back.  One that fails leaves the
allocator as it was; one that succeeds leaves every other block as it was (`reallocations_move`).
-/
import Mathlib.Order.Bounds.Basic
import Everscale.Base.BuddyCacheRun

namespace Everscale

set_option autoImplicit false

open Theory

namespace BuddyAllocator

open AvailListElem

/-! ## Exponents -/

theorem UWordToKVal_least {uWord k : Nat} (found : UWordToKVal uWord = some k) :
    IsLeast {k | uWord ≤ 2 ^ k} k := by
  obtain ⟨beyond, atMost⟩ := UWordToKVal_sound found
  refine ⟨atMost, fun j enough => ?_⟩
  have enough : uWord ≤ 2 ^ j := enough
  by_contra smaller
  have le : 2 ^ j ≤ 2 ^ (k - 1) := Nat.pow_le_pow_right (by decide) (by omega)
  omega

/-- The search does not reach the length of the list. -/
theorem kValLoop_small {uWord k : Nat} (turns : Nat) :
    ∀ {min kVal max : Nat}, kVal < ESB_AVAIL_LIST_LENGTH → max ≤ ESB_AVAIL_LIST_LENGTH →
      kValLoop uWord turns min kVal max = some k → k < ESB_AVAIL_LIST_LENGTH := by
  induction turns with
  | zero => exact fun _ _ found => nomatch found
  | succ turns ih =>
      intro min kVal max small bound found
      rw [kValLoop] at found
      simp only [ESB_AVAIL_LIST_LENGTH] at ih small bound ⊢
      split at found
      · exact ih (by omega) bound found
      · split at found
        · cases found
          exact small
        · exact ih (by omega) (by omega) found

/-- However many turns it is given, the search ends for these sizes only. -/
theorem kValLoop_returns_iff {uWord turns : Nat} (enough : ESB_AVAIL_LIST_LENGTH ≤ turns) :
    (∃ k, kValLoop uWord turns 0 8 ESB_AVAIL_LIST_LENGTH = some k) ↔ 2 ≤ uWord ∧ uWord ≤ 2 ^ 63 := by
  constructor
  · rintro ⟨k, found⟩
    obtain ⟨beyond, atMost⟩ := kValLoop_sound turns found
    have small := kValLoop_small turns (by decide) (Nat.le_refl _) found
    have positive := Nat.two_pow_pos (k - 1)
    have le := two_pow_of_short small
    omega
  · rintro ⟨low, high⟩
    exact kValLoop_returns low high turns (by decide) (by decide) (.inl rfl) (.inl rfl) enough

theorem UWordToKVal_returns_iff {uWord : Nat} :
    (∃ k, UWordToKVal uWord = some k) ↔ 2 ≤ uWord ∧ uWord ≤ 2 ^ 63 :=
  kValLoop_returns_iff (Nat.le_refl _)

theorem AdjustedKVal_least {requested k : Nat} (fits : requested + size < 2 ^ 64)
    (found : AdjustedKVal requested = some k) : IsLeast {k | requested + size ≤ 2 ^ k} k := by
  unfold AdjustedKVal at found
  rw [Nat.mod_eq_of_lt fits] at found
  exact UWordToKVal_least found

/-! ## Requests -/

/-- What is made of a request that blocks of order `k` are the smallest for. -/
inductive Served {K : Nat} (s : BuddyAllocator) (system : BuddySystem K) (k : Nat) :
    Option ((Error × Nat) × BuddyAllocator) → Prop where
  | block {start : Nat} {s' : BuddyAllocator} {system' : BuddySystem K} (free : ∃ b ∈ system.free, k ≤ b.order)
      (represents : Represents s' system') (new : ⟨start, k⟩ ∉ system.live)
      (live : system'.live = insert ⟨start, k⟩ system.live) :
      Served s system k (some ((.success, s.pool + start + size), s'))
  | exhausted (none : ∀ b ∈ system.free, b.order < k) : Served s system k (some ((.outOfMemory, 0), s))

section requests

variable {K : Nat} {s : BuddyAllocator} {system : BuddySystem K} {requested k : Nat}

/-- The first list that is not empty is found if a block of the order, or a larger one, is free. -/
theorem firstAvailable_none (holds : Represents s system) :
    s.firstAvailable k = none ↔ ∀ b ∈ system.free, b.order < k := by
  unfold firstAvailable
  rw [List.find?_eq_none]
  constructor
  · intro empty b free
    by_contra large
    have small : b.order < ESB_AVAIL_LIST_LENGTH := holds.order_lt (.inl free)
    have present := (availList_present holds small).2 ⟨b.start, free⟩
    have absent := empty b.order (List.mem_range.2 small)
    simp only [Bool.and_eq_true, decide_eq_true_eq, not_and] at absent
    exact absent (Nat.le_of_not_lt large) present
  · intro none j inRange chosen
    simp only [Bool.and_eq_true, decide_eq_true_eq] at chosen
    obtain ⟨start, free⟩ := (availList_present holds (List.mem_range.1 inRange)).1 chosen.2
    exact absurd (none _ free) (Nat.not_lt.2 chosen.1)

theorem allocateFromPool_served (holds : Represents s system) (large : 5 ≤ k) :
    Served s system k (some (s.allocateFromPool k)) := by
  have spec := allocateFromPool_spec holds large
  cases found : s.firstAvailable k with
  | none =>
      have out : s.allocateFromPool k = ((.outOfMemory, 0), s) := by
        unfold allocateFromPool
        rw [found]
      rw [out]
      exact .exhausted ((firstAvailable_none holds).1 found)
  | some actual =>
      obtain ⟨atLeast, small, present⟩ := firstAvailable_some found
      obtain ⟨start', free⟩ := (availList_present holds small).1 present
      have success : (s.allocateFromPool k).1.1 = .success := by
        unfold allocateFromPool
        rw [found]
      obtain out | ⟨start, system', answer, represents, new, live, -⟩ := spec
      · rw [out] at success
        exact nomatch success
      · rw [← Prod.mk.eta (p := s.allocateFromPool k), answer]
        exact .block ⟨_, free, atLeast⟩ represents new live

theorem allocate_served (holds : Represents s system) (something : requested ≠ 0)
    (fits : requested + size ≤ 2 ^ 63) (source : Except Failure Nat) :
    ∃ k, AdjustedKVal requested = some k ∧ IsLeast {k | requested + size ≤ 2 ^ k} k ∧
      Served s system k (s.allocate requested source) := by
  obtain ⟨k, found⟩ := AdjustedKVal_returns fits
  have below : requested + size < 2 ^ 64 := Nat.lt_of_le_of_lt fits (by decide)
  refine ⟨k, found, AdjustedKVal_least below found, ?_⟩
  rw [allocate_from_pool holds.poolPresent something, found]
  exact allocateFromPool_served holds (AdjustedKVal_room below found).1

end requests

/-- The allocator with a pool: one without takes a pool from the source first. -/
def ready (s : BuddyAllocator) (source : Except Failure Nat) : BuddyAllocator :=
  if s.pool = 0 then (s.initializePool source).2 else s

/-- What is made of any request.  One for nothing is refused, and one that finds no pool when the source
has none to give. -/
inductive Handled (K : Nat) (s : BuddyAllocator) (requested k : Nat) (source : Except Failure Nat) :
    Option ((Error × Nat) × BuddyAllocator) → Prop where
  | nothing (none : requested = 0) : Handled K s requested k source (some ((.invalidArgument, 0), s))
  | unsourced {failure : Failure} (poolless : s.pool = 0) (failed : source = .error failure) :
      Handled K s requested k source (some ((failure.1, 0), s))
  | served {answer : Option ((Error × Nat) × BuddyAllocator)} {system : BuddySystem K} (something : requested ≠ 0)
      (represents : Represents (s.ready source) system) (served : Served (s.ready source) system k answer) :
      Handled K s requested k source answer

end BuddyAllocator

open BuddyAllocator

namespace BuddyRun

open AvailListElem

theorem Settled.handled {K : Nat} {r : BuddyRun} (settled : r.Settled K) (low : 1 ≤ K)
    (small : K < ESB_AVAIL_LIST_LENGTH) {requested : Nat} (fits : requested + size ≤ 2 ^ 63)
    {source : Except Failure Nat} (granted : Granted K source) :
    ∃ k, AdjustedKVal requested = some k ∧ IsLeast {k | requested + size ≤ 2 ^ k} k ∧
      Handled K r.allocator requested k source (r.allocator.allocate requested source) := by
  obtain ⟨k, found⟩ := AdjustedKVal_returns fits
  have least := AdjustedKVal_least (Nat.lt_of_le_of_lt fits (by decide)) found
  refine ⟨k, found, least, ?_⟩
  by_cases nothing : requested = 0
  · rw [nothing, allocate_nothing]
    exact .nothing rfl
  · have served : ∀ {s : BuddyAllocator} {system : BuddySystem K}, Represents s system →
        Served s system k (s.allocate requested source) := by
      intro s system holds
      obtain ⟨k', found', -, served⟩ := allocate_served holds nothing fits source
      cases found.symm.trans found'
      exact served
    obtain ⟨rfl, ⟨poolless, -⟩ | ⟨system, holds⟩⟩ := settled
    · cases source with
      | error failure =>
          have failed : r.allocator.initializePool (.error failure) = (failure.1, r.allocator) := by
            unfold initializePool
            rw [if_neg (by rintro (present | nil | large) <;> [exact present poolless.1; omega; omega])]
          have refused : r.allocator.allocate requested (.error failure) = some ((failure.1, 0), r.allocator) := by
            unfold allocate
            rw [if_neg nothing, if_pos poolless.1, failed]
            exact if_pos failure.2
          rw [refused]
          exact .unsourced poolless.1 rfl
      | ok pool =>
          obtain ⟨present, room⟩ := granted pool rfl
          have fresh := (initializePool_spec poolless low small present room).2
          have ready : r.allocator.ready (.ok pool) = (r.allocator.initializePool (.ok pool)).2 := if_pos poolless.1
          rw [allocate_sourced poolless.1 low small present nothing, ← ready]
          rw [← ready] at fresh
          exact .served nothing fresh (served fresh)
    · have ready : r.allocator.ready source = r.allocator := if_neg holds.represents.poolPresent
      have represents : Represents (r.allocator.ready source) system := by
        rw [ready]
        exact holds.represents
      refine .served nothing represents ?_
      rw [ready]
      exact served holds.represents

theorem create_least {size : UInt32} (large : 16 < size.toNat) (memory : Memory) :
    ∃ s, create size memory = some s ∧ IsLeast {k | size.toNat ≤ 2 ^ k} s.poolKVal ∧
      AvailListElem.size ≤ 2 ^ s.poolKVal := by
  have bound := size.toNat_lt
  obtain ⟨k, found⟩ := UWordToKVal_returns_iff.2 ⟨show 2 ≤ size.toNat by omega, by omega⟩
  have least := UWordToKVal_least found
  refine ⟨_, congrArg (Option.map _) found, least, ?_⟩
  have five : 5 ≤ k := by
    by_contra smaller
    have le : 2 ^ k ≤ 2 ^ 4 := Nat.pow_le_pow_right (by decide) (by omega)
    have enough : size.toNat ≤ 2 ^ k := least.1
    omega
  calc AvailListElem.size ≤ 2 ^ 5 := by decide
    _ ≤ 2 ^ k := Nat.pow_le_pow_right (by decide) five

/-- **Sizes**: a pool is of the least order for its size and has room for a head, and in every state
that requests, deallocations and resets lead to a request is of the least order for it and its head.
It gets a block of that order, or is refused, as no block as large is free. -/
theorem requests_served {size : UInt32} (large : 16 < size.toNat) (memory : Memory) :
    ∃ s, create size memory = some s ∧ IsLeast {k | size.toNat ≤ 2 ^ k} s.poolKVal ∧
      AvailListElem.size ≤ 2 ^ s.poolKVal ∧
      ∀ calls, LegalRun ⟨s, []⟩ calls → (∀ call ∈ calls, Fits call) →
        ∀ requested source, requested + AvailListElem.size ≤ 2 ^ 63 → Granted s.poolKVal source →
          ∃ k, AdjustedKVal requested = some k ∧ IsLeast {k | requested + AvailListElem.size ≤ 2 ^ k} k ∧
            Handled s.poolKVal (run ⟨s, []⟩ calls).allocator requested k source
              ((run ⟨s, []⟩ calls).allocator.allocate requested source) := by
  obtain ⟨s, created, least, room⟩ := create_least large memory
  refine ⟨s, created, least, room, fun calls legal fits requested source fits' granted => ?_⟩
  obtain ⟨low, small, -⟩ := create_bounds created
  exact (create_settled created legal fits).handled low (short_of_le small) fits' granted

theorem requests_served_small256 :
    ∃ k, AdjustedKVal 100 = some k ∧ IsLeast {k | 100 + AvailListElem.size ≤ 2 ^ k} k ∧
      Handled 8 (run ⟨small256, []⟩ someCalls).allocator 100 k (.ok 4096)
        ((run ⟨small256, []⟩ someCalls).allocator.allocate 100 (.ok 4096)) := by
  obtain ⟨s, created, -, -, served⟩ := requests_served (show 16 < (256 : UInt32).toNat by decide) fun _ => 0
  cases create_small256.symm.trans created
  exact served someCalls (by decide) (by simp [someCalls, Fits, AvailListElem.size]) 100 (.ok 4096) (by decide)
    (by decide)

/-- The size of a pool is rounded up as it is, without the head of a block. -/
theorem pool_size_without_head : ∃ s, create 64 (fun _ => 0) = some s ∧ s.poolKVal = 6 ∧
    ¬ IsLeast {k | 64 + AvailListElem.size ≤ 2 ^ k} s.poolKVal := by
  refine ⟨_, rfl, rfl, fun least => ?_⟩
  have enough : 64 + AvailListElem.size ≤ 2 ^ 6 := least.1
  exact absurd enough (by decide)

end BuddyRun

/-! ## Reallocations -/

namespace BuddyAllocator

open AvailListElem

/-- The allocator still has the block, and all that it has room for is as it was. -/
structure Unchanged (s s' : BuddyAllocator) (address : Nat) : Prop where
  size_eq : s'.allocationSize address = s.allocationSize address
  payload : ∀ i < s.allocationSize address, s'.memory (address + i) = s.memory (address + i)

section copying

variable {K : Nat} {s s' : BuddyAllocator} {system system' : BuddySystem K} {b c : Block} {others : Set Block}

theorem Spares.unchanged (spares : Spares K others s s') (holds : Represents s system)
    (holds' : Represents s' system') (live : c ∈ system.live) (live' : c ∈ system'.live) (other : c ∈ others)
    (large : 5 ≤ c.order) : Unchanged s s' (s.pool + c.start + size) := by
  have before := allocationSize_spec holds live large
  have after := allocationSize_spec holds' live' large
  rw [spares.pool] at after
  refine ⟨after.trans before.symm, fun i below => ?_⟩
  rw [before] at below
  exact spares.payload c other _ (Nat.le_add_right _ _) (by omega)

/-- What is copied into a block is in no head, and in no other block. -/
theorem memcpy_spec (holds : Represents s system) (live : b ∈ system.live) {n : Nat}
    (room : n + size ≤ 2 ^ b.order) (src : Nat) :
    Represents (s.memcpy (s.pool + b.start + size) src n) system ∧
      Spares K (system.live \ {b}) s (s.memcpy (s.pool + b.start + size) src n) := by
  have inside := system.tiling.inside b (.inr live)
  constructor
  · refine holds.congr fun a head field => peek_congr (fun x low high => ?_) field
    refine Memory.copy_outside _ _ ?_
    by_contra within
    have apart := payload_outside system.tiling holds.roomy s.pool (.inr live) (x := x) (by omega) (by omega) a head
    omega
  · refine ⟨rfl, fun c other x low high => Memory.copy_outside _ _ ?_, fun _ x away => Memory.copy_outside _ _ ?_⟩
    · by_contra within
      have same := system.tiling.disjoint b (.inr live) c (.inr other.1) (x - s.pool)
        ⟨by omega, by omega⟩ ⟨by omega, by omega⟩
      exact other.2 same.symm
    · omega

end copying

end BuddyAllocator

namespace BuddyRun

open AvailListElem

/-- What is made of a reallocation of the live block `l`. -/
inductive Reallocated (K : Nat) (r : BuddyRun) (l : LiveBlock) (requested : Nat) :
    Option ((Error × Nat) × BuddyAllocator) → Prop where
  | refused {error : Error} (failure : error ≠ .success) :
      Reallocated K r l requested (some ((error, 0), r.allocator))
  | freed {s' : BuddyAllocator} (nothing : requested = 0)
      (settled : Settled K ⟨s', r.live.filter (·.address ≠ l.address)⟩)
      (others : ∀ l' ∈ r.live, l'.address ≠ l.address → Unchanged r.allocator s' l'.address) :
      Reallocated K r l requested (some ((.success, 0), s'))
  | moved {block : Nat} {s' : BuddyAllocator} (something : requested ≠ 0)
      (settled : Settled K ⟨s', ⟨block, requested⟩ :: r.live.filter (·.address ≠ l.address)⟩)
      (room : requested ≤ s'.allocationSize block)
      (contents : ∀ i < min (r.allocator.allocationSize l.address) requested,
        s'.memory (block + i) = r.allocator.memory (l.address + i))
      (others : ∀ l' ∈ r.live, l'.address ≠ l.address → Unchanged r.allocator s' l'.address) :
      Reallocated K r l requested (some ((.success, block), s'))

section reallocating

variable {K : Nat} {r : BuddyRun} {system : BuddySystem K} {l : LiveBlock}

/-- The blocks of the other live addresses are other blocks. -/
theorem Partitioned.other_block (holds : r.Partitioned system) {b : Block}
    (address : l.address = r.allocator.pool + b.start + size) {l' : LiveBlock} (member : l' ∈ r.live)
    (other : l'.address ≠ l.address) : ∃ c ∈ system.live, c ≠ b ∧ 5 ≤ c.order ∧
      l'.address = r.allocator.pool + c.start + size := by
  obtain ⟨c, cLive, address', room⟩ := holds.held l' member
  refine ⟨c, cLive, ?_, large_of_room room, address'⟩
  rintro rfl
  exact other (address'.trans address.symm)

theorem Partitioned.reallocate_nothing (holds : r.Partitioned system) (member : l ∈ r.live)
    (source : Except Failure Nat) : Reallocated K r l 0 (r.allocator.reallocate l.address 0 source) := by
  obtain ⟨b, bLive, address, room⟩ := holds.held l member
  obtain ⟨success, system', represents, live, spares⟩ := deallocate_spec holds.represents bLive (large_of_room room)
  have notNull : l.address ≠ 0 := by unfold size at address; omega
  have answer : r.allocator.reallocate l.address 0 source =
      some ((.success, 0), (r.allocator.deallocate l.address).2) := by
    unfold reallocate
    rw [if_neg notNull, if_pos rfl, address, ← Prod.mk.eta (p := r.allocator.deallocate _), success]
  rw [answer, address]
  have left := holds.deallocated represents bLive live spares.pool
  refine .freed rfl ⟨left.represents.poolKVal, .inr ⟨system', address ▸ left⟩⟩ fun l' member' other => ?_
  obtain ⟨c, cLive, different, large, address'⟩ := holds.other_block address member' other
  have still : c ∈ system'.live := live ▸ ⟨cLive, different⟩
  rw [address']
  exact spares.unchanged holds.represents represents cLive still ⟨cLive, different⟩ large

/-- A block is copied into a new one and given back. -/
theorem Partitioned.copy_back (holds : r.Partitioned system) (member : l ∈ r.live) {requested : Nat}
    {s' : BuddyAllocator} {b : Block} {system' : BuddySystem K} (represents : Represents s' system')
    (new : b ∉ system.live) (live : system'.live = insert b system.live)
    (room : requested + size ≤ 2 ^ b.order) (spares : Spares K system.live r.allocator s')
    (something : requested ≠ 0) {n : Nat} (copied : n = min requested (r.allocator.allocationSize l.address)) :
    ∃ s'', (s'.memcpy (r.allocator.pool + b.start + size) l.address n).deallocate l.address = (.success, s'') ∧
      Reallocated K r l requested (some ((.success, r.allocator.pool + b.start + size), s'')) := by
  obtain ⟨o, oLive, address, oRoom⟩ := holds.held l member
  have oLarge := large_of_room oRoom
  have bLive : b ∈ system'.live := live ▸ .inl rfl
  have oLive' : o ∈ system'.live := live ▸ .inr oLive
  have apart : o ≠ b := by
    rintro rfl
    exact new oLive
  have apartAddress : r.allocator.pool + b.start + size ≠ l.address := by
    intro same
    rw [address] at same
    exact apart (system'.tiling.start_injective (.inr oLive') (.inr bLive) (by omega))
  have given := holds.allocated represents new live room spares.pool
  -- the new block is filled
  have filled := memcpy_spec represents bLive (n := n) (by omega) l.address
  rw [spares.pool] at filled
  have run₁ : Partitioned ⟨s'.memcpy (r.allocator.pool + b.start + size) l.address n,
      ⟨r.allocator.pool + b.start + size, requested⟩ :: r.live⟩ system' := ⟨filled.1, given.held, given.known, given.nodup⟩
  have contents₁ : ∀ i < n, (s'.memcpy (r.allocator.pool + b.start + size) l.address n).memory
      (r.allocator.pool + b.start + size + i) = s'.memory (l.address + i) := fun i below => Memory.copy_inside _ _ below
  generalize s'.memcpy (r.allocator.pool + b.start + size) l.address n = s₁ at filled run₁ contents₁ ⊢
  obtain ⟨represents₁, spares₁⟩ := filled
  have pool₁ : s₁.pool = r.allocator.pool := spares₁.pool.trans spares.pool
  -- the old block is given back
  obtain ⟨success, system₂, represents₂, live₂, spares₂⟩ := deallocate_spec represents₁ oLive' oLarge
  have run₂ := run₁.deallocated represents₂ oLive' live₂ spares₂.pool
  dsimp only at run₂
  rw [pool₁, ← address] at success represents₂ spares₂ run₂
  generalize s₁.deallocate l.address = answer at success represents₂ spares₂ run₂ ⊢
  obtain ⟨error, s₂⟩ := answer
  have pool₂ : s₂.pool = r.allocator.pool := spares₂.pool.trans pool₁
  have bLive₂ : b ∈ system₂.live := live₂ ▸ ⟨bLive, fun same => apart same.symm⟩
  refine ⟨s₂, Prod.ext success rfl, .moved something ⟨run₂.represents.poolKVal, .inr ⟨system₂, ?_⟩⟩ ?_ ?_ ?_⟩
  · rwa [List.filter_cons_of_pos (by simpa using apartAddress)] at run₂
  · have capacity := allocationSize_spec represents₂ bLive₂ (large_of_room room)
    rw [pool₂] at capacity
    exact capacity ▸ Nat.le_sub_of_add_le room
  · intro i below
    have oSize := allocationSize_spec holds.represents oLive oLarge
    rw [← address] at oSize
    have belowOld := oSize ▸ Nat.lt_of_lt_of_le below (Nat.min_le_left _ _)
    have belowNew := Nat.lt_of_lt_of_le below (Nat.min_le_right _ _)
    have after := spares₂.payload b ⟨bLive, fun same => apart same.symm⟩ (r.allocator.pool + b.start + size + i)
      (by omega) (by omega)
    have before := spares.payload o oLive (l.address + i) (by omega) (by omega)
    exact after.trans ((contents₁ i (by omega)).trans before)
  · intro l' member' other
    obtain ⟨c, cLive, different, large, address'⟩ := holds.other_block address member' other
    have still : c ∈ system₂.live := live₂ ▸ ⟨live ▸ .inr cLive, different⟩
    have first : Spares K (system.live \ {o}) r.allocator s' :=
      (Spares.refl K _ _).trans spares Set.sdiff_subset
    have second := first.trans spares₁ fun d member =>
      ⟨live ▸ .inr member.1, fun same => new (same ▸ member.1)⟩
    have third := second.trans spares₂ fun d member => ⟨live ▸ .inr member.1, member.2⟩
    rw [address']
    exact third.unchanged holds.represents represents₂ cLive still ⟨cLive, different⟩ large

theorem Partitioned.reallocate (holds : r.Partitioned system) (member : l ∈ r.live) {requested : Nat}
    (fits : requested + size ≤ 2 ^ 63) (source : Except Failure Nat) :
    Reallocated K r l requested (r.allocator.reallocate l.address requested source) := by
  by_cases nothing : requested = 0
  · rw [nothing]
    exact holds.reallocate_nothing member source
  · obtain ⟨b, bLive, address, room⟩ := holds.held l member
    have large := large_of_room room
    have notNull : l.address ≠ 0 := by unfold size at address; omega
    have some_ : r.allocator.allocationSize l.address ≠ 0 := by
      have power : 2 ^ 5 ≤ 2 ^ b.order := Nat.pow_le_pow_right (by decide) large
      rw [address, allocationSize_spec holds.represents bLive large]
      unfold size
      omega
    obtain ⟨answer, answered⟩ := allocate_returns r.allocator fits source
    have outcome := allocate_outcome holds.represents (Nat.lt_of_le_of_lt fits (by decide)) source
    unfold BuddyAllocator.reallocate
    rw [if_neg notNull, if_neg nothing, if_neg holds.represents.poolPresent]
    dsimp only
    rw [if_neg some_]
    rw [answered] at outcome ⊢
    rw [Option.bind_some]
    cases outcome with
    | refused failure =>
        dsimp only
        rw [if_pos failure]
        exact .refused failure
    | block represents new live room spares =>
        obtain ⟨s'', back, moved⟩ := holds.copy_back member represents new live room spares nothing rfl
        dsimp only
        rw [if_neg (fun failed => failed rfl), back]
        exact moved

/-- What a reallocation leaves. -/
def reallocated (r : BuddyRun) (oldBlock requested : Nat) : Option ((Error × Nat) × BuddyAllocator) → BuddyRun
  | none => r
  | some ((error, block), allocator) =>
      if error ≠ .success then ⟨allocator, r.live⟩
      else if requested = 0 then ⟨allocator, r.live.filter (·.address ≠ oldBlock)⟩
      else ⟨allocator, ⟨block, requested⟩ :: r.live.filter (·.address ≠ oldBlock)⟩

/-- The states that calls and reallocations of live blocks lead to. -/
inductive Reaches (s : BuddyAllocator) : BuddyRun → Prop where
  | start : Reaches s ⟨s, []⟩
  | call {r : BuddyRun} {call : BuddyCall} (reached : Reaches s r) (legal : r.Legal call) (fits : Fits call) :
      Reaches s (r.happen call)
  | reallocate {r : BuddyRun} {l : LiveBlock} {requested : Nat} {source : Except Failure Nat} (reached : Reaches s r)
      (member : l ∈ r.live) (fits : requested + size ≤ 2 ^ 63) :
      Reaches s (r.reallocated l.address requested (r.allocator.reallocate l.address requested source))

theorem Settled.reallocate (settled : r.Settled K) (member : l ∈ r.live) {requested : Nat}
    (fits : requested + size ≤ 2 ^ 63) (source : Except Failure Nat) :
    Reallocated K r l requested (r.allocator.reallocate l.address requested source) := by
  obtain ⟨-, ⟨-, nil⟩ | ⟨system, holds⟩⟩ := settled
  · rw [nil] at member
    exact nomatch member
  · exact holds.reallocate member fits source

theorem Reallocated.settled (settled : r.Settled K) {requested : Nat} {answer : Option ((Error × Nat) × BuddyAllocator)}
    (made : Reallocated K r l requested answer) : (r.reallocated l.address requested answer).Settled K := by
  unfold reallocated
  cases made with
  | refused failure =>
      dsimp only
      rw [if_pos failure]
      exact settled
  | freed nothing settled' _ =>
      dsimp only
      rw [if_neg (fun failed => failed rfl), if_pos nothing]
      exact settled'
  | moved something settled' _ _ _ =>
      dsimp only
      rw [if_neg (fun failed => failed rfl), if_neg something]
      exact settled'

theorem Reaches.settled {size : UInt32} {memory : Memory} {s : BuddyAllocator} (created : create size memory = some s)
    (reached : Reaches s r) : r.Settled s.poolKVal := by
  obtain ⟨low, small, poolless⟩ := create_bounds created
  induction reached with
  | start => exact ⟨rfl, .inl ⟨poolless, rfl⟩⟩
  | call _ legal fits ih => exact happen_settled low (short_of_le small) ih legal fits
  | reallocate _ member fits ih => exact (ih.reallocate member fits _).settled ih

/-- **Reallocations**: in every state that is reached, a live block moves with its contents, or is
freed for a size of zero, and the other live blocks stay as they are; or nothing changes at all. -/
theorem reallocations_move {size : UInt32} {memory : Memory} {s : BuddyAllocator}
    (created : create size memory = some s) (reached : Reaches s r) (member : l ∈ r.live) {requested : Nat}
    (fits : requested + AvailListElem.size ≤ 2 ^ 63) (source : Except Failure Nat) :
    Reallocated s.poolKVal r l requested (r.allocator.reallocate l.address requested source) :=
  (reached.settled created).reallocate member fits source

end reallocating

/-- A block of 100 octets in a pool of 256 is to have 8. -/
theorem shrunk_block : ∃ l ∈ (run ⟨small256, []⟩ [.allocate 100 (.ok 4096)]).live,
    Reallocated 8 (run ⟨small256, []⟩ [.allocate 100 (.ok 4096)]) l 8
      ((run ⟨small256, []⟩ [.allocate 100 (.ok 4096)]).allocator.reallocate l.address 8 (.ok 4096)) := by
  have reached : Reaches small256 (run ⟨small256, []⟩ [.allocate 100 (.ok 4096)]) :=
    .call .start (show Legal ⟨small256, []⟩ (.allocate 100 (.ok 4096)) by decide)
      (show Fits (.allocate 100 (.ok 4096)) by unfold Fits; decide)
  refine ⟨⟨4120, 100⟩, by decide, ?_⟩
  exact reallocations_move create_small256 reached (by decide) (by decide) (.ok 4096)

/-- A size of zero gives the block back, and no other in its place. -/
theorem reallocated_to_nothing :
    (run ⟨small256, []⟩ [.allocate 100 (.ok 4096)]).live = [⟨4120, 100⟩] ∧
      ∃ s', (run ⟨small256, []⟩ [.allocate 100 (.ok 4096)]).allocator.reallocate 4120 0 (.ok 4096) =
        some ((.success, 0), s') ∧ s'.reset.1 = .success := by
  refine ⟨by decide, _, rfl, by decide⟩

end BuddyRun

end Everscale
