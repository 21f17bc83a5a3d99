/-
# Everscale.Base.BuddyCacheRun -- histories of a cache in front of an allocator

A run is a cache with the blocks that are live: what its pool gave out and what the failover
allocator did.  The other allocators answer as allocators do: what they give out is apart from
all they gave out before, and what is theirs they take back.
-/
import Everscale.Base.BuddyRun
import Everscale.Base.BuddyCacheAllocator

namespace Everscale

set_option autoImplicit false

open Theory

open BuddyAllocator

/-! ## The pool of a cache -/

namespace BuddyRun

open AvailListElem

/-- A pool that has no room for a head, all of it on one list. -/
def Tiny (K : Nat) (s : BuddyAllocator) : Prop :=
  K < 5 ∧ s.pool ≠ 0 ∧ ∀ k < ESB_AVAIL_LIST_LENGTH, k ≠ K → s.availList k = 0

/-- What is known of a pool whose memory others may write to, but for the pool itself. -/
structure Guarded (K : Nat) (r : BuddyRun) : Prop where
  poolKVal : r.allocator.poolKVal = K
  state : (r.allocator.Poolless ∧ r.live = []) ∨ (Tiny K r.allocator ∧ r.live = []) ∨
    (5 ≤ K ∧ ∃ system : BuddySystem K, r.Partitioned system)

/-- The live blocks keep what their owners wrote, and the rest of the memory is as it was. -/
structure Keeps (K : Nat) (live : List LiveBlock) (s s' : BuddyAllocator) : Prop where
  pool : s'.pool = s.pool
  payload : ∀ l ∈ live, ∀ i < l.requested, s'.memory (l.address + i) = s.memory (l.address + i)
  outside : ∀ x, x < s.pool ∨ s.pool + 2 ^ K ≤ x → s'.memory x = s.memory x

theorem Keeps.refl (K : Nat) (live : List LiveBlock) (s : BuddyAllocator) : Keeps K live s s :=
  ⟨rfl, fun _ _ _ _ => rfl, fun _ _ => rfl⟩

theorem Keeps.of_spares {K : Nat} (large : 5 ≤ K) {others : Set Block} {live : List LiveBlock}
    {s s' : BuddyAllocator} (spares : Spares K others s s')
    (spared : ∀ l ∈ live, ∃ b ∈ others, l.address = s.pool + b.start + size ∧
      l.requested + size ≤ 2 ^ b.order) : Keeps K live s s' where
  pool := spares.pool
  payload l member i below := by
    obtain ⟨b, bOther, address, room⟩ := spared l member
    exact spares.payload b bOther _ (by omega) (by omega)
  outside := spares.outside large

namespace Partitioned

variable {K : Nat} {r : BuddyRun} {system : BuddySystem K} (holds : r.Partitioned system)

include holds

/-- What others may write is in no head. -/
theorem rewritten (large : 5 ≤ K) {memory : Memory}
    (others : ∀ x, memory x ≠ r.allocator.memory x →
      (∃ l ∈ r.live, l.address ≤ x ∧ x < l.address + l.requested) ∨
        x < r.allocator.pool ∨ r.allocator.pool + 2 ^ K ≤ x) :
    Partitioned ⟨{ r.allocator with memory }, r.live⟩ system where
  represents := by
    refine holds.represents.congr fun a head field => peek_congr (fun x low high => ?_) field
    by_contra changed
    rcases others x changed with ⟨l, member, from_, below⟩ | away
    · obtain ⟨b, bLive, start, room⟩ := holds.held l member
      have behind : r.allocator.pool + b.start + size ≤ x := by omega
      have before : x < r.allocator.pool + b.start + 2 ^ b.order := by omega
      have outside := payload_outside system.tiling holds.represents.roomy _ (.inr bLive) behind before a head
      omega
    · obtain ⟨b, bMember, rfl⟩ := head
      have inside := system.tiling.inside b bMember
      have order : 5 ≤ b.order := (holds.represents.roomy b bMember).elim id fun whole => whole ▸ large
      have room : 2 ^ 5 ≤ 2 ^ b.order := Nat.pow_le_pow_right (by decide) order
      unfold size at high
      omega
  held := holds.held
  known := holds.known
  nodup := holds.nodup

/-- A live block lies in the pool. -/
theorem inside {l : LiveBlock} (member : l ∈ r.live) :
    r.allocator.pool < l.address ∧ l.address + max 1 l.requested ≤ r.allocator.pool + 2 ^ K := by
  obtain ⟨b, bLive, address, room⟩ := holds.held l member
  have inside := system.tiling.inside b (.inr bLive)
  have power : 2 ^ 5 ≤ 2 ^ b.order := Nat.pow_le_pow_right (by decide) (large_of_room room)
  unfold size at address room
  omega

/-- What a live block has room for. -/
theorem allocationSize_eq {l : LiveBlock} (member : l ∈ r.live) :
    ∃ order, 5 ≤ order ∧ order ≤ K ∧ l.requested + size ≤ 2 ^ order ∧
      r.allocator.allocationSize l.address = 2 ^ order - size := by
  obtain ⟨b, bLive, address, room⟩ := holds.held l member
  have large := large_of_room room
  refine ⟨b.order, large, system.tiling.order_le (.inr bLive), room, ?_⟩
  rw [address]
  exact allocationSize_spec holds.represents bLive large

/-- Two live blocks have no address in common. -/
theorem beside {l l' : LiveBlock} (member : l ∈ r.live) (member' : l' ∈ r.live)
    (other : l.address ≠ l'.address) :
    l.address + l.requested + size ≤ l'.address ∨ l'.address + l'.requested + size ≤ l.address := by
  obtain ⟨b, bLive, address, room⟩ := holds.held l member
  obtain ⟨c, cLive, address', room'⟩ := holds.held l' member'
  rcases Nat.lt_trichotomy b.start c.start with front | same | behind
  · have ends := ends_before system.tiling (.inr bLive) (.inr cLive) front
    left; omega
  · omega
  · have ends := ends_before system.tiling (.inr cLive) (.inr bLive) behind
    right; omega

end Partitioned

/-! ## The pool during one call -/

theorem deallocate_foreign {s : BuddyAllocator} (present : s.pool ≠ 0) {block : Nat} (notNull : block ≠ 0)
    (outside : block < s.pool ∨ s.pool + 2 ^ s.poolKVal ≤ block) : s.deallocate block = (.notOwner, s) := by
  have foreign : s.owns block = false := by
    unfold owns
    rw [Bool.and_eq_false_iff]
    simp only [decide_eq_false_iff_not]
    omega
  unfold deallocate
  rw [if_neg notNull, if_neg present, if_pos (by simp [foreign])]

theorem allocationSize_foreign {s : BuddyAllocator} {block : Nat}
    (outside : block < s.pool ∨ s.pool + 2 ^ s.poolKVal ≤ block) : s.allocationSize block = 0 := by
  have foreign : s.owns block = false := by
    unfold owns
    rw [Bool.and_eq_false_iff]
    simp only [decide_eq_false_iff_not]
    omega
  unfold allocationSize
  rw [if_pos (by simp [foreign])]

/-- A pool without room for a head has no block to give. -/
theorem allocate_tiny {K : Nat} {s : BuddyAllocator} (tiny : Tiny K s) {requested : Nat}
    (fits : requested + size ≤ 2 ^ 63) (source : Except Failure Nat) :
    ∃ error : Error, error ≠ .success ∧ s.allocate requested source = some ((error, 0), s) := by
  obtain ⟨small, present, empty⟩ := tiny
  by_cases nothing : requested = 0
  · exact ⟨.invalidArgument, by decide, nothing ▸ allocate_nothing s source⟩
  · obtain ⟨minimum, found⟩ := AdjustedKVal_returns fits
    have large := (AdjustedKVal_room (by omega) found).1
    have none : s.firstAvailable minimum = none := by
      cases first : s.firstAvailable minimum with
      | none => rfl
      | some k =>
          obtain ⟨le, bound, some⟩ := firstAvailable_some first
          exact absurd (empty k bound (by omega)) some
    refine ⟨.outOfMemory, by decide, ?_⟩
    rw [allocate_from_pool present nothing, found, Option.map_some, allocateFromPool, none]

/-- A pool taken from the source is in order, whatever its size. -/
theorem initializePool_guarded {K : Nat} {s : BuddyAllocator} (poolKVal : s.poolKVal = K)
    (poolless : s.Poolless) (low : 1 ≤ K) (small : K < ESB_AVAIL_LIST_LENGTH) {pool : Nat}
    (present : pool ≠ 0) (fits : pool + 2 ^ K ≤ 2 ^ 64) :
    (s.initializePool (.ok pool)).2.pool = pool ∧ Guarded K ⟨(s.initializePool (.ok pool)).2, []⟩ := by
  subst poolKVal
  have opened : (s.initializePool (.ok pool)).2.pool = pool ∧
      (s.initializePool (.ok pool)).2.availList = Function.update s.availList s.poolKVal pool := by
    unfold initializePool
    rw [if_neg (by have := poolless.1; omega)]
    exact ⟨rfl, rfl⟩
  have represents := (initializePool_spec poolless low small present fits).2
  refine ⟨opened.1, represents.poolKVal, ?_⟩
  by_cases large : 5 ≤ s.poolKVal
  · refine .inr (.inr ⟨large, _, represents, ?_, ?_, List.nodup_nil⟩)
    · exact fun _ member => nomatch member
    · exact fun _ live => live.elim
  · refine .inr (.inl ⟨⟨by omega, ?_, fun k bound other => ?_⟩, rfl⟩)
    · rw [opened.1]; exact present
    · rw [opened.2, Function.update_of_ne other]
      exact poolless.2 k bound other

/-- The pool is the one there was, or the one the source gave, and goes on in order. -/
structure Answered (K : Nat) (r : BuddyRun) (requested : Nat) (source : Except Failure Nat)
    (error : Error) (block : Nat) (s' : BuddyAllocator) : Prop where
  keeps : r.allocator.pool ≠ 0 → Keeps K r.live r.allocator s'
  opened : r.allocator.pool = 0 → s'.pool = 0 ∨ source = .ok s'.pool
  refused : error ≠ .success → Guarded K ⟨s', r.live⟩
  given : error = .success → Guarded K ⟨s', ⟨block, requested⟩ :: r.live⟩

namespace Guarded

variable {K : Nat} {r : BuddyRun} (guarded : r.Guarded K)

include guarded

/-- Where a block is live there is a pool with room for heads. -/
theorem partitioned {l : LiveBlock} (member : l ∈ r.live) :
    5 ≤ K ∧ ∃ system : BuddySystem K, r.Partitioned system := by
  rcases guarded.state with ⟨-, nil⟩ | ⟨-, nil⟩ | partitioned
  · rw [nil] at member
    exact nomatch member
  · rw [nil] at member
    exact nomatch member
  · exact partitioned

theorem allocate_present (present : r.allocator.pool ≠ 0) {requested : Nat}
    (fits : requested + size ≤ 2 ^ 63) (source : Except Failure Nat) :
    ∃ error block s', r.allocator.allocate requested source = some ((error, block), s') ∧
      Keeps K r.live r.allocator s' ∧ (error ≠ .success → s' = r.allocator) ∧
      (error = .success → Guarded K ⟨s', ⟨block, requested⟩ :: r.live⟩) := by
  rcases guarded.state with ⟨poolless, -⟩ | ⟨tiny, nil⟩ | ⟨large, system, holds⟩
  · exact absurd poolless.1 present
  · obtain ⟨error, failure, answer⟩ := allocate_tiny tiny fits source
    exact ⟨error, 0, _, answer, .refl _ _ _, fun _ => rfl, fun success => absurd success failure⟩
  · obtain ⟨answer, returned⟩ := allocate_returns r.allocator fits source
    have noWrap : requested + size < 2 ^ 64 := by omega
    have outcome := allocate_outcome holds.represents noWrap source
    rw [returned] at outcome ⊢
    cases outcome with
    | refused failure =>
        exact ⟨_, 0, _, rfl, .refl _ _ _, fun _ => rfl, fun success => absurd success failure⟩
    | block represents new live room spares =>
        refine ⟨_, _, _, rfl, .of_spares large spares holds.held, fun failure => absurd rfl failure, fun _ => ?_⟩
        have holds' := holds.allocated represents new live room spares.pool
        exact ⟨represents.poolKVal, .inr (.inr ⟨large, _, holds'⟩)⟩

/-- A request, with whatever the source answers. -/
theorem allocate_any (low : 1 ≤ K) (small : K < ESB_AVAIL_LIST_LENGTH) {requested : Nat}
    (fits : requested + size ≤ 2 ^ 63) (source : Except Failure Nat)
    (granted : r.allocator.pool = 0 → Granted K source) :
    ∃ error block s', r.allocator.allocate requested source = some ((error, block), s') ∧
      Answered K r requested source error block s' := by
  by_cases present : r.allocator.pool = 0
  · obtain ⟨poolless, nil⟩ : r.allocator.Poolless ∧ r.live = [] := by
      rcases guarded.state with poolless | ⟨tiny, -⟩ | ⟨-, system, holds⟩
      · exact poolless
      · exact absurd present tiny.2.1
      · exact absurd present holds.represents.poolPresent
    have refused : ∀ {error : Error}, error ≠ .success →
        Answered K r requested source error 0 r.allocator := fun failure =>
      ⟨fun _ => .refl _ _ _, .inl, fun _ => guarded, fun success => absurd success failure⟩
    cases source with
    | error error =>
        obtain ⟨error', failure, answer⟩ := allocate_unsourced present requested error
        exact ⟨_, _, _, answer, refused failure⟩
    | ok pool =>
        by_cases nothing : requested = 0
        · subst nothing
          exact ⟨.invalidArgument, 0, _, allocate_nothing _ _, refused (by decide)⟩
        · obtain ⟨poolPresent, room⟩ := granted present pool rfl
          have opened := initializePool_guarded guarded.poolKVal poolless low small poolPresent room
          have again := allocate_sourced present (guarded.poolKVal ▸ low) (guarded.poolKVal ▸ small)
            poolPresent nothing
          obtain ⟨error, block, s', answer, keeps, kept, given⟩ :=
            opened.2.allocate_present (by rw [opened.1]; exact poolPresent) fits (.ok pool)
          refine ⟨error, block, s', again.trans answer, fun absent => absurd present absent,
            fun _ => .inr ?_, fun failure => ?_, fun success => ?_⟩
          · rw [keeps.pool, opened.1]
          · rw [nil, kept failure]
            exact opened.2
          · rw [nil]
            exact given success
  · obtain ⟨error, block, s', answer, keeps, kept, given⟩ := guarded.allocate_present present fits source
    refine ⟨error, block, s', answer, fun _ => keeps, fun none => absurd none present, fun failure => ?_, given⟩
    rw [kept failure]
    exact guarded

theorem deallocate_live {l : LiveBlock} (member : l ∈ r.live) :
    ∃ s', r.allocator.deallocate l.address = (.success, s') ∧
      Guarded K ⟨s', r.live.filter (·.address ≠ l.address)⟩ ∧
      Keeps K (r.live.filter (·.address ≠ l.address)) r.allocator s' := by
  obtain ⟨large, system, holds⟩ := guarded.partitioned member
  obtain ⟨b, bLive, address, room⟩ := holds.block_of ⟨l, member, rfl⟩
  obtain ⟨success, system', represents, live, spares⟩ := deallocate_spec holds.represents bLive room
  have holds' := holds.deallocated represents bLive live spares.pool
  rw [← address] at success spares holds'
  refine ⟨_, Prod.ext success rfl, ⟨holds'.represents.poolKVal, .inr (.inr ⟨large, _, holds'⟩)⟩, ?_⟩
  have held := holds'.held
  dsimp only at held
  rw [live, spares.pool] at held
  exact .of_spares large spares held

/-- The owners of the live blocks, and those of the rest of the memory, may write. -/
theorem rewritten {memory : Memory} (others : r.allocator.pool ≠ 0 → ∀ x, memory x ≠ r.allocator.memory x →
      (∃ l ∈ r.live, l.address ≤ x ∧ x < l.address + l.requested) ∨
        x < r.allocator.pool ∨ r.allocator.pool + 2 ^ K ≤ x) :
    Guarded K ⟨{ r.allocator with memory }, r.live⟩ where
  poolKVal := guarded.poolKVal
  state := by
    rcases guarded.state with poolless | tiny | ⟨large, system, holds⟩
    · exact .inl poolless
    · exact .inr (.inl tiny)
    · exact .inr (.inr ⟨large, system, holds.rewritten large (others holds.represents.poolPresent)⟩)

end Guarded

end BuddyRun

/-! ## Runs -/

structure CacheRun where
  cache : BuddyCacheAllocator
  fromPool : List LiveBlock := []
  fromFailover : List LiveBlock := []

inductive CacheCall where
  | allocate (size : Nat) (answers : Answers)
  | deallocate (block : Nat) (answers : Answers)
  | reallocate (oldBlock size : Nat) (answers : Answers)
  | write (address : Nat) (value : UInt8)

namespace CacheRun

open AvailListElem

def live (r : CacheRun) : List LiveBlock := r.fromPool ++ r.fromFailover

/-- A block given back is live no more. -/
def without (block : Nat) (r : CacheRun) : CacheRun :=
  { r with
    fromPool := r.fromPool.filter (·.address ≠ block)
    fromFailover := r.fromFailover.filter (·.address ≠ block) }

/-- A new block is from the pool, unless the failover allocator was asked. -/
def gaveOut (cache : BuddyCacheAllocator) (l : LiveBlock) (r : CacheRun) : CacheRun :=
  if cache.asked = r.cache.asked then { r with cache, fromPool := l :: r.fromPool }
  else { r with cache, fromFailover := l :: r.fromFailover }

def allocated (size : Nat) (r : CacheRun) : Option ((Error × Nat) × BuddyCacheAllocator) → CacheRun
  | none => r
  | some ((error, block), cache) =>
      if error = .success then r.gaveOut cache ⟨block, size⟩ else { r with cache }

def reallocated (oldBlock size : Nat) (r : CacheRun) : Option ((Error × Nat) × BuddyCacheAllocator) → CacheRun
  | none => r
  | some ((error, block), cache) =>
      if error ≠ .success then { r with cache }
      else if oldBlock ≠ 0 ∧ size = 0 then { r.without oldBlock with cache }
      else (r.without oldBlock).gaveOut cache ⟨block, size⟩

def happen (r : CacheRun) : CacheCall → CacheRun
  | .allocate size answers => r.allocated size (r.cache.allocate size answers)
  | .deallocate block answers =>
      let (error, cache) := r.cache.deallocate block answers
      if error = .success then { r.without block with cache } else { r with cache }
  | .reallocate oldBlock size answers =>
      r.reallocated oldBlock size (r.cache.reallocate oldBlock size answers)
  | .write address value =>
      { r with cache := { r.cache with buddy := { r.cache.buddy with
        memory := Function.update r.cache.buddy.memory address value } } }

/-- The run before the first call. -/
def start (s : BuddyAllocator) : CacheRun := ⟨⟨s, 0, 0, []⟩, [], []⟩

def run (r : CacheRun) (calls : List CacheCall) : CacheRun := calls.foldl happen r

/-- Every call of the run is one that the predicate admits where it is made. -/
def Along (admits : CacheRun → CacheCall → Prop) (r : CacheRun) : List CacheCall → Prop
  | [] => True
  | call :: calls => admits r call ∧ Along admits (r.happen call) calls

/-! ## The other allocators -/

/-- What holds of an answer that is no failure. -/
def Whenever {α : Type} (answer : Except Failure α) (p : α → Prop) : Prop :=
  match answer with
  | .ok a => p a
  | .error _ => True

/-- What holds of a failure. -/
def Unless {α : Type} (answer : Except Failure α) (p : Failure → Prop) : Prop :=
  match answer with
  | .ok _ => True
  | .error failure => p failure

/-- The blocks have no address in common; a block for a request of nothing has its own. -/
def Beside (l l' : LiveBlock) : Prop :=
  l.address + max 1 l.requested ≤ l'.address ∨ l'.address + max 1 l'.requested ≤ l.address

/-- The block has no address in common with the pool. -/
def Outside (s : BuddyAllocator) (l : LiveBlock) : Prop :=
  s.pool ≠ 0 → l.address + max 1 l.requested ≤ s.pool ∨ s.pool + 2 ^ s.poolKVal ≤ l.address

/-- The block is a new one, apart from the pool and from the other allocator's blocks. -/
def Fresh (others : List LiveBlock) (s : BuddyAllocator) (l : LiveBlock) : Prop :=
  l.address ≠ 0 ∧ (∀ l' ∈ others, Beside l l') ∧ Outside s l

/-- A pool from the source is apart from the failover allocator's blocks. -/
def SourceLegal (r : CacheRun) (answers : Answers) : Prop :=
  Whenever answers.source fun pool => r.cache.buddy.pool = 0 →
    pool ≠ 0 ∧ pool + 2 ^ r.cache.buddy.poolKVal ≤ 2 ^ 64 ∧
      ∀ l ∈ r.fromFailover, Outside { r.cache.buddy with pool } l

/-- What the failover allocator gives out is new when it is asked, which is after the pool was. -/
def AllocateLegal (r : CacheRun) (size : Nat) (answers : Answers) (given : Except Failure Nat) : Prop :=
  Whenever given fun block => ∀ answer ∈ r.cache.buddy.allocate size answers.source,
    Fresh r.fromFailover answer.2 ⟨block, size⟩

/-- A block that the failover allocator moves is a new one, or in the place of the old one, and
has what the old one held. -/
def MoveLegal (r : CacheRun) (l : LiveBlock) (size : Nat) : Nat × Memory → Prop
  | (block, memory) =>
      Fresh (r.fromFailover.filter (·.address ≠ l.address)) r.cache.buddy ⟨block, size⟩ ∧
        (∀ i < min l.requested size, memory (block + i) = r.cache.buddy.memory (l.address + i)) ∧
        ∀ i < 2 ^ r.cache.buddy.poolKVal,
          memory (r.cache.buddy.pool + i) = r.cache.buddy.memory (r.cache.buddy.pool + i)

/-- The users give back and move what is live and write into what they asked for; the others keep
out of the pool.  The other allocators take back what is theirs. -/
def Legal (r : CacheRun) : CacheCall → Prop
  | .allocate size answers => r.SourceLegal answers ∧ r.AllocateLegal size answers answers.allocate
  | .deallocate block answers =>
      (∃ l ∈ r.live, l.address = block) ∧
        ((∃ l ∈ r.fromFailover, l.address = block) → answers.deallocate = .success)
  | .reallocate oldBlock size answers =>
      (oldBlock = 0 ∨ ∃ l ∈ r.live, l.address = oldBlock) ∧
        ((∃ l ∈ r.fromFailover, l.address = oldBlock) → answers.deallocate = .success) ∧
        (∀ l ∈ r.fromFailover, l.address = oldBlock → Whenever answers.reallocate (r.MoveLegal l size)) ∧
        r.SourceLegal answers ∧ r.AllocateLegal size answers answers.allocate ∧
        r.AllocateLegal size answers answers.allocateAgain
  | .write address _ =>
      (∃ l ∈ r.live, l.address ≤ address ∧ address < l.address + l.requested) ∨
        Outside r.cache.buddy ⟨address, 1⟩

/-! ## What a call is for -/

/-- The calls that the cache serves as it should. -/
def Sane (r : CacheRun) : CacheCall → Prop
  | .allocate size _ => size + AvailListElem.size ≤ 2 ^ 63
  | .deallocate _ _ => r.cache.buddy.pool ≠ 0
  | .reallocate oldBlock size answers =>
      size + AvailListElem.size ≤ 2 ^ 63 ∧ (oldBlock ≠ 0 → size = 0 → r.cache.buddy.pool ≠ 0) ∧
        Unless answers.allocate fun failure => failure.1 ≠ .notOwner ∧
          (oldBlock = 0 → failure.1 = .outOfMemory → Whenever answers.allocateAgain fun _ => False)
  | .write _ _ => True

/-- A live block is taken back, by the allocator that gave it out; one that is moved keeps what it
held, and one that is not moved stays as it is. -/
def Kept (r : CacheRun) : CacheCall → Prop
  | .deallocate block answers =>
      (r.cache.deallocate block answers).1 = .success ∧
        ((∃ l ∈ r.fromPool, l.address = block) →
          (r.cache.deallocate block answers).2.asked = r.cache.asked) ∧
        ((∃ l ∈ r.fromFailover, l.address = block) →
          (r.cache.deallocate block answers).2.asked = .deallocate block :: r.cache.asked)
  | .reallocate oldBlock size answers =>
      ∃ error block cache, r.cache.reallocate oldBlock size answers = some ((error, block), cache) ∧
        ∀ l ∈ r.live, l.address = oldBlock →
          (error ≠ .success → ∀ i < l.requested,
            cache.buddy.memory (oldBlock + i) = r.cache.buddy.memory (oldBlock + i)) ∧
          (error = .success → ∀ i < min l.requested size,
            cache.buddy.memory (block + i) = r.cache.buddy.memory (oldBlock + i))
  | _ => True

section decidable

instance {α : Type} (answer : Except Failure α) (p : α → Prop) [DecidablePred p] : Decidable (Whenever answer p) :=
  match answer with
  | .ok a => inferInstanceAs (Decidable (p a))
  | .error _ => isTrue trivial

instance {α : Type} (answer : Except Failure α) (p : Failure → Prop) [DecidablePred p] : Decidable (Unless answer p) :=
  match answer with
  | .ok _ => isTrue trivial
  | .error failure => inferInstanceAs (Decidable (p failure))

instance (l l' : LiveBlock) : Decidable (Beside l l') := inferInstanceAs (Decidable (_ ∨ _))

instance (s : BuddyAllocator) (l : LiveBlock) : Decidable (Outside s l) := inferInstanceAs (Decidable (_ → _))

instance (others : List LiveBlock) (s : BuddyAllocator) (l : LiveBlock) : Decidable (Fresh others s l) :=
  inferInstanceAs (Decidable (_ ∧ _ ∧ _))

instance (r : CacheRun) (answers : Answers) : Decidable (r.SourceLegal answers) :=
  inferInstanceAs (Decidable (Whenever _ _))

instance (r : CacheRun) (size : Nat) (answers : Answers) (given : Except Failure Nat) :
    Decidable (r.AllocateLegal size answers given) := inferInstanceAs (Decidable (Whenever _ _))

instance (r : CacheRun) (l : LiveBlock) (size : Nat) : DecidablePred (r.MoveLegal l size) :=
  fun (_, _) => inferInstanceAs (Decidable (_ ∧ _ ∧ _))

instance (r : CacheRun) (call : CacheCall) : Decidable (r.Legal call) :=
  match call with
  | .allocate _ _ => inferInstanceAs (Decidable (_ ∧ _))
  | .deallocate _ _ => inferInstanceAs (Decidable (_ ∧ _))
  | .reallocate _ _ _ => inferInstanceAs (Decidable (_ ∧ _ ∧ _ ∧ _ ∧ _ ∧ _))
  | .write _ _ => inferInstanceAs (Decidable (_ ∨ _))

instance (r : CacheRun) (call : CacheCall) : Decidable (r.Sane call) :=
  match call with
  | .allocate _ _ => inferInstanceAs (Decidable (_ ≤ _))
  | .deallocate _ _ => inferInstanceAs (Decidable (_ ≠ _))
  | .reallocate _ _ _ => inferInstanceAs (Decidable (_ ∧ _ ∧ _))
  | .write _ _ => isTrue trivial

instance decidableAlong (admits : CacheRun → CacheCall → Prop) [(r : CacheRun) → DecidablePred (admits r)]
    (r : CacheRun) : (calls : List CacheCall) → Decidable (Along admits r calls)
  | [] => isTrue trivial
  | call :: calls =>
      have := decidableAlong admits (r.happen call) calls
      inferInstanceAs (Decidable (_ ∧ _))

end decidable

/-! ## The blocks stay apart -/

structure Sound (K : Nat) (r : CacheRun) : Prop where
  pool : BuddyRun.Guarded K ⟨r.cache.buddy, r.fromPool⟩
  present : ∀ l ∈ r.fromFailover, l.address ≠ 0
  beside : r.fromFailover.Pairwise Beside
  outside : ∀ l ∈ r.fromFailover, Outside r.cache.buddy l

theorem Outside.congr {s s' : BuddyAllocator} {l : LiveBlock} (outside : Outside s l)
    (pool : s'.pool = s.pool) (poolKVal : s'.poolKVal = s.poolKVal) : Outside s' l := by
  unfold Outside
  rw [pool, poolKVal]
  exact outside

theorem Beside.symm {l l' : LiveBlock} (beside : Beside l l') : Beside l' l := Or.symm beside

instance : Std.Symm Beside := ⟨fun _ _ => Beside.symm⟩

namespace Sound

variable {K : Nat} {r : CacheRun} (sound : r.Sound K)

include sound

theorem live_beside : r.live.Pairwise Beside := by
  unfold live
  rw [List.pairwise_append]
  refine ⟨?_, sound.beside, fun l member l' member' => ?_⟩
  · -- the pool's blocks have room for a head between them
    rcases sound.pool.state with ⟨-, nil⟩ | ⟨-, nil⟩ | ⟨-, system, holds⟩
    · rw [show r.fromPool = [] from nil]
      exact .nil
    · rw [show r.fromPool = [] from nil]
      exact .nil
    · have nodup := holds.nodup
      rw [List.nodup_iff_pairwise_ne, List.pairwise_map] at nodup
      refine nodup.imp_of_mem fun {l l'} member member' other => ?_
      have apart := holds.beside member member' other
      unfold Beside
      unfold size at apart
      omega
  · obtain ⟨-, system, holds⟩ := sound.pool.partitioned member
    have inside := holds.inside member
    have outside := sound.outside l' member' holds.represents.poolPresent
    have poolKVal : r.cache.buddy.poolKVal = K := sound.pool.poolKVal
    rw [poolKVal] at outside
    unfold Beside
    dsimp only at inside
    omega

omit sound in
/-- The failover allocator's blocks are outside the pool that an allocation leaves. -/
theorem outside_after {size : Nat} {answers : Answers} {error : Error} {block : Nat} {s' : BuddyAllocator}
    (legal : r.SourceLegal answers) (poolKVal : s'.poolKVal = r.cache.buddy.poolKVal)
    (answered : BuddyRun.Answered K ⟨r.cache.buddy, r.fromPool⟩ size answers.source error block s')
    {l : LiveBlock} (member : l ∈ r.fromFailover) (outside : Outside r.cache.buddy l) : Outside s' l := by
  by_cases present : r.cache.buddy.pool = 0
  · rcases answered.opened present with none | opened
    · exact fun some => absurd none some
    · unfold SourceLegal at legal
      rw [opened] at legal
      exact ((legal present).2.2 l member).congr rfl poolKVal
  · exact outside.congr (answered.keeps present).pool poolKVal

/-- A block of the pool is in it. -/
theorem pool_present {l : LiveBlock} (member : l ∈ r.fromPool) : r.cache.buddy.pool ≠ 0 := by
  obtain ⟨-, system, holds⟩ := sound.pool.partitioned member
  exact holds.represents.poolPresent

/-- The two allocators' blocks are at different addresses. -/
theorem address_ne {l l' : LiveBlock} (member : l ∈ r.fromPool) (member' : l' ∈ r.fromFailover) :
    l.address ≠ l'.address := by
  have apart := sound.live_beside
  unfold live at apart
  have beside := (List.pairwise_append.1 apart).2.2 l member l' member'
  unfold Beside at beside
  omega

/-- A new block joins those of the allocator that gave it out. -/
theorem pool_gave {cache : BuddyCacheAllocator} {l : LiveBlock} (asked : cache.asked = r.cache.asked)
    (pool : BuddyRun.Guarded K ⟨cache.buddy, l :: r.fromPool⟩)
    (outside : ∀ l ∈ r.fromFailover, Outside cache.buddy l) : (r.gaveOut cache l).Sound K := by
  unfold gaveOut
  rw [if_pos asked]
  exact ⟨pool, sound.present, sound.beside, outside⟩

theorem failover_gave {cache : BuddyCacheAllocator} {l : LiveBlock}
    (asked : cache.asked ≠ r.cache.asked) (pool : BuddyRun.Guarded K ⟨cache.buddy, r.fromPool⟩)
    (outside : ∀ l ∈ r.fromFailover, Outside cache.buddy l) (fresh : Fresh r.fromFailover cache.buddy l) :
    (r.gaveOut cache l).Sound K := by
  unfold gaveOut
  rw [if_neg asked]
  obtain ⟨notNull, beside, apart⟩ := fresh
  refine ⟨pool, ?_, List.pairwise_cons.2 ⟨beside, sound.beside⟩, ?_⟩
  · exact List.forall_mem_cons.2 ⟨notNull, sound.present⟩
  · exact List.forall_mem_cons.2 ⟨apart, outside⟩

end Sound

/-- What is known of an allocation that returns. -/
structure Allocated (K : Nat) (r : CacheRun) (size : Nat) (answers : Answers) (error : Error) (block : Nat)
    (cache : BuddyCacheAllocator) : Prop where
  sound : (r.allocated size (some ((error, block), cache))).Sound K
  keeps : r.cache.buddy.pool ≠ 0 → BuddyRun.Keeps K r.fromPool r.cache.buddy cache.buddy
  buddy : ∃ answer ∈ r.cache.buddy.allocate size answers.source, answer.2 = cache.buddy
  asked : r.cache.asked <:+ cache.asked
  refused : error ≠ .success → ∃ failure, answers.allocate = .error failure ∧ failure.1 = error

theorem Sound.allocate {K : Nat} {r : CacheRun} (sound : r.Sound K) (low : 1 ≤ K)
    (small : K < ESB_AVAIL_LIST_LENGTH) {size : Nat} (fits : size + AvailListElem.size ≤ 2 ^ 63)
    {answers : Answers} (source : r.SourceLegal answers)
    (fresh : r.AllocateLegal size answers answers.allocate) :
    ∃ error block cache, r.cache.allocate size answers = some ((error, block), cache) ∧
      Allocated K r size answers error block cache := by
  have poolKVal : r.cache.buddy.poolKVal = K := sound.pool.poolKVal
  have granted : r.cache.buddy.pool = 0 → BuddyRun.Granted K answers.source := by
    intro none pool opened
    unfold SourceLegal at source
    rw [opened, poolKVal] at source
    exact ⟨(source none).1, (source none).2.1⟩
  obtain ⟨error, block, s', answer, answered⟩ := sound.pool.allocate_any low small fits answers.source granted
  dsimp only at answer
  unfold BuddyCacheAllocator.allocate
  rw [answer, Option.map_some]
  dsimp only
  by_cases success : error = .success
  · have given := answered.given success
    have outside : ∀ l ∈ r.fromFailover, Outside s' l := fun l member =>
      outside_after source (given.poolKVal.trans poolKVal.symm) answered member (sound.outside l member)
    rw [if_pos success]
    refine ⟨_, _, _, rfl, ?_, answered.keeps, ⟨_, answer, rfl⟩, List.suffix_refl _,
      fun failure => absurd rfl failure⟩
    exact sound.pool_gave rfl given outside
  · have refused := answered.refused success
    have outside : ∀ l ∈ r.fromFailover, Outside s' l := fun l member =>
      outside_after source (refused.poolKVal.trans poolKVal.symm) answered member (sound.outside l member)
    rw [if_neg success]
    unfold BuddyCacheAllocator.failoverAllocate
    unfold AllocateLegal at fresh
    cases given : answers.allocate with
    | error failure =>
        refine ⟨_, _, _, rfl, ?_, answered.keeps, ⟨_, answer, rfl⟩, List.suffix_cons _ _,
          fun _ => ⟨failure, given, rfl⟩⟩
        rw [allocated, if_neg failure.2]
        exact ⟨refused, sound.present, sound.beside, outside⟩
    | ok new =>
        rw [given] at fresh
        refine ⟨_, _, _, rfl, ?_, answered.keeps, ⟨_, answer, rfl⟩, List.suffix_cons _ _,
          fun failure => absurd rfl failure⟩
        exact sound.failover_gave (List.cons_ne_self _ _) refused outside (fresh _ answer)

/-- What the pool takes back the cache takes back. -/
theorem deallocate_of_pool {c : BuddyCacheAllocator} {block : Nat} {s' : BuddyAllocator}
    (answer : c.buddy.deallocate block = (.success, s')) (answers : Answers) :
    c.deallocate block answers = (.success, { c with buddy := s' }) := by
  unfold BuddyCacheAllocator.deallocate
  rw [answer]
  rfl

section deallocating

variable {K : Nat} {r : CacheRun} (sound : r.Sound K) {l : LiveBlock}

include sound

theorem Sound.deallocate_pool (member : l ∈ r.fromPool) :
    ∃ s', r.cache.buddy.deallocate l.address = (.success, s') ∧
      Sound K { r.without l.address with cache := { r.cache with buddy := s' } } ∧
      BuddyRun.Keeps K (r.fromPool.filter (·.address ≠ l.address)) r.cache.buddy s' := by
  obtain ⟨s', answer, guarded, keeps⟩ := sound.pool.deallocate_live member
  refine ⟨s', answer, ⟨guarded, fun l' member' => ?_, sound.beside.filter _, fun l' member' => ?_⟩, keeps⟩
  · exact sound.present l' (List.mem_filter.1 member').1
  · have poolKVal : s'.poolKVal = r.cache.buddy.poolKVal :=
      guarded.poolKVal.trans sound.pool.poolKVal.symm
    exact (sound.outside l' (List.mem_filter.1 member').1).congr keeps.pool poolKVal

theorem Sound.pool_without (member : l ∈ r.fromFailover) :
    r.fromPool.filter (·.address ≠ l.address) = r.fromPool := by
  rw [List.filter_eq_self]
  intro l' member'
  simpa using sound.address_ne member' member

theorem Sound.deallocate_failover (present : r.cache.buddy.pool ≠ 0) (member : l ∈ r.fromFailover)
    (answers : Answers) :
    r.cache.deallocate l.address answers = (answers.deallocate, r.cache.ask (.deallocate l.address)) ∧
      Sound K { r.without l.address with cache := r.cache.ask (.deallocate l.address) } := by
  have outside := sound.outside l member present
  have foreign := BuddyRun.deallocate_foreign present (sound.present l member) (by omega)
  constructor
  · unfold BuddyCacheAllocator.deallocate
    rw [foreign]
    rfl
  · refine ⟨?_, fun l' member' => ?_, sound.beside.filter _, fun l' member' => ?_⟩
    · show BuddyRun.Guarded K ⟨r.cache.buddy, r.fromPool.filter (·.address ≠ l.address)⟩
      rw [sound.pool_without member]
      exact sound.pool
    · exact sound.present l' (List.mem_filter.1 member').1
    · exact sound.outside l' (List.mem_filter.1 member').1

/-- A live block goes back to the allocator that gave it out. -/
theorem Sound.deallocate (present : r.cache.buddy.pool ≠ 0) {block : Nat} {answers : Answers}
    (legal : r.Legal (.deallocate block answers)) :
    r.Kept (.deallocate block answers) ∧ (r.happen (.deallocate block answers)).Sound K := by
  obtain ⟨⟨l, member, rfl⟩, taken⟩ := legal
  rcases List.mem_append.1 member with member | member
  · obtain ⟨s', answer, sound', -⟩ := sound.deallocate_pool member
    have answer := deallocate_of_pool answer answers
    refine ⟨?_, ?_⟩
    · rw [Kept, answer]
      refine ⟨rfl, fun _ => rfl, fun ⟨l', member', same⟩ => ?_⟩
      exact absurd same.symm (sound.address_ne member member')
    · rw [happen, answer]
      exact sound'
  · obtain ⟨answer, sound'⟩ := sound.deallocate_failover present member answers
    have success := taken ⟨l, member, rfl⟩
    rw [success] at answer
    refine ⟨?_, ?_⟩
    · rw [Kept, answer]
      refine ⟨rfl, fun ⟨l', member', same⟩ => ?_, fun _ => rfl⟩
      exact absurd same (sound.address_ne member' member)
    · rw [happen, answer]
      exact sound'

end deallocating

/-! ## Moving a block -/

/-- Only the pool and the lists matter. -/
theorem Sound.congr {K : Nat} {r r' : CacheRun} (sound : r.Sound K) (buddy : r'.cache.buddy = r.cache.buddy)
    (fromPool : r'.fromPool = r.fromPool) (fromFailover : r'.fromFailover = r.fromFailover) : r'.Sound K := by
  constructor
  · rw [buddy, fromPool]; exact sound.pool
  · rw [fromFailover]; exact sound.present
  · rw [fromFailover]; exact sound.beside
  · rw [buddy, fromFailover]; exact sound.outside

/-- The owners of live blocks may write, and so may the rest of the program. -/
theorem Sound.rewritten {K : Nat} {r : CacheRun} (sound : r.Sound K) {memory : Memory}
    (others : ∀ x, memory x ≠ r.cache.buddy.memory x →
      (∃ l ∈ r.live, l.address ≤ x ∧ x < l.address + l.requested) ∨ Outside r.cache.buddy ⟨x, 1⟩) :
    Sound K { r with cache := { r.cache with buddy := { r.cache.buddy with memory } } } where
  pool := by
    refine sound.pool.rewritten fun present x changed => ?_
    have poolKVal : r.cache.buddy.poolKVal = K := sound.pool.poolKVal
    rcases others x changed with ⟨l, member, low, high⟩ | outside
    · rcases List.mem_append.1 member with member | member
      · exact .inl ⟨l, member, low, high⟩
      · have outside := sound.outside l member present
        rw [poolKVal] at outside
        dsimp only
        omega
    · have outside := outside present
      rw [poolKVal] at outside
      dsimp only at outside ⊢
      omega
  present := sound.present
  beside := sound.beside
  outside := sound.outside

theorem gaveOut_cache (r : CacheRun) (cache : BuddyCacheAllocator) (l : LiveBlock) :
    (r.gaveOut cache l).cache = cache := by
  unfold gaveOut
  split <;> rfl

theorem Sound.gaveOut_congr {K : Nat} {r : CacheRun} {cache cache' : BuddyCacheAllocator} {l : LiveBlock}
    (given : (r.gaveOut cache l).Sound K) (buddy : cache'.buddy = cache.buddy)
    (asked : cache'.asked = cache.asked) : (r.gaveOut cache' l).Sound K := by
  refine given.congr ?_ ?_ ?_
  · rw [gaveOut_cache, gaveOut_cache, buddy]
  · unfold gaveOut
    rw [asked]
    split <;> rfl
  · unfold gaveOut
    rw [asked]
    split <;> rfl

theorem gaveOut_live (r : CacheRun) (cache : BuddyCacheAllocator) (l : LiveBlock) :
    l ∈ (r.gaveOut cache l).live := by
  unfold gaveOut live
  split <;> simp

theorem gaveOut_fromPool {r : CacheRun} {cache : BuddyCacheAllocator} {l l' : LiveBlock}
    (member : l' ∈ r.fromPool) : l' ∈ (r.gaveOut cache l).fromPool := by
  unfold gaveOut
  split
  · exact List.mem_cons_of_mem _ member
  · exact member

/-- A block given out while another is given back. -/
theorem gaveOut_without (r : CacheRun) {cache cache' : BuddyCacheAllocator} {l : LiveBlock} {block : Nat}
    (other : l.address ≠ block) (asked : cache'.asked = cache.asked) :
    ((r.without block).gaveOut cache' l).fromPool = ((r.gaveOut cache l).without block).fromPool ∧
      ((r.without block).gaveOut cache' l).fromFailover =
        ((r.gaveOut cache l).without block).fromFailover := by
  have same : (r.without block).cache = r.cache := rfl
  unfold gaveOut
  rw [asked, same]
  split <;> simp [without, other]

section moving

variable {K : Nat} {r : CacheRun}

/-- A new block is at an address of its own. -/
theorem Sound.new_ne {cache : BuddyCacheAllocator} {new l : LiveBlock} (given : (r.gaveOut cache new).Sound K)
    (member : l ∈ r.fromPool) : new.address ≠ l.address := by
  have beside : Beside new l := by
    have apart := given.live_beside
    unfold gaveOut live at apart
    split at apart
    · exact (List.pairwise_cons.1 apart).1 l (List.mem_append_left _ member)
    · exact Beside.symm ((List.pairwise_append.1 apart).2.2 l member new List.mem_cons_self)
  unfold Beside at beside
  omega

variable (sound : r.Sound K)

include sound

/-- A block of the pool is copied into another block and given back. -/
theorem Sound.copy_back {new l : LiveBlock} (member : l ∈ r.fromPool) (newLive : new ∈ r.live)
    (other : new.address ≠ l.address) {n : Nat} (room : n ≤ new.requested) :
    ∃ s', (r.cache.buddy.memcpy new.address l.address n).deallocate l.address = (.success, s') ∧
      Sound K { r.without l.address with cache := { r.cache with buddy := s' } } ∧
      ∀ i < n, s'.memory (new.address + i) = r.cache.buddy.memory (l.address + i) := by
  have copied : Sound K { r with cache :=
      { r.cache with buddy := r.cache.buddy.memcpy new.address l.address n } } := by
    refine sound.rewritten fun x changed => .inl ⟨new, newLive, ?_⟩
    by_contra away
    exact changed (Memory.copy_outside _ _ (by omega))
  obtain ⟨s', answer, sound', keeps⟩ := copied.deallocate_pool member
  refine ⟨s', answer, sound', fun i below => ?_⟩
  have same : s'.memory (new.address + i) =
      (r.cache.buddy.memcpy new.address l.address n).memory (new.address + i) := by
    rcases List.mem_append.1 newLive with fromPool | fromFailover
    · have still : new ∈ r.fromPool.filter (·.address ≠ l.address) :=
        List.mem_filter.2 ⟨fromPool, by simpa using other⟩
      exact keeps.payload new still i (by omega)
    · have outside := sound.outside new fromFailover (sound.pool_present member)
      have poolKVal : r.cache.buddy.poolKVal = K := sound.pool.poolKVal
      rw [poolKVal] at outside
      exact keeps.outside _ (by show _ < r.cache.buddy.pool ∨ r.cache.buddy.pool + 2 ^ K ≤ _; omega)
  rw [same]
  exact Memory.copy_inside _ _ below

end moving

/-! ## Reallocating -/

/-- What is known of a reallocation that returns. -/
structure Moved (K : Nat) (r : CacheRun) (oldBlock size : Nat) (error : Error) (block : Nat)
    (cache : BuddyCacheAllocator) : Prop where
  sound : (r.reallocated oldBlock size (some ((error, block), cache))).Sound K
  unmoved : error ≠ .success → ∀ l ∈ r.live, l.address = oldBlock → ∀ i < l.requested,
    cache.buddy.memory (oldBlock + i) = r.cache.buddy.memory (oldBlock + i)
  held : error = .success → ∀ l ∈ r.live, l.address = oldBlock → ∀ i < min l.requested size,
    cache.buddy.memory (block + i) = r.cache.buddy.memory (oldBlock + i)

section reallocating

variable {K : Nat} {r : CacheRun} (sound : r.Sound K) {size : Nat} {answers : Answers}

include sound

/-- A failure that leaves the pool as it is. -/
theorem Sound.refused {oldBlock block : Nat} {error : Error} (failure : error ≠ .success)
    {cache : BuddyCacheAllocator} (buddy : cache.buddy = r.cache.buddy) :
    Moved K r oldBlock size error block cache where
  sound := by
    rw [reallocated, if_pos failure]
    exact sound.congr buddy rfl rfl
  unmoved _ _ _ _ _ _ := by rw [buddy]
  held success := absurd success failure

theorem Sound.live_ne_null {l : LiveBlock} (member : l ∈ r.live) : l.address ≠ 0 := by
  rcases List.mem_append.1 member with member | member
  · obtain ⟨-, system, holds⟩ := sound.pool.partitioned member
    have inside := holds.inside member
    omega
  · exact sound.present l member

theorem Sound.without_null : r.without 0 = r := by
  have kept : ∀ l ∈ r.live, (decide (l.address ≠ 0)) = true := fun l member => by
    simpa using sound.live_ne_null member
  have fromPool : r.fromPool.filter (·.address ≠ 0) = r.fromPool :=
    List.filter_eq_self.2 fun l member => kept l (List.mem_append_left _ member)
  have fromFailover : r.fromFailover.filter (·.address ≠ 0) = r.fromFailover :=
    List.filter_eq_self.2 fun l member => kept l (List.mem_append_right _ member)
  unfold without
  rw [fromPool, fromFailover]

/-- The live block at an address is but one. -/
theorem Sound.live_unique {l l' : LiveBlock} (member : l ∈ r.live) (member' : l' ∈ r.live)
    (same : l.address = l'.address) : l = l' := by
  by_contra other
  have apart := sound.live_beside
  have beside := apart.forall member member' other
  unfold Beside at beside
  omega

omit sound in
/-- A failure of another kind is returned as it is. -/
theorem afterBuddy_other {oldBlock block : Nat} {error : Error} (notSuccess : error ≠ .success)
    (notOwner : error ≠ .notOwner) (notOut : error ≠ .outOfMemory) (cache : BuddyCacheAllocator) :
    BuddyCacheAllocator.afterBuddy oldBlock size answers ((error, block), cache) =
      some ((error, block), cache) := by
  cases error <;> first | exact absurd rfl notSuccess | exact absurd rfl notOwner | exact absurd rfl notOut | rfl

omit sound in
/-- Where the failover allocator fails as often as it is asked, the reallocation fails. -/
theorem afterBuddy_failed {oldBlock block : Nat} {error : Error} (failed : error ≠ .success)
    (notOwner : error ≠ .notOwner) {cache : BuddyCacheAllocator}
    (again : error = .outOfMemory → ∃ failure, answers.allocateAgain = .error failure) :
    ∃ error' block' cache', BuddyCacheAllocator.afterBuddy oldBlock size answers ((error, block), cache) =
      some ((error', block'), cache') ∧ error' ≠ .success ∧ cache'.buddy = cache.buddy := by
  by_cases out : error = .outOfMemory
  · obtain ⟨failure, refused⟩ := again out
    subst out
    refine ⟨failure, 0, cache.ask (.allocate size), ?_, failure.2, rfl⟩
    unfold BuddyCacheAllocator.afterBuddy BuddyCacheAllocator.reallocateExhausted
      BuddyCacheAllocator.failoverAllocate
    rw [refused]
    obtain ⟨code, notSuccess⟩ := failure
    cases code <;> first | exact absurd rfl notSuccess | rfl
  · exact ⟨error, block, cache, afterBuddy_other failed notOwner out cache, failed, rfl⟩

/-- Without an old block a reallocation is an allocation. -/
theorem Sound.reallocate_null (low : 1 ≤ K) (small : K < ESB_AVAIL_LIST_LENGTH)
    (supported : answers.reallocates = true) (legal : r.Legal (.reallocate 0 size answers))
    (sane : r.Sane (.reallocate 0 size answers)) :
    ∃ error block cache, r.cache.reallocate 0 size answers = some ((error, block), cache) ∧
      Moved K r 0 size error block cache := by
  obtain ⟨-, -, -, source, fresh, -⟩ := legal
  obtain ⟨fits, -, codes⟩ := sane
  obtain ⟨error, block, cache, answer, allocated⟩ := sound.allocate low small fits source fresh
  have notNull : ∀ l ∈ r.live, l.address = 0 → False := fun l member => sound.live_ne_null member
  unfold BuddyCacheAllocator.reallocate BuddyCacheAllocator.buddyReallocate
  rw [if_neg (by simp [supported]), if_pos rfl, answer, Option.bind_some]
  by_cases success : error = .success
  · subst success
    refine ⟨_, _, _, rfl, ?_, fun _ l member null => (notNull l member null).elim,
      fun _ l member null => (notNull l member null).elim⟩
    have given : (r.gaveOut cache ⟨block, size⟩).Sound K := allocated.sound
    have target : r.reallocated 0 size (some ((.success, block), cache.addCacheBytes size)) =
        r.gaveOut (cache.addCacheBytes size) ⟨block, size⟩ := by
      rw [reallocated, if_neg (by simp), if_neg (by simp), sound.without_null]
    rw [target]
    exact given.gaveOut_congr rfl rfl
  · -- the failover allocator failed, and not as if the old block were not the pool's
    obtain ⟨failure, refused, code⟩ := allocated.refused success
    unfold Unless at codes
    rw [refused] at codes
    obtain ⟨notOwner, notAgain⟩ := codes
    rw [code] at notOwner notAgain
    have left : Sound K { r with cache } := by
      have := allocated.sound
      rwa [CacheRun.allocated, if_neg success] at this
    have again : error = .outOfMemory → ∃ failure, answers.allocateAgain = .error failure := by
      intro out
      cases given : answers.allocateAgain with
      | error failure => exact ⟨failure, rfl⟩
      | ok block =>
          unfold Whenever at notAgain
          rw [given] at notAgain
          exact (notAgain rfl out).elim
    obtain ⟨error', block', cache', answer, failed, buddy⟩ := afterBuddy_failed success notOwner again
    refine ⟨error', block', cache', answer, ?_, fun _ l member null => (notNull l member null).elim,
      fun same => absurd same failed⟩
    rw [reallocated, if_pos failed]
    exact left.congr buddy rfl rfl

/-- A block reallocated to nothing is given back. -/
theorem Sound.reallocate_nothing {l : LiveBlock} (member : l ∈ r.live) (present : r.cache.buddy.pool ≠ 0)
    (supported : answers.reallocates = true)
    (taken : (∃ l' ∈ r.fromFailover, l'.address = l.address) → answers.deallocate = .success) :
    ∃ error block cache, r.cache.reallocate l.address 0 answers = some ((error, block), cache) ∧
      Moved K r l.address 0 error block cache := by
  have notNull := sound.live_ne_null member
  have legal : r.Legal (.deallocate l.address answers) := ⟨⟨l, member, rfl⟩, taken⟩
  obtain ⟨kept, sound'⟩ := sound.deallocate present legal
  have success := kept.1
  rw [happen, ← Prod.mk.eta (p := r.cache.deallocate l.address answers), success] at sound'
  unfold BuddyCacheAllocator.reallocate BuddyCacheAllocator.buddyReallocate
  rw [if_neg (by simp [supported]), if_neg notNull, if_pos rfl,
    ← Prod.mk.eta (p := r.cache.deallocate l.address answers), success]
  refine ⟨.success, 0, _, rfl, ?_, fun failed => absurd rfl failed, fun _ l' _ _ i below => ?_⟩
  · rw [reallocated, if_neg (by simp), if_pos ⟨notNull, rfl⟩]
    exact sound'.congr rfl rfl rfl
  · rw [Nat.min_zero] at below
    exact absurd below (Nat.not_lt_zero i)

/-- A block of the failover allocator is moved by it. -/
theorem Sound.reallocate_failover {l : LiveBlock} (member : l ∈ r.fromFailover) (positive : size ≠ 0)
    (supported : answers.reallocates = true) (legal : Whenever answers.reallocate (r.MoveLegal l size)) :
    ∃ error block cache, r.cache.reallocate l.address size answers = some ((error, block), cache) ∧
      Moved K r l.address size error block cache := by
  have notNull := sound.present l member
  unfold BuddyCacheAllocator.reallocate BuddyCacheAllocator.buddyReallocate
  rw [if_neg (by simp [supported]), if_neg notNull, if_neg positive]
  by_cases present : r.cache.buddy.pool = 0
  · rw [if_pos present]
    exact ⟨.invalidState, 0, r.cache, rfl, sound.refused (by decide) rfl⟩
  · have outside := sound.outside l member present
    have away : l.address < r.cache.buddy.pool ∨ r.cache.buddy.pool + 2 ^ r.cache.buddy.poolKVal ≤ l.address := by
      omega
    have foreign := BuddyRun.allocationSize_foreign away
    rw [if_neg present, foreign]
    dsimp only
    rw [if_pos rfl, Option.bind_some]
    unfold BuddyCacheAllocator.afterBuddy
    cases given : answers.reallocate with
    | error failure => exact ⟨failure, 0, _, rfl, sound.refused failure.2 rfl⟩
    | ok moved =>
        obtain ⟨block, memory⟩ := moved
        rw [given] at legal
        obtain ⟨fresh, contents, kept⟩ := legal
        refine ⟨.success, block, _, rfl, ?_, fun failed => absurd rfl failed, fun _ l' member' same i below => ?_⟩
        · rw [reallocated, if_neg (by simp), if_neg (fun both => positive both.2)]
          have left : Sound K (r.without l.address) :=
            (sound.deallocate_failover present member answers).2.congr rfl rfl rfl
          refine left.failover_gave (List.cons_ne_self _ _) (left.pool.rewritten fun _ x changed => .inr ?_)
            left.outside fresh
          have poolKVal : r.cache.buddy.poolKVal = K := sound.pool.poolKVal
          rw [poolKVal] at kept
          by_contra within
          have inPool : r.cache.buddy.pool ≤ x ∧ x - r.cache.buddy.pool < 2 ^ K := by
            change ¬ (x < r.cache.buddy.pool ∨ r.cache.buddy.pool + 2 ^ K ≤ x) at within
            omega
          have same := kept (x - r.cache.buddy.pool) inPool.2
          rw [Nat.add_sub_cancel' inPool.1] at same
          exact changed same
        · have unique := sound.live_unique (List.mem_append_right _ member) member' same.symm
          subst unique
          exact contents i below

/-- Once there is a new block, a block of the pool is copied there and given back. -/
theorem Sound.moved_out {l : LiveBlock} (member : l ∈ r.fromPool) (positive : size ≠ 0) {block n : Nat}
    {cache : BuddyCacheAllocator} (given : (r.gaveOut cache ⟨block, size⟩).Sound K)
    (keeps : BuddyRun.Keeps K r.fromPool r.cache.buddy cache.buddy) (room : n ≤ size)
    (enough : min l.requested size ≤ n) :
    ∃ s', (cache.buddy.memcpy block l.address n).deallocate l.address = (.success, s') ∧
      ∀ cache' : BuddyCacheAllocator, cache'.buddy = s' → cache'.asked = cache.asked →
        Moved K r l.address size .success block cache' := by
  have other := given.new_ne member
  obtain ⟨s', back, sound', copied⟩ :=
    given.copy_back (gaveOut_fromPool member) (gaveOut_live r cache ⟨block, size⟩) other room
  rw [gaveOut_cache] at back sound' copied
  refine ⟨s', back, fun cache' buddy asked => ⟨?_, fun failed => absurd rfl failed, ?_⟩⟩
  · obtain ⟨fromPool, fromFailover⟩ := gaveOut_without r other asked
    rw [reallocated, if_neg (by simp), if_neg (fun both => positive both.2)]
    refine sound'.congr ?_ fromPool fromFailover
    rw [gaveOut_cache, buddy]
  · intro _ l' member' same i below
    have unique := sound.live_unique (List.mem_append_left _ member) member' same.symm
    subst unique
    rw [buddy, copied i (Nat.lt_of_lt_of_le below enough)]
    exact keeps.payload l member i (Nat.lt_of_lt_of_le below (Nat.min_le_left _ _))

/-- What a block of the pool has room for is a size of 32 bits. -/
theorem Sound.original_size (small : K ≤ 32) {l : LiveBlock} (member : l ∈ r.fromPool) :
    l.requested ≤ r.cache.buddy.allocationSize l.address ∧ r.cache.buddy.allocationSize l.address ≠ 0 ∧
      r.cache.buddy.allocationSize l.address < 2 ^ 32 := by
  obtain ⟨large, system, holds⟩ := sound.pool.partitioned member
  obtain ⟨order, five, le, room, same⟩ := holds.allocationSize_eq member
  dsimp only at same
  have low : 2 ^ 5 ≤ 2 ^ order := Nat.pow_le_pow_right (by decide) five
  have high : 2 ^ order ≤ 2 ^ 32 := Nat.pow_le_pow_right (by decide) (Nat.le_trans le small)
  rw [same]
  unfold AvailListElem.size at room ⊢
  omega

theorem Sound.reallocate_pool (low : 1 ≤ K) (small : K ≤ 32) {l : LiveBlock} (member : l ∈ r.fromPool)
    (positive : size ≠ 0) (supported : answers.reallocates = true)
    (fits : size + AvailListElem.size ≤ 2 ^ 63) (source : r.SourceLegal answers)
    (fresh : r.AllocateLegal size answers answers.allocate)
    (again : r.AllocateLegal size answers answers.allocateAgain)
    (codes : Unless answers.allocate fun failure => failure.1 ≠ .notOwner) :
    ∃ error block cache, r.cache.reallocate l.address size answers = some ((error, block), cache) ∧
      Moved K r l.address size error block cache := by
  have notNull := sound.live_ne_null (List.mem_append_left _ member)
  have present := sound.pool_present member
  obtain ⟨enough, some_, -⟩ := sound.original_size small member
  obtain ⟨error, block, cache, answer, allocated⟩ :=
    sound.allocate low (short_of_le small) fits source fresh
  have keeps := allocated.keeps present
  unfold BuddyCacheAllocator.reallocate BuddyCacheAllocator.buddyReallocate
  rw [if_neg (by simp [supported]), if_neg notNull, if_neg positive, if_neg present]
  dsimp only
  rw [if_neg some_, answer, Option.bind_some]
  by_cases success : error = .success
  · subst success
    have given : (r.gaveOut cache ⟨block, size⟩).Sound K := allocated.sound
    obtain ⟨s', back, moved⟩ := sound.moved_out member positive given keeps
      (n := min size (r.cache.buddy.allocationSize l.address)) (Nat.min_le_left _ _) (by omega)
    have taken := deallocate_of_pool (c := { cache with
      buddy := cache.buddy.memcpy block l.address (min size (r.cache.buddy.allocationSize l.address)) })
      back answers
    dsimp only
    rw [if_neg (by simp), taken]
    exact ⟨.success, block, _, rfl, moved _ rfl rfl⟩
  · obtain ⟨failure, refused, code⟩ := allocated.refused success
    have notOwner : error ≠ .notOwner := by
      unfold Unless at codes
      rw [refused] at codes
      exact code ▸ codes
    have left : Sound K { r with cache } := by
      have := allocated.sound
      rwa [CacheRun.allocated, if_neg success] at this
    dsimp only
    rw [if_pos success, Option.bind_some]
    have failed : (error = .outOfMemory → ∃ failure, answers.allocateAgain = .error failure) →
        ∃ error' block' cache', BuddyCacheAllocator.afterBuddy l.address size answers ((error, 0), cache) =
          some ((error', block'), cache') ∧ Moved K r l.address size error' block' cache' := by
      intro again
      obtain ⟨error', block', cache', answer', failed, buddy⟩ := afterBuddy_failed success notOwner again
      refine ⟨error', block', cache', answer', ?_, fun _ l' member' same i below => ?_,
        fun same => absurd same failed⟩
      · rw [reallocated, if_pos failed]
        exact left.congr buddy rfl rfl
      · have unique := sound.live_unique (List.mem_append_left _ member) member' same.symm
        subst unique
        rw [buddy]
        exact keeps.payload l member i below
    by_cases out : error = .outOfMemory
    · cases given : answers.allocateAgain with
      | error failure => exact failed fun _ => ⟨failure, given⟩
      | ok block =>
          subst out
          obtain ⟨first, asked, buddy⟩ := allocated.buddy
          unfold AllocateLegal at again
          rw [given] at again
          have new : Fresh r.fromFailover cache.buddy ⟨block, size⟩ := buddy ▸ again first asked
          obtain ⟨enough', some', bound⟩ := left.original_size small member
          let cache' := (cache.ask (.allocate size)).addFailoverBytes size
          have grown : cache'.asked ≠ r.cache.asked := by
            intro same
            have longer := allocated.asked.length_le
            have := congrArg List.length same
            simp only [cache', BuddyCacheAllocator.ask, BuddyCacheAllocator.addFailoverBytes,
              List.length_cons] at this
            omega
          have gave : (r.gaveOut cache' ⟨block, size⟩).Sound K :=
            sound.failover_gave grown left.pool left.outside new
          obtain ⟨s', back, moved⟩ := sound.moved_out member positive gave keeps
            (n := min (cache.buddy.allocationSize l.address) size) (Nat.min_le_right _ _)
            (by dsimp only at enough'; omega)
          refine ⟨.success, block, { cache' with buddy := s' }, ?_, moved _ rfl rfl⟩
          unfold BuddyCacheAllocator.afterBuddy BuddyCacheAllocator.reallocateExhausted
            BuddyCacheAllocator.failoverAllocate
          rw [given]
          have size' : (cache'.buddy.allocationSize l.address) % 2 ^ 32 =
              cache.buddy.allocationSize l.address := Nat.mod_eq_of_lt bound
          dsimp only
          rw [if_neg notNull, size', if_neg some', back]
    · exact failed fun same => absurd same out

end reallocating

theorem Sound.reallocate {K : Nat} {r : CacheRun} (sound : r.Sound K) (low : 1 ≤ K) (small : K ≤ 32)
    {oldBlock size : Nat} {answers : Answers} (legal : r.Legal (.reallocate oldBlock size answers))
    (sane : r.Sane (.reallocate oldBlock size answers)) :
    ∃ error block cache, r.cache.reallocate oldBlock size answers = some ((error, block), cache) ∧
      Moved K r oldBlock size error block cache := by
  have short := short_of_le small
  cases supported : answers.reallocates with
  | false =>
      unfold BuddyCacheAllocator.reallocate
      rw [if_pos (by simp [supported])]
      exact ⟨_, _, _, rfl, sound.refused (by decide) rfl⟩
  | true =>
      obtain ⟨old, taken, moves, source, fresh, again⟩ := id legal
      rcases old with rfl | ⟨l, member, rfl⟩
      · exact sound.reallocate_null low short supported legal sane
      · obtain ⟨fits, present, codes⟩ := sane
        have notNull := sound.live_ne_null member
        by_cases nothing : size = 0
        · subst nothing
          exact sound.reallocate_nothing member (present notNull rfl) supported taken
        · rcases List.mem_append.1 member with member | member
          · have notOwner : Unless answers.allocate fun failure => failure.1 ≠ .notOwner := by
              unfold Unless at codes ⊢
              split at codes
              · trivial
              · exact codes.1
            exact sound.reallocate_pool low small member nothing supported fits source fresh again notOwner
          · exact sound.reallocate_failover member nothing supported (moves l member rfl)

/-! ## Whole runs -/

theorem happen_sound {K : Nat} {r : CacheRun} (sound : r.Sound K) (low : 1 ≤ K) (small : K ≤ 32)
    {call : CacheCall} (legal : r.Legal call) (sane : r.Sane call) : r.Kept call ∧ (r.happen call).Sound K := by
  cases call with
  | allocate size answers =>
      obtain ⟨source, fresh⟩ := legal
      obtain ⟨error, block, cache, answer, allocated⟩ := sound.allocate low (short_of_le small) sane source fresh
      refine ⟨trivial, ?_⟩
      rw [happen, answer]
      exact allocated.sound
  | deallocate block answers => exact sound.deallocate sane legal
  | reallocate oldBlock size answers =>
      obtain ⟨error, block, cache, answer, moved⟩ := sound.reallocate low small legal sane
      refine ⟨⟨error, block, cache, answer, fun l member same => ?_⟩, ?_⟩
      · exact ⟨fun failed => moved.unmoved failed l member same, fun success => moved.held success l member same⟩
      · rw [happen, answer]
        exact moved.sound
  | write address value =>
      refine ⟨trivial, sound.rewritten fun x changed => ?_⟩
      have here : x = address := by
        by_contra other
        exact changed (Function.update_of_ne other _ _)
      rw [here]
      exact legal

theorem run_sound {K : Nat} (low : 1 ≤ K) (small : K ≤ 32) (calls : List CacheCall) :
    ∀ {r : CacheRun}, r.Sound K → Along Legal r calls → Along Sane r calls → (r.run calls).Sound K := by
  induction calls with
  | nil =>
      intro r sound legal sane
      exact sound
  | cons call calls ih =>
      intro r sound legal sane
      exact ih (happen_sound sound low small legal.1 sane.1).2 legal.2 sane.2

/-- Whatever the other allocators fail at, live blocks stay apart, and every call does what it is
for. -/
theorem run_kept {size : UInt32} {memory : Memory} {s : BuddyAllocator} (created : create size memory = some s)
    (calls : List CacheCall) (legal : Along Legal (start s) calls)
    (sane : Along Sane (start s) calls) :
    (run (start s) calls).live.Pairwise Beside ∧
      ∀ call, (run (start s) calls).Legal call → (run (start s) calls).Sane call →
        (run (start s) calls).Kept call := by
  obtain ⟨low, small, poolless⟩ := BuddyRun.create_bounds created
  have sound : Sound s.poolKVal (start s) :=
    ⟨⟨rfl, .inl ⟨poolless, rfl⟩⟩, fun _ member => (nomatch member), .nil, fun _ member => (nomatch member)⟩
  have sound := run_sound low small calls sound legal sane
  exact ⟨sound.live_beside, fun call legal sane => (happen_sound sound low small legal sane).1⟩

/-- A pool of 64 octets. -/
def small64 : BuddyAllocator := ⟨6, 0, fun _ => 0, fun _ => 0⟩

theorem create_small64 : create 64 (fun _ => 0) = some small64 := rfl

def exhausted : Failure := ⟨.outOfMemory, by decide⟩

/-- The other allocators have nothing to give. -/
def noAnswers : Answers := ⟨.error exhausted, .error exhausted, .error exhausted, .success, .error exhausted, true⟩

/-- A block from the pool, one from the failover allocator, and the first one moved. -/
def firstCalls : List CacheCall :=
  [.allocate 8 { noAnswers with source := .ok 4096 }, .allocate 40 { noAnswers with allocate := .ok 8192 },
    .write 4120 7, .write 8195 9, .reallocate 4120 4 noAnswers]

/-- The memory once the failover allocator moved its block. -/
def movedMemory : Memory := (run (start small64) firstCalls).cache.buddy.memory.copy 12288 8192 40

def someCalls : List CacheCall :=
  firstCalls ++ [.reallocate 8192 50 { noAnswers with reallocate := .ok (12288, movedMemory) },
    .deallocate 12288 noAnswers]

theorem someCalls_kept : Along Legal (start small64) someCalls ∧ Along Sane (start small64) someCalls ∧
    (run (start small64) someCalls).live.Pairwise Beside :=
  have legal : Along Legal (start small64) someCalls := by decide
  have sane : Along Sane (start small64) someCalls := by decide
  ⟨legal, sane, (run_kept create_small64 someCalls legal sane).1⟩

/-- The source fails, the failover allocator gives a block, and the cache does not take it back. -/
theorem stranded_block :
    Along Legal (start small64) [.allocate 8 { noAnswers with allocate := .ok 8192 }] ∧
      (run (start small64) [.allocate 8 { noAnswers with allocate := .ok 8192 }]).Legal
        (.deallocate 8192 noAnswers) ∧
      ¬ (run (start small64) [.allocate 8 { noAnswers with allocate := .ok 8192 }]).Kept
        (.deallocate 8192 noAnswers) := by
  refine ⟨by decide, by decide, fun kept => ?_⟩
  have code : ((run (start small64) [.allocate 8 { noAnswers with allocate := .ok 8192 }]).cache.deallocate 8192
      noAnswers).1 = .invalidState := by decide
  exact nomatch code.symm.trans kept.1

end CacheRun

end Everscale
