/-
# Everscale.Base.BuddyRun -- histories of a buddy allocator

A run is an allocator with the blocks it has given out and not been given back.  Its calls are
those of the allocator's users: they deallocate live blocks only, and write into what they
asked for.
-/
import Everscale.Base.BuddyInvariant

namespace Everscale

set_option autoImplicit false

open Theory

namespace BuddyAllocator

open AvailListElem

/-! ## One allocation -/

section allocation

variable {K : Nat} {s : BuddyAllocator} {system : BuddySystem K}

/-- What comes of a request when there is a pool. -/
inductive Outcome (s : BuddyAllocator) (system : BuddySystem K) (requested : Nat) :
    Option ((Error × Nat) × BuddyAllocator) → Prop where
  | endless : Outcome s system requested none
  | refused {error : Error} (failure : error ≠ .success) : Outcome s system requested (some ((error, 0), s))
  | block {s' : BuddyAllocator} {b : Block} {system' : BuddySystem K} (represents : Represents s' system')
      (new : b ∉ system.live) (live : system'.live = insert b system.live)
      (room : requested + size ≤ 2 ^ b.order) (spares : Spares K system.live s s') :
      Outcome s system requested (some ((.success, s.pool + b.start + size), s'))

/-- A request for nothing is refused before anything else is looked at. -/
theorem allocate_nothing (s : BuddyAllocator) (source : Except Failure Nat) :
    s.allocate 0 source = some ((.invalidArgument, 0), s) := rfl

theorem allocate_from_pool (present : s.pool ≠ 0) {requested : Nat} (positive : requested ≠ 0)
    (source : Except Failure Nat) :
    s.allocate requested source = (AdjustedKVal requested).map fun minimumKVal => s.allocateFromPool minimumKVal := by
  unfold allocate
  rw [if_neg positive, if_neg present]
  rfl

theorem allocate_outcome (holds : Represents s system) {requested : Nat} (fits : requested + size < 2 ^ 64)
    (source : Except Failure Nat) : Outcome s system requested (s.allocate requested source) := by
  by_cases nothing : requested = 0
  · subst nothing
    rw [allocate_nothing]
    exact .refused (by decide)
  · rw [allocate_from_pool holds.poolPresent nothing]
    cases found : AdjustedKVal requested with
    | none => exact .endless
    | some minimum =>
        obtain ⟨large, room⟩ := AdjustedKVal_room fits found
        rw [Option.map_some]
        rcases allocateFromPool_spec holds large with out | ⟨start, system', answer, represents, new, live, spares⟩
        · rw [out]
          exact .refused (by decide)
        · rw [← Prod.mk.eta (p := s.allocateFromPool minimum), answer]
          exact .block (b := ⟨start, minimum⟩) represents new live room spares

/-- A request of no more than half the address space is answered. -/
theorem allocate_returns (s : BuddyAllocator) {requested : Nat} (fits : requested + size ≤ 2 ^ 63)
    (source : Except Failure Nat) : ∃ answer, s.allocate requested source = some answer := by
  obtain ⟨minimum, found⟩ := AdjustedKVal_returns fits
  by_cases nothing : requested = 0
  · exact ⟨_, nothing ▸ allocate_nothing s source⟩
  · unfold allocate
    rw [if_neg nothing, found]
    dsimp only
    split
    · split <;> exact ⟨_, rfl⟩
    · exact ⟨_, rfl⟩

/-- Without a pool the source's failure is the request's. -/
theorem allocate_unsourced (noPool : s.pool = 0) (requested : Nat) (error : Failure) :
    ∃ error' : Error, error' ≠ .success ∧ s.allocate requested (.error error) = some ((error', 0), s) := by
  by_cases nothing : requested = 0
  · subst nothing
    exact ⟨.invalidArgument, by decide, rfl⟩
  · have failed : (s.initializePool (.error error)).1 ≠ .success ∧ (s.initializePool (.error error)).2 = s := by
      unfold initializePool
      split
      · exact ⟨fun same => (nomatch same), rfl⟩
      · exact ⟨error.2, rfl⟩
    refine ⟨_, failed.1, ?_⟩
    unfold allocate
    rw [if_neg nothing, if_pos noPool, ← Prod.mk.eta (p := s.initializePool (.error error)), failed.2]
    exact if_pos failed.1

/-- With a pool from the source the request is made again. -/
theorem allocate_sourced (noPool : s.pool = 0) (low : 1 ≤ s.poolKVal) (small : s.poolKVal < ESB_AVAIL_LIST_LENGTH)
    {pool : Nat} (present : pool ≠ 0) {requested : Nat} (positive : requested ≠ 0) :
    s.allocate requested (.ok pool) = (s.initializePool (.ok pool)).2.allocate requested (.ok pool) := by
  have made : (s.initializePool (.ok pool)).1 = .success ∧ (s.initializePool (.ok pool)).2.pool = pool := by
    unfold initializePool
    rw [if_neg (by omega)]
    exact ⟨rfl, rfl⟩
  have present' : (s.initializePool (.ok pool)).2.pool ≠ 0 := by rw [made.2]; exact present
  rw [allocate_from_pool present' positive]
  conv_lhs => unfold allocate
  rw [if_neg positive, if_pos noPool, ← Prod.mk.eta (p := s.initializePool (.ok pool)), made.1]
  rfl

end allocation

/-! ## Runs -/

/-- A block given out, and what was asked for. -/
structure LiveBlock where
  address : Nat
  requested : Nat
  deriving DecidableEq, Repr

end BuddyAllocator

open BuddyAllocator

structure BuddyRun where
  allocator : BuddyAllocator
  live : List LiveBlock := []

/-- What the users of the allocator do; a request comes with what the source allocator answers
if it is asked. -/
inductive BuddyCall where
  | allocate (requested : Nat) (source : Except Failure Nat)
  | deallocate (block : Nat)
  | write (address : Nat) (value : UInt8)
  | reset

namespace BuddyRun

open AvailListElem

/-- What a request leaves; one that does not return leaves the run where it is. -/
def answered (r : BuddyRun) (requested : Nat) : Option ((Error × Nat) × BuddyAllocator) → BuddyRun
  | none => r
  | some ((error, block), allocator) =>
      if error = .success then ⟨allocator, ⟨block, requested⟩ :: r.live⟩ else ⟨allocator, r.live⟩

def happen (r : BuddyRun) : BuddyCall → BuddyRun
  | .allocate requested source => r.answered requested (r.allocator.allocate requested source)
  | .deallocate block =>
      let (error, allocator) := r.allocator.deallocate block
      if error = .success then ⟨allocator, r.live.filter (·.address ≠ block)⟩ else ⟨allocator, r.live⟩
  | .write address value =>
      ⟨{ r.allocator with memory := Function.update r.allocator.memory address value }, r.live⟩
  | .reset => ⟨r.allocator.reset.2, r.live⟩

def run (r : BuddyRun) (calls : List BuddyCall) : BuddyRun := calls.foldl happen r

/-- A pool from the source allocator is one that the address space has room for. -/
def Granted (K : Nat) (source : Except Failure Nat) : Prop :=
  ∀ pool, source = .ok pool → pool ≠ 0 ∧ pool + 2 ^ K ≤ 2 ^ 64

/-- The users deallocate what is live and write into what they asked for. -/
def Legal (r : BuddyRun) : BuddyCall → Prop
  | .allocate _ source => Granted r.allocator.poolKVal source
  | .deallocate block => ∃ l ∈ r.live, l.address = block
  | .write address _ => ∃ l ∈ r.live, l.address ≤ address ∧ address < l.address + l.requested
  | .reset => True

instance (K : Nat) (source : Except Failure Nat) : Decidable (Granted K source) :=
  match source with
  | .error _ => isTrue fun _ same => nomatch same
  | .ok pool => decidable_of_iff (pool ≠ 0 ∧ pool + 2 ^ K ≤ 2 ^ 64)
      ⟨fun room _ same => Except.ok.inj same ▸ room, fun granted => granted pool rfl⟩

instance (r : BuddyRun) (call : BuddyCall) : Decidable (r.Legal call) :=
  match call with
  | .allocate _ source => inferInstanceAs (Decidable (Granted r.allocator.poolKVal source))
  | .deallocate block => inferInstanceAs (Decidable (∃ l ∈ r.live, l.address = block))
  | .write address _ =>
      inferInstanceAs (Decidable (∃ l ∈ r.live, l.address ≤ address ∧ address < l.address + l.requested))
  | .reset => isTrue trivial

def LegalRun (r : BuddyRun) : List BuddyCall → Prop
  | [] => True
  | call :: calls => r.Legal call ∧ LegalRun (r.happen call) calls

instance decidableLegalRun (r : BuddyRun) : (calls : List BuddyCall) → Decidable (r.LegalRun calls)
  | [] => isTrue trivial
  | call :: calls =>
      have := decidableLegalRun (r.happen call) calls
      inferInstanceAs (Decidable (r.Legal call ∧ LegalRun (r.happen call) calls))

/-- The request and the head of its block have together a size of 64 bits. -/
def Fits : BuddyCall → Prop
  | .allocate requested _ => requested + size < 2 ^ 64
  | _ => True

/-- The blocks on the lists and the live ones make up the pool. -/
structure Partitioned {K : Nat} (r : BuddyRun) (system : BuddySystem K) : Prop where
  represents : Represents r.allocator system
  held : ∀ l ∈ r.live, ∃ b ∈ system.live,
    l.address = r.allocator.pool + b.start + size ∧ l.requested + size ≤ 2 ^ b.order
  known : ∀ b ∈ system.live, ∃ l ∈ r.live, l.address = r.allocator.pool + b.start + size
  nodup : (r.live.map LiveBlock.address).Nodup

/-- There is a pool, partitioned, or neither a pool nor a live block. -/
def Settled (K : Nat) (r : BuddyRun) : Prop :=
  r.allocator.poolKVal = K ∧
    ((r.allocator.Poolless ∧ r.live = []) ∨ ∃ system : BuddySystem K, r.Partitioned system)

/-- Room for a head is room for five bits. -/
theorem large_of_room {requested k : Nat} (room : requested + size ≤ 2 ^ k) : 5 ≤ k := by
  by_contra small
  have le : 2 ^ k ≤ 2 ^ 4 := Nat.pow_le_pow_right (by decide) (by omega)
  unfold size at room
  omega

namespace Partitioned

variable {K : Nat} {r : BuddyRun} {system : BuddySystem K} (holds : r.Partitioned system)

include holds

/-- A live address is that of one live block of the system. -/
theorem block_of {address : Nat} (live : ∃ l ∈ r.live, l.address = address) :
    ∃ b ∈ system.live, address = r.allocator.pool + b.start + size ∧ 5 ≤ b.order := by
  obtain ⟨l, member, rfl⟩ := live
  obtain ⟨b, bLive, address, room⟩ := holds.held l member
  exact ⟨b, bLive, address, large_of_room room⟩

theorem allocated {requested : Nat} {allocator : BuddyAllocator} {b : Block} {system' : BuddySystem K}
    (represents : Represents allocator system') (new : b ∉ system.live)
    (live : system'.live = insert b system.live) (room : requested + size ≤ 2 ^ b.order)
    (pool : allocator.pool = r.allocator.pool) :
    Partitioned ⟨allocator, ⟨r.allocator.pool + b.start + size, requested⟩ :: r.live⟩ system' where
  represents := represents
  held := by
    rw [live, pool]
    intro l member
    rcases List.mem_cons.1 member with rfl | member
    · exact ⟨b, .inl rfl, rfl, room⟩
    · obtain ⟨c, cLive, address, room⟩ := holds.held l member
      exact ⟨c, .inr cLive, address, room⟩
  known := by
    rw [live, pool]
    rintro c (rfl | cLive)
    · exact ⟨_, List.mem_cons_self, rfl⟩
    · obtain ⟨l, member, address⟩ := holds.known c cLive
      exact ⟨l, List.mem_cons_of_mem _ member, address⟩
  nodup := by
    rw [List.map_cons, List.nodup_cons]
    refine ⟨fun member => ?_, holds.nodup⟩
    obtain ⟨l, member, address⟩ := List.mem_map.1 member
    obtain ⟨c, cLive, address', -⟩ := holds.held l member
    have bLive : b ∈ system'.live := by rw [live]; exact .inl rfl
    have cLive' : c ∈ system'.live := by rw [live]; exact .inr cLive
    have start : c.start = b.start := by
      rw [address'] at address
      dsimp only at address
      omega
    have same := system'.tiling.start_injective (.inr cLive') (.inr bLive) start
    exact new (same ▸ cLive)

theorem deallocated {allocator : BuddyAllocator} {b : Block} {system' : BuddySystem K}
    (represents : Represents allocator system') (bLive : b ∈ system.live)
    (live : system'.live = system.live \ {b}) (pool : allocator.pool = r.allocator.pool) :
    Partitioned ⟨allocator, r.live.filter (·.address ≠ r.allocator.pool + b.start + size)⟩ system' where
  represents := represents
  held := by
    rw [live, pool]
    intro l member
    obtain ⟨member, other⟩ := List.mem_filter.1 member
    obtain ⟨c, cLive, address, room⟩ := holds.held l member
    refine ⟨c, ⟨cLive, ?_⟩, address, room⟩
    rintro rfl
    simp [address] at other
  known := by
    rw [live, pool]
    rintro c ⟨cLive, other⟩
    obtain ⟨l, member, address⟩ := holds.known c cLive
    refine ⟨l, List.mem_filter.2 ⟨member, ?_⟩, address⟩
    have apart : c.start ≠ b.start := fun same =>
      other (system.tiling.start_injective (.inr cLive) (.inr bLive) same)
    simp only [address, ne_eq, decide_eq_true_eq]
    omega
  nodup := holds.nodup.sublist (List.Sublist.map _ List.filter_sublist)

/-- What the owner of a block writes is in no head. -/
theorem written {address : Nat} (value : UInt8)
    (owned : ∃ l ∈ r.live, l.address ≤ address ∧ address < l.address + l.requested) :
    (r.happen (.write address value)).Partitioned system where
  represents := by
    obtain ⟨l, member, low, high⟩ := owned
    obtain ⟨b, bLive, start, room⟩ := holds.held l member
    have behind : r.allocator.pool + b.start + size ≤ address := by omega
    have before : address < r.allocator.pool + b.start + 2 ^ b.order := by omega
    have outside := payload_outside system.tiling holds.represents.roomy _ (.inr bLive) behind before
    refine holds.represents.congr fun a head field => peek_congr (fun x low high => ?_) field
    have other : x ≠ address := by
      have := outside a head
      omega
    exact Function.update_of_ne other _ _
  held := holds.held
  known := holds.known
  nodup := holds.nodup

/-- Nothing is live when no block of the system is. -/
theorem live_nil (empty : system.live = ∅) : r.live = [] := by
  refine List.eq_nil_iff_forall_not_mem.2 fun l member => ?_
  obtain ⟨b, bLive, -⟩ := holds.held l member
  rw [empty] at bLive
  exact bLive

theorem live_empty (nil : r.live = []) : system.live = ∅ := by
  refine Set.eq_empty_iff_forall_notMem.2 fun b bLive => ?_
  obtain ⟨l, member, -⟩ := holds.known b bLive
  rw [nil] at member
  exact nomatch member

end Partitioned

/-! ## One call -/

section happening

variable {K : Nat} {r : BuddyRun} {system : BuddySystem K}

theorem happen_allocate (holds : r.Partitioned system) {requested : Nat} (fits : requested + size < 2 ^ 64)
    (source : Except Failure Nat) :
    ∃ system' : BuddySystem K, (r.happen (.allocate requested source)).Partitioned system' := by
  show ∃ system' : BuddySystem K, (r.answered requested (r.allocator.allocate requested source)).Partitioned system'
  have outcome := allocate_outcome holds.represents fits source
  generalize r.allocator.allocate requested source = answer at outcome
  cases outcome with
  | endless => exact ⟨system, holds⟩
  | refused failure =>
      rw [answered, if_neg failure]
      exact ⟨system, holds⟩
  | block represents new live room spares =>
      exact ⟨_, holds.allocated represents new live room spares.pool⟩

theorem happen_deallocate (holds : r.Partitioned system) {block : Nat}
    (live : ∃ l ∈ r.live, l.address = block) :
    (r.allocator.deallocate block).1 = .success ∧
      ∃ system' : BuddySystem K, (r.happen (.deallocate block)).Partitioned system' := by
  obtain ⟨b, bLive, address, large⟩ := holds.block_of live
  subst address
  obtain ⟨success, system', represents, live', spares⟩ := deallocate_spec holds.represents bLive large
  refine ⟨success, system', ?_⟩
  have happened : r.happen (.deallocate (r.allocator.pool + b.start + size)) =
      ⟨(r.allocator.deallocate (r.allocator.pool + b.start + size)).2,
        r.live.filter (·.address ≠ r.allocator.pool + b.start + size)⟩ := if_pos success
  rw [happened]
  exact holds.deallocated represents bLive live' spares.pool

theorem happen_reset (holds : r.Partitioned system) : (r.happen .reset).Settled K := by
  obtain ⟨iff, poolless, kept⟩ := reset_spec holds.represents
  have poolKVal : r.allocator.reset.2.poolKVal = K := by
    rw [← holds.represents.poolKVal]
    unfold reset
    split
    · rfl
    · split <;> rfl
  refine ⟨poolKVal, ?_⟩
  by_cases success : r.allocator.reset.1 = .success
  · exact .inl ⟨poolless success, holds.live_nil (iff.1 success)⟩
  · refine .inr ⟨system, ?_⟩
    rw [happen, kept success]
    exact holds

/-- Without a pool a request is refused or made of a fresh pool. -/
theorem happen_poolless (low : 1 ≤ K) (small : K < ESB_AVAIL_LIST_LENGTH) (poolKVal : r.allocator.poolKVal = K)
    (poolless : r.allocator.Poolless) (nil : r.live = []) {requested : Nat}
    (fits : requested + size < 2 ^ 64) (source : Except Failure Nat) (granted : Granted K source) :
    (r.happen (.allocate requested source)).Settled K := by
  have refused : ∀ {error : Error}, error ≠ .success →
      r.allocator.allocate requested source = some ((error, 0), r.allocator) →
      (r.happen (.allocate requested source)).Settled K := by
    intro error failure answer
    rw [happen, answer, answered, if_neg failure]
    exact ⟨poolKVal, .inl ⟨poolless, nil⟩⟩
  cases source with
  | error error =>
      obtain ⟨error', failure, answer⟩ := allocate_unsourced poolless.1 requested error
      exact refused failure answer
  | ok pool =>
      by_cases nothing : requested = 0
      · subst nothing
        exact refused (by decide) (allocate_nothing _ _)
      · obtain ⟨present, room⟩ := granted pool rfl
        subst poolKVal
        have represents := (initializePool_spec poolless low small present room).2
        have again := allocate_sourced poolless.1 low small present nothing
        have fresh : Partitioned ⟨(r.allocator.initializePool (.ok pool)).2, []⟩
            (BuddySystem.fresh r.allocator.poolKVal) :=
          ⟨represents, fun _ member => (nomatch member), fun _ live => (live.elim), List.nodup_nil⟩
        obtain ⟨system', holds⟩ := happen_allocate fresh fits (.ok pool)
        rw [happen] at holds ⊢
        rw [again]
        dsimp only at holds
        generalize allocate requested (.ok pool) (r.allocator.initializePool (.ok pool)).2 = answer at holds ⊢
        cases answer with
        | none => exact ⟨rfl, .inl ⟨poolless, nil⟩⟩
        | some answer =>
            rw [answered] at holds ⊢
            rw [nil]
            exact ⟨holds.represents.poolKVal, .inr ⟨system', holds⟩⟩

theorem happen_settled (low : 1 ≤ K) (small : K < ESB_AVAIL_LIST_LENGTH) (settled : r.Settled K)
    {call : BuddyCall} (legal : r.Legal call) (fits : Fits call) : (r.happen call).Settled K := by
  obtain ⟨poolKVal, ⟨poolless, nil⟩ | ⟨system, holds⟩⟩ := settled
  · -- nothing is live, so that only a request or a reset is legal
    cases call with
    | allocate requested source =>
        exact happen_poolless low small poolKVal poolless nil fits source (poolKVal ▸ legal)
    | deallocate block =>
        obtain ⟨l, member, -⟩ := legal
        rw [nil] at member
        exact nomatch member
    | write address value =>
        obtain ⟨l, member, -⟩ := legal
        rw [nil] at member
        exact nomatch member
    | reset =>
        have same : r.allocator.reset.2 = r.allocator := by
          unfold reset
          rw [if_pos poolless.1]
        rw [happen, same]
        exact ⟨poolKVal, .inl ⟨poolless, nil⟩⟩
  · cases call with
    | allocate requested source =>
        obtain ⟨system', holds⟩ := happen_allocate holds fits source
        exact ⟨holds.represents.poolKVal, .inr ⟨system', holds⟩⟩
    | deallocate block =>
        obtain ⟨-, system', holds⟩ := happen_deallocate holds legal
        exact ⟨holds.represents.poolKVal, .inr ⟨system', holds⟩⟩
    | write address value =>
        have written := holds.written value legal
        exact ⟨written.represents.poolKVal, .inr ⟨system, written⟩⟩
    | reset => exact happen_reset holds

end happening

/-! ## Whole runs -/

theorem run_settled {K : Nat} (low : 1 ≤ K) (small : K < ESB_AVAIL_LIST_LENGTH) (calls : List BuddyCall) :
    ∀ {r : BuddyRun}, r.Settled K → r.LegalRun calls → (∀ call ∈ calls, Fits call) → (r.run calls).Settled K := by
  induction calls with
  | nil =>
      intro r settled legal fits
      exact settled
  | cons call calls ih =>
      intro r settled legal fits
      have step := happen_settled low small settled legal.1 (fits call List.mem_cons_self)
      exact ih step legal.2 fun call member => fits call (List.mem_cons_of_mem _ member)

/-- The order of the pool is that of the size asked for, at most 32. -/
theorem create_bounds {size : UInt32} {memory : Memory} {s : BuddyAllocator}
    (created : create size memory = some s) : 1 ≤ s.poolKVal ∧ s.poolKVal ≤ 32 ∧ s.Poolless := by
  obtain ⟨k, found, rfl⟩ := Option.map_eq_some_iff.1 created
  obtain ⟨beyond, atMost⟩ := UWordToKVal_sound found
  have bound := size.toNat_lt
  refine ⟨?_, ?_, rfl, fun _ _ _ => rfl⟩
  · by_contra small
    have zero : k = 0 := by dsimp only at small; omega
    rw [zero] at beyond atMost
    omega
  · by_contra large
    have le : 2 ^ 32 ≤ 2 ^ (k - 1) := Nat.pow_le_pow_right (by decide) (by dsimp only at large; omega)
    omega

theorem create_settled {size : UInt32} {memory : Memory} {s : BuddyAllocator}
    (created : create size memory = some s) {calls : List BuddyCall} (legal : LegalRun ⟨s, []⟩ calls)
    (fits : ∀ call ∈ calls, Fits call) : (run ⟨s, []⟩ calls).Settled s.poolKVal := by
  obtain ⟨low, small, poolless⟩ := create_bounds created
  exact run_settled low (short_of_le small) calls ⟨rfl, .inl ⟨poolless, rfl⟩⟩ legal fits

/-- Whatever is allocated and deallocated, the lists and the live blocks make up the pool. -/
theorem run_partitioned {size : UInt32} {memory : Memory} {s : BuddyAllocator}
    (created : create size memory = some s) (calls : List BuddyCall) (legal : LegalRun ⟨s, []⟩ calls)
    (fits : ∀ call ∈ calls, Fits call) : (run ⟨s, []⟩ calls).Settled s.poolKVal :=
  create_settled created legal fits

/-- A pool of 256 octets. -/
def small256 : BuddyAllocator := ⟨8, 0, fun _ => 0, fun _ => 0⟩

theorem create_small256 : create 256 (fun _ => 0) = some small256 := rfl

/-- Two blocks, one given back after its owner wrote into it, and the pool given back at the end. -/
def someCalls : List BuddyCall :=
  [.allocate 100 (.ok 4096), .allocate 8 (.ok 4096), .write 4130 7, .deallocate 4120, .deallocate 4248, .reset]

theorem someCalls_partitioned :
    LegalRun ⟨small256, []⟩ someCalls ∧ (run ⟨small256, []⟩ someCalls).Settled 8 :=
  have legal : LegalRun ⟨small256, []⟩ someCalls := by decide
  ⟨legal, run_partitioned create_small256 someCalls legal (by simp [someCalls, Fits, AvailListElem.size])⟩

/-- The sum of the request and the head wraps, and the block is one of 32 octets. -/
theorem wrapped_request : LegalRun ⟨small256, []⟩ [.allocate (2 ^ 64 - 1) (.ok 4096)] ∧
    ¬ (run ⟨small256, []⟩ [.allocate (2 ^ 64 - 1) (.ok 4096)]).Settled 8 := by
  have live : (run ⟨small256, []⟩ [.allocate (2 ^ 64 - 1) (.ok 4096)]).live = [⟨4120, 2 ^ 64 - 1⟩] := by
    decide
  refine ⟨by decide, ?_⟩
  rintro ⟨-, ⟨-, nil⟩ | ⟨system, holds⟩⟩
  · rw [live] at nil
    exact nomatch nil
  · obtain ⟨b, bLive, -, room⟩ := holds.held ⟨4120, 2 ^ 64 - 1⟩ (by rw [live]; exact List.mem_cons_self)
    have le := Nat.pow_le_pow_right (show 0 < 2 by decide) (system.tiling.order_le (.inr bLive))
    dsimp only at room
    omega

/-! ## Giving everything back -/

/-- In whatever order the live blocks are given back, nothing stays live. -/
theorem freed {K : Nat} (order : List Nat) :
    ∀ {r : BuddyRun} {system : BuddySystem K}, r.Partitioned system → order.Perm (r.live.map LiveBlock.address) →
      (r.run (order.map .deallocate)).live = [] ∧
        ∃ system' : BuddySystem K, (r.run (order.map .deallocate)).Partitioned system' := by
  induction order with
  | nil =>
      intro r system holds perm
      exact ⟨List.map_eq_nil_iff.1 perm.symm.eq_nil, system, holds⟩
  | cons address order ih =>
      intro r system holds perm
      have nodup : (address :: order).Nodup := perm.nodup_iff.2 holds.nodup
      have live : ∃ l ∈ r.live, l.address = address := by
        obtain ⟨l, member, same⟩ := List.mem_map.1 (perm.subset List.mem_cons_self)
        exact ⟨l, member, same⟩
      obtain ⟨success, system', holds'⟩ := happen_deallocate holds live
      have left : (r.happen (.deallocate address)).live = r.live.filter (·.address ≠ address) := by
        rw [happen, ← Prod.mk.eta (p := r.allocator.deallocate address), success]
        rfl
      have rest : order.Perm ((r.happen (.deallocate address)).live.map LiveBlock.address) := by
        have filtered : ((r.live.filter (·.address ≠ address)).map LiveBlock.address) =
            (r.live.map LiveBlock.address).filter (· ≠ address) := by
          rw [List.filter_map]
          rfl
        rw [left, filtered]
        have kept : (address :: order).filter (· ≠ address) = order := by
          rw [List.filter_cons_of_neg (by simp), List.filter_eq_self]
          intro other member
          have apart : other ≠ address := fun same => (List.nodup_cons.1 nodup).1 (same ▸ member)
          simpa using apart
        exact kept ▸ perm.filter _
      exact ih holds' rest

/-- When the live blocks are given back the pool is whole again, and only then can it be reset. -/
theorem history_coalesces {size : UInt32} {memory : Memory} {s : BuddyAllocator}
    (created : create size memory = some s) (calls : List BuddyCall) (legal : LegalRun ⟨s, []⟩ calls)
    (fits : ∀ call ∈ calls, Fits call) :
    let r := run ⟨s, []⟩ calls
    (r.allocator.reset.1 = .success ↔ r.allocator.pool ≠ 0 ∧ r.live = []) ∧
      (r.allocator.pool ≠ 0 → ∃ system : BuddySystem s.poolKVal, r.Partitioned system ∧
        (∀ b ∈ system.free, b.order < s.poolKVal → b.buddy ∉ system.free) ∧
        ∀ order : List Nat, order.Perm (r.live.map LiveBlock.address) →
          ∃ system' : BuddySystem s.poolKVal, (r.run (order.map .deallocate)).Partitioned system' ∧
            system'.free = {⟨0, s.poolKVal⟩} ∧ system'.live = ∅) := by
  intro r
  obtain ⟨-, ⟨poolless', nil⟩ | ⟨system, holds⟩⟩ : r.Settled s.poolKVal := create_settled created legal fits
  · have noReset : r.allocator.reset.1 = .invalidState := by
      unfold reset
      rw [if_pos poolless'.1]
    refine ⟨?_, fun present => absurd poolless'.1 present⟩
    rw [noReset]
    exact ⟨fun success => (nomatch success), fun present => absurd poolless'.1 present.1⟩
  · have iff := (reset_spec holds.represents).1
    refine ⟨?_, fun present => ⟨system, holds, system.separated, fun order perm => ?_⟩⟩
    · rw [iff]
      exact ⟨fun empty => ⟨holds.represents.poolPresent, holds.live_nil empty⟩, fun both => holds.live_empty both.2⟩
    · obtain ⟨nil, system', holds'⟩ := freed order holds perm
      have empty := holds'.live_empty nil
      exact ⟨system', holds', system'.free_eq_whole empty, empty⟩

/-- A block goes back and is split and handed out again; the last request does not fit. -/
def heldCalls : List BuddyCall :=
  [.allocate 100 (.ok 4096), .allocate 8 (.ok 4096), .write 4130 7, .allocate 30 (.ok 4096), .deallocate 4248,
    .allocate 20 (.ok 4096), .allocate 8 (.ok 4096)]

/-- Three blocks are live, and they are given back with the second one first. -/
theorem heldCalls_coalesce : LegalRun ⟨small256, []⟩ heldCalls ∧
    (run ⟨small256, []⟩ heldCalls).live.map LiveBlock.address = [4248, 4312, 4120] ∧
    ∃ system system' : BuddySystem 8, (run ⟨small256, []⟩ heldCalls).Partitioned system ∧
      ((run ⟨small256, []⟩ heldCalls).run ([4312, 4120, 4248].map .deallocate)).Partitioned system' ∧
      system'.free = {⟨0, 8⟩} ∧ system'.live = ∅ := by
  have legal : LegalRun ⟨small256, []⟩ heldCalls := by decide
  have live : (run ⟨small256, []⟩ heldCalls).live.map LiveBlock.address = [4248, 4312, 4120] := by decide
  have fits : ∀ call ∈ heldCalls, Fits call := by simp [heldCalls, Fits, AvailListElem.size]
  obtain ⟨system, holds, -, back⟩ :=
    (history_coalesces create_small256 heldCalls legal fits).2 (by decide)
  obtain ⟨system', whole⟩ := back [4312, 4120, 4248] (by rw [live]; decide)
  exact ⟨legal, live, system, system', holds, whole⟩

/-- Nothing is outstanding before the first allocation, and `reset` fails. -/
theorem reset_before_pool :
    (run ⟨small256, []⟩ []).live = [] ∧ (run ⟨small256, []⟩ []).allocator.reset.1 = .invalidState := ⟨rfl, rfl⟩

end BuddyRun

end Everscale
