/-
# Everscale.Base.EpollSound -- what the multiplexer's calls keep true

`Sound` is the invariant of a scene: the lists, the count, the timers, the kernel's interest
list and the cache all say the same.  Each change that the code makes to a scene keeps it
(`Sound.added` to `Sound.cleaned`).

Of the calls of the multiplexer, each comes to one of these changes or to none (`Leads`), and makes at
most one socket more active (`OneMore`).
-/
import Everscale.Base.EpollMultiplexer

namespace Everscale

set_option autoImplicit false

namespace EpollMultiplexer

/-! ## The invariant -/

/-- The lists, the count and the timers agree. -/
structure Consistent (m : EpollMultiplexer) : Prop where
  count : m.activeSocketCount = m.activeSockets.length
  limit : m.activeSockets.length ≤ m.maxSockets
  distinct : (m.activeSockets ++ m.deadSockets).Nodup
  filed : m.timingWheel.Filed
  timers : ∀ id, m.timingWheel.inTimingWheel id = true → id ∈ m.activeSockets

/-- What the constructor sets for good. -/
structure Configured (m : EpollMultiplexer) : Prop where
  idleTimeout : m.idleTimeoutMsec ≤ MAX_TIMEOUT_MSEC
  tick : m.timingWheel.tickMilliSeconds = MIN_TIMEOUT_MSEC
  timers : m.timingWheel.allocated = true

theorem Configured.ranged {m : EpollMultiplexer} (h : m.Configured) :
    m.timingWheel.Ranged m.idleTimeoutMsec :=
  FlatTimingWheel.ranged_of_tick h.tick h.idleTimeout

structure Sound (w : Scene) : Prop where
  configured : w.multiplexer.Configured
  consistent : w.multiplexer.Consistent
  living : ∀ id, w.isLinked id = true → w.exists id = true
  dead : ∀ id, w.exists id = true → ((w.sockets id).dead = true ↔ id ∈ w.multiplexer.deadSockets)
  registered : ∀ fd events id, w.interest fd = some (events, id) ↔
    id ∈ w.multiplexer.activeSockets ∧ (w.sockets id).socketDescriptor = some fd ∧
      events = w.multiplexer.eventCache fd
  unregistered : ∀ fd, w.interest fd = none → fd < w.multiplexer.maxSockets →
    w.multiplexer.eventCache fd = 0
  connected : ∀ id ∈ w.multiplexer.activeSockets, (w.sockets id).socketDescriptor.isSome = true
  unshared : ∀ id id' fd, w.exists id = true → w.exists id' = true →
    (w.sockets id).socketDescriptor = some fd → (w.sockets id').socketDescriptor = some fd → id = id'
  bounded : ∀ id fd, w.exists id = true → (w.sockets id).socketDescriptor = some fd →
    fd < w.multiplexer.maxSockets
  descriptors : w.descriptors ≤ w.multiplexer.maxSockets
  timed : ∀ id ∈ w.multiplexer.activeSockets, id ∉ w.busy → (w.sockets id).permanent = false →
    0 < w.multiplexer.idleTimeoutMsec → w.isTimed id = true
  busy : ∀ id ∈ w.busy, id ∈ w.multiplexer.activeSockets
  served : w.busy.Nodup
  accounted : w.accepted.Perm (w.multiplexer.activeSockets ++ w.multiplexer.deadSockets ++ w.cleaned)
  destroyedOnce : (w.cleaned ++ w.discarded).Nodup
  destroyed : ∀ id ∈ w.cleaned ++ w.discarded, id < w.constructed

section scene

variable {w : Scene} {id fd : Nat}

theorem isLinked_iff : w.isLinked id = true ↔
    id ∈ w.multiplexer.activeSockets ∨ id ∈ w.multiplexer.deadSockets := by
  simp [Scene.isLinked]

theorem exists_iff : w.exists id = true ↔ id < w.constructed ∧ id ∉ w.cleaned ∧ id ∉ w.discarded := by
  simp [Scene.exists, Scene.isDestroyed]

theorem Sound.living_active (h : Sound w) (active : id ∈ w.multiplexer.activeSockets) : w.exists id = true :=
  h.living id (isLinked_iff.2 (.inl active))

theorem Sound.not_dead (h : Sound w) (active : id ∈ w.multiplexer.activeSockets) :
    id ∉ w.multiplexer.deadSockets :=
  fun dead => (List.nodup_append.1 h.consistent.distinct).2.2 id active id dead rfl

/-- An active socket is registered with what the cache says. -/
theorem Sound.registers (h : Sound w) (active : id ∈ w.multiplexer.activeSockets)
    (open' : (w.sockets id).socketDescriptor = some fd) :
    w.interest fd = some (w.multiplexer.eventCache fd, id) :=
  (h.registered ..).2 ⟨active, open', rfl⟩

/-- A descriptor is registered for no other socket than the one that has it. -/
theorem Sound.registered_self (h : Sound w) (living : w.exists id = true)
    (open' : (w.sockets id).socketDescriptor = some fd) (some : (w.interest fd).isSome = true) :
    id ∈ w.multiplexer.activeSockets := by
  obtain ⟨⟨events, other⟩, entry⟩ := Option.isSome_iff_exists.1 some
  obtain ⟨active, shared, -⟩ := (h.registered ..).1 entry
  exact h.unshared other id fd (h.living_active active) living shared open' ▸ active

/-! ## Changes of the scene -/

def Scene.setWheel (w : Scene) (timingWheel : FlatTimingWheel Nat) : Scene :=
  { w with multiplexer := { w.multiplexer with timingWheel } }

/-- The descriptor is registered for the socket, and the cache says so. -/
def Scene.registering (w : Scene) (fd id : Nat) (events : EpollEvents) : Scene :=
  { w with
    multiplexer := { w.multiplexer with eventCache := Function.update w.multiplexer.eventCache fd events }
    interest := Function.update w.interest fd (some (events, id)) }

/-- The socket is active. -/
def Scene.activated (w : Scene) (id : Nat) : Scene :=
  { w with
    multiplexer := { w.multiplexer with
      activeSocketCount := w.multiplexer.activeSocketCount + 1
      activeSockets := w.multiplexer.activeSockets ++ [id] }
    accepted := w.accepted ++ [id] }

/-- The socket is dead. -/
def Scene.givenUp (w : Scene) (fd id : Nat) : Scene :=
  { w with
    multiplexer := { w.multiplexer with
      eventCache := Function.update w.multiplexer.eventCache fd 0
      activeSocketCount := w.multiplexer.activeSocketCount - 1
      activeSockets := w.multiplexer.activeSockets.erase id
      deadSockets := w.multiplexer.deadSockets ++ [id] }
    interest := Function.update w.interest fd none
    sockets := Function.update w.sockets id { w.sockets id with dead := true } }

variable {timingWheel : FlatTimingWheel Nat}

theorem Configured.setWheel (h : w.multiplexer.Configured)
    (moves : FlatTimingWheel.Moves id w.multiplexer.timingWheel timingWheel) :
    (w.setWheel timingWheel).multiplexer.Configured :=
  ⟨h.idleTimeout, moves.tickMilliSeconds.trans h.tick, moves.allocated.trans h.timers⟩

/-- The timer of one socket may change: of one that has none to have, or of one that is busy. -/
theorem Sound.setWheel (h : Sound w)
    (moves : FlatTimingWheel.Moves id w.multiplexer.timingWheel timingWheel)
    (idle : timingWheel.inTimingWheel id = true → id ∈ w.multiplexer.activeSockets)
    (spared : id ∈ w.multiplexer.activeSockets → id ∉ w.busy → timingWheel.inTimingWheel id = true) :
    Sound (w.setWheel timingWheel) where
  configured := h.configured.setWheel moves
  consistent :=
    { h.consistent with
      filed := moves.filed
      timers := by
        intro other waits
        by_cases same : other = id
        · exact same ▸ idle (same ▸ waits)
        · exact h.consistent.timers other ((moves.others other same) ▸ waits) }
  living := h.living
  dead := h.dead
  registered := h.registered
  unregistered := h.unregistered
  connected := h.connected
  unshared := h.unshared
  bounded := h.bounded
  descriptors := h.descriptors
  timed := by
    intro other active notBusy notPermanent timeout
    by_cases same : other = id
    · subst same
      exact spared active notBusy
    · exact (moves.others other same).trans (h.timed other active notBusy notPermanent timeout)
  busy := h.busy
  served := h.served
  accounted := h.accounted
  destroyedOnce := h.destroyedOnce
  destroyed := h.destroyed

/-- Nothing is registered for the descriptor of a socket that is not active. -/
theorem Sound.unregistered_self (h : Sound w) (living : w.exists id = true)
    (open' : (w.sockets id).socketDescriptor = some fd)
    (inactive : id ∉ w.multiplexer.activeSockets) : w.interest fd = none := by
  rw [← Option.not_isSome_iff_eq_none]
  intro entry
  exact inactive (h.registered_self living open' entry)

theorem Sound.registering (h : Sound w) {events : EpollEvents} (active : id ∈ w.multiplexer.activeSockets)
    (open' : (w.sockets id).socketDescriptor = some fd) : Sound (w.registering fd id events) where
  configured := ⟨h.configured.idleTimeout, h.configured.tick, h.configured.timers⟩
  consistent := { h.consistent with }
  living := h.living
  dead := h.dead
  registered := by
    intro fd' events' id'
    change Function.update w.interest fd (some (events, id)) fd' = some (events', id') ↔
      id' ∈ w.multiplexer.activeSockets ∧ (w.sockets id').socketDescriptor = some fd' ∧
        events' = Function.update w.multiplexer.eventCache fd events fd'
    by_cases same : fd' = fd
    · subst same
      simp only [Function.update_self, Option.some.injEq, Prod.mk.injEq]
      constructor
      · rintro ⟨rfl, rfl⟩
        exact ⟨active, open', rfl⟩
      · rintro ⟨active', open'', rfl⟩
        exact ⟨rfl, h.unshared _ _ _ (h.living_active active) (h.living_active active') open' open''⟩
    · simp only [Function.update_of_ne same]
      exact h.registered ..
  unregistered := by
    intro fd' none bound
    change Function.update w.interest fd (some (events, id)) fd' = Option.none at none
    change Function.update w.multiplexer.eventCache fd events fd' = 0
    by_cases same : fd' = fd
    · rw [same, Function.update_self] at none
      cases none
    · rw [Function.update_of_ne same] at none ⊢
      exact h.unregistered fd' none bound
  connected := h.connected
  unshared := h.unshared
  bounded := h.bounded
  descriptors := h.descriptors
  timed := h.timed
  busy := h.busy
  served := h.served
  accounted := h.accounted
  destroyedOnce := h.destroyedOnce
  destroyed := h.destroyed

/-- A socket that no list has is added. -/
theorem Sound.added (h : Sound w) {events : EpollEvents} (living : w.exists id = true)
    (loose : w.isLinked id = false) (open' : (w.sockets id).socketDescriptor = some fd)
    (room : w.multiplexer.activeSockets.length < w.multiplexer.maxSockets)
    (moves : FlatTimingWheel.Moves id w.multiplexer.timingWheel timingWheel)
    (waits : (w.sockets id).permanent = false → 0 < w.multiplexer.idleTimeoutMsec →
      timingWheel.inTimingWheel id = true) :
    Sound (((w.setWheel timingWheel).activated id).registering fd id events) := by
  have notLinked : ¬ (id ∈ w.multiplexer.activeSockets ∨ id ∈ w.multiplexer.deadSockets) := by
    rw [← isLinked_iff, loose]
    simp
  obtain ⟨inactive, undead⟩ := not_or.1 notLinked
  have none := h.unregistered_self living open' inactive
  have configured := h.configured.setWheel moves
  refine
    { configured := ⟨configured.idleTimeout, configured.tick, configured.timers⟩
      consistent := ⟨?_, ?_, ?_, moves.filed, ?_⟩
      living := ?_, dead := ?_, registered := ?_, unregistered := ?_, connected := ?_
      unshared := h.unshared
      bounded := h.bounded
      descriptors := h.descriptors
      timed := ?_, busy := ?_
      served := h.served
      accounted := ?_
      destroyedOnce := h.destroyedOnce
      destroyed := h.destroyed }
  · change w.multiplexer.activeSocketCount + 1 = ((w.multiplexer.activeSockets ++ [id]).length : Int)
    rw [h.consistent.count, List.length_append]
    simp
  · change (w.multiplexer.activeSockets ++ [id]).length ≤ w.multiplexer.maxSockets
    rw [List.length_append]
    exact room
  · change ((w.multiplexer.activeSockets ++ [id]) ++ w.multiplexer.deadSockets).Nodup
    have distinct := h.consistent.distinct
    rw [List.append_assoc, List.nodup_append] at *
    refine ⟨distinct.1, ?_, ?_⟩
    · simpa [undead] using distinct.2.1
    · intro a active b member
      rcases List.mem_cons.1 member with rfl | dead
      · exact fun same => inactive (same ▸ active)
      · exact distinct.2.2 a active b dead
  · intro other timed
    change other ∈ w.multiplexer.activeSockets ++ [id]
    by_cases same : other = id
    · simp [same]
    · exact List.mem_append_left _ (h.consistent.timers other ((moves.others other same) ▸ timed))
  · intro other linked
    rw [isLinked_iff] at linked
    change w.exists other = true
    change other ∈ w.multiplexer.activeSockets ++ [id] ∨ other ∈ w.multiplexer.deadSockets at linked
    rw [List.mem_append, List.mem_singleton] at linked
    rcases linked with (active | rfl) | dead
    · exact h.living_active active
    · exact living
    · exact h.living other (isLinked_iff.2 (.inr dead))
  · exact h.dead
  · intro fd' events' id'
    change Function.update w.interest fd (some (events, id)) fd' = some (events', id') ↔
      id' ∈ w.multiplexer.activeSockets ++ [id] ∧ (w.sockets id').socketDescriptor = some fd' ∧
        events' = Function.update w.multiplexer.eventCache fd events fd'
    rw [List.mem_append, List.mem_singleton]
    by_cases same : fd' = fd
    · subst same
      simp only [Function.update_self, Option.some.injEq, Prod.mk.injEq]
      constructor
      · rintro ⟨rfl, rfl⟩
        exact ⟨.inr rfl, open', rfl⟩
      · rintro ⟨active | rfl, open'', rfl⟩
        · exact ⟨rfl, h.unshared _ _ _ living (h.living_active active) open' open''⟩
        · exact ⟨rfl, rfl⟩
    · simp only [Function.update_of_ne same]
      rw [h.registered]
      constructor
      · rintro ⟨active, rest⟩
        exact ⟨.inl active, rest⟩
      · rintro ⟨active | rfl, open'', rest⟩
        · exact ⟨active, open'', rest⟩
        · rw [open'] at open''
          exact absurd (Option.some.inj open'').symm same
  · intro fd' none' bound
    change Function.update w.interest fd (some (events, id)) fd' = Option.none at none'
    change Function.update w.multiplexer.eventCache fd events fd' = 0
    by_cases same : fd' = fd
    · rw [same, Function.update_self] at none'
      cases none'
    · rw [Function.update_of_ne same] at none' ⊢
      exact h.unregistered fd' none' bound
  · intro other active
    change (w.sockets other).socketDescriptor.isSome = true
    change other ∈ w.multiplexer.activeSockets ++ [id] at active
    rw [List.mem_append, List.mem_singleton] at active
    rcases active with active | rfl
    · exact h.connected other active
    · rw [open']
      rfl
  · intro other active notBusy notPermanent timeout
    change timingWheel.inTimingWheel other = true
    change other ∈ w.multiplexer.activeSockets ++ [id] at active
    by_cases same : other = id
    · subst same
      exact waits notPermanent timeout
    · rw [moves.others other same]
      refine h.timed other ?_ notBusy notPermanent timeout
      simpa [same] using active
  · intro other served
    change other ∈ w.multiplexer.activeSockets ++ [id]
    exact List.mem_append_left _ (h.busy other served)
  · change (w.accepted ++ [id]).Perm
      ((w.multiplexer.activeSockets ++ [id]) ++ w.multiplexer.deadSockets ++ w.cleaned)
    have accounted := h.accounted
    simp only [List.append_assoc] at accounted ⊢
    have front := (List.perm_append_singleton id w.accepted).trans (accounted.cons id)
    exact front.trans List.perm_middle.symm

/-- A change of one socket that leaves a field alone. -/
theorem field_update {β : Type} (sockets : Nat → MultiplexedSocket) {socket : MultiplexedSocket}
    (field : MultiplexedSocket → β) (same : field socket = field (sockets id)) (other : Nat) :
    field (Function.update sockets id socket other) = field (sockets other) := by
  by_cases here : other = id
  · rw [here, Function.update_self, same]
  · rw [Function.update_of_ne here]

theorem perm_given {active : List Nat} (dead rest : List Nat) (member : id ∈ active) :
    (active.erase id ++ (dead ++ [id]) ++ rest).Perm (active ++ dead ++ rest) := by
  refine List.Perm.append_right rest ?_
  have front : (active.erase id ++ (dead ++ [id])).Perm (id :: (active.erase id ++ dead)) := by
    rw [← List.append_assoc]
    exact List.perm_append_singleton ..
  exact front.trans (((List.perm_cons_erase member).symm).append_right dead)

/-- An active socket is given up; if it was busy, it no longer is. -/
theorem Sound.givenUp (h : Sound w) (active : id ∈ w.multiplexer.activeSockets)
    (open' : (w.sockets id).socketDescriptor = some fd)
    (moves : FlatTimingWheel.Moves id w.multiplexer.timingWheel timingWheel)
    (stopped : timingWheel.inTimingWheel id = false) :
    Sound { (w.setWheel timingWheel).givenUp fd id with busy := w.busy.erase id } := by
  have configured := h.configured.setWheel moves
  have distinct : w.multiplexer.activeSockets.Nodup := (List.nodup_append.1 h.consistent.distinct).1
  have kept : ∀ other, other ∈ w.multiplexer.activeSockets.erase id ↔
      other ≠ id ∧ other ∈ w.multiplexer.activeSockets := fun other => distinct.mem_erase_iff
  have marked : ∀ other,
      (Function.update w.sockets id { w.sockets id with dead := true } other).socketDescriptor =
        (w.sockets other).socketDescriptor :=
    field_update w.sockets MultiplexedSocket.socketDescriptor rfl
  refine
    { configured := ⟨configured.idleTimeout, configured.tick, configured.timers⟩
      consistent := ⟨?_, ?_, ?_, moves.filed, ?_⟩
      living := ?_, dead := ?_, registered := ?_, unregistered := ?_, connected := ?_
      unshared := ?_, bounded := ?_
      descriptors := h.descriptors
      timed := ?_, busy := ?_
      served := h.served.erase id
      accounted := h.accounted.trans (perm_given _ _ active).symm
      destroyedOnce := h.destroyedOnce
      destroyed := h.destroyed }
  · change w.multiplexer.activeSocketCount - 1 = ((w.multiplexer.activeSockets.erase id).length : Int)
    have positive := List.length_pos_of_mem active
    rw [h.consistent.count, List.length_erase_of_mem active]
    omega
  · change (w.multiplexer.activeSockets.erase id).length ≤ w.multiplexer.maxSockets
    exact (List.length_erase_le).trans h.consistent.limit
  · change (w.multiplexer.activeSockets.erase id ++ (w.multiplexer.deadSockets ++ [id])).Nodup
    have same := perm_given w.multiplexer.deadSockets [] active
    rw [List.append_nil, List.append_nil] at same
    exact same.nodup_iff.2 h.consistent.distinct
  · intro other timed
    change other ∈ w.multiplexer.activeSockets.erase id
    have ne : other ≠ id := by
      rintro rfl
      exact Bool.false_ne_true (stopped.symm.trans timed)
    exact (kept other).2 ⟨ne, h.consistent.timers other ((moves.others other ne) ▸ timed)⟩
  · intro other linked
    change w.exists other = true
    rw [isLinked_iff] at linked
    change other ∈ w.multiplexer.activeSockets.erase id ∨ other ∈ w.multiplexer.deadSockets ++ [id] at linked
    rw [kept, List.mem_append, List.mem_singleton] at linked
    rcases linked with ⟨-, still⟩ | dead | rfl
    · exact h.living_active still
    · exact h.living other (isLinked_iff.2 (.inr dead))
    · exact h.living_active active
  · intro other living
    change (Function.update w.sockets id { w.sockets id with dead := true } other).dead = true ↔
      other ∈ w.multiplexer.deadSockets ++ [id]
    rw [List.mem_append, List.mem_singleton]
    by_cases same : other = id
    · simp [same]
    · rw [Function.update_of_ne same]
      simp [h.dead other living, same]
  · intro fd' events' id'
    change Function.update w.interest fd none fd' = some (events', id') ↔
      id' ∈ w.multiplexer.activeSockets.erase id ∧
        (Function.update w.sockets id { w.sockets id with dead := true } id').socketDescriptor = some fd' ∧
          events' = Function.update w.multiplexer.eventCache fd 0 fd'
    rw [kept]
    by_cases same : fd' = fd
    · subst same
      simp only [Function.update_self, reduceCtorEq, false_iff, not_and]
      rintro ⟨ne, active'⟩ open''
      rw [Function.update_of_ne ne] at open''
      exact absurd (h.unshared _ _ _ (h.living_active active') (h.living_active active) open'' open') ne
    · simp only [Function.update_of_ne same, h.registered]
      by_cases other : id' = id
      · subst other
        rw [Function.update_self]
        simp [open', Ne.symm same]
      · rw [Function.update_of_ne other]
        simp [other]
  · intro fd' none' bound
    change Function.update w.interest fd none fd' = none at none'
    change Function.update w.multiplexer.eventCache fd 0 fd' = 0
    by_cases same : fd' = fd
    · rw [same, Function.update_self]
    · rw [Function.update_of_ne same] at none' ⊢
      exact h.unregistered fd' none' bound
  · intro other active'
    exact (congrArg Option.isSome (marked other)).trans (h.connected other ((kept other).1 active').2)
  · intro a b fd' living living' open1 open2
    exact h.unshared a b fd' living living' ((marked a).symm.trans open1) ((marked b).symm.trans open2)
  · intro a fd' living open1
    exact h.bounded a fd' living ((marked a).symm.trans open1)
  · intro other active' notBusy notPermanent timeout
    change timingWheel.inTimingWheel other = true
    change other ∉ w.busy.erase id at notBusy
    obtain ⟨ne, still⟩ := (kept other).1 active'
    have same : ∀ other, (Function.update w.sockets id { w.sockets id with dead := true } other).permanent =
        (w.sockets other).permanent := field_update w.sockets MultiplexedSocket.permanent rfl
    rw [moves.others other ne]
    refine h.timed other still (fun served => notBusy ?_) ((same other).symm.trans notPermanent) timeout
    exact (List.mem_erase_of_ne ne).2 served
  · intro other served
    change other ∈ w.multiplexer.activeSockets.erase id
    obtain ⟨ne, served⟩ := h.served.mem_erase_iff.1 served
    exact (kept other).2 ⟨ne, h.busy other served⟩

/-- A change of one socket that leaves its descriptor, its mark and its permanence alone. -/
theorem Sound.setSocket (h : Sound w) {socket : MultiplexedSocket}
    (open' : socket.socketDescriptor = (w.sockets id).socketDescriptor)
    (dead : socket.dead = (w.sockets id).dead) (permanent : socket.permanent = (w.sockets id).permanent) :
    Sound { w with sockets := Function.update w.sockets id socket } := by
  have opens := field_update w.sockets MultiplexedSocket.socketDescriptor open'
  have deads := field_update w.sockets MultiplexedSocket.dead dead
  have permanents := field_update w.sockets MultiplexedSocket.permanent permanent
  refine { h with dead := ?_, registered := ?_, connected := ?_, unshared := ?_, bounded := ?_, timed := ?_ }
  · intro other living
    rw [← h.dead other living]
    exact Eq.to_iff (congrArg (· = true) (deads other))
  · intro fd' events other
    rw [h.registered]
    exact and_congr_right fun _ => and_congr_left fun _ => Eq.to_iff (congrArg (· = some fd') (opens other).symm)
  · intro other active
    exact (congrArg Option.isSome (opens other)).trans (h.connected other active)
  · intro a b fd' living living' open1 open2
    exact h.unshared a b fd' living living' ((opens a).symm.trans open1) ((opens b).symm.trans open2)
  · intro a fd' living open1
    exact h.bounded a fd' living ((opens a).symm.trans open1)
  · intro other active notBusy notPermanent timeout
    exact h.timed other active notBusy ((permanents other).symm.trans notPermanent) timeout

/-- A socket that is not active is closed. -/
theorem Sound.closed (h : Sound w) (inactive : id ∉ w.multiplexer.activeSockets) :
    Sound { w with sockets := Function.update w.sockets id { w.sockets id with socketDescriptor := none } } := by
  have deads : ∀ other,
      (Function.update w.sockets id { w.sockets id with socketDescriptor := none } other).dead =
        (w.sockets other).dead := field_update w.sockets MultiplexedSocket.dead rfl
  have still : ∀ other ∈ w.multiplexer.activeSockets,
      Function.update w.sockets id { w.sockets id with socketDescriptor := none } other = w.sockets other :=
    fun other active => Function.update_of_ne (fun same : other = id => inactive (same ▸ active)) ..
  have opens : ∀ other fd',
      (Function.update w.sockets id { w.sockets id with socketDescriptor := none } other).socketDescriptor =
        some fd' → (w.sockets other).socketDescriptor = some fd' := by
    intro other fd' open1
    by_cases here : other = id
    · rw [here, Function.update_self] at open1
      cases open1
    · rwa [Function.update_of_ne here] at open1
  refine { h with dead := ?_, registered := ?_, connected := ?_, unshared := ?_, bounded := ?_, timed := ?_ }
  · intro other living
    rw [← h.dead other living]
    exact Eq.to_iff (congrArg (· = true) (deads other))
  · intro fd' events other
    rw [h.registered]
    refine and_congr_right fun active => and_congr_left fun _ => ?_
    exact Eq.to_iff (congrArg (fun socket => socket.socketDescriptor = some fd') (still other active).symm)
  · intro other active
    exact (congrArg (fun socket => socket.socketDescriptor.isSome) (still other active)).trans
      (h.connected other active)
  · intro a b fd' living living' open1 open2
    exact h.unshared a b fd' living living' (opens a fd' open1) (opens b fd' open2)
  · intro a fd' living open1
    exact h.bounded a fd' living (opens a fd' open1)
  · intro other active notBusy notPermanent timeout
    refine h.timed other active notBusy ?_ timeout
    exact (congrArg MultiplexedSocket.permanent (still other active)).symm.trans notPermanent

/-- A new socket takes a descriptor that no other has. -/
theorem Sound.constructed (h : Sound w) {socket : MultiplexedSocket} (free : w.isFree fd = true)
    (opened : socket.socketDescriptor = some fd) (alive : socket.dead = false) :
    Sound { w with
      constructed := w.constructed + 1
      sockets := Function.update w.sockets w.constructed socket } := by
  obtain ⟨bound, unused⟩ : fd < w.descriptors ∧ ∀ id < w.constructed, w.isDestroyed id = true ∨
      (w.sockets id).socketDescriptor ≠ some fd := by
    simpa [Scene.isFree] using free
  have still : ∀ other, other < w.constructed →
      Function.update w.sockets w.constructed socket other = w.sockets other :=
    fun other before => Function.update_of_ne before.ne ..
  have before : ∀ other, w.exists other = true → other < w.constructed := fun other living => (exists_iff.1 living).1
  have active : ∀ other ∈ w.multiplexer.activeSockets, other < w.constructed :=
    fun other active => before other (h.living_active active)
  have newer : ∀ other, Scene.exists { w with
      constructed := w.constructed + 1
      sockets := Function.update w.sockets w.constructed socket } other = true →
      other = w.constructed ∨ w.exists other = true := by
    intro other living
    rw [exists_iff] at living
    rcases Nat.lt_succ_iff_lt_or_eq.1 living.1 with old | new
    · exact .inr (exists_iff.2 ⟨old, living.2⟩)
    · exact .inl new
  -- the new socket shares its descriptor with none
  have apart : ∀ other, w.exists other = true → (w.sockets other).socketDescriptor ≠ some fd := by
    intro other living
    obtain ⟨old, present⟩ := exists_iff.1 living
    rcases unused other old with gone | ne
    · exact absurd gone (by simp [Scene.isDestroyed, present])
    · exact ne
  refine
    { h with
      living := ?_, dead := ?_, registered := ?_, connected := ?_, unshared := ?_, bounded := ?_
      timed := ?_, destroyed := ?_ }
  · intro other linked
    obtain ⟨old, present⟩ := exists_iff.1 (h.living other linked)
    exact exists_iff.2 ⟨Nat.lt_succ_of_lt old, present⟩
  · intro other living
    dsimp only
    rcases newer other living with rfl | old
    · rw [Function.update_self, alive]
      simp only [Bool.false_eq_true, false_iff]
      intro dead
      exact absurd (before _ (h.living _ (isLinked_iff.2 (.inr dead)))) (Nat.lt_irrefl _)
    · rw [still other (before other old)]
      exact h.dead other old
  · intro fd' events other
    rw [h.registered]
    refine and_congr_right fun active' => ?_
    dsimp only
    rw [still other (active other active')]
  · intro other active'
    dsimp only
    rw [still other (active other active')]
    exact h.connected other active'
  · intro a b fd' living living' open1 open2
    dsimp only at open1 open2
    rcases newer a living with rfl | old <;> rcases newer b living' with rfl | old'
    · rfl
    · rw [Function.update_self, opened] at open1
      rw [still b (before b old'), ← open1] at open2
      exact absurd open2 (apart b old')
    · rw [Function.update_self, opened] at open2
      rw [still a (before a old), ← open2] at open1
      exact absurd open1 (apart a old)
    · rw [still a (before a old)] at open1
      rw [still b (before b old')] at open2
      exact h.unshared a b fd' old old' open1 open2
  · intro a fd' living open1
    dsimp only at open1 ⊢
    rcases newer a living with rfl | old
    · rw [Function.update_self, opened, Option.some.injEq] at open1
      exact open1 ▸ bound.trans_le h.descriptors
    · rw [still a (before a old)] at open1
      exact h.bounded a fd' old open1
  · intro other active' notBusy notPermanent timeout
    dsimp only at notPermanent
    rw [still other (active other active')] at notPermanent
    exact h.timed other active' notBusy notPermanent timeout
  · intro other gone
    exact Nat.lt_succ_of_lt (h.destroyed other gone)

/-- A socket that no list has is destroyed. -/
theorem Sound.discarded (h : Sound w) (living : w.exists id = true) (loose : w.isLinked id = false) :
    Sound { w with discarded := w.discarded ++ [id] } := by
  obtain ⟨old, uncleaned, undiscarded⟩ := exists_iff.1 living
  have older : ∀ other, Scene.exists { w with discarded := w.discarded ++ [id] } other = true →
      w.exists other = true := by
    intro other living'
    rw [exists_iff] at living' ⊢
    exact ⟨living'.1, living'.2.1, fun gone => living'.2.2 (List.mem_append_left _ gone)⟩
  refine
    { h with
      living := ?_
      dead := fun other living' => h.dead other (older other living')
      unshared := fun a b fd' la lb => h.unshared a b fd' (older a la) (older b lb)
      bounded := fun a fd' la => h.bounded a fd' (older a la)
      destroyedOnce := ?_, destroyed := ?_ }
  · intro other linked
    obtain ⟨old', uncleaned', undiscarded'⟩ := exists_iff.1 (h.living other linked)
    refine exists_iff.2 ⟨old', uncleaned', ?_⟩
    rw [List.mem_append, List.mem_singleton, not_or]
    refine ⟨undiscarded', ?_⟩
    rintro rfl
    exact Bool.false_ne_true (loose.symm.trans linked)
  · change (w.cleaned ++ (w.discarded ++ [id])).Nodup
    rw [← List.append_assoc]
    refine List.nodup_append.2 ⟨h.destroyedOnce, List.nodup_singleton id, ?_⟩
    intro a member b new same
    rw [List.mem_singleton] at new
    rw [same, new, List.mem_append] at member
    exact member.elim uncleaned undiscarded
  · intro other gone
    change other ∈ w.cleaned ++ (w.discarded ++ [id]) at gone
    rw [← List.append_assoc, List.mem_append, List.mem_singleton] at gone
    rcases gone with gone | rfl
    · exact h.destroyed other gone
    · exact old

/-- The dead list is emptied. -/
theorem Sound.cleaned (h : Sound w) :
    Sound { w with
      multiplexer := { w.multiplexer with deadSockets := [] }
      cleaned := w.cleaned ++ w.multiplexer.deadSockets } := by
  have split : ∀ other, Scene.exists { w with
      multiplexer := { w.multiplexer with deadSockets := [] }
      cleaned := w.cleaned ++ w.multiplexer.deadSockets } other = true ↔
      w.exists other = true ∧ other ∉ w.multiplexer.deadSockets := by
    intro other
    simp only [exists_iff, List.mem_append, not_or]
    constructor
    · rintro ⟨old, ⟨uncleaned, undead⟩, undiscarded⟩
      exact ⟨⟨old, uncleaned, undiscarded⟩, undead⟩
    · rintro ⟨⟨old, uncleaned, undiscarded⟩, undead⟩
      exact ⟨old, ⟨uncleaned, undead⟩, undiscarded⟩
  have deadLiving : ∀ other ∈ w.multiplexer.deadSockets, w.exists other = true :=
    fun other dead => h.living other (isLinked_iff.2 (.inr dead))
  refine
    { h with
      configured := ⟨h.configured.idleTimeout, h.configured.tick, h.configured.timers⟩
      consistent := { h.consistent with distinct := ?_ }
      living := ?_, dead := ?_
      unshared := fun a b fd' la lb => h.unshared a b fd' ((split a).1 la).1 ((split b).1 lb).1
      bounded := fun a fd' la => h.bounded a fd' ((split a).1 la).1
      accounted := ?_, destroyedOnce := ?_, destroyed := ?_ }
  · change (w.multiplexer.activeSockets ++ []).Nodup
    rw [List.append_nil]
    exact (List.nodup_append.1 h.consistent.distinct).1
  · intro other linked
    have active : other ∈ w.multiplexer.activeSockets := by simpa [Scene.isLinked] using linked
    exact (split other).2 ⟨h.living_active active, h.not_dead active⟩
  · intro other living
    obtain ⟨old, undead⟩ := (split other).1 living
    change (w.sockets other).dead = true ↔ other ∈ []
    rw [h.dead other old]
    simp [undead]
  · change w.accepted.Perm (w.multiplexer.activeSockets ++ [] ++ (w.cleaned ++ w.multiplexer.deadSockets))
    rw [List.append_nil]
    have swapped : (w.multiplexer.deadSockets ++ w.cleaned).Perm (w.cleaned ++ w.multiplexer.deadSockets) :=
      List.perm_append_comm
    have moved := swapped.append_left w.multiplexer.activeSockets
    have accounted := h.accounted
    rw [List.append_assoc] at accounted
    exact accounted.trans moved
  · change (w.cleaned ++ w.multiplexer.deadSockets ++ w.discarded).Nodup
    have deadOnce := (List.nodup_append.1 h.consistent.distinct).2.1
    have once := h.destroyedOnce
    rw [List.nodup_append] at once
    refine List.nodup_append.2 ⟨List.nodup_append.2 ⟨once.1, deadOnce, ?_⟩, once.2.1, ?_⟩
    · intro a gone b dead same
      exact (exists_iff.1 (deadLiving b dead)).2.1 (same ▸ gone)
    · intro a member b gone same
      rcases List.mem_append.1 member with cleaned | dead
      · exact once.2.2 a cleaned b gone same
      · exact (exists_iff.1 (deadLiving a dead)).2.2 (same ▸ gone)
  · intro other gone
    change other ∈ w.cleaned ++ w.multiplexer.deadSockets ++ w.discarded at gone
    rw [List.mem_append, List.mem_append] at gone
    rcases gone with (cleaned | dead) | discarded
    · exact h.destroyed other (List.mem_append_left _ cleaned)
    · exact (exists_iff.1 (deadLiving other dead)).1
    · exact h.destroyed other (List.mem_append_right _ discarded)

end scene

/-! ## Runs -/

section runs

variable {w : World}

theorem modifyMultiplexer_apply (f : EpollMultiplexer → EpollMultiplexer) :
    modifyMultiplexer f w = ((), { w with multiplexer := f w.multiplexer }) := rfl

theorem expect_apply {fault : Fault} {c : Bool} (met : c = true) : expect fault c w = ((), w) := by
  simp [expect, met, pure_apply]

theorem touch_apply {id : Nat} (living : w.exists id = true) : touch id w = (w.sockets id, w) := by
  rw [touch, get_bind, bind_apply, expect_apply living]
  rfl

theorem ask_apply : ∃ error outcomes, ask w = (error, { w with outcomes }) := by
  cases next : w.outcomes with
  | nil =>
      have run : ask w = (.success, w) := by
        rw [ask, get_bind]
        simp only [next]
        rfl
      exact ⟨.success, w.outcomes, run⟩
  | cons outcome rest =>
      refine ⟨outcome, rest, ?_⟩
      rw [ask, get_bind]
      simp only [next]
      rfl

theorem readClock_apply : readClock w = (w.clock w.readings, { w with readings := w.readings + 1 }) := rfl

theorem onWheel_apply (f : FlatTimingWheel Nat → Error × FlatTimingWheel Nat) :
    onWheel f w = ((f w.multiplexer.timingWheel).1,
      { w with toScene := w.toScene.setWheel (f w.multiplexer.timingWheel).2 }) := rfl

end runs

/-! ## Calls -/

section calls

variable {w : World} {id fd : Nat}

/-- A program without callbacks: what it leaves alone. -/
structure Leads (w w' : World) : Prop where
  sound : Sound w'.toScene
  available : w'.multiplexer.hasEvents = w.multiplexer.hasEvents
  busy : w'.busy = w.busy
  linked : ∀ id, w.isLinked id = true → w'.isLinked id = true
  scripts : w'.scripts = w.scripts
  views : w'.views = w.views
  faults : w'.faults = w.faults

theorem Leads.refl (h : Sound w.toScene) : Leads w w := ⟨h, rfl, rfl, fun _ linked => linked, rfl, rfl, rfl⟩

/-- The timer of a socket that has none. -/
theorem startTimer_runs (w : World) (filed : w.multiplexer.timingWheel.Filed)
    (ranged : w.multiplexer.timingWheel.Ranged w.multiplexer.idleTimeoutMsec) (idle : w.isTimed id = false)
    (permanent : Bool) :
    ∃ error timingWheel readings,
      startTimer id permanent w = (error, { w with toScene := w.toScene.setWheel timingWheel, readings }) ∧
        FlatTimingWheel.Moves id w.multiplexer.timingWheel timingWheel ∧
        (error = .success → permanent = false → 0 < w.multiplexer.idleTimeoutMsec →
          timingWheel.inTimingWheel id = true) ∧
        (error ≠ .success → timingWheel.inTimingWheel id = false) := by
  cases wanted : decide (0 < w.multiplexer.idleTimeoutMsec) && !permanent with
  | true =>
      obtain ⟨moves, asserts, waits⟩ := filed.insert ranged idle (w.clock w.readings)
      refine ⟨_, _, w.readings + 1, ?_, moves, fun success _ _ => waits.2 success, fun failed => ?_⟩
      · rw [startTimer, get_bind]
        simp only [wanted, if_true]
        rw [bind_apply, readClock_apply, bind_apply, onWheel_apply]
        dsimp only
        split
        · rename_i success
          rw [get_bind, bind_apply, expect_apply, pure_apply, success]
          exact waits.2 success
        · rw [bind_apply, expect_apply (by simpa using asserts), pure_apply]
      · by_contra timed
        exact failed (waits.1 (Bool.eq_true_of_not_eq_false timed))
  | false =>
      refine ⟨.success, w.multiplexer.timingWheel, w.readings, ?_, filed.stays id, ?_, by simp⟩
      · rw [startTimer, get_bind]
        simp only [wanted, Bool.false_eq_true, if_false]
        rw [get_bind, bind_apply, expect_apply (by rw [idle]; rfl)]
        rfl
      · intro _ notPermanent timeout
        simp [notPermanent, timeout] at wanted

theorem stopTimer_runs (w : World) (id : Nat) (filed : w.multiplexer.timingWheel.Filed)
    (allocated : w.multiplexer.timingWheel.allocated = true) :
    ∃ timingWheel, stopTimer id w = ((), { w with toScene := w.toScene.setWheel timingWheel }) ∧
      FlatTimingWheel.Moves id w.multiplexer.timingWheel timingWheel ∧
      timingWheel.inTimingWheel id = false := by
  cases timed : w.isTimed id with
  | true =>
      obtain ⟨moves, idle⟩ := filed.remove allocated id
      refine ⟨_, ?_, moves, idle⟩
      rw [stopTimer, get_bind]
      simp only [timed, if_true]
      rfl
  | false =>
      refine ⟨w.multiplexer.timingWheel, ?_, filed.stays id, timed⟩
      rw [stopTimer, get_bind]
      simp only [timed, Bool.false_eq_true, if_false]
      rfl

theorem addActive_apply (loose : w.isLinked id = false) :
    addActive id w = ((), { w with
      multiplexer := { w.multiplexer with activeSockets := w.multiplexer.activeSockets ++ [id] } }) := by
  rw [addActive, get_bind, bind_apply, expect_apply (by rw [loose]; rfl)]
  rfl

theorem removeActive_apply (active : id ∈ w.multiplexer.activeSockets) :
    removeActive id w = ((), { w with
      multiplexer := { w.multiplexer with activeSockets := w.multiplexer.activeSockets.erase id } }) := by
  rw [removeActive, get_bind, bind_apply, expect_apply (by simpa using active)]
  rfl

theorem addDead_apply (loose : w.isLinked id = false) :
    addDead id w = ((), { w with
      multiplexer := { w.multiplexer with deadSockets := w.multiplexer.deadSockets ++ [id] } }) := by
  rw [addDead, get_bind, bind_apply, expect_apply (by rw [loose]; rfl)]
  rfl

theorem cacheIndex_apply (bound : fd < w.multiplexer.maxSockets) : cacheIndex fd w = ((), w) := by
  rw [cacheIndex, get_bind, expect_apply (by simpa using bound)]

theorem writeCache_apply (bound : fd < w.multiplexer.maxSockets) (events : EpollEvents) :
    writeCache fd events w = ((), { w with
      multiplexer :=
        { w.multiplexer with eventCache := Function.update w.multiplexer.eventCache fd events } }) := by
  rw [writeCache, bind_apply, cacheIndex_apply bound]
  rfl

theorem register_runs (w : World) (fd id : Nat) (events : EpollEvents) :
    ∃ error outcomes, (error = .success ∧ register fd events id w =
        (.success, { w with outcomes, interest := Function.update w.interest fd (some (events, id)) })) ∨
      error ≠ .success ∧ register fd events id w = (error, { w with outcomes }) := by
  obtain ⟨error, outcomes, asked⟩ := ask_apply (w := w)
  refine ⟨error, outcomes, ?_⟩
  simp only [register, bind_apply, asked]
  cases error
  case success => exact .inl ⟨rfl, rfl⟩
  all_goals exact .inr ⟨by simp, rfl⟩

theorem epollAdd_apply (free : w.interest fd = none) (events : EpollEvents) :
    epollAdd fd events id w = register fd events id w := by
  rw [epollAdd, get_bind]
  simp only [free, Option.isSome_none, Bool.false_eq_true, if_false]

theorem epollModify_apply (taken : (w.interest fd).isSome = true) (events : EpollEvents) :
    epollModify fd events id w = register fd events id w := by
  rw [epollModify, get_bind]
  simp only [Option.isNone_iff_eq_none, Option.isSome_iff_ne_none.1 taken, if_false]

theorem epollModify_refused (free : w.interest fd = none) (events : EpollEvents) :
    epollModify fd events id w = (.cannotFind, w) := by
  rw [epollModify, get_bind]
  simp only [free, Option.isNone_none, if_true]
  rfl

theorem epollDelete_apply (taken : (w.interest fd).isSome = true) :
    epollDelete fd w = (.success, forget fd w) := by
  rw [epollDelete, get_bind]
  simp only [Option.isNone_iff_eq_none, Option.isSome_iff_ne_none.1 taken, if_false]
  rfl

theorem epollDelete_refused (free : w.interest fd = none) : epollDelete fd w = (.cannotFind, w) := by
  rw [epollDelete, get_bind]
  simp only [free, Option.isNone_none, if_true]
  rfl

/-- The socket has been counted. -/
def World.counted (w : World) : World :=
  { w with multiplexer := { w.multiplexer with activeSocketCount := w.multiplexer.activeSocketCount + 1 } }

/-- The socket has been counted and may have a timer. -/
def World.timing (w : World) (timingWheel : FlatTimingWheel Nat) (readings : Nat) (outcomes : List Error) :
    World :=
  { w with
    multiplexer := { w.multiplexer with
      activeSocketCount := w.multiplexer.activeSocketCount + 1
      timingWheel }
    readings, outcomes }

/-- The socket has been counted, may have a timer and is linked. -/
def World.enlisting (w : World) (id : Nat) (timingWheel : FlatTimingWheel Nat) (readings : Nat)
    (outcomes : List Error) : World :=
  { w with
    multiplexer := { w.multiplexer with
      activeSocketCount := w.multiplexer.activeSocketCount + 1
      activeSockets := w.multiplexer.activeSockets ++ [id]
      timingWheel }
    readings, outcomes }

/-- At most one socket more is active. -/
def OneMore (w w' : World) : Prop :=
  Leads w w' ∧ w'.multiplexer.activeSockets.length ≤ w.multiplexer.activeSockets.length + 1

theorem OneMore.refl (h : Sound w.toScene) : OneMore w w := ⟨.refl h, Nat.le_succ _⟩

/-- A socket that may be added, and its descriptor. -/
structure Addable (w : Scene) (fd id : Nat) : Prop where
  living : w.exists id = true
  loose : w.isLinked id = false
  opened : (w.sockets id).socketDescriptor = some fd

section adding

variable {timingWheel : FlatTimingWheel Nat} (h : Sound w.toScene) (addable : Addable w.toScene fd id)

include addable

theorem Addable.inactive : id ∉ w.multiplexer.activeSockets :=
  fun active => Bool.false_ne_true (addable.loose.symm.trans (isLinked_iff.2 (.inl active)))

include h

theorem Addable.free : w.interest fd = none :=
  h.unregistered_self addable.living addable.opened addable.inactive

theorem Addable.idle : w.isTimed id = false :=
  Bool.eq_false_of_not_eq_true fun timed => addable.inactive (h.consistent.timers id timed)

/-- The wheel of a failed addition may stay as it is. -/
theorem OneMore.setWheel (moves : FlatTimingWheel.Moves id w.multiplexer.timingWheel timingWheel)
    (idle : timingWheel.inTimingWheel id = false) (readings : Nat) (outcomes : List Error) :
    OneMore w { w with toScene := w.toScene.setWheel timingWheel, readings, outcomes } := by
  have sound := h.setWheel moves (by simp [idle]) fun active => absurd active addable.inactive
  exact ⟨⟨sound, rfl, rfl, fun _ linked => linked, rfl, rfl, rfl⟩, Nat.le_succ _⟩

/-- An addition is undone. -/
theorem undo_oneMore (moves : FlatTimingWheel.Moves id w.multiplexer.timingWheel timingWheel)
    (readings : Nat) (outcomes : List Error) (error : Error) :
    OneMore w ((do removeActive id; stopTimer id; dec; return error : Program Error)
      (w.enlisting id timingWheel readings outcomes)).2 := by
  obtain ⟨timingWheel', stopped, moves', idle⟩ := stopTimer_runs (w.timing timingWheel readings outcomes) id
    moves.filed (moves.allocated.trans h.configured.timers)
  have unlinked : removeActive id (w.enlisting id timingWheel readings outcomes) =
      ((), w.timing timingWheel readings outcomes) := by
    have active : id ∈ (w.enlisting id timingWheel readings outcomes).multiplexer.activeSockets :=
      List.mem_append_right _ List.mem_cons_self
    have restored : (w.multiplexer.activeSockets ++ [id]).erase id = w.multiplexer.activeSockets := by
      rw [List.erase_append_right _ addable.inactive, List.erase_cons_head, List.append_nil]
    rw [removeActive_apply active]
    simp only [World.enlisting, World.timing, restored]
  rw [bind_apply, unlinked, bind_apply, stopped, bind_apply]
  have kept := OneMore.setWheel h addable (moves.trans moves') idle readings outcomes
  simp only [dec, modifyMultiplexer_apply, World.timing, Scene.setWheel, Int.add_sub_cancel]
  exact kept

theorem enlist_oneMore (room : w.multiplexer.activeSockets.length < w.multiplexer.maxSockets)
    (moves : FlatTimingWheel.Moves id w.multiplexer.timingWheel timingWheel)
    (waits : (w.sockets id).permanent = false → 0 < w.multiplexer.idleTimeoutMsec →
      timingWheel.inTimingWheel id = true) (readings : Nat) (events : EpollEvents) :
    OneMore w (enlist fd id events (w.timing timingWheel readings w.outcomes)).2 := by
  have bound := h.bounded id fd addable.living addable.opened
  have linked : addActive id (w.timing timingWheel readings w.outcomes) =
      ((), w.enlisting id timingWheel readings w.outcomes) := addActive_apply addable.loose
  have free : w.interest fd = none := addable.free h
  rw [enlist, bind_apply, linked, bind_apply,
    epollAdd_apply (w := w.enlisting id timingWheel readings w.outcomes) free]
  obtain ⟨error, outcomes, ⟨rfl, registered⟩ | ⟨failed, registered⟩⟩ :=
    register_runs (w.enlisting id timingWheel readings w.outcomes) fd id events
  · rw [registered]
    dsimp only
    rw [if_neg (by simp), bind_apply, writeCache_apply]
    case bound => exact bound
    refine ⟨⟨h.added addable.living addable.loose addable.opened room moves waits, rfl, rfl, ?_, rfl, rfl, rfl⟩, ?_⟩
    · intro other linked
      rcases isLinked_iff.1 linked with active | dead
      · exact isLinked_iff.2 (.inl (List.mem_append_left _ active))
      · exact isLinked_iff.2 (.inr dead)
    · change (w.multiplexer.activeSockets ++ [id]).length ≤ _
      rw [List.length_append]
      exact Nat.le_refl _
  · rw [registered]
    dsimp only
    rw [if_pos failed]
    exact undo_oneMore h addable moves readings outcomes error

theorem addCounted_oneMore : OneMore w (addCounted fd id (w.sockets id) w.counted).2 := by
  rw [addCounted, get_bind]
  by_cases full : w.counted.multiplexer.activeSocketCount > w.counted.multiplexer.maxSockets
  · rw [if_pos full]
    simp only [bind_apply, dec, modifyMultiplexer_apply, World.counted, Int.add_sub_cancel]
    exact .refl h
  · rw [if_neg full]
    have room : w.multiplexer.activeSockets.length < w.multiplexer.maxSockets := by
      have count := h.consistent.count
      simp only [World.counted] at full
      omega
    have idle : w.isTimed id = false := addable.idle h
    obtain ⟨error, timingWheel, readings, started, moves, waits, idle⟩ :=
      startTimer_runs w.counted h.consistent.filed h.configured.ranged idle (w.sockets id).permanent
    rw [bind_apply, started]
    dsimp only
    by_cases failed : error ≠ .success
    · rw [if_pos failed]
      have kept := OneMore.setWheel h addable moves (idle failed) readings w.outcomes
      simp only [bind_apply, dec, modifyMultiplexer_apply, World.counted, Scene.setWheel, Int.add_sub_cancel]
      exact kept
    · rw [if_neg failed]
      have success := not_not.1 failed
      exact enlist_oneMore h addable room moves (waits success) readings _

end adding

/-- A socket that no list has is added, or everything is as it was. -/
theorem addMultiplexedSocket_oneMore (h : Sound w.toScene) (allowed : w.allows (.add id) = true) :
    OneMore w (addMultiplexedSocket id w).2 := by
  obtain ⟨⟨living, loose⟩, opened⟩ : (w.exists id = true ∧ w.isLinked id = false) ∧
      (w.sockets id).socketDescriptor.isSome = true := by
    simpa [Scene.allows] using allowed
  obtain ⟨fd, opened⟩ := Option.isSome_iff_exists.1 opened
  rw [addMultiplexedSocket, get_bind]
  split
  · exact .refl h
  · rw [bind_apply, touch_apply living]
    simp only [opened]
    exact addCounted_oneMore h ⟨living, loose, opened⟩

/-! ### Updates -/

theorem interests_ne_zero (socket : MultiplexedSocket) : socket.interests EPOLLERR ≠ 0 := by
  unfold MultiplexedSocket.interests
  cases socket.wantAccept <;> cases socket.wantConnect <;> cases socket.wantRead <;>
    cases socket.wantWrite <;> decide

theorem registering_self (h : Sound w.toScene) (active : id ∈ w.multiplexer.activeSockets)
    (opened : (w.sockets id).socketDescriptor = some fd) :
    w.toScene.registering fd id (w.multiplexer.eventCache fd) = w.toScene := by
  simp only [Scene.registering, Function.update_eq_self]
  rw [← h.registers active opened, Function.update_eq_self]

/-- What is not registered is not in the cache either. -/
theorem Sound.cached (h : Sound w.toScene) (living : w.exists id = true)
    (opened : (w.sockets id).socketDescriptor = some fd) (cached : w.multiplexer.eventCache fd ≠ 0) :
    id ∈ w.multiplexer.activeSockets := by
  refine h.registered_self living opened (Option.isSome_iff_ne_none.2 fun free => cached ?_)
  exact h.unregistered fd free (h.bounded id fd living opened)

theorem readCache_apply (bound : fd < w.multiplexer.maxSockets) :
    readCache fd w = (w.multiplexer.eventCache fd, w) := by
  rw [readCache, bind_apply, cacheIndex_apply bound]
  rfl

/-- After a success the events are registered, whether the kernel was told or not; after a failure
everything is as it was. -/
def Refreshed (w : World) (fd id : Nat) (events : EpollEvents) (result : Error × World) : Prop :=
  ∃ outcomes,
    result.1 ≠ .success ∧ result.2 = { w with outcomes } ∨
    result.1 = .success ∧ id ∈ w.multiplexer.activeSockets ∧
      result.2 = { w with toScene := w.toScene.registering fd id events, outcomes }

theorem refresh_refreshes (h : Sound w.toScene) (living : w.exists id = true)
    (opened : (w.sockets id).socketDescriptor = some fd) {events : EpollEvents} (asked : events ≠ 0) :
    Refreshed w fd id events (refresh fd id events w) := by
  have bound := h.bounded id fd living opened
  rw [refresh, bind_apply, readCache_apply bound]
  dsimp only
  by_cases same : w.multiplexer.eventCache fd = events
  · have active := h.cached living opened (same ▸ asked)
    rw [if_neg (not_not.2 same)]
    refine ⟨w.outcomes, .inr ⟨rfl, active, ?_⟩⟩
    rw [← same, registering_self h active opened]
    rfl
  · rw [if_pos same, bind_apply]
    by_cases taken : (w.interest fd).isSome = true
    · obtain ⟨error, outcomes, ⟨rfl, registered⟩ | ⟨failed, registered⟩⟩ := register_runs w fd id events
      · refine ⟨outcomes, .inr ?_⟩
        rw [epollModify_apply taken, registered]
        dsimp only
        rw [if_neg (by simp), bind_apply, writeCache_apply]
        case bound => exact bound
        exact ⟨rfl, h.registered_self living opened taken, rfl⟩
      · refine ⟨outcomes, .inl ?_⟩
        rw [epollModify_apply taken, registered]
        dsimp only
        rw [if_pos failed]
        exact ⟨failed, rfl⟩
    · refine ⟨w.outcomes, .inl ?_⟩
      rw [epollModify_refused (Option.not_isSome_iff_eq_none.1 taken)]
      exact ⟨by simp [pure_apply], rfl⟩

theorem updateMultiplexedSocket_refreshes (h : Sound w.toScene) (living : w.exists id = true)
    (opened : (w.sockets id).socketDescriptor = some fd) :
    Refreshed w fd id ((w.sockets id).interests EPOLLERR) (updateMultiplexedSocket id w) := by
  rw [updateMultiplexedSocket, get_bind]
  split
  · exact ⟨w.outcomes, .inl ⟨by simp [pure_apply], rfl⟩⟩
  · rw [bind_apply, touch_apply living]
    simp only [opened]
    exact refresh_refreshes h living opened (interests_ne_zero _)

/-! ### Removals -/

/-- The socket is in no list, and its descriptor is forgotten. -/
def World.unlinking (w : World) (fd id : Nat) (busy : List Nat) (timingWheel : FlatTimingWheel Nat) : World :=
  { w with
    busy
    interest := Function.update w.interest fd none
    multiplexer := { w.multiplexer with
      eventCache := Function.update w.multiplexer.eventCache fd 0
      activeSockets := w.multiplexer.activeSockets.erase id
      timingWheel } }

theorem bury_runs (h : Sound w.toScene) (active : id ∈ w.multiplexer.activeSockets) (busy : List Nat)
    {timingWheel : FlatTimingWheel Nat} (idle : timingWheel.inTimingWheel id = false) :
    bury id (w.unlinking fd id busy timingWheel) = ((), { w with
      toScene := { (w.toScene.setWheel timingWheel).givenUp fd id with busy } }) := by
  have distinct : w.multiplexer.activeSockets.Nodup := (List.nodup_append.1 h.consistent.distinct).1
  have gone : id ∉ w.multiplexer.activeSockets.erase id := fun still => (distinct.mem_erase_iff.1 still).1 rfl
  have asserted : (!(w.unlinking fd id busy timingWheel).isTimed id) = true := by
    change (!timingWheel.inTimingWheel id) = true
    rw [idle]
    rfl
  rw [bury, get_bind, bind_apply, expect_apply asserted, bind_apply, dec, modifyMultiplexer_apply, bind_apply,
    addDead_apply]
  · rfl
  · simp [Scene.isLinked, World.unlinking, gone, h.not_dead active]

/-- The descriptor has been forgotten, and the socket is given up. -/
theorem giveUp_runs (h : Sound w.toScene) (active : id ∈ w.multiplexer.activeSockets)
    (opened : (w.sockets id).socketDescriptor = some fd) (busy : List Nat) :
    ∃ timingWheel, giveUp fd id (forget fd { w with busy }) = ((), { w with
        toScene := { (w.toScene.setWheel timingWheel).givenUp fd id with busy } }) ∧
      FlatTimingWheel.Moves id w.multiplexer.timingWheel timingWheel ∧
      timingWheel.inTimingWheel id = false := by
  obtain ⟨timingWheel, stopped, moves, idle⟩ :=
    stopTimer_runs (w.unlinking fd id busy w.multiplexer.timingWheel) id h.consistent.filed h.configured.timers
  refine ⟨timingWheel, ?_, moves, idle⟩
  rw [giveUp, bind_apply, writeCache_apply]
  case bound => exact h.bounded id fd (h.living_active active) opened
  rw [bind_apply, removeActive_apply, bind_apply]
  · change bury id (stopTimer id (w.unlinking fd id busy w.multiplexer.timingWheel)).2 = _
    rw [stopped]
    exact bury_runs h active busy idle
  · exact active

end calls

end EpollMultiplexer

end Everscale
