/-
# Everscale.Base.EpollRun -- whole runs of the multiplexer

A call of the multiplexer runs callbacks, and those make calls.  `Steady` is what all of them
keep: a sound scene, no fault so far, and no more sockets and scripts ahead than before.
From there follow, for every run of the thread, whatever its sockets do in their callbacks and
whatever the kernel answers: that nothing goes wrong (`run_faultless`), that every callback
finds the lists, the timers, the kernel and the cache in agreement (`run_consistent`), and, unless
`epoll_wait` keeps failing, that every socket is cleaned up once (`run_cleansUp`).

The descriptors have to be fewer than the sockets that the multiplexer was made for, since it keeps a
cache of that size and never compares, and the timing wheel has to have its memory.
-/
import Everscale.Base.EpollSound

namespace Everscale

set_option autoImplicit false

namespace EpollMultiplexer

/-- What a program may rely on: whether the arrays are there, the sockets that are being served, some
that stay linked, and bounds for the sockets that can still be removed and the scripts that are left. -/
structure Bounds where
  available : Bool
  busy : List Nat := []
  linked : List Nat := []
  pending : Nat
  scripts : Nat

structure Steady (b : Bounds) (w : World) : Prop where
  sound : Sound w.toScene
  available : w.multiplexer.hasEvents = b.available
  served : w.busy = b.busy
  linked : ∀ id ∈ b.linked, w.isLinked id = true
  faultless : w.faults = []
  views : ∀ view ∈ w.views, Sound view
  pending : w.pending ≤ b.pending
  scripts : w.scripts.length ≤ b.scripts

variable {b : Bounds} {w w' : World} {id : Nat}

theorem Steady.weaken (h : Steady b w) {pending scripts : Nat} (more : b.pending ≤ pending)
    (more' : b.scripts ≤ scripts) : Steady { b with pending, scripts } w :=
  { h with pending := h.pending.trans more, scripts := h.scripts.trans more' }

theorem pending_le (scripts : w'.scripts = w.scripts) {n : Nat}
    (active : w'.multiplexer.activeSockets.length ≤ w.multiplexer.activeSockets.length + n) :
    w'.pending ≤ w.pending + n := by
  unfold World.pending
  rw [scripts]
  omega

/-- A program without callbacks. -/
theorem Steady.leads (h : Steady b w) (leads : Leads w w') {n : Nat}
    (active : w'.multiplexer.activeSockets.length ≤ w.multiplexer.activeSockets.length + n) :
    Steady { b with pending := b.pending + n } w' where
  sound := leads.sound
  available := leads.available.trans h.available
  served := leads.busy.trans h.served
  linked := fun id member => leads.linked id (h.linked id member)
  faultless := leads.faults.trans h.faultless
  views := fun view member => h.views view (leads.views ▸ member)
  pending := (pending_le leads.scripts active).trans (Nat.add_le_add_right h.pending n)
  scripts := leads.scripts ▸ h.scripts

/-- The same, where no socket becomes active. -/
theorem Steady.stays (h : Steady b w) (leads : Leads w w')
    (active : w'.multiplexer.activeSockets = w.multiplexer.activeSockets) : Steady b w' :=
  h.leads (n := 0) leads (by rw [active]; exact Nat.le_refl _)

theorem Steady.refreshed (h : Steady b w) {fd : Nat} {events : EpollEvents} {result : Error × World}
    (opened : (w.sockets id).socketDescriptor = some fd) (refreshed : Refreshed w fd id events result) :
    Steady b result.2 := by
  obtain ⟨outcomes, ⟨-, same⟩ | ⟨-, active, same⟩⟩ := refreshed
  · rw [same]
    exact h.stays ⟨h.sound, rfl, rfl, fun _ linked => linked, rfl, rfl, rfl⟩ rfl
  · rw [same]
    exact h.stays ⟨h.sound.registering active opened, rfl, rfl, fun _ linked => linked, rfl, rfl, rfl⟩ rfl

/-! ## Calls -/

/-- What `handleRemove` keeps. -/
def KeepsSteady (handleRemove : Nat → Program Unit) : Prop :=
  ∀ (b : Bounds) (w : World) (id : Nat), Steady b w → w.exists id = true → Steady b (handleRemove id w).2

section calls

variable {handleRemove : Nat → Program Unit} (keeps : KeepsSteady handleRemove)

include keeps

/-- An active socket is removed, and is busy no longer. -/
theorem remove_steady (h : Steady b w) (active : id ∈ w.multiplexer.activeSockets) (available : b.available = true) :
    Steady { b with busy := b.busy.erase id, pending := b.pending - 1 }
      (removeMultiplexedSocket handleRemove id { w with busy := w.busy.erase id }).2 := by
  obtain ⟨fd, opened⟩ := Option.isSome_iff_exists.1 (h.sound.connected id active)
  have living := h.sound.living_active active
  have taken : (w.interest fd).isSome = true := by
    rw [h.sound.registers active opened]
    rfl
  obtain ⟨timingWheel, gaveUp, moves, idle⟩ := giveUp_runs h.sound active opened (w.busy.erase id)
  have sound := h.sound.givenUp active opened moves idle
  have events : w.multiplexer.hasEvents = true := h.available.trans available
  rw [removeMultiplexedSocket, get_bind]
  simp only [events, Bool.not_true, Bool.false_eq_true, if_false]
  rw [bind_apply, touch_apply (w := { w with busy := w.busy.erase id }) living]
  simp only [opened]
  rw [bind_apply, epollDelete_apply (w := { w with busy := w.busy.erase id }) taken]
  dsimp only
  rw [if_neg (by simp), bind_apply, gaveUp, bind_apply, pure_apply]
  have positive := List.length_pos_of_mem active
  have fewer := List.length_erase_of_mem active
  refine keeps _ _ id ⟨sound, h.available, by rw [← h.served], ?_, h.faultless, h.views, ?_, h.scripts⟩ ?_
  · intro other member
    rcases isLinked_iff.1 (h.linked other member) with still | dead
    · by_cases same : other = id
      · exact isLinked_iff.2 (.inr (List.mem_append_right _ (by simp [same])))
      · exact isLinked_iff.2 (.inl ((List.mem_erase_of_ne same).2 still))
    · exact isLinked_iff.2 (.inr (List.mem_append_left _ dead))
  · have pending := h.pending
    simp only [World.pending, Scene.givenUp, Scene.setWheel] at pending ⊢
    omega
  · exact living

/-- A socket that may be removed, by a call. -/
theorem removeCall_steady (h : Steady b w) (allowed : w.allows (.remove id) = true) :
    Steady b (removeMultiplexedSocket handleRemove id w).2 := by
  obtain ⟨⟨living, opened⟩, spared⟩ : (w.exists id = true ∧
      (w.sockets id).socketDescriptor.isSome = true) ∧ id ∉ w.busy := by
    simpa [Scene.allows] using allowed
  obtain ⟨fd, opened⟩ := Option.isSome_iff_exists.1 opened
  by_cases active : id ∈ w.multiplexer.activeSockets
  · cases available : b.available with
    | false =>
        rw [removeMultiplexedSocket, get_bind]
        simp only [h.available, available, Bool.not_false, if_true]
        exact h
    | true =>
        have removed := remove_steady keeps h active available
        have same : { w with busy := w.busy.erase id } = w := by
          rw [List.erase_of_not_mem spared]
        rw [same, ← h.served, List.erase_of_not_mem spared, h.served] at removed
        exact removed.weaken (Nat.sub_le _ _) (Nat.le_refl _)
  · have free := h.sound.unregistered_self living opened active
    rw [removeMultiplexedSocket, get_bind]
    split
    · exact h
    · rw [bind_apply, touch_apply living]
      simp only [opened]
      rw [bind_apply, epollDelete_refused free]
      exact h

omit keeps in
/-- A socket that is not active is closed; the kernel had forgotten its descriptor. -/
theorem close_leads (h : Sound w.toScene) (living : w.exists id = true)
    (inactive : id ∉ w.multiplexer.activeSockets) :
    Leads w (close id w).2 ∧ (close id w).2.multiplexer.activeSockets = w.multiplexer.activeSockets := by
  rw [close, get_bind]
  cases opened : (w.sockets id).socketDescriptor with
  | none => exact ⟨.refl h, rfl⟩
  | some fd =>
      have forgotten : Function.update w.interest fd none = w.interest := by
        rw [← h.unregistered_self living opened inactive, Function.update_eq_self]
      simp only [bind_apply, modify_apply, modifySocket, forget, forgotten]
      exact ⟨⟨h.closed inactive, rfl, rfl, fun _ linked => linked, rfl, rfl, rfl⟩, trivial⟩

omit keeps in
theorem discard_leads (h : Sound w.toScene) (allowed : w.allows (.discard id) = true) :
    Leads w { w with discarded := w.discarded ++ [id] } := by
  obtain ⟨living, loose⟩ : w.exists id = true ∧ w.isLinked id = false := by
    simpa [Scene.allows] using allowed
  exact ⟨h.discarded living loose, rfl, rfl, fun _ linked => linked, rfl, rfl, rfl⟩

/-- A call makes at most one socket more active. -/
theorem perform_steady (h : Steady b w) (call : Call) :
    Steady { b with pending := b.pending + 1 } (perform handleRemove call w).2 := by
  rw [perform, get_bind]
  split
  case isFalse => exact h.weaken (Nat.le_succ _) (Nat.le_refl _)
  rename_i allowed
  have weaken : ∀ {w' : World}, Steady b w' → Steady { b with pending := b.pending + 1 } w' :=
    fun h => h.weaken (Nat.le_succ _) (Nat.le_refl _)
  cases call with
  | construct fd socket =>
      have sound : Sound (construct fd socket w).toScene := h.sound.constructed allowed rfl rfl
      exact weaken (h.stays ⟨sound, rfl, rfl, fun _ linked => linked, rfl, rfl, rfl⟩ rfl)
  | want id wantAccept wantConnect wantRead wantWrite =>
      have sound : Sound { w.toScene with
          sockets := Function.update w.sockets id
            { w.sockets id with wantAccept, wantConnect, wantRead, wantWrite } } :=
        h.sound.setSocket rfl rfl rfl
      exact weaken (h.stays ⟨sound, rfl, rfl, fun _ linked => linked, rfl, rfl, rfl⟩ rfl)
  | close id =>
      obtain ⟨living, inactive⟩ : w.exists id = true ∧ id ∉ w.multiplexer.activeSockets := by
        simpa [Scene.allows] using allowed
      have closed := close_leads h.sound living inactive
      exact weaken (h.stays closed.1 closed.2)
  | discard id => exact weaken (h.stays (discard_leads h.sound allowed) rfl)
  | add id =>
      have added := addMultiplexedSocket_oneMore h.sound allowed
      exact h.leads added.1 added.2
  | update id =>
      obtain ⟨living, opened⟩ : w.exists id = true ∧ (w.sockets id).socketDescriptor.isSome = true := by
        simpa [Scene.allows] using allowed
      obtain ⟨fd, opened⟩ := Option.isSome_iff_exists.1 opened
      exact weaken (h.refreshed opened (updateMultiplexedSocket_refreshes h.sound living opened))
  | remove id => exact weaken (removeCall_steady keeps h allowed)

theorem performAll_steady (h : Steady b w) (calls : List Call) :
    Steady { b with pending := b.pending + calls.length } (performAll handleRemove calls w).2 := by
  induction calls generalizing b w with
  | nil => exact h
  | cons call rest ih =>
      rw [performAll, bind_apply]
      have first := ih (perform_steady keeps h call)
      have length : b.pending + 1 + rest.length = b.pending + (call :: rest).length := by
        rw [List.length_cons]
        omega
      exact length ▸ first

/-! ## Callbacks -/

omit keeps in
/-- What a script is about to do is no longer ahead. -/
theorem nextScript_steady (h : Steady b w) :
    Steady { b with pending := b.pending - (nextScript w).1.calls.length } (nextScript w).2 ∧
      (nextScript w).1.calls.length ≤ b.pending ∧
      ((nextScript w).1.result ≠ .success → (nextScript w).2.scripts.length < b.scripts) := by
  have scripts := h.scripts
  have pending := h.pending
  cases left : w.scripts with
  | nil =>
      have run : nextScript w = ({}, w) := by
        rw [nextScript, get_bind]
        simp only [left]
        rfl
      rw [run]
      exact ⟨h, Nat.zero_le _, fun failed => absurd rfl failed⟩
  | cons script rest =>
      have run : nextScript w = (script, { w with scripts := rest }) := by
        rw [nextScript, get_bind]
        simp only [left]
        rfl
      simp only [World.pending, left, List.map_cons, List.sum_cons] at pending
      rw [left, List.length_cons] at scripts
      rw [run]
      refine ⟨⟨h.sound, h.available, h.served, h.linked, h.faultless, h.views, ?_, ?_⟩, ?_, fun _ => ?_⟩
      · simp only [World.pending]
        omega
      · exact (Nat.le_succ _).trans scripts
      · dsimp only
        omega
      · exact scripts

/-- A callback; one that does not return success was on a script. -/
theorem callBack_steady (h : Steady b w) (living : w.exists id = true) :
    Steady b (callBack handleRemove id w).2 ∧
      ((callBack handleRemove id w).1 ≠ .success →
        0 < b.scripts ∧ Steady { b with scripts := b.scripts - 1 } (callBack handleRemove id w).2) := by
  have seen : Steady b { w with views := w.views ++ [w.toScene] } := by
    refine { h with views := fun view member => ?_ }
    rcases List.mem_append.1 member with old | new
    · exact h.views view old
    · rw [List.mem_singleton] at new
      exact new ▸ h.sound
  obtain ⟨next, fewer, used⟩ := nextScript_steady seen
  rw [callBack, bind_apply, touch_apply living, bind_apply, modify_apply, bind_apply, bind_apply]
  dsimp only
  generalize nextScript { w with views := w.views ++ [w.toScene] } = result at next fewer used ⊢
  have restored : b.pending - result.1.calls.length + result.1.calls.length = b.pending :=
    Nat.sub_add_cancel fewer
  have performed := performAll_steady keeps next result.1.calls
  simp only [restored] at performed
  refine ⟨performed, fun failed => ?_⟩
  have strict := used failed
  refine ⟨Nat.zero_lt_of_lt strict, ?_⟩
  have tight : Steady { b with
      pending := b.pending - result.1.calls.length, scripts := b.scripts - 1 } result.2 :=
    { next with scripts := Nat.le_sub_one_of_lt strict }
  have performed := performAll_steady keeps tight result.1.calls
  simp only [restored] at performed
  exact performed

end calls

theorem handleRemove_keeps (depth : Nat) : KeepsSteady (handleRemove depth) := by
  induction depth with
  | zero =>
      intro b w id h living
      rw [handleRemove, discard_apply]
      exact (callBack_steady (fun _ _ _ h _ => h) h living).1
  | succ depth ih =>
      intro b w id h living
      rw [handleRemove, discard_apply]
      exact (callBack_steady ih h living).1

/-- A callback about an event. -/
theorem notify_steady (h : Steady b w) (active : id ∈ w.multiplexer.activeSockets) :
    Steady b (notify id w).2 ∧
      ((notify id w).1 ≠ .success →
        0 < b.scripts ∧ Steady { b with scripts := b.scripts - 1 } (notify id w).2) := by
  rw [notify, get_bind, bind_apply, expect_apply (by simpa using active), get_bind]
  exact callBack_steady (handleRemove_keeps _) h (h.sound.living_active active)


/-! ## Events -/

section events

theorem Steady.active (h : Steady b w) (served : id ∈ b.busy) : id ∈ w.multiplexer.activeSockets :=
  h.sound.busy id (h.served ▸ served)

theorem keepsAfter_steady (h : Steady b w) (served : id ∈ b.busy) : Steady b (keepsAfter id w).2 :=
  (notify_steady h (h.active served)).1

theorem leavesAfter_steady (h : Steady b w) (served : id ∈ b.busy) : Steady b (leavesAfter id w).2 :=
  (notify_steady h (h.active served)).1

/-- The loop ends: only a script can make it go on. -/
theorem acceptAll_steady {turns : Nat} (h : Steady b w) (served : id ∈ b.busy) (enough : b.scripts < turns) :
    Steady b (acceptAll id turns w).2 := by
  induction turns generalizing b w with
  | zero => exact absurd enough (Nat.not_lt_zero _)
  | succ turns ih =>
      obtain ⟨notified, used⟩ := notify_steady h (h.active served)
      rw [acceptAll, bind_apply]
      generalize notify id w = result at notified used ⊢
      obtain ⟨error, w'⟩ := result
      by_cases again : error = .again
      · subst again
        obtain ⟨positive, fewer⟩ := used (by simp)
        have rest := ih fewer served (by dsimp only; omega)
        exact rest.weaken (Nat.le_refl _) (Nat.sub_le _ _)
      · cases error
        case again => exact absurd rfl again
        all_goals exact notified

theorem serveReadable_steady (h : Steady b w) (served : id ∈ b.busy) (ready : Ready) :
    Steady b (serveReadable id ready w).2 := by
  rw [serveReadable, get_bind]
  split
  · exact keepsAfter_steady h served
  · exact h

theorem serveWritable_steady (h : Steady b w) (served : id ∈ b.busy) (ready : Ready) :
    Steady b (serveWritable id ready w).2 := by
  rw [serveWritable, get_bind]
  split
  · exact keepsAfter_steady h served
  · exact h

theorem serveConnected_steady (h : Steady b w) (served : id ∈ b.busy) (ready : Ready) :
    Steady b (serveConnected id ready w).2 := by
  have leaves := leavesAfter_steady h served
  have read := serveReadable_steady h served ready
  rw [serveConnected]
  split
  · exact leaves
  split
  · exact leaves
  rw [bind_apply]
  split
  · exact serveWritable_steady read served ready
  · exact read

theorem serve_steady (h : Steady b w) (served : id ∈ b.busy) (ready : Ready) : Steady b (serve id ready w).2 := by
  have keeps := keepsAfter_steady h served
  have leaves := leavesAfter_steady h served
  rw [serve, get_bind]
  split
  · rw [serveListening]
    split
    · exact leaves
    split
    · rw [get_bind]
      have tight : Steady { b with scripts := w.scripts.length } w := { h with scripts := Nat.le_refl _ }
      exact (acceptAll_steady tight served (Nat.lt_succ_self _)).weaken (Nat.le_refl _) h.scripts
    · exact h
  split
  · rw [serveConnecting]
    split
    · exact leaves
    split
    · exact leaves
    split
    · split
      · exact leaves
      · exact keeps
    split
    · exact keeps
    · exact h
  · exact serveConnected_steady h served ready

/-- A socket that was busy is so no longer; its timer runs again, if it has one to have. -/
theorem clearBusy_steady (h : Steady { b with busy := id :: b.busy } w)
    (timed : (w.sockets id).permanent = false → 0 < w.multiplexer.idleTimeoutMsec → w.isTimed id = true) :
    Steady b (clearBusy id w).2 := by
  have served : w.busy.erase id = b.busy := by
    rw [h.served, List.erase_cons_head]
  refine { h with
    served := served
    sound := { h.sound with
      timed := ?_
      busy := fun other busy => h.sound.busy other (List.mem_of_mem_erase busy)
      served := h.sound.served.erase id } }
  intro other active notBusy notPermanent timeout
  by_cases same : other = id
  · subst same
    exact timed notPermanent timeout
  · exact h.sound.timed other active (fun busy => notBusy ((List.mem_erase_of_ne same).2 busy)) notPermanent timeout

/-- An active socket becomes busy; from now on it may lack its timer. -/
theorem setBusy_steady (h : Steady b w) (active : id ∈ w.multiplexer.activeSockets) (spared : id ∉ b.busy) :
    Steady { b with busy := id :: b.busy } (setBusy id w).2 := by
  refine { h with
    served := congrArg (id :: ·) h.served
    sound := { h.sound with
      timed := fun other active notBusy => h.sound.timed other active fun busy =>
        notBusy (List.mem_cons_of_mem _ busy)
      busy := ?_
      served := List.nodup_cons.2 ⟨h.served ▸ spared, h.sound.served⟩ } }
  intro other busy
  rcases List.mem_cons.1 busy with rfl | old
  · exact active
  · exact h.sound.busy other old

theorem removeServed_steady (h : Steady { b with busy := id :: b.busy } w) (available : b.available = true) :
    Steady { b with pending := b.pending - 1 } (removeServed id w).2 := by
  have active := h.active (List.mem_cons_self)
  have removed := remove_steady (handleRemove_keeps w.scripts.length) h active available
  dsimp only at removed
  rw [List.erase_cons_head] at removed
  exact removed

/-- A socket that is kept is updated and no longer busy. -/
theorem updateServed_steady (h : Steady { b with busy := id :: b.busy } w)
    (timed : (w.sockets id).permanent = false → 0 < w.multiplexer.idleTimeoutMsec → w.isTimed id = true) :
    Steady b ((do discard (updateMultiplexedSocket id); clearBusy id : Program Unit) w).2 := by
  have active := h.active List.mem_cons_self
  obtain ⟨fd, opened⟩ := Option.isSome_iff_exists.1 (h.sound.connected id active)
  have refreshed := updateMultiplexedSocket_refreshes h.sound (h.sound.living_active active) opened
  have steady := h.refreshed opened refreshed
  rw [bind_apply, discard_apply]
  refine clearBusy_steady steady ?_
  obtain ⟨outcomes, ⟨-, same⟩ | ⟨-, -, same⟩⟩ := refreshed
  · rw [same]
    exact timed
  · rw [same]
    exact timed

theorem keep_steady (h : Steady { b with busy := id :: b.busy } w) (available : b.available = true) (now : Date) :
    Steady b (keep id now w).2 := by
  have active := h.active List.mem_cons_self
  rw [keep, get_bind, bind_apply, expect_apply (h.sound.connected id active)]
  dsimp only
  split
  · rename_i spared
    refine updateServed_steady h fun notPermanent timeout => ?_
    rw [notPermanent, Bool.false_or, decide_eq_true_eq] at spared
    exact absurd spared timeout.ne'
  · obtain ⟨moves, waits⟩ := h.sound.consistent.filed.update h.sound.configured.ranged id now
    rw [bind_apply, updateTimer, get_bind, onWheel_apply]
    dsimp only
    generalize w.multiplexer.timingWheel.update (some id) w.multiplexer.idleTimeoutMsec now = result at moves waits ⊢
    obtain ⟨error, timingWheel⟩ := result
    have busy : id ∈ w.busy := by
      rw [h.served]
      exact List.mem_cons_self
    have sound := h.sound.setWheel moves (fun _ => active) fun _ notBusy => absurd busy notBusy
    have moved : Steady { b with busy := id :: b.busy } { w with toScene := w.toScene.setWheel timingWheel } :=
      h.stays ⟨sound, rfl, rfl, fun _ linked => linked, rfl, rfl, rfl⟩ rfl
    have removed := (removeServed_steady moved available).weaken (Nat.sub_le _ _) (Nat.le_refl _)
    cases error
    case success => exact updateServed_steady moved fun _ _ => waits rfl
    case underflow =>
      have notified := (notify_steady moved (moved.active List.mem_cons_self)).1
      exact (removeServed_steady notified available).weaken (Nat.sub_le _ _) (Nat.le_refl _)
    all_goals exact removed

/-- One event of the batch. -/
theorem handleEvent_steady (h : Steady b w) (available : b.available = true) (linked : id ∈ b.linked)
    (free : b.busy = []) (now : Date) (ready : Ready) : Steady b (handleEvent now ready id w).2 := by
  have here := h.linked id linked
  have living := h.sound.living id here
  rw [handleEvent, bind_apply, touch_apply living]
  dsimp only
  split
  · exact h
  · rename_i undead
    have active : id ∈ w.multiplexer.activeSockets := by
      rcases isLinked_iff.1 here with active | dead
      · exact active
      · exact absurd ((h.sound.dead id living).2 dead) undead
    have busy := setBusy_steady h active (by rw [free]; exact List.not_mem_nil)
    rw [bind_apply, expect_apply (h.sound.connected id active), bind_apply, bind_apply]
    have served := serve_steady busy List.mem_cons_self ready
    split
    · exact keep_steady served available now
    · exact (removeServed_steady served available).weaken (Nat.sub_le _ _) (Nat.le_refl _)

theorem handleEvents_steady (h : Steady b w) (available : b.available = true) (free : b.busy = []) (now : Date)
    {batch : List (Ready × Nat)} (linked : ∀ entry ∈ batch, entry.2 ∈ b.linked) :
    Steady b (handleEvents now batch w).2 := by
  induction batch generalizing w with
  | nil => exact h
  | cons entry rest ih =>
      obtain ⟨ready, id⟩ := entry
      rw [handleEvents, bind_apply]
      have first := handleEvent_steady h available (linked _ List.mem_cons_self) free now ready
      exact ih first fun later member => linked later (List.mem_cons_of_mem _ member)

end events

/-! ## Idle sockets -/

/-- The socket of an expired timer is active; it has no timer from now on, and is busy. -/
theorem nextExpired_steady (h : Steady b w) (free : b.busy = []) (now : Date) :
    match nextExpired now w with
    | (none, w') => Steady b w'
    | (some id, w') => w'.isTimed id = false ∧ w'.multiplexer.activeSockets ≠ [] ∧
        Steady { b with busy := id :: b.busy } (setBusy id w').2 := by
  obtain ⟨expired, timingWheel, run, moves⟩ :=
    h.sound.consistent.filed.nextExpired h.sound.configured.timers now
  rw [nextExpired, get_bind]
  simp only [run]
  cases expired with
  | none =>
      -- any socket will do that is not active
      obtain ⟨moves, waits⟩ := moves w.constructed
      have fresh : w.constructed ∉ w.multiplexer.activeSockets := fun active =>
        absurd (exists_iff.1 (h.sound.living_active active)).1 (Nat.lt_irrefl _)
      have idle : timingWheel.inTimingWheel w.constructed = true → w.constructed ∈ w.multiplexer.activeSockets :=
        fun timed => h.sound.consistent.timers _ (waits ▸ timed)
      have sound := h.sound.setWheel moves idle fun active => absurd active fresh
      exact h.stays ⟨sound, rfl, rfl, fun _ linked => linked, rfl, rfl, rfl⟩ rfl
  | some id =>
      obtain ⟨moves, waited, idle⟩ := moves
      have active := h.sound.consistent.timers id waited
      have busy := setBusy_steady h active (by rw [free]; exact List.not_mem_nil)
      have sound := busy.sound.setWheel moves (by simp [idle]) fun _ notBusy => absurd List.mem_cons_self notBusy
      refine ⟨idle, List.ne_nil_of_mem active, ?_⟩
      exact busy.stays ⟨sound, rfl, rfl, fun _ linked => linked, rfl, rfl, rfl⟩ rfl

/-- The loop ends: each turn takes a socket out, and only a script can put one in. -/
theorem expireAll_steady {turns : Nat} (h : Steady b w) (available : b.available = true) (free : b.busy = [])
    (enough : b.pending < turns) (now : Date) : Steady b (expireAll now turns w).2 := by
  induction turns generalizing b w with
  | zero => exact absurd enough (Nat.not_lt_zero _)
  | succ turns ih =>
      have next := nextExpired_steady h free now
      rw [expireAll, bind_apply]
      generalize nextExpired now w = result at next ⊢
      obtain ⟨expired, w'⟩ := result
      cases expired with
      | none => exact next
      | some id =>
          obtain ⟨idle, some, busy⟩ := next
          dsimp only
          rw [get_bind, bind_apply, expect_apply (by rw [idle]; rfl), bind_apply, bind_apply, bind_apply]
          have notified := (notify_steady busy (busy.active List.mem_cons_self)).1
          have removed := removeServed_steady notified available
          have positive : 0 < b.pending := by
            have some := List.length_pos_iff.2 some
            have pending := busy.pending
            simp only [World.pending, setBusy, modify_apply] at pending
            omega
          have rest := ih removed available free (by dsimp only; omega)
          exact rest.weaken (Nat.sub_le _ _) (Nat.le_refl _)

theorem checkIdleSockets_steady (h : Steady b w) (available : b.available = true) (free : b.busy = []) :
    Steady b (checkIdleSockets w).2 := by
  have tight : Steady { b with pending := w.pending } { w with readings := w.readings + 1 } :=
    { h with pending := Nat.le_refl _ }
  rw [checkIdleSockets, bind_apply, readClock_apply, get_bind]
  have expired := expireAll_steady tight available free (Nat.lt_succ_self _) (w.clock w.readings)
  exact expired.weaken h.pending (Nat.le_refl _)

/-! ## The dead -/

theorem cleanUpAll_apply {dead : List Nat} (living : ∀ id ∈ dead, w.exists id = true) (distinct : dead.Nodup) :
    cleanUpAll dead w = ((), { w with cleaned := w.cleaned ++ dead }) := by
  induction dead generalizing w with
  | nil =>
      rw [List.append_nil]
      rfl
  | cons id rest ih =>
      obtain ⟨apart, distinct⟩ := List.nodup_cons.1 distinct
      rw [cleanUpAll, bind_apply, cleanUp, bind_apply, touch_apply (living id List.mem_cons_self), modify_apply]
      rw [ih _ distinct]
      · simp only [List.append_assoc, List.singleton_append]
      · intro other member
        obtain ⟨old, uncleaned, undiscarded⟩ := exists_iff.1 (living other (List.mem_cons_of_mem _ member))
        refine exists_iff.2 ⟨old, ?_, undiscarded⟩
        rw [List.mem_append, List.mem_singleton, not_or]
        refine ⟨uncleaned, ?_⟩
        rintro rfl
        exact apart member

theorem clearDead_apply (h : Sound w.toScene) :
    clearDead w = ((), { w with
      multiplexer := { w.multiplexer with deadSockets := [] }
      cleaned := w.cleaned ++ w.multiplexer.deadSockets }) := by
  rw [clearDead, get_bind, bind_apply, modifyMultiplexer_apply, cleanUpAll_apply]
  · intro id dead
    exact h.living id (isLinked_iff.2 (.inr dead))
  · exact (List.nodup_append.1 h.consistent.distinct).2.1

theorem clearDead_steady (h : Steady b w) (free : b.linked = []) : Steady b (clearDead w).2 := by
  rw [clearDead_apply h.sound]
  refine { h with sound := h.sound.cleaned, linked := fun id member => ?_ }
  rw [free] at member
  cases member

/-- A batch has active sockets only, and they stay linked to its end. -/
theorem handleBatch_steady (h : Steady b w) (available : b.available = true) (free : b.busy = [])
    (none : b.linked = []) (events : List Ready) : Steady b (handleBatch events w).2 := by
  rw [handleBatch, get_bind, bind_apply, readClock_apply, bind_apply]
  have active : ∀ entry ∈ w.batch events, entry.2 ∈ w.multiplexer.activeSockets := by
    intro entry member
    obtain ⟨ready, -, reported⟩ := List.mem_filterMap.1 member
    obtain ⟨⟨registered, id⟩, interest, rfl⟩ := Option.map_eq_some_iff.1 reported
    exact ((h.sound.registered ..).1 interest).1
  have linked : Steady { b with linked := (w.batch events).map Prod.snd } { w with readings := w.readings + 1 } := by
    refine { h with linked := fun id here => ?_ }
    obtain ⟨entry, member, rfl⟩ := List.mem_map.1 here
    exact isLinked_iff.2 (.inl (active entry member))
  have listed : ∀ entry ∈ w.batch events, entry.2 ∈ (w.batch events).map Prod.snd :=
    fun entry member => List.mem_map_of_mem member
  have handled := handleEvents_steady linked available free (w.clock w.readings) listed
  have unlinked : Steady b (handleEvents (w.clock w.readings) (w.batch events)
      { w with readings := w.readings + 1 }).2 :=
    { handled with linked := fun id member => by rw [none] at member; cases member }
  exact clearDead_steady unlinked none

/-! ## The end -/

theorem removeAll_steady {turns : Nat} (h : Steady b w) (available : b.available = true) (free : b.busy = [])
    (enough : b.pending < turns) :
    Steady b (removeAll turns w).2 ∧ (removeAll turns w).2.multiplexer.activeSockets = [] := by
  induction turns generalizing b w with
  | zero => exact absurd enough (Nat.not_lt_zero _)
  | succ turns ih =>
      rw [removeAll, get_bind]
      cases listed : w.multiplexer.activeSockets with
      | nil => exact ⟨h, listed⟩
      | cons id rest =>
          have active : id ∈ w.multiplexer.activeSockets := by
            rw [listed]
            exact List.mem_cons_self
          have removed := remove_steady (handleRemove_keeps w.scripts.length) h active available
          have none : w.busy = [] := h.served.trans free
          have same : { w with busy := w.busy.erase id } = w := by
            rw [none, List.erase_nil, ← none]
          rw [same, free, List.erase_nil] at removed
          have positive : 0 < b.pending := by
            have pending := h.pending
            simp only [World.pending, listed, List.length_cons] at pending
            omega
          have rest := ih removed available rfl (by dsimp only; omega)
          dsimp only
          rw [bind_apply, remove, get_bind]
          refine ⟨?_, rest.2⟩
          have weakened := rest.1.weaken (Nat.sub_le _ _) (Nat.le_refl _)
          rw [← free] at weakened
          exact weakened

/-- Nothing was registered when the descriptor of the epoll instance was closed. -/
theorem Sound.shut (h : Sound w.toScene) (empty : w.multiplexer.activeSockets = []) : Sound (shut w).toScene := by
  have unregistered : w.interest = fun _ => none := by
    funext fd
    refine Option.eq_none_iff_forall_ne_some.2 fun entry registered => ?_
    have active := ((h.registered fd entry.1 entry.2).1 registered).1
    rw [empty] at active
    cases active
  have same : EpollMultiplexer.shut w = { w with multiplexer := { w.multiplexer with hasEvents := false } } := by
    rw [EpollMultiplexer.shut, ← unregistered]
  rw [same]
  exact
    { h with
      configured := ⟨h.configured.idleTimeout, h.configured.tick, h.configured.timers⟩
      consistent := { h.consistent with } }

/-- Nothing is left once the multiplexer is destroyed. -/
theorem destroy_steady (h : Steady b w) (available : b.available = true) (free : b.busy = [])
    (none : b.linked = []) :
    Steady { b with available := false } (destroy w).2 ∧
      (destroy w).2.multiplexer.activeSockets = [] ∧ (destroy w).2.multiplexer.deadSockets = [] := by
  have tight : Steady { b with pending := w.pending } w := { h with pending := Nat.le_refl _ }
  rw [destroy, get_bind, bind_apply]
  obtain ⟨removed, empty⟩ := removeAll_steady tight available free (Nat.lt_succ_self _)
  have removed : Steady b (removeAll (w.pending + 1) w).2 := removed.weaken h.pending (Nat.le_refl _)
  generalize (removeAll (w.pending + 1) w).2 = w₁ at removed empty ⊢
  have cleared : w₁.multiplexer.timingWheel.clear = w₁.multiplexer.timingWheel := by
    refine removed.sound.consistent.filed.clear fun timer => Bool.eq_false_of_not_eq_true fun waits => ?_
    have active := removed.sound.consistent.timers timer waits
    rw [empty] at active
    cases active
  rw [bind_apply, modifyMultiplexer_apply]
  dsimp only
  rw [cleared, bind_apply]
  have dead := clearDead_steady removed none
  have emptied : (clearDead w₁).2.multiplexer.activeSockets = [] ∧ (clearDead w₁).2.multiplexer.deadSockets = [] := by
    rw [clearDead_apply removed.sound]
    exact ⟨empty, rfl⟩
  generalize (clearDead w₁).2 = w₂ at dead emptied ⊢
  rw [get_bind, bind_apply, expect_apply (by simpa using dead.sound.consistent.count), modify_apply]
  exact ⟨{ dead with available := rfl, sound := dead.sound.shut emptied.1 }, emptied⟩

/-! ## The loop -/

/-- `epoll_wait` fails eleven times with no event in between. -/
def givesUp : List Wait → Nat → Bool
  | [], _ => false
  | .ready [] :: rest, errorCount => givesUp rest errorCount
  | .interrupted :: rest, errorCount => givesUp rest errorCount
  | .failed :: rest, errorCount => decide (10 ≤ errorCount) || givesUp rest (errorCount + 1)
  | .ready (_ :: _) :: rest, _ => givesUp rest 0

/-- Nothing has gone wrong, and every callback found everything in agreement. -/
structure Flawless (w : World) : Prop where
  faultless : w.faults = []
  views : ∀ view ∈ w.views, Sound view

/-- No socket is left in a list. -/
structure Finished (w : World) : Prop where
  sound : Sound w.toScene
  active : w.multiplexer.activeSockets = []
  dead : w.multiplexer.deadSockets = []

theorem Steady.flawless (h : Steady b w) : Flawless w := ⟨h.faultless, h.views⟩

/-- The turns of the loop, and what comes after them. -/
theorem run_steady (h : Steady b w) (available : b.available = true) (free : b.busy = []) (none : b.linked = [])
    (waits : List Wait) (errorCount : Nat) :
    Flawless (run waits errorCount w).2 ∧
      (givesUp waits errorCount = false → Finished (run waits errorCount w).2) := by
  induction waits generalizing w errorCount with
  | nil =>
      obtain ⟨destroyed, active, dead⟩ := destroy_steady h available free none
      exact ⟨destroyed.flawless, fun _ => ⟨destroyed.sound, active, dead⟩⟩
  | cons wait rest ih =>
      have checked := checkIdleSockets_steady h available free
      cases wait with
      | ready events =>
          cases events with
          | nil =>
              rw [run, bind_apply]
              exact ih checked errorCount
          | cons ready events =>
              rw [run, bind_apply, bind_apply]
              exact ih (handleBatch_steady checked available free none (ready :: events)) 0
      | interrupted =>
          rw [run, bind_apply]
          exact ih checked errorCount
      | failed =>
          rw [run, bind_apply]
          split
          · rename_i enough
            refine ⟨⟨checked.faultless, checked.views⟩, fun kept => ?_⟩
            rw [givesUp, decide_eq_true enough, Bool.true_or] at kept
            cases kept
          · rename_i few
            obtain ⟨flawless, finished⟩ := ih checked (errorCount + 1)
            refine ⟨flawless, fun kept => finished ?_⟩
            rw [givesUp, decide_eq_false few, Bool.false_or] at kept
            exact kept

/-! ## From the start -/

/-- A thread that has not begun: its multiplexer, the size of the descriptor table, and all that is
decided outside the code. -/
def World.start (multiplexer : EpollMultiplexer) (descriptors : Nat) (outcomes : List Error) (scripts : List Script)
    (clock : Nat → Date) : World :=
  { multiplexer, descriptors, outcomes, scripts, clock }

section start

variable (idleTimeoutMsec maxSockets : Nat) (now : Date) (epoll events eventCache : Bool) {descriptors : Nat}
  (outcomes : List Error) (scripts : List Script) (clock : Nat → Date)

/-- Nothing is linked, timed, registered or cached. -/
theorem start_sound (fits : descriptors ≤ max maxSockets 1) :
    Sound (World.start (create idleTimeoutMsec maxSockets now epoll events eventCache true) descriptors outcomes
      scripts clock).toScene where
  configured := by
    refine ⟨?_, rfl, rfl⟩
    show (if idleTimeoutMsec = 0 then 0 else min (max idleTimeoutMsec MIN_TIMEOUT_MSEC) MAX_TIMEOUT_MSEC) ≤ _
    split
    · exact Nat.zero_le _
    · exact Nat.min_le_right _ _
  consistent := by
    refine ⟨rfl, Nat.zero_le _, .nil, ⟨fun i timer => ?_, fun _ => .nil⟩, fun id waits => ?_⟩
    · refine iff_of_false (List.not_mem_nil) ?_
      rintro ⟨waits, -⟩
      exact absurd waits (show ¬ (0 : Int) ≤ -1 by decide)
    · exact absurd (of_decide_eq_true waits) (show ¬ (0 : Int) ≤ -1 by decide)
  living id linked := by cases linked
  dead id living := absurd (exists_iff.1 living).1 (Nat.not_lt_zero id)
  registered fd events id := by
    refine iff_of_false nofun ?_
    rintro ⟨active, -⟩
    cases active
  unregistered fd _ _ := rfl
  connected id active := by cases active
  unshared id id' fd living := absurd (exists_iff.1 living).1 (Nat.not_lt_zero id)
  bounded id fd living := absurd (exists_iff.1 living).1 (Nat.not_lt_zero id)
  descriptors := fits
  timed id active := by cases active
  busy id busy := by cases busy
  served := .nil
  accounted := .refl _
  destroyedOnce := .nil
  destroyed id destroyed := by cases destroyed

/-- Every socket that was taken in has been destroyed, once, and no list has one. -/
structure CleanedUp (w : World) : Prop where
  active : w.multiplexer.activeSockets = []
  dead : w.multiplexer.deadSockets = []
  count : w.multiplexer.activeSocketCount = 0
  accepted : w.accepted.Perm w.cleaned
  once : (w.cleaned ++ w.discarded).Nodup

theorem Finished.cleanedUp (h : Finished w) : CleanedUp w where
  active := h.active
  dead := h.dead
  count := by
    have count := h.sound.consistent.count
    rwa [h.active] at count
  accepted := by
    have accounted := h.sound.accounted
    rwa [h.active, h.dead, List.append_nil, List.nil_append] at accounted
  once := h.sound.destroyedOnce

/-- **From the start**, through what the application does first and the turns of the loop. -/
theorem start_run (fits : descriptors ≤ max maxSockets 1) (calls : List Call) (waits : List Wait) :
    Flawless ((World.start (create idleTimeoutMsec maxSockets now epoll events eventCache true) descriptors outcomes
        scripts clock).run calls waits) ∧
      ((create idleTimeoutMsec maxSockets now epoll events eventCache true).hasEvents = true →
        givesUp waits 0 = false →
          Finished ((World.start (create idleTimeoutMsec maxSockets now epoll events eventCache true) descriptors
            outcomes scripts clock).run calls waits)) := by
  have sound := start_sound idleTimeoutMsec maxSockets now epoll events eventCache outcomes scripts clock fits
  generalize create idleTimeoutMsec maxSockets now epoll events eventCache true = multiplexer at sound ⊢
  generalize start : World.start multiplexer descriptors outcomes scripts clock = w at sound ⊢
  have begun : Steady { available := multiplexer.hasEvents, pending := w.pending, scripts := w.scripts.length } w := by
    subst start
    exact ⟨sound, rfl, rfl, fun _ member => (nomatch member), rfl, fun _ member => (nomatch member), Nat.le_refl _,
      Nat.le_refl _⟩
  have prepared := performAll_steady (handleRemove_keeps w.scripts.length) begun calls
  rw [World.run]
  generalize (performAll (handleRemove w.scripts.length) calls w).2 = w' at prepared ⊢
  split
  · rename_i available
    have available : multiplexer.hasEvents = true := prepared.available.symm.trans available
    obtain ⟨flawless, finished⟩ := run_steady prepared available rfl rfl waits 0
    exact ⟨flawless, fun _ => finished⟩
  · rename_i unavailable
    exact ⟨prepared.flawless, fun available => absurd (prepared.available.trans available) unavailable⟩

end start

/-! ## A run -/

/-- So many quarters of a second. -/
def quarters (n : Nat) : Date := ⟨n / 4 % 2 ^ 32, n % 4 * 250000, Nat.mod_lt _ (by decide), by omega⟩

/-- A connection is accepted; a socket that is served removes another, whose event is still to come, and
that one adds a third while it is removed. -/
def fiveSockets : World :=
  World.start (create 1000 8 (quarters 0) true true true true) 8 []
    [⟨[.construct 6 { wantRead := true }, .add 3], .again⟩, ⟨[], .success⟩,
      ⟨[.remove 2, .want 1 false false true true], .again⟩,
      ⟨[.close 2, .construct 5 { wantWrite := true }, .add 4], .success⟩, ⟨[], .again⟩, ⟨[.discard 5], .success⟩]
    quarters

def threeAdded : List Call :=
  [.construct 3 { wantAccept := true, permanent := true }, .add 0, .construct 4 { wantRead := true }, .add 1,
    .construct 5 { wantConnect := true }, .add 2]

/-- The others become idle. -/
def sixWaits : List Wait :=
  [.ready [⟨3, EPOLLIN, 0⟩, ⟨4, EPOLLIN, 0⟩, ⟨5, EPOLLERR, 0⟩], .interrupted, .ready [⟨4, EPOLLOUT, 0⟩], .failed,
    .ready [], .ready [⟨6, EPOLLHUP, 0⟩]]

-- the cache has no room for a descriptor beyond the limit, and a wheel that got no memory no slots
example : ((World.start (create 0 1 (quarters 0) true true true true) 2 [] [] quarters).run
    [.construct 1 {}, .add 0] []).faults = [.overrun, .overrun] := by
  decide +kernel

example : ((World.start (create 0 1 (quarters 0) true true true false) 1 [] [] quarters).run []
    [.interrupted, .interrupted]).faults = [.nullDereference] := by
  decide +kernel

end EpollMultiplexer

end Everscale
