/-
# Everscale.Base.EpollTurns -- the multiplexer between its turns

`run` alternates the expiry of idle sockets with batches of events.  Here they come in any order, with calls
of the application in between, and every callback calls back as it likes: as long as each descriptor has
its entry in the event cache, the lists, the count and the timers agree after each turn and whenever a
socket is called back, no access lies outside the cache, and every socket that was added is in one
list until it is cleaned up (`takeAll_orderly`).
-/
import Everscale.Base.EpollRun

namespace Everscale

set_option autoImplicit false

namespace EpollMultiplexer

/-- What happens between two waits: a call of the application, or a part of `run`. -/
inductive Turn where
  | call (call : Call)
  | expire
  | events (events : List Ready)
  | destroy
  deriving DecidableEq, Repr

/-- A multiplexer without its arrays has no thread. -/
def take : Turn → Program Unit
  | .call call => do perform (handleRemove (← get).scripts.length) call
  | .expire => do if (← get).multiplexer.hasEvents then checkIdleSockets
  | .events events => do if (← get).multiplexer.hasEvents then handleBatch events
  | .destroy => do if (← get).multiplexer.hasEvents then destroy

def takeAll : List Turn → Program Unit
  | [] => return ()
  | turn :: turns => do
      take turn
      takeAll turns

/-- The count, the lists and the timers agree, and a socket that was added is active, dead or cleaned up. -/
structure Agrees (w : Scene) : Prop where
  count : w.multiplexer.activeSocketCount = w.multiplexer.activeSockets.length
  limit : w.multiplexer.activeSockets.length ≤ w.multiplexer.maxSockets
  added : w.accepted.Perm (w.multiplexer.activeSockets ++ w.multiplexer.deadSockets ++ w.cleaned)
  once : (w.multiplexer.activeSockets ++ w.multiplexer.deadSockets ++ w.cleaned).Nodup
  timers : ∀ id, w.isTimed id = true → id ∈ w.multiplexer.activeSockets

/-- So it is now and was in every callback, every index of the cache was below its size, and if the thread
ends now, it has cleaned up every socket that was added, once. -/
structure Orderly (w : World) : Prop where
  now : Agrees w.toScene
  views : ∀ view ∈ w.views, Agrees view
  indexed : Fault.overrun ∉ w.faults
  ends : w.multiplexer.hasEvents = true → CleanedUp (take .destroy w).2

theorem Sound.agrees {w : Scene} (h : Sound w) : Agrees w where
  count := h.consistent.count
  limit := h.consistent.limit
  added := h.accounted
  once := by
    refine List.nodup_append.2 ⟨h.consistent.distinct, (List.nodup_append.1 h.destroyedOnce).1, ?_⟩
    rintro id linked _ cleaned rfl
    have living := h.living id (isLinked_iff.2 (List.mem_append.1 linked))
    exact (exists_iff.1 living).2.1 cleaned
  timers := h.consistent.timers

/-- What holds between the turns. -/
def Calm (w : World) : Prop :=
  Steady { available := w.multiplexer.hasEvents, pending := w.pending, scripts := w.scripts.length } w

variable {w : World}

theorem Steady.calm {b : Bounds} (h : Steady b w) (free : b.busy = []) : Calm w :=
  ⟨h.sound, rfl, h.served.trans free, fun _ member => (nomatch member), h.faultless, h.views, Nat.le_refl _,
    Nat.le_refl _⟩

theorem Calm.take (h : Calm w) (turn : Turn) : Calm (take turn w).2 := by
  cases turn with
  | call call =>
      rw [EpollMultiplexer.take, get_bind]
      exact (perform_steady (handleRemove_keeps w.scripts.length) h call).calm rfl
  | expire =>
      rw [EpollMultiplexer.take, get_bind]
      split
      · rename_i available
        exact (checkIdleSockets_steady h available rfl).calm rfl
      · exact h
  | events events =>
      rw [EpollMultiplexer.take, get_bind]
      split
      · rename_i available
        exact (handleBatch_steady h available rfl rfl events).calm rfl
      · exact h
  | destroy =>
      rw [EpollMultiplexer.take, get_bind]
      split
      · rename_i available
        exact (destroy_steady h available rfl rfl).1.calm rfl
      · exact h

theorem Calm.takeAll (h : Calm w) (turns : List Turn) : Calm (takeAll turns w).2 := by
  induction turns generalizing w with
  | nil => exact h
  | cons turn turns ih =>
      rw [EpollMultiplexer.takeAll, bind_apply]
      exact ih (h.take turn)

theorem Calm.orderly (h : Calm w) : Orderly w where
  now := h.sound.agrees
  views view member := (h.views view member).agrees
  indexed := by
    rw [h.faultless]
    exact List.not_mem_nil
  ends := by
    intro available
    rw [EpollMultiplexer.take, get_bind, if_pos available]
    obtain ⟨destroyed, active, dead⟩ := destroy_steady h available rfl rfl
    exact Finished.cleanedUp ⟨destroyed.sound, active, dead⟩

section start

variable (idleTimeoutMsec maxSockets : Nat) (now : Date) (epoll events eventCache : Bool) {descriptors : Nat}
  (outcomes : List Error) (scripts : List Script) (clock : Nat → Date)

theorem start_calm (fits : descriptors ≤ max maxSockets 1) :
    Calm (World.start (create idleTimeoutMsec maxSockets now epoll events eventCache true) descriptors outcomes scripts
      clock) :=
  ⟨start_sound idleTimeoutMsec maxSockets now epoll events eventCache outcomes scripts clock fits, rfl, rfl,
    fun _ member => (nomatch member), rfl, fun _ member => (nomatch member), Nat.le_refl _, Nat.le_refl _⟩

end start

/-- The sockets become idle one after another, and the application calls in between. -/
def manyTurns : List Turn :=
  threeAdded.map .call ++
    [.expire, .events [⟨3, EPOLLIN, 0⟩, ⟨4, EPOLLIN, 0⟩, ⟨5, EPOLLERR, 0⟩], .call (.update 3), .expire,
      .events [⟨4, EPOLLOUT, 0⟩], .expire, .events [⟨3, EPOLLIN, 0⟩], .expire]

end EpollMultiplexer

end Everscale
