/-
# Everscale.Base.SharedEmbeddedQueue -- a queue that threads wait on, and that can be stopped

`push` links the element behind the others under the mutex and signals once it has released it;
`pop` sleeps until there is an element or the queue is stopped; `stop` clears the list and
broadcasts, again with the mutex released.  `Step` is one move of one thread, with a section under
the mutex as one move and everything between two sections left to the scheduler.

The links are in the elements.  Those of the elements in the queue are the queue's; all others
belong to the threads outside, which may change them at any time (`outside`).  An element that comes
to the list is in no list then (`CarefulStep`); `addLast` asserts what it can see of that.

The mutex and the condition variable are those the constructor made: signals and broadcasts
do not fail, and a sleeper may wake for no reason (`pthread_cond_wait` may also return
`ESB_INTR`, which the loop treats the same).  A lock or a wait that is refused returns its
error; the refused wait returns with the mutex held (`locked`), as `pop` does not unlock there.
-/
import Everscale.Base.EmbeddedList
import Everscale.Base.Error
import Everscale.Theory.Interleaving
import Mathlib.Logic.Function.Basic
import Mathlib.Tactic.Common

namespace Everscale

set_option autoImplicit false

open Theory (Run Signals Backed DoublyLinked)

variable {ι : Type}

/-- `ESB::SharedEmbeddedQueue`; its list comes with the links of all elements. -/
structure SharedEmbeddedQueue where
  isStopped : Bool := false
  list : EmbeddedList := {}

namespace SharedEmbeddedQueue

/-! ## What is done under the mutex -/

/-- No result where an assertion fails or a null pointer is followed, as in the operations of the list. -/
def push (debug : Bool) (q : SharedEmbeddedQueue) (element : Option EmbeddedListElement) :
    Option (Error × SharedEmbeddedQueue) :=
  if q.isStopped then some (.shutdown, q)
  else (q.list.addLast debug element).map fun list => (.success, { q with list := list })

/-- One turn of the loop: what `pop` returns, if it does not wait. -/
def pop (debug : Bool) (elements : Nat) (q : SharedEmbeddedQueue) :
    Option (Option (Option EmbeddedListElement × Error) × SharedEmbeddedQueue) :=
  if q.isStopped then some (some (none, .shutdown), q)
  else (q.list.removeFirst debug elements).map fun (tmp, list) =>
    (tmp.map fun element => (some element, .success), { q with list := list })

/-- With the elements whose cleanup handlers destroy them. -/
def stop (debug : Bool) (elements : Nat) (handled : EmbeddedListElement → Bool) (q : SharedEmbeddedQueue) :
    Option (List EmbeddedListElement × SharedEmbeddedQueue) :=
  (q.list.clear debug elements handled).map fun (destroyed, list) =>
    (destroyed, { isStopped := true, list := list })

/-! ### What the queue is for -/

/-- The queue without links: its elements from the first to the last. -/
structure Contents where
  isStopped : Bool := false
  list : List EmbeddedListElement := []
  deriving DecidableEq

/-- The links are those of the contents, which are elements constructed so far. -/
structure Agrees (q : SharedEmbeddedQueue) (elements : Nat) (c : Contents) : Prop where
  stopped : q.isStopped = c.isStopped
  holds : q.list.Holds c.list
  made : ∀ e ∈ c.list, e < elements

section

variable {q : SharedEmbeddedQueue} {elements : Nat} {c : Contents} {e : EmbeddedListElement} {debug : Bool}

theorem Agrees.enough (h : q.Agrees elements c) : c.list.length ≤ elements := by
  have sub : c.list ⊆ List.range elements := fun e member => List.mem_range.2 (h.made e member)
  have le := (List.subperm_of_subset h.holds.linked.nodup sub).length_le
  rwa [List.length_range] at le

theorem Agrees.push_running (debug : Bool) (h : q.Agrees elements c) (running : q.isStopped = false) (made : e < elements)
    (loose : q.list.Loose e) (new : e ∉ c.list) :
    ∃ queue, q.push debug (some e) = some (.success, queue) ∧ queue.Agrees elements ⟨false, c.list ++ [e]⟩ := by
  obtain ⟨list, done, holds, _⟩ := h.holds.addLast new loose debug
  refine ⟨{ q with list := list }, ?_, running, holds, ?_⟩
  · unfold push
    rw [running, done]
    rfl
  · intro a member
    rcases List.mem_append.1 member with old | last
    · exact h.made a old
    · rw [List.mem_singleton.1 last]
      exact made

theorem push_stopped (stopped : q.isStopped = true) (element : Option EmbeddedListElement) :
    q.push debug element = some (.shutdown, q) := if_pos stopped

theorem push_running {queue : SharedEmbeddedQueue} {element : Option EmbeddedListElement} {error : Error}
    (running : q.isStopped = false) (h : q.push debug element = some (error, queue)) : error = .success := by
  rw [push, running] at h
  obtain ⟨list, -, same⟩ := Option.map_eq_some_iff.1 h
  exact (congrArg Prod.fst same).symm

/-- `pop` returns nothing from a stopped queue, waits on an empty list, and takes the first element. -/
theorem Agrees.pop_cases (debug : Bool) (h : q.Agrees elements c) :
    (c.isStopped = true ∧ q.pop debug elements = some (some (none, .shutdown), q)) ∨
    (c = ⟨false, []⟩ ∧ q.pop debug elements = some (none, q)) ∨
    ∃ e rest queue, c = ⟨false, e :: rest⟩ ∧ q.pop debug elements = some (some (some e, .success), queue) ∧
      queue.Agrees elements ⟨false, rest⟩ := by
  have enough := h.enough
  obtain ⟨stopped, list⟩ := c
  cases stopped with
  | true => exact .inl ⟨rfl, if_pos h.stopped⟩
  | false =>
      have running : q.isStopped = false := h.stopped
      have turn : q.pop debug elements = (q.list.removeFirst debug elements).map fun (tmp, list) =>
          (tmp.map fun element => (some element, .success), { q with list := list }) :=
        if_neg (by rw [running]; decide)
      cases list with
      | nil =>
          have head : q.list.head = none := h.holds.linked.head_eq
          refine .inr (.inl ⟨rfl, ?_⟩)
          rw [turn, EmbeddedList.removeFirst, head]
          rfl
      | cons e rest =>
          have whole : q.list.Holds ([] ++ e :: rest) := h.holds
          refine .inr (.inr ⟨e, rest, { q with list := q.list.unlink e }, rfl, ?_, running, whole.unlink.1, ?_⟩)
          · rw [turn, h.holds.removeFirst enough debug]
            rfl
          · intro a member
            exact h.made a (List.mem_cons_of_mem e member)

theorem Agrees.stop (debug : Bool) (h : q.Agrees elements c) (handled : EmbeddedListElement → Bool) :
    ∃ queue, q.stop debug elements handled = some (c.list.filter handled, queue) ∧
      queue.Agrees elements ⟨true, []⟩ := by
  obtain ⟨list, done, empty, _⟩ := h.holds.clearLoop h.enough h.enough handled debug
  refine ⟨⟨true, list⟩, ?_, rfl, empty, fun _ member => absurd member List.not_mem_nil⟩
  unfold SharedEmbeddedQueue.stop EmbeddedList.clear
  rw [done]
  rfl

/-- Links of elements that are not in the queue are not the queue's. -/
theorem Agrees.outside (h : q.Agrees elements c) {made : Nat} (le : elements ≤ made) {list : EmbeddedList}
    (head : list.head = q.list.head) (tail : list.tail = q.list.tail)
    (same : ∀ a ∈ c.list, list.next a = q.list.next a ∧ list.previous a = q.list.previous a) :
    Agrees { q with list := list } made c where
  stopped := h.stopped
  holds := by
    refine ⟨?_, tail.trans h.holds.tail_eq⟩
    show DoublyLinked list.next list.previous list.head c.list
    rw [head]
    exact h.holds.linked.congr (fun a member => (same a member).1) fun a member => (same a member).2
  made := fun a member => lt_of_lt_of_le (h.made a member) le

end

/-! ## The threads -/

/-- Where a thread is: outside, in front of a section, asleep, or about to tell the sleepers. -/
inductive Place where
  | idle
  | pushes (element : Option EmbeddedListElement)
  | signals
  | pops
  | waits
  | woken
  | stops
  | broadcasts
  deriving DecidableEq, Repr

def Place.sleeps : Place → Bool
  | .waits => true
  | _ => false

/-- On its way to an element, or to telling a sleeper of one. -/
def Place.helps : Place → Prop
  | .woken | .signals => True
  | _ => False

/-- What a call comes to, and what a stop throws away and destroys; a section without a result ends
the process. -/
inductive Event (ι : Type) where
  | push (thread : ι) (element : Option EmbeddedListElement) (result : Error)
  | pop (thread : ι) (element : Option EmbeddedListElement) (result : Error)
  | stop (thread : ι) (discarded destroyed : List EmbeddedListElement)
  | abort (thread : ι) (place : Place)
  deriving DecidableEq, Repr

namespace Event

def Stops : Event ι → Prop
  | .stop _ _ _ => True
  | _ => False

/-- The push puts its element in, or the pop comes back with one. -/
def Succeeds : Event ι → Prop
  | .push _ _ result => result = .success
  | .pop _ element _ => element ≠ none
  | _ => False

def pushed : Event ι → Option EmbeddedListElement
  | .push _ element result => if result = .success then element else none
  | _ => none

def popped : Event ι → Option EmbeddedListElement
  | .pop _ element _ => element
  | _ => none

def discarded : Event ι → List EmbeddedListElement
  | .stop _ elements _ => elements
  | _ => []

/-- Nothing goes in or comes out. -/
def Idle (e : Event ι) : Prop :=
  e.pushed = none ∧ e.popped = none ∧ e.discarded = [] ∧ ¬ e.Stops ∧ ¬ e.Succeeds

/-- The section has a result, and a stop destroys what it discards where there is a handler. -/
def Ends (handled : EmbeddedListElement → Bool) : Event ι → Prop
  | .stop _ discarded destroyed => destroyed = discarded.filter handled
  | .abort _ _ => False
  | _ => True

end Event

/-- The queue, the number of elements constructed so far, and the threads. -/
structure Shared (ι : Type) where
  queue : SharedEmbeddedQueue := {}
  elements : Nat := 0
  locked : Bool := false
  place : ι → Place := fun _ => .idle

namespace Shared

/-- The elements that a walk from the head visits. -/
def nodes (s : Shared ι) : List EmbeddedListElement :=
  DoublyLinked.walk s.queue.list.next s.elements s.queue.list.head

variable [DecidableEq ι]

def move (s : Shared ι) (t : ι) (p : Place) : Shared ι :=
  { s with place := Function.update s.place t p }

def wake (s : Shared ι) (wakes : ι → Bool) : Shared ι :=
  { s with place := fun t => if wakes t then .woken else s.place t }

/-- One move of one thread. -/
inductive Step (debug : Bool) (handled : EmbeddedListElement → Bool) :
    Shared ι → List (Event ι) → Shared ι → Prop where
  /-- Elements are constructed, put into other lists, and taken out of them. -/
  | outside {s} (elements : Nat) (list : EmbeddedList) : s.elements ≤ elements →
      list.head = s.queue.list.head → list.tail = s.queue.list.tail →
      (∀ a ∈ s.nodes, list.next a = s.queue.list.next a ∧ list.previous a = s.queue.list.previous a) →
      Step debug handled s [] { s with elements := elements, queue := { s.queue with list := list } }
  | callPush {s} (t : ι) (element : Option EmbeddedListElement) : s.place t = .idle →
      Step debug handled s [] (s.move t (.pushes element))
  | callPop {s} (t : ι) : s.place t = .idle → Step debug handled s [] (s.move t .pops)
  | callStop {s} (t : ι) : s.place t = .idle → Step debug handled s [] (s.move t .stops)
  | refusePush {s} (t : ι) (element : Option EmbeddedListElement) (error : Error) :
      s.place t = .pushes element → error ≠ .success →
      Step debug handled s [.push t element error] (s.move t .idle)
  | refusePop {s} (t : ι) (error : Error) : s.place t = .pops → error ≠ .success →
      Step debug handled s [.pop t none error] (s.move t .idle)
  | push {s} (t : ι) (element : Option EmbeddedListElement) {queue} : s.place t = .pushes element →
      s.locked = false → s.queue.push debug element = some (.success, queue) →
      Step debug handled s [.push t element .success] { s.move t .signals with queue := queue }
  | pushFails {s} (t : ι) (element : Option EmbeddedListElement) {error queue} :
      s.place t = .pushes element → s.locked = false →
      s.queue.push debug element = some (error, queue) → error ≠ .success →
      Step debug handled s [.push t element error] { s.move t .idle with queue := queue }
  | pushAborts {s} (t : ι) (element : Option EmbeddedListElement) : s.place t = .pushes element →
      s.locked = false → s.queue.push debug element = none →
      Step debug handled s [.abort t (.pushes element)] { s with locked := true }
  | signal {s} (t : ι) (wakes : ι → Bool) : s.place t = .signals →
      Signals (fun u => (s.place u).sleeps = true) wakes →
      Step debug handled s [] ((s.wake wakes).move t .idle)
  | pop {s} (t : ι) {element error queue} : s.place t = .pops ∨ s.place t = .woken →
      s.locked = false → s.queue.pop debug s.elements = some (some (element, error), queue) →
      Step debug handled s [.pop t element error] { s.move t .idle with queue := queue }
  | wait {s} (t : ι) {queue} : s.place t = .pops ∨ s.place t = .woken → s.locked = false →
      s.queue.pop debug s.elements = some (none, queue) →
      Step debug handled s [] { s.move t .waits with queue := queue }
  | refuseWait {s} (t : ι) (error : Error) {queue} : s.place t = .pops ∨ s.place t = .woken →
      s.locked = false → s.queue.pop debug s.elements = some (none, queue) →
      error ≠ .success → error ≠ .intr →
      Step debug handled s [.pop t none error] { s.move t .idle with queue := queue, locked := true }
  | popAborts {s} (t : ι) : s.place t = .pops ∨ s.place t = .woken → s.locked = false →
      s.queue.pop debug s.elements = none →
      Step debug handled s [.abort t .pops] { s with locked := true }
  | wakeUp {s} (t : ι) : s.place t = .waits → Step debug handled s [] (s.move t .woken)
  | stop {s} (t : ι) {destroyed queue} : s.place t = .stops → s.locked = false →
      s.queue.stop debug s.elements handled = some (destroyed, queue) →
      Step debug handled s [.stop t s.nodes destroyed] { s.move t .broadcasts with queue := queue }
  | stopAborts {s} (t : ι) : s.place t = .stops → s.locked = false →
      s.queue.stop debug s.elements handled = none →
      Step debug handled s [.abort t .stops] { s with locked := true }
  | broadcast {s} (t : ι) : s.place t = .broadcasts →
      Step debug handled s [] ((s.wake fun u => (s.place u).sleeps).move t .idle)

/-- The element is constructed and in no list. -/
def Free (s : Shared ι) (element : Option EmbeddedListElement) : Prop :=
  ∃ e, element = some e ∧ e < s.elements ∧ s.queue.list.Loose e ∧ e ∉ s.nodes

/-- An element that a push brings to the list is in no list then. -/
def Careful (s : Shared ι) : Event ι → Prop
  | .push _ element result => result = .success → s.Free element
  | .abort _ (.pushes element) => s.Free element
  | _ => True

def CarefulStep (debug : Bool) (handled : EmbeddedListElement → Bool) (s : Shared ι) (seen : List (Event ι))
    (s' : Shared ι) : Prop :=
  Step debug handled s seen s' ∧ ∀ e ∈ seen, s.Careful e

/-- The runs of a queue that has just been constructed. -/
abbrev Reached (debug : Bool) (handled : EmbeddedListElement → Bool) (events : List (Event ι)) (s : Shared ι) : Prop :=
  Run (CarefulStep debug handled) {} events s

end Shared

/-! ## The contents, one event after another -/

variable {seen events : List (Event ι)} {handled : EmbeddedListElement → Bool}

/-- What the steps do to the contents: one operation at a time, or none. -/
inductive Effect (handled : EmbeddedListElement → Bool) : Contents → List (Event ι) → Contents → Prop where
  | nothing {c seen} : (∀ e ∈ seen, e.Idle ∧ e.Ends handled) → Effect handled c seen c
  | push {t e list} : Effect handled ⟨false, list⟩ [.push t (some e) .success] ⟨false, list ++ [e]⟩
  | pop {t e rest} : Effect handled ⟨false, e :: rest⟩ [.pop t (some e) .success] ⟨false, rest⟩
  | stop {t stopped list} :
      Effect handled ⟨stopped, list⟩ [.stop t list (list.filter handled)] ⟨true, []⟩

theorem idle_push {t : ι} {element : Option EmbeddedListElement} {error : Error} (fails : error ≠ .success) :
    (Event.push t element error).Idle := ⟨if_neg fails, rfl, rfl, id, fails⟩

theorem idle_pop {t : ι} {error : Error} : (Event.pop t none error).Idle :=
  ⟨rfl, rfl, rfl, id, fun some => some rfl⟩

/-- What has gone in has come out, was thrown away by a stop, or is still there, in this order;
nothing goes in or comes out once the queue is stopped; and every section has had a result. -/
structure InOrder (handled : EmbeddedListElement → Bool) (events : List (Event ι)) (c : Contents) : Prop where
  order : events.filterMap Event.popped ++ events.flatMap Event.discarded ++ c.list =
    events.filterMap Event.pushed
  running : c.isStopped = false → ∀ e ∈ events, ¬ e.Stops
  stopped : c.isStopped = true → c.list = []
  after : events.Pairwise fun e later => e.Stops → ¬ later.Succeeds
  ends : ∀ e ∈ events, e.Ends handled

theorem discarded_of_running (h : ∀ e ∈ events, ¬ e.Stops) : events.flatMap Event.discarded = [] := by
  refine List.flatMap_eq_nil_iff.mpr fun e member => ?_
  cases e with
  | push | pop | abort => rfl
  | stop => exact absurd trivial (h _ member)

theorem nothing_of_idle (idle : ∀ e ∈ seen, e.Idle) : seen.filterMap Event.popped = [] ∧
    seen.flatMap Event.discarded = [] ∧ seen.filterMap Event.pushed = [] :=
  ⟨List.filterMap_eq_nil_iff.mpr fun e member => (idle e member).2.1,
    List.flatMap_eq_nil_iff.mpr fun e member => (idle e member).2.2.1,
    List.filterMap_eq_nil_iff.mpr fun e member => (idle e member).1⟩

theorem pairwise_of_running {e : Event ι} (running : ∀ e ∈ events, ¬ e.Stops) :
    (events ++ [e]).Pairwise fun e later => e.Stops → ¬ later.Succeeds := by
  refine List.pairwise_append.mpr ⟨?_, List.pairwise_singleton _ _, ?_⟩
  · exact List.pairwise_of_forall_mem_list fun e member _ _ stops => absurd stops (running e member)
  · exact fun e member _ _ stops => absurd stops (running e member)

theorem ends_append (ends : ∀ e ∈ events, e.Ends handled) (new : ∀ e ∈ seen, e.Ends handled) :
    ∀ e ∈ events ++ seen, e.Ends handled := by
  intro e member
  exact (List.mem_append.1 member).elim (ends e) (new e)

theorem running_append {last : Event ι} (running : ∀ e ∈ events, ¬ e.Stops) (new : ¬ last.Stops) :
    ∀ e ∈ events ++ [last], ¬ e.Stops := by
  intro e member
  rcases List.mem_append.mp member with member | member
  · exact running e member
  · rw [List.mem_singleton.mp member]
    exact new

theorem InOrder.effect {c c' : Contents} (h : InOrder handled events c) (effect : Effect handled c seen c') :
    InOrder handled (events ++ seen) c' := by
  cases effect with
  | nothing idle =>
      obtain ⟨popped, discarded, pushed⟩ := nothing_of_idle fun e member => (idle e member).1
      refine ⟨?_, ?_, h.stopped, ?_, ends_append h.ends fun e member => (idle e member).2⟩
      · simpa [popped, discarded, pushed] using h.order
      · intro running e member
        rcases List.mem_append.mp member with member | member
        · exact h.running running e member
        · exact (idle e member).1.2.2.2.1
      · refine List.pairwise_append.mpr ⟨h.after, ?_, fun _ _ later member _ =>
          (idle later member).1.2.2.2.2⟩
        exact List.pairwise_of_forall_mem_list fun e _ later member _ => (idle later member).1.2.2.2.2
  | push =>
      have running := h.running rfl
      have order := h.order
      refine ⟨?_, fun _ => running_append running id, (fun stopped => absurd stopped Bool.false_ne_true),
        pairwise_of_running running, ends_append h.ends (by simp [Event.Ends])⟩
      simp only [discarded_of_running running] at order
      simp [discarded_of_running running, Event.pushed, Event.popped, Event.discarded, ← order]
  | pop =>
      have running := h.running rfl
      have order := h.order
      refine ⟨?_, fun _ => running_append running id, (fun stopped => absurd stopped Bool.false_ne_true),
        pairwise_of_running running, ends_append h.ends (by simp [Event.Ends])⟩
      simp only [discarded_of_running running] at order
      simp [discarded_of_running running, Event.pushed, Event.popped, Event.discarded, ← order]
  | stop =>
      refine ⟨?_, (fun running => absurd running.symm Bool.false_ne_true), fun _ => rfl, ?_,
        ends_append h.ends (by simp [Event.Ends])⟩
      · simpa [List.filterMap_cons, Event.pushed, Event.popped, Event.discarded] using h.order
      · refine List.pairwise_append.mpr ⟨h.after, List.pairwise_singleton _ _, ?_⟩
        intro e _ later member _
        obtain rfl := List.mem_singleton.mp member
        exact id

theorem inOrder_nil : InOrder handled ([] : List (Event ι)) {} :=
  ⟨rfl, fun _ _ member => absurd member List.not_mem_nil, fun _ => rfl, .nil,
    fun _ member => absurd member List.not_mem_nil⟩

/-! ## The threads around it -/

namespace Shared

theorem wake_place (s : Shared ι) (wakes : ι → Bool) (u : ι) :
    (s.wake wakes).place u = if wakes u = true then .woken else s.place u := rfl

/-- Somebody sleeps. -/
def Asleep (s : Shared ι) : Prop := ∃ t, (s.place t).sleeps = true

/-- Whoever sleeps will be told: of every element in the list by a thread of its own, and of a
stop by the thread that stopped the queue. -/
structure Told (s : Shared ι) (c : Contents) : Prop where
  backed : s.Asleep → Backed (fun t => (s.place t).helps) c.list.length
  stopped : s.Asleep → c.isStopped = true → ∃ t, s.place t = .broadcasts

theorem told_idle : Told ({} : Shared ι) {} where
  backed := by
    rintro ⟨_, sleeps⟩
    cases sleeps
  stopped := by
    rintro ⟨_, sleeps⟩
    cases sleeps

variable [DecidableEq ι] {s s' : Shared ι} {t : ι} {p : Place} {c : Contents} {debug : Bool}

@[simp] theorem move_queue : (s.move t p).queue = s.queue := rfl

@[simp] theorem move_elements : (s.move t p).elements = s.elements := rfl

@[simp] theorem move_self : (s.move t p).place t = p := Function.update_self ..

@[simp] theorem move_other {u : ι} (ne : u ≠ t) : (s.move t p).place u = s.place u :=
  Function.update_of_ne ne ..

/-- A move that wakes nobody, of a thread that does not go to sleep. -/
theorem asleep_of_move (awake : p.sleeps = false) (asleep : (s.move t p).Asleep) : s.Asleep := by
  obtain ⟨u, sleeps⟩ := asleep
  rcases eq_or_ne u t with rfl | ne
  · rw [move_self, awake] at sleeps
    cases sleeps
  · exact ⟨u, move_other ne ▸ sleeps⟩

theorem broadcasts_of_move (other : s.place t ≠ .broadcasts) (told : ∃ u, s.place u = .broadcasts) :
    ∃ u, (s.move t p).place u = .broadcasts := by
  obtain ⟨u, broadcasts⟩ := told
  have ne : u ≠ t := fun same => other (same ▸ broadcasts)
  exact ⟨u, (move_other ne).trans broadcasts⟩

theorem helps_of_move {u : ι} (ne : u ≠ t) (helps : (s.place u).helps) : ((s.move t p).place u).helps := by
  rwa [move_other ne]

/-- A thread that did not help moves on, and stays awake. -/
theorem Told.moved (h : Told s c) (awake : p.sleeps = false) (helpless : ¬ (s.place t).helps)
    (other : s.place t ≠ .broadcasts) : Told (s.move t p) c where
  backed asleep := (h.backed (asleep_of_move awake asleep)).imp fun _ helps =>
    helps_of_move (fun same => helpless (same ▸ helps)) helps
  stopped asleep stopped :=
    broadcasts_of_move other (h.stopped (asleep_of_move awake asleep) stopped)

theorem signals_asleep {wakes : ι → Bool} {u : ι} (awake : p.sleeps = false)
    (sleeps : (((s.wake wakes).move t p).place u).sleeps = true) : (s.place u).sleeps = true := by
  rcases eq_or_ne u t with rfl | ne
  · rw [move_self, awake] at sleeps
    cases sleeps
  · rw [move_other ne, wake_place] at sleeps
    split at sleeps
    · cases sleeps
    · exact sleeps

/-- The thread that pushed stands for its element until it has signalled. -/
theorem Told.pushed {element : Option EmbeddedListElement} {e : EmbeddedListElement} (h : Told s c)
    (pushes : s.place t = .pushes element) : Told (s.move t .signals) ⟨false, c.list ++ [e]⟩ := by
  refine ⟨fun asleep => ?_, fun _ stopped => absurd stopped Bool.false_ne_true⟩
  have backed := h.backed (asleep_of_move rfl asleep)
  rw [List.length_append]
  refine backed.gain (i := t) (by simp [pushes, Place.helps]) (by simp [Place.helps]) ?_
  intro u helps
  exact helps_of_move (fun same => by simp [same, pushes, Place.helps] at helps) helps

/-- The sleeper that is told takes over the part of the thread that tells it. -/
theorem Told.signalled {wakes : ι → Bool} (h : Told s c) (signals : s.place t = .signals)
    (chosen : Signals (fun u => (s.place u).sleeps = true) wakes) : Told ((s.wake wakes).move t .idle) c := by
  have woken : ∀ u, u ≠ t → (s.place u).sleeps = false →
      ((s.wake wakes).move t .idle).place u = s.place u := by
    intro u ne awake
    rw [move_other ne]
    refine if_neg fun wakes => ?_
    exact absurd (awake.symm.trans (chosen.asleep u wakes)) (by decide)
  refine ⟨fun ⟨u, sleeps⟩ => ?_, fun ⟨u, sleeps⟩ stopped => ?_⟩
  · have asleep : s.Asleep := ⟨u, signals_asleep rfl sleeps⟩
    obtain ⟨told, wakes⟩ := chosen.some asleep
    have slept := chosen.asleep told wakes
    have ne : told ≠ t := fun same => by simp [same, signals, Place.sleeps] at slept
    refine (h.backed asleep).handOver t (j := told) (fun helps => ?_) ?_ ?_
    · revert helps slept
      cases s.place told <;> simp [Place.helps, Place.sleeps]
    · rw [move_other ne, wake_place, if_pos wakes]
      trivial
    · intro k ne helps
      have awake : (s.place k).sleeps = false := by
        revert helps
        cases s.place k <;> simp [Place.helps, Place.sleeps]
      exact (woken k ne awake).symm ▸ helps
  · obtain ⟨k, broadcasts⟩ := h.stopped ⟨u, signals_asleep rfl sleeps⟩ stopped
    have ne : k ≠ t := fun same => by simp [← same, broadcasts] at signals
    exact ⟨k, (woken k ne (by simp [broadcasts, Place.sleeps])).trans broadcasts⟩

omit [DecidableEq ι] in
/-- Nobody is owed anything where nothing is queued and the queue is running. -/
theorem told_empty (s : Shared ι) : Told s ⟨false, []⟩ :=
  ⟨fun _ => .zero, fun _ stopped => absurd stopped Bool.false_ne_true⟩

theorem Told.popped {e : EmbeddedListElement} {rest : List EmbeddedListElement} (h : Told s ⟨false, e :: rest⟩) :
    Told (s.move t .idle) ⟨false, rest⟩ := by
  refine ⟨fun asleep => ?_, fun _ stopped => absurd stopped Bool.false_ne_true⟩
  exact (h.backed (asleep_of_move rfl asleep)).lose t fun _ ne helps => helps_of_move ne helps

theorem told_broadcast : Told ((s.wake fun u => (s.place u).sleeps).move t .idle) c := by
  have nobody : ¬ ((s.wake fun u => (s.place u).sleeps).move t .idle).Asleep := by
    rintro ⟨u, sleeps⟩
    have slept := signals_asleep rfl sleeps
    by_cases same : u = t
    · rw [same, move_self] at sleeps
      cases sleeps
    · rw [move_other same, wake_place, if_pos slept] at sleeps
      cases sleeps
  exact ⟨fun asleep => absurd asleep nobody, fun asleep => absurd asleep nobody⟩

/-! ### Runs -/

/-- After a careful run there are contents that the links agree with, which the events account for and
which every sleeper will be told of. -/
structure Held (handled : EmbeddedListElement → Bool) (events : List (Event ι)) (s : Shared ι) (c : Contents) : Prop where
  agrees : s.queue.Agrees s.elements c
  order : InOrder handled events c
  told : Told s c

omit [DecidableEq ι] in
theorem nodes_eq (h : s.queue.Agrees s.elements c) : s.nodes = c.list := h.holds.linked.walks.walk_eq h.enough

omit [DecidableEq ι] in
theorem Held.silent (h : Held handled events s c) (queue : s'.queue = s.queue) (elements : s'.elements = s.elements)
    (told : Told s' c) (idle : ∀ e ∈ seen, e.Idle ∧ e.Ends handled) :
    ∃ c', Held handled (events ++ seen) s' c' := by
  refine ⟨c, ?_, h.order.effect (.nothing idle), told⟩
  rw [queue, elements]
  exact h.agrees

omit [DecidableEq ι] in
/-- A free element goes to the end of a running queue. -/
theorem Held.push (debug : Bool) {element : Option EmbeddedListElement} (h : Held handled events s c) (free : s.Free element)
    (running : s.queue.isStopped = false) : ∃ e queue, element = some e ∧
      s.queue.push debug element = some (.success, queue) ∧ queue.Agrees s.elements ⟨false, c.list ++ [e]⟩ := by
  obtain ⟨e, rfl, made, loose, new⟩ := free
  rw [nodes_eq h.agrees] at new
  obtain ⟨queue, done, agrees⟩ := h.agrees.push_running debug running made loose new
  exact ⟨e, queue, rfl, done, agrees⟩

omit [DecidableEq ι] in
theorem Held.waits {queue : SharedEmbeddedQueue} (h : Held handled events s c)
    (waits : s.queue.pop debug s.elements = some (none, queue)) : c = ⟨false, []⟩ ∧ queue = s.queue := by
  rcases h.agrees.pop_cases debug with ⟨-, returned⟩ | ⟨empty, returned⟩ | ⟨_, _, _, -, returned, -⟩
  · rw [returned] at waits
    cases waits
  · rw [returned] at waits
    cases waits
    exact ⟨empty, rfl⟩
  · rw [returned] at waits
    cases waits

theorem CarefulStep.held (step : CarefulStep debug handled s seen s') (h : Held handled events s c) :
    ∃ c', Held handled (events ++ seen) s' c' := by
  obtain ⟨step, careful⟩ := step
  cases step with
  | outside elements list le head tail same =>
      rw [nodes_eq h.agrees] at same
      refine ⟨c, h.agrees.outside le head tail same, ?_, h.told.backed, h.told.stopped⟩
      rw [List.append_nil]
      exact h.order
  | callPush t element idle =>
      exact h.silent rfl rfl (h.told.moved rfl (by simp [idle, Place.helps]) (by simp [idle])) (by simp)
  | callPop t idle =>
      exact h.silent rfl rfl (h.told.moved rfl (by simp [idle, Place.helps]) (by simp [idle])) (by simp)
  | callStop t idle =>
      exact h.silent rfl rfl (h.told.moved rfl (by simp [idle, Place.helps]) (by simp [idle])) (by simp)
  | refusePush t element error pushes fails =>
      refine h.silent rfl rfl (h.told.moved rfl (by simp [pushes, Place.helps]) (by simp [pushes])) ?_
      simpa [Event.Ends] using idle_push fails
  | refusePop t error pops =>
      refine h.silent rfl rfl (h.told.moved rfl (by simp [pops, Place.helps]) (by simp [pops])) ?_
      simpa [Event.Ends] using idle_pop
  | push t element pushes unlocked done =>
      cases stopped : s.queue.isStopped with
      | true =>
          rw [push_stopped stopped] at done
          cases done
      | false =>
          have free : s.Free element := careful _ (List.mem_singleton_self _) rfl
          obtain ⟨e, queue, rfl, pushed, agrees⟩ := h.push debug free stopped
          rw [pushed] at done
          cases done
          have running : c = ⟨false, c.list⟩ := by rw [← stopped, h.agrees.stopped]
          have effect : Effect handled c [.push t (some e) .success] ⟨false, c.list ++ [e]⟩ := by
            rw [running]
            exact .push
          have told : Told (s.move t .signals) ⟨false, c.list ++ [e]⟩ := h.told.pushed pushes
          exact ⟨_, agrees, h.order.effect effect, told.backed, told.stopped⟩
  | pushFails t element pushes unlocked done fails =>
      cases stopped : s.queue.isStopped with
      | true =>
          rw [push_stopped stopped] at done
          cases done
          refine h.silent rfl rfl (h.told.moved rfl (by simp [pushes, Place.helps]) (by simp [pushes])) ?_
          simpa [Event.Ends] using idle_push fails
      | false => exact absurd (push_running stopped done) fails
  | pushAborts t element pushes unlocked aborts =>
      cases stopped : s.queue.isStopped with
      | true =>
          rw [push_stopped stopped] at aborts
          cases aborts
      | false =>
          have free : s.Free element := careful _ (List.mem_singleton_self _)
          obtain ⟨e, queue, rfl, pushed, -⟩ := h.push debug free stopped
          rw [pushed] at aborts
          cases aborts
  | signal t wakes signals chosen => exact h.silent rfl rfl (h.told.signalled signals chosen) (by simp)
  | pop t arrived unlocked done =>
      have other : s.place t ≠ .broadcasts := by rcases arrived with at_ | at_ <;> simp [at_]
      rcases h.agrees.pop_cases debug with ⟨stopped, returned⟩ | ⟨-, returned⟩ | ⟨e, rest, queue, rfl, returned, agrees⟩
      · rw [returned] at done
        cases done
        refine h.silent rfl rfl ⟨fun _ => ?_, fun asleep stopped => ?_⟩ (by simpa [Event.Ends] using idle_pop)
        · rw [h.order.stopped stopped]
          exact .zero
        · exact broadcasts_of_move other (h.told.stopped (asleep_of_move rfl asleep) stopped)
      · rw [returned] at done
        cases done
      · rw [returned] at done
        cases done
        have told : Told (s.move t .idle) ⟨false, rest⟩ := h.told.popped
        exact ⟨_, agrees, h.order.effect .pop, told.backed, told.stopped⟩
  | wait t arrived unlocked waits =>
      obtain ⟨rfl, rfl⟩ := h.waits waits
      exact h.silent rfl rfl (told_empty _) (by simp)
  | refuseWait t error arrived unlocked waits =>
      obtain ⟨rfl, rfl⟩ := h.waits waits
      exact h.silent rfl rfl (told_empty _) (by simpa [Event.Ends] using idle_pop)
  | popAborts t arrived unlocked aborts =>
      rcases h.agrees.pop_cases debug with ⟨-, returned⟩ | ⟨-, returned⟩ | ⟨_, _, _, -, returned, -⟩
      · exact absurd (returned.symm.trans aborts) (Option.some_ne_none _)
      · exact absurd (returned.symm.trans aborts) (Option.some_ne_none _)
      · exact absurd (returned.symm.trans aborts) (Option.some_ne_none _)
  | wakeUp t waits =>
      exact h.silent rfl rfl (h.told.moved rfl (by simp [waits, Place.helps]) (by simp [waits])) (by simp)
  | stop t stops unlocked done =>
      obtain ⟨queue, stopped, agrees⟩ := h.agrees.stop debug handled
      rw [stopped] at done
      cases done
      rw [nodes_eq h.agrees]
      exact ⟨_, agrees, h.order.effect .stop, fun _ => .zero, fun _ _ => ⟨t, move_self⟩⟩
  | stopAborts t stops unlocked aborts =>
      obtain ⟨queue, stopped, -⟩ := h.agrees.stop debug handled
      exact absurd (stopped.symm.trans aborts) (Option.some_ne_none _)
  | broadcast t broadcasts => exact h.silent rfl rfl told_broadcast (by simp)

/-- **Elements come out in the order they went in, none is lost unless a stop discards it, a stop is
final, every section has a result, and whoever sleeps will be told** of the elements there are and of a
stop, if what is pushed is in no list when it comes to the list. -/
theorem reached_in_order (debug : Bool) (handled : EmbeddedListElement → Bool) (events : List (Event ι))
    (s : Shared ι) (run : Reached debug handled events s) :
    ∃ xs, s.queue.list.Holds xs ∧
      events.filterMap Event.popped ++ events.flatMap Event.discarded ++ xs = events.filterMap Event.pushed ∧
      events.Pairwise (fun e later => e.Stops → ¬ later.Succeeds) ∧
      (∀ e ∈ events, e.Ends handled) ∧
      ∀ t, s.place t = .waits →
        (xs ≠ [] → ∃ u, s.place u = .woken ∨ s.place u = .signals) ∧
        (s.queue.isStopped = true → ∃ u, s.place u = .broadcasts) := by
  obtain ⟨⟨stopped, xs⟩, held⟩ : ∃ c, Held handled events s c := by
    refine run.keeps (I := fun events s => ∃ c, Held handled events s c) ?_ fun held step => ?_
    · exact ⟨{}, ⟨rfl, ⟨.nil .., rfl⟩, fun _ member => absurd member List.not_mem_nil⟩, inOrder_nil, told_idle⟩
    · obtain ⟨c, held⟩ := held
      exact step.held held
  refine ⟨xs, held.agrees.holds, held.order.order, held.order.after, held.order.ends, fun t waits => ?_⟩
  have asleep : s.Asleep := ⟨t, by rw [waits]; rfl⟩
  refine ⟨fun some => ?_, fun stops => held.told.stopped asleep (held.agrees.stopped.symm.trans stops)⟩
  obtain ⟨u, helps⟩ := (held.told.backed asleep).exists_of_pos (List.length_pos_iff.mpr some)
  exact ⟨u, by revert helps; cases s.place u <;> simp [Place.helps]⟩

/-- One consumer sleeps and another overtakes it: the second element is in the list, and its signal is on
the way. -/
theorem reached_in_order_signal : ∃ s : Shared Nat,
    Reached true (fun _ => false) [.push 1 (some 0) .success, .push 2 (some 1) .success, .pop 3 (some 0) .success] s ∧
      s.place 0 = .waits ∧ s.queue.list.Holds [1] ∧ ∃ u, s.place u = .woken ∨ s.place u = .signals := by
  have silent : ∀ {events : List (Event Nat)} {s s' : Shared Nat}, Reached true (fun _ => false) events s →
      Step true (fun _ => false) s [] s' → Reached true (fun _ => false) events s' := by
    intro events s s' run step
    simpa using Run.next run ⟨step, by simp⟩
  have fresh : Reached true (fun _ => false) ([] : List (Event Nat)) {} := .start
  have sleeps := silent (silent fresh (.callPop 0 rfl)) (.wait 0 (.inl rfl) rfl rfl)
  have made := silent sleeps (.outside 2 {} (Nat.zero_le 2) rfl rfl fun _ member => absurd member List.not_mem_nil)
  have called := silent (silent (silent made (.callPush 1 (some 0) rfl)) (.callPush 2 (some 1) rfl)) (.callPop 3 rfl)
  have first := Run.next called ⟨.push 1 (some 0) rfl rfl rfl, fun _ member => by
    cases List.mem_singleton.1 member
    exact fun _ => ⟨0, rfl, Nat.zero_lt_two, ⟨rfl, rfl⟩, List.not_mem_nil⟩⟩
  have second := Run.next first ⟨.push 2 (some 1) rfl rfl rfl, fun _ member => by
    cases List.mem_singleton.1 member
    exact fun _ => ⟨1, rfl, Nat.one_lt_two, ⟨rfl, rfl⟩, by decide⟩⟩
  have run := Run.next second ⟨.pop 3 (.inl rfl) rfl rfl, fun _ member => by
    cases List.mem_singleton.1 member
    trivial⟩
  obtain ⟨xs, holds, order, -, -, told⟩ := reached_in_order _ _ _ _ run
  have left : 0 :: xs = [0, 1] := order
  obtain rfl : xs = [1] := (List.cons.inj left).2
  exact ⟨_, run, rfl, holds, (told 0 rfl).1 (by simp)⟩

end Shared

end SharedEmbeddedQueue

end Everscale
