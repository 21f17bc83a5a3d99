/-
# Everscale.Base.SharedQueue -- a bounded queue that producers and consumers wait on

Every call is one section under the mutex, cut in two where it sleeps: a producer while the
queue is full, a consumer while it is empty.  Signals are sent inside the section.  A push
signals one consumer; a pop that finds the queue full broadcasts to the producers; so does a
clear, but only of a queue that is one item short of its limit (`clear`), where no producer can
be asleep.  `no_lost_wakeup` is what holds as long as no clear empties a full queue with a
producer asleep.

The allocator's answers are arguments (`answers`).  The mutex and the condition variables are
those the constructor made: signals and broadcasts do not fail.  A refused wait returns with
the mutex held (`locked`), as in the source.
-/
import Everscale.Base.Error
import Everscale.Theory.Interleaving
import Mathlib.Logic.Function.Basic
import Mathlib.Tactic.Common

namespace Everscale

set_option autoImplicit false

open Theory (Run Signals Backed)

variable {ι α : Type}

/-! ## The list of nodes -/

/-- `ESB::List`: the items from `_head` on, `_size`, and whether `_tail` points to a node. -/
structure NodeList (α : Type) where
  nodes : List α := []
  size : Nat := 0
  tail : Bool := false
  deriving DecidableEq, Repr

namespace NodeList

def pushBack (l : NodeList α) (element : Option α) (allocated : Error) : Error × NodeList α :=
  match element with
  | none => (.nullPointer, l)
  | some element =>
      if l.size = 2 ^ 32 - 1 then (.overflow, l)
      else if allocated ≠ .success then (allocated, l)
      else if l.tail = false then
        -- `assert(!_head)`
        if l.nodes ≠ [] then (.assertFailed, l)
        else (.success, { nodes := [element], size := l.size + 1, tail := true })
      else (.success, { l with nodes := l.nodes ++ [element], size := l.size + 1 })

def front (l : NodeList α) : Option α := l.nodes.head?

/-- A node that is not taken back returns to the front; `_tail` is not restored. -/
def popFront (l : NodeList α) (deallocated : Error) : Error × NodeList α :=
  match l.nodes with
  | [] => (.success, l)
  | _ :: rest =>
      let tail := if rest = [] then false else l.tail
      if deallocated = .success then (.success, { nodes := rest, size := l.size - 1, tail := tail })
      else (deallocated, { l with tail := tail })

/-- The loop of `clear` over the nodes, one answer of the allocator for each. -/
def clearLoop (tail : Bool) : List α → Nat → List Error → Error × NodeList α
  | [], size, _ => (if size = 0 then .success else .assertFailed, { nodes := [], size := size, tail := false })
  | node :: rest, size, answers =>
      let deallocated := answers.headD .success
      if deallocated ≠ .success then (deallocated, { nodes := node :: rest, size := size, tail := tail })
      else clearLoop tail rest (size - 1) answers.tail

def clear (l : NodeList α) (answers : List Error) : Error × NodeList α :=
  clearLoop l.tail l.nodes l.size answers

/-- The list that holds these items. -/
def of (nodes : List α) : NodeList α :=
  { nodes := nodes, size := nodes.length, tail := decide (nodes ≠ []) }

theorem pushBack_of (nodes : List α) (element : Option α) (allocated : Error) :
    (∃ e, element = some e ∧ (of nodes).pushBack element allocated = (.success, of (nodes ++ [e]))) ∨
    ∃ error, error ≠ .success ∧ (of nodes).pushBack element allocated = (error, of nodes) := by
  cases element with
  | none => exact .inr ⟨.nullPointer, by decide, rfl⟩
  | some e =>
      simp only [pushBack]
      by_cases most : (of nodes).size = 2 ^ 32 - 1
      · exact .inr ⟨.overflow, by decide, if_pos most⟩
      rw [if_neg most]
      by_cases failed : allocated ≠ .success
      · exact .inr ⟨allocated, failed, if_pos failed⟩
      refine .inl ⟨e, rfl, ?_⟩
      rw [if_neg failed]
      cases nodes with
      | nil => rfl
      | cons first rest => simp [of]

theorem popFront_of (first : α) (rest : List α) :
    (of (first :: rest)).popFront .success = (.success, of rest) := by
  cases rest with
  | nil => rfl
  | cons => simp [of, popFront]

theorem clearLoop_of (tail : Bool) (nodes : List α) (answers : List Error)
    (taken : ∀ answer ∈ answers, answer = .success) :
    clearLoop tail nodes nodes.length answers = (.success, of []) := by
  induction nodes generalizing answers with
  | nil => rfl
  | cons node rest ih =>
      have first : answers.headD .success = .success := by
        cases answers with
        | nil => rfl
        | cons answer later => exact taken answer (by simp)
      rw [clearLoop, if_neg (not_not.mpr first)]
      exact ih _ fun answer member => taken answer (List.mem_of_mem_tail member)

end NodeList

/-! ## What is done under the mutex -/

structure SharedQueue (α : Type) where
  limit : Nat
  /-- `_lock._magic` is `ESB_MAGIC`. -/
  initialized : Bool := true
  list : NodeList α := {}
  deriving DecidableEq, Repr

namespace SharedQueue

/-- The calls; a null item is `none`, and a null place for an item `false`. -/
inductive Call (α : Type) where
  | push (item : Option α)
  | tryPush (item : Option α)
  | pop (item : Bool)
  | tryPop (item : Bool)
  | clear
  deriving DecidableEq, Repr

/-- What a call returns, what it takes out, and whom it tells. -/
structure Done (α : Type) where
  error : Error
  item : Option α := none
  discarded : List α := []
  signalsConsumer : Bool := false
  broadcastsProducers : Bool := false
  deriving DecidableEq, Repr

/-- The checks before the mutex is locked. -/
def guard (q : SharedQueue α) : Call α → Option Error
  | .push none | .tryPush none | .pop false | .tryPop false => some .nullPointer
  | _ => if q.initialized then none else some .notInitialized

def isFull (q : SharedQueue α) : Bool := q.limit ≠ 0 && q.limit ≤ q.list.size

/-- The part that `push` and `tryPush` share. -/
def append (q : SharedQueue α) (item : Option α) (allocated : Error) : Done α × SharedQueue α :=
  let pushed := q.list.pushBack item allocated
  if pushed.1 ≠ .success then ({ error := pushed.1 }, { q with list := pushed.2 })
  else ({ error := .success, signalsConsumer := true }, { q with list := pushed.2 })

/-- `none`: wait for `_producerSignal`. -/
def push (q : SharedQueue α) (item : Option α) (allocated : Error) :
    Option (Done α) × SharedQueue α :=
  if q.isFull then (none, q)
  else ((q.append item allocated).1, (q.append item allocated).2)

def tryPush (q : SharedQueue α) (item : Option α) (allocated : Error) :
    Option (Done α) × SharedQueue α :=
  if q.isFull then (some { error := .again }, q)
  else ((q.append item allocated).1, (q.append item allocated).2)

/-- The part that `pop` and `tryPop` share. -/
def takeFront (q : SharedQueue α) (deallocated : Error) : Done α × SharedQueue α :=
  let size := q.list.size
  let tmp := q.list.front
  let popped := q.list.popFront deallocated
  if popped.1 ≠ .success then ({ error := popped.1 }, { q with list := popped.2 })
  else ({ error := .success, item := tmp, broadcastsProducers := q.limit = size },
    { q with list := popped.2 })

/-- `none`: wait for `_consumerSignal`. -/
def pop (q : SharedQueue α) (deallocated : Error) : Option (Done α) × SharedQueue α :=
  if q.list.nodes = [] then (none, q)
  else ((q.takeFront deallocated).1, (q.takeFront deallocated).2)

def tryPop (q : SharedQueue α) (deallocated : Error) : Option (Done α) × SharedQueue α :=
  if q.list.size = 0 then (some { error := .again }, q)
  else ((q.takeFront deallocated).1, (q.takeFront deallocated).2)

/-- The broadcast compares the limit with the size plus one. -/
def clear (q : SharedQueue α) (answers : List Error) : Option (Done α) × SharedQueue α :=
  let size := q.list.size
  let cleared := q.list.clear answers
  let discarded := q.list.nodes.take (q.list.nodes.length - cleared.2.nodes.length)
  if cleared.1 ≠ .success then
    (some { error := cleared.1, discarded := discarded }, { q with list := cleared.2 })
  else
    (some { error := .success, discarded := discarded,
            broadcastsProducers := q.limit = (size + 1) % 2 ^ 32 },
      { q with list := cleared.2 })

/-- The section of a call. -/
def run (q : SharedQueue α) (answers : List Error) : Call α → Option (Done α) × SharedQueue α
  | .push item => q.push item (answers.headD .success)
  | .tryPush item => q.tryPush item (answers.headD .success)
  | .pop _ => q.pop (answers.headD .success)
  | .tryPop _ => q.tryPop (answers.headD .success)
  | .clear => q.clear answers

/-! ## The queue by itself -/

def holding (q : SharedQueue α) (nodes : List α) : SharedQueue α := { q with list := .of nodes }

/-- The item that a call brings. -/
def Call.brings : Call α → Option α
  | .push item | .tryPush item => item
  | _ => none

/-- The allocator takes back the nodes that it gave. -/
def Call.TakenBack (answers : List Error) : Call α → Prop
  | .pop _ | .tryPop _ | .clear => ∀ answer ∈ answers, answer = .success
  | _ => True

def Call.isPush : Call α → Bool
  | .push _ => true
  | _ => false

def Call.isPop : Call α → Bool
  | .pop _ => true
  | _ => false

/-- What a section does to the items, unless it waits. -/
inductive Effect (limit : Nat) (nodes : List α) : Call α → Done α → List α → Prop where
  | nothing {c error} : c.isPop = false → error ≠ .success → Effect limit nodes c { error := error } nodes
  | append {c item} : c.isPop = false → c.brings = some item → ¬ (limit ≠ 0 ∧ limit ≤ nodes.length) →
      Effect limit nodes c { error := .success, signalsConsumer := true } (nodes ++ [item])
  | take {c item rest} : nodes = item :: rest → c.brings = none →
      Effect limit nodes c
        { error := .success, item := some item, broadcastsProducers := limit = nodes.length } rest
  | clear {broadcasts} : Effect limit nodes .clear
      { error := .success, discarded := nodes, broadcastsProducers := broadcasts } []

variable {q q' : SharedQueue α} {nodes : List α} {answers : List Error} {c : Call α} {done : Done α}

theorem isFull_iff (h : q.list = .of nodes) :
    q.isFull = true ↔ q.limit ≠ 0 ∧ q.limit ≤ nodes.length := by
  simp [isFull, h, NodeList.of]

theorem append_effect (h : q.list = .of nodes) (room : ¬ q.isFull = true) {item : Option α}
    {allocated : Error} (quiet : c.isPop = false) (brings : c.brings = item) :
    ∃ nodes', (q.append item allocated).2 = q.holding nodes' ∧
      Effect q.limit nodes c (q.append item allocated).1 nodes' := by
  rw [isFull_iff h] at room
  unfold append
  rw [h]
  rcases NodeList.pushBack_of nodes item allocated with ⟨e, rfl, pushed⟩ | ⟨error, fails, pushed⟩
  · rw [pushed]
    exact ⟨_, rfl, .append quiet brings room⟩
  · rw [pushed]
    simp only [if_pos fails]
    exact ⟨nodes, rfl, .nothing quiet fails⟩

theorem takeFront_effect (h : q.list = .of nodes) (some : nodes ≠ []) (quiet : c.brings = none) :
    ∃ nodes', (q.takeFront .success).2 = q.holding nodes' ∧
      Effect q.limit nodes c (q.takeFront .success).1 nodes' := by
  obtain ⟨first, rest, rfl⟩ := List.exists_cons_of_ne_nil some
  unfold takeFront
  rw [h, NodeList.popFront_of]
  exact ⟨rest, rfl, .take rfl quiet⟩

theorem head_success (taken : ∀ answer ∈ answers, answer = .success) :
    answers.headD .success = .success := by
  cases answers with
  | nil => rfl
  | cons answer later => exact taken answer (by simp)

theorem run_effect (h : q.list = .of nodes) (taken : c.TakenBack answers)
    (ran : q.run answers c = (some done, q')) :
    ∃ nodes', q' = q.holding nodes' ∧ Effect q.limit nodes c done nodes' := by
  have same : q = q.holding nodes := by rw [holding, ← h]
  cases c with
  | push item =>
      rw [run, push] at ran
      split at ran
      · cases ran
      · rename_i room
        cases ran
        exact append_effect h room rfl rfl
  | tryPush item =>
      rw [run, tryPush] at ran
      split at ran
      · cases ran
        exact ⟨nodes, same, .nothing rfl (by decide)⟩
      · rename_i room
        cases ran
        exact append_effect h room rfl rfl
  | pop item =>
      rw [run, pop, head_success taken] at ran
      split at ran
      · cases ran
      · rename_i some
        cases ran
        exact takeFront_effect h (by simpa [h, NodeList.of] using some) rfl
  | tryPop item =>
      rw [run, tryPop, head_success taken] at ran
      split at ran
      · cases ran
        exact ⟨nodes, same, .nothing rfl (by decide)⟩
      · rename_i some
        cases ran
        exact takeFront_effect h (by simpa [h, NodeList.of] using some) rfl
  | clear =>
      have cleared : q.list.clear answers = (.success, .of []) := by
        rw [h]
        exact NodeList.clearLoop_of _ _ _ taken
      simp only [run, clear, cleared] at ran
      simp only [ne_eq, not_true_eq_false, if_false, Prod.mk.injEq, Option.some.injEq] at ran
      obtain ⟨rfl, rfl⟩ := ran
      refine ⟨[], rfl, ?_⟩
      have all : q.list.nodes.take (q.list.nodes.length - (NodeList.of ([] : List α)).nodes.length) = nodes := by
        simp [h, NodeList.of]
      rw [all]
      exact .clear

theorem run_waits (h : q.list = .of nodes) (ran : q.run answers c = (none, q')) :
    q' = q ∧ (c.isPush = true ∧ q.limit ≠ 0 ∧ q.limit ≤ nodes.length ∨ c.isPop = true ∧ nodes = []) := by
  cases c with
  | push item =>
      rw [run, push] at ran
      split at ran
      · rename_i full
        cases ran
        exact ⟨rfl, .inl ⟨rfl, (isFull_iff h).mp full⟩⟩
      · cases ran
  | pop item =>
      rw [run, pop] at ran
      split at ran
      · rename_i none
        cases ran
        exact ⟨rfl, .inr ⟨rfl, by simpa [h, NodeList.of] using none⟩⟩
      · cases ran
  | tryPush => simp only [run, tryPush] at ran; split at ran <;> cases ran
  | tryPop => simp only [run, tryPop] at ran; split at ran <;> cases ran
  | clear => simp only [run, clear] at ran; split at ran <;> cases ran

/-! ## The threads -/

/-- Where a thread is: outside, in front of the section of its call, or asleep in it. -/
inductive Place (α : Type) where
  | idle
  | calls (call : Call α)
  | waits (call : Call α)
  | woken (call : Call α)
  deriving DecidableEq, Repr

namespace Place

def producerSleeps : Place α → Bool
  | .waits call => call.isPush
  | _ => false

def consumerSleeps : Place α → Bool
  | .waits call => call.isPop
  | _ => false

def wake : Place α → Place α
  | .waits call => .woken call
  | place => place

/-- A consumer that has been woken. -/
def helps : Place α → Bool
  | .woken call => call.isPop
  | _ => false

/-- The thread comes to the section of its call. -/
inductive Arrives (call : Call α) : Place α → Prop where
  | first : Arrives call (.calls call)
  | again : Arrives call (.woken call)

end Place

/-- A call that has come to its end, before its section or in it. -/
inductive Event (ι α : Type) where
  | refused (thread : ι) (call : Call α) (error : Error)
  | done (thread : ι) (call : Call α) (answers : List Error) (done : Done α)

namespace Event

def pushed : Event ι α → Option α
  | .refused _ _ _ => none
  | .done _ call _ done => if done.error = .success then call.brings else none

/-- The items that a call takes out, and those that it throws away. -/
def removed : Event ι α → List α
  | .refused _ _ _ => []
  | .done _ _ _ done => done.item.toList ++ done.discarded

end Event

theorem filterMap_singleton {β γ : Type} (f : β → Option γ) (b : β) :
    [b].filterMap f = (f b).toList := by
  cases h : f b <;> simp [h]

/-- What goes out and stays is what was there and comes in. -/
theorem balance {limit : Nat} {nodes nodes' : List α} {c : Call α} {done : Done α} (t : ι)
    (answers : List Error) (effect : Effect limit nodes c done nodes') :
    (Event.done t c answers done).removed ++ nodes' =
      nodes ++ (Event.done t c answers done).pushed.toList := by
  cases effect with
  | nothing _ fails => simp [Event.removed, Event.pushed, fails]
  | append _ brings => simp [Event.removed, Event.pushed, brings]
  | take items quiet => simp [Event.removed, Event.pushed, items, quiet]
  | clear => simp [Event.removed, Event.pushed, Call.brings]

/-- The queue and its threads. -/
structure Shared (ι α : Type) where
  queue : SharedQueue α
  locked : Bool := false
  place : ι → Place α := fun _ => .idle

namespace Shared

/-- Those who are told wake up: the consumers that the signal chose, and all producers of a
broadcast. -/
def tell (s : Shared ι α) (done : Done α) (consumers : ι → Bool) : Shared ι α :=
  { s with place := fun t =>
      if consumers t || (done.broadcastsProducers && (s.place t).producerSleeps) then (s.place t).wake
      else s.place t }

/-- A signal chooses among the consumers that sleep. -/
def Chosen (s : Shared ι α) (done : Done α) (consumers : ι → Bool) : Prop :=
  if done.signalsConsumer then Signals (fun t => (s.place t).consumerSleeps = true) consumers
  else ∀ t, consumers t = false

variable [DecidableEq ι]

def move (s : Shared ι α) (t : ι) (p : Place α) : Shared ι α :=
  { s with place := Function.update s.place t p }

/-- One move of one thread. -/
inductive Step : Shared ι α → List (Event ι α) → Shared ι α → Prop where
  | refuse {s} (t : ι) (c : Call α) (error : Error) : s.place t = .idle →
      s.queue.guard c = some error → Step s [.refused t c error] s
  | call {s} (t : ι) (c : Call α) : s.place t = .idle → s.queue.guard c = none →
      Step s [] (s.move t (.calls c))
  | refuseLock {s} (t : ι) (c : Call α) (error : Error) : s.place t = .calls c →
      error ≠ .success → Step s [.refused t c error] (s.move t .idle)
  | wait {s} (t : ι) (c : Call α) (answers : List Error) {queue} : (s.place t).Arrives c → s.locked = false →
      s.queue.run answers c = (none, queue) → Step s [] { s.move t (.waits c) with queue := queue }
  | refuseWait {s} (t : ι) (c : Call α) (answers : List Error) (error : Error) {queue} :
      (s.place t).Arrives c → s.locked = false → s.queue.run answers c = (none, queue) → error ≠ .success → error ≠ .intr →
      Step s [.refused t c error]
        { s.move t .idle with queue := queue, locked := true }
  | wakeUp {s} (t : ι) (c : Call α) : s.place t = .waits c → Step s [] (s.move t (.woken c))
  | done {s} (t : ι) (c : Call α) (answers : List Error) (consumers : ι → Bool) {done queue} :
      (s.place t).Arrives c → s.locked = false →
      s.queue.run answers c = (some done, queue) → s.Chosen done consumers →
      Step s [.done t c answers done] { (s.tell done consumers).move t .idle with queue := queue }

/-- A producer sleeps in a `push`. -/
def ProducerAsleep (s : Shared ι α) : Prop := ∃ t, (s.place t).producerSleeps = true

def ConsumerAsleep (s : Shared ι α) : Prop := ∃ t, (s.place t).consumerSleeps = true

/-- No `clear` empties a full queue while a producer sleeps, and the allocator takes back what it
gave. -/
def Careful (s : Shared ι α) : Event ι α → Prop
  | .refused _ _ _ => True
  | .done _ call answers _ =>
      call.TakenBack answers ∧ (call = .clear → s.queue.isFull = true → ¬ s.ProducerAsleep)

def CarefulStep (s : Shared ι α) (seen : List (Event ι α)) (s' : Shared ι α) : Prop :=
  Step s seen s' ∧ ∀ e ∈ seen, s.Careful e

/-- The items in the queue, and the sleepers that need not be told of anything. -/
structure Settled (s : Shared ι α) (nodes : List α) : Prop where
  list : s.queue.list = .of nodes
  bounded : s.queue.limit ≠ 0 → nodes.length ≤ s.queue.limit
  producers : s.ProducerAsleep → s.queue.limit ≠ 0 ∧ s.queue.limit ≤ nodes.length
  consumers : s.ConsumerAsleep → Backed (fun t => (s.place t).helps = true) nodes.length

end Shared

namespace Shared

section telling

variable {s : Shared ι α} {done : Done α} {consumers : ι → Bool}

theorem tell_place (done : Done α) (u : ι) : (s.tell done consumers).place u =
    if consumers u || (done.broadcastsProducers && (s.place u).producerSleeps) then (s.place u).wake
    else s.place u := rfl

theorem producerAsleep_of_tell (asleep : (s.tell done consumers).ProducerAsleep) :
    s.ProducerAsleep ∧ done.broadcastsProducers = false := by
  obtain ⟨u, sleeps⟩ := asleep
  rw [tell_place] at sleeps
  split at sleeps
  · cases place : s.place u <;> rw [place] at sleeps <;> cases sleeps
  · rename_i untold
    have quiet : consumers u = false ∧ done.broadcastsProducers = false := by
      simpa [sleeps] using untold
    exact ⟨⟨u, sleeps⟩, quiet.2⟩

theorem consumerAsleep_of_tell (asleep : (s.tell done consumers).ConsumerAsleep) :
    s.ConsumerAsleep := by
  obtain ⟨u, sleeps⟩ := asleep
  rw [tell_place] at sleeps
  split at sleeps
  · cases place : s.place u <;> rw [place] at sleeps <;> cases sleeps
  · exact ⟨u, sleeps⟩

theorem helps_of_tell {u : ι} (helps : (s.place u).helps = true) :
    ((s.tell done consumers).place u).helps = true := by
  rw [tell_place]
  split
  · cases place : s.place u <;> rw [place] at helps <;> first | exact helps | cases helps
  · exact helps

theorem helps_of_chosen {u : ι} (slept : (s.place u).consumerSleeps = true)
    (chosen : consumers u = true) : ((s.tell done consumers).place u).helps = true := by
  rw [tell_place, chosen, Bool.true_or, if_pos rfl]
  cases place : s.place u <;> rw [place] at slept <;> first | exact slept | cases slept

theorem helpless_of_asleep {place : Place α} (slept : place.consumerSleeps = true) :
    place.helps = false := by
  cases place <;> first | rfl | cases slept

theorem arrives_helpless {place : Place α} {c : Call α} (arrives : place.Arrives c)
    (quiet : c.isPop = false) : place.helps ≠ true := by
  cases arrives
  · exact Bool.false_ne_true
  · simpa [Place.helps] using quiet

theorem settled_idle {limit : Nat} {initialized : Bool} :
    Settled ({ queue := { limit := limit, initialized := initialized } } : Shared ι α) [] :=
  ⟨rfl, fun _ => Nat.zero_le _, fun ⟨_, sleeps⟩ => (nomatch sleeps), fun ⟨_, sleeps⟩ => nomatch sleeps⟩

theorem chosen_of_nobody (nobody : ¬ s.ConsumerAsleep) : s.Chosen done fun _ => false := by
  unfold Chosen
  split
  · exact ⟨fun _ chosen => (nomatch chosen), fun asleep => absurd asleep nobody⟩
  · exact fun _ => rfl

theorem chosen_of_one [DecidableEq ι] {t : ι} (signals : done.signalsConsumer = true)
    (slept : (s.place t).consumerSleeps = true) : s.Chosen done fun u => decide (u = t) := by
  rw [Chosen, if_pos signals]
  refine ⟨fun u chosen => ?_, fun _ => ⟨t, decide_eq_true rfl⟩⟩
  obtain rfl := of_decide_eq_true chosen
  exact slept

end telling

variable [DecidableEq ι]
variable {s s' : Shared ι α} {t : ι} {p : Place α} {c : Call α} {done : Done α} {nodes : List α}
variable {seen events : List (Event ι α)} {answers : List Error} {consumers : ι → Bool}

@[simp] theorem move_self : (s.move t p).place t = p := Function.update_self ..

theorem move_other {u : ι} (ne : u ≠ t) : (s.move t p).place u = s.place u :=
  Function.update_of_ne ne ..

theorem producerAsleep_of_move (awake : p.producerSleeps = false)
    (asleep : (s.move t p).ProducerAsleep) : s.ProducerAsleep := by
  obtain ⟨u, sleeps⟩ := asleep
  rcases eq_or_ne u t with rfl | ne
  · rw [move_self, awake] at sleeps
    cases sleeps
  · exact ⟨u, move_other ne ▸ sleeps⟩

theorem consumerAsleep_of_move (awake : p.consumerSleeps = false)
    (asleep : (s.move t p).ConsumerAsleep) : s.ConsumerAsleep := by
  obtain ⟨u, sleeps⟩ := asleep
  rcases eq_or_ne u t with rfl | ne
  · rw [move_self, awake] at sleeps
    cases sleeps
  · exact ⟨u, move_other ne ▸ sleeps⟩

theorem helps_of_move {u : ι} (ne : u ≠ t) (helps : (s.place u).helps = true) :
    ((s.move t p).place u).helps = true := by
  rwa [move_other ne]

/-- A thread that did not help moves on, and stays awake. -/
theorem Settled.moved (h : Settled s nodes) (awake : p.producerSleeps = false)
    (awake' : p.consumerSleeps = false) (helpless : (s.place t).helps = false) :
    Settled (s.move t p) nodes where
  list := h.list
  bounded := h.bounded
  producers asleep := h.producers (producerAsleep_of_move awake asleep)
  consumers asleep := (h.consumers (consumerAsleep_of_move awake' asleep)).imp fun u helps =>
    helps_of_move (fun same => by simp [← same, helps] at helpless) helps

theorem Settled.waits (h : Settled s nodes) (arrives : (s.place t).Arrives c)
    (why : c.isPush = true ∧ s.queue.limit ≠ 0 ∧ s.queue.limit ≤ nodes.length ∨
      c.isPop = true ∧ nodes = []) : Settled (s.move t (.waits c)) nodes := by
  rcases why with ⟨isPush, full⟩ | ⟨isPop, rfl⟩
  · have other : c.isPop = false := by cases c <;> first | rfl | cases isPush
    refine ⟨h.list, h.bounded, fun _ => full, fun asleep => ?_⟩
    refine (h.consumers (consumerAsleep_of_move (p := .waits c) other asleep)).imp fun u helps => ?_
    refine helps_of_move (fun same => ?_) helps
    rw [same] at helps
    cases arrives' : s.place t <;> rw [arrives'] at arrives helps <;> cases arrives
    · cases helps
    · exact absurd (other.symm.trans helps) (by decide)
  · have other : c.isPush = false := by cases c <;> first | rfl | cases isPop
    exact ⟨h.list, h.bounded, fun asleep => h.producers (producerAsleep_of_move (p := .waits c) other asleep),
      fun _ => .zero⟩

theorem Settled.ran (h : Settled s nodes) (arrives : (s.place t).Arrives c)
    {nodes' : List α} (effect : Effect s.queue.limit nodes c done nodes')
    (chosen : s.Chosen done consumers)
    (careful : c = .clear → s.queue.isFull = true → ¬ s.ProducerAsleep) :
    Settled { (s.tell done consumers).move t .idle with queue := s.queue.holding nodes' } nodes' := by
  have producers : ((s.tell done consumers).move t .idle).ProducerAsleep →
      s.ProducerAsleep ∧ done.broadcastsProducers = false := fun asleep =>
    producerAsleep_of_tell (producerAsleep_of_move rfl asleep)
  have consumer : ((s.tell done consumers).move t .idle).ConsumerAsleep → s.ConsumerAsleep :=
    fun asleep => consumerAsleep_of_tell (consumerAsleep_of_move rfl asleep)
  have helps : ∀ u, u ≠ t → (s.place u).helps = true →
      (((s.tell done consumers).move t .idle).place u).helps = true := fun u ne helps =>
    helps_of_move ne (helps_of_tell helps)
  cases effect with
  | nothing quiet fails =>
      refine ⟨rfl, h.bounded, fun asleep => h.producers (producers asleep).1, fun asleep => ?_⟩
      exact (h.consumers (consumer asleep)).imp fun u helped =>
        helps u (fun same => arrives_helpless arrives quiet (same ▸ helped)) helped
  | append quiet brings room =>
      refine ⟨rfl, fun limited => ?_, fun asleep => absurd (h.producers (producers asleep).1) room,
        fun asleep => ?_⟩
      · rw [List.length_append, List.length_singleton]
        exact Nat.lt_of_not_le fun full => room ⟨limited, full⟩
      · -- the push stands behind its own item until one of the consumers does
        obtain ⟨told, chosen'⟩ := (Signals.some chosen) (consumer asleep)
        have slept := Signals.asleep chosen told chosen'
        rw [List.length_append]
        refine (h.consumers (consumer asleep)).gain (i := told) ?_ ?_ fun u helped => ?_
        · simp [helpless_of_asleep slept]
        · have ne : told ≠ t := fun same => by
            rw [same] at slept
            cases place : s.place t <;> rw [place] at arrives slept <;> cases arrives <;> cases slept
          exact helps_of_move ne (helps_of_chosen slept chosen')
        · exact helps u (fun same => arrives_helpless arrives quiet (same ▸ helped)) helped
  | take items =>
      subst items
      refine ⟨rfl, fun limited => ?_, fun asleep => ?_, fun asleep => ?_⟩
      · exact (Nat.le_succ _).trans (h.bounded limited)
      · obtain ⟨slept, quiet⟩ := producers asleep
        obtain ⟨limited, full⟩ := h.producers slept
        exact absurd (Nat.le_antisymm full (h.bounded limited)) (of_decide_eq_false quiet)
      · exact (h.consumers (consumer asleep)).lose t helps
  | clear =>
      refine ⟨rfl, fun _ => Nat.zero_le _, fun asleep => ?_, fun _ => .zero⟩
      have slept := (producers asleep).1
      exact absurd slept (careful rfl ((isFull_iff h.list).mpr (h.producers slept)))

theorem CarefulStep.settled (step : CarefulStep s seen s') (h : Settled s nodes) :
    s'.queue.limit = s.queue.limit ∧ ∃ nodes', Settled s' nodes' ∧
      seen.flatMap Event.removed ++ nodes' = nodes ++ seen.filterMap Event.pushed := by
  obtain ⟨step, careful⟩ := step
  cases step with
  | refuse t c error => exact ⟨rfl, nodes, h, by simp [Event.removed, List.filterMap_cons, Event.pushed]⟩
  | call t c idle => exact ⟨rfl, nodes, h.moved rfl rfl (by rw [idle]; rfl), by simp⟩
  | refuseLock t c error calls =>
      exact ⟨rfl, nodes, h.moved rfl rfl (by rw [calls]; rfl),
        by simp [Event.removed, List.filterMap_cons, Event.pushed]⟩
  | wait t c answers arrives _ ran =>
      obtain ⟨rfl, why⟩ := run_waits h.list ran
      exact ⟨rfl, nodes, h.waits arrives why, by simp⟩
  | refuseWait t c answers error arrives _ ran =>
      obtain ⟨rfl, why⟩ := run_waits h.list ran
      have moved : Settled (s.move t .idle) nodes := by
        rcases why with ⟨isPush, _⟩ | ⟨_, rfl⟩
        · have quiet : c.isPop = false := by cases c <;> first | rfl | cases isPush
          exact h.moved rfl rfl (Bool.eq_false_iff.mpr (arrives_helpless arrives quiet))
        · exact ⟨h.list, h.bounded, fun asleep => h.producers (producerAsleep_of_move rfl asleep),
            fun _ => .zero⟩
      exact ⟨rfl, nodes, ⟨moved.list, moved.bounded, moved.producers, moved.consumers⟩,
        by simp [Event.removed, List.filterMap_cons, Event.pushed]⟩
  | wakeUp t c waits => exact ⟨rfl, nodes, h.moved rfl rfl (by rw [waits]; rfl), by simp⟩
  | done t c answers consumers arrives _ ran chosen =>
      obtain ⟨taken, kept⟩ := careful _ (List.mem_singleton_self _)
      obtain ⟨nodes', rfl, effect⟩ := run_effect h.list taken ran
      refine ⟨rfl, nodes', h.ran arrives effect chosen kept, ?_⟩
      rw [List.flatMap_singleton, balance t answers effect, filterMap_singleton]

/-- **Items come out in the order they went in, none is lost unless a clear discards it, the limit
holds, and no wake-up is lost**, in every run in which no clear empties a full queue with a
producer asleep: while a producer sleeps there is no room, and while a consumer sleeps and an
item is queued some consumer has been woken. -/
theorem no_lost_wakeup (limit : Nat) (initialized : Bool) (events : List (Event ι α)) (s : Shared ι α)
    (run : Run CarefulStep { queue := { limit := limit, initialized := initialized } } events s) :
    events.flatMap Event.removed ++ s.queue.list.nodes = events.filterMap Event.pushed ∧
      (limit ≠ 0 → s.queue.list.nodes.length ≤ limit) ∧
      (∀ t item, s.place t = .waits (.push item) →
        limit ≠ 0 ∧ s.queue.list.nodes.length = limit) ∧
      ∀ t item, s.place t = .waits (.pop item) → s.queue.list.nodes ≠ [] →
        ∃ u item', s.place u = .woken (.pop item') := by
  have held : s.queue.limit = limit ∧ ∃ nodes, Settled s nodes ∧
      events.flatMap Event.removed ++ nodes = events.filterMap Event.pushed := by
    refine run.keeps (I := fun events s => s.queue.limit = limit ∧ ∃ nodes, Settled s nodes ∧
      events.flatMap Event.removed ++ nodes = events.filterMap Event.pushed) ?_ ?_
    · exact ⟨rfl, [], settled_idle, rfl⟩
    · rintro events s seen s' ⟨limited, nodes, settled, order⟩ step
      obtain ⟨same, nodes', settled', balanced⟩ := step.settled settled
      refine ⟨same.trans limited, nodes', settled', ?_⟩
      rw [List.flatMap_append, List.append_assoc, balanced, ← List.append_assoc, order,
        List.filterMap_append]
  obtain ⟨rfl, nodes, settled, order⟩ := held
  have same : s.queue.list.nodes = nodes := by rw [settled.list]; rfl
  rw [same]
  refine ⟨order, settled.bounded, fun t item waits => ?_, fun t item waits some => ?_⟩
  · obtain ⟨limited, full⟩ := settled.producers ⟨t, by rw [waits]; rfl⟩
    exact ⟨limited, Nat.le_antisymm (settled.bounded limited) full⟩
  · have backed := settled.consumers ⟨t, by rw [waits]; rfl⟩
    obtain ⟨u, helps⟩ := backed.exists_of_pos (List.length_pos_iff.mpr some)
    refine ⟨u, ?_⟩
    cases place : s.place u with
    | woken call => cases call <;> rw [place] at helps <;> first | exact ⟨_, rfl⟩ | cases helps
    | idle | calls | waits => rw [place] at helps; cases helps

section twoThreads

/-- The runs of two queues of items 5, 6 and 7; the threads are numbered. -/
abbrev fresh (limit : Nat) : Shared Nat Nat := { queue := { limit := limit } }

theorem nobody_asleep {limit : Nat} : ¬ (fresh limit).ConsumerAsleep := fun ⟨_, sleeps⟩ => nomatch sleeps

/-- Two consumers sleep, and an item comes: one of them has been woken. -/
theorem no_lost_wakeup_push : ∃ s : Shared Nat Nat, s.place 1 = .waits (.pop true) ∧
    s.queue.list.nodes = [7] ∧ ∃ u item', s.place u = .woken (.pop item') := by
  have silent : ∀ {s s' : Shared Nat Nat}, Step s [] s' → CarefulStep s [] s' := fun step =>
    ⟨step, fun _ member => nomatch member⟩
  have first := Run.next (Run.next .start
      (silent (Step.call (s := fresh 2) 0 (.pop true) rfl rfl)))
    (silent (Step.wait 0 (.pop true) [] .first rfl rfl))
  have second := Run.next (Run.next first (silent (Step.call 1 (.pop true) rfl rfl)))
    (silent (Step.wait 1 (.pop true) [] .first rfl rfl))
  have calls := Run.next second (silent (Step.call 2 (.push (some 7)) rfl rfl))
  have run := Run.next calls ⟨Step.done 2 (.push (some 7)) [] (fun u => decide (u = 0)) .first rfl rfl
    (chosen_of_one rfl rfl), fun e member => by
      obtain rfl := List.mem_singleton.mp member
      exact ⟨trivial, nofun⟩⟩
  exact ⟨_, rfl, rfl, (no_lost_wakeup 2 true _ _ run).2.2.2 1 true rfl nofun⟩

/-- A producer sleeps in front of a queue of one item, and a clear empties the queue. -/
theorem clear_loses_wakeup : ∃ (events : List (Event Nat Nat)) (s : Shared Nat Nat),
    Run Step { queue := { limit := 1 } } events s ∧ s.place 1 = .waits (.push (some 6)) ∧
      s.queue.list.nodes = [] ∧ ∀ u, u ≠ 1 → s.place u = .idle := by
  have pushed := Run.next (Run.next .start (Step.call (s := fresh 1) 0 (.push (some 5)) rfl rfl))
    (Step.done 0 (.push (some 5)) [] (fun _ => false) .first rfl rfl
      (chosen_of_nobody fun asleep => nobody_asleep (consumerAsleep_of_move rfl asleep)))
  have waits := Run.next (Run.next pushed (Step.call 1 (.push (some 6)) rfl rfl))
    (Step.wait 1 (.push (some 6)) [] .first rfl rfl)
  have cleared := Run.next (Run.next waits (Step.call 2 .clear rfl rfl))
    (Step.done 2 .clear [] (fun _ => false) .first rfl rfl fun _ => rfl)
  refine ⟨_, _, cleared, rfl, rfl, fun u ne => ?_⟩
  rcases eq_or_ne u 2 with rfl | two
  · rfl
  rcases eq_or_ne u 0 with rfl | zero
  · rfl
  simp [move, tell, ne, two, zero, Place.wake]

end twoThreads

end Shared

end SharedQueue

end Everscale
