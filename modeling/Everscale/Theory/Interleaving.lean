/-
# Theory.Interleaving -- runs of many threads, and the wake-ups still owed to them

A run takes one step after another, each with the events it makes visible; what every step
keeps holds at the end of every run (`Run.keeps`).

Threads that sleep on a condition variable are woken by its signals.  A signal chooses whom it
wakes (`Signals`), a broadcast wakes every sleeper.  No wake-up is lost as long as `n` things to
fetch are backed by `n` threads on their way to fetch one (`Backed`): such a thread may fetch
(`lose`), may hand its part to another (`handOver`), and whoever brings a thing stands for it
until it has signalled (`gain`).  The threads need not be finitely many.
-/
import Mathlib.Data.Finset.Card
import Mathlib.Data.Finset.Insert

namespace Everscale.Theory

set_option autoImplicit false

section runs

variable {σ ε : Type*} {step : σ → List ε → σ → Prop} {first : σ}

/-- The states that are reached from `first`, each with the events on the way. -/
inductive Run (step : σ → List ε → σ → Prop) (first : σ) : List ε → σ → Prop where
  | start : Run step first [] first
  | next {events seen s s'} : Run step first events s → step s seen s' →
      Run step first (events ++ seen) s'

theorem Run.keeps {I : List ε → σ → Prop} (start : I [] first)
    (kept : ∀ {events s seen s'}, I events s → step s seen s' → I (events ++ seen) s')
    {events : List ε} {s : σ} (run : Run step first events s) : I events s := by
  induction run with
  | start => exact start
  | next _ taken ih => exact kept ih taken

end runs

section wakeups

variable {ι : Type*}

/-- A signal wakes sleepers only, and one of them if there is any. -/
structure Signals (sleeps : ι → Prop) (wakes : ι → Bool) : Prop where
  asleep : ∀ i, wakes i = true → sleeps i
  some : (∃ i, sleeps i) → ∃ i, wakes i = true

/-- `n` different threads help. -/
def Backed (helps : ι → Prop) (n : Nat) : Prop :=
  ∃ helpers : Finset ι, (∀ i ∈ helpers, helps i) ∧ n ≤ helpers.card

namespace Backed

variable {helps helps' : ι → Prop} {n : Nat}

theorem zero : Backed helps 0 := ⟨∅, by simp, Nat.zero_le _⟩

theorem imp (h : Backed helps n) (still : ∀ i, helps i → helps' i) : Backed helps' n := by
  obtain ⟨helpers, help, card⟩ := h
  exact ⟨helpers, fun i member => still i (help i member), card⟩

theorem exists_of_pos (h : Backed helps n) (pos : 0 < n) : ∃ i, helps i := by
  obtain ⟨helpers, help, card⟩ := h
  obtain ⟨i, member⟩ := Finset.card_pos.mp (pos.trans_le card)
  exact ⟨i, help i member⟩

variable [DecidableEq ι]

/-- A thread that begins to help stands for one thing more. -/
theorem gain (h : Backed helps n) {i : ι} (fresh : ¬ helps i) (new : helps' i)
    (still : ∀ j, helps j → helps' j) : Backed helps' (n + 1) := by
  obtain ⟨helpers, help, card⟩ := h
  refine ⟨insert i helpers, fun j member => ?_, ?_⟩
  · rcases Finset.mem_insert.mp member with rfl | member
    · exact new
    · exact still j (help j member)
  · rw [Finset.card_insert_of_notMem fun member => fresh (help i member)]
    omega

/-- One thread may stop helping when one thing has gone. -/
theorem lose (h : Backed helps n) (i : ι) (still : ∀ j, j ≠ i → helps j → helps' j) :
    Backed helps' (n - 1) := by
  obtain ⟨helpers, help, card⟩ := h
  refine ⟨helpers.erase i, fun j member => ?_, ?_⟩
  · obtain ⟨ne, member⟩ := Finset.mem_erase.mp member
    exact still j ne (help j member)
  · have : helpers.card - 1 ≤ (helpers.erase i).card := Finset.pred_card_le_card_erase
    omega

/-- One thread may stop helping when another begins. -/
theorem handOver (h : Backed helps n) (i : ι) {j : ι} (fresh : ¬ helps j) (new : helps' j)
    (still : ∀ k, k ≠ i → helps k → helps' k) : Backed helps' n := by
  rcases Nat.eq_zero_or_pos n with rfl | pos
  · exact zero
  have lost : Backed (fun k => k ≠ i ∧ helps k) (n - 1) := h.lose i fun k ne help => ⟨ne, help⟩
  have gained := lost.gain (fun both => fresh both.2) new
    fun k both => still k both.1 both.2
  rwa [Nat.sub_add_cancel pos] at gained

end Backed

end wakeups

end Everscale.Theory
