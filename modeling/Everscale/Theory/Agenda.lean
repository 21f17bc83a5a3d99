/-
# Theory.Agenda -- what a timer service owes to those who wait

An agenda says who waits, and until when.  A service gives one notice after another about it.
The notices are kept honest (`Keeps`) when somebody is only ever called if nobody else is due
earlier and the time has come, and nobody is called only if nobody is due.  Those who are called
are then called in the order in which they are due (`Keeps.sorted`), whatever is scheduled,
rescheduled or dropped in between.
-/
import Mathlib.Logic.Function.Basic
import Mathlib.Order.Basic
import Mathlib.Data.List.Basic
import Mathlib.Tactic.Common

namespace Everscale.Theory

set_option autoImplicit false

variable {τ : Type*}

abbrev Agenda (τ : Type*) := τ → Option Nat

/-- What a service does about somebody, or does not do. -/
inductive Notice (τ : Type*) where
  | scheduled (who : τ) (due : Nat)
  | dropped (who : τ)
  | expired (who : τ) (due now : Nat)
  | nothing (now : Nat)
  | refused
  deriving DecidableEq, Repr

namespace Notice

def after [DecidableEq τ] (a : Agenda τ) : Notice τ → Agenda τ
  | .scheduled who due => Function.update a who (some due)
  | .dropped who | .expired who _ _ => Function.update a who none
  | .nothing _ | .refused => a

/-- The notice is right at time `now`: nobody is called early, out of order or overlooked. -/
def Honest (a : Agenda τ) (now : Nat) : Notice τ → Prop
  | .scheduled _ due => now ≤ due
  | .dropped _ | .refused => True
  | .expired who due at_ => at_ = now ∧ a who = some due ∧ due ≤ now ∧
      ∀ other due', a other = some due' → due ≤ due'
  | .nothing at_ => at_ = now ∧ ∀ other due', a other = some due' → now < due'

def expiry : Notice τ → Option Nat
  | .expired _ due _ => some due
  | _ => none

end Notice

variable [DecidableEq τ]

/-- Honest notices, given as time goes by, and the agenda they lead to. -/
inductive Keeps : List (Notice τ) → Agenda τ → Nat → Prop where
  | start : Keeps [] (fun _ => none) 0
  | next {notices a clock now n} : Keeps notices a clock → clock ≤ now → n.Honest a now →
      Keeps (notices ++ [n]) (n.after a) now

/-- Whoever was called was not due later than those who wait, nor than the time. -/
theorem Keeps.expired_first {notices : List (Notice τ)} {a : Agenda τ} {clock : Nat}
    (h : Keeps notices a clock) : ∀ d ∈ notices.filterMap Notice.expiry,
      d ≤ clock ∧ ∀ other due, a other = some due → d ≤ due := by
  induction h with
  | start => exact fun _ member => nomatch member
  | @next notices a clock now n _ later honest ih =>
      intro d member
      rw [List.filterMap_append, List.mem_append] at member
      rcases member with member | member
      · obtain ⟨before, first⟩ := ih d member
        refine ⟨Nat.le_trans before later, fun other due waits => ?_⟩
        cases n with
        | scheduled who due' =>
            rcases eq_or_ne other who with rfl | ne
            · rw [Notice.after, Function.update_self, Option.some.injEq] at waits
              exact waits ▸ Nat.le_trans before (Nat.le_trans later honest)
            · rw [Notice.after, Function.update_of_ne ne] at waits
              exact first other due waits
        | dropped who | expired who _ _ =>
            rcases eq_or_ne other who with rfl | ne
            · rw [Notice.after, Function.update_self] at waits
              cases waits
            · rw [Notice.after, Function.update_of_ne ne] at waits
              exact first other due waits
        | nothing | refused => exact first other due waits
      · cases n with
        | expired who due at_ =>
            obtain rfl : d = due := by simpa [Notice.expiry] using member
            obtain ⟨_, _, passed, first⟩ := honest
            refine ⟨passed, fun other due waits => ?_⟩
            rcases eq_or_ne other who with rfl | ne
            · rw [Notice.after, Function.update_self] at waits
              cases waits
            · rw [Notice.after, Function.update_of_ne ne] at waits
              exact first other due waits
        | scheduled | dropped | nothing | refused => simp [Notice.expiry] at member

/-- They are called in the order in which they are due. -/
theorem Keeps.sorted {notices : List (Notice τ)} {a : Agenda τ} {clock : Nat}
    (h : Keeps notices a clock) : (notices.filterMap Notice.expiry).Pairwise (· ≤ ·) := by
  induction h with
  | start => exact .nil
  | @next notices a clock now n held later honest ih =>
      rw [List.filterMap_append]
      cases n with
      | expired who due at_ =>
          refine List.pairwise_append.mpr ⟨ih, List.pairwise_singleton _ _, fun d member d' member' => ?_⟩
          obtain rfl : d' = due := by simpa [Notice.expiry] using member'
          exact (held.expired_first d member).2 who d' honest.2.1
      | scheduled | dropped | nothing | refused => simpa [Notice.expiry, List.filterMap_cons] using ih

end Everscale.Theory
