/-
# Theory.Kept -- what a stateful program leaves true

A triple about a program on one state is a statement about its runs (`triple_iff`), and a
predicate that every step of a list keeps is kept by the list (`foldl_kept`).
-/
import Std.Tactic.Do

namespace Everscale

set_option autoImplicit false

open Std.Do

variable {σ α β ε : Type}

/-! ## What a program comes to -/

theorem bind_apply (p : StateM σ α) (f : α → StateM σ β) (s : σ) : (p >>= f) s = f (p s).1 (p s).2 := rfl

theorem pure_apply (a : α) (s : σ) : (pure a : StateM σ α) s = (a, s) := rfl

theorem get_bind (f : σ → StateM σ β) (s : σ) : ((get : StateM σ σ) >>= f) s = f s s := rfl

theorem modify_apply (f : σ → σ) (s : σ) : (modify f : StateM σ Unit) s = ((), f s) := rfl

theorem discard_apply (p : StateM σ α) (s : σ) : discard p s = ((), (p s).2) := rfl

/-! ## What a program leaves true -/

theorem triple_iff {P : σ → Prop} {p : StateM σ α} {Q : α → σ → Prop} :
    (⦃fun s => ⌜P s⌝⦄ p ⦃⇓ a s => ⌜Q a s⌝⦄) ↔ ∀ s, P s → Q (p s).1 (p s).2 :=
  ⟨fun h s holds => h s holds, fun h s holds => h s holds⟩

/-- The program leaves `I` true. -/
abbrev Kept (I : σ → Prop) (p : StateM σ α) : Prop := ⦃fun s => ⌜I s⌝⦄ p ⦃⇓ _ s => ⌜I s⌝⦄

theorem kept_iff {I : σ → Prop} {p : StateM σ α} : Kept I p ↔ ∀ s, I s → I (p s).2 := triple_iff

theorem discard_keeps {I : σ → Prop} {p : StateM σ α} (h : Kept I p) : Kept I (discard p) :=
  kept_iff.2 fun s start => kept_iff.1 h s start

/-- A run of steps each of which keeps `I` keeps `I`. -/
theorem foldl_kept {I : σ → Prop} {step : ε → StateM σ Unit} {events : List ε}
    (kept : ∀ e ∈ events, Kept I (step e)) (s : σ) (start : I s) :
    I (events.foldl (fun s e => (step e s).2) s) := by
  induction events generalizing s with
  | nil => exact start
  | cons e rest ih =>
      have first := kept_iff.1 (kept e (by simp)) s start
      exact ih (fun e' later => kept e' (by simp [later])) _ first

end Everscale
