/-
# Theory.Serving -- a component that serves its callers as an abstract one does

`perform` answers a call and moves to another state, or gets stuck.  `serves` says which answer
the abstract component gives, and what becomes of it.  If one call keeps the states related, as
long as it fits, a sequence of fitting calls is served to its end (`KeepsServing.run`).

Where a call fits exactly if it leaves a state with some property, the calls of a sequence all fit
exactly if each of them does (`afterEach_iff`); where a legal call fits exactly if it is served, those
of a legal sequence all fit exactly if each of them is (`servesEach_iff`).
-/
import Mathlib.Logic.Relation
import Mathlib.Tactic.Common

namespace Everscale.Theory

set_option autoImplicit false

variable {σ κ α τ : Type*} (perform : σ → κ → Option (α × σ)) (fits : σ → κ → Prop)
  (serves : τ → κ → α → τ → Prop)

/-- The answers to one call after another. -/
def serveAll : σ → List κ → Option (List α × σ)
  | s, [] => some ([], s)
  | s, call :: calls =>
      (perform s call).bind fun (answer, s) =>
        (serveAll s calls).map fun (answers, s) => (answer :: answers, s)

/-- Every call fits the state that the calls before it leave. -/
def AllFit : σ → List κ → Prop
  | _, [] => True
  | s, call :: calls => fits s call ∧ ∀ answer s', perform s call = some (answer, s') → AllFit s' calls

/-- Every call is answered, and leaves a state with the property. -/
def AfterEach (P : σ → Prop) : σ → List κ → Prop
  | _, [] => True
  | s, call :: calls => ∃ answer s', perform s call = some (answer, s') ∧ P s' ∧ AfterEach P s' calls

inductive ServesAll : τ → List κ → List α → τ → Prop where
  | nil {t} : ServesAll t [] [] t
  | cons {t t' t'' call calls answer answers} : serves t call answer t' →
      ServesAll t' calls answers t'' → ServesAll t (call :: calls) (answer :: answers) t''

/-- A fitting call is answered as in the abstract state, and leaves states that are related. -/
def KeepsServing (related : σ → τ → Prop) : Prop :=
  ∀ s t call, related s t → fits s call →
    ∃ answer s' t', perform s call = some (answer, s') ∧ related s' t' ∧ serves t call answer t'

/-- Every call is answered as in the abstract state, and leaves states that are related. -/
def ServesEach (related : σ → τ → Prop) : σ → τ → List κ → Prop
  | _, _, [] => True
  | s, t, call :: calls => ∃ answer s' t', perform s call = some (answer, s') ∧ related s' t' ∧
      serves t call answer t' ∧ ServesEach related s' t' calls

variable {perform fits serves}

instance AllFit.decidable [∀ s call, Decidable (fits s call)] :
    (s : σ) → (calls : List κ) → Decidable (AllFit perform fits s calls)
  | _, [] => isTrue trivial
  | s, call :: calls =>
      match done : perform s call with
      | none => decidable_of_iff (fits s call)
          ⟨fun fit => ⟨fit, fun _ _ performed => nomatch done.symm.trans performed⟩, fun fit => fit.1⟩
      | some (answer, s') =>
          have := AllFit.decidable s' calls
          decidable_of_iff (fits s call ∧ AllFit perform fits s' calls)
            ⟨fun fit => ⟨fit.1, fun _ _ performed => by cases done.symm.trans performed; exact fit.2⟩,
              fun fit => ⟨fit.1, fit.2 answer s' done⟩⟩

theorem AllFit.mono {fits' : σ → κ → Prop} (sub : ∀ s call, fits s call → fits' s call) {s : σ} {calls : List κ}
    (fit : AllFit perform fits s calls) : AllFit perform fits' s calls := by
  induction calls generalizing s with
  | nil => trivial
  | cons call calls ih => exact ⟨sub s call fit.1, fun answer s' performed => ih (fit.2 answer s' performed)⟩

theorem AllFit.cons {s s' : σ} {call : κ} {calls : List κ} {answer : α} (fit : fits s call)
    (performed : perform s call = some (answer, s')) (later : AllFit perform fits s' calls) :
    AllFit perform fits s (call :: calls) := by
  refine ⟨fit, fun answer' s'' again => ?_⟩
  obtain ⟨-, rfl⟩ := Prod.mk.inj (Option.some.inj (performed.symm.trans again))
  exact later

theorem serveAll_cons {s s' s'' : σ} {call : κ} {calls : List κ} {answer : α} {answers : List α}
    (performed : perform s call = some (answer, s')) (later : serveAll perform s' calls = some (answers, s'')) :
    serveAll perform s (call :: calls) = some (answer :: answers, s'') := by
  rw [serveAll, performed, Option.bind_some]
  dsimp only
  rw [later, Option.map_some]

/-- A state that fitting calls lead to is reached by fitting steps. -/
theorem AllFit.reached {s s' : σ} {calls : List κ} {answers : List α} (fit : AllFit perform fits s calls)
    (served : serveAll perform s calls = some (answers, s')) :
    Relation.ReflTransGen (fun s s' => ∃ call answer, fits s call ∧ perform s call = some (answer, s')) s s' := by
  induction calls generalizing s answers with
  | nil =>
      cases served
      exact .refl
  | cons call calls ih =>
      obtain ⟨⟨answer, s₁⟩, performed, served⟩ := Option.bind_eq_some_iff.mp served
      obtain ⟨⟨answers', s''⟩, rest, same⟩ := Option.map_eq_some_iff.mp served
      cases same
      exact .head ⟨call, answer, fit.1, performed⟩ (ih (fit.2 answer s₁ performed) rest)

/-- What there is to see of the state that fitting calls lead to. -/
theorem AllFit.reached_view {s : σ} {calls : List κ} (fit : AllFit perform fits s calls) {β : Type*} (view : σ → β)
    {shown : β} {answers : List α}
    (served : (serveAll perform s calls).map (fun (answers, s) => (answers, view s)) = some (answers, shown)) :
    ∃ s', serveAll perform s calls = some (answers, s') ∧ view s' = shown ∧
      Relation.ReflTransGen (fun s s' => ∃ call answer, fits s call ∧ perform s call = some (answer, s')) s s' := by
  obtain ⟨⟨answers', s'⟩, ends, same⟩ := Option.map_eq_some_iff.mp served
  obtain ⟨rfl, rfl⟩ := Prod.mk.inj same
  exact ⟨s', ends, rfl, fit.reached ends⟩

theorem KeepsServing.run {related : σ → τ → Prop} (keeps : KeepsServing perform fits serves related) {s : σ} {t : τ}
    (start : related s t) {calls : List κ} (fit : AllFit perform fits s calls) :
    ∃ answers s' t', serveAll perform s calls = some (answers, s') ∧ related s' t' ∧
      ServesAll serves t calls answers t' := by
  induction calls generalizing s t with
  | nil => exact ⟨[], s, t, rfl, start, .nil⟩
  | cons call calls ih =>
      obtain ⟨answer, s₁, t₁, performed, related₁, served⟩ := keeps s t call start fit.1
      obtain ⟨answers, s', t', rest, related', servedAll⟩ := ih related₁ (fit.2 answer s₁ performed)
      exact ⟨answer :: answers, s', t', serveAll_cons performed rest, related', .cons served servedAll⟩

theorem allFit_of_forall (all : ∀ s call, fits s call) (s : σ) (calls : List κ) : AllFit perform fits s calls := by
  induction calls generalizing s with
  | nil => trivial
  | cons call calls ih => exact ⟨all s call, fun _ s' _ => ih s'⟩

theorem afterEach_iff_of_legal {I P : σ → Prop} {legal : σ → κ → Prop}
    (kept : ∀ {s call answer s'}, I s → perform s call = some (answer, s') → I s')
    (one : ∀ {s call}, I s → P s → legal s call →
      (fits s call ↔ ∃ answer s', perform s call = some (answer, s') ∧ P s'))
    {s : σ} (invariant : I s) (start : P s) {calls : List κ} (allLegal : AllFit perform legal s calls) :
    AfterEach perform P s calls ↔ AllFit perform fits s calls := by
  induction calls generalizing s with
  | nil => exact Iff.rfl
  | cons call calls ih =>
      constructor
      · rintro ⟨answer, s', performed, holds, later⟩
        have fit := (one invariant start allLegal.1).mpr ⟨answer, s', performed, holds⟩
        exact .cons fit performed ((ih (kept invariant performed) holds (allLegal.2 answer s' performed)).mp later)
      · rintro ⟨fit, later⟩
        obtain ⟨answer, s', performed, holds⟩ := (one invariant start allLegal.1).mp fit
        exact ⟨answer, s', performed, holds,
          (ih (kept invariant performed) holds (allLegal.2 answer s' performed)).mpr (later answer s' performed)⟩

theorem afterEach_iff {I P : σ → Prop} (kept : ∀ {s call answer s'}, I s → perform s call = some (answer, s') → I s')
    (one : ∀ {s call}, I s → P s → (fits s call ↔ ∃ answer s', perform s call = some (answer, s') ∧ P s'))
    {s : σ} (invariant : I s) (start : P s) (calls : List κ) :
    AfterEach perform P s calls ↔ AllFit perform fits s calls :=
  afterEach_iff_of_legal kept (fun invariant start _ => one invariant start) invariant start
    (allFit_of_forall (fun _ _ => trivial) s calls)

theorem servesEach_iff {legal : σ → κ → Prop} {related : σ → τ → Prop}
    (one : ∀ {s t call}, related s t → legal s call →
      (fits s call ↔ ∃ answer s' t', perform s call = some (answer, s') ∧ related s' t' ∧ serves t call answer t'))
    {s : σ} {t : τ} (start : related s t) {calls : List κ} (allLegal : AllFit perform legal s calls) :
    ServesEach perform serves related s t calls ↔ AllFit perform fits s calls := by
  induction calls generalizing s t with
  | nil => exact Iff.rfl
  | cons call calls ih =>
      constructor
      · rintro ⟨answer, s', t', performed, related', served, later⟩
        have fit := (one start allLegal.1).mpr ⟨answer, s', t', performed, related', served⟩
        exact .cons fit performed ((ih related' (allLegal.2 answer s' performed)).mp later)
      · rintro ⟨fit, later⟩
        obtain ⟨answer, s', t', performed, related', served⟩ := (one start allLegal.1).mp fit
        exact ⟨answer, s', t', performed, related', served,
          (ih related' (allLegal.2 answer s' performed)).mpr (later answer s' performed)⟩

theorem serveAll_concat {s : σ} (calls : List κ) (call : κ) :
    serveAll perform s (calls ++ [call]) = (serveAll perform s calls).bind fun (answers, s) =>
      (perform s call).map fun (answer, s) => (answers ++ [answer], s) := by
  induction calls generalizing s with
  | nil =>
      rw [List.nil_append, serveAll, serveAll, Option.bind_some]
      dsimp only
      cases perform s call <;> rfl
  | cons first calls ih =>
      rw [List.cons_append, serveAll, serveAll]
      cases perform s first with
      | none => rfl
      | some done =>
          rw [Option.bind_some, Option.bind_some]
          dsimp only
          rw [ih]
          cases serveAll perform done.2 calls with
          | none => rfl
          | some rest =>
              rw [Option.bind_some, Option.map_some, Option.bind_some]
              dsimp only
              cases perform rest.2 call <;> rfl

end Everscale.Theory
