/-
# Theory.Elements -- writing a sequence of elements to a bounded buffer

A writer has a sequence of elements to put into a buffer that is emptied from time to
time.  It remembers a mark: before the first octet of an element the mark is where the
element starts, and when the element does not fit the writer takes back everything
behind the mark and asks for more room.

Between two calls the buffer may be emptied in part, and then the mark is at its start.
The element that is resumed next is the one whose octets the mark no longer separates
from those before it.  It may be *fresh*, which means that its writer sets the mark
before it begins; if it is not and does not fit, what is taken back is more than the
element.

`emit` is one call.  `emit_keeps` says that it loses nothing where `Resumes` holds, and
`emit_loses` that otherwise it loses all that the buffer held.
-/
import Mathlib.Data.List.Infix

namespace Everscale.Theory

set_option autoImplicit false

/-- An element to be written: its text, or why it cannot be written.  A fresh element
sets the mark first. -/
structure Slot (ε α : Type*) where
  fresh : Bool
  text : Except ε (List α)

/-- What one call comes to. -/
inductive Emission (ε α : Type*) where
  | done (held : List α)
  | again (rest : List (Slot ε α)) (held : List α) (mark : Nat)
  | failed

variable {ε α : Type*}

namespace Slot

/-- An element that has been begun. -/
def begun (s : Slot ε α) : Slot ε α := { s with fresh := false }

/-- The octets of an element, none if it cannot be written. -/
def octets (s : Slot ε α) : List α :=
  match s.text with
  | .ok text => text
  | .error _ => []

@[simp] theorem begun_octets (s : Slot ε α) : s.begun.octets = s.octets := rfl

@[simp] theorem begun_text (s : Slot ε α) : s.begun.text = s.text := rfl

end Slot

/-- One call: elements are written until one does not fit. -/
def emit (capacity : Nat) : List (Slot ε α) → List α → Nat → Emission ε α
  | [], held, _ => .done held
  | s :: rest, held, mark =>
      if s.fresh ∧ capacity ≤ held.length then .again (s :: rest) held mark
      else
        match s.text with
        | .error _ => .failed
        | .ok text =>
            if held.length + text.length ≤ capacity then
              emit capacity rest (held ++ text) (held ++ text).length
            else if s.fresh then .again (s.begun :: rest) held held.length
            else .again (s :: rest) (held.take mark) mark

/-- The octets that are still to be written. -/
def remaining (slots : List (Slot ε α)) : List α := slots.flatMap Slot.octets

/-- Every element can be written, and would fit into an empty buffer. -/
structure Fitting (capacity : Nat) (slots : List (Slot ε α)) : Prop where
  some : 0 < capacity
  accepted : ∀ s ∈ slots, ∃ text, s.text = .ok text
  fits : ∀ s ∈ slots, s.octets.length ≤ capacity

/-- A call on what the buffer holds loses none of it: there is nothing, or the element
that is resumed sets the mark first, or it fits. -/
def Resumes (capacity : Nat) (slots : List (Slot ε α)) (held : List α) : Prop :=
  held = [] ∨ ∀ s ∈ slots.head?, s.fresh = true ∨ held.length + s.octets.length ≤ capacity

instance [DecidableEq α] (capacity : Nat) (slots : List (Slot ε α)) (held : List α) :
    Decidable (Resumes capacity slots held) :=
  inferInstanceAs (Decidable (_ ∨ _))

section emit

variable {capacity mark : Nat} {slots rest : List (Slot ε α)} {held : List α}

theorem Fitting.tail {s : Slot ε α} (h : Fitting capacity (s :: rest)) : Fitting capacity rest :=
  ⟨h.some, fun t inside => h.accepted t (List.mem_cons_of_mem s inside),
    fun t inside => h.fits t (List.mem_cons_of_mem s inside)⟩

theorem Fitting.begun {s : Slot ε α} (h : Fitting capacity (s :: rest)) :
    Fitting capacity (s.begun :: rest) := by
  refine ⟨h.some, fun t inside => ?_, fun t inside => ?_⟩
  · rcases List.mem_cons.1 inside with rfl | later
    · exact h.accepted s List.mem_cons_self
    · exact h.accepted t (List.mem_cons_of_mem s later)
  · rcases List.mem_cons.1 inside with rfl | later
    · exact h.fits s List.mem_cons_self
    · exact h.fits t (List.mem_cons_of_mem s later)

/-- Writing one sequence and then another. -/
theorem emit_append {first second : List (Slot ε α)} (some : first ≠ []) :
    emit capacity (first ++ second) held mark =
      match emit capacity first held mark with
      | .done held => emit capacity second held held.length
      | .again rest held mark => .again (rest ++ second) held mark
      | .failed => .failed := by
  induction first generalizing held mark with
  | nil => exact absurd rfl some
  | cons s rest ih =>
      rw [List.cons_append, emit, emit]
      by_cases wait : s.fresh ∧ capacity ≤ held.length
      · rw [if_pos wait, if_pos wait]; rfl
      · rw [if_neg wait, if_neg wait]
        cases s.text with
        | error e => rfl
        | ok text =>
            by_cases fits : held.length + text.length ≤ capacity
            · simp only [fits, if_true]
              cases rest with
              | nil => rfl
              | cons t rest => exact ih (List.cons_ne_nil t rest)
            · simp only [fits, if_false]
              split <;> rfl

/-- Beginning with a fresh element is setting the mark and beginning it. -/
theorem emit_fresh {s : Slot ε α} (fresh : s.fresh = true) (room : held.length < capacity) :
    emit capacity (s :: rest) held mark = emit capacity (s.begun :: rest) held held.length := by
  have begins : ¬ (s.fresh ∧ capacity ≤ held.length) := fun full => by omega
  have begun : ¬ (s.begun.fresh ∧ capacity ≤ held.length) := fun full => nomatch full.1
  rw [emit, emit, if_neg begins, if_neg begun, Slot.begun_text]
  cases s.text with
  | error e => rfl
  | ok text => simp only [fresh, if_true, List.take_length]; rfl

theorem emit_fresh_full {s : Slot ε α} (fresh : s.fresh = true) (full : capacity ≤ held.length) :
    emit capacity (s :: rest) held mark = .again (s :: rest) held mark := by
  rw [emit, if_pos ⟨fresh, full⟩]

/-- A call ends by having written everything, in order. -/
theorem emit_done {held' : List α} (h : emit capacity slots held mark = .done held') :
    held' = held ++ remaining slots ∧ ∀ s ∈ slots, ∃ text, s.text = .ok text := by
  induction slots generalizing held mark with
  | nil => cases h; simp [remaining]
  | cons s rest ih =>
      rw [emit] at h
      by_cases wait : s.fresh ∧ capacity ≤ held.length
      · rw [if_pos wait] at h; cases h
      · rw [if_neg wait] at h
        cases text : s.text with
        | error e => rw [text] at h; cases h
        | ok octets =>
            simp only [text] at h
            by_cases fits : held.length + octets.length ≤ capacity
            · rw [if_pos fits] at h
              obtain ⟨written, accepted⟩ := ih h
              refine ⟨?_, fun t inside => ?_⟩
              · rw [written, List.append_assoc, remaining, remaining, List.flatMap_cons, Slot.octets,
                  text]
              · rcases List.mem_cons.1 inside with rfl | later
                · exact ⟨octets, text⟩
                · exact accepted t later
            · rw [if_neg fits] at h
              split at h <;> cases h

/-- What a call that asks for room owes its caller: nothing is lost, there is something
to make room with, and the rest can still be written. -/
structure Kept (capacity : Nat) (slots : List (Slot ε α)) (held : List α)
    (rest : List (Slot ε α)) (held' : List α) : Prop where
  same : held' ++ remaining rest = held ++ remaining slots
  some : held' ≠ []
  fitting : Fitting capacity rest

theorem emit_kept_of_mark {held' : List α} {mark' : Nat} (fitting : Fitting capacity slots)
    (marked : mark = held.length ∨ Resumes capacity slots held)
    (h : emit capacity slots held mark = .again rest held' mark') :
    Kept capacity slots held rest held' := by
  induction slots generalizing held mark with
  | nil => cases h
  | cons s later ih =>
      obtain ⟨text, accepted⟩ := fitting.accepted s List.mem_cons_self
      have octets : s.octets = text := by rw [Slot.octets, accepted]
      have alone : text.length ≤ capacity := octets ▸ fitting.fits s List.mem_cons_self
      rw [emit] at h
      by_cases wait : s.fresh ∧ capacity ≤ held.length
      · rw [if_pos wait] at h
        cases h
        have positive := fitting.some
        refine ⟨rfl, fun empty => ?_, fitting⟩
        rw [empty, List.length_nil] at wait
        omega
      · rw [if_neg wait] at h
        simp only [accepted] at h
        by_cases fits : held.length + text.length ≤ capacity
        · rw [if_pos fits] at h
          obtain ⟨same, some, fitting'⟩ := ih fitting.tail (.inl rfl) h
          refine ⟨?_, some, fitting'⟩
          rw [same, remaining, remaining, List.flatMap_cons, octets, List.append_assoc]
        · rw [if_neg fits] at h
          have nonempty : held ≠ [] := fun empty => fits (by simpa [empty] using alone)
          by_cases fresh : s.fresh = true
          · rw [if_pos fresh] at h
            cases h
            exact ⟨rfl, nonempty, fitting.begun⟩
          · rw [if_neg fresh] at h
            cases h
            have behind : mark' = held.length := by
              rcases marked with marked | empty | head
              · exact marked
              · exact absurd empty nonempty
              · rcases head s rfl with begun | room
                · exact absurd begun fresh
                · exact absurd (octets ▸ room) fits
            rw [behind, List.take_length]
            exact ⟨rfl, nonempty, fitting⟩

/-- A call that asks for room loses nothing where it may be resumed. -/
theorem emit_keeps {held' : List α} {mark' : Nat} (fitting : Fitting capacity slots)
    (resumes : Resumes capacity slots held)
    (h : emit capacity slots held mark = .again rest held' mark') :
    Kept capacity slots held rest held' :=
  emit_kept_of_mark fitting (.inr resumes) h

/-- Elements that can be written do not fail. -/
theorem emit_ne_failed (fitting : Fitting capacity slots) :
    emit capacity slots held mark ≠ .failed := by
  induction slots generalizing held mark with
  | nil => nofun
  | cons s later ih =>
      obtain ⟨text, accepted⟩ := fitting.accepted s List.mem_cons_self
      rw [emit]
      split
      · nofun
      · simp only [accepted]
        split
        · exact ih fitting.tail
        · split <;> nofun

/-- Elsewhere a call after the mark has gone back to the start loses all that was held. -/
theorem emit_loses (fitting : Fitting capacity slots) (lost : ¬ Resumes capacity slots held) :
    emit capacity slots held 0 = .again slots [] 0 ∧ held ≠ [] := by
  have nonempty : held ≠ [] := fun empty => lost (.inl empty)
  cases slots with
  | nil => exact absurd (.inr nofun) lost
  | cons s later =>
      obtain ⟨text, accepted⟩ := fitting.accepted s List.mem_cons_self
      have octets : s.octets = text := by rw [Slot.octets, accepted]
      have begun : s.fresh = false := by
        cases fresh : s.fresh with
        | false => rfl
        | true =>
            refine absurd (.inr fun t head => ?_) lost
            cases head; exact .inl fresh
      have full : ¬ held.length + text.length ≤ capacity := fun room => by
        refine absurd (.inr fun t head => ?_) lost
        cases head; exact .inr (octets ▸ room)
      refine ⟨?_, nonempty⟩
      simp [emit, begun, accepted, full]

end emit

/-! ## What a sequence spells -/

/-- All elements can be written, and this is what they write. -/
def Spells : List (Slot ε α) → List α → Prop
  | [], text => text = []
  | s :: rest, text => ∃ first later, s.text = .ok first ∧ Spells rest later ∧ text = first ++ later

section spells

variable {slots : List (Slot ε α)} {held text : List α} {capacity mark : Nat}

theorem spells_append {first second : List (Slot ε α)} :
    Spells (first ++ second) text ↔ ∃ t u, Spells first t ∧ Spells second u ∧ text = t ++ u := by
  induction first generalizing text with
  | nil => exact ⟨fun h => ⟨[], text, rfl, h, rfl⟩, by rintro ⟨_, u, rfl, h, rfl⟩; exact h⟩
  | cons s rest ih =>
      constructor
      · rintro ⟨begin', later, here, spells, rfl⟩
        obtain ⟨t, u, front, back, rfl⟩ := ih.mp spells
        exact ⟨begin' ++ t, u, ⟨begin', t, here, front, rfl⟩, back, (List.append_assoc _ _ _).symm⟩
      · rintro ⟨_, u, ⟨begin', t, here, front, rfl⟩, back, rfl⟩
        exact ⟨begin', t ++ u, here, ih.mpr ⟨t, u, front, back, rfl⟩, List.append_assoc _ _ _⟩

theorem spells_remaining (accepted : ∀ s ∈ slots, ∃ text, s.text = .ok text) : Spells slots (remaining slots) := by
  induction slots with
  | nil => rfl
  | cons s rest ih =>
      obtain ⟨text, here⟩ := accepted s List.mem_cons_self
      refine ⟨text, remaining rest, here, ih fun t inside => accepted t (List.mem_cons_of_mem s inside), ?_⟩
      rw [remaining, List.flatMap_cons, Slot.octets, here]
      rfl

/-- A sequence spells one text only. -/
theorem spells_eq_remaining (spells : Spells slots text) : text = remaining slots := by
  induction slots generalizing text with
  | nil => exact spells
  | cons s rest ih =>
      obtain ⟨first, later, here, spells, rfl⟩ := spells
      rw [ih spells, remaining, remaining, List.flatMap_cons, Slot.octets, here]

/-- A call that is done has written what the sequence spells. -/
theorem emit_spells {held' : List α} (h : emit capacity slots held mark = .done held') :
    ∃ text, Spells slots text ∧ held' = held ++ text := by
  obtain ⟨written, accepted⟩ := emit_done h
  exact ⟨remaining slots, spells_remaining accepted, written⟩

/-- What ends with an element that is not empty is not empty. -/
theorem spells_ne_nil (spells : Spells slots text) (nonempty : slots ≠ [])
    (ends : ∀ last ∈ slots.getLast?, last.octets ≠ []) : text ≠ [] := by
  induction slots generalizing text with
  | nil => exact absurd rfl nonempty
  | cons s rest ih =>
      obtain ⟨first, later, here, spells, rfl⟩ := spells
      cases rest with
      | nil =>
          have some : s.octets ≠ [] := ends s rfl
          rw [Slot.octets, here] at some
          exact fun empty => some (List.append_eq_nil_iff.mp empty).1
      | cons t more =>
          rw [List.getLast?_cons_cons] at ends
          exact fun empty => ih spells (List.cons_ne_nil t more) ends (List.append_eq_nil_iff.mp empty).2

/-- One call writes a sequence whose last element is not empty, where there is room for all of it. -/
theorem emit_of_spells (spells : Spells slots text) (ends : ∀ last ∈ slots.getLast?, last.octets ≠ [])
    (room : held.length + text.length ≤ capacity) : emit capacity slots held mark = .done (held ++ text) := by
  induction slots generalizing held text mark with
  | nil =>
      obtain rfl : text = [] := spells
      rw [emit, List.append_nil]
  | cons s rest ih =>
      have some := List.length_pos_iff.mpr (spells_ne_nil spells (List.cons_ne_nil s rest) ends)
      obtain ⟨first, later, here, spells, rfl⟩ := spells
      have later_ends : ∀ last ∈ rest.getLast?, last.octets ≠ [] := by
        cases rest with
        | nil => rintro last ⟨⟩
        | cons t more => rwa [List.getLast?_cons_cons] at ends
      have begins : ¬ (s.fresh ∧ capacity ≤ held.length) := fun full => by omega
      rw [List.length_append] at room
      rw [emit, if_neg begins, here]
      dsimp only
      rw [if_pos (by omega), ih spells later_ends (by rw [List.length_append]; omega), List.append_assoc]

end spells

end Everscale.Theory
