/-
# Everscale.Base.Formatter -- formatters and the elements they write

A formatter keeps a state between calls, so that a call that ran out of room can be
continued by another.  Every element that succeeds is followed by a `Transition`, which
moves the state on and puts the write mark behind the element.

`Emits plan f slots` says that the formatter `f` does on a buffer what `Theory.emit`
does with `slots`, and that `plan` gives the elements that the state it keeps still has
to write; states between two calls of which there is nothing to say have no plan.
`emits_element` and `emits_part` follow the way the formatters are put together.
-/
import Everscale.Base.Writer
import Everscale.Theory.Elements

namespace Everscale

set_option autoImplicit false

open Theory

/-- What a call of a formatter returns. -/
structure Formatted (σ : Type) where
  code : Error
  state : σ
  output : Buffer
  deriving DecidableEq

abbrev Formatter (σ : Type) := σ → Buffer → Formatted σ

/-- An element of an HTTP message. -/
abbrev Element := Slot Error Octet

variable {σ τ : Type}

namespace Formatter

/-- Nothing is left to write. -/
def complete : Formatter σ := fun s b => ⟨.success, s, b⟩

/-- One element and, when it succeeds, `Transition` to the next state and the rest. -/
def element (w : Writer) (next : σ) (rest : Formatter σ) : Formatter σ := fun s b =>
  match w b with
  | (.success, b) => rest next b.writeMark
  | (e, b) => ⟨e, s, b⟩

/-- A formatter with a state of its own and, when it succeeds, the rest. -/
def part (f : Formatter σ) (get : τ → σ) (set : τ → σ → τ) (advance : τ → τ)
    (rest : Formatter τ) : Formatter τ := fun t b =>
  let o := f (get t) b
  if o.code = .success then rest (advance (set t o.state)) o.output.writeMark
  else ⟨o.code, set t o.state, o.output⟩

/-- Before its first octet a formatter asks for room for it, without rolling back, and
sets the mark. -/
def start (f : Formatter σ) (first : σ) : Formatter σ := fun s b =>
  if !b.isWritable then ⟨.again, s, b⟩ else f first b.writeMark

end Formatter

/-- A call of a formatter came to what a call of `emit` comes to. -/
def Formatted.Matches (plan : σ → Option (List Element)) (capacity : Nat) (o : Formatted σ) :
    Emission Error Octet → Prop
  | .done held => o.code = .success ∧ o.output.capacity = capacity ∧
      ∃ mark, Holds o.output held mark
  | .again rest held mark => o.code = .again ∧ o.output.capacity = capacity ∧
      plan o.state = some rest ∧ Holds o.output held mark
  | .failed => o.code ≠ .success

/-- The formatter writes the elements `slots`. -/
def Emits (plan : σ → Option (List Element)) (f : Buffer → Formatted σ) (slots : List Element) : Prop :=
  ∀ b held mark, Holds b held mark →
    (f b).Matches plan b.capacity (emit b.capacity slots held mark)

section emits

variable {plan : σ → Option (List Element)} {planIn : τ → Option (List Element)}
  {slots : List Element}

theorem emits_complete (s : σ) : Emits plan (Formatter.complete s) [] :=
  fun _ _ mark holds => ⟨rfl, rfl, mark, holds⟩

theorem emits_element {w : Writer} {s next : σ} {rest : Formatter σ}
    {text : Except Error (List Octet)} (renders : Renders w text)
    (here : plan s = some (⟨false, text⟩ :: slots)) (later : Emits plan (rest next) slots) :
    Emits plan (Formatter.element w next rest s) (⟨false, text⟩ :: slots) := by
  intro b held mark holds
  have begun : ¬ ((⟨false, text⟩ : Element).fresh ∧ b.capacity ≤ held.length) :=
    fun full => nomatch full.1
  rw [emit, if_neg begun]
  cases text with
  | error e =>
      have failed : (w b).1 ≠ .success := renders b
      simp only [Formatter.element]
      exact failed
  | ok text =>
      obtain ⟨wrote, rolled⟩ := (renders : Writes w text) b held mark holds
      by_cases fits : held.length + text.length ≤ b.capacity
      · obtain ⟨code, holds', capacity⟩ := wrote fits
        have ran : w b = (.success, (w b).2) := Prod.ext code rfl
        simp only [fits, if_true, Formatter.element]
        rw [ran]
        have goes := later _ _ _ holds'.writeMark
        rwa [show (w b).2.writeMark.capacity = b.capacity from capacity] at goes
      · obtain ⟨code, holds', capacity⟩ := rolled (Nat.lt_of_not_le fits)
        have ran : w b = (.again, (w b).2) := Prod.ext code rfl
        simp only [fits, if_false, Formatter.element]
        rw [ran]
        exact ⟨rfl, capacity, here, holds'⟩

theorem emits_start {f : Formatter σ} {s first : σ} {slot : Element} (fresh : slot.fresh = true)
    (here : plan s = some (slot :: slots))
    (emits : ∀ b held, Holds b held held.length →
      (f first b).Matches plan b.capacity (emit b.capacity (slot.begun :: slots) held held.length)) :
    Emits plan (Formatter.start f first s) (slot :: slots) := by
  intro b held mark holds
  have writable := holds.isWritable
  by_cases room : held.length < b.capacity
  · rw [emit_fresh fresh room, Formatter.start]
    simp only [writable.2 room, Bool.not_true, Bool.false_eq_true, if_false]
    exact emits b.writeMark held holds.writeMark
  · have full : b.isWritable = false := by
      simpa using mt writable.1 room
    rw [emit_fresh_full fresh (Nat.le_of_not_lt room), Formatter.start]
    simp only [full, Bool.not_false, if_true]
    exact ⟨rfl, rfl, here, holds⟩

theorem emits_part {f : Formatter σ} {get : τ → σ} {set : τ → σ → τ} {advance : τ → τ}
    {rest : Formatter τ} {t : τ} {first : List Element} (nonempty : first ≠ [])
    (inside : Emits plan (f (get t)) first)
    (here : ∀ s more, plan s = some more → planIn (set t s) = some (more ++ slots))
    (later : ∀ s, Emits planIn (rest (advance (set t s))) slots) :
    Emits planIn (Formatter.part f get set advance rest t) (first ++ slots) := by
  intro b held mark holds
  have came := inside b held mark holds
  rw [emit_append nonempty]
  simp only [Formatter.part]
  cases outcome : emit b.capacity first held mark with
  | done held' =>
      rw [outcome] at came
      obtain ⟨code, capacity, mark', holds'⟩ := came
      rw [if_pos code]
      have goes := later (f (get t) b).state _ _ _ holds'.writeMark
      rwa [show (f (get t) b).output.writeMark.capacity = b.capacity from capacity] at goes
  | again later' held' mark' =>
      rw [outcome] at came
      obtain ⟨code, capacity, rest', holds'⟩ := came
      rw [if_neg (by rw [code]; decide)]
      exact ⟨code, capacity, here _ _ rest', holds'⟩
  | failed =>
      rw [outcome] at came
      rw [if_neg came]
      exact came

end emits

end Everscale
