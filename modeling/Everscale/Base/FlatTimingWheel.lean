/-
# Everscale.Base.FlatTimingWheel -- timers in the slots of a wheel

A timer that is due in tick `n` waits in slot `n` modulo the number of slots.  `_currentTick`
follows the clock only when `nextExpired` finds a slot empty or has emptied it, so timers that
are late and timers that lie ahead share the wheel.  What keeps them apart is the window
(`Turning`): a timer that waits is due after the current tick and less than one turn later.

The arithmetic is that of 32-bit numbers, as in the source.  `ticks` multiplies the elapsed
seconds by 1000 first, which is right for as long as the product fits (`ticks_of_fits`).
-/
import Mathlib.Data.Nat.ModEq
import Everscale.Base.Error
import Everscale.Theory.Agenda
import Everscale.Theory.Interleaving
import Everscale.Theory.Serving

namespace Everscale

set_option autoImplicit false

open Theory (Agenda Notice Run serveAll AllFit)

/-! ## Dates -/

/-- A point in time; the clock gives less than a million microseconds. -/
structure Date where
  seconds : Nat
  microSeconds : Nat
  seconds_lt : seconds < 2 ^ 32 := by decide
  microSeconds_lt : microSeconds < 1000000 := by decide

namespace Date

/-- `operator<=` -/
def le (a b : Date) : Prop :=
  a.seconds < b.seconds ∨ a.seconds = b.seconds ∧ a.microSeconds ≤ b.microSeconds

instance : LE Date := ⟨le⟩

instance (a b : Date) : Decidable (a.le b) := inferInstanceAs (Decidable (_ ∨ _))

/-- `operator-=` -/
def sub (a b : Date) : Date :=
  if borrow : b.microSeconds > a.microSeconds then
    { seconds := (a.seconds + 2 * 2 ^ 32 - 1 - b.seconds) % 2 ^ 32
      microSeconds := a.microSeconds + 1000 * 1000 - b.microSeconds
      seconds_lt := Nat.mod_lt _ (by decide)
      microSeconds_lt := by have := a.microSeconds_lt; omega }
  else
    { seconds := (a.seconds + 2 ^ 32 - b.seconds) % 2 ^ 32
      microSeconds := a.microSeconds - b.microSeconds
      seconds_lt := Nat.mod_lt _ (by decide)
      microSeconds_lt := by have := a.microSeconds_lt; omega }

end Date

/-! ## The wheel -/

/-- A wheel, and the ticks of all timers; a timer that does not wait has tick `-1`. -/
structure FlatTimingWheel (τ : Type) where
  start : Date
  tickMilliSeconds : Nat
  maxTicks : Nat
  currentTick : Nat := 0
  /-- `_timers` is not null. -/
  allocated : Bool := true
  timers : Nat → List τ := fun _ => []
  tick : τ → Int := fun _ => -1

/-- A 32-bit number read as a signed one. -/
def toInt32 (n : Nat) : Int := (n : Int).bmod (2 ^ 32)

/-- A signed number read as an unsigned 32-bit one. -/
def toUInt32 (n : Int) : Nat := (n % 2 ^ 32).toNat

namespace FlatTimingWheel

variable {τ : Type}

def inTimingWheel (w : FlatTimingWheel τ) (timer : τ) : Bool := 0 ≤ w.tick timer

def idx (w : FlatTimingWheel τ) (value : Int) : Nat :=
  (toUInt32 value % w.maxTicks + w.maxTicks) % 2 ^ 32 % w.maxTicks

def ticks (w : FlatTimingWheel τ) (date : Date) : Nat :=
  let ticks := date.seconds * 1000 % 2 ^ 32 / w.tickMilliSeconds
  (ticks + date.microSeconds / 1000 / w.tickMilliSeconds) % 2 ^ 32

variable [DecidableEq τ]

/-- `setTick`, then `addLast` to the slot. -/
def place (w : FlatTimingWheel τ) (timer : τ) (tick : Nat) : FlatTimingWheel τ :=
  let i := w.idx (toInt32 tick)
  { w with
    timers := Function.update w.timers i (w.timers i ++ [timer])
    tick := Function.update w.tick timer (toInt32 tick) }

/-- The slot's `remove`, then the timer's. -/
def displace (w : FlatTimingWheel τ) (timer : τ) : FlatTimingWheel τ :=
  let i := w.idx (w.tick timer)
  { w with
    timers := Function.update w.timers i ((w.timers i).erase timer)
    tick := Function.update w.tick timer (-1) }

def insert (w : FlatTimingWheel τ) (timer : Option τ) (delayMilliSeconds : Nat) (now : Date) :
    Error × FlatTimingWheel τ :=
  match timer with
  | none => (.nullPointer, w)
  | some timer =>
      if w.allocated = false then (.outOfMemory, w)
      else if w.inTimingWheel timer then (.assertFailed, w)
      else
        let nowTick := w.ticks (now.sub w.start)
        let delayTicks := delayMilliSeconds / w.tickMilliSeconds
        if (nowTick + delayTicks) % 2 ^ 32 ≤ w.currentTick then (.underflow, w)
        else if (nowTick + delayTicks) % 2 ^ 32 ≥ (w.currentTick + w.maxTicks) % 2 ^ 32 then
          (.overflow, w)
        else (.success, w.place timer ((nowTick + delayTicks) % 2 ^ 32))

def remove (w : FlatTimingWheel τ) (timer : Option τ) : Error × FlatTimingWheel τ :=
  match timer with
  | none => (.nullPointer, w)
  | some timer =>
      if w.inTimingWheel timer = false then (.invalidArgument, w)
      else if w.allocated = false then (.outOfMemory, w)
      else (.success, w.displace timer)

def update (w : FlatTimingWheel τ) (timer : Option τ) (delayMilliSeconds : Nat) (now : Date) :
    Error × FlatTimingWheel τ :=
  match timer with
  | none => (.nullPointer, w)
  | some timer =>
      if w.allocated = false then (.outOfMemory, w)
      else if w.inTimingWheel timer = false then w.insert timer delayMilliSeconds now
      else
        let nowTick := w.ticks (now.sub w.start)
        let delayTicks := delayMilliSeconds / w.tickMilliSeconds
        if (nowTick + delayTicks) % 2 ^ 32 ≤ w.currentTick then (.underflow, w.displace timer)
        else if (nowTick + delayTicks) % 2 ^ 32 ≥ (w.currentTick + w.maxTicks) % 2 ^ 32 then
          (.overflow, w)
        else if (nowTick + delayTicks) % 2 ^ 32 = toUInt32 (w.tick timer) then (.success, w)
        else (.success, (w.displace timer).place timer ((nowTick + delayTicks) % 2 ^ 32))

/-- The loop of `nextExpired`, from `tick` on over `n` more slots. -/
def expireFrom (w : FlatTimingWheel τ) (tick : Nat) : Nat → Option (τ × FlatTimingWheel τ)
  | 0 => none
  | n + 1 =>
      let i := w.idx (toInt32 tick)
      match w.timers i with
      | [] => expireFrom w (tick + 1) n
      | timer :: rest =>
          some (timer,
            { w with
              timers := Function.update w.timers i rest
              tick := Function.update w.tick timer (-1)
              currentTick := if rest = [] then tick else w.currentTick })

/-- The timer, if any; reading the slots of a wheel that got no memory ends the process. -/
def nextExpired (w : FlatTimingWheel τ) (now : Date) : Except Error (Option τ × FlatTimingWheel τ) :=
  let nowTick := w.ticks (now.sub w.start)
  if nowTick = w.currentTick then .ok (none, w)
  else if w.allocated = false ∧ w.currentTick ≤ nowTick then .error .nullDereference
  else
    match w.expireFrom w.currentTick (nowTick + 1 - w.currentTick) with
    | some (timer, w') => .ok (some timer, w')
    | none => .ok (none, { w with currentTick := nowTick })

/-! ## Ticks -/

end FlatTimingWheel

namespace Date

/-- The microseconds since the beginning of time. -/
def total (d : Date) : Nat := d.seconds * 1000000 + d.microSeconds

theorem le_iff {a b : Date} : a ≤ b ↔ a.total ≤ b.total := by
  have ha := a.microSeconds_lt
  have hb := b.microSeconds_lt
  change (a.seconds < b.seconds ∨ a.seconds = b.seconds ∧ a.microSeconds ≤ b.microSeconds) ↔ _
  unfold total
  omega

theorem sub_total {a b : Date} (h : b ≤ a) : (a.sub b).total = a.total - b.total := by
  have ha := a.microSeconds_lt
  have hb := b.microSeconds_lt
  have ha' := a.seconds_lt
  have hb' := b.seconds_lt
  rw [le_iff] at h
  unfold total at *
  unfold sub
  split <;> dsimp only <;> omega

/-- The tick that a time falls into, reckoned from the start. -/
def tickCount (tickMilliSeconds : Nat) (d : Date) : Nat :=
  d.seconds * 1000 / tickMilliSeconds + d.microSeconds / 1000 / tickMilliSeconds

theorem tickCount_mono {a b : Date} {m : Nat} (h : a.total ≤ b.total) : a.tickCount m ≤ b.tickCount m := by
  have ha := a.microSeconds_lt
  unfold total at h
  unfold tickCount
  rcases Nat.lt_or_ge a.seconds b.seconds with less | notLess
  · calc a.seconds * 1000 / m + a.microSeconds / 1000 / m
        ≤ (a.seconds * 1000 + a.microSeconds / 1000) / m := Nat.div_add_div_le_add_div
      _ ≤ b.seconds * 1000 / m := by
          have : a.microSeconds / 1000 < 1000 := Nat.div_lt_of_lt_mul ha
          have whole : a.seconds * 1000 + a.microSeconds / 1000 ≤ b.seconds * 1000 := by
            clear ha h
            omega
          exact Nat.div_le_div_right whole
      _ ≤ _ := Nat.le_add_right ..
  · have same : a.seconds = b.seconds := by
      have hb := b.microSeconds_lt
      omega
    rw [same]
    exact Nat.add_le_add_left (Nat.div_le_div_right (Nat.div_le_div_right (by omega))) _

theorem sub_mono {start a b : Date} (ha : start ≤ a) (h : a ≤ b) : (a.sub start).total ≤ (b.sub start).total := by
  have hb : start ≤ b := le_iff.mpr ((le_iff.mp ha).trans (le_iff.mp h))
  rw [sub_total ha, sub_total hb]
  exact Nat.sub_le_sub_right (le_iff.mp h) _

end Date

namespace FlatTimingWheel

variable {τ : Type} {w : FlatTimingWheel τ}

theorem ticks_of_fits {d : Date} (fits : d.seconds * 1000 < 2 ^ 32)
    (small : d.tickCount w.tickMilliSeconds < 2 ^ 32) : w.ticks d = d.tickCount w.tickMilliSeconds := by
  unfold ticks
  rw [Nat.mod_eq_of_lt fits]
  exact Nat.mod_eq_of_lt small

/-! ## Uptimes -/

/-- The milliseconds since the start over the length of a tick. -/
def elapsedTicks (w : FlatTimingWheel τ) (now : Date) : Nat :=
  (now.total - w.start.total) / 1000 / w.tickMilliSeconds

/-- The whole seconds since the start. -/
def elapsedSeconds (w : FlatTimingWheel τ) (now : Date) : Nat := (now.total - w.start.total) / 1000000

section

variable {now : Date}

theorem elapsedSeconds_eq (later : w.start ≤ now) : (now.sub w.start).seconds = w.elapsedSeconds now := by
  have total := Date.sub_total later
  have := (now.sub w.start).microSeconds_lt
  unfold elapsedSeconds
  rw [← total, Date.total]
  omega

/-- Ticks that divide a second do not lose what lies between the seconds. -/
theorem tickCount_eq (divides : w.tickMilliSeconds ∣ 1000) (later : w.start ≤ now) :
    (now.sub w.start).tickCount w.tickMilliSeconds = w.elapsedTicks now := by
  have total := Date.sub_total later
  have whole : w.tickMilliSeconds ∣ (now.sub w.start).seconds * 1000 := Nat.dvd_mul_left_of_dvd divides _
  have milliSeconds : (now.sub w.start).total / 1000 =
      (now.sub w.start).seconds * 1000 + (now.sub w.start).microSeconds / 1000 := by
    unfold Date.total
    omega
  rw [elapsedTicks, ← total, milliSeconds, Nat.add_div_of_dvd_right whole, Date.tickCount]

/-- Where the milliseconds of the seconds do not fit, the count falls short. -/
theorem ticks_short (divides : w.tickMilliSeconds ∣ 1000) (later : w.start ≤ now)
    (wide : 2 ^ 32 ≤ w.elapsedSeconds now * 1000) : w.ticks (now.sub w.start) < w.elapsedTicks now := by
  have positive : 0 < w.tickMilliSeconds := Nat.pos_of_dvd_of_pos divides (by decide)
  have short : w.tickMilliSeconds ≤ 1000 := Nat.le_of_dvd (by decide) divides
  rw [← elapsedSeconds_eq later] at wide
  rw [← tickCount_eq divides later, ticks, Date.tickCount]
  refine (Nat.mod_le _ _).trans_lt (Nat.add_lt_add_right ?_ _)
  rw [Nat.div_lt_iff_lt_mul positive, Nat.div_mul_cancel (Nat.dvd_mul_left_of_dvd divides _)]
  exact (Nat.mod_lt _ (by decide)).trans_le wide

/-- As long as the ticks since the start fit in 32 bits, `ticks` counts them, and has counted no more at any
earlier time, exactly if the milliseconds of the whole seconds fit as well. -/
theorem ticks_right_iff (divides : w.tickMilliSeconds ∣ 1000) (later : w.start ≤ now) :
    (w.elapsedTicks now < 2 ^ 32 → w.ticks (now.sub w.start) = w.elapsedTicks now ∧
        ∀ earlier, w.start ≤ earlier → earlier ≤ now →
          w.ticks (earlier.sub w.start) ≤ w.ticks (now.sub w.start)) ↔
      2 ^ 32 ≤ w.elapsedTicks now ∨ w.elapsedSeconds now * 1000 < 2 ^ 32 := by
  constructor
  · intro right
    by_contra neither
    obtain ⟨small, wide⟩ := not_or.1 neither
    have short := ticks_short divides later (Nat.not_lt.1 wide)
    exact absurd (right (Nat.not_le.1 small)).1 short.ne
  · rintro (large | fits) small
    · exact absurd small (Nat.not_lt.2 large)
    have counts : ∀ time, w.start ≤ time → time ≤ now →
        w.ticks (time.sub w.start) = (time.sub w.start).tickCount w.tickMilliSeconds := by
      intro time after before
      have mono := Date.sub_mono after before
      refine ticks_of_fits ?_ ?_
      · rw [elapsedSeconds_eq after]
        have : w.elapsedSeconds time ≤ w.elapsedSeconds now :=
          Nat.div_le_div_right (Nat.sub_le_sub_right (Date.le_iff.1 before) _)
        exact (Nat.mul_le_mul_right 1000 this).trans_lt fits
      · exact (Date.tickCount_mono mono).trans_lt ((tickCount_eq divides later).trans_lt small)
    have here := counts now later (Date.le_iff.2 (Nat.le_refl _))
    refine ⟨here.trans (tickCount_eq divides later), fun earlier after before => ?_⟩
    rw [counts earlier after before, here]
    exact Date.tickCount_mono (Date.sub_mono after before)

end

/-- A wheel of ticks of 10 ms that starts at second 0. -/
def multiplexerWheel : FlatTimingWheel Unit := { start := ⟨0, 0, by decide, by decide⟩, tickMilliSeconds := 10, maxTicks := 10 }

theorem ticks_right_on_day_one :
    multiplexerWheel.ticks (Date.sub ⟨86400, 0, by decide, by decide⟩ multiplexerWheel.start) =
        multiplexerWheel.elapsedTicks ⟨86400, 0, by decide, by decide⟩ ∧
      ∀ earlier, multiplexerWheel.start ≤ earlier → earlier ≤ ⟨86400, 0, by decide, by decide⟩ →
        multiplexerWheel.ticks (earlier.sub multiplexerWheel.start) ≤
          multiplexerWheel.ticks (Date.sub ⟨86400, 0, by decide, by decide⟩ multiplexerWheel.start) :=
  (ticks_right_iff (w := multiplexerWheel) (by decide) (Date.le_iff.2 (by decide))).2 (.inr (by decide)) (by decide)

/-- After seven weeks and a day the ticks of 10 ms go from 429496700 to 70. -/
theorem uptime_wraps :
    multiplexerWheel.ticks (Date.sub ⟨4294967, 0, by decide, by decide⟩ multiplexerWheel.start) = 429496700 ∧
      multiplexerWheel.ticks (Date.sub ⟨4294968, 0, by decide, by decide⟩ multiplexerWheel.start) = 70 ∧
      multiplexerWheel.elapsedTicks ⟨4294968, 0, by decide, by decide⟩ = 429496800 := by
  decide

theorem toInt32_of_lt {n : Nat} (h : n < 2 ^ 31) : toInt32 n = n :=
  Int.bmod_eq_of_le (by omega) (by omega)

theorem idx_of_lt {n : Nat} (h : n < 2 ^ 31) (turn : w.maxTicks ≤ 2 ^ 31) :
    w.idx n = n % w.maxTicks := by
  have same : toUInt32 (n : Int) = n := by unfold toUInt32; omega
  rw [idx, same]
  rcases Nat.eq_zero_or_pos w.maxTicks with none | some
  · simp only [none, Nat.mod_zero]; omega
  · have less := Nat.mod_lt n some
    rw [Nat.mod_eq_of_lt (a := n % w.maxTicks + w.maxTicks) (by omega), Nat.add_mod_right, Nat.mod_mod]

/-! ## The window -/

/-- Who waits, and the tick in which each is due. -/
def agenda (w : FlatTimingWheel τ) : Agenda τ := fun timer =>
  if w.inTimingWheel timer then some (w.tick timer).toNat else none

theorem agenda_eq_some {timer : τ} {due : Nat} : w.agenda timer = some due ↔ w.tick timer = due := by
  unfold agenda inTimingWheel
  by_cases waits : 0 ≤ w.tick timer
  · simp only [waits, decide_true, if_true, Option.some.injEq]; omega
  · simp only [waits, decide_false, Bool.false_eq_true, if_false, reduceCtorEq, false_iff]; omega

theorem agenda_eq_none {timer : τ} : w.agenda timer = none ↔ w.inTimingWheel timer = false := by
  unfold agenda
  split <;> simp_all

/-- Whoever waits is due after the current tick and less than a turn later, and is in the slot of
that tick and in no other. -/
structure Turning (w : FlatTimingWheel τ) : Prop where
  allocated : w.allocated = true
  slotted : 0 < w.maxTicks
  turn : w.maxTicks ≤ 2 ^ 31
  current : w.currentTick < 2 ^ 31
  window : ∀ timer due, w.agenda timer = some due →
    w.currentTick < due ∧ due < w.currentTick + w.maxTicks ∧ due < 2 ^ 31
  slots : ∀ timer i, i < w.maxTicks →
    (timer ∈ w.timers i ↔ ∃ due, w.agenda timer = some due ∧ due % w.maxTicks = i)
  once : ∀ i, i < w.maxTicks → (w.timers i).Nodup

variable {timer : τ} {due : Nat}

theorem Turning.advance (h : Turning w) {tick : Nat} (forward : w.currentTick ≤ tick) (small : tick < 2 ^ 31)
    (ahead : ∀ timer due, w.agenda timer = some due → tick < due) :
    Turning { w with currentTick := tick } where
  allocated := h.allocated
  slotted := h.slotted
  turn := h.turn
  current := small
  window timer due waits := by
    obtain ⟨_, before, fits⟩ := h.window timer due waits
    exact ⟨ahead timer due waits, before.trans_le (Nat.add_le_add_right forward _), fits⟩
  slots := h.slots
  once := h.once

/-- Within the window a slot holds the timers of one tick. -/
theorem Turning.due_of_slot (h : Turning w) {tick : Nat} (forward : w.currentTick ≤ tick)
    (passed : tick ≤ due) (waits : w.agenda timer = some due)
    (here : due % w.maxTicks = tick % w.maxTicks) : due = tick := by
  obtain ⟨_, before, _⟩ := h.window timer due waits
  have near : due - tick < w.maxTicks := by omega
  have whole : (due - tick) % w.maxTicks = 0 := Nat.sub_mod_eq_zero_of_mod_eq here
  rw [Nat.mod_eq_of_lt near] at whole
  omega

/-! ## Times that fit -/

/-- The tick in which a timer is due that is given this delay. -/
def dueTick (w : FlatTimingWheel τ) (delayMilliSeconds : Nat) (now : Date) : Nat :=
  (now.sub w.start).tickCount w.tickMilliSeconds + delayMilliSeconds / w.tickMilliSeconds

/-- The time is one that 32-bit arithmetic can handle. -/
structure Countable (w : FlatTimingWheel τ) (now : Date) : Prop where
  positive : 0 < w.tickMilliSeconds
  milliSeconds : (now.sub w.start).seconds * 1000 < 2 ^ 32
  ticks : (now.sub w.start).tickCount w.tickMilliSeconds < 2 ^ 31

/-- So is the tick in which the timer would be due, unless it lies beyond the wheel. -/
structure Placeable (w : FlatTimingWheel τ) (delayMilliSeconds : Nat) (now : Date) : Prop
    extends Countable w now where
  due : w.dueTick delayMilliSeconds now < 2 ^ 31 ∨
    w.currentTick + w.maxTicks ≤ w.dueTick delayMilliSeconds now ∧ w.dueTick delayMilliSeconds now < 2 ^ 32

instance (w : FlatTimingWheel τ) (now : Date) : Decidable (Countable w now) :=
  decidable_of_iff (0 < w.tickMilliSeconds ∧ (now.sub w.start).seconds * 1000 < 2 ^ 32 ∧
      (now.sub w.start).tickCount w.tickMilliSeconds < 2 ^ 31)
    ⟨fun ⟨positive, milliSeconds, ticks⟩ => ⟨positive, milliSeconds, ticks⟩, fun h => ⟨h.positive, h.milliSeconds, h.ticks⟩⟩

instance (w : FlatTimingWheel τ) (delayMilliSeconds : Nat) (now : Date) :
    Decidable (Placeable w delayMilliSeconds now) :=
  decidable_of_iff (Countable w now ∧ (w.dueTick delayMilliSeconds now < 2 ^ 31 ∨
      w.currentTick + w.maxTicks ≤ w.dueTick delayMilliSeconds now ∧ w.dueTick delayMilliSeconds now < 2 ^ 32))
    ⟨fun ⟨countable, due⟩ => ⟨countable, due⟩, fun h => ⟨h.toCountable, h.due⟩⟩

variable {delay : Nat} {now : Date}

theorem Countable.ticks_eq (h : Countable w now) :
    w.ticks (now.sub w.start) = (now.sub w.start).tickCount w.tickMilliSeconds :=
  ticks_of_fits h.milliSeconds (h.ticks.trans (by decide))

theorem Placeable.sum_eq (h : Placeable w delay now) :
    (w.ticks (now.sub w.start) + delay / w.tickMilliSeconds) % 2 ^ 32 = w.dueTick delay now := by
  rw [h.ticks_eq]
  refine Nat.mod_eq_of_lt ?_
  change w.dueTick delay now < 2 ^ 32
  rcases h.due with small | ⟨_, small⟩ <;> omega

theorem Turning.limit_eq (h : Turning w) :
    (w.currentTick + w.maxTicks) % 2 ^ 32 = w.currentTick + w.maxTicks := by
  have := h.turn
  have := h.current
  exact Nat.mod_eq_of_lt (by omega)

/-- The due tick is one that the wheel has room for. -/
def Ahead (w : FlatTimingWheel τ) (due : Nat) : Prop :=
  w.currentTick < due ∧ due < w.currentTick + w.maxTicks ∧ due < 2 ^ 31

theorem Placeable.ahead (h : Placeable w delay now) (after : ¬ w.dueTick delay now ≤ w.currentTick)
    (before : ¬ w.dueTick delay now ≥ w.currentTick + w.maxTicks) : w.Ahead (w.dueTick delay now) := by
  refine ⟨Nat.lt_of_not_le after, Nat.lt_of_not_le before, ?_⟩
  rcases h.due with small | ⟨large, _⟩
  · exact small
  · exact absurd large before

/-! ## Placing and displacing -/

variable [DecidableEq τ]

theorem place_agenda (small : due < 2 ^ 31) :
    (w.place timer due).agenda = Function.update w.agenda timer (some due) := by
  funext other
  rcases eq_or_ne other timer with rfl | ne
  · rw [Function.update_self, agenda_eq_some]
    simp only [place, Function.update_self]
    exact toInt32_of_lt small
  · rw [Function.update_of_ne ne]
    simp [agenda, inTimingWheel, place, ne]

theorem displace_agenda : (w.displace timer).agenda = Function.update w.agenda timer none := by
  funext other
  rcases eq_or_ne other timer with rfl | ne
  · rw [Function.update_self, agenda_eq_none]
    simp [displace, inTimingWheel]
  · rw [Function.update_of_ne ne]
    simp [agenda, inTimingWheel, displace, ne]

theorem Turning.place (h : Turning w) (idle : w.agenda timer = none) (after : w.currentTick < due)
    (before : due < w.currentTick + w.maxTicks) (small : due < 2 ^ 31) : Turning (w.place timer due) := by
  have slot : w.idx (toInt32 due) = due % w.maxTicks := by
    rw [toInt32_of_lt small, idx_of_lt small h.turn]
  refine ⟨h.allocated, h.slotted, h.turn, h.current, fun other due' waits => ?_, fun other i inside => ?_,
    fun i inside => ?_⟩
  · rw [place_agenda small] at waits
    rcases eq_or_ne other timer with rfl | ne
    · rw [Function.update_self, Option.some.injEq] at waits
      exact waits ▸ ⟨after, before, small⟩
    · rw [Function.update_of_ne ne] at waits
      exact h.window other due' waits
  · have member : other ∈ (w.place timer due).timers i ↔
        other ∈ w.timers i ∨ other = timer ∧ due % w.maxTicks = i := by
      simp only [FlatTimingWheel.place, slot]
      rcases eq_or_ne i (due % w.maxTicks) with rfl | ne
      · simp
      · simp [ne, ne.symm]
    rw [member, place_agenda small, h.slots other i inside]
    rcases eq_or_ne other timer with rfl | ne
    · simp [idle, FlatTimingWheel.place]
    · simp [ne, FlatTimingWheel.place]
  · simp only [FlatTimingWheel.place, slot]
    rcases eq_or_ne i (due % w.maxTicks) with rfl | ne
    · have absent : timer ∉ w.timers (due % w.maxTicks) := fun member => by
        obtain ⟨_, waits, _⟩ := (h.slots timer _ inside).mp member
        rw [idle] at waits
        cases waits
      rw [Function.update_self]
      exact List.nodup_append.mpr ⟨h.once _ inside, List.nodup_singleton _, by
        rintro other member _ single rfl
        exact absent (List.mem_singleton.mp single ▸ member)⟩
    · rw [Function.update_of_ne ne]
      exact h.once i inside

theorem Turning.displace (h : Turning w) (waits : w.agenda timer = some due) : Turning (w.displace timer) := by
  have slot : w.idx (w.tick timer) = due % w.maxTicks := by
    rw [agenda_eq_some.mp waits, idx_of_lt (h.window timer due waits).2.2 h.turn]
  refine ⟨h.allocated, h.slotted, h.turn, h.current, fun other due' still => ?_, fun other i inside => ?_,
    fun i inside => ?_⟩
  · rw [displace_agenda] at still
    rcases eq_or_ne other timer with rfl | ne
    · rw [Function.update_self] at still
      cases still
    · rw [Function.update_of_ne ne] at still
      exact h.window other due' still
  · have member : other ∈ (w.displace timer).timers i ↔ other ≠ timer ∧ other ∈ w.timers i := by
      simp only [FlatTimingWheel.displace, slot]
      rcases eq_or_ne i (due % w.maxTicks) with rfl | ne
      · rw [Function.update_self]
        exact (h.once _ inside).mem_erase_iff
      · rw [Function.update_of_ne ne]
        refine ⟨fun member => ⟨fun same => ne ?_, member⟩, And.right⟩
        obtain ⟨due', waits', here⟩ := (h.slots other i inside).mp member
        rw [same, waits] at waits'
        exact here.symm.trans (Option.some.inj waits' ▸ rfl)
    rw [member, displace_agenda, h.slots other i inside]
    rcases eq_or_ne other timer with rfl | ne
    · simp
    · simp [ne, FlatTimingWheel.displace]
  · simp only [FlatTimingWheel.displace, slot]
    rcases eq_or_ne i (due % w.maxTicks) with rfl | ne
    · rw [Function.update_self]
      exact (h.once _ inside).erase _
    · rw [Function.update_of_ne ne]
      exact h.once i inside

/-- The loop finds the timer that is due first, if it is due in one of the ticks. -/
theorem expireFrom_spec (h : Turning w) (n : Nat) {tick : Nat} (forward : w.currentTick ≤ tick)
    (passed : ∀ timer due, w.agenda timer = some due → tick ≤ due) (small : tick + n ≤ 2 ^ 31) :
    (w.expireFrom tick n = none ∧ ∀ timer due, w.agenda timer = some due → tick + n ≤ due) ∨
    ∃ timer due, w.expireFrom tick n = some (timer, { w.displace timer with
        currentTick := if (w.displace timer).timers (due % w.maxTicks) = [] then due else w.currentTick }) ∧
      w.agenda timer = some due ∧ due < tick + n ∧
      ∀ other due', w.agenda other = some due' → due ≤ due' := by
  induction n generalizing tick with
  | zero => exact .inl ⟨rfl, passed⟩
  | succ n ih =>
      have slot : w.idx (toInt32 tick) = tick % w.maxTicks := by
        rw [toInt32_of_lt (by omega), idx_of_lt (by omega) h.turn]
      have inside : tick % w.maxTicks < w.maxTicks := Nat.mod_lt _ h.slotted
      rw [expireFrom, slot]
      cases found : w.timers (tick % w.maxTicks) with
      | nil =>
          have later : ∀ timer due, w.agenda timer = some due → tick + 1 ≤ due := by
            intro timer due waits
            refine Nat.lt_of_le_of_ne (passed timer due waits) fun same => ?_
            have member := (h.slots timer _ inside).mpr ⟨due, waits, same ▸ rfl⟩
            rw [found] at member
            cases member
          have forward' : w.currentTick ≤ tick + 1 := Nat.le_succ_of_le forward
          have rest := ih forward' later (by omega)
          rwa [Nat.add_right_comm, Nat.add_assoc] at rest
      | cons timer rest =>
          obtain ⟨due, waits, here⟩ := (h.slots timer _ inside).mp (by rw [found]; exact List.mem_cons_self)
          obtain rfl := h.due_of_slot forward (passed timer due waits) waits here
          refine .inr ⟨timer, due, ?_, waits, by omega, passed⟩
          have tick : w.idx (w.tick timer) = due % w.maxTicks := by
            rw [agenda_eq_some.mp waits, idx_of_lt (by omega) h.turn]
          have left : (w.displace timer).timers (due % w.maxTicks) = rest := by
            simp [displace, tick, found]
          rw [left]
          simp only [displace, tick, found, List.erase_cons_head]

theorem Turning.expire (h : Turning w) (waits : w.agenda timer = some due)
    (first : ∀ other due', w.agenda other = some due' → due ≤ due') :
    Turning { w.displace timer with
      currentTick := if (w.displace timer).timers (due % w.maxTicks) = [] then due else w.currentTick } := by
  have displaced := h.displace waits
  have window := h.window timer due waits
  by_cases empty : (w.displace timer).timers (due % w.maxTicks) = []
  · rw [if_pos empty]
    refine displaced.advance window.1.le window.2.2 fun other due' still => ?_
    have waits' : w.agenda other = some due' := by
      rw [displace_agenda] at still
      rcases eq_or_ne other timer with rfl | ne
      · rw [Function.update_self] at still
        cases still
      · rwa [Function.update_of_ne ne] at still
    refine Nat.lt_of_le_of_ne (first other due' waits') fun same => ?_
    have member : other ∈ (w.displace timer).timers (due % w.maxTicks) :=
      (displaced.slots other _ (Nat.mod_lt due h.slotted)).mpr ⟨due', still, same ▸ rfl⟩
    rw [empty] at member
    cases member
  · rw [if_neg empty]
    exact displaced

/-! ## Calls -/

theorem insert_spec (timer : τ) (h : Turning w) (fits : Placeable w delay now) :
    (∃ error, error ≠ .success ∧ w.insert timer delay now = (error, w)) ∨
    w.agenda timer = none ∧ w.Ahead (w.dueTick delay now) ∧
      w.insert timer delay now = (.success, w.place timer (w.dueTick delay now)) := by
  simp only [insert, h.allocated, fits.sum_eq, h.limit_eq, Bool.true_eq_false, if_false]
  by_cases waits : w.inTimingWheel timer = true
  · exact .inl ⟨.assertFailed, by decide, if_pos waits⟩
  rw [if_neg waits]
  by_cases early : w.dueTick delay now ≤ w.currentTick
  · exact .inl ⟨.underflow, by decide, if_pos early⟩
  rw [if_neg early]
  by_cases late : w.dueTick delay now ≥ w.currentTick + w.maxTicks
  · exact .inl ⟨.overflow, by decide, if_pos late⟩
  rw [if_neg late]
  exact .inr ⟨agenda_eq_none.mpr (Bool.eq_false_iff.mpr waits), fits.ahead early late, rfl⟩

theorem update_spec (h : Turning w) (fits : Placeable w delay now) (waits : w.agenda timer = some due) :
    w.update timer delay now = (.underflow, w.displace timer) ∨
    w.update timer delay now = (.overflow, w) ∨
    due = w.dueTick delay now ∧ w.update timer delay now = (.success, w) ∨
    w.Ahead (w.dueTick delay now) ∧
      w.update timer delay now = (.success, (w.displace timer).place timer (w.dueTick delay now)) := by
  have inside : w.inTimingWheel timer ≠ false := fun idle => by
    rw [agenda_eq_none.mpr idle] at waits
    cases waits
  have same : toUInt32 (w.tick timer) = due := by
    have small := (h.window timer due waits).2.2
    rw [agenda_eq_some.mp waits, toUInt32]
    omega
  simp only [update, h.allocated, fits.sum_eq, h.limit_eq, inside, same, Bool.true_eq_false, if_false]
  by_cases early : w.dueTick delay now ≤ w.currentTick
  · exact .inl (if_pos early)
  rw [if_neg early]
  by_cases late : w.dueTick delay now ≥ w.currentTick + w.maxTicks
  · exact .inr (.inl (if_pos late))
  rw [if_neg late]
  by_cases already : w.dueTick delay now = due
  · exact .inr (.inr (.inl ⟨already.symm, if_pos already⟩))
  rw [if_neg already]
  exact .inr (.inr (.inr ⟨fits.ahead early late, rfl⟩))

inductive Call (τ : Type) where
  | insert (timer : Option τ) (delayMilliSeconds : Nat) (now : Date)
  | update (timer : Option τ) (delayMilliSeconds : Nat) (now : Date)
  | remove (timer : Option τ)
  | nextExpired (now : Date)

/-- The time of a call; a removal has none of its own. -/
def Call.time (last : Date) : Call τ → Date
  | .insert _ _ now | .update _ _ now | .nextExpired now => now
  | .remove _ => last

def Call.Fits (w : FlatTimingWheel τ) : Call τ → Prop
  | .insert _ delay now | .update _ delay now => Placeable w delay now
  | .nextExpired now => Countable w now
  | .remove _ => True

instance (w : FlatTimingWheel τ) : (call : Call τ) → Decidable (call.Fits w)
  | .insert _ delay now | .update _ delay now => inferInstanceAs (Decidable (Placeable w delay now))
  | .nextExpired now => inferInstanceAs (Decidable (Countable w now))
  | .remove _ => isTrue trivial

/-- A call, and what comes of it for the timers; `none` when the process ends. -/
def respond (w : FlatTimingWheel τ) : Call τ → Option (Notice τ × FlatTimingWheel τ)
  | .insert timer delay now =>
      let answer := w.insert timer delay now
      some (match timer with
        | some timer => if answer.1 = .success then .scheduled timer (w.dueTick delay now) else .refused
        | none => .refused, answer.2)
  | .update timer delay now =>
      let answer := w.update timer delay now
      some (match timer with
        | some timer =>
            if answer.1 = .success then .scheduled timer (w.dueTick delay now)
            else if answer.1 = .underflow then .dropped timer
            else .refused
        | none => .refused, answer.2)
  | .remove timer =>
      let answer := w.remove timer
      some (match timer with
        | some timer => if answer.1 = .success then .dropped timer else .refused
        | none => .refused, answer.2)
  | .nextExpired now =>
      let nowTick := (now.sub w.start).tickCount w.tickMilliSeconds
      match w.nextExpired now with
      | .ok (some timer, w') => some (.expired timer (w.tick timer).toNat nowTick, w')
      | .ok (none, w') => some (.nothing nowTick, w')
      | .error _ => none

/-- What a call may do at tick `clock`. -/
structure Serves (w : FlatTimingWheel τ) (clock : Nat) (n : Notice τ) (w' : FlatTimingWheel τ) : Prop where
  turning : Turning w'
  shape : w'.start = w.start ∧ w'.tickMilliSeconds = w.tickMilliSeconds ∧ w'.maxTicks = w.maxTicks
  current : w'.currentTick ≤ clock
  honest : n.Honest w.agenda clock
  agenda : w'.agenda = n.after w.agenda

variable {clock : Nat}

theorem serves_refused (h : Turning w) (current : w.currentTick ≤ clock) : Serves w clock .refused w :=
  ⟨h, ⟨rfl, rfl, rfl⟩, current, trivial, rfl⟩

theorem update_none (idle : w.agenda timer = none) : Function.update w.agenda timer none = w.agenda := by
  rw [← idle, Function.update_eq_self]

theorem serves_dropped (h : Turning w) (current : w.currentTick ≤ clock)
    (waits : w.agenda timer = some due) : Serves w clock (.dropped timer) (w.displace timer) :=
  ⟨h.displace waits, ⟨rfl, rfl, rfl⟩, current, trivial, displace_agenda⟩

theorem serves_idle (h : Turning w) (current : w.currentTick ≤ clock) (idle : w.agenda timer = none) :
    Serves w clock (.dropped timer) w :=
  ⟨h, ⟨rfl, rfl, rfl⟩, current, trivial, (update_none idle).symm⟩

theorem serves_placed (h : Turning w) (current : w.currentTick ≤ clock) (idle : w.agenda timer = none)
    (ahead : w.Ahead due) (later : clock ≤ due) :
    Serves w clock (.scheduled timer due) (w.place timer due) :=
  ⟨h.place idle ahead.1 ahead.2.1 ahead.2.2, ⟨rfl, rfl, rfl⟩, current, later, place_agenda ahead.2.2⟩

theorem displaced_idle : (w.displace timer).agenda timer = none := by
  rw [displace_agenda, Function.update_self]

theorem serves_insert (h : Turning w) (fits : Placeable w delay now) {n : Notice τ}
    {w' : FlatTimingWheel τ} {timer : Option τ}
    (current : w.currentTick ≤ (now.sub w.start).tickCount w.tickMilliSeconds)
    (answers : w.respond (.insert timer delay now) = some (n, w')) :
    Serves w ((now.sub w.start).tickCount w.tickMilliSeconds) n w' := by
  cases timer with
  | none =>
      cases answers
      exact serves_refused h current
  | some timer =>
      rcases insert_spec timer h fits with ⟨error, fails, done⟩ | ⟨idle, ahead, done⟩
      · simp only [respond, done, fails, if_false] at answers
        cases answers
        exact serves_refused h current
      · simp only [respond, done, if_true] at answers
        cases answers
        exact serves_placed h current idle ahead (Nat.le_add_right _ _)

theorem update_idle (h : Turning w) (idle : w.agenda timer = none) (delay : Nat) (now : Date) :
    w.update (some timer) delay now = w.insert (some timer) delay now := by
  simp only [update, h.allocated, agenda_eq_none.mp idle, Bool.true_eq_false, if_false, if_true]

theorem serves_update (h : Turning w) (fits : Placeable w delay now) {n : Notice τ}
    {w' : FlatTimingWheel τ} {timer : Option τ}
    (current : w.currentTick ≤ (now.sub w.start).tickCount w.tickMilliSeconds)
    (answers : w.respond (.update timer delay now) = some (n, w')) :
    Serves w ((now.sub w.start).tickCount w.tickMilliSeconds) n w' := by
  cases timer with
  | none =>
      cases answers
      exact serves_refused h current
  | some timer =>
      cases waits : w.agenda timer with
      | none =>
          -- a timer that does not wait is inserted
          have inserts := update_idle h waits delay now
          rcases insert_spec timer h fits with ⟨error, fails, done⟩ | ⟨_, ahead, done⟩
          · simp only [respond, inserts, done, fails, if_false] at answers
            split at answers
            · cases answers
              exact serves_idle h current waits
            · cases answers
              exact serves_refused h current
          · simp only [respond, inserts, done, if_true] at answers
            cases answers
            exact serves_placed h current waits ahead (Nat.le_add_right _ _)
      | some due =>
          rcases update_spec h fits waits with done | done | ⟨same, done⟩ | ⟨ahead, done⟩
          · simp only [respond, done, reduceCtorEq, if_false, if_true] at answers
            cases answers
            exact serves_dropped h current waits
          · simp only [respond, done, reduceCtorEq, if_false] at answers
            cases answers
            exact serves_refused h current
          · simp only [respond, done, if_true] at answers
            cases answers
            refine ⟨h, ⟨rfl, rfl, rfl⟩, current, Nat.le_add_right _ _, ?_⟩
            rw [Notice.after, ← same, ← waits, Function.update_eq_self]
          · simp only [respond, done, if_true] at answers
            cases answers
            have displaced := serves_dropped h current waits
            have placed := serves_placed displaced.turning displaced.current displaced_idle ahead
              (Nat.le_add_right _ _)
            refine ⟨placed.turning, placed.shape, placed.current, placed.honest, ?_⟩
            rw [placed.agenda, displaced.agenda]
            simp only [Notice.after, Function.update_idem]

theorem serves_remove (h : Turning w) (current : w.currentTick ≤ clock) {n : Notice τ}
    {w' : FlatTimingWheel τ} {timer : Option τ}
    (answers : w.respond (.remove timer) = some (n, w')) : Serves w clock n w' := by
  cases timer with
  | none =>
      cases answers
      exact serves_refused h current
  | some timer =>
      cases waits : w.agenda timer with
      | none =>
          simp only [respond, remove, agenda_eq_none.mp waits, if_true, reduceCtorEq, if_false] at answers
          cases answers
          exact serves_refused h current
      | some due =>
          have inside : w.inTimingWheel timer ≠ false := fun idle => by
            rw [agenda_eq_none.mpr idle] at waits
            cases waits
          simp only [respond, remove, inside, h.allocated, Bool.true_eq_false, if_false, if_true] at answers
          cases answers
          exact serves_dropped h current waits

theorem serves_nextExpired (h : Turning w) (fits : Countable w now) {n : Notice τ}
    {w' : FlatTimingWheel τ}
    (current : w.currentTick ≤ (now.sub w.start).tickCount w.tickMilliSeconds)
    (answers : w.respond (.nextExpired now) = some (n, w')) :
    Serves w ((now.sub w.start).tickCount w.tickMilliSeconds) n w' := by
  simp only [respond, nextExpired, fits.ticks_eq, h.allocated, Bool.true_eq_false, false_and, if_false] at answers
  have small := fits.ticks
  generalize (now.sub w.start).tickCount w.tickMilliSeconds = nowTick at *
  by_cases still : nowTick = w.currentTick
  · rw [if_pos still] at answers
    cases answers
    refine ⟨h, ⟨rfl, rfl, rfl⟩, current, ⟨rfl, fun other due waits => ?_⟩, rfl⟩
    exact still ▸ (h.window other due waits).1
  rw [if_neg still] at answers
  have passed : ∀ timer due, w.agenda timer = some due → w.currentTick ≤ due :=
    fun timer due waits => (h.window timer due waits).1.le
  have whole : w.currentTick + (nowTick + 1 - w.currentTick) = nowTick + 1 := by omega
  rcases expireFrom_spec h (nowTick + 1 - w.currentTick) le_rfl passed (by omega) with
    ⟨none, later⟩ | ⟨timer, due, found, waits, before, first⟩
  · rw [none] at answers
    cases answers
    have ahead : ∀ timer due, w.agenda timer = some due → nowTick < due := fun timer due waits => by
      have := later timer due waits
      omega
    have advanced := h.advance current small ahead
    simp only [h.allocated] at advanced
    exact ⟨advanced, ⟨rfl, rfl, rfl⟩, le_rfl, ⟨rfl, ahead⟩, rfl⟩
  · rw [found] at answers
    cases answers
    have tick : (w.tick timer).toNat = due := by rw [agenda_eq_some.mp waits]; rfl
    refine ⟨h.expire waits first, ⟨rfl, rfl, rfl⟩, ?_, ⟨rfl, ?_, by omega, ?_⟩, displace_agenda⟩
    · dsimp only
      split <;> omega
    · rw [tick, waits]
    · exact tick.symm ▸ first

/-! ## Runs -/

/-- A wheel, and the time of the last call. -/
structure Clocked (τ : Type) where
  wheel : FlatTimingWheel τ
  last : Date

/-- The tick of the last call. -/
def Clocked.tickCount (s : Clocked τ) : Nat :=
  (s.last.sub s.wheel.start).tickCount s.wheel.tickMilliSeconds

/-- A call at a time that is no earlier than the last. -/
inductive Step (s : Clocked τ) : List (Notice τ) → Clocked τ → Prop where
  | call (call : Call τ) {n w'} : s.last ≤ call.time s.last → s.wheel.respond call = some (n, w') →
      Step s [n] ⟨w', call.time s.last⟩

/-- A call whose times fit into 32-bit arithmetic. -/
inductive FittingStep (s : Clocked τ) : List (Notice τ) → Clocked τ → Prop where
  | call (call : Call τ) {n w'} : s.last ≤ call.time s.last → call.Fits s.wheel →
      s.wheel.respond call = some (n, w') → FittingStep s [n] ⟨w', call.time s.last⟩

structure Served (notices : List (Notice τ)) (s : Clocked τ) : Prop where
  turning : Turning s.wheel
  begun : s.wheel.start ≤ s.last
  current : s.wheel.currentTick ≤ s.tickCount
  keeps : Theory.Keeps notices s.wheel.agenda s.tickCount

theorem Served.step {notices seen : List (Notice τ)} {s s' : Clocked τ} (h : Served notices s)
    (step : FittingStep s seen s') : Served (notices ++ seen) s' ∧ s'.wheel.maxTicks = s.wheel.maxTicks := by
  obtain ⟨call, later, fits, answers⟩ := step
  rename_i n w'
  have begun : s.wheel.start ≤ call.time s.last :=
    Date.le_iff.mpr ((Date.le_iff.mp h.begun).trans (Date.le_iff.mp later))
  have onward : s.tickCount ≤ ((call.time s.last).sub s.wheel.start).tickCount s.wheel.tickMilliSeconds :=
    Date.tickCount_mono (Date.sub_mono h.begun later)
  have current := h.current.trans onward
  have serves : Serves s.wheel (((call.time s.last).sub s.wheel.start).tickCount
      s.wheel.tickMilliSeconds) n w' := by
    cases call with
    | insert timer delay now => exact serves_insert h.turning fits current answers
    | update timer delay now => exact serves_update h.turning fits current answers
    | remove timer => exact serves_remove h.turning current answers
    | nextExpired now => exact serves_nextExpired h.turning fits current answers
  obtain ⟨start, milliSeconds, maxTicks⟩ := serves.shape
  have clock : Clocked.tickCount ⟨w', call.time s.last⟩ =
      ((call.time s.last).sub s.wheel.start).tickCount s.wheel.tickMilliSeconds := by
    rw [Clocked.tickCount, start, milliSeconds]
  refine ⟨⟨serves.turning, start.symm ▸ begun, clock.symm ▸ serves.current, ?_⟩, maxTicks⟩
  rw [clock, serves.agenda]
  exact h.keeps.next onward serves.honest

theorem served_start {maxTicks tickMilliSeconds : Nat} {start : Date} (slotted : 0 < maxTicks)
    (turn : maxTicks ≤ 2 ^ 31) : Served ([] : List (Notice τ))
      ⟨{ start := start, tickMilliSeconds := tickMilliSeconds, maxTicks := maxTicks }, start⟩ := by
  have zero : (start.sub start).total = 0 := by
    rw [Date.sub_total (Date.le_iff.mpr le_rfl), Nat.sub_self]
  have first : (start.sub start).tickCount tickMilliSeconds = 0 := by
    unfold Date.total at zero
    rw [Date.tickCount, show (start.sub start).seconds = 0 by omega,
      show (start.sub start).microSeconds = 0 by omega]
    simp
  have nobody : ∀ timer due, ({ start := start, tickMilliSeconds := tickMilliSeconds, maxTicks := maxTicks } :
      FlatTimingWheel τ).agenda timer ≠ some due := fun timer due waits => nomatch waits
  refine ⟨⟨rfl, slotted, turn, Nat.two_pow_pos _, fun timer due waits => absurd waits (nobody _ _), fun timer i _ => ?_,
    fun _ _ => .nil⟩, Date.le_iff.mpr le_rfl, Nat.zero_le _, ?_⟩
  · exact ⟨fun member => (nomatch member), fun ⟨due, waits, _⟩ => absurd waits (nobody _ _)⟩
  · rw [Clocked.tickCount, first]
    exact .start

/-- **Timers expire when they are due**: for as long as the times fit into 32-bit arithmetic every
notice of the wheel is honest, timers come out in the order in which they are due, and whoever
waits is in the slot of its due tick, once, and in no other. -/
theorem timers_expire_when_due (maxTicks tickMilliSeconds : Nat) (start : Date) (slotted : 0 < maxTicks)
    (turn : maxTicks ≤ 2 ^ 31) (notices : List (Notice τ)) (s : Clocked τ)
    (run : Run FittingStep
      ⟨{ start := start, tickMilliSeconds := tickMilliSeconds, maxTicks := maxTicks }, start⟩ notices s) :
    Theory.Keeps notices s.wheel.agenda s.tickCount ∧
      (notices.filterMap Notice.expiry).Pairwise (· ≤ ·) ∧
      ∀ timer i, i < maxTicks → (s.wheel.timers i).count timer =
        if (s.wheel.agenda timer).map (· % maxTicks) = some i then 1 else 0 := by
  have held : Served notices s ∧ s.wheel.maxTicks = maxTicks := by
    refine run.keeps (I := fun notices s => Served notices s ∧ s.wheel.maxTicks = maxTicks) ?_ ?_
    · exact ⟨served_start slotted turn, rfl⟩
    · rintro notices s seen s' ⟨served, same⟩ step
      obtain ⟨served', same'⟩ := served.step step
      exact ⟨served', same'.trans same⟩
  obtain ⟨served, rfl⟩ := held
  refine ⟨served.keeps, served.keeps.sorted, fun timer i inside => ?_⟩
  have member := served.turning.slots timer i inside
  by_cases waits : timer ∈ s.wheel.timers i
  · obtain ⟨due, due_eq, here⟩ := member.mp waits
    rw [List.count_eq_one_of_mem (served.turning.once i inside) waits, due_eq, Option.map_some, here,
      if_pos rfl]
  · rw [List.count_eq_zero_of_not_mem waits, if_neg]
    intro here
    obtain ⟨due, due_eq, here⟩ := Option.map_eq_some_iff.mp here
    exact waits (member.mpr ⟨due, due_eq, here⟩)

/-- A call at its time, on a wheel whose last call was not later. -/
def Clocked.perform (s : Clocked τ) (call : Call τ) : Option (Notice τ × Clocked τ) :=
  (s.wheel.respond call).map fun (n, w') => (n, ⟨w', call.time s.last⟩)

def Clocked.Fits (s : Clocked τ) (call : Call τ) : Prop := s.last ≤ call.time s.last ∧ call.Fits s.wheel

instance (s : Clocked τ) (call : Call τ) : Decidable (s.Fits call) :=
  inferInstanceAs (Decidable (s.last.le (call.time s.last) ∧ call.Fits s.wheel))

/-- Fitting calls are a run. -/
theorem run_of_calls {s s' : Clocked τ} {calls : List (Call τ)} {notices : List (Notice τ)}
    (fit : AllFit Clocked.perform Clocked.Fits s calls) (served : serveAll Clocked.perform s calls = some (notices, s'))
    {first : Clocked τ} {before : List (Notice τ)} (run : Run FittingStep first before s) :
    Run FittingStep first (before ++ notices) s' := by
  induction calls generalizing s before notices with
  | nil =>
      cases served
      rwa [List.append_nil]
  | cons call calls ih =>
      obtain ⟨⟨n, s₁⟩, performed, served⟩ := Option.bind_eq_some_iff.mp served
      obtain ⟨⟨later, s₂⟩, rest, same⟩ := Option.map_eq_some_iff.mp served
      cases same
      have fits := fit.2 n s₁ performed
      obtain ⟨⟨n', w'⟩, answers, same⟩ := Option.map_eq_some_iff.mp performed
      cases same
      have stepped := ih fits rest (run.next (.call call fit.1.1 fit.1.2 answers))
      rwa [List.append_assoc] at stepped

section runs

set_option maxRecDepth 10000

/-- A wheel of ten slots of a second each, from the beginning of time. -/
abbrev tenSeconds : Clocked Nat :=
  ⟨{ start := ⟨0, 0, by decide, by decide⟩, tickMilliSeconds := 1000, maxTicks := 10 },
    ⟨0, 0, by decide, by decide⟩⟩

/-- So many seconds after the beginning of time. -/
def second (n : Nat) (small : n < 2 ^ 32 := by decide) : Date := ⟨n, 0, small, by decide⟩

/-- Timers that are moved and removed, and the slots are used again after a turn of the wheel. -/
def twentySeconds : List (Call Nat) :=
  [.insert (some 1) 5000 (second 0), .insert (some 2) 3000 (second 1), .insert (some 3) 9000 (second 1),
    .update (some 2) 5000 (second 2), .insert (some 3) 4000 (second 2), .remove (some 3), .nextExpired (second 6),
    .nextExpired (second 6), .insert (some 1) 6000 (second 7), .nextExpired (second 8), .insert (some 4) 8000 (second 8),
    .nextExpired (second 14), .nextExpired (second 16), .insert (some 5) 4000 (second 16)]

def twentySecondsNotices : List (Notice Nat) :=
  [.scheduled 1 5, .scheduled 2 4, .refused, .scheduled 2 7, .scheduled 3 6, .dropped 3, .expired 1 5 6, .nothing 6,
    .scheduled 1 13, .expired 2 7 8, .scheduled 4 16, .expired 1 13 14, .expired 4 16 16, .scheduled 5 20]

theorem timers_expire_when_due_in_twenty_seconds :
    ∃ s : Clocked Nat, Run FittingStep tenSeconds twentySecondsNotices s ∧
      Theory.Keeps twentySecondsNotices s.wheel.agenda s.tickCount ∧
      (twentySecondsNotices.filterMap Notice.expiry).Pairwise (· ≤ ·) ∧
      ∀ timer i, i < 10 → (s.wheel.timers i).count timer = if (s.wheel.agenda timer).map (· % 10) = some i then 1 else 0 := by
  have fit : AllFit Clocked.perform Clocked.Fits tenSeconds twentySeconds := by
    decide +kernel
  have answered : (serveAll Clocked.perform tenSeconds twentySeconds).map Prod.fst = some twentySecondsNotices := by
    decide +kernel
  obtain ⟨⟨notices, s⟩, served, same⟩ := Option.map_eq_some_iff.mp answered
  obtain rfl : notices = twentySecondsNotices := same
  have run := run_of_calls fit served .start
  exact ⟨s, run, timers_expire_when_due 10 1000 (second 0) (by decide) (by decide) _ s run⟩

/-- A timer that is due in tick 5 is not found in tick 4294968: the elapsed milliseconds exceed 32
bits, and the wheel takes them for less than one tick. -/
theorem elapsed_wraps : ∃ s, Run Step tenSeconds [.scheduled 1 5, .nothing 4294968] s ∧
    s.wheel.agenda 1 = some 5 ∧ s.tickCount = 4294968 := by
  have inserted := Run.next .start (Step.call (s := tenSeconds)
    (.insert (some 1) 5000 ⟨0, 0, by decide, by decide⟩) (.inr ⟨rfl, le_rfl⟩) rfl)
  have run := Run.next inserted (Step.call (.nextExpired ⟨4294968, 0, by decide, by decide⟩)
    (.inl (by decide)) rfl)
  exact ⟨_, run, rfl, rfl⟩

end runs

end FlatTimingWheel

/-! ## Which timers wait

What follows holds whatever the clock says, for as long as no tick reaches 31 bits. -/

namespace FlatTimingWheel

variable {τ : Type} {w : FlatTimingWheel τ} {timer other : τ} {delay : Nat} {now : Date}

/-- A timer that waits is in the slot of its tick, once, and in no other. -/
structure Filed (w : FlatTimingWheel τ) : Prop where
  slot : ∀ i timer, timer ∈ w.timers i ↔ 0 ≤ w.tick timer ∧ i = w.idx (w.tick timer)
  once : ∀ i, (w.timers i).Nodup

/-- No tick that the wheel may set for the delay reaches 31 bits. -/
def Ranged (w : FlatTimingWheel τ) (delayMilliSeconds : Nat) : Prop :=
  ∀ date, w.ticks date + delayMilliSeconds / w.tickMilliSeconds < 2 ^ 31

theorem ranged_of_tick (tick : w.tickMilliSeconds = 10) (short : delay ≤ 1800000) : w.Ranged delay := by
  intro date
  have microSeconds := date.microSeconds_lt
  have milliSeconds : date.seconds * 1000 % 2 ^ 32 < 2 ^ 32 := Nat.mod_lt _ (by decide)
  simp only [ticks, tick]
  generalize date.seconds * 1000 % 2 ^ 32 = elapsed at milliSeconds
  omega

/-- At most one timer has changed, and the wheel is the same otherwise. -/
structure Moves (timer : τ) (w w' : FlatTimingWheel τ) : Prop where
  filed : w'.Filed
  tickMilliSeconds : w'.tickMilliSeconds = w.tickMilliSeconds
  allocated : w'.allocated = w.allocated
  others : ∀ other, other ≠ timer → w'.inTimingWheel other = w.inTimingWheel other

theorem Filed.stays (h : w.Filed) (timer : τ) : Moves timer w w := ⟨h, rfl, rfl, fun _ _ => rfl⟩

theorem Moves.trans {w' w'' : FlatTimingWheel τ} (first : Moves timer w w') (second : Moves timer w' w'') :
    Moves timer w w'' :=
  ⟨second.filed, second.tickMilliSeconds.trans first.tickMilliSeconds, second.allocated.trans first.allocated,
    fun other ne => (second.others other ne).trans (first.others other ne)⟩

variable [DecidableEq τ]

theorem inTimingWheel_place {tick : Nat} (small : tick < 2 ^ 31) : (w.place timer tick).inTimingWheel timer = true := by
  simp only [inTimingWheel, place, Function.update_self, toInt32_of_lt small]
  simp

theorem inTimingWheel_displace : (w.displace timer).inTimingWheel timer = false := by
  simp [inTimingWheel, displace]

theorem Filed.place {tick : Nat} (h : w.Filed) (idle : w.inTimingWheel timer = false) (small : tick < 2 ^ 31) :
    Moves timer w (w.place timer tick) := by
  have absent : ∀ i, timer ∉ w.timers i := by
    intro i member
    have := ((h.slot i timer).1 member).1
    simp only [inTimingWheel, decide_eq_false_iff_not] at idle
    exact idle this
  refine ⟨⟨fun i other => ?_, fun i => ?_⟩, rfl, rfl, fun other ne => ?_⟩
  · change other ∈ Function.update w.timers (w.idx (toInt32 tick)) (w.timers (w.idx (toInt32 tick)) ++ [timer]) i ↔
      0 ≤ Function.update w.tick timer (toInt32 tick) other ∧
        i = w.idx (Function.update w.tick timer (toInt32 tick) other)
    rcases eq_or_ne other timer with rfl | ne
    · rw [Function.update_self, toInt32_of_lt small]
      rcases eq_or_ne i (w.idx tick) with rfl | elsewhere
      · simp
      · simp [elsewhere, absent]
    · rw [Function.update_of_ne ne]
      rcases eq_or_ne i (w.idx (toInt32 tick)) with rfl | elsewhere
      · simp [ne, h.slot]
      · rw [Function.update_of_ne elsewhere]
        exact h.slot i other
  · change (Function.update w.timers (w.idx (toInt32 tick)) (w.timers (w.idx (toInt32 tick)) ++ [timer]) i).Nodup
    rcases eq_or_ne i (w.idx (toInt32 tick)) with rfl | elsewhere
    · rw [Function.update_self]
      exact List.nodup_append.2 ⟨h.once _, List.nodup_singleton _, by
        intro a member b new same
        rw [List.mem_singleton] at new
        exact absent _ (new ▸ same ▸ member)⟩
    · rw [Function.update_of_ne elsewhere]
      exact h.once i
  · simp [inTimingWheel, FlatTimingWheel.place, ne]

theorem Filed.displace (h : w.Filed) (timer : τ) : Moves timer w (w.displace timer) := by
  refine ⟨⟨fun i other => ?_, fun i => ?_⟩, rfl, rfl, fun other ne => ?_⟩
  · change other ∈ Function.update w.timers (w.idx (w.tick timer)) ((w.timers (w.idx (w.tick timer))).erase timer) i ↔
      0 ≤ Function.update w.tick timer (-1) other ∧ i = w.idx (Function.update w.tick timer (-1) other)
    rcases eq_or_ne other timer with rfl | ne
    · rw [Function.update_self]
      rcases eq_or_ne i (w.idx (w.tick other)) with rfl | elsewhere
      · simp [(h.once _).mem_erase_iff]
      · simp [elsewhere, h.slot]
    · rw [Function.update_of_ne ne]
      rcases eq_or_ne i (w.idx (w.tick timer)) with rfl | elsewhere
      · rw [Function.update_self, List.mem_erase_of_ne ne]
        exact h.slot _ other
      · rw [Function.update_of_ne elsewhere]
        exact h.slot i other
  · change (Function.update w.timers (w.idx (w.tick timer)) ((w.timers (w.idx (w.tick timer))).erase timer) i).Nodup
    rcases eq_or_ne i (w.idx (w.tick timer)) with rfl | elsewhere
    · rw [Function.update_self]
      exact (h.once _).erase _
    · rw [Function.update_of_ne elsewhere]
      exact h.once i
  · simp [inTimingWheel, FlatTimingWheel.displace, ne]

/-- A timer that does not wait waits after `insert` exactly if that succeeds. -/
theorem Filed.insert (h : w.Filed) (ranged : w.Ranged delay) (idle : w.inTimingWheel timer = false) (now : Date) :
    Moves timer w (w.insert (some timer) delay now).2 ∧
      (w.insert (some timer) delay now).1 ≠ .assertFailed ∧
      ((w.insert (some timer) delay now).2.inTimingWheel timer = true ↔
        (w.insert (some timer) delay now).1 = .success) := by
  have small := ranged (now.sub w.start)
  have placed : (w.ticks (now.sub w.start) + delay / w.tickMilliSeconds) % 2 ^ 32 < 2 ^ 31 := by
    rw [Nat.mod_eq_of_lt (small.trans (by decide))]
    exact small
  simp only [FlatTimingWheel.insert]
  split
  · simp [h.stays, idle]
  rw [if_neg (by simp [idle])]
  split
  · simp [h.stays, idle]
  split
  · simp [h.stays, idle]
  · exact ⟨h.place idle placed, by simp, fun _ => rfl, fun _ => inTimingWheel_place placed⟩

theorem Filed.remove (h : w.Filed) (here : w.allocated = true) (timer : τ) :
    Moves timer w (w.remove (some timer)).2 ∧ (w.remove (some timer)).2.inTimingWheel timer = false := by
  simp only [FlatTimingWheel.remove, here]
  cases waits : w.inTimingWheel timer with
  | false => simp [h.stays, waits]
  | true => simp [h.displace, inTimingWheel_displace]

/-- After a successful `update` the timer waits; after an underflow it does not. -/
theorem Filed.update (h : w.Filed) (ranged : w.Ranged delay) (timer : τ) (now : Date) :
    Moves timer w (w.update (some timer) delay now).2 ∧
      ((w.update (some timer) delay now).1 = .success →
        (w.update (some timer) delay now).2.inTimingWheel timer = true) := by
  have small := ranged (now.sub w.start)
  have placed : (w.ticks (now.sub w.start) + delay / w.tickMilliSeconds) % 2 ^ 32 < 2 ^ 31 := by
    rw [Nat.mod_eq_of_lt (small.trans (by decide))]
    exact small
  simp only [FlatTimingWheel.update]
  split
  · simp [h.stays]
  cases waits : w.inTimingWheel timer with
  | false =>
      rw [if_pos rfl]
      have inserted := h.insert ranged waits now
      exact ⟨inserted.1, inserted.2.2.2⟩
  | true =>
      rw [if_neg (by simp)]
      split
      · simp [h.displace]
      split
      · simp [h.stays]
      split
      · simp [h.stays, waits]
      · have displaced := h.displace timer
        have moved : Moves timer (w.displace timer) _ := displaced.filed.place inTimingWheel_displace placed
        refine ⟨⟨moved.filed, rfl, rfl, fun other ne => ?_⟩, fun _ => inTimingWheel_place placed⟩
        rw [moved.others other ne, displaced.others other ne]

theorem expireFrom_files (h : w.Filed) {tick n : Nat} {w' : FlatTimingWheel τ}
    (found : w.expireFrom tick n = some (timer, w')) :
    Moves timer w w' ∧ w.inTimingWheel timer = true ∧ w'.inTimingWheel timer = false := by
  induction n generalizing tick with
  | zero => cases found
  | succ n ih =>
      rw [expireFrom] at found
      cases slot : w.timers (w.idx (toInt32 tick)) with
      | nil =>
          simp only [slot] at found
          exact ih found
      | cons first rest =>
          simp only [slot, Option.some.injEq, Prod.mk.injEq] at found
          obtain ⟨rfl, rfl⟩ := found
          have waits := (h.slot (w.idx (toInt32 tick)) first).1 (by rw [slot]; exact List.mem_cons_self)
          have displaced := h.displace first
          have same : Function.update w.timers (w.idx (toInt32 tick)) rest = (w.displace first).timers := by
            rw [FlatTimingWheel.displace, ← waits.2, slot, List.erase_cons_head]
          simp only [same]
          refine ⟨⟨⟨displaced.filed.slot, displaced.filed.once⟩, rfl, rfl, displaced.others⟩, ?_, ?_⟩
          · simpa only [inTimingWheel, decide_eq_true_eq] using waits.1
          · simp [inTimingWheel]

/-- A timer that has expired waited and does no longer. -/
theorem Filed.nextExpired (h : w.Filed) (here : w.allocated = true) (now : Date) :
    ∃ expired w', w.nextExpired now = .ok (expired, w') ∧
      match expired with
      | none => ∀ timer, Moves timer w w' ∧ w'.inTimingWheel timer = w.inTimingWheel timer
      | some timer => Moves timer w w' ∧ w.inTimingWheel timer = true ∧ w'.inTimingWheel timer = false := by
  unfold FlatTimingWheel.nextExpired
  dsimp only
  split
  · exact ⟨none, w, rfl, fun timer => ⟨h.stays timer, rfl⟩⟩
  rw [if_neg (by simp [here])]
  split
  · rename_i timer w' found
    exact ⟨some timer, w', rfl, expireFrom_files h found⟩
  · exact ⟨none, _, rfl, fun timer => ⟨⟨⟨h.slot, h.once⟩, rfl, rfl, fun _ _ => rfl⟩, rfl⟩⟩

/-- `clear`: the slots are emptied. -/
def clear (w : FlatTimingWheel τ) : FlatTimingWheel τ :=
  if w.allocated = false then w
  else
    { w with
      timers := fun i => if i < w.maxTicks then [] else w.timers i
      tick := fun timer =>
        if (List.range w.maxTicks).any fun i => decide (timer ∈ w.timers i) then -1 else w.tick timer }

/-- A wheel in which no timer waits is as it was. -/
theorem Filed.clear (h : w.Filed) (idle : ∀ timer, w.inTimingWheel timer = false) : w.clear = w := by
  have empty : ∀ i, w.timers i = [] := by
    intro i
    refine List.eq_nil_iff_forall_not_mem.2 fun timer member => ?_
    have waits : w.inTimingWheel timer = true := by
      simpa only [inTimingWheel, decide_eq_true_eq] using ((h.slot i timer).1 member).1
    rw [idle timer] at waits
    cases waits
  unfold FlatTimingWheel.clear
  split
  · rfl
  · simp [← funext empty, empty]

end FlatTimingWheel

end Everscale
