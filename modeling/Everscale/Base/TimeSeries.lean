/-
# Everscale.Base.TimeSeries -- performance counters of equally spaced windows

An observation goes to the newest window, or opens the window that its stop time falls into; the
oldest window makes room.  A window is from its start to its stop, without the latter
(`SimplePerformanceCounter.span`), but an observation at the very stop of the newest window is counted
in that window: `record` opens another only if `windowStop() < stop`.

`Describes` says that the windows are the most recent ones and that each has counted what fell into
it.  After each observation of a sequence it holds if and only if no observation stops just when the
newest window does, and no number overflows (`timeSeries_describes_iff`).  A window that starts at time
0 counts among the bad ones: its counter takes 0 for a start that is not known yet.

What a counter does with the latency is floating point; of it the model keeps how many there were.
-/
import Mathlib.Data.List.ModifyLast
import Everscale.Base.FlatTimingWheel
import Everscale.Theory.Serving
import Everscale.Theory.Windows

namespace Everscale

set_option autoImplicit false

open Theory

/-! ## The order of dates -/

namespace Date

/-- `operator<` -/
def lt (a b : Date) : Prop :=
  a.seconds < b.seconds ∨ a.seconds = b.seconds ∧ a.microSeconds < b.microSeconds

theorem zero_seconds_lt : 0 < 2 ^ 32 := by decide

theorem zero_microSeconds_lt : 0 < 1000000 := by decide

theorem eq_of {a b : Date} (seconds : a.seconds = b.seconds) (microSeconds : a.microSeconds = b.microSeconds) :
    a = b := by
  cases a
  cases b
  cases seconds
  cases microSeconds
  rfl

instance : DecidableEq Date := fun a b =>
  decidable_of_iff (a.seconds = b.seconds ∧ a.microSeconds = b.microSeconds)
    ⟨fun same => eq_of same.1 same.2, fun same => same ▸ ⟨rfl, rfl⟩⟩

instance (a b : Date) : Decidable (a.lt b) := inferInstanceAs (Decidable (_ ∨ _))

instance : LinearOrder Date where
  le := le
  lt := lt
  le_refl a := .inr ⟨rfl, Nat.le_refl _⟩
  le_trans a b c := by
    unfold le
    omega
  lt_iff_le_not_ge a b := by
    unfold le lt
    omega
  le_antisymm a b first second := by
    unfold le at first second
    exact eq_of (by omega) (by omega)
  le_total a b := by
    unfold le
    omega
  toDecidableLE a b := inferInstanceAs (Decidable (a.le b))
  toDecidableLT a b := inferInstanceAs (Decidable (a.lt b))

end Date

/-! ## Counters and windows -/

/-- Of the average, the number of values. -/
structure AveragingCounter where
  n : Nat := 0

/-- `++_n` of a `UInt32`. -/
def AveragingCounter.add (c : AveragingCounter) : AveragingCounter := { n := (c.n + 1) % 2 ^ 32 }

structure SimplePerformanceCounter where
  windowStart : Date
  windowStop : Date
  latencyMsec : AveragingCounter := {}

/-- Date `0`. -/
def Date.zero : Date := ⟨0, 0, Date.zero_seconds_lt, Date.zero_microSeconds_lt⟩

namespace SimplePerformanceCounter

def queries (c : SimplePerformanceCounter) : Nat := c.latencyMsec.n

/-- A counter that has no start yet takes the clock's. -/
def record (c : SimplePerformanceCounter) (now : Date) : SimplePerformanceCounter :=
  { c with
    windowStart := if c.windowStart.seconds = 0 ∧ c.windowStart.microSeconds = 0 then now else c.windowStart
    latencyMsec := c.latencyMsec.add }

/-- The times from the start to the stop. -/
def span (c : SimplePerformanceCounter) : Span Date := ⟨c.windowStart, c.windowStop⟩

/-- A window that starts at a multiple of the size, and has the size. -/
structure Aligned (size : Nat) (c : SimplePerformanceCounter) : Prop where
  start_dvd : size ∣ c.windowStart.seconds
  start_whole : c.windowStart.microSeconds = 0
  stop_eq : c.windowStop.seconds = c.windowStart.seconds + size
  stop_whole : c.windowStop.microSeconds = 0

end SimplePerformanceCounter

structure TimeSeries where
  maxWindows : Nat
  windowSizeSec : Nat
  currentWindows : Nat := 0
  list : List SimplePerformanceCounter := []

/-- One call of `record`: when the observation stops, what the clock shows, and whether the allocator
has memory. -/
structure Observation where
  stop : Date
  now : Date
  memory : Bool := true

namespace TimeSeries

/-- The counter of the window that a time falls into. -/
def window (s : TimeSeries) (stop : Date) : SimplePerformanceCounter where
  windowStart :=
    { seconds := stop.seconds / s.windowSizeSec * s.windowSizeSec
      microSeconds := 0
      seconds_lt := Nat.lt_of_le_of_lt (Nat.div_mul_le_self ..) stop.seconds_lt
      microSeconds_lt := Date.zero_microSeconds_lt }
  windowStop :=
    { seconds := (stop.seconds / s.windowSizeSec * s.windowSizeSec + s.windowSizeSec) % 2 ^ 32
      microSeconds := 0
      seconds_lt := Nat.mod_lt _ Date.zero_seconds_lt
      microSeconds_lt := Date.zero_microSeconds_lt }

/-- There is no counter, or the last one's window is over. -/
def Opens (s : TimeSeries) (stop : Date) : Prop := ∀ c ∈ s.list.getLast?, c.windowStop < stop

instance (s : TimeSeries) (stop : Date) : Decidable (s.Opens stop) :=
  inferInstanceAs (Decidable (∀ c ∈ s.list.getLast?, c.windowStop < stop))

/-- `counter->record` of the last counter. -/
def recordLast (now : Date) (list : List SimplePerformanceCounter) : List SimplePerformanceCounter :=
  list.modifyLast fun c => c.record now

/-- Whether the observation is recorded; `none` for a division by zero, and for a series of no windows,
which has no oldest one. -/
def record (s : TimeSeries) (o : Observation) : Option (Bool × TimeSeries) :=
  if s.Opens o.stop then
    if s.windowSizeSec = 0 then none
    else if s.currentWindows ≥ s.maxWindows then
      match s.list with
      | [] => none
      | _ :: newer => some (true, { s with list := recordLast o.now (newer ++ [s.window o.stop]) })
    else if o.memory = false then some (false, s)
    else
      some (true, { s with
        currentWindows := (s.currentWindows + 1) % 2 ^ 16
        list := recordLast o.now (s.list ++ [s.window o.stop]) })
  else some (true, { s with list := recordLast o.now s.list })

def queries (s : TimeSeries) : Nat := s.list.foldl (fun queries c => (queries + c.queries) % 2 ^ 32) 0

theorem recordLast_concat (now : Date) (front : List SimplePerformanceCounter) (c : SimplePerformanceCounter) :
    recordLast now (front ++ [c]) = front ++ [c.record now] := List.modifyLast_concat ..

/-! ## What the windows should be -/

/-- The times that the windows span. -/
def spans (s : TimeSeries) : List (Span Date) := s.list.map SimplePerformanceCounter.span

/-- The windows are the most recent ones that observations which stopped then fell into, and each has
counted its own. -/
structure Describes (s : TimeSeries) (stops : List Date) : Prop where
  windowed : Windowed s.maxWindows s.spans stops
  counted : s.list.map SimplePerformanceCounter.queries = tally s.spans stops
  aligned : ∀ c ∈ s.list, c.Aligned s.windowSizeSec
  queries_eq : s.queries = stops.countP fun t => ∃ w ∈ s.spans, w.Has t

/-- The fields agree on how many windows there are. -/
structure Sized (s : TimeSeries) : Prop where
  most_pos : 0 < s.maxWindows
  most_lt : s.maxWindows < 2 ^ 16
  size_lt : s.windowSizeSec < 2 ^ 16
  current_eq : s.currentWindows = s.list.length
  current_le : s.currentWindows ≤ s.maxWindows

theorem queries_lt (s : TimeSeries) : s.queries < 2 ^ 32 := by
  have general : ∀ (list : List SimplePerformanceCounter) (n : Nat), n < 2 ^ 32 →
      list.foldl (fun queries c => (queries + c.queries) % 2 ^ 32) n < 2 ^ 32 := by
    intro list
    induction list with
    | nil => exact fun _ small => small
    | cons c list ih => exact fun _ _ => ih _ (Nat.mod_lt _ (by decide))
  exact general s.list 0 (by decide)

theorem queries_mod (s : TimeSeries) : s.queries = (s.list.map SimplePerformanceCounter.queries).sum % 2 ^ 32 := by
  have general : ∀ (list : List SimplePerformanceCounter) (n : Nat), n < 2 ^ 32 →
      list.foldl (fun queries c => (queries + c.queries) % 2 ^ 32) n =
        (n + (list.map SimplePerformanceCounter.queries).sum) % 2 ^ 32 := by
    intro list
    induction list with
    | nil => exact fun n small => (Nat.mod_eq_of_lt small).symm
    | cons c list ih =>
        intro n small
        rw [List.foldl_cons, ih _ (Nat.mod_lt _ (by decide)), List.map_cons, List.sum_cons, Nat.mod_add_mod,
          Nat.add_assoc]
  rw [queries, general s.list 0 (by decide), Nat.zero_add]

section

variable {s : TimeSeries} {stops : List Date} {front newer : List SimplePerformanceCounter}
  {c : SimplePerformanceCounter} {t now : Date}

theorem Describes.sum_lt (h : s.Describes stops) : (tally s.spans stops).sum < 2 ^ 32 := by
  rw [sum_tally h.windowed.ascending, ← h.queries_eq]
  exact s.queries_lt

theorem Describes.queries_sum (h : s.Describes stops) : s.queries = (tally s.spans stops).sum :=
  h.queries_eq.trans (sum_tally h.windowed.ascending stops).symm

theorem record_queries (c : SimplePerformanceCounter) (now : Date) :
    (c.record now).queries = (c.queries + 1) % 2 ^ 32 := rfl

/-- An observation is counted in a window where it belongs exactly if the window has it, and keeps its
start. -/
theorem describes_landing_iff (size : s.windowSizeSec < 2 ^ 32) (list : s.list = front ++ [c.record now])
    (counted : front.map SimplePerformanceCounter.queries = tally (front.map SimplePerformanceCounter.span) stops)
    (alignedFront : ∀ v ∈ front, v.Aligned s.windowSizeSec)
    (stop : c.windowStop.seconds = (c.windowStart.seconds + s.windowSizeSec) % 2 ^ 32)
    (count : c.queries = stops.countP (c.span.Has ·))
    (kept : c.span.Has t → Windowed s.maxWindows (front.map SimplePerformanceCounter.span ++ [c.span]) (stops ++ [t])) :
    s.Describes (stops ++ [t]) ↔ c.span.Has t ∧ c.Aligned s.windowSizeSec ∧ (c.record now).span = c.span ∧
      (tally (front.map SimplePerformanceCounter.span ++ [c.span]) stops).sum + 1 < 2 ^ 32 := by
  have spans : s.spans = front.map SimplePerformanceCounter.span ++ [(c.record now).span] := by
    rw [TimeSeries.spans, list, List.map_append]
    rfl
  -- where the window has the observation, one more has been counted
  have more : c.span.Has t → tally (front.map SimplePerformanceCounter.span ++ [c.span]) (stops ++ [t]) =
      tally (front.map SimplePerformanceCounter.span) stops ++ [stops.countP (c.span.Has ·) + 1] := by
    intro inside
    rw [tally_append, tally_misses ((kept inside).apart inside), countP_has _ _ inside]
  constructor
  · intro h
    have aligned := h.aligned (c.record now) (list ▸ List.mem_append_right _ (List.mem_singleton_self _))
    have same : (c.record now).span = c.span := by
      by_cases unknown : c.windowStart.seconds = 0 ∧ c.windowStart.microSeconds = 0
      · have start : (c.record now).windowStart = now := if_pos unknown
        have whole := aligned.start_whole
        have length := aligned.stop_eq
        rw [start] at whole length
        have seconds : c.windowStop.seconds = now.seconds + s.windowSizeSec := length
        have known : now = c.windowStart := Date.eq_of (by omega) (whole.trans unknown.2.symm)
        unfold SimplePerformanceCounter.span
        rw [start, known]
        rfl
      · have start : (c.record now).windowStart = c.windowStart := if_neg unknown
        unfold SimplePerformanceCounter.span
        rw [start]
        rfl
    have start : (c.record now).windowStart = c.windowStart := congrArg Span.start same
    have counts := h.counted
    rw [spans, list, same, List.map_append, List.map_singleton, tally_append, record_queries, count] at counts
    have last := List.append_inj_right' counts rfl
    have last : (stops.countP (c.span.Has ·) + 1) % 2 ^ 32 = (stops ++ [t]).countP (c.span.Has ·) :=
      List.head_eq_of_cons_eq last
    have inside : c.span.Has t := by
      by_contra outside
      rw [countP_misses _ _ outside] at last
      omega
    have sum := h.sum_lt
    rw [spans, same, more inside, List.sum_append, List.sum_singleton] at sum
    refine ⟨inside, ?_, same, ?_⟩
    · exact ⟨start ▸ aligned.start_dvd, start ▸ aligned.start_whole, start ▸ aligned.stop_eq, aligned.stop_whole⟩
    · rw [tally_append, List.sum_append, List.sum_singleton]
      exact sum
  · rintro ⟨inside, aligned, same, sum⟩
    have start : (c.record now).windowStart = c.windowStart := congrArg Span.start same
    rw [tally_append, List.sum_append, List.sum_singleton] at sum
    have counts : s.list.map SimplePerformanceCounter.queries = tally s.spans (stops ++ [t]) := by
      rw [spans, same, more inside, list, List.map_append, counted, List.map_singleton, record_queries, count,
        Nat.mod_eq_of_lt (by omega)]
    have windowed : Windowed s.maxWindows s.spans (stops ++ [t]) := by
      rw [spans, same]
      exact kept inside
    refine ⟨windowed, counts, ?_, ?_⟩
    · intro v member
      rw [list] at member
      rcases List.mem_append.1 member with old | new
      · exact alignedFront v old
      · cases List.mem_singleton.1 new
        exact ⟨start ▸ aligned.start_dvd, start ▸ aligned.start_whole, start ▸ aligned.stop_eq, aligned.stop_whole⟩
    · rw [queries_mod, counts, ← sum_tally windowed.ascending, spans, same, more inside, List.sum_append,
        List.sum_singleton, Nat.mod_eq_of_lt]
      exact sum

/-! ## One observation -/

/-- There is no memory for another window, and room for one. -/
def Refused (s : TimeSeries) (o : Observation) : Prop :=
  s.Opens o.stop ∧ s.currentWindows < s.maxWindows ∧ o.memory = false

/-- The observation is not recorded, or it does not stop just when the newest window does, its window
ends before the seconds overflow and does not start at 0 (unless the clock shows 0), and the number of
observations does not overflow. -/
def Fits (s : TimeSeries) (o : Observation) : Prop :=
  s.windowSizeSec ≠ 0 ∧ (s.Refused o ∨
    (∀ c ∈ s.list.getLast?, c.windowStop ≠ o.stop) ∧
      o.stop.seconds / s.windowSizeSec * s.windowSizeSec + s.windowSizeSec < 2 ^ 32 ∧
      (s.windowSizeSec ≤ o.stop.seconds ∨ o.now = .zero) ∧
      ((s.list.map SimplePerformanceCounter.queries).sum + 1 < 2 ^ 32 ∨
        s.Opens o.stop ∧ s.maxWindows ≤ s.currentWindows))

instance (s : TimeSeries) (o : Observation) : Decidable (s.Refused o) := inferInstanceAs (Decidable (_ ∧ _))

instance (s : TimeSeries) (o : Observation) : Decidable (s.Fits o) := inferInstanceAs (Decidable (_ ∧ (_ ∨ _)))

theorem record_keeps_start (c : SimplePerformanceCounter) (now : Date) :
    (c.record now).span = c.span ↔ c.windowStart = .zero → now = .zero := by
  have zero : c.windowStart.seconds = 0 ∧ c.windowStart.microSeconds = 0 ↔ c.windowStart = .zero :=
    ⟨fun both => Date.eq_of both.1 both.2, fun same => same ▸ ⟨rfl, rfl⟩⟩
  have span : (c.record now).span = ⟨if c.windowStart = .zero then now else c.windowStart, c.windowStop⟩ := by
    simp only [SimplePerformanceCounter.span, SimplePerformanceCounter.record, zero]
  rw [span]
  by_cases unknown : c.windowStart = .zero
  · rw [if_pos unknown]
    constructor
    · intro same _
      exact (congrArg Span.start same).trans unknown
    · intro known
      rw [known unknown, ← unknown]
      rfl
  · rw [if_neg unknown]
    exact ⟨fun _ zero => absurd zero unknown, fun _ => rfl⟩

theorem has_iff (start : c.windowStart.microSeconds = 0) (stop : c.windowStop.microSeconds = 0) :
    c.span.Has t ↔ c.windowStart.seconds ≤ t.seconds ∧ t.seconds < c.windowStop.seconds := by
  show c.windowStart.le t ∧ t.lt c.windowStop ↔ _
  unfold Date.le Date.lt
  omega

/-- Of the windows that may have the observation, the first starts at 0. -/
theorem start_zero_iff (aligned : c.Aligned s.windowSizeSec) (inside : c.span.Has t) :
    c.windowStart = .zero ↔ t.seconds < s.windowSizeSec := by
  obtain ⟨⟨k, start⟩, startWhole, stop, stopWhole⟩ := aligned
  obtain ⟨after, before⟩ := (has_iff startWhole stopWhole).1 inside
  constructor
  · intro zero
    have seconds : c.windowStart.seconds = 0 := congrArg Date.seconds zero
    omega
  · intro early
    have small : s.windowSizeSec * k < s.windowSizeSec * 1 := by omega
    have first : k < 1 := Nat.lt_of_mul_lt_mul_left small
    have seconds : c.windowStart.seconds = 0 := by
      rw [start, Nat.lt_one_iff.1 first, Nat.mul_zero]
    exact Date.eq_of seconds startWhole

/-- In the newest window. -/
theorem stay_iff (sized : s.Sized) (h : s.Describes stops) (ordered : ∀ u ∈ stops, u ≤ t)
    (list : s.list = front ++ [c]) (past : ¬ s.Opens t) :
    { s with list := front ++ [c.record now] }.Describes (stops ++ [t]) ↔
      s.windowSizeSec ≠ 0 ∧ (∀ v ∈ s.list.getLast?, v.windowStop ≠ t) ∧
        t.seconds / s.windowSizeSec * s.windowSizeSec + s.windowSizeSec < 2 ^ 32 ∧
        (s.windowSizeSec ≤ t.seconds ∨ now = .zero) ∧ s.queries + 1 < 2 ^ 32 := by
  have last : s.list.getLast? = some c := by
    rw [list]
    exact List.getLast?_concat
  have spans : s.spans = front.map SimplePerformanceCounter.span ++ [c.span] := by
    rw [TimeSeries.spans, list, List.map_append]
    rfl
  have member : c ∈ s.list := list ▸ List.mem_append_right _ (List.mem_singleton_self c)
  have aligned := h.aligned c member
  have windowed := h.windowed
  rw [spans] at windowed
  have counts := h.counted
  rw [list, spans, List.map_append, tally_append] at counts
  have before : t ≤ c.windowStop := by
    by_contra late
    refine past fun v isLast => ?_
    cases last.symm.trans isLast
    exact not_le.1 late
  have stopWraps : c.windowStop.seconds = (c.windowStart.seconds + s.windowSizeSec) % 2 ^ 32 := by
    rw [← aligned.stop_eq]
    exact (Nat.mod_eq_of_lt c.windowStop.seconds_lt).symm
  have small : s.windowSizeSec < 2 ^ 32 := sized.size_lt.trans (by decide)
  rw [describes_landing_iff (s := { s with list := front ++ [c.record now] }) small rfl (List.append_inj_left' counts rfl)
    (fun v old => h.aligned v (list ▸ List.mem_append_left _ old)) stopWraps
    (List.head_eq_of_cons_eq (List.append_inj_right' counts rfl)) windowed.stay, ← spans, ← h.queries_sum,
    record_keeps_start]
  have hasIff : c.span.Has t ↔ c.windowStop ≠ t := by
    constructor
    · intro inside same
      exact absurd (same ▸ inside.2 : t < t) (lt_irrefl t)
    · intro other
      exact windowed.newest_has ordered (lt_of_le_of_ne before other.symm)
  constructor
  · rintro ⟨inside, -, known, room⟩
    obtain ⟨after, ahead⟩ := (has_iff aligned.start_whole aligned.stop_whole).1 inside
    have stop := aligned.stop_eq
    have stopLt := c.windowStop.seconds_lt
    refine ⟨by omega, ?_, ?_, ?_, room⟩
    · intro v isLast
      cases last.symm.trans isLast
      exact hasIff.1 inside
    · obtain ⟨k, start⟩ := aligned.start_dvd
      have quotient : t.seconds / s.windowSizeSec = k := by
        apply Nat.div_eq_of_lt_le
        · rw [Nat.mul_comm]
          omega
        · rw [Nat.succ_mul, Nat.mul_comm]
          omega
      rw [quotient, Nat.mul_comm]
      omega
    · by_cases early : t.seconds < s.windowSizeSec
      · exact .inr (known ((start_zero_iff aligned inside).2 early))
      · exact .inl (Nat.le_of_not_lt early)
  · rintro ⟨-, apart, -, known, room⟩
    have inside := hasIff.2 (apart c last)
    refine ⟨inside, aligned, fun zero => ?_, room⟩
    have early := (start_zero_iff aligned inside).1 zero
    exact known.resolve_left (Nat.not_le.2 early)

/-- A window that ends before the seconds overflow has the time it was made for. -/
theorem window_has (size : s.windowSizeSec ≠ 0)
    (fits : t.seconds / s.windowSizeSec * s.windowSizeSec + s.windowSizeSec < 2 ^ 32) : (s.window t).span.Has t := by
  apply (has_iff rfl rfl).2
  have stop : (s.window t).windowStop.seconds = t.seconds / s.windowSizeSec * s.windowSizeSec + s.windowSizeSec :=
    Nat.mod_eq_of_lt fits
  rw [stop]
  exact ⟨Nat.div_mul_le_self .., Nat.lt_div_mul_add (Nat.pos_of_ne_zero size)⟩

theorem window_aligned_iff : (s.window t).Aligned s.windowSizeSec ↔
    t.seconds / s.windowSizeSec * s.windowSizeSec + s.windowSizeSec < 2 ^ 32 := by
  constructor
  · intro aligned
    have stop := aligned.stop_eq
    have small := (s.window t).windowStop.seconds_lt
    rw [stop] at small
    exact small
  · intro fits
    exact ⟨Nat.dvd_mul_left .., rfl, Nat.mod_eq_of_lt fits, rfl⟩

theorem window_lands_iff (size : s.windowSizeSec ≠ 0) :
    ((s.window t).span.Has t ∧ (s.window t).Aligned s.windowSizeSec ∧
        ((s.window t).record now).span = (s.window t).span) ↔
      t.seconds / s.windowSizeSec * s.windowSizeSec + s.windowSizeSec < 2 ^ 32 ∧
        (s.windowSizeSec ≤ t.seconds ∨ now = .zero) := by
  rw [window_aligned_iff, record_keeps_start]
  constructor
  · rintro ⟨inside, fits, known⟩
    refine ⟨fits, ?_⟩
    by_cases early : t.seconds < s.windowSizeSec
    · exact .inr (known ((start_zero_iff (window_aligned_iff.2 fits) inside).2 early))
    · exact .inl (Nat.le_of_not_lt early)
  · rintro ⟨fits, known⟩
    have inside := window_has size fits
    refine ⟨inside, fits, fun zero => ?_⟩
    have early := (start_zero_iff (window_aligned_iff.2 fits) inside).1 zero
    exact known.resolve_left (Nat.not_le.2 early)

/-- Where a window is opened, all others are over. -/
theorem Describes.past (h : s.Describes stops) (opens : s.Opens t) : ∀ c ∈ s.list, c.windowStop < t := by
  intro c member
  rcases List.eq_nil_or_concat s.list with empty | ⟨front, last, list⟩
  · rw [empty] at member
    cases member
  · rw [List.concat_eq_append] at list
    have lastOver : last.windowStop < t := opens last (by rw [list]; exact List.getLast?_concat)
    rw [list] at member
    rcases List.mem_append.1 member with old | new
    · have ascending := h.windowed.ascending
      rw [TimeSeries.spans, list, List.map_append] at ascending
      have before : c.windowStop ≤ last.windowStart :=
        (List.pairwise_append.1 ascending).2.2 c.span (List.mem_map_of_mem old) last.span (List.mem_singleton_self _)
      obtain ⟨u, -, inside⟩ := h.windowed.used last.span
        (List.mem_map_of_mem (list ▸ List.mem_append_right _ (List.mem_singleton_self last)))
      have proper : last.windowStart < last.windowStop := lt_of_le_of_lt inside.1 inside.2
      exact (before.trans_lt proper).trans lastOver
    · cases List.mem_singleton.1 new
      exact lastOver

theorem Describes.behind (h : s.Describes stops) (opens : s.Opens t) :
    ∀ v ∈ s.spans, v.Before (s.window t).span := by
  intro v member
  obtain ⟨c, kept, rfl⟩ := List.mem_map.1 member
  have past : c.windowStop.lt t := h.past opens c kept
  obtain ⟨start, startWhole, stop, stopWhole⟩ := h.aligned c kept
  -- the stop is a multiple of the size, and no later than the time
  have multiple : c.windowStop.seconds / s.windowSizeSec * s.windowSizeSec = c.windowStop.seconds :=
    Nat.div_mul_cancel (stop ▸ Nat.dvd_add start (Nat.dvd_refl _))
  have seconds : c.windowStop.seconds ≤ t.seconds := by
    unfold Date.lt at past
    omega
  have le : c.windowStop.seconds ≤ (s.window t).windowStart.seconds :=
    calc c.windowStop.seconds = c.windowStop.seconds / s.windowSizeSec * s.windowSizeSec := multiple.symm
      _ ≤ t.seconds / s.windowSizeSec * s.windowSizeSec := Nat.mul_le_mul_right _ (Nat.div_le_div_right seconds)
  show c.windowStop.le (s.window t).windowStart
  rcases Nat.lt_or_eq_of_le le with less | same
  · exact .inl less
  · exact .inr ⟨same, Nat.le_of_eq stopWhole⟩

/-- In a window that is opened beside the others. -/
theorem grow_iff (sized : s.Sized) (h : s.Describes stops) (opens : s.Opens t) (size : s.windowSizeSec ≠ 0)
    (room : s.currentWindows < s.maxWindows) (windows : Nat) :
    { s with currentWindows := windows, list := s.list ++ [(s.window t).record now] }.Describes (stops ++ [t]) ↔
      t.seconds / s.windowSizeSec * s.windowSizeSec + s.windowSizeSec < 2 ^ 32 ∧
        (s.windowSizeSec ≤ t.seconds ∨ now = .zero) ∧ s.queries + 1 < 2 ^ 32 := by
  have behind := h.behind opens
  have none : stops.countP ((s.window t).span.Has ·) = 0 :=
    List.countP_eq_zero.2 fun u member => by simpa using h.windowed.fresh sized.most_pos behind u member
  have less : s.spans.length < s.maxWindows := by
    rw [TimeSeries.spans, List.length_map, ← sized.current_eq]
    exact room
  rw [describes_landing_iff (s := { s with currentWindows := windows, list := s.list ++ [(s.window t).record now] })
    (c := s.window t) (sized.size_lt.trans (by decide)) rfl h.counted h.aligned rfl none.symm
    fun inside => h.windowed.grow less behind inside]
  have sum : (tally (s.spans ++ [(s.window t).span]) stops).sum = s.queries := by
    rw [tally_append, none, List.sum_append, h.queries_sum]
    rfl
  show (_ ∧ _ ∧ _ ∧ (tally (s.spans ++ [(s.window t).span]) stops).sum + 1 < 2 ^ 32) ↔ _
  rw [sum]
  constructor
  · rintro ⟨inside, aligned, start, small⟩
    obtain ⟨fits, known⟩ := (window_lands_iff size).1 ⟨inside, aligned, start⟩
    exact ⟨fits, known, small⟩
  · rintro ⟨fits, known, small⟩
    obtain ⟨inside, aligned, start⟩ := (window_lands_iff size).2 ⟨fits, known⟩
    exact ⟨inside, aligned, start, small⟩

/-- In a window that is opened in the oldest one's place. -/
theorem slide_iff (sized : s.Sized) (h : s.Describes stops) (opens : s.Opens t) (size : s.windowSizeSec ≠ 0)
    (full : s.maxWindows ≤ s.currentWindows) (list : s.list = c :: newer) :
    { s with list := newer ++ [(s.window t).record now] }.Describes (stops ++ [t]) ↔
      t.seconds / s.windowSizeSec * s.windowSizeSec + s.windowSizeSec < 2 ^ 32 ∧
        (s.windowSizeSec ≤ t.seconds ∨ now = .zero) := by
  have behind := h.behind opens
  have none : stops.countP ((s.window t).span.Has ·) = 0 :=
    List.countP_eq_zero.2 fun u member => by simpa using h.windowed.fresh sized.most_pos behind u member
  have spans : s.spans = c.span :: newer.map SimplePerformanceCounter.span := by
    rw [TimeSeries.spans, list]
    rfl
  have length : s.spans.length = s.maxWindows := by
    have current := sized.current_eq
    have most := sized.current_le
    rw [TimeSeries.spans, List.length_map]
    omega
  have windowed := h.windowed
  have counts := h.counted
  rw [spans] at windowed behind length
  rw [spans, list] at counts
  have counted : newer.map SimplePerformanceCounter.queries = tally (newer.map SimplePerformanceCounter.span) stops :=
    List.tail_eq_of_cons_eq counts
  rw [describes_landing_iff (s := { s with list := newer ++ [(s.window t).record now] }) (c := s.window t)
    (sized.size_lt.trans (by decide)) rfl counted (fun v kept => h.aligned v (list ▸ List.mem_cons_of_mem _ kept))
    rfl none.symm fun inside => windowed.slide length behind inside]
  -- an observation was in the window that goes
  have small : (tally (newer.map SimplePerformanceCounter.span ++ [(s.window t).span]) stops).sum + 1 < 2 ^ 32 := by
    have sum := h.sum_lt
    obtain ⟨u, seen, inside⟩ := windowed.used c.span List.mem_cons_self
    have used : 0 < stops.countP (c.span.Has ·) := List.countP_pos_iff.2 ⟨u, seen, decide_eq_true inside⟩
    have first : tally s.spans stops =
        stops.countP (c.span.Has ·) :: tally (newer.map SimplePerformanceCounter.span) stops := by
      rw [spans]
      rfl
    rw [first, List.sum_cons] at sum
    rw [tally_append, none, List.sum_append, List.sum_singleton]
    omega
  rw [← window_lands_iff size]
  constructor
  · rintro ⟨inside, aligned, start, -⟩
    exact ⟨inside, aligned, start⟩
  · rintro ⟨inside, aligned, start⟩
    exact ⟨inside, aligned, start, small⟩

/-- A recorded observation is in one of the windows, and in no other, or is older than all of as many
as are kept. -/
theorem Describes.one_window (h : s.Describes stops) (member : t ∈ stops) :
    (∃ i, ∃ has : i < s.spans.length, s.spans[i].Has t ∧ ∀ j, ∀ also : j < s.spans.length, s.spans[j].Has t → j = i) ∨
      s.spans.length = s.maxWindows ∧ ∀ w ∈ s.spans, t < w.start := by
  rcases h.windowed.recent t member with ⟨w, kept, inside⟩ | older
  · obtain ⟨i, small, rfl⟩ := List.getElem_of_mem kept
    exact .inl ⟨i, small, inside, fun j also other => h.windowed.unique also small other inside⟩
  · exact .inr older

theorem Describes.queries_total (h : s.Describes stops) :
    s.queries = (s.list.map SimplePerformanceCounter.queries).sum := by
  rw [h.counted]
  exact h.queries_sum

/-! ## What a call does -/

section

variable {o : Observation}

theorem record_stay (past : ¬ s.Opens o.stop) (list : s.list = front ++ [c]) :
    s.record o = some (true, { s with list := front ++ [c.record o.now] }) := by
  unfold record
  rw [if_neg past, list, recordLast_concat]

theorem record_zero (opens : s.Opens o.stop) (size : s.windowSizeSec = 0) : s.record o = none := by
  unfold record
  rw [if_pos opens, if_pos size]

theorem record_slide (opens : s.Opens o.stop) (size : s.windowSizeSec ≠ 0) (full : s.maxWindows ≤ s.currentWindows)
    (list : s.list = c :: newer) :
    s.record o = some (true, { s with list := newer ++ [(s.window o.stop).record o.now] }) := by
  unfold record
  rw [if_pos opens, if_neg size, if_pos full, list]
  dsimp only
  rw [recordLast_concat]

theorem record_refused (size : s.windowSizeSec ≠ 0) (refused : s.Refused o) : s.record o = some (false, s) := by
  obtain ⟨opens, room, memory⟩ := refused
  unfold record
  rw [if_pos opens, if_neg size, if_neg (Nat.not_le.2 room), if_pos memory]

theorem record_grow (opens : s.Opens o.stop) (size : s.windowSizeSec ≠ 0) (room : s.currentWindows < s.maxWindows)
    (memory : o.memory ≠ false) :
    s.record o = some (true, { s with
      currentWindows := (s.currentWindows + 1) % 2 ^ 16
      list := s.list ++ [(s.window o.stop).record o.now] }) := by
  unfold record
  rw [if_pos opens, if_neg size, if_neg (Nat.not_le.2 room), if_neg memory, recordLast_concat]

theorem exists_last (past : ¬ s.Opens t) : ∃ front c, s.list = front ++ [c] := by
  rcases List.eq_nil_or_concat s.list with empty | ⟨front, c, list⟩
  · refine absurd (fun c isLast => ?_) past
    rw [empty] at isLast
    cases isLast
  · exact ⟨front, c, list.trans List.concat_eq_append⟩

theorem Sized.exists_first (sized : s.Sized) (full : s.maxWindows ≤ s.currentWindows) :
    ∃ c newer, s.list = c :: newer := by
  apply List.exists_cons_of_length_pos
  rw [← sized.current_eq]
  exact Nat.lt_of_lt_of_le sized.most_pos full

end

end

end TimeSeries

/-! ## Runs -/

/-- A series, and when the observations stopped that it has recorded. -/
structure Observed where
  series : TimeSeries
  stops : List Date := []

namespace Observed

def record (s : Observed) (o : Observation) : Option (Bool × Observed) :=
  (s.series.record o).map fun (recorded, series) =>
    (recorded, { series, stops := if recorded then s.stops ++ [o.stop] else s.stops })

variable {s s' : Observed} {o : Observation} {answer : Bool}

theorem record_some {series : TimeSeries} (recorded : s.series.record o = some (true, series)) :
    s.record o = some (true, ⟨series, s.stops ++ [o.stop]⟩) := by
  unfold record
  rw [recorded]
  rfl

theorem record_keeps_sized (sized : s.series.Sized) (done : s.record o = some (answer, s')) : s'.series.Sized := by
  obtain ⟨most, small, size, current, bound⟩ := sized
  have inv : s.series.Sized := ⟨most, small, size, current, bound⟩
  by_cases opens : s.series.Opens o.stop
  · by_cases zero : s.series.windowSizeSec = 0
    · unfold record at done
      rw [TimeSeries.record_zero opens zero] at done
      cases done
    · by_cases full : s.series.maxWindows ≤ s.series.currentWindows
      · obtain ⟨c, newer, list⟩ := inv.exists_first full
        rw [record_some (TimeSeries.record_slide opens zero full list)] at done
        cases done
        refine ⟨most, small, size, ?_, bound⟩
        rw [list] at current
        rw [List.length_append]
        exact current
      · have room := Nat.lt_of_not_le full
        by_cases memory : o.memory = false
        · unfold record at done
          rw [TimeSeries.record_refused zero ⟨opens, room, memory⟩] at done
          cases done
          exact inv
        · rw [record_some (TimeSeries.record_grow opens zero room memory)] at done
          cases done
          have next : (s.series.currentWindows + 1) % 2 ^ 16 = s.series.currentWindows + 1 :=
            Nat.mod_eq_of_lt (by omega)
          refine ⟨most, small, size, ?_, ?_⟩
          · rw [List.length_append, ← current]
            exact next
          · exact next.trans_le room
  · obtain ⟨front, c, list⟩ := TimeSeries.exists_last opens
    rw [record_some (TimeSeries.record_stay opens list)] at done
    cases done
    refine ⟨most, small, size, ?_, bound⟩
    rw [current, list, List.length_append, List.length_append]
    rfl

theorem record_fits_iff (sized : s.series.Sized) (h : s.series.Describes s.stops) (ordered : ∀ u ∈ s.stops, u ≤ o.stop) :
    s.series.Fits o ↔ ∃ answer s', s.record o = some (answer, s') ∧ s'.series.Describes s'.stops := by
  -- a call that records leaves one state
  have recorded : ∀ {series}, s.series.record o = some (true, series) →
      ((∃ answer s', s.record o = some (answer, s') ∧ s'.series.Describes s'.stops) ↔
        series.Describes (s.stops ++ [o.stop])) := by
    intro series done
    rw [record_some done]
    constructor
    · rintro ⟨answer, s', same, describes⟩
      cases same
      exact describes
    · intro describes
      exact ⟨true, _, rfl, describes⟩
  have total := h.queries_total
  unfold TimeSeries.Fits
  by_cases opens : s.series.Opens o.stop
  · have past : ∀ c ∈ s.series.list.getLast?, c.windowStop ≠ o.stop := by
      intro c isLast same
      exact absurd (same ▸ opens c isLast : o.stop < o.stop) (lt_irrefl _)
    by_cases zero : s.series.windowSizeSec = 0
    · constructor
      · rintro ⟨size, -⟩
        exact absurd zero size
      · rintro ⟨answer, s', done, -⟩
        unfold record at done
        rw [TimeSeries.record_zero opens zero] at done
        cases done
    · by_cases full : s.series.maxWindows ≤ s.series.currentWindows
      · obtain ⟨c, newer, list⟩ := sized.exists_first full
        rw [recorded (TimeSeries.record_slide opens zero full list), TimeSeries.slide_iff sized h opens zero full list]
        constructor
        · rintro ⟨-, ⟨-, room, -⟩ | ⟨-, fits, known, -⟩⟩
          · exact absurd room (Nat.not_lt.2 full)
          · exact ⟨fits, known⟩
        · rintro ⟨fits, known⟩
          exact ⟨zero, .inr ⟨past, fits, known, .inr ⟨opens, full⟩⟩⟩
      · have room := Nat.lt_of_not_le full
        by_cases memory : o.memory = false
        · refine ⟨fun _ => ⟨false, s, ?_, h⟩, fun _ => ⟨zero, .inl ⟨opens, room, memory⟩⟩⟩
          unfold record
          rw [TimeSeries.record_refused zero ⟨opens, room, memory⟩]
          rfl
        · rw [recorded (TimeSeries.record_grow opens zero room memory), TimeSeries.grow_iff sized h opens zero room, total]
          constructor
          · rintro ⟨-, ⟨-, -, none⟩ | ⟨-, fits, known, small | ⟨-, most⟩⟩⟩
            · exact absurd none memory
            · exact ⟨fits, known, small⟩
            · exact absurd most full
          · rintro ⟨fits, known, small⟩
            exact ⟨zero, .inr ⟨past, fits, known, .inl small⟩⟩
  · obtain ⟨front, c, list⟩ := TimeSeries.exists_last opens
    rw [recorded (TimeSeries.record_stay opens list), TimeSeries.stay_iff sized h ordered list opens, total]
    constructor
    · rintro ⟨zero, ⟨opened, -⟩ | ⟨past, fits, known, small | ⟨opened, -⟩⟩⟩
      · exact absurd opened opens
      · exact ⟨zero, past, fits, known, small⟩
      · exact absurd opened opens
    · rintro ⟨zero, past, fits, known, small⟩
      exact ⟨zero, .inr ⟨past, fits, known, .inl small⟩⟩

/-- Observations whose stop times do not decrease come after all that are recorded. -/
theorem ordered_allFit {observations : List Observation}
    (ordered : (observations.map Observation.stop).Pairwise (· ≤ ·))
    (later : ∀ o ∈ observations, ∀ u ∈ s.stops, u ≤ o.stop) :
    AllFit record (fun s o => ∀ u ∈ s.stops, u ≤ o.stop) s observations := by
  induction observations generalizing s with
  | nil => trivial
  | cons o observations ih =>
      have split := List.pairwise_cons.1 ordered
      refine ⟨later o List.mem_cons_self, fun answer s' done => ih split.2 fun next member u seen => ?_⟩
      have earlier := later next (List.mem_cons_of_mem _ member)
      obtain ⟨⟨recorded, series⟩, -, result⟩ := Option.map_eq_some_iff.1 done
      cases result
      cases answer with
      | false => exact earlier u seen
      | true =>
          rcases List.mem_append.1 seen with old | new
          · exact earlier u old
          · cases List.mem_singleton.1 new
            exact split.1 next.stop (List.mem_map_of_mem member)

/-- A series without windows. -/
def new (maxWindows windowSizeSec : Nat) : Observed := { series := { maxWindows, windowSizeSec } }

theorem describes_new (maxWindows windowSizeSec : Nat) :
    (new maxWindows windowSizeSec).series.Describes (new maxWindows windowSizeSec).stops :=
  ⟨.nil _, rfl, nofun, rfl⟩

/-- **Windows of a time series**: after each observation of a sequence the kept windows are the most
recent ones and each has counted what stopped in it, if and only if each observation fits. -/
theorem timeSeries_describes_iff {maxWindows windowSizeSec : Nat} (most : 0 < maxWindows) (mostLt : maxWindows < 2 ^ 16)
    (size : windowSizeSec < 2 ^ 16) {observations : List Observation}
    (ordered : (observations.map Observation.stop).Pairwise (· ≤ ·)) :
    AfterEach record (fun s => s.series.Describes s.stops) (new maxWindows windowSizeSec) observations ↔
      AllFit record (fun s o => s.series.Fits o) (new maxWindows windowSizeSec) observations :=
  afterEach_iff_of_legal (I := fun s : Observed => s.series.Sized) record_keeps_sized record_fits_iff
    ⟨most, mostLt, size, rfl, Nat.zero_le _⟩ (describes_new _ _) (ordered_allFit ordered fun _ _ _ seen => nomatch seen)

/-- At so many seconds, on a clock that shows the same. -/
def atSecond (seconds : Nat) (small : seconds < 2 ^ 32 := by decide) : Observation :=
  { stop := ⟨seconds, 0, small, Date.zero_microSeconds_lt⟩, now := ⟨seconds, 0, small, Date.zero_microSeconds_lt⟩ }

/-- Two windows of ten seconds, with a gap; the third takes the place of the first. -/
theorem timeSeries_describes_three :
    AfterEach record (fun s => s.series.Describes s.stops) (new 2 10) [atSecond 15, atSecond 19, atSecond 42, atSecond 51] :=
  (timeSeries_describes_iff (by decide) (by decide) (by decide) (by decide)).mpr (by decide)

/-- Second 20 is counted in the window from 10 to 20, which does not have it. -/
theorem boundary_stop_counted_early :
    (∃ s, serveAll record (new 2 10) [atSecond 15, atSecond 20] = some ([true, true], s) ∧
      s.series.list.map (fun c => (c.windowStart.seconds, c.windowStop.seconds, c.queries)) = [(10, 20, 2)]) ∧
    ¬ AfterEach record (fun s => s.series.Describes s.stops) (new 2 10) [atSecond 15, atSecond 20] := by
  refine ⟨⟨_, rfl, by decide⟩, fun described => ?_⟩
  have ordered : AllFit record (fun s o => ∀ u ∈ s.stops, u ≤ o.stop) (new 2 10) [atSecond 15, atSecond 20] :=
    ordered_allFit (by decide) fun _ _ _ seen => nomatch seen
  have fits := (afterEach_iff_of_legal (I := fun s : Observed => s.series.Sized) record_keeps_sized record_fits_iff
    ⟨by decide, by decide, by decide, rfl, Nat.zero_le _⟩ (describes_new _ _) ordered).1 described
  exact absurd fits (by decide)

end Observed

end Everscale
