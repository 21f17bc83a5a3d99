/-
# Everscale.Base.Writer -- writing an element to a buffer or nothing of it

The formatters of the source write one element at a time.  Before each octet they
ask whether there is room, and when there is none, or the element turns out to be
malformed, they put the write position back to the write mark (`Rollback`).
`Writer` is the type of such a step.

`Writes f text` is what an element owes its caller: it writes `text` when that fits,
and otherwise rolls back to the mark and asks for more room.  Whether that undoes
the element and nothing else depends on where the mark is; `Holds` keeps it beside
the octets that are in the buffer.
-/
import Everscale.Base.Reader

namespace Everscale

set_option autoImplicit false

/-- A step that writes to a buffer. -/
abbrev Writer := Buffer → Error × Buffer

namespace Writer

/-- `HttpUtil::Rollback`. -/
def Rollback (e : Error) : Writer := fun b => (e, b.writeReset)

/-- `putNext` for each octet in turn. -/
def putAll (b : Buffer) (text : List Octet) : Buffer := text.foldl Buffer.putNext b

theorem putAll_writable {b : Buffer} {text : List Octet} (room : text.length ≤ b.writable) :
    (putAll b text).writable + text.length = b.writable := by
  induction text generalizing b with
  | nil => rfl
  | cons c rest ih =>
      rw [List.length_cons] at room ⊢
      have step := Buffer.putNext_writable (by omega : 0 < b.writable) c
      have tail : (putAll (b.putNext c) rest).writable + rest.length = (b.putNext c).writable :=
        ih (by omega)
      change (putAll (b.putNext c) rest).writable + (rest.length + 1) = b.writable
      omega

/-- Rolls back unless there is room for `n` octets. -/
def room (n : Nat) : Writer := fun b => if b.writable < n then Rollback .again b else (.success, b)

/-- A few octets that are written together, once there is room for all of them. -/
def literal (text : List Octet) : Writer := fun b =>
  if b.writable < text.length then Rollback .again b else (.success, putAll b text)

/-- One step and, if it succeeds, another. -/
def andThen (f g : Writer) : Writer := fun b =>
  match f b with
  | (.success, b) => g b
  | (e, b) => (e, b)

/-- Rolls back when a step fails that does not do so itself. -/
def orRollback (f : Writer) : Writer := fun b =>
  match f b with
  | (.success, b) => (.success, b)
  | (e, b) => Rollback e b

/-- The loop over the octets of a string.  There has to be room for one octet before
`emit` is asked what to write for the next, and then for all that it writes. -/
def each {τ : Type} (emit : τ → Octet → Except Error (List Octet × τ)) : τ → List Octet → Writer
  | _, [], b => (.success, b)
  | t, c :: rest, b =>
      if !b.isWritable then Rollback .again b
      else
        match emit t c with
        | .error e => Rollback e b
        | .ok (text, t) =>
            if b.writable < text.length then Rollback .again b
            else each emit t rest (putAll b text)

end Writer

/-! ## What a buffer holds -/

/-- Nothing of the buffer has been read, it holds the octets `held`, and its write mark is
at `mark`. -/
structure Holds (b : Buffer) (held : List Octet) (mark : Nat) : Prop where
  wf : b.WF
  start : b.readPosition = 0
  written : b.written = held
  mark_eq : b.writeMarkPosition = mark
  mark_le : mark ≤ held.length

namespace Holds

variable {b : Buffer} {held : List Octet} {mark : Nat}

theorem duplicate (h : Holds b held mark) : b.duplicate = held.rdropWhile Buffer.isTrimmed := by
  rw [Buffer.duplicate, h.written]

theorem writePosition (h : Holds b held mark) : b.writePosition = held.length := by
  rw [← h.written, Buffer.written_length h.wf]

theorem fits (h : Holds b held mark) : held.length ≤ b.capacity := by
  rw [← h.writePosition]; exact h.wf.write_le

theorem unread (h : Holds b held mark) : b.unread = held := by
  rw [Buffer.unread, h.start, h.written, List.drop_zero]

theorem writable (h : Holds b held mark) : b.writable = b.capacity - held.length := by
  rw [Buffer.writable, h.writePosition]

theorem isWritable (h : Holds b held mark) : b.isWritable = true ↔ held.length < b.capacity := by
  rw [Buffer.isWritable_iff_lt, h.writePosition]; exact Iff.rfl

theorem create {capacity : Nat} (small : capacity < 2 ^ 32) :
    Holds (Buffer.create capacity) [] 0 :=
  ⟨Buffer.create_wf small, rfl, Buffer.create_written capacity, rfl, Nat.le_refl _⟩

theorem clear (wf : b.WF) : Holds b.clear [] 0 :=
  ⟨Buffer.clear_wf wf, rfl, Buffer.clear_written b, rfl, Nat.le_refl _⟩

theorem putNext (h : Holds b held mark) (room : held.length < b.capacity) (c : Octet) :
    Holds (b.putNext c) (held ++ [c]) mark ∧ (b.putNext c).capacity = b.capacity := by
  have writable := h.isWritable.2 room
  refine ⟨⟨Buffer.putNext_wf h.wf c, ?_, ?_, ?_, ?_⟩, Buffer.putNext_capacity b c⟩
  · simp only [Buffer.putNext, writable, if_true]; exact h.start
  · rw [Buffer.putNext_written h.wf writable, h.written]
  · simp only [Buffer.putNext, writable, if_true]; exact h.mark_eq
  · have := h.mark_le; simp; omega

theorem putAll (h : Holds b held mark) (text : List Octet)
    (room : held.length + text.length ≤ b.capacity) :
    Holds (Writer.putAll b text) (held ++ text) mark ∧
      (Writer.putAll b text).capacity = b.capacity := by
  induction text generalizing b held with
  | nil => simpa [Writer.putAll] using h
  | cons c rest ih =>
      simp only [List.length_cons] at room
      obtain ⟨put, capacity⟩ := h.putNext (by omega) c
      have more : (held ++ [c]).length + rest.length ≤ (b.putNext c).capacity := by
        rw [capacity]; simp; omega
      obtain ⟨all, capacity'⟩ := ih put more
      rw [List.append_assoc, List.singleton_append] at all
      exact ⟨all, capacity'.trans capacity⟩

theorem fill (h : Holds b held mark) (octets : List Octet)
    (room : held.length + octets.length ≤ b.capacity) :
    Holds (b.fill octets) (held ++ octets) mark ∧ (b.fill octets).capacity = b.capacity := by
  have fits : octets.length ≤ b.writable := by rw [h.writable]; omega
  refine ⟨⟨Buffer.fill_wf h.wf fits, h.start, ?_, h.mark_eq, ?_⟩, Buffer.fill_capacity h.wf fits⟩
  · rw [Buffer.fill_written h.wf, h.written]
  · have := h.mark_le
    rw [List.length_append]
    omega

theorem writeMark (h : Holds b held mark) : Holds b.writeMark held held.length :=
  ⟨⟨h.wf.read_le, h.wf.write_le, h.wf.limit⟩, h.start, h.written, h.writePosition, Nat.le_refl _⟩

/-- Going back to the mark keeps what was before it. -/
theorem writeReset (h : Holds b held mark) : Holds b.writeReset (held.take mark) mark := by
  have inside : b.writeMarkPosition ≤ b.writePosition := by
    rw [h.mark_eq, h.writePosition]; exact h.mark_le
  refine ⟨⟨?_, Nat.le_trans inside h.wf.write_le, h.wf.limit⟩, h.start, ?_, h.mark_eq, ?_⟩
  · simp only [Buffer.writeReset, h.start]; exact Nat.zero_le _
  · rw [← h.written, ← h.mark_eq]
    simp only [Buffer.written, Buffer.writeReset, List.take_take, Nat.min_eq_left inside]
  · have := h.mark_le; simp; omega

/-- What has been sent is gone, and the mark is at the start again. -/
theorem send (h : Holds b held mark) {size : Nat} (some : 0 < size) (within : size ≤ held.length) :
    Holds (b.send size) (held.drop size) 0 ∧ (b.send size).capacity = b.capacity := by
  have fits := h.fits
  have start := h.start
  have wf : (b.setReadPosition (b.readPosition + size)).WF := by
    have := h.wf.write_le
    refine ⟨?_, h.wf.write_le, h.wf.limit⟩
    simp only [Buffer.setReadPosition, start, Nat.zero_add]
    rw [if_neg (by omega), h.writePosition]
    exact within
  have moved : (b.setReadPosition (b.readPosition + size)).readPosition = size := by
    simp only [Buffer.setReadPosition, start, Nat.zero_add]
    rw [if_neg (by omega)]
  have compacts : (b.setReadPosition (b.readPosition + size)).compact.1 = true := by
    have := Buffer.compact_eq_false_iff (b.setReadPosition (b.readPosition + size))
    rw [moved] at this
    simpa using this.not.2 (by omega)
  have unread : (b.setReadPosition (b.readPosition + size)).unread = held.drop size := by
    rw [Buffer.unread, moved, show (b.setReadPosition _).written = b.written from rfl, h.written]
  have positions : (b.send size).readPosition = 0 ∧ (b.send size).writeMarkPosition = 0 := by
    have nonzero : ¬ (b.setReadPosition (b.readPosition + size)).readPosition = 0 := by omega
    simp only [Buffer.send, Nat.ne_of_gt some, if_false, Buffer.compact, nonzero, and_self]
  have sends : b.send size = (b.setReadPosition (b.readPosition + size)).compact.2 := by
    rw [Buffer.send, if_neg (Nat.ne_of_gt some)]
  refine ⟨⟨?_, positions.1, ?_, positions.2, Nat.zero_le _⟩, ?_⟩
  · rw [sends]; exact Buffer.compact_wf wf
  · rw [sends, Buffer.compact_written wf compacts, unread]
  · rw [sends, Buffer.compact_capacity wf]; rfl

end Holds

/-! ## What a writer writes -/

/-- The writer has succeeded and added `text`. -/
def Wrote (b : Buffer) (held : List Octet) (mark : Nat) (text : List Octet) (o : Error × Buffer) :
    Prop :=
  o.1 = .success ∧ Holds o.2 (held ++ text) mark ∧ o.2.capacity = b.capacity

/-- The writer has asked for room, with everything behind the mark undone. -/
def RolledBack (b : Buffer) (held : List Octet) (mark : Nat) (o : Error × Buffer) : Prop :=
  o.1 = .again ∧ Holds o.2 (held.take mark) mark ∧ o.2.capacity = b.capacity

/-- The writer writes `text` if it fits and rolls back otherwise. -/
def Writes (f : Writer) (text : List Octet) : Prop :=
  ∀ b held mark, Holds b held mark →
    (held.length + text.length ≤ b.capacity → Wrote b held mark text (f b)) ∧
      (b.capacity < held.length + text.length → RolledBack b held mark (f b))

/-- What a writer does with a string that may be malformed: it writes it, or never
succeeds. -/
def Renders (f : Writer) : Except Error (List Octet) → Prop
  | .ok text => Writes f text
  | .error _ => ∀ b, (f b).1 ≠ .success

theorem rolledBack_of {b : Buffer} {held : List Octet} {mark : Nat} (h : Holds b held mark) :
    RolledBack b held mark (Writer.Rollback .again b) := ⟨rfl, h.writeReset, rfl⟩

/-- What is rolled back after part of the text is what was there before it. -/
theorem RolledBack.before {b b' : Buffer} {held text : List Octet} {mark : Nat} {o : Error × Buffer}
    (le : mark ≤ held.length) (capacity : b'.capacity = b.capacity)
    (h : RolledBack b' (held ++ text) mark o) : RolledBack b held mark o := by
  obtain ⟨code, holds, same⟩ := h
  rw [List.take_append_of_le_length le] at holds
  exact ⟨code, holds, same.trans capacity⟩

namespace Writer

theorem writes_literal (text : List Octet) : Writes (literal text) text := by
  intro b held mark h
  have writable := h.writable
  refine ⟨fun room => ?_, fun full => ?_⟩
  · have enough : ¬ b.writable < text.length := by rw [writable]; omega
    obtain ⟨holds, capacity⟩ := h.putAll text room
    rw [literal, if_neg enough]
    exact ⟨rfl, holds, capacity⟩
  · have short : b.writable < text.length := by
      have := h.fits
      rw [writable]; omega
    rw [literal, if_pos short]
    exact rolledBack_of h

theorem andThen_of_success {f g : Writer} {b : Buffer} (ok : (f b).1 = .success) :
    f.andThen g b = g (f b).2 := by
  have : f b = (.success, (f b).2) := Prod.ext ok rfl
  rw [andThen, this]

theorem andThen_of_failure {f g : Writer} {b : Buffer} (failed : (f b).1 ≠ .success) :
    f.andThen g b = f b := by
  rw [andThen]
  split
  · rename_i b' result; rw [result] at failed; exact absurd rfl failed
  · rename_i result; exact result.symm

theorem writes_andThen {f g : Writer} {s t : List Octet} (hf : Writes f s) (hg : Writes g t) :
    Writes (f.andThen g) (s ++ t) := by
  intro b held mark h
  obtain ⟨first, firstFull⟩ := hf b held mark h
  simp only [List.length_append]
  refine ⟨fun room => ?_, fun full => ?_⟩
  · obtain ⟨code, holds, capacity⟩ := first (by omega)
    rw [andThen_of_success code]
    obtain ⟨second, -⟩ := hg _ _ _ holds
    obtain ⟨code', holds', capacity'⟩ := second (by rw [capacity, List.length_append]; omega)
    rw [List.append_assoc] at holds'
    exact ⟨code', holds', capacity'.trans capacity⟩
  · by_cases partly : held.length + s.length ≤ b.capacity
    · obtain ⟨code, holds, capacity⟩ := first partly
      rw [andThen_of_success code]
      obtain ⟨-, second⟩ := hg _ _ _ holds
      exact (second (by rw [capacity, List.length_append]; omega)).before h.mark_le capacity
    · have rolled := firstFull (by omega)
      rw [andThen_of_failure (by rw [rolled.1]; decide)]
      exact rolled

theorem fails_andThen_left {f g : Writer} (hf : ∀ b, (f b).1 ≠ .success) (b : Buffer) :
    (f.andThen g b).1 ≠ .success := by
  rw [andThen_of_failure (hf b)]; exact hf b

theorem fails_andThen_right {f g : Writer} (hg : ∀ b, (g b).1 ≠ .success) (b : Buffer) :
    (f.andThen g b).1 ≠ .success := by
  by_cases ok : (f b).1 = .success
  · rw [andThen_of_success ok]; exact hg _
  · rw [andThen_of_failure ok]; exact ok

/-! ### Loops -/

section each

variable {τ : Type} {emit : τ → Octet → Except Error (List Octet × τ)}

/-- What a loop writes. -/
def renderEach (emit : τ → Octet → Except Error (List Octet × τ)) : τ → List Octet →
    Except Error (List Octet)
  | _, [] => .ok []
  | t, c :: rest =>
      match emit t c with
      | .error e => .error e
      | .ok (text, t) =>
          match renderEach emit t rest with
          | .error e => .error e
          | .ok later => .ok (text ++ later)

theorem fails_each {t : τ} {s : List Octet} {e : Error} (h : renderEach emit t s = .error e)
    (b : Buffer) (final : ∀ t c, emit t c ≠ .error .success) : (each emit t s b).1 ≠ .success := by
  induction s generalizing t b e with
  | nil => cases h
  | cons c rest ih =>
      rw [each]
      split
      · simp [Rollback]
      · rw [renderEach] at h
        cases emitted : emit t c with
        | error e' =>
            simp only [Rollback]
            intro ok; exact final t c (by rw [emitted, ok])
        | ok out =>
            obtain ⟨text, t'⟩ := out
            simp only [emitted] at h ⊢
            split
            · simp [Rollback]
            · cases later : renderEach emit t' rest with
              | error e'' => exact ih later _
              | ok text' => rw [later] at h; cases h

/-- A loop writes its text when one more octet would fit behind it, and rolls back when
the text does not fit; in between the two it does one or the other. -/
theorem each_spec {t : τ} {s : List Octet} {text : List Octet}
    (h : renderEach emit t s = .ok text) :
    ∀ b held mark, Holds b held mark →
      (held.length + text.length < b.capacity → Wrote b held mark text (each emit t s b)) ∧
        (b.capacity < held.length + text.length → RolledBack b held mark (each emit t s b)) ∧
        (Wrote b held mark text (each emit t s b) ∨ RolledBack b held mark (each emit t s b)) := by
  induction s generalizing t text with
  | nil =>
      intro b held mark holds
      cases h
      have wrote : Wrote b held mark [] (each emit t [] b) :=
        ⟨rfl, by simpa [each] using holds, rfl⟩
      exact ⟨fun _ => wrote, fun full => absurd holds.fits (by simpa using full), .inl wrote⟩
  | cons c rest ih =>
      intro b held mark holds
      rw [renderEach] at h
      have writable := holds.writable
      have within := holds.fits
      cases emitted : emit t c with
      | error e => rw [emitted] at h; cases h
      | ok out =>
          obtain ⟨first, t'⟩ := out
          simp only [emitted] at h
          cases later : renderEach emit t' rest with
          | error e => rw [later] at h; cases h
          | ok text' =>
              rw [later] at h
              cases h
              simp only [List.length_append]
              by_cases room : b.isWritable = true
              · by_cases short : b.writable < first.length
                · have runs : each emit t (c :: rest) b = Rollback .again b := by
                    simp only [each, room, Bool.not_true, Bool.false_eq_true, if_false, emitted,
                      short, if_true]
                  rw [runs]
                  have rolled := rolledBack_of holds
                  exact ⟨fun fits => by omega, fun _ => rolled, .inr rolled⟩
                · have runs : each emit t (c :: rest) b = each emit t' rest (putAll b first) := by
                    simp only [each, room, Bool.not_true, Bool.false_eq_true, if_false, emitted,
                      short]
                  obtain ⟨holds', capacity⟩ := holds.putAll first (by omega)
                  obtain ⟨wrote, rolled, either⟩ := ih later _ _ _ holds'
                  rw [runs]
                  have onward : Wrote (putAll b first) (held ++ first) mark text'
                      (each emit t' rest (putAll b first)) →
                      Wrote b held mark (first ++ text') (each emit t' rest (putAll b first)) :=
                    fun ⟨code, holds'', capacity'⟩ =>
                      ⟨code, by rwa [List.append_assoc] at holds'', capacity'.trans capacity⟩
                  refine ⟨fun fits => onward (wrote ?_), fun full => (rolled ?_).before
                    holds.mark_le capacity, either.imp onward fun back =>
                      back.before holds.mark_le capacity⟩
                  · rw [capacity, List.length_append]; omega
                  · rw [capacity, List.length_append]; omega
              · have runs : each emit t (c :: rest) b = Rollback .again b := by
                  simp only [each, room, Bool.not_false, if_true]
                rw [runs]
                have full : ¬ held.length < b.capacity := fun lt => room (holds.isWritable.2 lt)
                have rolled := rolledBack_of holds
                exact ⟨fun fits => by omega, fun _ => rolled, .inr rolled⟩

theorem each_fits {t : τ} {s : List Octet} {text : List Octet}
    (emits : ∀ t c text t', emit t c = .ok (text, t') → text ≠ [])
    (h : renderEach emit t s = .ok text) :
    ∀ b held mark, Holds b held mark → held.length + text.length ≤ b.capacity →
      Wrote b held mark text (each emit t s b) := by
  induction s generalizing t text with
  | nil =>
      intro b held mark holds _
      cases h
      exact ⟨rfl, by simpa [each] using holds, rfl⟩
  | cons c rest ih =>
      intro b held mark holds room
      rw [renderEach] at h
      cases emitted : emit t c with
      | error e => rw [emitted] at h; cases h
      | ok out =>
          obtain ⟨first, t'⟩ := out
          simp only [emitted] at h
          cases later : renderEach emit t' rest with
          | error e => rw [later] at h; cases h
          | ok text' =>
              rw [later] at h
              cases h
              simp only [List.length_append] at room
              have some : 0 < first.length := List.length_pos_iff.2 (emits t c first t' emitted)
              have writable := holds.writable
              have here : b.isWritable = true := holds.isWritable.2 (by omega)
              have enough : ¬ b.writable < first.length := by omega
              have runs : each emit t (c :: rest) b = each emit t' rest (putAll b first) := by
                simp only [each, here, Bool.not_true, Bool.false_eq_true, if_false, emitted, enough]
              obtain ⟨holds', capacity⟩ := holds.putAll first (by omega)
              obtain ⟨code, holds'', capacity'⟩ := ih later _ _ _ holds'
                (by rw [capacity, List.length_append]; omega)
              rw [List.append_assoc] at holds''
              rw [runs]
              exact ⟨code, holds'', capacity'.trans capacity⟩

/-- A loop that writes something for every octet. -/
theorem renders_each (emits : ∀ t c text t', emit t c = .ok (text, t') → text ≠ [])
    (final : ∀ t c, emit t c ≠ .error .success) (t : τ) (s : List Octet) :
    Renders (each emit t s) (renderEach emit t s) := by
  cases h : renderEach emit t s with
  | ok text =>
      exact fun b held mark holds => ⟨each_fits emits h b held mark holds,
        (each_spec h b held mark holds).2.1⟩
  | error e => exact fun b => fails_each h b final

/-- A loop with something behind it. -/
theorem writes_each_literal {t : τ} {s : List Octet} {text : List Octet}
    (h : renderEach emit t s = .ok text) {last : List Octet} (some : last ≠ []) :
    Writes ((each emit t s).andThen (literal last)) (text ++ last) := by
  intro b held mark holds
  obtain ⟨wrote, rolled, either⟩ := each_spec h b held mark holds
  have positive : 0 < last.length := List.length_pos_iff.2 some
  simp only [List.length_append]
  have goesOn : Wrote b held mark text (each emit t s b) →
      (held.length + (text.length + last.length) ≤ b.capacity →
        Wrote b held mark (text ++ last) ((each emit t s).andThen (literal last) b)) ∧
      (b.capacity < held.length + (text.length + last.length) →
        RolledBack b held mark ((each emit t s).andThen (literal last) b)) := by
    intro ⟨code, holds', capacity⟩
    rw [andThen_of_success code]
    obtain ⟨second, full⟩ := writes_literal last _ _ _ holds'
    refine ⟨fun room => ?_, fun short => ?_⟩
    · obtain ⟨code', holds'', capacity'⟩ :=
        second (by rw [capacity, List.length_append]; omega)
      rw [List.append_assoc] at holds''
      exact ⟨code', holds'', capacity'.trans capacity⟩
    · exact (full (by rw [capacity, List.length_append]; omega)).before holds.mark_le capacity
  refine ⟨fun room => (goesOn (wrote (by omega))).1 room, fun short => ?_⟩
  rcases either with wrote | back
  · exact (goesOn wrote).2 short
  · rw [andThen_of_failure (by rw [back.1]; decide)]
    exact back

end each

end Writer

end Everscale
