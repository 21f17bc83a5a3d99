/-
# Everscale.Base.Reader -- parsing a buffer is parsing its unread octets

The parsers of the source read a `Buffer` through its positions and give octets
back by stepping the read position to where it was.  `Reader` is the type of such
a parser and `Theory.Parser` the type of one that reads a plain list.  A reader
`Mirrors` a list parser when, on every well-formed buffer, it returns the same
code and state, leaves unread what the list parser leaves, and touches neither the
storage nor the write position.

One reader in the source goes back to the read mark instead of a position it
remembered itself.  States of that kind are singled out by `needs`: they may only
be entered, and only be left waiting, with the read mark at the read position.

The loops and the one-element-then-the-rest pattern that all parsers here are made
of are defined for buffers beside their list versions, with one lemma each.
-/
import Everscale.Base.Buffer
import Everscale.Base.Error
import Everscale.Theory.Resumable

namespace Everscale

set_option autoImplicit false

open Theory

/-- A parser that reads a buffer. -/
abbrev Reader (σ : Type) := σ → Buffer → Outcome Error σ Buffer

/-- A parser that reads a list of octets. -/
abbrev StreamParser (σ : Type) := Parser Error σ Octet

variable {σ τ : Type}

/-- `b'` holds the octets of `b`; only the read position and the read mark differ. -/
structure SameOctets (b b' : Buffer) : Prop where
  storage : b'.storage = b.storage
  writePosition : b'.writePosition = b.writePosition

namespace SameOctets

theorem refl (b : Buffer) : SameOctets b b := ⟨rfl, rfl⟩

theorem trans {b b' b'' : Buffer} (h : SameOctets b b') (h' : SameOctets b' b'') :
    SameOctets b b'' :=
  ⟨h'.storage.trans h.storage, h'.writePosition.trans h.writePosition⟩

theorem skipNext (b : Buffer) : SameOctets b b.skipNext := by
  constructor <;> (simp only [Buffer.skipNext]; split <;> rfl)

theorem readMark (b : Buffer) : SameOctets b b.readMark := ⟨rfl, rfl⟩

theorem skip (b : Buffer) (n : Nat) : SameOctets b (b.skip n) := ⟨rfl, rfl⟩

theorem setReadPosition (b : Buffer) (position : Nat) :
    SameOctets b (b.setReadPosition position) := ⟨rfl, rfl⟩

theorem capacity {b b' : Buffer} (h : SameOctets b b') : b'.capacity = b.capacity := by
  simp [Buffer.capacity, h.storage]

end SameOctets

/-- An outcome on the buffer `b` and the outcome on its unread octets agree. -/
structure Reads (b : Buffer) (o : Outcome Error σ Buffer) (l : Outcome Error σ (List Octet)) :
    Prop where
  code : o.code = l.code
  state : o.state = l.state
  unread : o.input.unread = l.input
  wf : o.input.WF
  same : SameOctets b o.input

theorem Reads.leaving {b b' : Buffer} {e : Error} {s : σ} {u : List Octet} (unread : b'.unread = u)
    (wf : b'.WF) (same : SameOctets b b') : Reads b ⟨e, s, b'⟩ ⟨e, s, u⟩ :=
  ⟨rfl, rfl, unread, wf, same⟩

theorem Reads.of_same {b b' : Buffer} {o : Outcome Error σ Buffer}
    {l : Outcome Error σ (List Octet)} (same : SameOctets b b') (h : Reads b' o l) : Reads b o l :=
  { h with same := same.trans h.same }

theorem Reads.rest {b : Buffer} (wf : b.WF) (e : Error) (s : σ) :
    Reads b ⟨e, s, b⟩ ⟨e, s, b.unread⟩ := ⟨rfl, rfl, rfl, wf, SameOctets.refl b⟩

/-- The read mark is at the read position. -/
def Marked (b : Buffer) : Prop := b.readMarkPosition = b.readPosition

theorem Marked.readReset {b : Buffer} (mark : Marked b) : b.skipNext.readReset = b := by
  obtain ⟨storage, readMark, writeMark, read, write⟩ := b
  cases mark
  simp only [Buffer.skipNext, Buffer.readReset]
  split <;> rfl

/-- In states satisfying `here`, the reader does to the buffer what the list parser
does to its unread octets; states that need the mark keep it. -/
def Mirrors (needs here : σ → Prop) (f : Reader σ) (p : StreamParser σ) : Prop :=
  ∀ s b, here s → b.WF → (needs s → Marked b) →
    Reads b (f s b) (p s b.unread) ∧
      ((f s b).code = .again → needs (f s b).state → Marked (f s b).input)

/-- A reader none of whose states needs the mark. -/
abbrev MirrorsPlainly (here : σ → Prop) (f : Reader σ) (p : StreamParser σ) : Prop :=
  Mirrors (fun _ => False) here f p

/-! ## Skipping octets -/

namespace Buffer

/-- Looks at the next octet and skips it for as long as it satisfies `p`. -/
def skipWhile (p : Octet → Bool) : Nat → Buffer → Buffer
  | 0, b => b
  | fuel + 1, b =>
      if b.isReadable then
        if p b.peekNext then skipWhile p fuel b.skipNext else b
      else b

theorem skipWhile_spec (p : Octet → Bool) (fuel : Nat) {b : Buffer} (wf : b.WF)
    (enough : b.unread.length ≤ fuel) :
    (skipWhile p fuel b).unread = b.unread.dropWhile p ∧ (skipWhile p fuel b).WF ∧
      SameOctets b (skipWhile p fuel b) := by
  induction fuel generalizing b with
  | zero =>
      have empty : b.unread = [] := List.eq_nil_of_length_eq_zero (by omega)
      exact ⟨by simp [skipWhile, empty], wf, SameOctets.refl b⟩
  | succ fuel ih =>
      rw [skipWhile]
      cases unread : b.unread with
      | nil => simpa [not_isReadable_of_unread wf unread, unread] using ⟨wf, SameOctets.refl b⟩
      | cons c rest =>
          rw [if_pos (isReadable_of_unread wf unread), peekNext_of_unread wf unread,
            List.dropWhile_cons]
          split
          · have tail := skipNext_unread_cons wf unread
            have fits : b.skipNext.unread.length ≤ fuel := by
              rw [tail]; simpa [unread] using enough
            obtain ⟨left, wf', same⟩ := ih (skipNext_wf wf) fits
            exact ⟨by rw [left, tail], wf', (SameOctets.skipNext b).trans same⟩
          · exact ⟨unread, wf, SameOctets.refl b⟩

end Buffer

/-! ## Loops over octets -/

namespace Reader

/-- The loop over octets of `Theory.scan`, on a buffer: when nothing is readable it
asks for more, otherwise `guard` may refuse and else one octet is read and acted on. -/
def scan (guard : σ → Option Error) (act : σ → Octet → Act Error σ) (after : Reader σ) :
    Nat → Reader σ
  | 0, s, b => ⟨.again, s, b⟩
  | fuel + 1, s, b =>
      if b.isReadable then
        match guard s with
        | some e => ⟨e, s, b⟩
        | none =>
            match act s b.peekNext with
            | .keep s' => scan guard act after fuel s' b.skipNext
            | .stop e s' => ⟨e, s', b.skipNext⟩
            | .jump s' => after s' b.skipNext
            | .back s' =>
                after s' (b.skipNext.setReadPosition (b.skipNext.readPosition - 1))
      else ⟨.again, s, b⟩

/-- Every octet that is there may be looked at once. -/
def octetLoop (guard : σ → Option Error) (act : σ → Octet → Act Error σ) (after : Reader σ) :
    Reader σ := fun s b => scan guard act after b.readable s b

/-- Runs a reader on the part of the state that `get` reads and `set` writes back. -/
def on (get : τ → σ) (set : τ → σ → τ) (f : Reader σ) : Reader τ := fun t b =>
  let o := f (get t) b
  ⟨o.code, set t o.state, o.input⟩

/-- Runs `element`; on success marks the read position, moves the state on and runs
`rest`. -/
def stage (element : Reader σ) (advance : σ → σ) (rest : Reader σ) : Reader σ := fun s b =>
  let o := element s b
  if o.code = .success then rest (advance o.state) o.input.readMark else o

end Reader

section scan

variable {needs here there : σ → Prop} {guard : σ → Option Error} {act : σ → Octet → Act Error σ}
  {after : Reader σ} {afterOn : StreamParser σ}

theorem scan_mirrors (rules : ScanRules Error.again guard act here there)
    (plain : ∀ s, here s → ¬ needs s) (plainAfter : ∀ s, there s → ¬ needs s)
    (afterMirrors : Mirrors needs there after afterOn) (fuel : Nat) :
    ∀ s b, here s → b.WF → b.unread.length ≤ fuel →
      Reads b (Reader.scan guard act after fuel s b)
          (scan .again guard act afterOn s b.unread) ∧
        ((Reader.scan guard act after fuel s b).code = .again →
          needs (Reader.scan guard act after fuel s b).state →
          Marked (Reader.scan guard act after fuel s b).input) := by
  induction fuel with
  | zero =>
      intro s b h wf enough
      have empty : b.unread = [] := List.eq_nil_of_length_eq_zero (by omega)
      rw [empty]
      exact ⟨.leaving empty wf (SameOctets.refl b), fun _ need => absurd need (plain s h)⟩
  | succ fuel ih =>
      intro s b h wf enough
      cases unread : b.unread with
      | nil =>
          simp only [Reader.scan, Buffer.not_isReadable_of_unread wf unread, Bool.false_eq_true,
            if_false, scan]
          exact ⟨.leaving unread wf (SameOctets.refl b),
            fun _ need => absurd need (plain s h)⟩
      | cons c rest =>
          have readable := Buffer.isReadable_of_unread wf unread
          have tail := Buffer.skipNext_unread_cons wf unread
          have wf' := Buffer.skipNext_wf wf
          have same := SameOctets.skipNext b
          simp only [Reader.scan, readable, if_true, Buffer.peekNext_of_unread wf unread, scan]
          cases refused : guard s with
          | some e =>
              refine ⟨.leaving unread wf (SameOctets.refl b), fun wants => ?_⟩
              exact absurd (refused.trans (congrArg some wants)) (rules.guard_final s)
          | none =>
              simp only
              cases acted : act s c with
              | keep s' =>
                  have fits : b.skipNext.unread.length ≤ fuel := by
                    rw [tail]; simpa [unread] using enough
                  have step := ih s' b.skipNext (rules.keep_here s c s' h acted) wf' fits
                  rw [tail] at step
                  exact ⟨step.1.of_same same, step.2⟩
              | stop e s' =>
                  refine ⟨.leaving tail wf' same, fun wants => ?_⟩
                  have again : act s c = .stop .again s' := by rw [acted, ← wants]
                  exact absurd again (rules.stop_final s c s')
              | jump s' =>
                  have entered := rules.jump_there s c s' h acted
                  have step := afterMirrors s' b.skipNext entered wf'
                    (fun need => absurd need (plainAfter s' entered))
                  rw [tail] at step
                  exact ⟨step.1.of_same same, step.2⟩
              | back s' =>
                  have entered := rules.back_there s c s' h acted
                  have step := afterMirrors s' b entered wf
                    (fun need => absurd need (plainAfter s' entered))
                  rw [unread] at step
                  simpa only [Buffer.setReadPosition_skipNext wf readable] using step

theorem octetLoop_mirrors (rules : ScanRules Error.again guard act here there)
    (plain : ∀ s, here s → ¬ needs s) (plainAfter : ∀ s, there s → ¬ needs s)
    (afterMirrors : Mirrors needs there after afterOn) :
    Mirrors needs here (Reader.octetLoop guard act after) (scan .again guard act afterOn) :=
  fun s b h wf _ => scan_mirrors rules plain plainAfter afterMirrors b.readable s b h wf
    (by rw [Buffer.unread_length wf])

end scan

section stage

variable {needs here there : σ → Prop} {element rest : Reader σ}
  {elementOn restOn : StreamParser σ} {advance : σ → σ}

/-- One element and the rest, at one call. -/
theorem stage_reads {s : σ} {b : Buffer}
    (elementReads : Reads b (element s b) (elementOn s b.unread))
    (restReads : (elementOn s b.unread).code = .success → ∀ b' : Buffer, b'.WF → Marked b' →
      b'.unread = (elementOn s b.unread).input →
      Reads b' (rest (advance (elementOn s b.unread).state) b')
        (restOn (advance (elementOn s b.unread).state) b'.unread)) :
    Reads b (Reader.stage element advance rest s b)
      (stage .success elementOn advance restOn s b.unread) := by
  simp only [Reader.stage, stage, elementReads.code]
  by_cases ok : (elementOn s b.unread).code = .success
  · rw [if_pos ok, if_pos ok, elementReads.state, ← elementReads.unread]
    have next := restReads ok (element s b).input.readMark (Buffer.readMark_wf elementReads.wf) rfl
      elementReads.unread
    exact next.of_same (elementReads.same.trans (SameOctets.readMark _))
  · rw [if_neg ok, if_neg ok]
    exact elementReads

theorem stage_mirrors (elementMirrors : Mirrors needs here element elementOn)
    (moves : ∀ s u, here s → (elementOn s u).code = .success → there (advance (elementOn s u).state))
    (restMirrors : Mirrors needs there rest restOn) :
    Mirrors needs here (Reader.stage element advance rest)
      (stage .success elementOn advance restOn) := by
  intro s b h wf marked
  obtain ⟨reads, waits⟩ := elementMirrors s b h wf marked
  refine ⟨stage_reads reads fun ok b' wf' mark _ =>
    (restMirrors _ b' (moves s b.unread h ok) wf' fun _ => mark).1, ?_⟩
  simp only [Reader.stage, reads.code]
  by_cases ok : (elementOn s b.unread).code = .success
  · rw [if_pos ok, reads.state]
    exact (restMirrors _ _ (moves s b.unread h ok) (Buffer.readMark_wf reads.wf) fun _ => rfl).2
  · rw [if_neg ok]
    exact waits

/-- One element where it is its turn, then the rest. -/
theorem turn_mirrors {turn : σ → Prop} [DecidablePred turn]
    (elementMirrors : Mirrors needs turn element elementOn)
    (restMirrors : Mirrors needs (fun _ => True) rest restOn) :
    Mirrors needs (fun _ => True)
      (fun s b => if turn s then Reader.stage element advance rest s b else rest s b)
      (fun s u => if turn s then stage .success elementOn advance restOn s u else restOn s u) := by
  intro s b _ wf marked
  by_cases h : turn s
  · simp only [h, if_true]
    exact stage_mirrors elementMirrors (fun _ _ _ _ => trivial) restMirrors s b h wf marked
  · simp only [h, if_false]
    exact restMirrors s b trivial wf marked

end stage

/-- A reader on a part of the state mirrors the list parser on that part. -/
theorem on_mirrors {needs here : σ → Prop} {needs' here' : τ → Prop} {f : Reader σ}
    {p : StreamParser σ} {get : τ → σ} {set : τ → σ → τ} (mirrors : Mirrors needs here f p)
    (enters : ∀ t, here' t → here (get t)) (needsIn : ∀ t, here' t → needs (get t) → needs' t)
    (needsOut : ∀ t s, here' t → needs' (set t s) → needs s) :
    Mirrors needs' here' (f.on get set) (p.on get set) := by
  intro t b h wf marked
  obtain ⟨reads, waits⟩ := mirrors (get t) b (enters t h) wf (fun need => marked (needsIn t h need))
  refine ⟨⟨reads.code, ?_, reads.unread, reads.wf, reads.same⟩, fun again need => ?_⟩
  · simp only [Reader.on, Parser.on, reads.state]
  · exact waits again (needsOut t _ h need)

/-- Marking the read position before a reader changes nothing for it. -/
theorem Mirrors.afterMark {needs here : σ → Prop} {f : Reader σ} {p : StreamParser σ}
    (mirrors : Mirrors needs here f p) : Mirrors needs here (fun s b => f s b.readMark) p := by
  intro s b h wf _
  obtain ⟨reads, waits⟩ := mirrors s b.readMark h (Buffer.readMark_wf wf) (fun _ => rfl)
  exact ⟨reads.of_same (SameOctets.readMark b), waits⟩

end Everscale
