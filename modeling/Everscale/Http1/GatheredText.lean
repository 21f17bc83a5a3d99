/-
# Everscale.Http1.GatheredText -- the strings of the headers of an accepted head

A string of a head is gathered octet by octet in the working buffer, and each element lets in
octets of its own kind only.  Field names are tokens.  In a field value white space is held back
until it is known to go on, so that single spaces stand between the words of a value and none
around them (`Stored`).  What is known of a first line is the business of its own parser
(`KnowsLine`); `accepted_text` puts both together, however the head was cut.
-/
import Everscale.Http1.Framing

namespace Everscale

set_option autoImplicit false

open Theory HttpUtil

/-! ## Text with single spaces -/

section spaced

variable {isContent : Octet → Bool}

/-- Content whose white space is single spaces; `space` says that one stands in front. -/
def spaced (isContent : Octet → Bool) : Bool → List Octet → Bool
  | _, [] => true
  | space, c :: rest =>
      if isLWS c then c = SP && !space && spaced isContent true rest
      else isContent c && spaced isContent false rest

/-- White space stands at the end. -/
def endsSpaced (text : List Octet) : Bool := text.getLast?.any isLWS

theorem spaced_append (space : Bool) (text : List Octet) (c : Octet) :
    spaced isContent space (text ++ [c]) =
      (spaced isContent space text &&
        if isLWS c then c = SP && !(if text = [] then space else endsSpaced text) else isContent c) := by
  induction text generalizing space with
  | nil => simp [spaced]
  | cons d rest ih =>
      have ends : (if rest = [] then isLWS d else endsSpaced rest) = endsSpaced (d :: rest) := by
        cases rest with
        | nil => simp [endsSpaced]
        | cons e more => simp [endsSpaced, List.getLast?_cons_cons]
      rw [List.cons_append, spaced, spaced, if_neg (List.cons_ne_nil d rest), ← ends]
      by_cases white : isLWS d = true
      · simp only [white, if_true, ih, Bool.and_assoc]
      · simp only [Bool.eq_false_iff.mpr white, Bool.false_eq_true, if_false, ih, Bool.and_assoc]

theorem spaced_front {space : Bool} {front text : List Octet} (h : front <+: text)
    (whole : spaced isContent space text = true) : spaced isContent space front = true := by
  obtain ⟨behind, rfl⟩ := h
  induction front generalizing space with
  | nil => rfl
  | cons c rest ih =>
      rw [List.cons_append, spaced] at whole
      rw [spaced]
      split_ifs at whole ⊢
      · rw [Bool.and_eq_true] at whole ⊢
        exact ⟨whole.1, ih whole.2⟩
      · rw [Bool.and_eq_true] at whole ⊢
        exact ⟨whole.1, ih whole.2⟩

/-- A string as the working buffer gives it: no white space around it, and single spaces inside. -/
structure Stored (isContent : Octet → Bool) (text : List Octet) : Prop where
  spaced : spaced isContent true text = true
  trimmed : text.rdropWhile Buffer.isTrimmed = text

end spaced

/-! ## Loops over octets -/

namespace Reader

variable {σ : Type} {P R : σ → Prop} {Q : Error → σ → Prop}

/-- What an octet leads to: the loop goes on in `P`, returns in `Q` or goes over in `R`. -/
def ActLeads (P : σ → Prop) (Q : Error → σ → Prop) (R : σ → Prop) : Act Error σ → Prop
  | .keep s => P s
  | .stop e s => Q e s
  | .jump s | .back s => R s

/-- A call that asks for more leaves `A`, and one that succeeds `S`. -/
structure Leaves (A S : σ → Prop) (e : Error) (s : σ) : Prop where
  again : e = .again → A s
  success : e = .success → S s

theorem Leaves.failed {A S : σ → Prop} {e : Error} {s : σ} (again : e ≠ .again) (success : e ≠ .success) :
    Leaves A S e s := ⟨fun code => absurd code again, fun code => absurd code success⟩

theorem Leaves.waits {A S : σ → Prop} {s : σ} (h : A s) : Leaves A S .again s := ⟨fun _ => h, nofun⟩

theorem Leaves.done {A S : σ → Prop} {s : σ} (h : S s) : Leaves A S .success s := ⟨nofun, fun _ => h⟩

/-- One element and the rest. -/
theorem stage_leaves {A S E : σ → Prop} {element rest : Reader σ} {advance : σ → σ} {s : σ} {b : Buffer}
    (read : Leaves A E (element s b).code (element s b).state)
    (moves : ∀ s b, E s → Leaves A S (rest (advance s) b).code (rest (advance s) b).state) :
    Leaves A S (stage element advance rest s b).code (stage element advance rest s b).state := by
  rw [stage]
  by_cases done : (element s b).code = .success
  · rw [if_pos done]
    exact moves _ _ (read.success done)
  · rw [if_neg done]
    exact ⟨read.again, fun code => absurd code done⟩

/-- Whatever is read, a reader entered in `P` returns in `Q`. -/
def Leads (P : σ → Prop) (f : Reader σ) (Q : Error → σ → Prop) : Prop :=
  ∀ s b, P s → Q (f s b).code (f s b).state

theorem octetLoop_leads {guard : σ → Option Error} {act : σ → Octet → Act Error σ} {after : Reader σ}
    (acts : ∀ s c, P s → ActLeads P Q R (act s c)) (waits : ∀ s, P s → Q .again s)
    (refuses : ∀ s e, P s → guard s = some e → Q e s) (afterLeads : Leads R after Q) :
    Leads P (octetLoop guard act after) Q := by
  have loop : ∀ fuel s b, P s → Q (scan guard act after fuel s b).code (scan guard act after fuel s b).state := by
    intro fuel
    induction fuel with
    | zero => exact fun s b h => waits s h
    | succ fuel ih =>
        intro s b h
        rw [scan]
        split_ifs with readable
        · cases guarded : guard s with
          | some e => exact refuses s e h guarded
          | none =>
              have led := acts s b.peekNext h
              dsimp only
              cases acted : act s b.peekNext with
              | keep s' => exact ih s' _ (by rwa [acted] at led)
              | stop e s' => rwa [acted] at led
              | jump s' => exact afterLeads s' _ (by rwa [acted] at led)
              | back s' => exact afterLeads s' _ (by rwa [acted] at led)
        · exact waits s h
  exact fun s b h => loop b.readable s b h

end Reader

namespace Buffer

/-- An octet that belongs is put behind octets that do. -/
theorem putNext_all {b : Buffer} {p : Octet → Bool} (wf : b.WF) (all : b.written.all p = true) {c : Octet}
    (inside : p c = true) : (b.putNext c).written.all p = true := by
  by_cases room : b.isWritable = true
  · rw [putNext_written wf room, List.all_append, all]
    simp [inside]
  · rwa [putNext, if_neg room]

theorem duplicate_all {b : Buffer} {p : Octet → Bool} (all : b.written.all p = true) :
    b.duplicate.all p = true :=
  List.all_eq_true.mpr fun c inside =>
    List.all_eq_true.mp all c ((List.rdropWhile_prefix Buffer.isTrimmed b.written).subset inside)

end Buffer

/-! ## Folded text -/

namespace HttpUtil

variable {b b' : Buffer}

/-- Stepping back to the octet that was just read. -/
theorem skipNext_back (readable : b.isReadable = true) :
    b.skipNext.setReadPosition (b.skipNext.readPosition - 1) =
      { b with readPosition := min b.readPosition b.capacity } := by
  simp only [Buffer.skipNext, readable, if_true, Buffer.setReadPosition, Nat.add_sub_cancel, Buffer.capacity]
  congr 1
  split_ifs <;> omega

theorem getD_beyond {position : Nat} (beyond : b.capacity ≤ position) : b.storage.getD position 0 = 0 := by
  rw [List.getD_eq_getElem?_getD, List.getElem?_eq_none beyond, Option.getD_none]

theorem peekNext_clamped (readable : b.isReadable = true) :
    ({ b with readPosition := min b.readPosition b.capacity } : Buffer).isReadable = true ∧
      ({ b with readPosition := min b.readPosition b.capacity } : Buffer).peekNext = b.peekNext := by
  have before := (Buffer.isReadable_iff_lt b).mp readable
  have still : ({ b with readPosition := min b.readPosition b.capacity } : Buffer).isReadable = true :=
    (Buffer.isReadable_iff_lt _).mpr (by dsimp only; omega)
  refine ⟨still, ?_⟩
  rw [Buffer.peekNext, Buffer.peekNext, if_pos still, if_pos readable]
  dsimp only
  by_cases inside : b.readPosition ≤ b.capacity
  · rw [Nat.min_eq_left inside]
  · rw [Nat.min_eq_right (by omega), getD_beyond (Nat.le_refl _), getD_beyond (by omega)]

/-- White space is skipped up to an octet that is none. -/
theorem skipLWSFrom_inProgress (mark fuel : Nat) (found : Bool) (b : Buffer)
    (skipped : skipLWSFrom mark fuel found b = (.inProgress, b')) :
    b'.isReadable = true ∧ isLWS b'.peekNext = false ∧ b'.writePosition = b.writePosition ∧
      min b.readPosition b.capacity ≤ b'.readPosition := by
  induction fuel generalizing found b with
  | zero => cases skipped
  | succ fuel ih =>
      have onwards : ∀ found', b.isReadable = true →
          skipLWSFrom mark fuel found' b.skipNext = (.inProgress, b') →
          b'.isReadable = true ∧ isLWS b'.peekNext = false ∧ b'.writePosition = b.writePosition ∧
            min b.readPosition b.capacity ≤ b'.readPosition := by
        intro found' readable later
        obtain ⟨more, visible, write, read⟩ := ih found' b.skipNext later
        have next : b.skipNext.readPosition = b.readPosition + 1 := by simp [Buffer.skipNext, readable]
        rw [(SameOctets.skipNext b).writePosition] at write
        rw [next, Buffer.skipNext_capacity] at read
        exact ⟨more, visible, write, by omega⟩
      rw [skipLWSFrom] at skipped
      dsimp only at skipped
      split_ifs at skipped with readable cr found' lf found' space found'
      · cases skipped
      · exact onwards _ readable skipped
      · cases skipped
      · exact onwards _ readable skipped
      · exact onwards _ readable skipped
      · cases skipped
      · rw [skipNext_back readable] at skipped
        obtain rfl := (Prod.mk.inj skipped).2
        obtain ⟨still, same⟩ := peekNext_clamped readable
        refine ⟨still, ?_, rfl, Nat.le_refl _⟩
        rw [same]
        rw [not_or] at space
        simp only [isLWS, cr, lf, space, decide_false, Bool.or_false]
      · cases skipped

/-- An octet other than NUL is inside the storage. -/
theorem lt_capacity (white : isLWS b.peekNext = true) : b.readPosition < b.capacity := by
  by_contra beyond
  rw [Buffer.peekNext, getD_beyond (by omega), ite_self] at white
  exact absurd white (by decide)

theorem skipNext_unread_back (readable : b.isReadable = true) (white : isLWS b.peekNext = true) :
    b.skipNext.setReadPosition (b.skipNext.readPosition - 1) = b := by
  rw [skipNext_back readable, Nat.min_eq_left (lt_capacity white).le]

/-- White space at the front is skipped: what is left is shorter, and begins with an octet that
is none. -/
theorem SkipLWS_inProgress {depth : Int} (readable : b.isReadable = true) (white : isLWS b.peekNext = true)
    (skipped : SkipLWS b depth = (.inProgress, b')) :
    b'.isReadable = true ∧ isLWS b'.peekNext = false ∧ b'.readable < b.readable := by
  have before := (Buffer.isReadable_iff_lt b).mp readable
  have inside := lt_capacity white
  have next : b.skipNext.readPosition = b.readPosition + 1 := by simp [Buffer.skipNext, readable]
  have onwards : ∀ found', skipLWSFrom b.readPosition (b.readable - 1) found' b.skipNext = (.inProgress, b') →
      b'.isReadable = true ∧ isLWS b'.peekNext = false ∧ b'.readable < b.readable := by
    intro found' later
    obtain ⟨more, visible, write, read⟩ := skipLWSFrom_inProgress _ _ _ _ later
    rw [(SameOctets.skipNext b).writePosition] at write
    rw [next, Buffer.skipNext_capacity] at read
    refine ⟨more, visible, ?_⟩
    rw [Buffer.readable, Buffer.readable, write]
    omega
  have some : b.readable = b.readable - 1 + 1 := by rw [Buffer.readable]; omega
  rw [SkipLWS] at skipped
  split_ifs at skipped
  · cases skipped
  rw [some, skipLWSFrom] at skipped
  dsimp only at skipped
  rw [if_pos readable] at skipped
  simp only [Bool.false_eq_true, if_false] at skipped
  split_ifs at skipped with cr lf space
  · exact onwards _ skipped
  · exact onwards _ skipped
  · exact onwards _ skipped
  · refine absurd white ?_
    rw [not_or] at space
    simp only [isLWS, cr, lf, space, decide_false, Bool.or_false, Bool.false_eq_true, not_false_eq_true]

end HttpUtil

namespace HttpMessageParser

variable {χ ρ : Type} {isContent : Octet → Bool}

/-- What is gathered of a text between calls: white space at the end is not taken before it is known
to go on. -/
structure Rested (isContent : Octet → Bool) (working : Buffer) : Prop where
  wf : working.WF
  spaced : spaced isContent true working.written = true
  ends : endsSpaced working.written = false

/-- What is gathered of a text inside a call, where a space may have been put. -/
structure Gathering (isContent : Octet → Bool) (working b : Buffer) : Prop where
  wf : working.WF
  spaced : spaced isContent true working.written = true
  ends : endsSpaced working.written = true → b.isReadable = true ∧ isLWS b.peekNext = false

theorem Rested.clear {working : Buffer} (wf : working.WF) : Rested isContent working.clear :=
  ⟨Buffer.clear_wf wf, by simp [Everscale.spaced], by simp [endsSpaced]⟩

theorem Rested.gathering {working b : Buffer} (h : Rested isContent working) : Gathering isContent working b :=
  ⟨h.wf, h.spaced, fun ends => by rw [h.ends] at ends; cases ends⟩

theorem endsSpaced_append (text : List Octet) (c : Octet) : endsSpaced (text ++ [c]) = isLWS c := by
  simp [endsSpaced]

/-- An octet of content is put behind anything. -/
theorem Gathering.content {working b b' : Buffer} (h : Gathering isContent working b) {c : Octet}
    (visible : isLWS c = false) (content : isContent c = true) (room : working.isWritable = true) :
    Gathering isContent (working.putNext c) b' := by
  refine ⟨Buffer.putNext_wf h.wf c, ?_, ?_⟩
  · rw [Buffer.putNext_written h.wf room, spaced_append, h.spaced]
    simp [visible, content]
  · rw [Buffer.putNext_written h.wf room, endsSpaced_append, visible]
    exact nofun

/-- A space is put behind octets that do not end with one. -/
theorem Gathering.space {working b b' : Buffer} (h : Gathering isContent working b)
    (white : isLWS b.peekNext = true) (room : working.isWritable = true)
    (more : b'.isReadable = true) (visible : isLWS b'.peekNext = false) :
    Gathering isContent (if 0 < working.writePosition then working.putNext SP else working) b' := by
  have ends : endsSpaced working.written = false := by
    by_contra spaced
    have := (h.ends (Bool.not_eq_false _ ▸ spaced)).2
    rw [white] at this
    cases this
  split_ifs with some
  · refine ⟨Buffer.putNext_wf h.wf SP, ?_, fun _ => ⟨more, visible⟩⟩
    have nonempty : working.written ≠ [] := List.ne_nil_of_length_pos (by rw [Buffer.written_length h.wf]; exact some)
    rw [Buffer.putNext_written h.wf room, spaced_append, h.spaced, if_neg nonempty, ends]
    simp [isLWS]
  · exact ⟨h.wf, h.spaced, fun spaced => by rw [ends] at spaced; cases spaced⟩

theorem Gathering.stored {working b : Buffer} (h : Gathering isContent working b) :
    Stored isContent working.duplicate :=
  ⟨spaced_front (List.rdropWhile_prefix _ _) h.spaced, List.rdropWhile_idempotent _ _⟩

/-- What a call that gathers text leaves: more to gather, or a stored text. -/
structure Gathered (isContent : Octet → Bool) (save : Scratch ρ → Error × Scratch ρ) (s : Scratch ρ)
    (o : Outcome Error (Scratch ρ) Buffer) : Prop where
  again : o.code = .again → Rested isContent o.state.working ∧ o.state.message = s.message
  success : o.code = .success → ∃ s' : Scratch ρ, s'.message = s.message ∧ s'.working.WF ∧
    Stored isContent s'.working.duplicate ∧ save s' = (.success, o.state)

theorem foldedText_gathered {save : Scratch ρ → Error × Scratch ρ} {bad : Error}
    (saves : ∀ s, (save s).1 ≠ .again) (fails : bad ≠ .again ∧ bad ≠ .success) (fuel : Nat) :
    ∀ (s : Scratch ρ) (b : Buffer), Gathering isContent s.working b → b.readable ≤ fuel →
      Gathered isContent save s (foldedText isContent save bad fuel s b) := by
  -- a call may only wait where no space has been put
  have waits : ∀ (s : Scratch ρ) (b b' : Buffer), Gathering isContent s.working b →
      b.isReadable = false ∨ isLWS b.peekNext = true →
      Gathered isContent save s (⟨.again, s, b'⟩ : Outcome Error (Scratch ρ) Buffer) := by
    intro s b b' h here
    refine ⟨fun _ => ⟨⟨h.wf, h.spaced, ?_⟩, rfl⟩, nofun⟩
    by_contra spaced
    obtain ⟨more, visible⟩ := h.ends (Bool.not_eq_false _ ▸ spaced)
    rcases here with none | white
    · rw [none] at more; cases more
    · rw [white] at visible; cases visible
  induction fuel with
  | zero =>
      intro s b h enough
      refine waits s b _ h (.inl (Bool.eq_false_iff.mpr fun more => ?_))
      rw [Buffer.isReadable, decide_eq_true_iff] at more
      omega
  | succ fuel ih =>
      intro s b h enough
      have failed : ∀ {e : Error} {b' : Buffer}, e ≠ .again → e ≠ .success →
          Gathered isContent save s (⟨e, s, b'⟩ : Outcome Error (Scratch ρ) Buffer) :=
        fun again success => ⟨fun code => absurd code again, fun code => absurd code success⟩
      rw [foldedText]
      by_cases more : b.isReadable = true
      · rw [if_neg (by rw [more]; decide)]
        by_cases room : s.working.isWritable = true
        · rw [if_neg (by rw [room]; decide)]
          dsimp only
          have shorter : b.skipNext.readable < b.readable := by
            have before := (Buffer.isReadable_iff_lt b).mp more
            simp only [Buffer.readable, Buffer.skipNext, more, if_true]
            omega
          by_cases white : isLWS b.peekNext = true
          · rw [if_pos white, skipNext_unread_back more white]
            split
            · refine ⟨fun code => absurd code (saves s), fun code => ⟨s, rfl, h.wf, h.stored, ?_⟩⟩
              rw [← show (save s).1 = .success from code]
            · rename_i b' skipped
              obtain ⟨more', visible, less⟩ := SkipLWS_inProgress more white skipped
              have put : Gathering isContent
                  (if 0 < s.working.writePosition then s.put SP else s).working b' := by
                have := h.space white room more' visible
                split_ifs at this ⊢ <;> exact this
              have same : (if 0 < s.working.writePosition then s.put SP else s).message = s.message := by
                split_ifs <;> rfl
              have later := ih _ b' put (by omega)
              refine ⟨fun code => ⟨(later.again code).1, (later.again code).2.trans same⟩, fun code => ?_⟩
              obtain ⟨s', message, rest⟩ := later.success code
              exact ⟨s', message.trans same, rest⟩
            · rename_i e b' ended folded skipped
              by_cases again : e = .again
              · subst again
                exact waits s b _ h (.inr white)
              · exact failed again ended
          · rw [if_neg white]
            by_cases content : isContent b.peekNext = true
            · rw [if_pos content]
              have later := ih (s.put b.peekNext) b.skipNext
                (h.content (Bool.eq_false_iff.mpr white) content room) (by omega)
              exact ⟨later.again, later.success⟩
            · rw [if_neg content]
              exact failed fails.1 fails.2
        · rw [if_pos (by rw [Bool.eq_false_iff.mpr room]; rfl)]
          exact failed (by decide) (by decide)
      · rw [if_pos (by rw [Bool.eq_false_iff.mpr more]; rfl)]
        exact waits s b _ h (.inl (Bool.eq_false_iff.mpr more))

/-! ## Fields -/

/-- A header of an accepted head. -/
structure HeaderStored (header : HttpHeader) : Prop where
  name : header.fieldName.all isToken = true
  value : ∃ value, header.fieldValue = some value ∧ Stored isFieldContent value

/-- A field name is being read. -/
structure InName (s : Scratch ρ) : Prop where
  wf : s.working.WF
  tokens : s.working.written.all isToken = true
  headers : ∀ header ∈ s.message.headers, HeaderStored header

/-- The value of the last header is being read. -/
structure InValue (s : Scratch ρ) : Prop where
  rested : Rested isFieldContent s.working
  headers : ∃ stored last, s.message.headers = stored ++ [last] ∧ last.fieldName.all isToken = true ∧
    ∀ header ∈ stored, HeaderStored header

/-- A field name has been read. -/
structure NameRead (s : Scratch ρ) : Prop where
  wf : s.working.WF
  headers : ∃ stored last, s.message.headers = stored ++ [last] ∧ last.fieldName.all isToken = true ∧
    ∀ header ∈ stored, HeaderStored header

/-- A field value has been read. -/
structure ValueRead (s : Scratch ρ) : Prop where
  wf : s.working.WF
  headers : ∀ header ∈ s.message.headers, HeaderStored header

theorem InName.cleared {s : Scratch ρ} (wf : s.working.WF)
    (headers : ∀ header ∈ s.message.headers, HeaderStored header) :
    InName { s with working := s.working.clear } :=
  ⟨Buffer.clear_wf wf, by simp, headers⟩

theorem parseFieldName_read : Reader.Leads InName (parseFieldName (ρ := ρ)) (Reader.Leaves InName NameRead) := by
  refine Reader.octetLoop_leads (R := fun _ => True) (fun s c h => ?_) (fun s h => .waits h)
    (fun s e h refused => ?_) (fun s b _ => .failed (by rintro ⟨⟩) (by rintro ⟨⟩))
  · rw [fieldNameOctet]
    split_ifs with colon token
    · exact .done ⟨h.wf, s.message.headers, _, rfl, Buffer.duplicate_all h.tokens, h.headers⟩
    · exact ⟨Buffer.putNext_wf h.wf c, Buffer.putNext_all h.wf h.tokens token, h.headers⟩
    · exact .failed (by rintro ⟨⟩) (by rintro ⟨⟩)
  · rw [Scratch.workingFull] at refused
    split_ifs at refused
    cases refused
    exact .failed (by rintro ⟨⟩) (by rintro ⟨⟩)

theorem saveFieldValue_code (s : Scratch ρ) : (saveFieldValue s).1 ≠ .again := by
  rw [saveFieldValue]
  split <;> rintro ⟨⟩

theorem parseFieldValue_read : Reader.Leads InValue (parseFieldValue (ρ := ρ)) (Reader.Leaves InValue ValueRead) := by
  intro s b h
  obtain ⟨rested, stored, last, headers, name, complete⟩ := h
  have gathered : Gathered isFieldContent saveFieldValue s (parseFieldValue s b) := by
    rw [parseFieldValue]
    exact foldedText_gathered saveFieldValue_code ⟨by decide, by decide⟩ b.readable s b rested.gathering (Nat.le_refl _)
  refine ⟨fun code => ?_, fun code => ?_⟩
  · obtain ⟨rested', same⟩ := gathered.again code
    exact ⟨rested', stored, last, same ▸ headers, name, complete⟩
  · obtain ⟨s', same, wf, text, saved⟩ := gathered.success code
    rw [saveFieldValue, HttpMessage.setLastFieldValue, same, headers, List.getLast?_concat] at saved
    dsimp only [Option.map_some] at saved
    rw [← (Prod.mk.inj saved).2]
    refine ⟨wf, fun header inside => ?_⟩
    dsimp only at inside
    rw [List.dropLast_concat] at inside
    rcases List.mem_append.mp inside with before | here
    · exact complete header before
    · rw [List.mem_singleton.mp here]
      exact ⟨name, _, rfl, text⟩

/-! ## Heads -/

/-- A first line has been read, and nothing else. -/
structure FirstLineRead (K : ρ → Prop) (s : StartLineParse χ ρ) : Prop where
  line : K s.message.startLine
  wf : s.working.WF
  headers : s.message.headers = []

/-- What is known while a first line is read, and of one that was read. -/
structure KnowsLine (methods : StartLineMethods χ ρ) (I : StartLineParse χ ρ → Prop) (K : ρ → Prop) : Prop where
  cleared : ∀ s, I s → I { s with working := s.working.clear }
  reads : Reader.Leads I methods.parseStartLine (Reader.Leaves I (FirstLineRead K))

/-- What is known of the strings between calls that ask for more. -/
structure TextKnown (I : StartLineParse χ ρ → Prop) (K : ρ → Prop) (s : HttpMessageParser χ ρ) : Prop where
  stage : s.stage ≠ .headerParseComplete
  line : s.stage = .initial ∨ s.stage = .startLine → I s.toStartLineParse
  read : s.stage = .fieldName ∨ s.stage = .fieldValue → K s.message.startLine
  name : s.stage = .fieldName → InName s.toScratch
  value : s.stage = .fieldValue → InValue s.toScratch

/-- A head has been accepted. -/
structure HeadStored (K : ρ → Prop) (s : HttpMessageParser χ ρ) : Prop where
  line : K s.message.startLine
  headers : ∀ header ∈ s.message.headers, HeaderStored header

/-- What a call of `parseHeaders` leaves. -/
abbrev TextRead (I : StartLineParse χ ρ → Prop) (K : ρ → Prop) (o : Outcome Error (HttpMessageParser χ ρ) Buffer) :
    Prop := Reader.Leaves (TextKnown I K) (HeadStored K) o.code o.state

section head

variable {methods : StartLineMethods χ ρ} {I : StartLineParse χ ρ → Prop} {K : ρ → Prop}
  {s : HttpMessageParser χ ρ}

theorem TextKnown.named (stage : s.stage = .fieldName) (line : K s.message.startLine) (h : InName s.toScratch) :
    TextKnown I K s := by
  refine ⟨fun done => (nomatch stage.symm.trans done), fun early => ?_, fun _ => line, fun _ => h,
    fun turn => (nomatch stage.symm.trans turn)⟩
  rcases early with early | early <;> exact nomatch stage.symm.trans early

theorem TextKnown.valued (stage : s.stage = .fieldValue) (line : K s.message.startLine) (h : InValue s.toScratch) :
    TextKnown I K s := by
  refine ⟨fun done => (nomatch stage.symm.trans done), fun early => ?_, fun _ => line,
    fun turn => (nomatch stage.symm.trans turn), fun _ => h⟩
  rcases early with early | early <;> exact nomatch stage.symm.trans early

/-- Deciding how the body is framed leaves the strings alone. -/
theorem postParse_text (s : HttpMessageParser χ ρ) (accepted : (postParse methods s).1 = .success) :
    (postParse methods s).2.message.startLine = s.message.startLine ∧
      (postParse methods s).2.message.httpVersion = s.message.httpVersion ∧
      (postParse methods s).2.message.headers = s.message.headers := by
  obtain ⟨read, found⟩ := postParseHeaders_gather s.message.headers (postParseStart s.message)
  rw [postParse] at accepted ⊢
  dsimp only at accepted ⊢
  by_cases lengths : LengthsRead s.message.headers
  · rw [found lengths]
    dsimp only
    rw [if_neg (not_not.mpr rfl), delimitBody]
    split_ifs <;> exact ⟨rfl, rfl, rfl⟩
  · rw [if_pos (mt read.mp lengths)] at accepted
    exact absurd accepted (mt read.mp lengths)

theorem parseVersion_keeps {P : Scratch ρ → Prop}
    (versions : ∀ s httpVersion, P s → P { s with message := { s.message with httpVersion } }) (clientMode : Bool) :
    Reader.Keeps P (parseVersion clientMode) := by
  intro s b h
  unfold parseVersion
  dsimp only
  split_ifs <;> first | exact h | exact versions s _ h

theorem endOfHeaders_text (line : K s.message.startLine) (h : InName s.toScratch) (b : Buffer) :
    TextRead I K (endOfHeaders methods s b) := by
  refine ⟨fun code => absurd code (postParse_final methods (enter .headerParseComplete s)), fun code => ?_⟩
  obtain ⟨startLine, -, headers⟩ := postParse_text (enter .headerParseComplete s) code
  exact ⟨startLine ▸ line, fun header inside => h.headers header (headers ▸ inside)⟩

theorem parseFields_text (fuel : Nat) : ∀ (s : HttpMessageParser χ ρ) (b : Buffer), TextKnown I K s →
    TextRead I K (parseFields methods fuel s b) := by
  induction fuel with
  | zero => exact fun s b h => .waits h
  | succ fuel ih =>
      intro s b h
      rw [parseFields.eq_def]
      dsimp only
      cases stage : s.stage with
      | fieldName =>
          have line := h.read (.inl stage)
          have inName := h.name stage
          dsimp only
          split_ifs
          · exact .waits h
          · exact .waits h
          · exact .failed (by rintro ⟨⟩) (by rintro ⟨⟩)
          · exact endOfHeaders_text line inName _
          · exact endOfHeaders_text line inName _
          · exact .failed (by rintro ⟨⟩) (by rintro ⟨⟩)
          · have read := parseFieldName_read s.toScratch b inName
            have kept : HasLine s.message.startLine s.message.httpVersion (parseFieldName s.toScratch b).state :=
              parseFieldName_keeps s.toScratch b ⟨rfl, rfl⟩
            refine Reader.stage_leaves (E := fun s => K s.message.startLine ∧ NameRead s.toScratch)
              ⟨fun code => .named stage (kept.1 ▸ line) (read.again code),
                fun code => ⟨kept.1 ▸ line, read.success code⟩⟩ ?_
            rintro s b ⟨line, wf, headers⟩
            exact ih _ _ (.valued rfl line ⟨.clear wf, headers⟩)
      | fieldValue =>
          have line := h.read (.inr stage)
          have read := parseFieldValue_read s.toScratch b (h.value stage)
          have kept : HasLine s.message.startLine s.message.httpVersion (parseFieldValue s.toScratch b).state :=
            parseFieldValue_keeps s.toScratch b ⟨rfl, rfl⟩
          dsimp only
          refine Reader.stage_leaves (E := fun s => K s.message.startLine ∧ ValueRead s.toScratch)
            ⟨fun code => .valued stage (kept.1 ▸ line) (read.again code),
              fun code => ⟨kept.1 ▸ line, read.success code⟩⟩ ?_
          rintro s b ⟨line, wf, headers⟩
          exact ih _ _ (.named rfl line (.cleared wf headers))
      | initial => exact .failed (by rintro ⟨⟩) (by rintro ⟨⟩)
      | startLine => exact .failed (by rintro ⟨⟩) (by rintro ⟨⟩)
      | headerParseComplete => exact .failed (by rintro ⟨⟩) (by rintro ⟨⟩)

theorem parseFromStartLine_text (knows : KnowsLine methods I K) (h : TextKnown I K s)
    (b : Buffer) : TextRead I K (parseFromStartLine methods s b) := by
  rw [parseFromStartLine]
  by_cases first : s.stage = .startLine
  · have read := knows.reads s.toStartLineParse b (h.line (.inr first))
    rw [if_pos first]
    refine Reader.stage_leaves (E := fun s : HttpMessageParser χ ρ => FirstLineRead K s.toStartLineParse)
      ⟨fun code => ⟨h.stage, fun _ => read.again code, ?_, fun turn => ?_, fun turn => ?_⟩, read.success⟩ ?_
    · rintro (stage | stage) <;> cases first.symm.trans stage
    · cases first.symm.trans turn
    · cases first.symm.trans turn
    · rintro s b ⟨line, wf, headers⟩
      refine parseFields_text _ _ _ (.named rfl line (.cleared wf fun header inside => ?_))
      exact absurd (headers ▸ inside) List.not_mem_nil
  · rw [if_neg first]
    exact parseFields_text _ _ _ h

theorem parseHeaders_text (knows : KnowsLine methods I K) (h : TextKnown I K s) (b : Buffer) :
    TextRead I K (parseHeaders methods s b) := by
  rw [parseHeaders, if_neg h.stage]
  by_cases initial : s.stage = .initial
  · rw [if_pos initial]
    dsimp only
    split_ifs
    · have line : I (enter .startLine s).toStartLineParse := knows.cleared _ (h.line (.inl initial))
      have entered : TextKnown I K (enter .startLine s) :=
        ⟨by rintro ⟨⟩, fun _ => line, by rintro (⟨⟨⟩⟩ | ⟨⟨⟩⟩), by rintro ⟨⟩, by rintro ⟨⟩⟩
      exact parseFromStartLine_text knows entered _
    · exact .waits h
  · rw [if_neg initial]
    exact parseFromStartLine_text knows h b

/-- What is known of the strings between two calls. -/
theorem Parsing.text (knows : KnowsLine methods I K) {first s : HttpMessageParser χ ρ} (fresh : TextKnown I K first)
    (parsing : Parsing methods first s) : TextKnown I K s := by
  induction parsing with
  | start => exact fresh
  | @more s s' b b' _ parsed ih =>
      have read := parseHeaders_text knows ih b
      rw [parsed] at read
      exact read.again rfl

/-- **What is known of the strings of an accepted head**, however it was cut. -/
theorem accepted_text (knows : KnowsLine methods I K) {first s' : HttpMessageParser χ ρ}
    (fresh : TextKnown I K first) (accepts : Accepts methods first s') : HeadStored K s' := by
  obtain ⟨s, b, b', parsing, accepted⟩ := accepts
  have read := parseHeaders_text knows (parsing.text knows fresh) b
  rw [accepted] at read
  exact read.success rfl

end head

end HttpMessageParser

end Everscale
