/-
# Everscale.Http1.ElementStream -- element parsers over the unread octets

The element parsers of `Everscale.Http1.MessageParser` read a buffer: a field name,
a text with its white space folded, a version.  Here is what each does to the list
of unread octets, together with two facts: the buffer parser mirrors the list parser
(`Mirrors`), and the list parser can be cut anywhere and resumed (`ResumesAt`).
-/
import Everscale.Http1.MessageParser

namespace Everscale.HttpMessageParser

set_option autoImplicit false

open Theory HttpUtil

variable {χ ρ : Type}

/-! ## Spaces at a cut -/

/-- Skipping in the part first changes nothing for the whole. -/
theorem dropWhile_dropWhile_append (p : Octet → Bool) (u more : List Octet) :
    (u.dropWhile p ++ more).dropWhile p = (u ++ more).dropWhile p := by
  rw [List.dropWhile_append, List.dropWhile_append, List.dropWhile_idempotent]

/-- What a parser may leave unread when it asks for more: a few octets of an element it
reads in one piece, or white space of which the end is not there yet. -/
def Lookahead (w : List Octet) : Prop := w.length < 10 ∨ w.all isLWS = true

theorem lookahead_nil : Lookahead [] := .inr rfl

/-! ## Elements -/

/-- `noMore` over lists. -/
def noMoreOn {σ : Type} : StreamParser σ := fun s u => ⟨.invalidState, s, u⟩

/-- No state is reached: the states a loop leaves in when it never leaves. -/
abbrev nowhere {σ : Type} : σ → Prop := fun _ => False

theorem noMore_mirrors {σ : Type} {needs : σ → Prop} :
    Mirrors needs nowhere (noMore : Reader σ) noMoreOn := fun _ _ h => h.elim

def fieldNameOn : StreamParser (Scratch ρ) :=
  scan .again Scratch.workingFull fieldNameOctet noMoreOn

theorem workingFull_cases (s : Scratch ρ) :
    s.workingFull = none ∨ s.workingFull = some .overflow := by
  unfold Scratch.workingFull; split <;> simp

theorem fieldNameRules (here : Scratch ρ → Prop) (put : ∀ s c, here s → here (s.put c)) :
    ScanRules Error.again Scratch.workingFull (fieldNameOctet (ρ := ρ)) here nowhere where
  guard_final s := by rcases workingFull_cases s with h | h <;> simp [h]
  stop_final s c s' := by unfold fieldNameOctet; split_ifs <;> simp
  keep_here s c s' h := by
    unfold fieldNameOctet
    split_ifs <;> intro acted <;> cases acted
    exact put s c h
  jump_there s c s' _ := by unfold fieldNameOctet; split_ifs <;> simp
  back_there s c s' _ := by unfold fieldNameOctet; split_ifs <;> simp

theorem parseFieldName_mirrors :
    MirrorsPlainly (fun _ => True) (parseFieldName (ρ := ρ)) fieldNameOn :=
  octetLoop_mirrors (fieldNameRules (fun _ => True) fun _ _ _ => trivial) (fun _ _ h => h) (fun _ _ h => h) noMore_mirrors

theorem fieldNameOn_resumesAt (s : Scratch ρ) (u : List Octet) :
    ResumesAt .again anyCut fieldNameOn fieldNameOn s u :=
  scan_resumesAt (fieldNameRules (fun _ => True) fun _ _ _ => trivial)
    (fun _ _ _ _ => rfl) (fun _ _ h => h.elim) s u trivial

theorem fieldNameOn_waits (s : Scratch ρ) (u : List Octet) :
    Waits .again Lookahead fieldNameOn s u :=
  scan_waits lookahead_nil (fieldNameRules (fun _ => True) fun _ _ _ => trivial)
    (fun _ _ h => h.elim) s u trivial

/-- Reading a field name takes its colon. -/
theorem fieldNameOn_shorter (s : Scratch ρ) (u : List Octet)
    (ok : (fieldNameOn s u).code = .success) : (fieldNameOn s u).input.length < u.length :=
  scan_shorter (fieldNameRules (fun _ => True) fun _ _ _ => trivial)
    (fun s => by rcases workingFull_cases s with h | h <;> simp [h]) (by decide) s u trivial ok

/-- Putting an octet never takes the write position back to the start. -/
theorem put_writePosition {s : Scratch ρ} (c : Octet)
    (h : s.working.writePosition ≠ 0 ∨ s.working.isWritable = true) :
    (s.put c).working.writePosition ≠ 0 := by
  simp only [Scratch.put, Buffer.putNext]
  split
  · exact Nat.succ_ne_zero _
  · rename_i full; exact h.resolve_right (by simpa using full)

/-- A field name that waits in its middle has octets in the working buffer. -/
theorem fieldNameOn_parks {s : Scratch ρ} {c : Octet} {rest : List Octet}
    (wants : (fieldNameOn s (c :: rest)).code = .again) :
    (fieldNameOn s (c :: rest)).state.working.writePosition ≠ 0 := by
  let begun : Scratch ρ → Prop := fun s => s.working.writePosition ≠ 0
  have started : ∀ s', begun s' → (fieldNameOn s' rest).code = .again →
      begun (fieldNameOn s' rest).state := fun s' h =>
    scan_parks begun (fieldNameRules begun fun s c h => put_writePosition c (.inl h))
      (fun _ _ h => h.elim) (fun _ h => h) s' rest h
  simp only [fieldNameOn, scan] at wants ⊢
  cases room : s.working.isWritable with
  | false => simp [Scratch.workingFull, room] at wants
  | true =>
      simp only [Scratch.workingFull, room, if_true] at wants ⊢
      unfold fieldNameOctet at wants ⊢
      split_ifs at wants ⊢ with colon token
      exact started (s.put c) (put_writePosition c (.inr room)) wants

section folded

variable (isContent : Octet → Bool) (save : Scratch ρ → Error × Scratch ρ) (bad : Error)

/-- White space inside a text leaves one space, before it none. -/
def putSpace (s : Scratch ρ) : Scratch ρ := if 0 < s.working.writePosition then s.put SP else s

theorem skipLWSOn_shorter {c : Octet} {rest : List Octet} {e : Error} {r : List Octet}
    (white : isLWS c = true) (h : skipLWSOn false (c :: rest) = some (e, r)) : r <:+ rest := by
  simp only [skipLWSOn, Bool.false_eq_true, if_false] at h
  split_ifs at h with cr lf space
  · exact skipLWSOn_suffix h
  · exact skipLWSOn_suffix h
  · exact skipLWSOn_suffix h
  · simp only [isLWS, cr, lf, decide_false, Bool.false_or, Bool.or_eq_true, decide_eq_true_eq]
      at white
    exact absurd white space

set_option linter.unusedVariables false in
/-- `foldedText` over lists. -/
def foldedOn (s : Scratch ρ) (u : List Octet) : Outcome Error (Scratch ρ) (List Octet) :=
  match u with
  | [] => ⟨.again, s, []⟩
  | c :: rest =>
      if !s.working.isWritable then ⟨.overflow, s, c :: rest⟩
      else if white : isLWS c = true then
        match skipped : skipLWSOn false (c :: rest) with
        | none => ⟨.again, s, c :: rest⟩
        | some (.success, r) => ⟨(save s).1, (save s).2, r⟩
        | some (_, r) => foldedOn (putSpace s) r
      else if isContent c then foldedOn (s.put c) rest
      else ⟨bad, s, rest⟩
termination_by u.length
decreasing_by
  · have := (skipLWSOn_shorter white skipped).length_le
    simp only [List.length_cons]; omega
  · simp

variable {isContent save bad}

theorem foldedOn_nil (s : Scratch ρ) : foldedOn isContent save bad s [] = ⟨.again, s, []⟩ := by
  rw [foldedOn]

theorem foldedOn_full {s : Scratch ρ} (full : s.working.isWritable = false) (c : Octet)
    (rest : List Octet) :
    foldedOn isContent save bad s (c :: rest) = ⟨.overflow, s, c :: rest⟩ := by
  rw [foldedOn]; simp [full]

theorem foldedOn_wait {s : Scratch ρ} (room : s.working.isWritable = true) {c : Octet}
    {rest : List Octet} (white : isLWS c = true) (h : skipLWSOn false (c :: rest) = none) :
    foldedOn isContent save bad s (c :: rest) = ⟨.again, s, c :: rest⟩ := by
  rw [foldedOn]
  simp only [room, Bool.not_true, Bool.false_eq_true, if_false, white, dif_pos]
  split
  · rfl
  · rename_i skipped; rw [h] at skipped; cases skipped
  · rename_i skipped; rw [h] at skipped; cases skipped

theorem foldedOn_end {s : Scratch ρ} (room : s.working.isWritable = true) {c : Octet}
    {rest r : List Octet} (white : isLWS c = true)
    (h : skipLWSOn false (c :: rest) = some (.success, r)) :
    foldedOn isContent save bad s (c :: rest) = ⟨(save s).1, (save s).2, r⟩ := by
  rw [foldedOn]
  simp only [room, Bool.not_true, Bool.false_eq_true, if_false, white, dif_pos]
  split
  · rename_i skipped; rw [h] at skipped; cases skipped
  · rename_i skipped; rw [h] at skipped; cases skipped; rfl
  · rename_i ne skipped; rw [h] at skipped; cases skipped; exact absurd rfl ne

theorem foldedOn_space {s : Scratch ρ} (room : s.working.isWritable = true) {c : Octet}
    {rest r : List Octet} (white : isLWS c = true)
    (h : skipLWSOn false (c :: rest) = some (.inProgress, r)) :
    foldedOn isContent save bad s (c :: rest) = foldedOn isContent save bad (putSpace s) r := by
  rw [foldedOn]
  simp only [room, Bool.not_true, Bool.false_eq_true, if_false, white, dif_pos]
  split
  · rename_i skipped; rw [h] at skipped; cases skipped
  · rename_i skipped; rw [h] at skipped; cases skipped
  · rename_i skipped; rw [h] at skipped; cases skipped; rfl

theorem foldedOn_content {s : Scratch ρ} (room : s.working.isWritable = true) {c : Octet}
    (black : isLWS c = false) (content : isContent c = true) (rest : List Octet) :
    foldedOn isContent save bad s (c :: rest) = foldedOn isContent save bad (s.put c) rest := by
  rw [foldedOn]; simp [room, black, content]

theorem foldedOn_bad {s : Scratch ρ} (room : s.working.isWritable = true) {c : Octet}
    (black : isLWS c = false) (foreign : isContent c = false) (rest : List Octet) :
    foldedOn isContent save bad s (c :: rest) = ⟨bad, s, rest⟩ := by
  rw [foldedOn]; simp [room, black, foreign]

/-- How `foldedText` goes on from one octet, by what that octet is. -/
theorem foldedOn_cases (isContent : Octet → Bool) (s : Scratch ρ) (u : List Octet)
    {motive : Prop} (nil : u = [] → motive)
    (full : ∀ c rest, u = c :: rest → s.working.isWritable = false → motive)
    (wait : ∀ c rest, u = c :: rest → s.working.isWritable = true → isLWS c = true →
      skipLWSOn false (c :: rest) = none → motive)
    (ends : ∀ c rest r, u = c :: rest → s.working.isWritable = true → isLWS c = true →
      skipLWSOn false (c :: rest) = some (.success, r) → motive)
    (space : ∀ c rest r, u = c :: rest → s.working.isWritable = true → isLWS c = true →
      skipLWSOn false (c :: rest) = some (.inProgress, r) → motive)
    (content : ∀ c rest, u = c :: rest → s.working.isWritable = true → isLWS c = false →
      isContent c = true → motive)
    (foreign : ∀ c rest, u = c :: rest → s.working.isWritable = true → isLWS c = false →
      isContent c = false → motive) : motive := by
  cases u with
  | nil => exact nil rfl
  | cons c rest =>
      cases room : s.working.isWritable with
      | false => exact full c rest rfl room
      | true =>
          cases white : isLWS c with
          | false =>
              cases ok : isContent c with
              | true => exact content c rest rfl room white ok
              | false => exact foreign c rest rfl room white ok
          | true =>
              cases skipped : skipLWSOn false (c :: rest) with
              | none => exact wait c rest rfl room white skipped
              | some found =>
                  obtain ⟨e, r⟩ := found
                  rcases skipLWSOn_code skipped with rfl | rfl
                  · exact ends c rest r rfl room white skipped
                  · exact space c rest r rfl room white skipped

/-- A text may be cut anywhere: white space is taken only once it is clear what it
is. -/
theorem foldedOn_resumesAt (saveFinal : ∀ s, (save s).1 ≠ .again) (badFinal : bad ≠ .again)
    (s : Scratch ρ) (u : List Octet) :
    ResumesAt .again anyCut (foldedOn isContent save bad) (foldedOn isContent save bad) s u := by
  induction h : u.length using Nat.strong_induction_on generalizing s u with
  | _ n ih =>
      refine foldedOn_cases isContent s u ?_ ?_ ?_ ?_ ?_ ?_ ?_
      · rintro rfl
        exact .of_wait (foldedOn_nil s) fun _ _ => rfl
      · rintro c rest rfl full
        exact .of_final (r := c :: rest) List.suffix_rfl (by decide)
          fun more => foldedOn_full full c (rest ++ more)
      · rintro c rest rfl room white skipped
        exact .of_wait (foldedOn_wait room white skipped) fun _ _ => rfl
      · rintro c rest r rfl room white skipped
        exact .of_final (skipLWSOn_suffix skipped) (saveFinal s)
          fun more => foldedOn_end room white (skipLWSOn_append more skipped)
      · rintro c rest r rfl room white skipped
        have left := skipLWSOn_shorter white skipped
        have shorter : r.length < n := by
          have := left.length_le; simp only [List.length_cons] at h; omega
        exact .of_continue (left.trans (List.suffix_cons c rest))
          (ih r.length shorter (putSpace s) r rfl)
          fun more => foldedOn_space room white (skipLWSOn_append more skipped)
      · rintro c rest rfl room black content
        have shorter : rest.length < n := by simp only [List.length_cons] at h; omega
        exact .of_continue (List.suffix_cons c rest) (ih rest.length shorter (s.put c) rest rfl)
          fun more => foldedOn_content room black content (rest ++ more)
      · rintro c rest rfl room black foreign
        exact .of_final (List.suffix_cons c rest) badFinal
          fun more => foldedOn_bad room black foreign (rest ++ more)

/-- A text waits at white space only. -/
theorem foldedOn_waits (saveFinal : ∀ s, (save s).1 ≠ .again) (badFinal : bad ≠ .again)
    (s : Scratch ρ) (u : List Octet) :
    Waits .again Lookahead (foldedOn isContent save bad) s u := by
  intro wants
  induction h : u.length using Nat.strong_induction_on generalizing s u with
  | _ n ih =>
      refine foldedOn_cases isContent s u ?_ ?_ ?_ ?_ ?_ ?_ ?_
      · rintro rfl; rw [foldedOn_nil]; exact lookahead_nil
      · rintro c rest rfl full; rw [foldedOn_full full] at wants; cases wants
      · rintro c rest rfl room white skipped
        rw [foldedOn_wait room white skipped]
        exact .inr (skipLWSOn_eq_none skipped)
      · rintro c rest r rfl room white skipped
        rw [foldedOn_end room white skipped] at wants
        exact absurd wants (saveFinal s)
      · rintro c rest r rfl room white skipped
        have left := (skipLWSOn_shorter white skipped).length_le
        simp only [List.length_cons] at h
        rw [foldedOn_space room white skipped] at wants ⊢
        exact ih r.length (by omega) (putSpace s) r wants rfl
      · rintro c rest rfl room black content
        simp only [List.length_cons] at h
        rw [foldedOn_content room black content] at wants ⊢
        exact ih rest.length (by omega) (s.put c) rest wants rfl
      · rintro c rest rfl room black foreign
        rw [foldedOn_bad room black foreign] at wants; exact absurd wants badFinal

/-- A text that ends has taken its line break. -/
theorem foldedOn_shorter (badFails : bad ≠ .success) (s : Scratch ρ) (u : List Octet)
    (ok : (foldedOn isContent save bad s u).code = .success) :
    (foldedOn isContent save bad s u).input.length < u.length := by
  induction h : u.length using Nat.strong_induction_on generalizing s u with
  | _ n ih =>
      refine foldedOn_cases isContent s u ?_ ?_ ?_ ?_ ?_ ?_ ?_
      · rintro rfl; rw [foldedOn_nil] at ok; cases ok
      · rintro c rest rfl full; rw [foldedOn_full full] at ok; cases ok
      · rintro c rest rfl room white skipped
        rw [foldedOn_wait room white skipped] at ok; cases ok
      · rintro c rest r rfl room white skipped
        rw [foldedOn_end room white skipped]
        have := (skipLWSOn_shorter white skipped).length_le
        simp only [List.length_cons] at h; simp only; omega
      · rintro c rest r rfl room white skipped
        have left := (skipLWSOn_shorter white skipped).length_le
        simp only [List.length_cons] at h
        rw [foldedOn_space room white skipped] at ok ⊢
        have := ih r.length (by omega) (putSpace s) r ok rfl
        omega
      · rintro c rest rfl room black content
        simp only [List.length_cons] at h
        rw [foldedOn_content room black content] at ok ⊢
        have := ih rest.length (by omega) (s.put c) rest ok rfl
        omega
      · rintro c rest rfl room black foreign
        rw [foldedOn_bad room black foreign] at ok; exact absurd ok badFails

theorem foldedText_reads (fuel : Nat) :
    ∀ (s : Scratch ρ) (b : Buffer), b.WF → b.unread.length ≤ fuel →
      Reads b (foldedText isContent save bad fuel s b) (foldedOn isContent save bad s b.unread) := by
  induction fuel with
  | zero =>
      intro s b wf enough
      have empty : b.unread = [] := List.eq_nil_of_length_eq_zero (by omega)
      rw [empty, foldedOn_nil]
      exact .leaving empty wf (SameOctets.refl b)
  | succ fuel ih =>
      intro s b wf enough
      refine foldedOn_cases isContent s b.unread ?_ ?_ ?_ ?_ ?_ ?_ ?_
      · intro empty
        rw [empty, foldedOn_nil]
        simp only [foldedText, Buffer.not_isReadable_of_unread wf empty, Bool.not_false, if_true]
        exact .leaving empty wf (SameOctets.refl b)
      all_goals intro c rest
      on_goal 3 => intro r
      on_goal 4 => intro r
      all_goals
        intro unread room
        have readable := Buffer.isReadable_of_unread wf unread
        have head := Buffer.peekNext_of_unread wf unread
        have tail := Buffer.skipNext_unread_cons wf unread
        have unstep := Buffer.setReadPosition_skipNext wf readable
        have skips := SkipLWS_spec wf
        rw [unread]
        rw [unread] at skips
        simp only [foldedText, readable, room, head, unstep, Bool.not_true, Bool.not_false,
          Bool.false_eq_true, if_false, if_true]
      · rw [foldedOn_full room]
        exact .leaving unread wf (SameOctets.refl b)
      · intro white skipped
        rw [foldedOn_wait room white skipped]
        simp only [skipped] at skips
        simp only [white, if_true, skips]
        exact .leaving unread wf (SameOctets.refl b)
      · intro white skipped
        rw [foldedOn_end room white skipped]
        simp only [skipped] at skips
        obtain ⟨code, left, wf', same⟩ := skips
        simp only [white, if_true]
        rw [show SkipLWS b 3 = (.success, (SkipLWS b 3).2) from Prod.ext code rfl]
        exact .leaving left wf' same
      · intro white skipped
        rw [foldedOn_space room white skipped]
        simp only [skipped] at skips
        obtain ⟨code, left, wf', same⟩ := skips
        simp only [white, if_true]
        rw [show SkipLWS b 3 = (.inProgress, (SkipLWS b 3).2) from Prod.ext code rfl]
        have fits : (SkipLWS b 3).2.unread.length ≤ fuel := by
          have := (skipLWSOn_shorter white skipped).length_le
          rw [unread] at enough
          simp only [List.length_cons] at enough
          rw [left]; omega
        have step := ih (putSpace s) (SkipLWS b 3).2 wf' fits
        rw [left] at step
        exact step.of_same same
      · intro black content
        rw [foldedOn_content room black content]
        simp only [black, content, Bool.false_eq_true, if_false, if_true]
        have fits : b.skipNext.unread.length ≤ fuel := by rw [tail]; simpa [unread] using enough
        have step := ih (s.put c) b.skipNext (Buffer.skipNext_wf wf) fits
        rw [tail] at step
        exact step.of_same (SameOctets.skipNext b)
      · intro black foreign
        rw [foldedOn_bad room black foreign]
        simp only [black, foreign, Bool.false_eq_true, if_false]
        exact .leaving tail (Buffer.skipNext_wf wf) (SameOctets.skipNext b)

end folded

/-! ### The field value -/

def fieldValueOn : StreamParser (Scratch ρ) :=
  foldedOn isFieldContent saveFieldValue .badRequestFieldValue

theorem saveFieldValue_final (s : Scratch ρ) : (saveFieldValue s).1 ≠ .again := by
  unfold saveFieldValue; split <;> simp

theorem parseFieldValue_mirrors :
    MirrorsPlainly (fun _ => True) (parseFieldValue (ρ := ρ)) fieldValueOn :=
  fun s b _ wf _ =>
    ⟨foldedText_reads b.readable s b wf (by rw [Buffer.unread_length wf]), fun _ h => h.elim⟩

theorem fieldValueOn_resumesAt (s : Scratch ρ) (u : List Octet) :
    ResumesAt .again anyCut fieldValueOn fieldValueOn s u :=
  foldedOn_resumesAt saveFieldValue_final (by decide) s u

theorem fieldValueOn_waits (s : Scratch ρ) (u : List Octet) :
    Waits .again Lookahead fieldValueOn s u :=
  foldedOn_waits saveFieldValue_final (by decide) s u

/-- Reading a field value takes its line break. -/
theorem fieldValueOn_shorter (s : Scratch ρ) (u : List Octet)
    (ok : (fieldValueOn s u).code = .success) : (fieldValueOn s u).input.length < u.length :=
  foldedOn_shorter (by decide) s u ok

/-! ### The version -/

/-- The version an octet list begins with. -/
def versionMatch (v : List Octet) : Option Nat :=
  if (octets "HTTP/1.1").isPrefixOf v then some 110
  else if (octets "HTTP/1.0").isPrefixOf v then some 100
  else none

/-- What has to follow a version; there are always enough octets to tell. -/
def versionEnd (clientMode : Bool) (s : Scratch ρ) (version : Nat) (w : List Octet) :
    Outcome Error (Scratch ρ) (List Octet) :=
  let done := { s with message := { s.message with httpVersion := version } }
  match clientMode, w with
  | true, c :: rest =>
      if isSpace c then ⟨.success, done, rest⟩ else ⟨.badRequestVersion, s, rest⟩
  | false, c :: d :: rest =>
      if c = LF then ⟨.success, done, d :: rest⟩
      else if c = CR then
        if d = LF then ⟨.success, done, rest⟩ else ⟨.badRequestVersion, s, rest⟩
      else ⟨.badRequestVersion, s, d :: rest⟩
  | _, _ => ⟨.badRequestVersion, s, w⟩

/-- The octets a version and what follows it take. -/
def versionLength (clientMode : Bool) : Nat := if clientMode then 9 else 10

def versionOn (clientMode : Bool) : StreamParser (Scratch ρ) := fun s u =>
  let v := u.dropWhile isSpace
  if v.length < versionLength clientMode then ⟨.again, s, v⟩
  else
    match versionMatch v with
    | none => ⟨.badRequestVersion, s, v⟩
    | some version => versionEnd clientMode s version (v.drop 8)

theorem isPrefixOf_append_of_le (literal : List Octet) {v : List Octet} (h : literal.length ≤ v.length)
    (more : List Octet) : literal.isPrefixOf (v ++ more) = literal.isPrefixOf v := by
  rw [Bool.eq_iff_iff, List.isPrefixOf_iff_prefix, List.isPrefixOf_iff_prefix]
  exact ⟨fun long => List.prefix_of_prefix_length_le long (List.prefix_append v more) h,
    List.prefix_append_of_prefix⟩

theorem versionMatch_append {v : List Octet} (h : 8 ≤ v.length) (more : List Octet) :
    versionMatch (v ++ more) = versionMatch v := by
  simp only [versionMatch, isPrefixOf_append_of_le (octets "HTTP/1.1") h,
    isPrefixOf_append_of_le (octets "HTTP/1.0") h]

/-- Once enough octets are there, what follows a version does not depend on more. -/
theorem versionEnd_append (clientMode : Bool) (s : Scratch ρ) (version : Nat) {w : List Octet}
    (enough : versionLength clientMode ≤ w.length + 8) :
    (versionEnd clientMode s version w).code ≠ .again ∧
      (versionEnd clientMode s version w).input <:+ w ∧
      ∀ more, versionEnd clientMode s version (w ++ more) =
        (versionEnd clientMode s version w).extend more := by
  match clientMode, w, enough with
  | true, [], enough => simp [versionLength] at enough
  | false, [], enough => simp [versionLength] at enough
  | false, [_], enough => simp [versionLength] at enough
  | true, c :: rest, _ =>
      simp only [List.cons_append, versionEnd]
      split_ifs <;> exact ⟨by simp, List.suffix_cons c rest, fun _ => rfl⟩
  | false, c :: d :: rest, _ =>
      have one := List.suffix_cons c (d :: rest)
      have two := (List.suffix_cons d rest).trans one
      simp only [List.cons_append, versionEnd]
      split_ifs <;> first
        | exact ⟨by simp, one, fun _ => rfl⟩
        | exact ⟨by simp, two, fun _ => rfl⟩

theorem versionOn_resumesAt (clientMode : Bool) (s : Scratch ρ) (u : List Octet) :
    ResumesAt .again anyCut (versionOn clientMode) (versionOn clientMode) s u := by
  have left := List.dropWhile_suffix (l := u) isSpace
  by_cases short : (u.dropWhile isSpace).length < versionLength clientMode
  · have now : versionOn clientMode s u = ⟨.again, s, u.dropWhile isSpace⟩ := by
      simp only [versionOn, short, if_true]
    refine ⟨by rw [now]; exact left, fun more done => absurd (by rw [now]) done,
      fun more _ _ => ?_⟩
    rw [now]
    simp only [versionOn, dropWhile_dropWhile_append]
  · have long : 8 ≤ (u.dropWhile isSpace).length := by
      have : 8 ≤ versionLength clientMode := by cases clientMode <;> simp [versionLength]
      omega
    have nonempty : (u.dropWhile isSpace).isEmpty = false := by
      cases h : u.dropWhile isSpace <;> simp_all
    have skipped : ∀ more, (u ++ more).dropWhile isSpace = u.dropWhile isSpace ++ more := by
      intro more; rw [List.dropWhile_append, nonempty]; simp
    have now : ∀ more, versionOn clientMode s (u ++ more) =
        match versionMatch (u.dropWhile isSpace) with
        | none => ⟨.badRequestVersion, s, u.dropWhile isSpace ++ more⟩
        | some version => versionEnd clientMode s version ((u.dropWhile isSpace).drop 8 ++ more) := by
      intro more
      have : ¬ (u.dropWhile isSpace ++ more).length < versionLength clientMode := by
        rw [List.length_append]; omega
      simp only [versionOn, skipped, this, if_false, versionMatch_append long,
        List.drop_append_of_le_length long]
    cases matched : versionMatch (u.dropWhile isSpace) with
    | none =>
        simp only [matched] at now
        exact .of_final left (by decide) now
    | some version =>
        have enough : versionLength clientMode ≤ ((u.dropWhile isSpace).drop 8).length + 8 := by
          rw [List.length_drop]; omega
        obtain ⟨final, suffix, same⟩ := versionEnd_append clientMode s version enough
        simp only [matched, same] at now
        exact .of_final ((suffix.trans (List.drop_suffix 8 _)).trans left) final now

theorem versionOn_waits (clientMode : Bool) (s : Scratch ρ) (u : List Octet) :
    Waits .again Lookahead (versionOn clientMode) s u := by
  have length : versionLength clientMode ≤ 10 := by cases clientMode <;> simp [versionLength]
  unfold Waits
  by_cases short : (u.dropWhile isSpace).length < versionLength clientMode
  · simp only [versionOn, short, if_true]
    exact fun _ => .inl (Nat.lt_of_lt_of_le short length)
  · simp only [versionOn, short, if_false]
    cases versionMatch (u.dropWhile isSpace) with
    | none => simp
    | some version =>
        have enough : versionLength clientMode ≤ ((u.dropWhile isSpace).drop 8).length + 8 := by
          rw [List.length_drop]; omega
        exact fun wants => absurd wants (versionEnd_append clientMode s version enough).1

/-- The end of `parseVersion` on a buffer that stands behind the version. -/
theorem versionEnd_reads (clientMode : Bool) (s : Scratch ρ) (version : Nat) {b : Buffer}
    (wf : b.WF) (enough : versionLength clientMode ≤ b.unread.length + 8) {w : List Octet}
    (h : b.unread = w) :
    Reads b
      (let done := { s with message := { s.message with httpVersion := version } }
      if clientMode then
        if isSpace b.peekNext then ⟨.success, done, b.skipNext⟩
        else ⟨.badRequestVersion, s, b.skipNext⟩
      else if b.peekNext = LF then ⟨.success, done, b.skipNext⟩
      else if b.peekNext = CR then
        if b.skipNext.peekNext = LF then ⟨.success, done, b.skipNext.skipNext⟩
        else ⟨.badRequestVersion, s, b.skipNext.skipNext⟩
      else ⟨.badRequestVersion, s, b.skipNext⟩)
      (versionEnd clientMode s version w) := by
  have wf' := Buffer.skipNext_wf wf
  have same := SameOctets.skipNext b
  rw [h] at enough
  match clientMode, w, enough, h with
  | true, [], enough, _ => simp [versionLength] at enough
  | false, [], enough, _ => simp [versionLength] at enough
  | false, [_], enough, _ => simp [versionLength] at enough
  | true, c :: rest, _, h =>
      have tail := Buffer.skipNext_unread_cons wf h
      simp only [versionEnd, Buffer.peekNext_of_unread wf h, if_true]
      split_ifs <;> exact .leaving tail wf' same
  | false, c :: d :: rest, _, h =>
      have tail := Buffer.skipNext_unread_cons wf h
      have tail' := Buffer.skipNext_unread_cons wf' tail
      have wf'' := Buffer.skipNext_wf wf'
      have same' := same.trans (SameOctets.skipNext b.skipNext)
      simp only [versionEnd, Buffer.peekNext_of_unread wf h, Buffer.peekNext_of_unread wf' tail,
        Bool.false_eq_true, if_false]
      split_ifs <;> first
        | exact .leaving tail wf' same
        | exact .leaving tail' wf'' same'

theorem parseVersion_mirrors (clientMode : Bool) :
    MirrorsPlainly (fun _ => True) (parseVersion (ρ := ρ) clientMode) (versionOn clientMode) := by
  intro s b _ wf _
  refine ⟨?_, fun _ h => h.elim⟩
  obtain ⟨unread, wf', same⟩ := SkipSpaces_spec wf
  have length := Buffer.unread_length wf'
  rw [unread] at length
  have lengths : versionLength clientMode = if clientMode then 9 else 10 := rfl
  simp only [parseVersion, versionOn, ← length, lengths]
  by_cases short : (b.unread.dropWhile isSpace).length < if clientMode = true then 9 else 10
  · rw [if_pos short, if_pos short]
    exact .leaving unread wf' same
  · rw [if_neg short, if_neg short]
    have long : 8 ≤ (b.unread.dropWhile isSpace).length := by
      have : 8 ≤ if clientMode = true then 9 else 10 := by split <;> omega
      omega
    have matches11 : IsMatch (SkipSpaces b) "HTTP/1.1" =
        (octets "HTTP/1.1").isPrefixOf (b.unread.dropWhile isSpace) := by
      rw [IsMatch, isMatchFrom_eq wf' (by rw [unread]; exact long), unread]
    have matches10 : IsMatch (SkipSpaces b) "HTTP/1.0" =
        (octets "HTTP/1.0").isPrefixOf (b.unread.dropWhile isSpace) := by
      rw [IsMatch, isMatchFrom_eq wf' (by rw [unread]; exact long), unread]
    rw [matches11, matches10, ← versionMatch]
    cases matched : versionMatch (b.unread.dropWhile isSpace) with
    | none => exact .leaving unread wf' same
    | some version =>
        have enough : 8 ≤ (SkipSpaces b).readable := by rw [← length]; exact long
        have behind := Buffer.skip_unread wf' enough
        rw [unread] at behind
        have wf8 := Buffer.skip_wf wf' 8
        have same8 := same.trans (SameOctets.skip (SkipSpaces b) 8)
        have enoughBehind : versionLength clientMode ≤
            ((b.unread.dropWhile isSpace).drop 8).length + 8 := by
          rw [List.length_drop, lengths]; omega
        rw [← behind] at enoughBehind
        exact (versionEnd_reads clientMode s version wf8 enoughBehind behind).of_same same8

end Everscale.HttpMessageParser
