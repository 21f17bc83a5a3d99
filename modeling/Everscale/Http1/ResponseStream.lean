/-
# Everscale.Http1.ResponseStream -- status lines over the unread octets

The list version of the status line parser.  None of its elements goes back to the
read mark, so no state needs it, and every cut is harmless.
-/
import Everscale.Http1.HeaderStream
import Everscale.Http1.ResponseParser

namespace Everscale.HttpResponseParser

set_option autoImplicit false

open Theory HttpUtil
open HttpMessageParser (versionOn versionOn_resumesAt parseVersion_mirrors foldedOn
  foldedOn_resumesAt foldedOn_waits foldedText_reads versionOn_waits Lookahead dropWhile_dropWhile_append StartLineStream)

/-! ## Status codes -/

/-- What `parseStatusCode` does with the four octets behind the spaces. -/
def digitsOn (s : Scratch StatusLine) :
    List Octet → Outcome Error (Scratch StatusLine) (List Octet)
  | c0 :: c1 :: c2 :: c3 :: rest =>
      if !isDigit c0 then ⟨.badStatusCode, s, c1 :: c2 :: c3 :: rest⟩
      else if !isDigit c1 then ⟨.badStatusCode, s, c2 :: c3 :: rest⟩
      else if !isDigit c2 then ⟨.badStatusCode, s, c3 :: rest⟩
      else if !isSpace c3 then ⟨.badStatusCode, s, rest⟩
      else
        let statusCode := ((c0.toNat - 48) * 10 + (c1.toNat - 48)) * 10 + (c2.toNat - 48)
        ⟨.success,
          { s with message := { s.message with
              startLine := { s.message.startLine with statusCode } } },
          rest⟩
  | w => ⟨.again, s, w⟩

def statusCodeOn : StreamParser (Scratch StatusLine) := fun s u => digitsOn s (u.dropWhile isSpace)

theorem digitsOn_short (s : Scratch StatusLine) {w : List Octet} (h : w.length < 4) :
    digitsOn s w = ⟨.again, s, w⟩ := by
  match w, h with
  | [], _ | [_], _ | [_, _], _ | [_, _, _], _ => rfl
  | _ :: _ :: _ :: _ :: _, h => simp at h; omega

theorem digitsOn_append (s : Scratch StatusLine) {w : List Octet} (h : ¬ w.length < 4) :
    (digitsOn s w).code ≠ .again ∧ (digitsOn s w).input <:+ w ∧
      ∀ more, digitsOn s (w ++ more) = (digitsOn s w).extend more := by
  match w, h with
  | [], h | [_], h | [_, _], h | [_, _, _], h => simp at h
  | c0 :: c1 :: c2 :: c3 :: rest, _ =>
      have one := List.suffix_cons c0 (c1 :: c2 :: c3 :: rest)
      have two := (List.suffix_cons c1 (c2 :: c3 :: rest)).trans one
      have three := (List.suffix_cons c2 (c3 :: rest)).trans two
      have four := (List.suffix_cons c3 rest).trans three
      simp only [List.cons_append, digitsOn]
      split_ifs <;> first
        | exact ⟨by simp, one, fun _ => rfl⟩
        | exact ⟨by simp, two, fun _ => rfl⟩
        | exact ⟨by simp, three, fun _ => rfl⟩
        | exact ⟨by simp, four, fun _ => rfl⟩

theorem statusCodeOn_resumesAt (s : Scratch StatusLine) (u : List Octet) :
    ResumesAt .again anyCut statusCodeOn statusCodeOn s u := by
  have left := List.dropWhile_suffix (l := u) isSpace
  by_cases short : (u.dropWhile isSpace).length < 4
  · have now : statusCodeOn s u = ⟨.again, s, u.dropWhile isSpace⟩ := digitsOn_short s short
    refine ⟨by rw [now]; exact left, fun more done => absurd (by rw [now]) done,
      fun more _ _ => ?_⟩
    rw [now]
    simp only [statusCodeOn, dropWhile_dropWhile_append]
  · obtain ⟨final, suffix, same⟩ := digitsOn_append s short
    have skipped : ∀ more, (u ++ more).dropWhile isSpace = u.dropWhile isSpace ++ more := by
      intro more
      rw [List.dropWhile_append]
      cases h : u.dropWhile isSpace with
      | nil => simp [h] at short
      | cons c rest => simp
    have done : ∀ more, statusCodeOn s (u ++ more) =
        ⟨(digitsOn s (u.dropWhile isSpace)).code, (digitsOn s (u.dropWhile isSpace)).state,
          (digitsOn s (u.dropWhile isSpace)).input ++ more⟩ := fun more => by
      rw [statusCodeOn, skipped, same]; rfl
    exact .of_final (suffix.trans left) final done

theorem parseStatusCode_mirrors :
    MirrorsPlainly (fun _ => True) parseStatusCode statusCodeOn := by
  intro s b _ wf _
  refine ⟨?_, fun _ h => h.elim⟩
  obtain ⟨left, wf0, same⟩ := SkipSpaces_spec wf
  have length := Buffer.unread_length wf0
  rw [left] at length
  simp only [parseStatusCode, statusCodeOn, ← length]
  by_cases short : (b.unread.dropWhile isSpace).length < 4
  · rw [if_pos short, digitsOn_short s short]
    exact .leaving left wf0 same
  · rw [if_neg short]
    match octets : b.unread.dropWhile isSpace, short with
    | [], short | [_], short | [_, _], short | [_, _, _], short => simp at short
    | c0 :: c1 :: c2 :: c3 :: rest, _ =>
        rw [octets] at left
        have wf1 := Buffer.skipNext_wf wf0
        have left1 := Buffer.skipNext_unread_cons wf0 left
        have wf2 := Buffer.skipNext_wf wf1
        have left2 := Buffer.skipNext_unread_cons wf1 left1
        have wf3 := Buffer.skipNext_wf wf2
        have left3 := Buffer.skipNext_unread_cons wf2 left2
        have wf4 := Buffer.skipNext_wf wf3
        have left4 := Buffer.skipNext_unread_cons wf3 left3
        have same1 := same.trans (SameOctets.skipNext _)
        have same2 := same1.trans (SameOctets.skipNext _)
        have same3 := same2.trans (SameOctets.skipNext _)
        have same4 := same3.trans (SameOctets.skipNext _)
        simp only [digitsOn, Buffer.peekNext_of_unread wf0 left, Buffer.peekNext_of_unread wf1 left1,
          Buffer.peekNext_of_unread wf2 left2, Buffer.peekNext_of_unread wf3 left3]
        split_ifs
        · exact .leaving left1 wf1 same1
        · exact .leaving left2 wf2 same2
        · exact .leaving left3 wf3 same3
        · exact .leaving left4 wf4 same4
        · exact .leaving left4 wf4 same4

/-! ## Reason phrases -/

def reasonPhraseOn : StreamParser (Scratch StatusLine) :=
  foldedOn isText saveReasonPhrase .badReasonPhrase

theorem parseReasonPhrase_mirrors :
    MirrorsPlainly (fun _ => True) parseReasonPhrase reasonPhraseOn :=
  fun s b _ wf _ =>
    ⟨foldedText_reads b.readable s b wf (by rw [Buffer.unread_length wf]), fun _ h => h.elim⟩

theorem reasonPhraseOn_resumesAt (s : Scratch StatusLine) (u : List Octet) :
    ResumesAt .again anyCut reasonPhraseOn reasonPhraseOn s u :=
  foldedOn_resumesAt (fun _ => by simp [saveReasonPhrase]) (by decide) s u

/-! ## The line -/

def onScratchOn (p : StreamParser (Scratch StatusLine)) : StreamParser StatusLineParse :=
  p.on (·.toScratch) fun s scratch => { s with toScratch := scratch }

def finishedOn : StreamParser StatusLineParse := fun s u => ⟨.success, s, u⟩

def lineFromReasonPhraseOn : StreamParser StatusLineParse := fun s u =>
  if s.sub = .reasonPhrase then
    stage .success (onScratchOn reasonPhraseOn) (enter .parseComplete) finishedOn s u
  else ⟨.invalidState, s, u⟩

def lineFromStatusCodeOn : StreamParser StatusLineParse := fun s u =>
  if s.sub = .statusCode then
    stage .success (onScratchOn statusCodeOn) (enter .reasonPhrase) lineFromReasonPhraseOn s u
  else lineFromReasonPhraseOn s u

def lineFromVersionOn : StreamParser StatusLineParse := fun s u =>
  if s.sub = .version then
    stage .success (onScratchOn (versionOn true)) (enter .statusCode) lineFromStatusCodeOn s u
  else lineFromStatusCodeOn s u

/-- `parseStartLine` over lists. -/
def parseStartLineOn : StreamParser StatusLineParse := fun s u =>
  if s.sub = .parseComplete then ⟨.invalidState, s, u⟩
  else if s.sub = .initial then lineFromVersionOn (enter .version s) u
  else lineFromVersionOn s u

theorem again_ne_success : Error.again ≠ .success := by decide

theorem onScratchOn_resumesAt {p : StreamParser (Scratch StatusLine)}
    (rules : ∀ s u, ResumesAt .again anyCut p p s u) (s : StatusLineParse) (u : List Octet) :
    ResumesAt .again anyCut (onScratchOn p) (onScratchOn p) s u :=
  on_resumesAt (fun s : StatusLineParse => s.toScratch)
    (fun s scratch => { s with toScratch := scratch }) (fun _ _ => rfl) (fun _ _ _ => rfl)
    (rules s.toScratch u)

theorem finishedOn_resumesAt (s : StatusLineParse) (u : List Octet) :
    ResumesAt .again anyCut parseStartLineOn finishedOn s u :=
  .of_final List.suffix_rfl (by decide) fun _ => rfl

theorem lineFromReasonPhraseOn_resumesAt (s : StatusLineParse) (u : List Octet)
    (h : s.sub = .reasonPhrase) :
    ResumesAt .again anyCut parseStartLineOn lineFromReasonPhraseOn s u := by
  refine .of_continue List.suffix_rfl (stage_resumesAt again_ne_success
    (onScratchOn_resumesAt reasonPhraseOn_resumesAt s u) (fun _ w _ => ?_)
    fun _ => finishedOn_resumesAt _ _) fun _ => if_pos h
  have parked : (onScratchOn reasonPhraseOn s u).state.sub = .reasonPhrase := h
  simp only [parseStartLineOn, lineFromVersionOn, lineFromStatusCodeOn, lineFromReasonPhraseOn,
    parked, reduceCtorEq, if_false, if_true]

theorem lineFromStatusCodeOn_resumesAt (s : StatusLineParse) (u : List Octet)
    (h : s.sub = .statusCode) :
    ResumesAt .again anyCut parseStartLineOn lineFromStatusCodeOn s u := by
  refine .of_continue List.suffix_rfl (stage_resumesAt again_ne_success
    (onScratchOn_resumesAt statusCodeOn_resumesAt s u) (fun _ w _ => ?_)
    fun _ => lineFromReasonPhraseOn_resumesAt _ _ rfl) fun _ => if_pos h
  have parked : (onScratchOn statusCodeOn s u).state.sub = .statusCode := h
  simp only [parseStartLineOn, lineFromVersionOn, lineFromStatusCodeOn, parked, reduceCtorEq,
    if_false, if_true]

theorem lineFromVersionOn_resumesAt (s : StatusLineParse) (u : List Octet) (h : s.sub = .version) :
    ResumesAt .again anyCut parseStartLineOn lineFromVersionOn s u := by
  refine .of_continue List.suffix_rfl (stage_resumesAt again_ne_success
    (onScratchOn_resumesAt (versionOn_resumesAt true) s u) (fun _ w _ => ?_)
    fun _ => lineFromStatusCodeOn_resumesAt _ _ rfl) fun _ => if_pos h
  have parked : (onScratchOn (versionOn true) s u).state.sub = .version := h
  simp only [parseStartLineOn, lineFromVersionOn, parked, reduceCtorEq, if_false, if_true]

/-- **A status line may be cut anywhere.** -/
theorem parseStartLineOn_resumesAt (s : StatusLineParse) (u : List Octet) :
    ResumesAt .again anyCut parseStartLineOn parseStartLineOn s u := by
  cases h : s.sub with
  | parseComplete =>
      have ended : ∀ w, parseStartLineOn s w = ⟨.invalidState, s, w⟩ := fun w => by
        simp only [parseStartLineOn, h, if_true]
      exact .of_final List.suffix_rfl (by decide) fun more => ended (u ++ more)
  | initial =>
      exact .of_continue List.suffix_rfl (lineFromVersionOn_resumesAt (enter .version s) u rfl)
        fun _ => by simp only [parseStartLineOn, h, reduceCtorEq, if_false, if_true]
  | version =>
      exact .of_continue List.suffix_rfl (lineFromVersionOn_resumesAt s u h)
        fun _ => by simp only [parseStartLineOn, h, reduceCtorEq, if_false]
  | statusCode =>
      exact .of_continue List.suffix_rfl (lineFromStatusCodeOn_resumesAt s u h)
        fun _ => by simp only [parseStartLineOn, lineFromVersionOn, h, reduceCtorEq, if_false]
  | reasonPhrase =>
      exact .of_continue List.suffix_rfl (lineFromReasonPhraseOn_resumesAt s u h)
        fun _ => by
          simp only [parseStartLineOn, lineFromVersionOn, lineFromStatusCodeOn, h, reduceCtorEq,
            if_false]

theorem onScratch_mirrors {here : StatusLineParse → Prop} {f : Reader (Scratch StatusLine)}
    {p : StreamParser (Scratch StatusLine)} (mirrors : MirrorsPlainly (fun _ => True) f p) :
    MirrorsPlainly here (onScratch f) (onScratchOn p) :=
  on_mirrors mirrors (fun _ _ => trivial) (fun _ _ h => h.elim) fun _ _ _ h => h

theorem lost_mirrors : MirrorsPlainly (σ := StatusLineParse) (fun _ => True)
    (fun s b => ⟨.invalidState, s, b⟩) (fun s u => ⟨.invalidState, s, u⟩) :=
  fun s _ _ wf _ => ⟨Reads.rest wf .invalidState s, fun _ h => h.elim⟩

theorem finished_mirrors : MirrorsPlainly (fun _ => True) finished finishedOn :=
  fun s _ _ wf _ => ⟨Reads.rest wf .success s, fun _ h => h.elim⟩

theorem lineFromReasonPhrase_mirrors :
    MirrorsPlainly (fun _ => True) lineFromReasonPhrase lineFromReasonPhraseOn := by
  intro s b _ wf marked
  by_cases h : s.sub = .reasonPhrase
  · have element : MirrorsPlainly (fun _ => True) (onScratch parseReasonPhrase)
        (onScratchOn reasonPhraseOn) := onScratch_mirrors parseReasonPhrase_mirrors
    simpa only [lineFromReasonPhrase, lineFromReasonPhraseOn, h, if_true] using
      stage_mirrors element (fun _ _ _ _ => trivial) finished_mirrors s b trivial wf marked
  · simpa only [lineFromReasonPhrase, lineFromReasonPhraseOn, h, if_false] using
      lost_mirrors s b trivial wf marked

theorem lineFromStatusCode_mirrors :
    MirrorsPlainly (fun _ => True) lineFromStatusCode lineFromStatusCodeOn :=
  turn_mirrors (onScratch_mirrors parseStatusCode_mirrors) lineFromReasonPhrase_mirrors

theorem lineFromVersion_mirrors :
    MirrorsPlainly (fun _ => True) lineFromVersion lineFromVersionOn :=
  turn_mirrors (onScratch_mirrors (parseVersion_mirrors true)) lineFromStatusCode_mirrors

theorem parseStartLine_mirrors :
    MirrorsPlainly (fun _ => True) parseStartLine parseStartLineOn := by
  intro s b _ wf marked
  by_cases complete : s.sub = .parseComplete
  · simpa only [parseStartLine, parseStartLineOn, complete, if_true] using
      lost_mirrors s b trivial wf marked
  · by_cases initial : s.sub = .initial
    · simpa only [parseStartLine, parseStartLineOn, initial, reduceCtorEq, if_false, if_true] using
        lineFromVersion_mirrors.afterMark (enter .version s) b trivial wf fun h => h.elim
    · simpa only [parseStartLine, parseStartLineOn, complete, initial, if_false] using
        lineFromVersion_mirrors s b trivial wf marked

theorem statusCodeOn_waits (s : Scratch StatusLine) (u : List Octet) :
    Waits .again Lookahead statusCodeOn s u := by
  by_cases short : (u.dropWhile isSpace).length < 4
  · intro _
    rw [statusCodeOn, digitsOn_short s short]
    exact .inl (Nat.lt_trans short (by decide))
  · exact fun wants => absurd wants (digitsOn_append s short).1

theorem parseStartLineOn_waits (s : StatusLineParse) (u : List Octet) :
    Waits .again Lookahead parseStartLineOn s u := by
  have reasonPhrase : ∀ s u, Waits .again Lookahead lineFromReasonPhraseOn s u := fun s u => by
    unfold Waits lineFromReasonPhraseOn
    split
    · exact stage_waits (foldedOn_waits (fun _ => by simp [saveReasonPhrase]) (by decide) s.toScratch u)
        fun _ wants => nomatch wants
    · exact fun wants => nomatch wants
  have statusCode : ∀ s u, Waits .again Lookahead lineFromStatusCodeOn s u := fun s u => by
    unfold Waits lineFromStatusCodeOn
    split
    · exact stage_waits (statusCodeOn_waits s.toScratch u) fun _ => reasonPhrase _ _
    · exact reasonPhrase s u
  have version : ∀ s u, Waits .again Lookahead lineFromVersionOn s u := fun s u => by
    unfold Waits lineFromVersionOn
    split
    · exact stage_waits (versionOn_waits true s.toScratch u) fun _ => statusCode _ _
    · exact statusCode s u
  unfold Waits parseStartLineOn
  split
  · exact fun wants => nomatch wants
  · split <;> exact version _ u

/-- Status lines as the header parser takes them. -/
def stream : StartLineStream methods where
  parseStartLineOn := parseStartLineOn
  needs := fun _ => False
  mirrors := parseStartLine_mirrors
  resumes := parseStartLineOn_resumesAt
  waits := parseStartLineOn_waits

end Everscale.HttpResponseParser
