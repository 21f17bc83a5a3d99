/-
# Everscale.Http1.RequestTarget -- the target of a request line

The second word of a request line is its target (`target`).  `accepted_target` says what an accepted
request has of it, however the head was cut: of an opaque target a copy without the white space at its
end, and of any other target that it was made of visible octets.
-/
import Everscale.Http1.FormattedHead
import Everscale.Http1.Scheme

namespace Everscale

set_option autoImplicit false

open Theory HttpUtil

namespace HttpRequestUriParser

/-! ## Targets that are not opaque -/

/-- Visible octets, up to a space. -/
def EndsVisibly (u : List Octet) : Prop :=
  ∃ word space rest, u = word ++ space :: rest ∧ word.all isVisible = true ∧ isSpace space = true

/-- From this state the parser comes to the end of a target, other than an opaque one, over visible octets
only, and keeps no opaque target. -/
def EndsAt (f : StreamParser HttpRequestUriParser) (s : HttpRequestUriParser) : Prop :=
  ∀ u, (f s u).code = .success → (f s u).state.requestUri.type ≠ .other →
    EndsVisibly u ∧ (f s u).state.requestUri.other = s.requestUri.other

/-- What an octet may do for that. -/
def ActEnds (after : StreamParser HttpRequestUriParser) (s : HttpRequestUriParser) (c : Octet) :
    Act Error HttpRequestUriParser → Prop
  | .keep s' => isVisible c = true ∧ s'.requestUri.other = s.requestUri.other
  | .stop e _ => e ≠ .success
  | .jump s' => s'.requestUri.other = s.requestUri.other ∧
      (isVisible c = true ∧ EndsAt after s' ∨ isSpace c = true ∧ ∀ rest, after s' rest = ⟨.success, s', rest⟩)
  | .back s' => s'.requestUri.other = s.requestUri.other ∧ EndsAt after s'

theorem ActEnds.refused {after : StreamParser HttpRequestUriParser} {s s' : HttpRequestUriParser} {c : Octet}
    {e : Error} (fails : e ≠ .success) : ActEnds after s c (.stop e s') := fails

theorem EndsVisibly.cons {c : Octet} {u : List Octet} (visible : isVisible c = true) (h : EndsVisibly u) :
    EndsVisibly (c :: u) := by
  obtain ⟨word, space, rest, rfl, all, ends⟩ := h
  exact ⟨c :: word, space, rest, rfl, by rw [List.all_cons, visible, all]; rfl, ends⟩

section scan

variable {guard : HttpRequestUriParser → Option Error}
  {act : HttpRequestUriParser → Octet → Act Error HttpRequestUriParser}
  {after : StreamParser HttpRequestUriParser}

theorem scan_endsAt (refuses : ∀ s, guard s ≠ some .success) (acts : ∀ s c, ActEnds after s c (act s c))
    (s : HttpRequestUriParser) : EndsAt (scan .again guard act after) s := by
  intro u
  induction u generalizing s with
  | nil => rintro ⟨⟩
  | cons c rest ih =>
      intro success plain
      have acted := acts s c
      rw [scan] at success plain ⊢
      cases refused : guard s with
      | some e =>
          rw [refused] at success
          exact absurd (refused.trans (congrArg some success)) (refuses s)
      | none =>
          rw [refused] at success plain
          dsimp only at success plain ⊢
          cases turn : act s c with
          | keep s' =>
              rw [turn] at acted success plain
              obtain ⟨ends, other⟩ := ih s' success plain
              exact ⟨ends.cons acted.1, other.trans acted.2⟩
          | stop e s' =>
              rw [turn] at acted success
              exact absurd success acted
          | jump s' =>
              rw [turn] at acted success plain
              obtain ⟨same, ⟨visible, later⟩ | ⟨space, done⟩⟩ := acted
              · obtain ⟨ends, other⟩ := later rest success plain
                exact ⟨ends.cons visible, other.trans same⟩
              · dsimp only
                rw [done]
                exact ⟨⟨[], c, rest, rfl, rfl, space⟩, same⟩
          | back s' =>
              rw [turn] at acted success plain
              obtain ⟨ends, other⟩ := acted.2 _ success plain
              exact ⟨ends, other.trans acted.1⟩

end scan

theorem workingFull_refuses (s : HttpRequestUriParser) : s.workingFull ≠ some .success := by
  rw [workingFull]
  split_ifs <;> simp

theorem fragmentOn_endsAt (s : HttpRequestUriParser) : EndsAt fragmentOn s := by
  refine scan_endsAt workingFull_refuses (fun s c => ?_) s
  rw [fragmentOctet]
  split_ifs with uric space
  · exact ⟨uric_visible uric, rfl⟩
  · exact ⟨rfl, .inr ⟨space, fun _ => rfl⟩⟩
  · exact .refused (by decide)

theorem queryOn_endsAt (s : HttpRequestUriParser) : EndsAt queryOn s := by
  refine scan_endsAt workingFull_refuses (fun s c => ?_) s
  rw [queryOctet]
  dsimp only
  split_ifs with uric hash space
  · exact ⟨uric_visible uric, rfl⟩
  · exact ⟨rfl, .inl ⟨by rw [hash]; decide, fragmentOn_endsAt _⟩⟩
  · exact ⟨rfl, .inr ⟨space, fun _ => rfl⟩⟩
  · exact .refused (by decide)

theorem absPathOn_endsAt (s : HttpRequestUriParser) : EndsAt absPathOn s := by
  refine scan_endsAt workingFull_refuses (fun s c => ?_) s
  rw [absPathOctet]
  dsimp only
  split_ifs with first slash pchar other mark hash space
  · exact ⟨by rw [slash]; decide, rfl⟩
  · exact .refused (by decide)
  · exact ⟨pchar_visible pchar, rfl⟩
  · exact ⟨by rcases other with rfl | rfl <;> decide, rfl⟩
  · exact ⟨rfl, .inl ⟨by rw [mark]; decide, queryOn_endsAt _⟩⟩
  · exact ⟨rfl, .inl ⟨by rw [hash]; decide, fragmentOn_endsAt _⟩⟩
  · exact ⟨rfl, .inr ⟨space, fun _ => rfl⟩⟩
  · exact .refused (by decide)

theorem digit_visible {c : Octet} (h : isDigit c = true) : isVisible c = true := by
  refine alphaNum_visible ?_
  have nest := classes_nest c
  simp only [isDigit, isAlphaNum, inClass] at h ⊢
  simp only [classesNest, h] at nest
  grind

theorem portOn_endsAt (s : HttpRequestUriParser) : EndsAt portOn s := by
  refine scan_endsAt (fun _ => show none ≠ some Error.success by decide) (fun s c => ?_) s
  rw [portOctet]
  dsimp only
  by_cases digit : isDigit c = true
  · rw [if_pos digit]
    generalize (if s.requestUri.port < 0 then 0 else s.requestUri.port) * 10 + ((c.toNat - 48 : Nat) : Int) = port
    split_ifs
    · exact .refused (by decide)
    · exact ⟨digit_visible digit, rfl⟩
  rw [if_neg digit]
  split_ifs with none space slash mark hash
  · exact .refused (by decide)
  · exact ⟨rfl, .inr ⟨space, fun _ => rfl⟩⟩
  · exact ⟨rfl, absPathOn_endsAt _⟩
  · exact ⟨rfl, .inl ⟨by rw [mark]; decide, queryOn_endsAt _⟩⟩
  · exact ⟨rfl, .inl ⟨by rw [hash]; decide, fragmentOn_endsAt _⟩⟩
  · exact .refused (by decide)

theorem hostOn_endsAt (s : HttpRequestUriParser) : EndsAt hostOn s := by
  refine scan_endsAt workingFull_refuses (fun s c => ?_) s
  rw [hostOctet]
  dsimp only
  split_ifs with first letter letter other colon space slash mark hash
  · exact ⟨alphaNum_visible letter, rfl⟩
  · exact .refused (by decide)
  · exact ⟨alphaNum_visible letter, rfl⟩
  · exact ⟨by rcases other with rfl | rfl <;> decide, rfl⟩
  · exact ⟨rfl, .inl ⟨by rw [colon]; decide, portOn_endsAt _⟩⟩
  · exact ⟨rfl, .inr ⟨by rcases space with rfl | rfl <;> decide, fun _ => rfl⟩⟩
  · exact ⟨rfl, absPathOn_endsAt _⟩
  · exact ⟨rfl, .inl ⟨by rw [mark]; decide, queryOn_endsAt _⟩⟩
  · exact ⟨rfl, .inl ⟨by rw [hash]; decide, fragmentOn_endsAt _⟩⟩
  · exact .refused (by decide)

theorem forwardSlashesOn_endsAt (s : HttpRequestUriParser) : EndsAt forwardSlashesOn s := by
  intro u success plain
  rw [forwardSlashesOn] at success plain ⊢
  split_ifs at success plain ⊢ with blank
  obtain ⟨⟨word, space, rest, behind, all, ends⟩, other⟩ := hostOn_endsAt _ _ success plain
  refine ⟨⟨u.takeWhile (· = octet '/') ++ word, space, rest, ?_, ?_, ends⟩, other⟩
  · rw [List.append_assoc, ← behind, List.takeWhile_append_dropWhile]
  · have slashes : (u.takeWhile (· = octet '/')).all isVisible = true := by
      refine List.all_eq_true.mpr fun c inside => ?_
      have slash : c = octet '/' := by simpa using List.mem_takeWhile_imp inside
      rw [slash]
      decide
    rw [List.all_append, slashes, all]
    rfl

theorem afterSchemeOn_endsAt {s : HttpRequestUriParser} (known : s.state = .skippingFwdSlashes ∨ Behind .other s) :
    EndsAt afterSchemeOn s := by
  rcases known with state | behind
  · have same (u : List Octet) : afterSchemeOn s u = forwardSlashesOn s u := by rw [afterSchemeOn, state]
    intro u
    rw [same]
    exact forwardSlashesOn_endsAt s u
  · intro u _ plain
    exact absurd (afterSchemeOn_behind s u behind).type_eq plain

theorem schemeOn_endsAt (s : HttpRequestUriParser) : EndsAt schemeOn s := by
  refine scan_endsAt workingFull_refuses (fun s c => ?_) s
  rw [schemeOctet]
  split_ifs with first letter letter sign colon
  · exact ⟨alphaNum_visible (letter_alphaNum letter), rfl⟩
  · exact .refused (by decide)
  · exact ⟨alphaNum_visible letter, rfl⟩
  · exact ⟨by rcases sign with rfl | rfl | rfl <;> decide, rfl⟩
  · exact ⟨rfl, .inl ⟨by rw [colon]; decide, afterSchemeOn_endsAt (.inl rfl)⟩⟩
  · exact ⟨rfl, .inl ⟨by rw [colon]; decide, afterSchemeOn_endsAt (.inl rfl)⟩⟩
  · exact ⟨rfl, .inl ⟨by rw [colon]; decide, afterSchemeOn_endsAt (.inr ⟨rfl, by rintro ⟨⟩⟩)⟩⟩
  · exact .refused (by decide)

theorem asteriskOn_endsAt (s : HttpRequestUriParser) : EndsAt asteriskOn s := by
  intro u success _
  rcases u with _ | ⟨star, _ | ⟨space, rest⟩⟩
  · cases success
  · rw [asteriskOn] at success
    split_ifs at success
  · rw [asteriskOn] at success ⊢
    dsimp only at success ⊢
    split_ifs at success ⊢ with other black
    rw [not_not] at other
    rw [Bool.not_eq_true', Bool.not_eq_false] at black
    exact ⟨⟨[star], space, rest, rfl, by rw [other]; decide, black⟩, rfl⟩

theorem asteriskOn_type {s : HttpRequestUriParser} {u : List Octet} (success : (asteriskOn s u).code = .success) :
    (asteriskOn s u).state.requestUri.type = .asterisk := by
  rcases u with _ | ⟨star, _ | ⟨space, rest⟩⟩
  · cases success
  · rw [asteriskOn] at success
    split_ifs at success
  · rw [asteriskOn] at success ⊢
    split_ifs at success ⊢
    rfl

/-! ## Opaque targets -/

/-- An opaque target is kept up to the next space, behind what has been gathered of it, without the white
space at its end. -/
def KeptWhole (held u : List Octet) (uri : HttpRequestUri) : Prop :=
  ∃ word space rest, u = word ++ space :: rest ∧ (∀ c ∈ word, isSpace c = false) ∧ isSpace space = true ∧
    uri.other = some ((held ++ word).rdropWhile Buffer.isTrimmed)

theorem KeptWhole.cons {held u : List Octet} {uri : HttpRequestUri} {c : Octet} (unspaced : isSpace c = false)
    (h : KeptWhole (held ++ [c]) u uri) : KeptWhole held (c :: u) uri := by
  obtain ⟨word, space, rest, rfl, all, ends, other⟩ := h
  refine ⟨c :: word, space, rest, rfl, ?_, ends, ?_⟩
  · rintro d (_ | ⟨_, inside⟩)
    · exact unspaced
    · exact all d inside
  · rw [other, List.append_assoc]
    rfl

section kept

variable {s : HttpRequestUriParser} {held : List Octet}

theorem workingFull_full (holds : Holds s.working held 0) (full : ¬ held.length < s.working.capacity) :
    s.workingFull = some .overflow := by rw [workingFull, if_neg (mt holds.isWritable.mp full)]

theorem nonHttpUriOn_kept (u : List Octet) (holds : Holds s.working held 0)
    (success : (nonHttpUriOn s u).code = .success) : KeptWhole held u (nonHttpUriOn s u).state.requestUri := by
  induction u generalizing s held with
  | nil => cases success
  | cons c rest ih =>
      rw [nonHttpUriOn, scan] at success ⊢
      by_cases room : held.length < s.working.capacity
      · rw [workingFull_room holds room] at success ⊢
        dsimp only at success ⊢
        rw [nonHttpUriOctet] at success ⊢
        by_cases space : isSpace c = true
        · rw [if_pos space]
          exact ⟨[], c, rest, rfl, by simp, space, by rw [List.append_nil]; exact congrArg some holds.duplicate⟩
        · rw [if_neg space] at success ⊢
          exact .cons (Bool.eq_false_iff.mpr space) (ih (holds.putNext room c).1 success)
      · rw [workingFull_full holds room] at success
        cases success

theorem schemeOn_kept (u : List Octet) (holds : Holds s.working held 0) (success : (schemeOn s u).code = .success)
    (kind : (schemeOn s u).state.requestUri.type = .other) : KeptWhole held u (schemeOn s u).state.requestUri := by
  induction u generalizing s held with
  | nil => cases success
  | cons c rest ih =>
      rw [schemeOn, scan] at success kind ⊢
      by_cases room : held.length < s.working.capacity
      · have later (unspaced : isSpace c = false) (success : (schemeOn (s.put c) rest).code = .success)
            (kind : (schemeOn (s.put c) rest).state.requestUri.type = .other) :
            KeptWhole held (c :: rest) (schemeOn (s.put c) rest).state.requestUri :=
          .cons unspaced (ih (holds.putNext room c).1 success kind)
        rw [workingFull_room holds room] at success kind ⊢
        dsimp only at success kind ⊢
        rw [schemeOctet] at success kind ⊢
        split_ifs at success kind ⊢ with first letter letter sign colon http https
        · exact later (visible_ne (alphaNum_visible (letter_alphaNum letter))).2.2.2 success kind
        · exact later (visible_ne (alphaNum_visible letter)).2.2.2 success kind
        · exact later (by rcases sign with rfl | rfl | rfl <;> decide) success kind
        · cases (afterSchemeOn_behind _ rest ⟨rfl, by rintro ⟨⟩⟩).type_eq.symm.trans kind
        · cases (afterSchemeOn_behind _ rest ⟨rfl, by rintro ⟨⟩⟩).type_eq.symm.trans kind
        · exact .cons (by rw [colon]; decide) (nonHttpUriOn_kept rest (holds.putNext room c).1 success)
      · rw [workingFull_full holds room] at success
        cases success

end kept

/-! ## Targets -/

/-- What the request has of a target: all of an opaque one, but for white space at its end; any other was
made of visible octets. -/
def Keeps (uri : HttpRequestUri) (word : List Octet) : Prop :=
  (uri.type = .other → uri.other = some (word.rdropWhile Buffer.isTrimmed)) ∧
    (uri.type ≠ .other → word.all isVisible = true ∧ uri.other = none)

theorem parseOn_keeps {s : HttpRequestUriParser} (initial : s.state = .initial) (plain : s.requestUri.type ≠ .other)
    (none' : s.requestUri.other = none) (holds : Holds s.working [] 0) (u : List Octet)
    (success : (parseOn s u).code = .success) :
    ∃ word space rest, u.dropWhile isSpace = word ++ space :: rest ∧ (∀ c ∈ word, isSpace c = false) ∧
      isSpace space = true ∧ Keeps (parseOn s u).state.requestUri word := by
  have visible {f : StreamParser HttpRequestUriParser} {v : List Octet} {state : UriStage}
      (ends : EndsAt f { s with state }) (success : (f { s with state } v).code = .success)
      (plain : (f { s with state } v).state.requestUri.type ≠ .other) :
      ∃ word space rest, v = word ++ space :: rest ∧ (∀ c ∈ word, isSpace c = false) ∧ isSpace space = true ∧
        Keeps (f { s with state } v).state.requestUri word := by
    obtain ⟨⟨word, space, rest, read, all, space'⟩, other⟩ := ends v success plain
    exact ⟨word, space, rest, read, fun c inside => (visible_ne (List.all_eq_true.mp all c inside)).2.2.2, space',
      fun kind => absurd kind plain, fun _ => ⟨all, other.trans none'⟩⟩
  rw [parseOn, if_neg (by rw [initial]; decide), if_pos initial] at success ⊢
  dsimp only at success ⊢
  split_ifs at success ⊢ with blank
  generalize u.dropWhile isSpace = v at success ⊢
  have kind : kindOn v = .asterisk ∨ kindOn v = .absPath ∨ kindOn v = .scheme := by
    rw [kindOn, kindOf]
    split_ifs <;> simp
  rw [componentOn] at success ⊢
  rcases kind with kind | kind | kind <;> rw [kind] at success ⊢ <;> dsimp only at success ⊢
  · exact visible (asteriskOn_endsAt _) success (by rw [asteriskOn_type success]; decide)
  · exact visible (absPathOn_endsAt _) success (ne_of_eq_of_ne (absPathOn_behind _ v ⟨rfl, by rintro ⟨⟩⟩).type_eq plain)
  · by_cases other : (schemeOn { s with state := .scheme } v).state.requestUri.type = .other
    · obtain ⟨word, space, rest, read, unspaced, ends, kept⟩ :=
        schemeOn_kept (s := { s with state := .scheme }) v holds success other
      exact ⟨word, space, rest, read, unspaced, ends, fun _ => kept, fun plain => absurd other plain⟩
    · exact visible (schemeOn_endsAt _) success other

end HttpRequestUriParser

/-! ## Heads -/

namespace HttpMessageParser

variable {χ ρ : Type} {methods : StartLineMethods χ ρ} (stream : StartLineStream methods)

/-- The parser after some calls that asked for more: all the octets that have arrived, and those of them
that are still unread.  A mark is where the parser needs it. -/
inductive Arrived (first : HttpMessageParser χ ρ) : HttpMessageParser χ ρ → List Octet → List Octet → Prop where
  | start : Arrived first first [] []
  | more {s u held piece b} : Arrived first s u held → b.WF → (HeaderNeeds stream s → Marked b) →
      b.unread = held ++ piece → (parseHeaders methods s b).code = .again →
      Arrived first (parseHeaders methods s b).state (u ++ piece) (parseHeaders methods s b).input.unread

/-- One more call has accepted the head that begins these octets. -/
inductive AcceptsOctets (first : HttpMessageParser χ ρ) : List Octet → HttpMessageParser χ ρ → Prop where
  | last {s u held piece b} : Arrived stream first s u held → b.WF → (HeaderNeeds stream s → Marked b) →
      b.unread = held ++ piece → (parseHeaders methods s b).code = .success →
      AcceptsOctets first (u ++ piece) (parseHeaders methods s b).state

variable {stream} {first s s' : HttpMessageParser χ ρ} {u held piece : List Octet}

theorem Arrived.parsing (arrived : Arrived stream first s u held) : Parsing methods first s := by
  induction arrived with
  | start => exact .start
  | more _ _ _ _ again ih => exact .more ih (Outcome.ext again rfl rfl)

theorem AcceptsOctets.accepts (accepts : AcceptsOctets stream first u s') : Accepts methods first s' := by
  obtain ⟨arrived, -, -, -, success⟩ := accepts
  exact ⟨_, _, _, arrived.parsing, Outcome.ext success rfl rfl⟩

/-- The first line as it is when all of it is there. -/
def wholeLine (stream : StartLineStream methods) (first : HttpMessageParser χ ρ) (u : List Octet) :
    Outcome Error (StartLineParse χ ρ) (List Octet) :=
  stream.parseStartLineOn (enter .startLine first).toStartLineParse u

/-- The first line has been read from the octets. -/
def LineCame (stream : StartLineStream methods) (first : HttpMessageParser χ ρ) (u : List Octet) (line : ρ) : Prop :=
  ∃ v more, u.dropWhile isLWS = v ++ more ∧ v ≠ [] ∧ (wholeLine stream first v).code = .success ∧
    (wholeLine stream first v).state.message.startLine = line

/-- Where the parser stands between two calls. -/
inductive HeadAt (stream : StartLineStream methods) (first : HttpMessageParser χ ρ) (s : HttpMessageParser χ ρ)
    (u held : List Octet) : Prop where
  | blank : s = first → u.dropWhile isLWS = [] → held = [] → HeadAt stream first s u held
  | line : s.stage = .startLine → u.dropWhile isLWS ≠ [] →
      (∀ more, stream.parseStartLineOn s.toStartLineParse (held ++ more) =
        wholeLine stream first (u.dropWhile isLWS ++ more)) → HeadAt stream first s u held
  | fields : s.stage = .fieldName ∨ s.stage = .fieldValue → LineCame stream first u s.message.startLine →
      HeadAt stream first s u held

/-- What a call comes to. -/
structure HeadCame (stream : StartLineStream methods) (first : HttpMessageParser χ ρ) (u : List Octet)
    (o : Outcome Error (HttpMessageParser χ ρ) Buffer) : Prop where
  again : o.code = .again → HeadAt stream first o.state u o.input.unread
  success : o.code = .success → LineCame stream first u o.state.message.startLine

theorem LineCame.append {line : ρ} (read : LineCame stream first u line) (more : List Octet) :
    LineCame stream first (u ++ more) line := by
  obtain ⟨v, rest, shape, some, success, same⟩ := read
  refine ⟨v, rest ++ more, ?_, some, success, same⟩
  rw [dropWhile_append_of_some (by rw [shape]; simp [some]), shape, List.append_assoc]

section came

variable {I : StartLineParse χ ρ → Prop} {K : ρ → Prop} {b : Buffer}

/-- The headers leave the first line alone. -/
theorem parseFields_came (fuel : Nat) (h : TextKnown I K s) (fields : s.stage = .fieldName ∨ s.stage = .fieldValue)
    (read : LineCame stream first u s.message.startLine) : HeadCame stream first u (parseFields methods fuel s b) := by
  have known : TextKnown (fun _ => False) (· = s.message.startLine) s := by
    refine ⟨h.stage, fun early => ?_, fun _ => rfl, h.name, h.value⟩
    rcases fields with stage | stage <;> rcases early with early | early <;> cases stage.symm.trans early
  have text : TextRead (fun _ => False) (· = s.message.startLine) (parseFields methods fuel s b) :=
    parseFields_text fuel s b known
  refine ⟨fun code => ?_, fun code => ?_⟩
  · have after := text.again code
    have inside : (parseFields methods fuel s b).state.stage = .fieldName ∨
        (parseFields methods fuel s b).state.stage = .fieldValue := by
      cases stage : (parseFields methods fuel s b).state.stage with
      | initial => exact (after.line (.inl stage)).elim
      | startLine => exact (after.line (.inr stage)).elim
      | fieldName => exact .inl rfl
      | fieldValue => exact .inr rfl
      | headerParseComplete => exact absurd stage after.stage
    exact .fields inside (after.read inside ▸ read)
  · exact (text.success code).line ▸ read

theorem parseFromStartLine_came (knows : KnowsLine methods I K) (h : TextKnown I K s) (wf : b.WF)
    (marked : HeaderNeeds stream s → Marked b) (stage : s.stage = .startLine) (some : u.dropWhile isLWS ≠ [])
    (resumes : ∀ more, stream.parseStartLineOn s.toStartLineParse (b.unread ++ more) =
      wholeLine stream first (u.dropWhile isLWS ++ more)) :
    HeadCame stream first u (parseFromStartLine methods s b) := by
  obtain ⟨reads, -⟩ := stream.mirrors s.toStartLineParse b trivial wf fun need => marked ⟨stage, need⟩
  have whole : stream.parseStartLineOn s.toStartLineParse b.unread = wholeLine stream first (u.dropWhile isLWS) := by
    simpa using resumes []
  rw [parseFromStartLine, if_pos stage, Reader.stage]
  by_cases done : (onStartLine methods.parseStartLine s b).code = .success
  · rw [if_pos done]
    obtain ⟨line, wf', headers⟩ := (knows.reads s.toStartLineParse b (h.line (.inr stage))).success done
    have named : TextKnown I K (enter .fieldName (onStartLine methods.parseStartLine s b).state) := by
      refine .named rfl line (.cleared wf' fun header inside => ?_)
      exact absurd (headers ▸ inside) List.not_mem_nil
    refine parseFields_came _ named (.inl rfl) ⟨u.dropWhile isLWS, [], (List.append_nil _).symm, some, ?_, ?_⟩
    · rw [← whole, ← reads.code]
      exact done
    · rw [← whole, ← reads.state]
      rfl
  · rw [if_neg done]
    refine ⟨fun again => .line stage some fun more => ?_, fun success => absurd success done⟩
    have waits : (stream.parseStartLineOn s.toStartLineParse b.unread).code = .again := reads.code.symm.trans again
    rw [← resumes more, (stream.resumes s.toStartLineParse b.unread).resume more waits trivial, ← reads.state,
      ← reads.unread]
    rfl

/-- What a call makes of the octets that have arrived. -/
theorem parseHeaders_came (knows : KnowsLine methods I K) (h : TextKnown I K s) (initial : first.stage = .initial)
    (stands : HeadAt stream first s u held) (wf : b.WF) (marked : HeaderNeeds stream s → Marked b)
    (unread : b.unread = held ++ piece) : HeadCame stream first (u ++ piece) (parseHeaders methods s b) := by
  rw [parseHeaders, if_neg h.stage]
  cases stands with
  | blank same blank nothing =>
      subst same nothing
      rw [List.nil_append] at unread
      have skipped : (u ++ piece).dropWhile isLWS = b.unread.dropWhile isLWS := by
        rw [List.dropWhile_append, blank, unread]
        rfl
      obtain ⟨left, wf', -⟩ := Buffer.skipWhile_spec isLWS b.readable wf (by rw [Buffer.unread_length wf])
      rw [if_pos initial]
      dsimp only
      by_cases readable : (b.skipWhile isLWS b.readable).isReadable = true
      · rw [if_pos readable]
        have entered : TextKnown I K (enter .startLine s) :=
          ⟨by rintro ⟨⟩, fun _ => knows.cleared _ (h.line (.inl initial)), by rintro (⟨⟨⟩⟩ | ⟨⟨⟩⟩), by rintro ⟨⟩,
            by rintro ⟨⟩⟩
        have some : (u ++ piece).dropWhile isLWS ≠ [] := by
          rw [skipped, ← left]
          exact (Buffer.isReadable_iff wf').mp readable
        refine parseFromStartLine_came knows entered (Buffer.readMark_wf wf') (fun _ => rfl) rfl some fun more => ?_
        rw [Buffer.readMark_unread, left, skipped]
        rfl
      · rw [if_neg readable]
        have nothing : (b.skipWhile isLWS b.readable).unread = [] := by
          by_contra more
          exact readable ((Buffer.isReadable_iff wf').mpr more)
        exact ⟨fun _ => .blank rfl (skipped.trans (left.symm.trans nothing)) nothing, by rintro ⟨⟩⟩
  | line stage some resumes =>
      rw [if_neg (by rw [stage]; decide)]
      refine parseFromStartLine_came knows h wf marked stage (by rw [dropWhile_append_of_some some]; simp [some])
        fun more => ?_
      rw [unread, List.append_assoc, resumes, dropWhile_append_of_some some, List.append_assoc]
  | fields stage read =>
      have later : s.stage ≠ .initial ∧ s.stage ≠ .startLine := by
        rcases stage with stage | stage <;> rw [stage] <;> decide
      rw [if_neg later.1, parseFromStartLine, if_neg later.2, parseHeaderFields]
      exact parseFields_came _ h stage (read.append piece)

theorem Arrived.headAt (knows : KnowsLine methods I K) (fresh : TextKnown I K first) (initial : first.stage = .initial)
    (arrived : Arrived stream first s u held) : HeadAt stream first s u held := by
  induction arrived with
  | start => exact .blank rfl rfl rfl
  | more arrived wf marked unread again ih =>
      exact (parseHeaders_came knows (arrived.parsing.text knows fresh) initial ih wf marked unread).again again

/-- **The first line of an accepted head was read from its octets**, however the head was cut. -/
theorem AcceptsOctets.lineRead (knows : KnowsLine methods I K) (fresh : TextKnown I K first)
    (initial : first.stage = .initial) (accepts : AcceptsOctets stream first u s') :
    LineCame stream first u s'.message.startLine := by
  obtain ⟨arrived, wf, marked, unread, success⟩ := accepts
  have stands := arrived.headAt knows fresh initial
  exact (parseHeaders_came knows (arrived.parsing.text knows fresh) initial stands wf marked unread).success success

end came

end HttpMessageParser

/-! ## Request lines -/

namespace HttpRequestParser

open HttpRequestUriParser (Keeps parseOn_keeps)
open HttpMessageParser (versionOn)

/-- The second word of a line. -/
def secondWord (line : List Octet) : List Octet :=
  ((line.dropWhile (!isSpace ·)).dropWhile isSpace).takeWhile (!isSpace ·)

/-- The target of a request, in front of which there may be white space. -/
def target (u : List Octet) : List Octet := secondWord (u.dropWhile isLWS)

theorem dropWhile_unspaced {word rest : List Octet} {space : Octet} (unspaced : ∀ c ∈ word, isSpace c = false)
    (ends : isSpace space = true) : (word ++ space :: rest).dropWhile (!isSpace ·) = space :: rest := by
  rw [List.dropWhile_append_of_pos fun c inside => by rw [unspaced c inside]; rfl,
    List.dropWhile_cons_of_neg (by simp [ends])]

theorem takeWhile_unspaced {word rest : List Octet} {space : Octet} (unspaced : ∀ c ∈ word, isSpace c = false)
    (ends : isSpace space = true) : (word ++ space :: rest).takeWhile (!isSpace ·) = word := by
  rw [List.takeWhile_append_of_pos fun c inside => by rw [unspaced c inside]; rfl,
    List.takeWhile_cons_of_neg (by simp [ends]), List.append_nil]

theorem secondWord_eq {first word gap rest : List Octet} {space space' : Octet}
    (unspaced : ∀ c ∈ first, isSpace c = false)
    (ends : isSpace space = true) (behind : gap.dropWhile isSpace = word ++ space' :: rest)
    (unspaced' : ∀ c ∈ word, isSpace c = false) (ends' : isSpace space' = true) (more : List Octet) :
    secondWord (first ++ space :: gap ++ more) = word := by
  have later : (gap ++ more).dropWhile isSpace = word ++ space' :: (rest ++ more) := by
    rw [List.dropWhile_append, behind]
    simp
  rw [secondWord, List.append_assoc, List.cons_append, dropWhile_unspaced unspaced ends,
    List.dropWhile_cons_of_pos ends,
    later, takeWhile_unspaced unspaced' ends']

/-- A method that was read, behind what has been gathered of it. -/
structure MethodCame (held u : List Octet) (s : Scratch RequestLine)
    (o : Outcome Error (Scratch RequestLine) (List Octet)) (word : List Octet) (space : Octet) : Prop where
  taken : u = word ++ space :: o.input
  tokens : word.all isToken = true
  ends : isSpace space = true
  short : (held ++ word).length < s.working.capacity
  wf : o.state.working.WF
  capacity : o.state.working.capacity = s.working.capacity
  startLine : o.state.message.startLine = { s.message.startLine with method := some (held ++ word) }

theorem MethodCame.unspaced {held u word : List Octet} {s : Scratch RequestLine} {space : Octet}
    {o : Outcome Error (Scratch RequestLine) (List Octet)} (h : MethodCame held u s o word space) :
    ∀ c ∈ word, isSpace c = false := fun c inside =>
  (visible_ne (token_visible (List.all_eq_true.mp h.tokens c inside))).2.2.2

theorem methodOn_came (u : List Octet) {s : Scratch RequestLine} {held : List Octet} (holds : Holds s.working held 0)
    (all : held.all isToken = true) (success : (methodOn s u).code = .success) :
    ∃ word space, MethodCame held u s (methodOn s u) word space := by
  induction u generalizing s held with
  | nil => cases success
  | cons c rest ih =>
      rw [methodOn, scan] at success ⊢
      by_cases room : held.length < s.working.capacity
      · rw [Scratch.workingFull, if_pos (holds.isWritable.mpr room)] at success ⊢
        dsimp only at success ⊢
        rw [methodOctet] at success ⊢
        by_cases space : isSpace c = true
        · have visible : held.all isVisible = true :=
            List.all_eq_true.mpr fun d inside => token_visible (List.all_eq_true.mp all d inside)
          rw [if_pos space]
          refine ⟨[], c, rfl, rfl, space, by rwa [List.append_nil], holds.wf, rfl, ?_⟩
          dsimp only [setMethod]
          rw [holds.duplicate, rdropWhile_visible visible, List.append_nil]
        · rw [if_neg space] at success ⊢
          split_ifs at success ⊢ with token
          obtain ⟨holds', capacity⟩ := holds.putNext room c
          have longer : (held ++ [c]).all isToken = true := by
            rw [List.all_append, all, List.all_cons, token]
            rfl
          obtain ⟨word, space', came⟩ := ih (s := s.put c) holds' longer success
          refine ⟨c :: word, space', congrArg (c :: ·) came.taken, ?_, came.ends, ?_, came.wf,
            came.capacity.trans capacity, ?_⟩
          · rw [List.all_cons, token, came.tokens]
            rfl
          · rw [List.append_cons]
            exact came.short.trans_eq capacity
          · rw [List.append_cons]
            exact came.startLine
      · rw [Scratch.workingFull, if_neg (mt holds.isWritable.mp room)] at success
        cases success

theorem versionOn_startLine (clientMode : Bool) (s : Scratch RequestLine) (u : List Octet) :
    (versionOn clientMode s u).state.message.startLine = s.message.startLine := by
  unfold versionOn
  dsimp only
  split_ifs
  · rfl
  · split
    · rfl
    · unfold HttpMessageParser.versionEnd
      split <;> dsimp only <;> split_ifs <;> rfl

theorem lineFromVersionOn_startLine (s : RequestLineParse) (u : List Octet) :
    (lineFromVersionOn s u).state.message.startLine = s.message.startLine := by
  have kept := versionOn_startLine false s.toScratch u
  rw [lineFromVersionOn]
  split_ifs
  · rw [stage]
    split_ifs
    · exact kept
    · exact kept
  · rfl

/-- Behind the method only the target is read into the line. -/
theorem lineFromUriOn_read {s : RequestLineParse} (turn : s.sub.requestState = .requestUri) (u : List Octet)
    (success : (lineFromUriOn s u).code = .success) :
    (HttpRequestUriParser.parseOn (getUri s) u).code = .success ∧
      (lineFromUriOn s u).state.message.startLine =
        { s.message.startLine with
          requestUri := (HttpRequestUriParser.parseOn (getUri s) u).state.requestUri } := by
  rw [lineFromUriOn, if_pos turn, stage] at success ⊢
  by_cases read : (onUriOn HttpRequestUriParser.parseOn s u).code = .success
  · rw [if_pos read, lineFromVersionOn_startLine]
    exact ⟨read, rfl⟩
  · rw [if_neg read] at success
    exact absurd success read

theorem lineFromUriOn_target {s : RequestLineParse} (turn : s.sub.requestState = .requestUri)
    (initial : s.sub.uriState = .initial) (plain : s.message.startLine.requestUri.type ≠ .other)
    (none' : s.message.startLine.requestUri.other = none) (holds : Holds s.working [] 0) (u : List Octet)
    (success : (lineFromUriOn s u).code = .success) :
    ∃ word space rest, u.dropWhile isSpace = word ++ space :: rest ∧ (∀ c ∈ word, isSpace c = false) ∧
      isSpace space = true ∧ Keeps (lineFromUriOn s u).state.message.startLine.requestUri word := by
  obtain ⟨read, line⟩ := lineFromUriOn_read turn u success
  rw [line]
  exact parseOn_keeps initial plain none' holds u read

/-- What a request line that was read has of its second word. -/
theorem parseStartLineOn_target {s : RequestLineParse} (initial : s.sub = {})
    (plain : s.message.startLine.requestUri.type ≠ .other) (none' : s.message.startLine.requestUri.other = none)
    (wf : s.working.WF) (v : List Octet) (success : (parseStartLineOn s v).code = .success) :
    ∃ word, (∀ more, secondWord (v ++ more) = word) ∧
      Keeps (parseStartLineOn s v).state.message.startLine.requestUri word := by
  have first : s.sub.requestState = .initial := by rw [initial]
  rw [parseStartLineOn, if_neg (by rw [first]; decide), if_pos first, lineFromMethodOn,
    if_pos (show (enter .method s).sub.requestState = .method from rfl), stage] at success ⊢
  by_cases read : (onScratchOn methodOn (enter .method s) v).code = .success
  · rw [if_pos read] at success ⊢
    obtain ⟨method, space, came⟩ :=
      methodOn_came v (s := (enter .method s).toScratch) (.clear wf) rfl read
    have same : (onScratchOn methodOn (enter .method s) v).state.message.startLine.requestUri =
        s.message.startLine.requestUri := (congrArg RequestLine.requestUri came.startLine :)
    obtain ⟨word, space', rest, behind, unspaced', ends', keeps⟩ :=
      lineFromUriOn_target (s := enter .requestUri (onScratchOn methodOn (enter .method s) v).state) rfl
        (congrArg RequestSub.uriState initial) (ne_of_eq_of_ne (congrArg HttpRequestUri.type same) plain)
        ((congrArg HttpRequestUri.other same).trans none') (.clear came.wf) _ success
    refine ⟨word, fun more => ?_, keeps⟩
    rw [came.taken]
    exact secondWord_eq came.unspaced came.ends behind unspaced' ends' more
  · rw [if_neg read] at success
    exact absurd success read

open HttpMessageParser (AcceptsOctets)

/-- **What an accepted request has of its target**, however the head was cut. -/
theorem accepted_target {working : Buffer} (wf : working.WF) {u : List Octet} {s' : HttpRequestParser}
    (accepts : AcceptsOctets stream (fresh working) u s') : Keeps s'.message.startLine.requestUri (target u) := by
  obtain ⟨v, more, shape, -, success, same⟩ := accepts.lineRead knowsLine (fresh_known wf) rfl
  obtain ⟨word, second, keeps⟩ :=
    parseStartLineOn_target rfl (show UriType.http ≠ .other by decide) rfl (Buffer.clear_wf wf) v success
  rw [target, shape, second more, ← same]
  exact keeps

end HttpRequestParser

end Everscale
