/-
# Everscale.Http1.AcceptedHead -- what is known of a head that was accepted

A head is accepted by a call of `parseHeaders` that comes after any number of calls, on any
buffers, that asked for more (`Accepts`).  The last thing such a call does is `postParse`, on a
message whose version is one of the two that `parseVersion` knows (`accepted_postParse`).
-/
import Everscale.Http1.HeaderStream
import Everscale.Http1.RequestParser
import Everscale.Http1.ResponseParser

namespace Everscale

set_option autoImplicit false

open Theory HttpUtil

/-! ## What a reader keeps -/

namespace Reader

variable {σ τ : Type} {P : σ → Prop}

/-- Whatever is read, `P` still holds of the state. -/
def Keeps (P : σ → Prop) (f : Reader σ) : Prop := ∀ s b, P s → P (f s b).state

/-- `P` holds of every state that the loop may go on or return with. -/
def ActKeeps (P : σ → Prop) : Act Error σ → Prop
  | .keep s | .stop _ s | .jump s | .back s => P s

theorem scan_keeps {guard : σ → Option Error} {act : σ → Octet → Act Error σ} {after : Reader σ}
    (acts : ∀ s c, P s → guard s = none → ActKeeps P (act s c)) (afterKeeps : Keeps P after) (fuel : Nat) :
    Keeps P (scan guard act after fuel) := by
  induction fuel with
  | zero => exact fun s b h => h
  | succ fuel ih =>
      intro s b h
      rw [scan]
      split_ifs with readable
      · cases guarded : guard s with
        | some e => exact h
        | none =>
            have kept := acts s b.peekNext h guarded
            dsimp only
            cases acted : act s b.peekNext with
            | keep s' => exact ih s' _ (by rwa [acted] at kept)
            | stop e s' => rwa [acted] at kept
            | jump s' => exact afterKeeps s' _ (by rwa [acted] at kept)
            | back s' => exact afterKeeps s' _ (by rwa [acted] at kept)
      · exact h

theorem octetLoop_keeps {guard : σ → Option Error} {act : σ → Octet → Act Error σ} {after : Reader σ}
    (acts : ∀ s c, P s → guard s = none → ActKeeps P (act s c)) (afterKeeps : Keeps P after) :
    Keeps P (octetLoop guard act after) := fun s b => scan_keeps acts afterKeeps b.readable s b

theorem stage_keeps {element rest : Reader σ} {advance : σ → σ} (reads : Keeps P element)
    (moves : ∀ s, P s → P (advance s)) (goes : Keeps P rest) : Keeps P (stage element advance rest) := by
  intro s b h
  rw [stage]
  split_ifs
  · exact goes _ _ (moves _ (reads s b h))
  · exact reads s b h

theorem stage_success {Q : σ → Prop} {element rest : Reader σ} {advance : σ → σ} {s : σ} {b : Buffer}
    (restSuccess : (element s b).code = .success →
      ∀ b', (rest (advance (element s b).state) b').code = .success → Q (rest (advance (element s b).state) b').state)
    (success : (stage element advance rest s b).code = .success) : Q (stage element advance rest s b).state := by
  rw [stage] at success ⊢
  by_cases done : (element s b).code = .success
  · rw [if_pos done] at success ⊢
    exact restSuccess done _ success
  · rw [if_neg done] at success
    exact absurd success done

end Reader

namespace HttpMessageParser

variable {χ ρ : Type}

/-! ## Headers leave the first line alone -/

/-- The message has this first line and this version. -/
def HasLine (line : ρ) (version : Nat) (s : Scratch ρ) : Prop :=
  s.message.startLine = line ∧ s.message.httpVersion = version

section line

variable {line : ρ} {version : Nat}

theorem foldedText_keeps {P : Scratch ρ → Prop} {isContent : Octet → Bool} {save : Scratch ρ → Error × Scratch ρ}
    {bad : Error} (puts : ∀ s c, P s → P (s.put c))
    (saves : ∀ s, P s → s.working.isWritable = true → P (save s).2) (fuel : Nat) :
    Reader.Keeps P (foldedText isContent save bad fuel) := by
  induction fuel with
  | zero => exact fun s b h => h
  | succ fuel ih =>
      intro s b h
      have spaced : P (if 0 < s.working.writePosition then s.put SP else s) := by
        split_ifs
        · exact puts s SP h
        · exact h
      rw [foldedText]
      dsimp only
      by_cases readable : (!b.isReadable) = true
      · rw [if_pos readable]
        exact h
      rw [if_neg readable]
      by_cases full : (!s.working.isWritable) = true
      · rw [if_pos full]
        exact h
      rw [if_neg full]
      by_cases space : isLWS b.peekNext = true
      · rw [if_pos space]
        split
        · exact saves s h (by simpa using full)
        · exact ih _ _ spaced
        · exact h
      rw [if_neg space]
      split_ifs
      · exact ih _ _ (puts s _ h)
      · exact h

theorem parseFieldName_keeps : Reader.Keeps (HasLine line version) parseFieldName := by
  refine Reader.octetLoop_keeps (fun s c h _ => ?_) fun s b h => h
  rw [fieldNameOctet]
  split_ifs <;> exact h

theorem parseFieldValue_keeps : Reader.Keeps (HasLine line version) parseFieldValue := by
  intro s b
  refine foldedText_keeps (fun s c h => h) (fun s h _ => ?_) b.readable s b
  rw [saveFieldValue]
  split
  · exact h
  · rename_i message saved
    obtain ⟨header, last, rfl⟩ := Option.map_eq_some_iff.mp saved
    exact h

end line

/-- `parseVersion` knows two versions. -/
def VersionKnown (version : Nat) : Prop := version = 110 ∨ version = 100

theorem parseVersion_known (clientMode : Bool) (s : Scratch ρ) (b : Buffer) :
    (parseVersion clientMode s b).code = .success →
      VersionKnown (parseVersion clientMode s b).state.message.httpVersion := by
  unfold parseVersion
  dsimp only
  split_ifs <;> dsimp only <;> intro success <;> first | exact .inl rfl | exact .inr rfl | exact nomatch success

/-! ## Calls of parseHeaders -/

/-- The parser after some calls that asked for more. -/
inductive Parsing (methods : StartLineMethods χ ρ) (first : HttpMessageParser χ ρ) :
    HttpMessageParser χ ρ → Prop where
  | start : Parsing methods first first
  | more {s s' b b'} : Parsing methods first s → parseHeaders methods s b = ⟨.again, s', b'⟩ →
      Parsing methods first s'

/-- One more call has accepted the head. -/
def Accepts (methods : StartLineMethods χ ρ) (first s' : HttpMessageParser χ ρ) : Prop :=
  ∃ s b b', Parsing methods first s ∧ parseHeaders methods s b = ⟨.success, s', b'⟩

/-- What is known while a first line is read, and that a line that was read has a version. -/
structure KnowsVersion (methods : StartLineMethods χ ρ) (I : StartLineParse χ ρ → Prop) : Prop where
  cleared : ∀ s, I s → I { s with working := s.working.clear }
  again : ∀ s b, I s → (methods.parseStartLine s b).code = .again → I (methods.parseStartLine s b).state
  success : ∀ s b, I s → (methods.parseStartLine s b).code = .success →
    VersionKnown (methods.parseStartLine s b).state.message.httpVersion

/-- Where the parser stands between calls that ask for more. -/
structure Unfinished (I : StartLineParse χ ρ → Prop) (s : HttpMessageParser χ ρ) : Prop where
  body : s.body = {}
  stage : s.stage ≠ .headerParseComplete
  line : s.stage = .initial ∨ s.stage = .startLine → I s.toStartLineParse
  version : s.stage = .fieldName ∨ s.stage = .fieldValue → VersionKnown s.message.httpVersion

/-- What a call leaves: a parser that is not through, or one that was about to decide. -/
structure HeadRead (methods : StartLineMethods χ ρ) (I : StartLineParse χ ρ → Prop)
    (o : Outcome Error (HttpMessageParser χ ρ) Buffer) : Prop where
  again : o.code = .again → Unfinished I o.state
  success : o.code = .success → ∃ s₀ : HttpMessageParser χ ρ, s₀.body = {} ∧ s₀.stage = .headerParseComplete ∧
    VersionKnown s₀.message.httpVersion ∧ postParse methods s₀ = (.success, o.state)

section head

variable {methods : StartLineMethods χ ρ} {I : StartLineParse χ ρ → Prop} {s : HttpMessageParser χ ρ}

theorem HeadRead.failed {e : Error} {b : Buffer} (again : e ≠ .again) (success : e ≠ .success) :
    HeadRead methods I ⟨e, s, b⟩ := ⟨fun code => absurd code again, fun code => absurd code success⟩

theorem HeadRead.waits {b : Buffer} (h : Unfinished I s) : HeadRead methods I ⟨.again, s, b⟩ :=
  ⟨fun _ => h, nofun⟩

theorem endOfHeaders_read (body : s.body = {}) (version : VersionKnown s.message.httpVersion) (b : Buffer) :
    HeadRead methods I (endOfHeaders methods s b) := by
  have final := postParse_final methods (enter .headerParseComplete s)
  refine ⟨fun code => absurd code final, fun code => ⟨enter .headerParseComplete s, body, rfl, version, ?_⟩⟩
  rw [← show (postParse methods (enter .headerParseComplete s)).1 = .success from code]
  rfl

/-- Fields in the middle of a head. -/
structure InFields (s : HttpMessageParser χ ρ) : Prop where
  body : s.body = {}
  stage : s.stage = .fieldName ∨ s.stage = .fieldValue
  version : VersionKnown s.message.httpVersion

theorem InFields.unfinished (h : InFields s) : Unfinished I s where
  body := h.body
  stage complete := by rcases h.stage with stage | stage <;> exact nomatch stage.symm.trans complete
  line early := by
    rcases h.stage with stage | stage <;> rcases early with early | early <;> exact nomatch stage.symm.trans early
  version _ := h.version

theorem field_read {f : Reader (Scratch ρ)} {fuel : Nat} {next : HeaderStage}
    (keeps : ∀ {line version}, Reader.Keeps (HasLine line version) f)
    (moves : next = .fieldName ∨ next = .fieldValue) (h : InFields s)
    (ih : ∀ s b, InFields s → HeadRead methods I (parseFields methods fuel s b)) (b : Buffer) :
    HeadRead methods I (Reader.stage (onScratch f) (enter next) (parseFields methods fuel) s b) := by
  have kept : HasLine s.message.startLine s.message.httpVersion (f s.toScratch b).state :=
    keeps s.toScratch b ⟨rfl, rfl⟩
  rw [Reader.stage]
  by_cases success : (onScratch f s b).code = .success
  · rw [if_pos success]
    exact ih _ _ ⟨h.body, moves, kept.2 ▸ h.version⟩
  · rw [if_neg success]
    have inside : InFields (onScratch f s b).state := ⟨h.body, h.stage, kept.2 ▸ h.version⟩
    exact ⟨fun _ => inside.unfinished, fun code => absurd code success⟩

theorem parseFields_read (fuel : Nat) : ∀ (s : HttpMessageParser χ ρ) (b : Buffer), InFields s →
    HeadRead methods I (parseFields methods fuel s b) := by
  induction fuel with
  | zero => exact fun s b h => .waits h.unfinished
  | succ fuel ih =>
      intro s b h
      rw [parseFields.eq_def]
      dsimp only
      rcases h.stage with stage | stage
      · rw [stage]
        dsimp only
        split_ifs
        · exact .waits h.unfinished
        · exact .waits h.unfinished
        · exact .failed (by simp) (by simp)
        · exact endOfHeaders_read h.body h.version _
        · exact endOfHeaders_read h.body h.version _
        · exact .failed (by simp) (by simp)
        · exact field_read parseFieldName_keeps (.inr rfl) h ih b
      · rw [stage]
        exact field_read parseFieldValue_keeps (.inl rfl) h ih b

theorem parseFromStartLine_read (knows : KnowsVersion methods I) (h : Unfinished I s) (later : s.stage ≠ .initial)
    (b : Buffer) : HeadRead methods I (parseFromStartLine methods s b) := by
  rw [parseFromStartLine]
  by_cases first : s.stage = .startLine
  · rw [if_pos first, Reader.stage]
    have known := h.line (.inr first)
    by_cases success : (onStartLine methods.parseStartLine s b).code = .success
    · rw [if_pos success]
      exact parseFields_read _ _ _ ⟨h.body, .inl rfl, knows.success _ _ known success⟩
    · rw [if_neg success]
      refine ⟨fun code => ⟨h.body, h.stage, fun _ => knows.again _ _ known code, ?_⟩, fun code => absurd code success⟩
      rintro (stage | stage) <;> cases first.symm.trans stage
  · rw [if_neg first]
    have fields : s.stage = .fieldName ∨ s.stage = .fieldValue := by
      have := h.stage
      cases stage : s.stage <;> simp_all
    exact parseFields_read _ _ _ ⟨h.body, fields, h.version fields⟩

theorem parseHeaders_read (knows : KnowsVersion methods I) (h : Unfinished I s) (b : Buffer) :
    HeadRead methods I (parseHeaders methods s b) := by
  rw [parseHeaders]
  rw [if_neg h.stage]
  by_cases initial : s.stage = .initial
  · rw [if_pos initial]
    dsimp only
    split_ifs
    · have line : I (enter .startLine s).toStartLineParse := knows.cleared _ (h.line (.inl initial))
      have entered : Unfinished I (enter .startLine s) :=
        ⟨h.body, by rintro ⟨⟩, fun _ => line, by rintro (⟨⟨⟩⟩ | ⟨⟨⟩⟩)⟩
      exact parseFromStartLine_read knows entered (by rintro ⟨⟩) _
    · exact .waits h
  · rw [if_neg initial]
    exact parseFromStartLine_read knows h initial b

/-- However the head was cut, it was accepted by `postParse`, with one of the two versions. -/
theorem accepted_postParse (knows : KnowsVersion methods I) {first s' : HttpMessageParser χ ρ}
    (fresh : Unfinished I first) (accepts : Accepts methods first s') :
    ∃ s₀ : HttpMessageParser χ ρ, s₀.body = {} ∧ s₀.stage = .headerParseComplete ∧
      VersionKnown s₀.message.httpVersion ∧ postParse methods s₀ = (.success, s') := by
  obtain ⟨s, b, b', parsing, accepted⟩ := accepts
  have between : Unfinished I s := by
    clear accepted
    induction parsing with
    | start => exact fresh
    | @more s s' b b' _ parsed ih =>
        have read := parseHeaders_read knows ih b
        rw [parsed] at read
        exact read.again rfl
  have read := parseHeaders_read knows between b
  rw [accepted] at read
  exact read.success rfl

end head

end HttpMessageParser

/-! ## The two kinds of first line -/

namespace HttpRequestParser

open HttpMessageParser (VersionKnown parseVersion_known KnowsVersion Unfinished Accepts)

theorem lineFromVersion_known (s : RequestLineParse) (b : Buffer) (success : (lineFromVersion s b).code = .success) :
    VersionKnown (lineFromVersion s b).state.message.httpVersion := by
  unfold lineFromVersion at success ⊢
  by_cases turn : s.sub.requestState = .httpVersion
  · rw [if_pos turn] at success ⊢
    refine Reader.stage_success (Q := fun s => VersionKnown s.message.httpVersion) (fun done b' _ => ?_) success
    exact parseVersion_known false s.toScratch b done
  · rw [if_neg turn] at success
    cases success

theorem lineFromUri_known (s : RequestLineParse) (b : Buffer) (success : (lineFromUri s b).code = .success) :
    VersionKnown (lineFromUri s b).state.message.httpVersion := by
  unfold lineFromUri at success ⊢
  by_cases turn : s.sub.requestState = .requestUri
  · rw [if_pos turn] at success ⊢
    exact Reader.stage_success (Q := fun s => VersionKnown s.message.httpVersion)
      (fun _ b' => lineFromVersion_known _ b') success
  · rw [if_neg turn] at success ⊢
    exact lineFromVersion_known s b success

theorem lineFromMethod_known (s : RequestLineParse) (b : Buffer) (success : (lineFromMethod s b).code = .success) :
    VersionKnown (lineFromMethod s b).state.message.httpVersion := by
  unfold lineFromMethod at success ⊢
  by_cases turn : s.sub.requestState = .method
  · rw [if_pos turn] at success ⊢
    exact Reader.stage_success (Q := fun s => VersionKnown s.message.httpVersion)
      (fun _ b' => lineFromUri_known _ b') success
  · rw [if_neg turn] at success ⊢
    exact lineFromUri_known s b success

/-- The version is the last thing on a request line. -/
theorem knowsVersion : KnowsVersion methods fun _ => True where
  cleared _ _ := trivial
  again _ _ _ _ := trivial
  success s b _ := by
    change (parseStartLine s b).code = .success → VersionKnown (parseStartLine s b).state.message.httpVersion
    unfold parseStartLine
    split_ifs
    · exact nofun
    · exact lineFromMethod_known _ _
    · exact lineFromMethod_known _ _

theorem fresh_unfinished (working : Buffer) : Unfinished (fun _ => True) (fresh working) where
  body := rfl
  stage := nofun
  line _ := trivial
  version fields := by rcases fields with stage | stage <;> exact nomatch stage

end HttpRequestParser

namespace HttpResponseParser

open HttpMessageParser (VersionKnown parseVersion_known KnowsVersion Unfinished Accepts foldedText_keeps)

/-- The version is known once it is behind. -/
def VersionRead (s : StatusLineParse) : Prop :=
  s.sub = .statusCode ∨ s.sub = .reasonPhrase → VersionKnown s.message.httpVersion

/-- What a call leaves of a status line. -/
structure LineRead (o : Outcome Error StatusLineParse Buffer) : Prop where
  again : o.code = .again → VersionRead o.state
  success : o.code = .success → VersionKnown o.state.message.httpVersion

theorem stage_read {element rest : Reader StatusLineParse} {advance : StatusLineParse → StatusLineParse}
    {s : StatusLineParse} {b : Buffer} (waits : (element s b).code = .again → VersionRead (element s b).state)
    (moves : (element s b).code = .success → ∀ b', LineRead (rest (advance (element s b).state) b')) :
    LineRead (Reader.stage element advance rest s b) := by
  rw [Reader.stage]
  by_cases done : (element s b).code = .success
  · rw [if_pos done]
    exact moves done _
  · rw [if_neg done]
    exact ⟨waits, fun code => absurd code done⟩

section

variable {version : Nat}

theorem parseReasonPhrase_keeps : Reader.Keeps (fun s => s.message.httpVersion = version) parseReasonPhrase := by
  intro s b
  unfold parseReasonPhrase
  exact foldedText_keeps (P := fun s => s.message.httpVersion = version) (fun _ _ h => h) (fun _ h _ => h) b.readable
    s b

theorem parseStatusCode_keeps : Reader.Keeps (fun s => s.message.httpVersion = version) parseStatusCode := by
  intro s b h
  unfold parseStatusCode
  dsimp only
  split_ifs <;> exact h

end

theorem lineFromReasonPhrase_read {s : StatusLineParse} (h : VersionRead s) (b : Buffer) :
    LineRead (lineFromReasonPhrase s b) := by
  unfold lineFromReasonPhrase
  by_cases turn : s.sub = .reasonPhrase
  · rw [if_pos turn]
    have known := h (.inr turn)
    have kept : (onScratch parseReasonPhrase s b).state.message.httpVersion = s.message.httpVersion :=
      parseReasonPhrase_keeps s.toScratch b rfl
    exact stage_read (fun _ _ => kept ▸ known) fun _ _ => ⟨nofun, fun _ => kept ▸ known⟩
  · rw [if_neg turn]
    exact ⟨nofun, nofun⟩

theorem lineFromStatusCode_read {s : StatusLineParse} (h : VersionRead s) (b : Buffer) :
    LineRead (lineFromStatusCode s b) := by
  unfold lineFromStatusCode
  by_cases turn : s.sub = .statusCode
  · rw [if_pos turn]
    have known := h (.inl turn)
    have kept : (onScratch parseStatusCode s b).state.message.httpVersion = s.message.httpVersion :=
      parseStatusCode_keeps s.toScratch b rfl
    exact stage_read (fun _ _ => kept ▸ known) fun _ b' => lineFromReasonPhrase_read (fun _ => kept ▸ known) b'
  · rw [if_neg turn]
    exact lineFromReasonPhrase_read h b

theorem lineFromVersion_read {s : StatusLineParse} (h : VersionRead s) (b : Buffer) :
    LineRead (lineFromVersion s b) := by
  unfold lineFromVersion
  by_cases turn : s.sub = .version
  · rw [if_pos turn]
    refine stage_read (fun _ behind => ?_) fun done b' => lineFromStatusCode_read (fun _ => ?_) b'
    · have here : (onScratch (HttpMessageParser.parseVersion true) s b).state.sub = .version := turn
      rcases behind with behind | behind <;> exact nomatch here.symm.trans behind
    · exact parseVersion_known true s.toScratch b done
  · rw [if_neg turn]
    exact lineFromStatusCode_read h b

theorem knowsVersion : KnowsVersion methods VersionRead where
  cleared _ h := h
  again s b h := by
    change (parseStartLine s b).code = .again → VersionRead (parseStartLine s b).state
    unfold parseStartLine
    split_ifs with complete initial
    · exact nofun
    · exact (lineFromVersion_read (fun behind => by rcases behind with behind | behind <;> cases behind) _).again
    · exact (lineFromVersion_read h _).again
  success s b h := by
    change (parseStartLine s b).code = .success → VersionKnown (parseStartLine s b).state.message.httpVersion
    unfold parseStartLine
    split_ifs with complete initial
    · exact nofun
    · exact (lineFromVersion_read (fun behind => by rcases behind with behind | behind <;> cases behind) _).success
    · exact (lineFromVersion_read h _).success

theorem fresh_unfinished (working : Buffer) : Unfinished VersionRead (fresh working) where
  body := rfl
  stage := nofun
  line _ behind := by rcases behind with behind | behind <;> cases behind
  version fields := by rcases fields with stage | stage <;> exact nomatch stage

end HttpResponseParser

end Everscale
