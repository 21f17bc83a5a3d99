/-
# Everscale.Http1.RequestStream -- request lines over the unread octets

The list versions of the URI parser and of the request line parser, with the proof
that the buffer parsers mirror them and that they may be cut anywhere.

The asterisk parser goes back to the read mark, so the state that waits in it is the
one that needs the mark (`asterisk`).
-/
import Everscale.Http1.HeaderStream
import Everscale.Http1.RequestParser

namespace Everscale

set_option autoImplicit false

open Theory HttpUtil

namespace HttpRequestUriParser

open HttpMessageParser (Lookahead lookahead_nil)

theorem workingFull_final (s : HttpRequestUriParser) : s.workingFull ≠ some .again := by
  unfold workingFull; split <;> simp

/-- The states the loop of a component runs in. -/
abbrev At (state : UriStage) : HttpRequestUriParser → Prop := fun s => s.state = state

/-! ## Components -/

def finishedOn : StreamParser HttpRequestUriParser := fun s u => ⟨.success, s, u⟩

def fragmentOn : StreamParser HttpRequestUriParser :=
  scan .again workingFull fragmentOctet finishedOn

def afterQueryOn : StreamParser HttpRequestUriParser := fun s u =>
  match s.state with
  | .fragment => fragmentOn s u
  | _ => finishedOn s u

def queryOn : StreamParser HttpRequestUriParser := scan .again workingFull queryOctet afterQueryOn

def afterAbsPathOn : StreamParser HttpRequestUriParser := fun s u =>
  match s.state with
  | .query => queryOn s u
  | _ => afterQueryOn s u

def absPathOn : StreamParser HttpRequestUriParser :=
  scan .again workingFull absPathOctet afterAbsPathOn

def afterPortOn : StreamParser HttpRequestUriParser := fun s u =>
  match s.state with
  | .absPath => absPathOn s u
  | _ => afterAbsPathOn s u

def portOn : StreamParser HttpRequestUriParser :=
  scan .again (fun _ => none) portOctet afterPortOn

def afterHostOn : StreamParser HttpRequestUriParser := fun s u =>
  match s.state with
  | .port => portOn s u
  | _ => afterPortOn s u

def hostOn : StreamParser HttpRequestUriParser := scan .again workingFull hostOctet afterHostOn

def forwardSlashesOn : StreamParser HttpRequestUriParser := fun s u =>
  let v := u.dropWhile (· = octet '/')
  if v = [] then ⟨.again, s, []⟩ else hostOn { s with state := .host } v

def nonHttpUriOn : StreamParser HttpRequestUriParser :=
  scan .again workingFull nonHttpUriOctet finishedOn

def afterSchemeOn : StreamParser HttpRequestUriParser := fun s u =>
  match s.state with
  | .skippingFwdSlashes => forwardSlashesOn s u
  | _ => nonHttpUriOn s u

def schemeOn : StreamParser HttpRequestUriParser :=
  scan .again workingFull schemeOctet afterSchemeOn

def asteriskOn : StreamParser HttpRequestUriParser := fun s u =>
  match u with
  | [] => ⟨.again, s, []⟩
  | c :: rest =>
      if c ≠ octet '*' then ⟨.badRequestUriAsterisk, s, rest⟩
      else
        match rest with
        | [] => ⟨.again, s, [c]⟩
        | d :: rest =>
            if !isSpace d then ⟨.badRequestUriAsterisk, s, rest⟩
            else
              ⟨.success,
                { s with
                  state := .parseComplete
                  requestUri := { s.requestUri with type := .asterisk } },
                rest⟩

def componentOn : StreamParser HttpRequestUriParser := fun s u =>
  match s.state with
  | .asterisk => asteriskOn s u
  | .scheme => schemeOn s u
  | .skippingFwdSlashes => forwardSlashesOn s u
  | .host => hostOn s u
  | .port => portOn s u
  | .absPath => absPathOn s u
  | .query => queryOn s u
  | .fragment => fragmentOn s u
  | .nonHttpUri => nonHttpUriOn s u
  | _ => ⟨.invalidState, s, u⟩

/-- The kind of URI that begins with these octets. -/
def kindOn (v : List Octet) : UriStage := kindOf (v.headD 0)

/-- `parse` over lists. -/
def parseOn : StreamParser HttpRequestUriParser := fun s u =>
  if s.state = .parseComplete then ⟨.invalidState, s, u⟩
  else if s.state = .initial then
    let v := u.dropWhile isSpace
    if v = [] then ⟨.again, s, []⟩ else componentOn { s with state := kindOn v } v
  else componentOn s u

/-! ## What each loop may do -/

abbrev AfterQuery (s : HttpRequestUriParser) : Prop := s.state = .fragment ∨ s.state = .parseComplete

abbrev AfterAbsPath (s : HttpRequestUriParser) : Prop := s.state = .query ∨ AfterQuery s

abbrev AfterPort (s : HttpRequestUriParser) : Prop := s.state = .absPath ∨ AfterAbsPath s

abbrev AfterHost (s : HttpRequestUriParser) : Prop := s.state = .port ∨ AfterPort s

abbrev AfterScheme (s : HttpRequestUriParser) : Prop :=
  s.state = .skippingFwdSlashes ∨ s.state = .nonHttpUri

theorem fragmentRules : ScanRules .again workingFull fragmentOctet (At .fragment)
    (At .parseComplete) where
  guard_final := workingFull_final
  stop_final s c s' := by unfold fragmentOctet; split_ifs <;> simp
  keep_here s c s' h := by unfold fragmentOctet; split_ifs <;> intro k <;> cases k; exact h
  jump_there s c s' _ := by unfold fragmentOctet; split_ifs <;> intro k <;> cases k; rfl
  back_there s c s' _ := by unfold fragmentOctet; split_ifs <;> intro k <;> cases k

theorem queryRules : ScanRules .again workingFull queryOctet (At .query) AfterQuery where
  guard_final := workingFull_final
  stop_final s c s' := by simp only [queryOctet]; split_ifs <;> simp
  keep_here s c s' h := by simp only [queryOctet]; split_ifs <;> intro k <;> cases k; exact h
  jump_there s c s' _ := by
    simp only [queryOctet]; split_ifs <;> intro k <;> cases k <;>
      simp [leave, AfterQuery]
  back_there s c s' _ := by simp only [queryOctet]; split_ifs <;> intro k <;> cases k

theorem absPathRules : ScanRules .again workingFull absPathOctet (At .absPath) AfterAbsPath where
  guard_final := workingFull_final
  stop_final s c s' := by simp only [absPathOctet]; split_ifs <;> simp
  keep_here s c s' h := by simp only [absPathOctet]; split_ifs <;> intro k <;> cases k <;> exact h
  jump_there s c s' _ := by
    simp only [absPathOctet]; split_ifs <;> intro k <;> cases k <;>
      simp [leave, AfterAbsPath, AfterQuery]
  back_there s c s' _ := by simp only [absPathOctet]; split_ifs <;> intro k <;> cases k

theorem portRules : ScanRules .again (fun _ => none) portOctet (At .port) AfterPort where
  guard_final _ := by simp
  stop_final s c s' := by simp only [portOctet]; split_ifs <;> simp
  keep_here s c s' h := by simp only [portOctet]; split_ifs <;> intro k <;> cases k <;> exact h
  jump_there s c s' _ := by
    simp only [portOctet]; split_ifs <;> intro k <;> cases k <;>
      simp [leave, AfterPort, AfterAbsPath, AfterQuery]
  back_there s c s' _ := by
    simp only [portOctet]; split_ifs <;> intro k <;> cases k
    simp [leave, AfterPort, AfterAbsPath, AfterQuery]

/-- What an octet of the host can do. -/
theorem hostOctet_cases (s : HttpRequestUriParser) (c : Octet) :
    (hostOctet s c = .keep (s.put c) ∧ (isAlphaNum c = true ∨ c = octet '-' ∨ c = octet '.')) ∨
    hostOctet s c = .stop .badRequestUriHost s ∨
    (∃ uri, hostOctet s c = .back (s.leave .absPath uri)) ∨
    ∃ state uri, hostOctet s c = .jump (s.leave state uri) ∧
      (c = octet ':' ∧ state = .port ∨ (c = SP ∨ c = HT) ∧ state = .parseComplete ∨
        c = octet '?' ∧ state = .query ∨ c = octet '#' ∧ state = .fragment) := by
  obtain ⟨act, does⟩ : ∃ act, hostOctet s c = act := ⟨_, rfl⟩
  rw [does]
  unfold hostOctet at does
  split_ifs at does with _ alphaNum alphaNum literal colon space _ question hash <;> subst does
  · exact .inl ⟨rfl, .inl alphaNum⟩
  · exact .inr (.inl rfl)
  · exact .inl ⟨rfl, .inl alphaNum⟩
  · exact .inl ⟨rfl, .inr literal⟩
  · exact .inr (.inr (.inr ⟨_, _, rfl, .inl ⟨colon, rfl⟩⟩))
  · exact .inr (.inr (.inr ⟨_, _, rfl, .inr (.inl ⟨space, rfl⟩)⟩))
  · exact .inr (.inr (.inl ⟨_, rfl⟩))
  · exact .inr (.inr (.inr ⟨_, _, rfl, .inr (.inr (.inl ⟨question, rfl⟩))⟩))
  · exact .inr (.inr (.inr ⟨_, _, rfl, .inr (.inr (.inr ⟨hash, rfl⟩))⟩))
  · exact .inr (.inl rfl)

theorem hostRules : ScanRules .again workingFull hostOctet (At .host) AfterHost where
  guard_final := workingFull_final
  stop_final s c s' := by
    obtain ⟨does, -⟩ | does | ⟨_, does⟩ | ⟨_, _, does, -⟩ := hostOctet_cases s c <;> rw [does] <;> nofun
  keep_here s c s' h := by
    obtain ⟨does, -⟩ | does | ⟨_, does⟩ | ⟨_, _, does, -⟩ := hostOctet_cases s c <;> rw [does] <;> rintro ⟨⟩
    exact h
  jump_there s c s' _ := by
    obtain ⟨does, -⟩ | does | ⟨_, does⟩ | ⟨state, _, does, goes⟩ := hostOctet_cases s c <;> rw [does] <;> rintro ⟨⟩
    obtain ⟨-, rfl⟩ | ⟨-, rfl⟩ | ⟨-, rfl⟩ | ⟨-, rfl⟩ := goes
    · exact .inl rfl
    · exact .inr (.inr (.inr (.inr rfl)))
    · exact .inr (.inr (.inl rfl))
    · exact .inr (.inr (.inr (.inl rfl)))
  back_there s c s' _ := by
    obtain ⟨does, -⟩ | does | ⟨_, does⟩ | ⟨_, _, does, -⟩ := hostOctet_cases s c <;> rw [does] <;> rintro ⟨⟩
    exact .inr (.inl rfl)

theorem nonHttpUriRules : ScanRules .again workingFull nonHttpUriOctet (At .nonHttpUri)
    (At .parseComplete) where
  guard_final := workingFull_final
  stop_final s c s' := by unfold nonHttpUriOctet; split_ifs <;> simp
  keep_here s c s' h := by unfold nonHttpUriOctet; split_ifs <;> intro k <;> cases k; exact h
  jump_there s c s' _ := by unfold nonHttpUriOctet; split_ifs <;> intro k <;> cases k; rfl
  back_there s c s' _ := by unfold nonHttpUriOctet; split_ifs <;> intro k <;> cases k

theorem schemeRules : ScanRules .again workingFull schemeOctet (At .scheme) AfterScheme where
  guard_final := workingFull_final
  stop_final s c s' := by simp only [schemeOctet]; split_ifs <;> simp
  keep_here s c s' h := by simp only [schemeOctet]; split_ifs <;> intro k <;> cases k <;> exact h
  jump_there s c s' _ := by
    simp only [schemeOctet]; split_ifs <;> intro k <;> cases k <;>
      simp [leave, AfterScheme]
  back_there s c s' _ := by simp only [schemeOctet]; split_ifs <;> intro k <;> cases k

/-! ## Resuming a URI -/

/-- Inside a URI `parse` runs the component its state names. -/
theorem parseOn_component {s : HttpRequestUriParser} (h : s.state ≠ .parseComplete)
    (h' : s.state ≠ .initial) (u : List Octet) : parseOn s u = componentOn s u := by
  simp only [parseOn, h, h', if_false]

theorem finishedOn_resumesAt (s : HttpRequestUriParser) (u : List Octet) :
    ResumesAt .again anyCut parseOn finishedOn s u :=
  .of_final List.suffix_rfl (by decide) fun _ => rfl

theorem fragmentOn_resumesAt (s : HttpRequestUriParser) (u : List Octet) (h : s.state = .fragment) :
    ResumesAt .again anyCut parseOn fragmentOn s u := by
  refine scan_resumesAt fragmentRules (fun s w at_ _ => ?_)
    (fun s u _ => finishedOn_resumesAt s u) s u h
  rw [parseOn_component (by simp [at_]) (by simp [at_])]
  simp only [componentOn, at_, fragmentOn]

theorem afterQueryOn_resumesAt (s : HttpRequestUriParser) (u : List Octet) (h : AfterQuery s) :
    ResumesAt .again anyCut parseOn afterQueryOn s u := by
  rcases h with h | h
  · exact .of_continue List.suffix_rfl (fragmentOn_resumesAt s u h)
      fun more => by simp only [afterQueryOn, h]
  · exact .of_continue List.suffix_rfl (finishedOn_resumesAt s u)
      fun more => by simp only [afterQueryOn, h]

theorem queryOn_resumesAt (s : HttpRequestUriParser) (u : List Octet) (h : s.state = .query) :
    ResumesAt .again anyCut parseOn queryOn s u := by
  refine scan_resumesAt queryRules (fun s w at_ _ => ?_) afterQueryOn_resumesAt s u h
  rw [parseOn_component (by simp [at_]) (by simp [at_])]
  simp only [componentOn, at_, queryOn]

theorem afterAbsPathOn_resumesAt (s : HttpRequestUriParser) (u : List Octet)
    (h : AfterAbsPath s) : ResumesAt .again anyCut parseOn afterAbsPathOn s u := by
  rcases h with h | h
  · exact .of_continue List.suffix_rfl (queryOn_resumesAt s u h)
      fun more => by simp only [afterAbsPathOn, h]
  · refine .of_continue List.suffix_rfl (afterQueryOn_resumesAt s u h) fun more => ?_
    rcases h with h | h <;> simp only [afterAbsPathOn, h]

theorem absPathOn_resumesAt (s : HttpRequestUriParser) (u : List Octet) (h : s.state = .absPath) :
    ResumesAt .again anyCut parseOn absPathOn s u := by
  refine scan_resumesAt absPathRules (fun s w at_ _ => ?_) afterAbsPathOn_resumesAt s u h
  rw [parseOn_component (by simp [at_]) (by simp [at_])]
  simp only [componentOn, at_, absPathOn]

theorem afterPortOn_resumesAt (s : HttpRequestUriParser) (u : List Octet) (h : AfterPort s) :
    ResumesAt .again anyCut parseOn afterPortOn s u := by
  rcases h with h | h
  · exact .of_continue List.suffix_rfl (absPathOn_resumesAt s u h)
      fun more => by simp only [afterPortOn, h]
  · refine .of_continue List.suffix_rfl (afterAbsPathOn_resumesAt s u h) fun more => ?_
    rcases h with h | h | h <;> simp only [afterPortOn, h]

theorem portOn_resumesAt (s : HttpRequestUriParser) (u : List Octet) (h : s.state = .port) :
    ResumesAt .again anyCut parseOn portOn s u := by
  refine scan_resumesAt portRules (fun s w at_ _ => ?_) afterPortOn_resumesAt s u h
  rw [parseOn_component (by simp [at_]) (by simp [at_])]
  simp only [componentOn, at_, portOn]

theorem afterHostOn_resumesAt (s : HttpRequestUriParser) (u : List Octet) (h : AfterHost s) :
    ResumesAt .again anyCut parseOn afterHostOn s u := by
  rcases h with h | h
  · exact .of_continue List.suffix_rfl (portOn_resumesAt s u h)
      fun more => by simp only [afterHostOn, h]
  · refine .of_continue List.suffix_rfl (afterPortOn_resumesAt s u h) fun more => ?_
    rcases h with h | h | h | h <;> simp only [afterHostOn, h]

theorem hostOn_resumesAt (s : HttpRequestUriParser) (u : List Octet) (h : s.state = .host) :
    ResumesAt .again anyCut parseOn hostOn s u := by
  refine scan_resumesAt hostRules (fun s w at_ _ => ?_) afterHostOn_resumesAt s u h
  rw [parseOn_component (by simp [at_]) (by simp [at_])]
  simp only [componentOn, at_, hostOn]

theorem forwardSlashesOn_resumesAt (s : HttpRequestUriParser) (u : List Octet)
    (h : s.state = .skippingFwdSlashes) : ResumesAt .again anyCut parseOn forwardSlashesOn s u := by
  refine .of_skip (· = octet '/') (fun _ => { s with state := .host }) (fun _ => rfl)
    (fun _ _ _ => rfl) (fun w => ?_) fun _ => hostOn_resumesAt _ _ rfl
  rw [parseOn_component (by simp [h]) (by simp [h])]
  simp only [componentOn, h]

theorem nonHttpUriOn_resumesAt (s : HttpRequestUriParser) (u : List Octet)
    (h : s.state = .nonHttpUri) : ResumesAt .again anyCut parseOn nonHttpUriOn s u := by
  refine scan_resumesAt nonHttpUriRules (fun s w at_ _ => ?_)
    (fun s u _ => finishedOn_resumesAt s u) s u h
  rw [parseOn_component (by simp [at_]) (by simp [at_])]
  simp only [componentOn, at_, nonHttpUriOn]

theorem afterSchemeOn_resumesAt (s : HttpRequestUriParser) (u : List Octet) (h : AfterScheme s) :
    ResumesAt .again anyCut parseOn afterSchemeOn s u := by
  rcases h with h | h
  · exact .of_continue List.suffix_rfl (forwardSlashesOn_resumesAt s u h)
      fun more => by simp only [afterSchemeOn, h]
  · exact .of_continue List.suffix_rfl (nonHttpUriOn_resumesAt s u h)
      fun more => by simp only [afterSchemeOn, h]

theorem schemeOn_resumesAt (s : HttpRequestUriParser) (u : List Octet) (h : s.state = .scheme) :
    ResumesAt .again anyCut parseOn schemeOn s u := by
  refine scan_resumesAt schemeRules (fun s w at_ _ => ?_) afterSchemeOn_resumesAt s u h
  rw [parseOn_component (by simp [at_]) (by simp [at_])]
  simp only [componentOn, at_, schemeOn]

theorem asteriskOn_other (s : HttpRequestUriParser) {c : Octet} (ne : c ≠ octet '*')
    (rest : List Octet) : asteriskOn s (c :: rest) = ⟨.badRequestUriAsterisk, s, rest⟩ := by
  simp only [asteriskOn, ne, ne_eq, not_false_eq_true, if_true]

theorem asteriskOn_badEnd (s : HttpRequestUriParser) {d : Octet} (h : isSpace d = false)
    (rest : List Octet) :
    asteriskOn s (octet '*' :: d :: rest) = ⟨.badRequestUriAsterisk, s, rest⟩ := by
  simp only [asteriskOn, h, ne_eq, not_true_eq_false, if_false, Bool.not_false, if_true]

theorem asteriskOn_end (s : HttpRequestUriParser) {d : Octet} (h : isSpace d = true)
    (rest : List Octet) :
    asteriskOn s (octet '*' :: d :: rest) =
      ⟨.success,
        { s with
          state := .parseComplete, requestUri := { s.requestUri with type := .asterisk } },
        rest⟩ := by
  simp only [asteriskOn, h, ne_eq, not_true_eq_false, if_false, Bool.not_true, Bool.false_eq_true]

theorem asteriskOn_resumesAt (s : HttpRequestUriParser) (u : List Octet) (h : s.state = .asterisk) :
    ResumesAt .again anyCut parseOn asteriskOn s u := by
  have dispatch : ∀ w, parseOn s w = asteriskOn s w := fun w => by
    rw [parseOn_component (by simp [h]) (by simp [h])]
    simp only [componentOn, h]
  match u with
  | [] => exact .of_wait rfl fun w _ => dispatch w
  | c :: rest =>
      by_cases star : c = octet '*'
      · subst star
        match rest with
        | [] => exact .of_wait (by simp [asteriskOn]) fun w _ => dispatch w
        | d :: rest =>
            have two := (List.suffix_cons d rest).trans (List.suffix_cons (octet '*') (d :: rest))
            cases space : isSpace d with
            | false => exact .of_final two (by decide) fun more => asteriskOn_badEnd s space _
            | true => exact .of_final two (by decide) fun more => asteriskOn_end s space _
      · exact .of_final (List.suffix_cons c rest) (by decide)
          fun more => asteriskOn_other s star (rest ++ more)

theorem componentOn_resumesAt (s : HttpRequestUriParser) (u : List Octet)
    (h : s.state ≠ .parseComplete) (h' : s.state ≠ .initial) :
    ResumesAt .again anyCut parseOn componentOn s u := by
  have same : ∀ p : StreamParser HttpRequestUriParser, (∀ w, componentOn s w = p s w) →
      ResumesAt .again anyCut parseOn p s u → ResumesAt .again anyCut parseOn componentOn s u :=
    fun p runs rules => .of_continue List.suffix_rfl rules fun more => runs (u ++ more)
  cases state : s.state with
  | initial => exact absurd state h'
  | parseComplete => exact absurd state h
  | asterisk =>
      exact same _ (fun w => by simp only [componentOn, state]) (asteriskOn_resumesAt s u state)
  | scheme => exact same _ (fun w => by simp only [componentOn, state]) (schemeOn_resumesAt s u state)
  | skippingFwdSlashes =>
      exact same _ (fun w => by simp only [componentOn, state])
        (forwardSlashesOn_resumesAt s u state)
  | host => exact same _ (fun w => by simp only [componentOn, state]) (hostOn_resumesAt s u state)
  | port => exact same _ (fun w => by simp only [componentOn, state]) (portOn_resumesAt s u state)
  | absPath =>
      exact same _ (fun w => by simp only [componentOn, state]) (absPathOn_resumesAt s u state)
  | query => exact same _ (fun w => by simp only [componentOn, state]) (queryOn_resumesAt s u state)
  | fragment =>
      exact same _ (fun w => by simp only [componentOn, state]) (fragmentOn_resumesAt s u state)
  | nonHttpUri =>
      exact same _ (fun w => by simp only [componentOn, state]) (nonHttpUriOn_resumesAt s u state)

theorem kindOf_inside (c : Octet) : kindOf c ≠ .parseComplete ∧ kindOf c ≠ .initial := by
  unfold kindOf; split_ifs <;> simp

/-- **A request URI may be cut anywhere.** -/
theorem parseOn_resumesAt (s : HttpRequestUriParser) (u : List Octet) :
    ResumesAt .again anyCut parseOn parseOn s u := by
  by_cases complete : s.state = .parseComplete
  · have ended : ∀ w, parseOn s w = ⟨.invalidState, s, w⟩ := fun w => by
      simp only [parseOn, complete, if_true]
    exact .of_final List.suffix_rfl (by decide) fun more => ended (u ++ more)
  · by_cases initial : s.state = .initial
    · refine .of_skip isSpace (fun v => { s with state := kindOn v }) (fun w => ?_)
        (fun v more ne => ?_) (fun _ => rfl) fun _ => componentOn_resumesAt _ _ ?_ ?_
      · simp only [parseOn, initial, reduceCtorEq, if_false, if_true]
      · cases v with
        | nil => exact absurd rfl ne
        | cons c rest => rfl
      · exact (kindOf_inside _).1
      · exact (kindOf_inside _).2
    · exact .of_continue List.suffix_rfl (componentOn_resumesAt s u complete initial)
        fun more => parseOn_component complete initial (u ++ more)

/-! ## What a URI leaves unread -/

theorem finishedOn_waits (s : HttpRequestUriParser) (u : List Octet) :
    Waits .again Lookahead finishedOn s u := fun wants => nomatch wants

theorem fragmentOn_waits (s : HttpRequestUriParser) (u : List Octet) (h : s.state = .fragment) :
    Waits .again Lookahead fragmentOn s u :=
  scan_waits lookahead_nil fragmentRules (fun s u _ => finishedOn_waits s u) s u h

theorem afterQueryOn_waits (s : HttpRequestUriParser) (u : List Octet) (h : AfterQuery s) :
    Waits .again Lookahead afterQueryOn s u := by
  rcases h with h | h
  · simpa only [Waits, afterQueryOn, h] using fragmentOn_waits s u h
  · simpa only [Waits, afterQueryOn, h] using finishedOn_waits s u

theorem queryOn_waits (s : HttpRequestUriParser) (u : List Octet) (h : s.state = .query) :
    Waits .again Lookahead queryOn s u :=
  scan_waits lookahead_nil queryRules afterQueryOn_waits s u h

theorem afterAbsPathOn_waits (s : HttpRequestUriParser) (u : List Octet) (h : AfterAbsPath s) :
    Waits .again Lookahead afterAbsPathOn s u := by
  rcases h with h | h
  · simpa only [Waits, afterAbsPathOn, h] using queryOn_waits s u h
  · have later := afterQueryOn_waits s u h
    rcases h with h | h <;> simpa only [Waits, afterAbsPathOn, h] using later

theorem absPathOn_waits (s : HttpRequestUriParser) (u : List Octet) (h : s.state = .absPath) :
    Waits .again Lookahead absPathOn s u :=
  scan_waits lookahead_nil absPathRules afterAbsPathOn_waits s u h

theorem afterPortOn_waits (s : HttpRequestUriParser) (u : List Octet) (h : AfterPort s) :
    Waits .again Lookahead afterPortOn s u := by
  rcases h with h | h
  · simpa only [Waits, afterPortOn, h] using absPathOn_waits s u h
  · have later := afterAbsPathOn_waits s u h
    rcases h with h | h | h <;> simpa only [Waits, afterPortOn, h] using later

theorem portOn_waits (s : HttpRequestUriParser) (u : List Octet) (h : s.state = .port) :
    Waits .again Lookahead portOn s u :=
  scan_waits lookahead_nil portRules afterPortOn_waits s u h

theorem afterHostOn_waits (s : HttpRequestUriParser) (u : List Octet) (h : AfterHost s) :
    Waits .again Lookahead afterHostOn s u := by
  rcases h with h | h
  · simpa only [Waits, afterHostOn, h] using portOn_waits s u h
  · have later := afterPortOn_waits s u h
    rcases h with h | h | h | h <;> simpa only [Waits, afterHostOn, h] using later

theorem hostOn_waits (s : HttpRequestUriParser) (u : List Octet) (h : s.state = .host) :
    Waits .again Lookahead hostOn s u :=
  scan_waits lookahead_nil hostRules afterHostOn_waits s u h

theorem forwardSlashesOn_waits (s : HttpRequestUriParser) (u : List Octet) :
    Waits .again Lookahead forwardSlashesOn s u := by
  simp only [Waits, forwardSlashesOn]
  split
  · exact fun _ => lookahead_nil
  · exact hostOn_waits _ _ rfl

theorem nonHttpUriOn_waits (s : HttpRequestUriParser) (u : List Octet) (h : s.state = .nonHttpUri) :
    Waits .again Lookahead nonHttpUriOn s u :=
  scan_waits lookahead_nil nonHttpUriRules (fun s u _ => finishedOn_waits s u) s u h

theorem afterSchemeOn_waits (s : HttpRequestUriParser) (u : List Octet) (h : AfterScheme s) :
    Waits .again Lookahead afterSchemeOn s u := by
  rcases h with h | h
  · simpa only [Waits, afterSchemeOn, h] using forwardSlashesOn_waits s u
  · simpa only [Waits, afterSchemeOn, h] using nonHttpUriOn_waits s u h

theorem schemeOn_waits (s : HttpRequestUriParser) (u : List Octet) (h : s.state = .scheme) :
    Waits .again Lookahead schemeOn s u :=
  scan_waits lookahead_nil schemeRules afterSchemeOn_waits s u h

theorem asteriskOn_waits (s : HttpRequestUriParser) (u : List Octet) :
    Waits .again Lookahead asteriskOn s u := by
  unfold Waits
  match u with
  | [] => exact fun _ => lookahead_nil
  | [c] => simp only [asteriskOn]; split <;> simp [Lookahead]
  | c :: d :: rest => simp only [asteriskOn]; split_ifs <;> simp

theorem componentOn_waits (s : HttpRequestUriParser) (u : List Octet) :
    Waits .again Lookahead componentOn s u := by
  cases state : s.state with
  | initial | parseComplete =>
      simp only [Waits, componentOn, state]; exact fun wants => nomatch wants
  | asterisk => simpa only [Waits, componentOn, state] using asteriskOn_waits s u
  | scheme => simpa only [Waits, componentOn, state] using schemeOn_waits s u state
  | skippingFwdSlashes => simpa only [Waits, componentOn, state] using forwardSlashesOn_waits s u
  | host => simpa only [Waits, componentOn, state] using hostOn_waits s u state
  | port => simpa only [Waits, componentOn, state] using portOn_waits s u state
  | absPath => simpa only [Waits, componentOn, state] using absPathOn_waits s u state
  | query => simpa only [Waits, componentOn, state] using queryOn_waits s u state
  | fragment => simpa only [Waits, componentOn, state] using fragmentOn_waits s u state
  | nonHttpUri => simpa only [Waits, componentOn, state] using nonHttpUriOn_waits s u state

theorem parseOn_waits (s : HttpRequestUriParser) (u : List Octet) :
    Waits .again Lookahead parseOn s u := by
  unfold Waits parseOn
  split
  · exact fun wants => nomatch wants
  · split
    · simp only
      split
      · exact fun _ => lookahead_nil
      · exact componentOn_waits _ _
    · exact componentOn_waits s u

/-! ## The buffer parsers mirror the list parsers -/

/-- The state that needs the read mark. -/
abbrev Needs (s : HttpRequestUriParser) : Prop := s.state = .asterisk

section mirrors

variable {here there : HttpRequestUriParser → Prop}
  {act : HttpRequestUriParser → Octet → Act Error HttpRequestUriParser}
  {guard : HttpRequestUriParser → Option Error} {after : Reader HttpRequestUriParser}
  {afterOn : StreamParser HttpRequestUriParser}

theorem loop_mirrors (rules : ScanRules .again guard act here there)
    (plain : ∀ s, here s → ¬ Needs s) (plainAfter : ∀ s, there s → ¬ Needs s)
    (afterMirrors : Mirrors Needs there after afterOn) :
    Mirrors Needs here (Reader.octetLoop guard act fun s b => after s b.readMark)
      (scan .again guard act afterOn) :=
  octetLoop_mirrors rules plain plainAfter afterMirrors.afterMark

/-- A dispatch on the state mirrors when each branch does. -/
theorem either_mirrors {f g k : Reader HttpRequestUriParser}
    {p q r : StreamParser HttpRequestUriParser} (state : UriStage)
    (first : Mirrors Needs (At state) f p) (second : Mirrors Needs there g q)
    (runs : ∀ s, s.state = state → k s = f s ∧ r s = p s)
    (runs' : ∀ s, s.state ≠ state → k s = g s ∧ r s = q s) :
    Mirrors Needs (fun s => s.state = state ∨ there s) k r := by
  intro s b h wf marked
  by_cases at_ : s.state = state
  · rw [(runs s at_).1, (runs s at_).2]
    exact first s b at_ wf marked
  · rw [(runs' s at_).1, (runs' s at_).2]
    exact second s b (h.resolve_left at_) wf marked

end mirrors

theorem plainAt {state : UriStage} (ne : state ≠ .asterisk) (s : HttpRequestUriParser)
    (h : At state s) : ¬ Needs s := fun need => ne (h.symm.trans need)

theorem finished_mirrors {here : HttpRequestUriParser → Prop} :
    Mirrors Needs here finished finishedOn :=
  fun s _ _ wf _ => ⟨Reads.rest wf .success s, fun wants => nomatch wants⟩

theorem parseFragment_mirrors : Mirrors Needs (At .fragment) parseFragment fragmentOn :=
  loop_mirrors fragmentRules (plainAt (by decide)) (plainAt (by decide)) finished_mirrors

theorem afterQuery_mirrors : Mirrors Needs AfterQuery afterQuery afterQueryOn :=
  either_mirrors .fragment parseFragment_mirrors finished_mirrors
    (fun s h => by constructor <;> funext <;> simp only [afterQuery, afterQueryOn, h])
    (fun s h => by constructor <;> funext <;> simp only [afterQuery, afterQueryOn])

theorem plainAfterQuery (s : HttpRequestUriParser) (h : AfterQuery s) : ¬ Needs s := by
  rcases h with h | h <;> simp [Needs, h]

theorem parseQuery_mirrors : Mirrors Needs (At .query) parseQuery queryOn :=
  loop_mirrors queryRules (plainAt (by decide)) plainAfterQuery afterQuery_mirrors

theorem afterAbsPath_mirrors : Mirrors Needs AfterAbsPath afterAbsPath afterAbsPathOn :=
  either_mirrors .query parseQuery_mirrors afterQuery_mirrors
    (fun s h => by constructor <;> funext <;> simp only [afterAbsPath, afterAbsPathOn, h])
    (fun s h => by constructor <;> funext <;> simp only [afterAbsPath, afterAbsPathOn])

theorem plainAfterAbsPath (s : HttpRequestUriParser) (h : AfterAbsPath s) : ¬ Needs s := by
  rcases h with h | h | h <;> simp [Needs, h]

theorem parseAbsPath_mirrors : Mirrors Needs (At .absPath) parseAbsPath absPathOn :=
  loop_mirrors absPathRules (plainAt (by decide)) plainAfterAbsPath afterAbsPath_mirrors

theorem afterPort_mirrors : Mirrors Needs AfterPort afterPort afterPortOn :=
  either_mirrors .absPath parseAbsPath_mirrors afterAbsPath_mirrors
    (fun s h => by constructor <;> funext <;> simp only [afterPort, afterPortOn, h])
    (fun s h => by constructor <;> funext <;> simp only [afterPort, afterPortOn])

theorem plainAfterPort (s : HttpRequestUriParser) (h : AfterPort s) : ¬ Needs s := by
  rcases h with h | h | h | h <;> simp [Needs, h]

theorem parsePort_mirrors : Mirrors Needs (At .port) parsePort portOn :=
  loop_mirrors portRules (plainAt (by decide)) plainAfterPort afterPort_mirrors

theorem afterHost_mirrors : Mirrors Needs AfterHost afterHost afterHostOn :=
  either_mirrors .port parsePort_mirrors afterPort_mirrors
    (fun s h => by constructor <;> funext <;> simp only [afterHost, afterHostOn, h])
    (fun s h => by constructor <;> funext <;> simp only [afterHost, afterHostOn])

theorem plainAfterHost (s : HttpRequestUriParser) (h : AfterHost s) : ¬ Needs s := by
  rcases h with h | h | h | h | h <;> simp [Needs, h]

theorem parseHost_mirrors : Mirrors Needs (At .host) parseHost hostOn :=
  loop_mirrors hostRules (plainAt (by decide)) plainAfterHost afterHost_mirrors

theorem skipForwardSlashes_mirrors :
    Mirrors Needs (At .skippingFwdSlashes) skipForwardSlashes forwardSlashesOn := by
  intro s b h wf _
  obtain ⟨left, wf', same⟩ := Buffer.skipWhile_spec (· = octet '/') b.readable wf
    (by rw [Buffer.unread_length wf])
  simp only [skipForwardSlashes, forwardSlashesOn]
  by_cases blank : b.unread.dropWhile (fun c => decide (c = octet '/')) = []
  · rw [if_pos blank, if_neg (by
      rw [Buffer.not_isReadable_of_unread wf' (left.trans blank)]; simp)]
    exact ⟨.leaving (left.trans blank) wf' same, fun _ need => absurd need (plainAt (by decide) s h)⟩
  · rw [if_neg blank, if_pos ((Buffer.isReadable_iff wf').2 (by rw [left]; exact blank))]
    have step := parseHost_mirrors { s with state := .host } _ rfl wf'
      (fun need => absurd need (by simp [Needs]))
    rw [left] at step
    exact ⟨step.1.of_same same, step.2⟩

theorem parseNonHttpUri_mirrors : Mirrors Needs (At .nonHttpUri) parseNonHttpUri nonHttpUriOn :=
  loop_mirrors nonHttpUriRules (plainAt (by decide)) (plainAt (by decide)) finished_mirrors

theorem afterScheme_mirrors : Mirrors Needs AfterScheme afterScheme afterSchemeOn :=
  either_mirrors .skippingFwdSlashes skipForwardSlashes_mirrors parseNonHttpUri_mirrors
    (fun s h => by constructor <;> funext <;> simp only [afterScheme, afterSchemeOn, h])
    (fun s h => by constructor <;> funext <;> simp only [afterScheme, afterSchemeOn])

theorem plainAfterScheme (s : HttpRequestUriParser) (h : AfterScheme s) : ¬ Needs s := by
  rcases h with h | h <;> simp [Needs, h]

theorem parseScheme_mirrors : Mirrors Needs (At .scheme) parseScheme schemeOn :=
  loop_mirrors schemeRules (plainAt (by decide)) plainAfterScheme afterScheme_mirrors

theorem parseAsterisk_mirrors : Mirrors Needs (At .asterisk) parseAsterisk asteriskOn := by
  intro s b h wf marked
  have mark := marked h
  cases unread : b.unread with
  | nil =>
      simp only [parseAsterisk, Buffer.not_isReadable_of_unread wf unread, Bool.not_false, if_true]
      exact ⟨.leaving unread wf (SameOctets.refl b), fun _ _ => mark⟩
  | cons c rest =>
      have wf' := Buffer.skipNext_wf wf
      have tail := Buffer.skipNext_unread_cons wf unread
      simp only [parseAsterisk, Buffer.isReadable_of_unread wf unread,
        Buffer.peekNext_of_unread wf unread, Bool.not_true, Bool.false_eq_true, if_false, ne_eq,
        ite_not]
      by_cases star : c = octet '*'
      · rw [if_pos star]
        subst star
        cases rest with
        | nil =>
            simp only [Buffer.not_isReadable_of_unread wf' tail, Bool.not_false, if_true,
              mark.readReset]
            exact ⟨.leaving unread wf (SameOctets.refl b), fun _ _ => mark⟩
        | cons d rest =>
            have two := (SameOctets.skipNext b).trans (SameOctets.skipNext b.skipNext)
            have tail' := Buffer.skipNext_unread_cons wf' tail
            simp only [Buffer.isReadable_of_unread wf' tail, Buffer.peekNext_of_unread wf' tail,
              Bool.not_true, Bool.false_eq_true, if_false]
            cases space : isSpace d with
            | false =>
                rw [asteriskOn_badEnd s space]
                exact ⟨.leaving tail' (Buffer.skipNext_wf wf') two, fun wants => nomatch wants⟩
            | true =>
                rw [asteriskOn_end s space]
                exact ⟨.leaving tail' (Buffer.skipNext_wf wf') two, fun wants => nomatch wants⟩
      · rw [if_neg star, asteriskOn_other s star]
        exact ⟨.leaving tail wf' (SameOctets.skipNext b), fun wants => nomatch wants⟩

theorem parseComponent_mirrors : Mirrors Needs (fun _ => True) parseComponent componentOn := by
  intro s b _ wf marked
  cases state : s.state with
  | initial | parseComplete =>
      simp only [parseComponent, componentOn, state]
      exact ⟨Reads.rest wf _ _, fun wants => nomatch wants⟩
  | asterisk =>
      simpa only [parseComponent, componentOn, state] using parseAsterisk_mirrors s b state wf marked
  | scheme =>
      simpa only [parseComponent, componentOn, state] using parseScheme_mirrors s b state wf marked
  | skippingFwdSlashes =>
      simpa only [parseComponent, componentOn, state] using
        skipForwardSlashes_mirrors s b state wf marked
  | host =>
      simpa only [parseComponent, componentOn, state] using parseHost_mirrors s b state wf marked
  | port =>
      simpa only [parseComponent, componentOn, state] using parsePort_mirrors s b state wf marked
  | absPath =>
      simpa only [parseComponent, componentOn, state] using parseAbsPath_mirrors s b state wf marked
  | query =>
      simpa only [parseComponent, componentOn, state] using parseQuery_mirrors s b state wf marked
  | fragment =>
      simpa only [parseComponent, componentOn, state] using parseFragment_mirrors s b state wf marked
  | nonHttpUri =>
      simpa only [parseComponent, componentOn, state] using
        parseNonHttpUri_mirrors s b state wf marked

theorem parse_mirrors : Mirrors Needs (fun _ => True) parse parseOn := by
  intro s b _ wf marked
  by_cases complete : s.state = .parseComplete
  · simp only [parse, parseOn, complete, if_true]
    exact ⟨Reads.rest wf _ _, fun wants => nomatch wants⟩
  · by_cases initial : s.state = .initial
    · obtain ⟨left, wf', same⟩ := SkipSpaces_spec wf
      have wfm := Buffer.readMark_wf wf'
      have samem := same.trans (SameOctets.readMark (SkipSpaces b))
      simp only [parse, parseOn, initial, reduceCtorEq, if_false, if_true]
      cases rest : b.unread.dropWhile isSpace with
      | nil =>
          rw [if_pos rfl, if_neg (by
            rw [Buffer.not_isReadable_of_unread wfm (left.trans rest)]; simp)]
          exact ⟨.leaving (left.trans rest) wfm samem, fun _ need => by simp [Needs, initial] at need⟩
      | cons c v =>
          have unread : (SkipSpaces b).readMark.unread = c :: v := left.trans rest
          rw [if_pos (Buffer.isReadable_of_unread wfm unread), if_neg (List.cons_ne_nil c v),
            Buffer.peekNext_of_unread wfm unread]
          have step := parseComponent_mirrors { s with state := kindOf c } (SkipSpaces b).readMark
            trivial wfm (fun _ => rfl)
          rw [unread] at step
          exact ⟨step.1.of_same samem, step.2⟩
    · have step := parseComponent_mirrors s b trivial wf marked
      simpa only [parse, parseOn, complete, initial, if_false] using step

end HttpRequestUriParser

/-! ## Request lines -/

namespace HttpRequestParser

open HttpMessageParser (versionOn versionOn_waits Lookahead lookahead_nil versionOn_resumesAt parseVersion_mirrors noMoreOn
  noMore_mirrors nowhere workingFull_cases StartLineStream)

def methodOn : StreamParser (Scratch RequestLine) :=
  scan .again Scratch.workingFull methodOctet noMoreOn

theorem methodRules : ScanRules .again Scratch.workingFull methodOctet (fun _ => True) nowhere where
  guard_final s := by rcases workingFull_cases s with h | h <;> simp [h]
  stop_final s c s' := by unfold methodOctet; split_ifs <;> simp
  keep_here _ _ _ _ _ := trivial
  jump_there s c s' _ := by unfold methodOctet; split_ifs <;> simp
  back_there s c s' _ := by unfold methodOctet; split_ifs <;> simp

theorem parseMethod_mirrors : MirrorsPlainly (fun _ => True) parseMethod methodOn :=
  octetLoop_mirrors methodRules (fun _ _ h => h) (fun _ _ h => h) noMore_mirrors

theorem methodOn_resumesAt (s : Scratch RequestLine) (u : List Octet) :
    ResumesAt .again anyCut methodOn methodOn s u :=
  scan_resumesAt methodRules (fun _ _ _ _ => rfl) (fun _ _ h => h.elim) s u trivial

def onScratchOn (p : StreamParser (Scratch RequestLine)) : StreamParser RequestLineParse :=
  p.on (·.toScratch) fun s scratch => { s with toScratch := scratch }

def onUriOn (p : StreamParser HttpRequestUriParser) : StreamParser RequestLineParse :=
  p.on getUri setUri

def finishedOn : StreamParser RequestLineParse := fun s u => ⟨.success, s, u⟩

def lineFromVersionOn : StreamParser RequestLineParse := fun s u =>
  if s.sub.requestState = .httpVersion then
    stage .success (onScratchOn (versionOn false)) (enter .parseComplete) finishedOn s u
  else ⟨.invalidState, s, u⟩

def lineFromUriOn : StreamParser RequestLineParse := fun s u =>
  if s.sub.requestState = .requestUri then
    stage .success (onUriOn HttpRequestUriParser.parseOn) (enter .httpVersion) lineFromVersionOn s u
  else lineFromVersionOn s u

def lineFromMethodOn : StreamParser RequestLineParse := fun s u =>
  if s.sub.requestState = .method then
    stage .success (onScratchOn methodOn) (enter .requestUri) lineFromUriOn s u
  else lineFromUriOn s u

/-- `parseStartLine` over lists. -/
def parseStartLineOn : StreamParser RequestLineParse := fun s u =>
  if s.sub.requestState = .parseComplete then ⟨.invalidState, s, u⟩
  else if s.sub.requestState = .initial then lineFromMethodOn (enter .method s) u
  else lineFromMethodOn s u

theorem onScratchOn_resumesAt {p : StreamParser (Scratch RequestLine)}
    (rules : ∀ s u, ResumesAt .again anyCut p p s u) (s : RequestLineParse) (u : List Octet) :
    ResumesAt .again anyCut (onScratchOn p) (onScratchOn p) s u :=
  on_resumesAt (fun s : RequestLineParse => s.toScratch)
    (fun s scratch => { s with toScratch := scratch }) (fun _ _ => rfl) (fun _ _ _ => rfl)
    (rules s.toScratch u)

theorem onUriOn_resumesAt (s : RequestLineParse) (u : List Octet) :
    ResumesAt .again anyCut (onUriOn HttpRequestUriParser.parseOn)
      (onUriOn HttpRequestUriParser.parseOn) s u :=
  on_resumesAt getUri setUri (fun _ _ => rfl) (fun _ _ _ => rfl)
    (HttpRequestUriParser.parseOn_resumesAt (getUri s) u)

theorem finishedOn_resumesAt (s : RequestLineParse) (u : List Octet) :
    ResumesAt .again anyCut parseStartLineOn finishedOn s u :=
  .of_final List.suffix_rfl (by decide) fun _ => rfl

theorem lostOn_resumesAt (s : RequestLineParse) (u : List Octet) :
    ResumesAt .again anyCut parseStartLineOn (fun s u => ⟨.invalidState, s, u⟩) s u :=
  .of_final List.suffix_rfl (by decide) fun _ => rfl

theorem again_ne_success : Error.again ≠ .success := by decide

theorem lineFromVersionOn_resumesAt (s : RequestLineParse) (u : List Octet)
    (h : s.sub.requestState = .httpVersion) :
    ResumesAt .again anyCut parseStartLineOn lineFromVersionOn s u := by
  refine .of_continue List.suffix_rfl (stage_resumesAt again_ne_success
    (onScratchOn_resumesAt (versionOn_resumesAt false) s u) (fun _ w _ => ?_)
    fun _ => finishedOn_resumesAt _ _) fun _ => if_pos h
  have parked : (onScratchOn (versionOn false) s u).state.sub.requestState = .httpVersion := h
  simp only [parseStartLineOn, lineFromMethodOn, lineFromUriOn, lineFromVersionOn, parked,
    reduceCtorEq, if_false, if_true]

theorem lineFromUriOn_resumesAt (s : RequestLineParse) (u : List Octet)
    (h : s.sub.requestState = .requestUri) :
    ResumesAt .again anyCut parseStartLineOn lineFromUriOn s u := by
  refine .of_continue List.suffix_rfl (stage_resumesAt again_ne_success
    (onUriOn_resumesAt s u) (fun _ w _ => ?_)
    fun _ => lineFromVersionOn_resumesAt _ _ rfl) fun _ => if_pos h
  have parked : (onUriOn HttpRequestUriParser.parseOn s u).state.sub.requestState = .requestUri := h
  simp only [parseStartLineOn, lineFromMethodOn, lineFromUriOn, parked,
    reduceCtorEq, if_false, if_true]

theorem lineFromMethodOn_resumesAt (s : RequestLineParse) (u : List Octet)
    (h : s.sub.requestState = .method) :
    ResumesAt .again anyCut parseStartLineOn lineFromMethodOn s u := by
  refine .of_continue List.suffix_rfl (stage_resumesAt again_ne_success
    (onScratchOn_resumesAt methodOn_resumesAt s u) (fun _ w _ => ?_)
    fun _ => lineFromUriOn_resumesAt _ _ rfl) fun _ => if_pos h
  have parked : (onScratchOn methodOn s u).state.sub.requestState = .method := h
  simp only [parseStartLineOn, lineFromMethodOn, parked, reduceCtorEq, if_false, if_true]

/-- **A request line may be cut anywhere.** -/
theorem parseStartLineOn_resumesAt (s : RequestLineParse) (u : List Octet) :
    ResumesAt .again anyCut parseStartLineOn parseStartLineOn s u := by
  cases h : s.sub.requestState with
  | parseComplete =>
      exact .of_continue List.suffix_rfl (lostOn_resumesAt s u)
        fun _ => by simp only [parseStartLineOn, h, if_true]
  | initial =>
      exact .of_continue List.suffix_rfl (lineFromMethodOn_resumesAt (enter .method s) u rfl)
        fun _ => by simp only [parseStartLineOn, h, reduceCtorEq, if_false, if_true]
  | method =>
      exact .of_continue List.suffix_rfl (lineFromMethodOn_resumesAt s u h)
        fun _ => by simp only [parseStartLineOn, h, reduceCtorEq, if_false]
  | requestUri =>
      exact .of_continue List.suffix_rfl (lineFromUriOn_resumesAt s u h)
        fun _ => by simp only [parseStartLineOn, lineFromMethodOn, h, reduceCtorEq, if_false]
  | httpVersion =>
      exact .of_continue List.suffix_rfl (lineFromVersionOn_resumesAt s u h)
        fun _ => by
          simp only [parseStartLineOn, lineFromMethodOn, lineFromUriOn, h, reduceCtorEq, if_false]

/-- The line needs the read mark while its URI is an asterisk. -/
abbrev LineNeeds (s : RequestLineParse) : Prop :=
  s.sub.requestState = .requestUri ∧ s.sub.uriState = .asterisk

theorem onScratch_mirrors {f : Reader (Scratch RequestLine)} {p : StreamParser (Scratch RequestLine)}
    {state : RequestStage} (ne : state ≠ .requestUri) (mirrors : MirrorsPlainly (fun _ => True) f p) :
    Mirrors LineNeeds (fun s => s.sub.requestState = state) (onScratch f) (onScratchOn p) :=
  on_mirrors mirrors (fun _ _ => trivial) (fun _ _ h => h.elim)
    fun _ _ at_ need => ne (at_.symm.trans need.1)

theorem lost_mirrors : Mirrors LineNeeds (fun _ => True)
    (fun s b => ⟨.invalidState, s, b⟩) (fun s u => ⟨.invalidState, s, u⟩) :=
  fun s _ _ wf _ => ⟨Reads.rest wf .invalidState s, fun wants => nomatch wants⟩

theorem finished_mirrors : Mirrors LineNeeds (fun _ => True) finished finishedOn :=
  fun s _ _ wf _ => ⟨Reads.rest wf .success s, fun wants => nomatch wants⟩

theorem lineFromVersion_mirrors :
    Mirrors LineNeeds (fun _ => True) lineFromVersion lineFromVersionOn := by
  intro s b _ wf marked
  have element : Mirrors LineNeeds (fun s => s.sub.requestState = .httpVersion)
      (onScratch (HttpMessageParser.parseVersion false)) (onScratchOn (versionOn false)) :=
    onScratch_mirrors (by decide) (parseVersion_mirrors false)
  by_cases h : s.sub.requestState = .httpVersion
  · simpa only [lineFromVersion, lineFromVersionOn, h, if_true] using
      stage_mirrors element (fun _ _ _ _ => trivial) finished_mirrors s b h wf marked
  · simpa only [lineFromVersion, lineFromVersionOn, h, if_false] using lost_mirrors s b trivial wf marked

theorem lineFromUri_mirrors : Mirrors LineNeeds (fun _ => True) lineFromUri lineFromUriOn :=
  turn_mirrors (on_mirrors HttpRequestUriParser.parse_mirrors (fun _ _ => trivial)
    (fun _ at_ need => ⟨at_, need⟩) fun _ _ _ need => need.2) lineFromVersion_mirrors

theorem lineFromMethod_mirrors : Mirrors LineNeeds (fun _ => True) lineFromMethod lineFromMethodOn :=
  turn_mirrors (onScratch_mirrors (by decide) parseMethod_mirrors) lineFromUri_mirrors

theorem parseStartLine_mirrors : Mirrors LineNeeds (fun _ => True) parseStartLine parseStartLineOn := by
  intro s b _ wf marked
  by_cases complete : s.sub.requestState = .parseComplete
  · simpa only [parseStartLine, parseStartLineOn, complete, if_true] using
      lost_mirrors s b trivial wf marked
  · by_cases initial : s.sub.requestState = .initial
    · simpa only [parseStartLine, parseStartLineOn, initial, reduceCtorEq, if_false, if_true] using
        lineFromMethod_mirrors.afterMark (enter .method s) b trivial wf fun need => nomatch need.1
    · simpa only [parseStartLine, parseStartLineOn, complete, initial, if_false] using
        lineFromMethod_mirrors s b trivial wf marked

theorem parseStartLineOn_waits (s : RequestLineParse) (u : List Octet) :
    Waits .again Lookahead parseStartLineOn s u := by
  have version : ∀ s u, Waits .again Lookahead lineFromVersionOn s u := fun s u => by
    unfold Waits lineFromVersionOn
    split
    · exact stage_waits (versionOn_waits false s.toScratch u) fun _ wants => nomatch wants
    · exact fun wants => nomatch wants
  have uri : ∀ s u, Waits .again Lookahead lineFromUriOn s u := fun s u => by
    unfold Waits lineFromUriOn
    split
    · exact stage_waits (HttpRequestUriParser.parseOn_waits (getUri s) u) fun _ => version _ _
    · exact version s u
  have method : ∀ s u, Waits .again Lookahead lineFromMethodOn s u := fun s u => by
    unfold Waits lineFromMethodOn
    split
    · exact stage_waits (scan_waits lookahead_nil methodRules (fun _ _ h => h.elim) s.toScratch u trivial)
        fun _ => uri _ _
    · exact uri s u
  unfold Waits parseStartLineOn
  split
  · exact fun wants => nomatch wants
  · split <;> exact method _ u

/-- Request lines as the header parser takes them. -/
def stream : StartLineStream methods where
  parseStartLineOn := parseStartLineOn
  needs := LineNeeds
  mirrors := parseStartLine_mirrors
  resumes := parseStartLineOn_resumesAt
  waits := parseStartLineOn_waits

end HttpRequestParser

end Everscale
