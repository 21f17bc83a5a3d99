/-
# Everscale.Http1.LineEnd -- where the first line of a message ends

A request line is two words and a version, and whatever the parser of a URI makes of the
second word, it takes the word and the space behind it, or fails.  So the octets behind an
accepted request line can be found without parsing it (`behindRequestLine`).  A status line
ends with a text, which ends only where the octet of the next line shows that it is no
continuation.

No parser of a first line fails an assertion.
-/
import Everscale.Http1.RequestStream
import Everscale.Http1.ResponseStream

namespace Everscale

set_option autoImplicit false

open Theory HttpUtil

theorem hash_not_space : isSpace (octet '#') = false := by decide

/-! ## Loops over octets -/

section scan

variable {σ : Type} {guard : σ → Option Error} {act : σ → Octet → Act Error σ}
  {after : StreamParser σ}

/-- What holds of the outcome of a loop, from what its steps come to. -/
theorem scan_induction {K : σ → List Octet → Outcome Error σ (List Octet) → Prop}
    (empty : ∀ s, K s [] ⟨.again, s, []⟩)
    (refused : ∀ s c rest e, guard s = some e → K s (c :: rest) ⟨e, s, c :: rest⟩)
    (keep : ∀ s c rest s' o, act s c = .keep s' → K s' rest o → K s (c :: rest) o)
    (stop : ∀ s c rest e s', act s c = .stop e s' → K s (c :: rest) ⟨e, s', rest⟩)
    (jump : ∀ s c rest s', act s c = .jump s' → K s (c :: rest) (after s' rest))
    (back : ∀ s c rest s', act s c = .back s' → K s (c :: rest) (after s' (c :: rest)))
    (s : σ) (u : List Octet) : K s u (scan .again guard act after s u) := by
  induction u generalizing s with
  | nil => exact empty s
  | cons c rest ih =>
      rw [scan]
      cases allowed : guard s with
      | some e => exact refused s c rest e allowed
      | none =>
          dsimp only
          cases acted : act s c with
          | keep s' => exact keep s c rest s' _ acted (ih s')
          | stop e s' => exact stop s c rest e s' acted
          | jump s' => exact jump s c rest s' acted
          | back s' => exact back s c rest s' acted

end scan

/-- The octets of a word. -/
def inWord (c : Octet) : Bool := !isSpace c

/-- Behind the word at the front and the space that ends it. -/
def nextWord (u : List Octet) : List Octet := (u.dropWhile inWord).tail

theorem nextWord_word {c : Octet} (word : isSpace c = false) (rest : List Octet) :
    nextWord (c :: rest) = nextWord rest := by
  rw [nextWord, List.dropWhile_cons_of_pos (by simp [inWord, word]), nextWord]

theorem nextWord_space {c : Octet} (space : isSpace c = true) (rest : List Octet) :
    nextWord (c :: rest) = rest := by
  rw [nextWord, List.dropWhile_cons_of_neg (by simp [inWord, space]), List.tail_cons]

/-- A call that neither fails an assertion nor, when it succeeds, leaves anything but
`left`. -/
def Leaves {σ : Type} (left : List Octet) (o : Outcome Error σ (List Octet)) : Prop :=
  o.code ≠ .assertFailed ∧ (o.code = .success → o.input = left)

section words

variable {σ : Type} {guard : σ → Option Error} {act : σ → Octet → Act Error σ}
  {after : StreamParser σ} {here there : σ → Prop} {finished : σ → Bool}

/-- The loop goes over the octets of a word, and finishes at a space. -/
structure WordRules (guard : σ → Option Error) (act : σ → Octet → Act Error σ)
    (finished : σ → Bool) : Prop where
  guard_fails : ∀ s e, guard s = some e → e ≠ .assertFailed ∧ e ≠ .success
  keep_word : ∀ s c s', act s c = .keep s' → isSpace c = false
  stop_space : ∀ s c e s', act s c = .stop e s' →
    e ≠ .assertFailed ∧ (e = .success → isSpace c = true)
  jump_space : ∀ s c s', act s c = .jump s' → isSpace c = finished s'
  back_word : ∀ s c s', act s c = .back s' → finished s' = false

/-- A loop takes the word at the front with the space behind it, if what follows the loop
takes the rest of the word. -/
theorem scan_takesWord (rules : ScanRules .again guard act here there)
    (words : WordRules guard act finished)
    (ends : ∀ s u, there s → Leaves (if finished s then u else nextWord u) (after s u))
    (s : σ) (u : List Octet) (h : here s) :
    Leaves (nextWord u) (scan .again guard act after s u) := by
  revert h
  refine scan_induction (K := fun s u o => here s → Leaves (nextWord u) o) ?_ ?_ ?_ ?_ ?_ ?_ s u
  · exact fun _ _ => ⟨by simp, fun success => nomatch success⟩
  · intro s c rest e refused _
    have fails := words.guard_fails s e refused
    exact ⟨fails.1, fun success => absurd success fails.2⟩
  · intro s c rest s' o kept later h
    rw [nextWord_word (words.keep_word s c s' kept)]
    exact later (rules.keep_here s c s' h kept)
  · intro s c rest e s' stopped _
    have stops := words.stop_space s c e s' stopped
    exact ⟨stops.1, fun success => (nextWord_space (stops.2 success) rest).symm⟩
  · intro s c rest s' jumped h
    have space := words.jump_space s c s' jumped
    have left := ends s' rest (rules.jump_there s c s' h jumped)
    cases ended : finished s' with
    | true => rw [nextWord_space (space.trans ended)]; simpa only [ended, if_true] using left
    | false =>
        rw [nextWord_word (space.trans ended)]
        simpa only [ended, Bool.false_eq_true, if_false] using left
  · intro s c rest s' stepped h
    simpa only [words.back_word s c s' stepped, Bool.false_eq_true, if_false] using
      ends s' (c :: rest) (rules.back_there s c s' h stepped)

end words

/-! ## Request URIs -/

namespace HttpRequestUriParser

/-- The URI has been read to its end. -/
def finishedAt (s : HttpRequestUriParser) : Bool := s.state = .parseComplete

theorem guard_fails (s : HttpRequestUriParser) (e : Error) (refused : s.workingFull = some e) :
    e ≠ .assertFailed ∧ e ≠ .success := by
  unfold workingFull at refused
  split at refused <;> cases refused
  exact ⟨by simp, by simp⟩

theorem word_of_class {p : Octet → Bool} (sp : p SP = false) (ht : p HT = false) {c : Octet}
    (inside : p c = true) : isSpace c = false := by
  by_contra space
  simp only [isSpace, Bool.not_eq_false, Bool.or_eq_true, decide_eq_true_eq] at space
  rcases space with rfl | rfl
  · rw [sp] at inside; cases inside
  · rw [ht] at inside; cases inside

theorem word_of_uric {c : Octet} : isUric c = true → isSpace c = false :=
  word_of_class (by decide) (by decide)

theorem word_of_alphaNum {c : Octet} : isAlphaNum c = true → isSpace c = false :=
  word_of_class (by decide) (by decide)

theorem word_of_literal {c : Octet} (literal : c ∈ octets "/;?#-.:+=*") : isSpace c = false := by
  have all : ∀ c ∈ octets "/;?#-.:+=*", isSpace c = false := by decide +kernel
  exact all c literal

theorem fragmentWord : WordRules workingFull fragmentOctet finishedAt where
  guard_fails := guard_fails
  keep_word s c s' := by
    unfold fragmentOctet; split_ifs with uric <;> intro k <;> cases k; exact word_of_uric uric
  stop_space s c e s' := by unfold fragmentOctet; split_ifs <;> intro k <;> cases k; simp
  jump_space s c s' := by
    unfold fragmentOctet; split_ifs with _ space <;> intro k <;> cases k
    simp [space, finishedAt, leave]
  back_word s c s' := by unfold fragmentOctet; split_ifs <;> intro k <;> cases k

theorem queryWord : WordRules workingFull queryOctet finishedAt where
  guard_fails := guard_fails
  keep_word s c s' := by
    simp only [queryOctet]; split_ifs with uric <;> intro k <;> cases k; exact word_of_uric uric
  stop_space s c e s' := by simp only [queryOctet]; split_ifs <;> intro k <;> cases k; simp
  jump_space s c s' := by
    simp only [queryOctet]; split_ifs with _ hash space <;> intro k <;> cases k
    · simp [finishedAt, leave, hash, hash_not_space]
    · simp [space, finishedAt, leave]
  back_word s c s' := by simp only [queryOctet]; split_ifs <;> intro k <;> cases k

theorem absPathWord : WordRules workingFull absPathOctet finishedAt where
  guard_fails := guard_fails
  keep_word s c s' := by
    simp only [absPathOctet]
    split_ifs with _ slash pchar literal <;> intro k <;> cases k
    · exact word_of_literal (by rw [slash]; decide)
    · exact word_of_uric (isPchar_isUric pchar)
    · exact word_of_literal (by rcases literal with rfl | rfl <;> decide)
  stop_space s c e s' := by simp only [absPathOctet]; split_ifs <;> intro k <;> cases k <;> simp
  jump_space s c s' := by
    simp only [absPathOctet]
    split_ifs with _ _ _ _ question hash space <;> intro k <;> cases k
    · simp [finishedAt, leave, word_of_literal (c := c) (by rw [question]; decide)]
    · simp [finishedAt, leave, hash, hash_not_space]
    · simp [space, finishedAt, leave]
  back_word s c s' := by simp only [absPathOctet]; split_ifs <;> intro k <;> cases k

theorem portWord : WordRules (fun _ => none) portOctet finishedAt where
  guard_fails _ _ refused := nomatch refused
  keep_word s c s' := by
    simp only [portOctet]
    split_ifs with digit <;> intro k <;> cases k
    all_goals exact word_of_class (p := isDigit) (by decide) (by decide) digit
  stop_space s c e s' := by simp only [portOctet]; split_ifs <;> intro k <;> cases k <;> simp
  jump_space s c s' := by
    simp only [portOctet]
    split_ifs with _ _ _ _ _ space _ question hash <;> intro k <;> cases k
    · simp [space, finishedAt, leave]
    · simp [finishedAt, leave, word_of_literal (c := c) (by rw [question]; decide)]
    · simp [finishedAt, leave, hash, hash_not_space]
  back_word s c s' := by
    simp only [portOctet]; split_ifs <;> intro k <;> cases k
    simp [finishedAt, leave]

theorem hostWord : WordRules workingFull hostOctet finishedAt where
  guard_fails := guard_fails
  keep_word s c s' := by
    obtain ⟨does, inHost⟩ | does | ⟨_, does⟩ | ⟨_, _, does, -⟩ := hostOctet_cases s c <;> rw [does] <;> rintro ⟨⟩
    rcases inHost with alphaNum | rfl | rfl
    · exact word_of_alphaNum alphaNum
    · exact word_of_literal (by decide)
    · exact word_of_literal (by decide)
  stop_space s c e s' := by
    obtain ⟨does, -⟩ | does | ⟨_, does⟩ | ⟨_, _, does, -⟩ := hostOctet_cases s c <;> rw [does] <;> rintro ⟨⟩
    simp
  jump_space s c s' := by
    obtain ⟨does, -⟩ | does | ⟨_, does⟩ | ⟨_, _, does, goes⟩ := hostOctet_cases s c <;> rw [does] <;> rintro ⟨⟩
    obtain ⟨rfl, rfl⟩ | ⟨space, rfl⟩ | ⟨rfl, rfl⟩ | ⟨rfl, rfl⟩ := goes
    · exact word_of_literal (by decide)
    · simp [isSpace, space, finishedAt, leave]
    · exact word_of_literal (by decide)
    · exact hash_not_space
  back_word s c s' := by
    obtain ⟨does, -⟩ | does | ⟨_, does⟩ | ⟨_, _, does, -⟩ := hostOctet_cases s c <;> rw [does] <;> rintro ⟨⟩
    rfl

theorem nonHttpUriWord : WordRules workingFull nonHttpUriOctet finishedAt where
  guard_fails := guard_fails
  keep_word s c s' := by
    unfold nonHttpUriOctet
    split_ifs with space <;> intro k <;> cases k
    simpa using space
  stop_space s c e s' := by unfold nonHttpUriOctet; split_ifs <;> intro k <;> cases k
  jump_space s c s' := by
    unfold nonHttpUriOctet
    split_ifs with space <;> intro k <;> cases k
    simp [space, finishedAt, leave]
  back_word s c s' := by unfold nonHttpUriOctet; split_ifs <;> intro k <;> cases k

theorem schemeWord : WordRules workingFull schemeOctet finishedAt where
  guard_fails := guard_fails
  keep_word s c s' := by
    simp only [schemeOctet]
    split_ifs with _ alpha alphaNum literal <;> intro k <;> cases k
    · exact word_of_class (p := isAlpha) (by decide) (by decide) alpha
    · exact word_of_alphaNum alphaNum
    · exact word_of_literal (by rcases literal with rfl | rfl | rfl <;> decide)
  stop_space s c e s' := by simp only [schemeOctet]; split_ifs <;> intro k <;> cases k <;> simp
  jump_space s c s' := by
    simp only [schemeOctet]
    split_ifs with _ _ _ _ colon <;> intro k <;> cases k
    all_goals simp [finishedAt, leave, word_of_literal (c := c) (by rw [colon]; decide)]
  back_word s c s' := by simp only [schemeOctet]; split_ifs <;> intro k <;> cases k

/-- A word that is over has nothing left to take. -/
theorem finishedOn_leaves (s : HttpRequestUriParser) (u : List Octet) (ended : s.state = .parseComplete) :
    Leaves (if finishedAt s then u else nextWord u) (finishedOn s u) := by
  simp only [finishedAt, ended, decide_true, if_true]
  exact ⟨by simp [finishedOn], fun _ => rfl⟩

/-- In a component the word goes on. -/
theorem leaves_component {s : HttpRequestUriParser} {state : UriStage} (here : s.state = state)
    (inside : state ≠ .parseComplete) {u : List Octet}
    {o : Outcome Error HttpRequestUriParser (List Octet)} (left : Leaves (nextWord u) o) :
    Leaves (if finishedAt s then u else nextWord u) o := by
  simpa only [finishedAt, here, inside, decide_false, Bool.false_eq_true, if_false] using left

theorem fragmentOn_leaves (s : HttpRequestUriParser) (u : List Octet) (h : s.state = .fragment) :
    Leaves (nextWord u) (fragmentOn s u) :=
  scan_takesWord fragmentRules fragmentWord finishedOn_leaves s u h

theorem afterQueryOn_leaves (s : HttpRequestUriParser) (u : List Octet) (h : AfterQuery s) :
    Leaves (if finishedAt s then u else nextWord u) (afterQueryOn s u) := by
  rcases h with h | h <;> simp only [afterQueryOn, h]
  · exact leaves_component h (by decide) (fragmentOn_leaves s u h)
  · exact finishedOn_leaves s u h

theorem queryOn_leaves (s : HttpRequestUriParser) (u : List Octet) (h : s.state = .query) :
    Leaves (nextWord u) (queryOn s u) :=
  scan_takesWord queryRules queryWord afterQueryOn_leaves s u h

theorem afterAbsPathOn_leaves (s : HttpRequestUriParser) (u : List Octet) (h : AfterAbsPath s) :
    Leaves (if finishedAt s then u else nextWord u) (afterAbsPathOn s u) := by
  rcases h with h | h
  · simp only [afterAbsPathOn, h]
    exact leaves_component h (by decide) (queryOn_leaves s u h)
  · have later := afterQueryOn_leaves s u h
    rcases h with h | h <;> simpa only [afterAbsPathOn, h] using later

theorem absPathOn_leaves (s : HttpRequestUriParser) (u : List Octet) (h : s.state = .absPath) :
    Leaves (nextWord u) (absPathOn s u) :=
  scan_takesWord absPathRules absPathWord afterAbsPathOn_leaves s u h

theorem afterPortOn_leaves (s : HttpRequestUriParser) (u : List Octet) (h : AfterPort s) :
    Leaves (if finishedAt s then u else nextWord u) (afterPortOn s u) := by
  rcases h with h | h
  · simp only [afterPortOn, h]
    exact leaves_component h (by decide) (absPathOn_leaves s u h)
  · have later := afterAbsPathOn_leaves s u h
    rcases h with h | h | h <;> simpa only [afterPortOn, h] using later

theorem portOn_leaves (s : HttpRequestUriParser) (u : List Octet) (h : s.state = .port) :
    Leaves (nextWord u) (portOn s u) :=
  scan_takesWord portRules portWord afterPortOn_leaves s u h

theorem afterHostOn_leaves (s : HttpRequestUriParser) (u : List Octet) (h : AfterHost s) :
    Leaves (if finishedAt s then u else nextWord u) (afterHostOn s u) := by
  rcases h with h | h
  · simp only [afterHostOn, h]
    exact leaves_component h (by decide) (portOn_leaves s u h)
  · have later := afterPortOn_leaves s u h
    rcases h with h | h | h | h <;> simpa only [afterHostOn, h] using later

theorem hostOn_leaves (s : HttpRequestUriParser) (u : List Octet) (h : s.state = .host) :
    Leaves (nextWord u) (hostOn s u) :=
  scan_takesWord hostRules hostWord afterHostOn_leaves s u h

theorem nextWord_dropWhile {p : Octet → Bool} (word : ∀ c, p c = true → isSpace c = false)
    (u : List Octet) : nextWord (u.dropWhile p) = nextWord u := by
  induction u with
  | nil => rfl
  | cons c rest ih =>
      rw [List.dropWhile_cons]
      split
      · rename_i inside
        rw [ih, nextWord_word (word c inside)]
      · rfl

theorem forwardSlashesOn_leaves (s : HttpRequestUriParser) (u : List Octet) :
    Leaves (nextWord u) (forwardSlashesOn s u) := by
  have slash : ∀ c, decide (c = octet '/') = true → isSpace c = false := fun c same => by
    rw [of_decide_eq_true same]; decide
  simp only [forwardSlashesOn]
  split
  · exact ⟨by simp, by simp⟩
  · rw [← nextWord_dropWhile slash u]
    exact hostOn_leaves _ _ rfl

theorem nonHttpUriOn_leaves (s : HttpRequestUriParser) (u : List Octet) (h : s.state = .nonHttpUri) :
    Leaves (nextWord u) (nonHttpUriOn s u) :=
  scan_takesWord nonHttpUriRules nonHttpUriWord finishedOn_leaves s u h

theorem afterSchemeOn_leaves (s : HttpRequestUriParser) (u : List Octet) (h : AfterScheme s) :
    Leaves (if finishedAt s then u else nextWord u) (afterSchemeOn s u) := by
  rcases h with h | h <;> simp only [afterSchemeOn, h]
  · exact leaves_component h (by decide) (forwardSlashesOn_leaves s u)
  · exact leaves_component h (by decide) (nonHttpUriOn_leaves s u h)

theorem schemeOn_leaves (s : HttpRequestUriParser) (u : List Octet) (h : s.state = .scheme) :
    Leaves (nextWord u) (schemeOn s u) :=
  scan_takesWord schemeRules schemeWord afterSchemeOn_leaves s u h

theorem asteriskOn_leaves (s : HttpRequestUriParser) (u : List Octet) :
    Leaves (nextWord u) (asteriskOn s u) := by
  match u with
  | [] => exact ⟨by simp [asteriskOn], by rintro ⟨⟩⟩
  | [c] =>
      simp only [asteriskOn]
      split <;> exact ⟨by simp, by simp⟩
  | c :: d :: rest =>
      simp only [asteriskOn]
      split
      · exact ⟨by simp, by simp⟩
      · rename_i star
        split
        · exact ⟨by simp, by simp⟩
        · rename_i space
          refine ⟨by simp, fun _ => ?_⟩
          have star : isSpace c = false := by rw [of_not_not star]; decide
          rw [nextWord_word star, nextWord_space (by simpa using space)]

theorem componentOn_leaves (s : HttpRequestUriParser) (u : List Octet) :
    Leaves (nextWord u) (componentOn s u) := by
  unfold componentOn
  split
  · exact asteriskOn_leaves s u
  · exact schemeOn_leaves s u (by assumption)
  · exact forwardSlashesOn_leaves s u
  · exact hostOn_leaves s u (by assumption)
  · exact portOn_leaves s u (by assumption)
  · exact absPathOn_leaves s u (by assumption)
  · exact queryOn_leaves s u (by assumption)
  · exact fragmentOn_leaves s u (by assumption)
  · exact nonHttpUriOn_leaves s u (by assumption)
  · exact ⟨by simp, fun success => nomatch success⟩

/-- Behind the URI at the front, for a parser in that state. -/
def behindUri (state : UriStage) (u : List Octet) : List Octet :=
  nextWord (if state = .initial then u.dropWhile isSpace else u)

/-- **A URI takes one word**, and nothing it can be fails an assertion. -/
theorem parseOn_leaves (s : HttpRequestUriParser) (u : List Octet) :
    Leaves (behindUri s.state u) (parseOn s u) := by
  have fails : ∀ (e : Error) (r v : List Octet), e ≠ .assertFailed → e ≠ .success →
      Leaves v ⟨e, s, r⟩ := fun e r v ne ne' => ⟨ne, fun success => absurd success ne'⟩
  by_cases complete : s.state = .parseComplete
  · simp only [parseOn, complete, if_true]
    exact fails _ _ _ (by simp) (by simp)
  · by_cases initial : s.state = .initial
    · simp only [parseOn, behindUri, initial, reduceCtorEq, if_false, if_true]
      split
      · exact fails _ _ _ (by simp) (by simp)
      · exact componentOn_leaves _ _
    · simp only [parseOn, behindUri, complete, initial, if_false]
      exact componentOn_leaves s u

end HttpRequestUriParser

/-! ## Request lines -/

namespace HttpRequestParser

open HttpMessageParser (versionOn versionEnd versionMatch versionLength workingFull_cases noMoreOn)

theorem methodWord : WordRules Scratch.workingFull methodOctet (fun _ => false) where
  guard_fails s e refused := by
    rcases workingFull_cases s with h | h <;> rw [h] at refused <;> cases refused
    exact ⟨by simp, by simp⟩
  keep_word s c s' := by
    unfold methodOctet
    split_ifs with space <;> intro k <;> cases k
    simpa using space
  stop_space s c e s' := by
    unfold methodOctet
    split_ifs with space <;> intro k <;> cases k
    · simp [space]
    · simp
  jump_space s c s' := by unfold methodOctet; split_ifs <;> intro k <;> cases k
  back_word s c s' := by unfold methodOctet; split_ifs <;> intro k <;> cases k

theorem methodOn_leaves (s : Scratch RequestLine) (u : List Octet) :
    Leaves (nextWord u) (methodOn s u) :=
  scan_takesWord methodRules methodWord (fun _ _ h => h.elim) s u trivial

/-- Behind a line break at the front. -/
def behindLineBreak : List Octet → List Octet
  | c :: d :: rest => if c = LF then d :: rest else if c = CR ∧ d = LF then rest else []
  | _ => []

/-- Behind the line that ends with the version at the front. -/
def behindVersion (u : List Octet) : List Octet :=
  let v := u.dropWhile isSpace
  if (versionMatch v).isSome then behindLineBreak (v.drop 8) else []

theorem versionEnd_leaves {ρ : Type} (s : Scratch ρ) (version : Nat) (w : List Octet) :
    Leaves (behindLineBreak w) (versionEnd false s version w) := by
  match w with
  | [] | [_] => exact ⟨by simp [versionEnd], by rintro ⟨⟩⟩
  | c :: d :: rest =>
      simp only [versionEnd, behindLineBreak]
      by_cases lf : c = LF
      · simp only [lf, if_true]
        exact ⟨by simp, fun _ => rfl⟩
      · by_cases ended : c = CR ∧ d = LF
        · rw [if_neg lf, if_neg lf, if_pos ended, if_pos ended.1, if_pos ended.2]
          exact ⟨by simp, fun _ => rfl⟩
        · rw [if_neg lf, if_neg lf, if_neg ended]
          split_ifs with cr lf'
          · exact absurd ⟨cr, lf'⟩ ended
          · exact ⟨by simp, by simp⟩
          · exact ⟨by simp, by simp⟩

theorem versionOn_leaves {ρ : Type} (s : Scratch ρ) (u : List Octet) :
    Leaves (behindVersion u) (versionOn false s u) := by
  by_cases short : (u.dropWhile isSpace).length < versionLength false
  · simp only [versionOn, short, if_true]
    exact ⟨by simp, by simp⟩
  · simp only [versionOn, short, if_false, behindVersion]
    cases found : versionMatch (u.dropWhile isSpace) with
    | none => exact ⟨by simp, by simp⟩
    | some version => exact versionEnd_leaves s version _

/-- Behind the request line at the front, for a parser that has read it so far. -/
def behindRequestLine (sub : RequestSub) (u : List Octet) : List Octet :=
  match sub.requestState with
  | .initial | .method =>
      behindVersion (HttpRequestUriParser.behindUri sub.uriState (nextWord u))
  | .requestUri => behindVersion (HttpRequestUriParser.behindUri sub.uriState u)
  | .httpVersion => behindVersion u
  | .parseComplete => []

end HttpRequestParser

/-- An element that leaves `left` is followed by the rest. -/
theorem stage_leaves {σ : Type} {element rest : StreamParser σ} {advance : σ → σ}
    {left left' : List Octet} {s : σ} {u : List Octet} (first : Leaves left (element s u))
    (later : (element s u).code = .success → Leaves left' (rest (advance (element s u).state) left)) :
    Leaves left' (stage .success element advance rest s u) := by
  by_cases success : (element s u).code = .success
  · simp only [stage, success, if_true]
    rw [first.2 success]
    exact later success
  · simp only [stage, success, if_false]
    exact ⟨first.1, fun same => absurd same success⟩

namespace HttpRequestParser

theorem finishedOn_leaves (s : RequestLineParse) (u : List Octet) : Leaves u (finishedOn s u) :=
  ⟨by simp [finishedOn], fun _ => rfl⟩

theorem lineFromVersionOn_leaves {s : RequestLineParse} (h : s.sub.requestState = .httpVersion)
    (u : List Octet) : Leaves (behindVersion u) (lineFromVersionOn s u) := by
  simp only [lineFromVersionOn, h, if_true]
  exact stage_leaves (versionOn_leaves s.toScratch u) fun _ => finishedOn_leaves _ _

theorem lineFromUriOn_leaves {s : RequestLineParse} (h : s.sub.requestState = .requestUri)
    (u : List Octet) :
    Leaves (behindVersion (HttpRequestUriParser.behindUri s.sub.uriState u)) (lineFromUriOn s u) := by
  simp only [lineFromUriOn, h, if_true]
  exact stage_leaves (HttpRequestUriParser.parseOn_leaves (getUri s) u)
    fun _ => lineFromVersionOn_leaves rfl _

theorem lineFromMethodOn_leaves {s : RequestLineParse} (h : s.sub.requestState = .method)
    (u : List Octet) :
    Leaves (behindVersion (HttpRequestUriParser.behindUri s.sub.uriState (nextWord u)))
      (lineFromMethodOn s u) := by
  simp only [lineFromMethodOn, h, if_true]
  exact stage_leaves (methodOn_leaves s.toScratch u) fun _ => lineFromUriOn_leaves rfl _

/-- **A request line is a word, a URI and a version with its line break.** -/
theorem parseStartLineOn_leaves (s : RequestLineParse) (u : List Octet) :
    Leaves (behindRequestLine s.sub u) (parseStartLineOn s u) := by
  cases h : s.sub.requestState with
  | parseComplete =>
      simp only [parseStartLineOn, h, if_true]
      exact ⟨by simp, by simp⟩
  | initial =>
      simp only [parseStartLineOn, behindRequestLine, h, reduceCtorEq, if_false, if_true]
      exact lineFromMethodOn_leaves (s := enter .method s) rfl u
  | method =>
      simp only [parseStartLineOn, behindRequestLine, h, reduceCtorEq, if_false]
      exact lineFromMethodOn_leaves h u
  | requestUri =>
      simp only [parseStartLineOn, lineFromMethodOn, behindRequestLine, h, reduceCtorEq, if_false]
      exact lineFromUriOn_leaves h u
  | httpVersion =>
      simp only [parseStartLineOn, lineFromMethodOn, lineFromUriOn, behindRequestLine, h,
        reduceCtorEq, if_false]
      exact lineFromVersionOn_leaves h u

end HttpRequestParser

/-! ## Texts -/

/-- The first octet is a space or a tab. -/
def startsWithSpace (u : List Octet) : Bool := u.head?.any isSpace

theorem skipLWSOn_success {found : Bool} {u r : List Octet}
    (ended : skipLWSOn found u = some (.success, r)) : startsWithSpace r = false := by
  induction u generalizing found with
  | nil => simp [skipLWSOn] at ended
  | cons c rest ih =>
      rw [skipLWSOn] at ended
      split_ifs at ended with cr _ lf _ space
      · cases ended; rw [cr]; rfl
      · exact ih ended
      · cases ended; rw [lf]; rfl
      · exact ih ended
      · exact ih ended
      · cases ended
        simpa [startsWithSpace, isSpace] using space
      · cases ended

/-- A call that neither fails an assertion nor, when it succeeds, leaves a line that begins
with a space. -/
def EndsLine {σ : Type} (o : Outcome Error σ (List Octet)) : Prop :=
  o.code ≠ .assertFailed ∧ (o.code = .success → startsWithSpace o.input = false)

theorem Leaves.endsLine {σ : Type} {left : List Octet} {o : Outcome Error σ (List Octet)}
    (leaves : Leaves left o) (ends : startsWithSpace left = false) : EndsLine o :=
  ⟨leaves.1, fun success => leaves.2 success ▸ ends⟩

theorem endsLine_of_fails {σ : Type} {o : Outcome Error σ (List Octet)} (ne : o.code ≠ .assertFailed)
    (fails : o.code ≠ .success) : EndsLine o :=
  ⟨ne, fun success => absurd success fails⟩

namespace HttpMessageParser

variable {χ ρ : Type}

/-- What holds of the outcome of reading a text, from what its steps come to. -/
theorem foldedOn_induction {isContent : Octet → Bool} {save : Scratch ρ → Error × Scratch ρ}
    {bad : Error} {K : Scratch ρ → Outcome Error (Scratch ρ) (List Octet) → Prop}
    (stops : ∀ s e r, e = .again ∨ e = .overflow ∨ e = bad → K s ⟨e, s, r⟩)
    (ends : ∀ s r, startsWithSpace r = false → K s ⟨(save s).1, (save s).2, r⟩)
    (goes : ∀ s s' o, s'.message = s.message → K s' o → K s o)
    (s : Scratch ρ) (u : List Octet) : K s (foldedOn isContent save bad s u) := by
  induction h : u.length using Nat.strong_induction_on generalizing s u with
  | _ n ih =>
      refine foldedOn_cases isContent s u ?_ ?_ ?_ ?_ ?_ ?_ ?_
      · rintro rfl
        rw [foldedOn_nil]
        exact stops s _ _ (.inl rfl)
      · rintro c rest rfl full
        rw [foldedOn_full full]
        exact stops s _ _ (.inr (.inl rfl))
      · rintro c rest rfl room white skipped
        rw [foldedOn_wait room white skipped]
        exact stops s _ _ (.inl rfl)
      · rintro c rest r rfl room white skipped
        rw [foldedOn_end room white skipped]
        exact ends s r (skipLWSOn_success skipped)
      · rintro c rest r rfl room white skipped
        have left := (skipLWSOn_shorter white skipped).length_le
        simp only [List.length_cons] at h
        rw [foldedOn_space room white skipped]
        refine goes s (putSpace s) _ ?_ (ih r.length (by omega) (putSpace s) r rfl)
        unfold putSpace
        split <;> rfl
      · rintro c rest rfl room black content
        simp only [List.length_cons] at h
        rw [foldedOn_content room black content]
        exact goes s (s.put c) _ rfl (ih rest.length (by omega) (s.put c) rest rfl)
      · rintro c rest rfl room black foreign
        rw [foldedOn_bad room black foreign]
        exact stops s _ _ (.inr (.inr rfl))

/-- A text ends where no continuation begins. -/
theorem foldedOn_endsLine {isContent : Octet → Bool} {save : Scratch ρ → Error × Scratch ρ}
    {bad : Error} (badFails : bad ≠ .assertFailed ∧ bad ≠ .success) (s : Scratch ρ) (u : List Octet)
    (saves : ∀ s', s'.message = s.message → (save s').1 ≠ .assertFailed) :
    EndsLine (foldedOn isContent save bad s u) := by
  revert saves
  refine foldedOn_induction (K := fun s o =>
    (∀ s', s'.message = s.message → (save s').1 ≠ .assertFailed) → EndsLine o) ?_ ?_ ?_ s u
  · rintro s e r (rfl | rfl | rfl) _
    · exact endsLine_of_fails (by simp) (by simp)
    · exact endsLine_of_fails (by simp) (by simp)
    · exact endsLine_of_fails badFails.1 badFails.2
  · exact fun s r ended saves => ⟨saves s rfl, fun _ => ended⟩
  · exact fun s s' o same later saves => later fun s'' same' => saves s'' (same'.trans same)

theorem versionOn_true_asserts (s : Scratch ρ) (u : List Octet) :
    (versionOn true s u).code ≠ .assertFailed := by
  simp only [versionOn]
  split
  · simp
  · split
    · simp
    · unfold versionEnd
      split
      · split_ifs <;> simp
      · split_ifs <;> simp
      · simp

end HttpMessageParser

/-! ## Status lines -/

namespace HttpResponseParser

open HttpMessageParser (foldedOn foldedOn_endsLine versionOn versionOn_true_asserts)

theorem stage_endsLine {σ : Type} {element rest : StreamParser σ} {advance : σ → σ} {s : σ}
    {u : List Octet} (first : (element s u).code ≠ .assertFailed)
    (later : EndsLine (rest (advance (element s u).state) (element s u).input)) :
    EndsLine (stage .success element advance rest s u) := by
  by_cases success : (element s u).code = .success
  · simpa only [stage, success, if_true] using later
  · simp only [stage, success, if_false]
    exact endsLine_of_fails first success

theorem statusCodeOn_asserts (s : Scratch StatusLine) (u : List Octet) :
    (statusCodeOn s u).code ≠ .assertFailed := by
  unfold statusCodeOn digitsOn
  split
  · split_ifs <;> simp
  · simp

theorem lineFromReasonPhraseOn_endsLine (s : StatusLineParse) (u : List Octet) :
    EndsLine (lineFromReasonPhraseOn s u) := by
  have phrase : EndsLine (reasonPhraseOn s.toScratch u) :=
    foldedOn_endsLine ⟨by simp, by simp⟩ s.toScratch u fun _ _ => by simp [saveReasonPhrase]
  unfold lineFromReasonPhraseOn
  split
  · by_cases success : (reasonPhraseOn s.toScratch u).code = .success
    · have ended : (onScratchOn reasonPhraseOn s u).code = .success := success
      simp only [stage, ended, if_true]
      exact ⟨by simp [finishedOn], fun _ => phrase.2 success⟩
    · have fails : (onScratchOn reasonPhraseOn s u).code ≠ .success := success
      simp only [stage, fails, if_false]
      exact endsLine_of_fails phrase.1 success
  · exact endsLine_of_fails (by simp) (by simp)

theorem lineFromStatusCodeOn_endsLine (s : StatusLineParse) (u : List Octet) :
    EndsLine (lineFromStatusCodeOn s u) := by
  unfold lineFromStatusCodeOn
  split
  · exact stage_endsLine (statusCodeOn_asserts s.toScratch u) (lineFromReasonPhraseOn_endsLine _ _)
  · exact lineFromReasonPhraseOn_endsLine s u

theorem lineFromVersionOn_endsLine (s : StatusLineParse) (u : List Octet) :
    EndsLine (lineFromVersionOn s u) := by
  unfold lineFromVersionOn
  split
  · exact stage_endsLine (versionOn_true_asserts s.toScratch u) (lineFromStatusCodeOn_endsLine _ _)
  · exact lineFromStatusCodeOn_endsLine s u

/-- **A status line never leaves a continuation behind.** -/
theorem parseStartLineOn_endsLine (s : StatusLineParse) (u : List Octet) :
    EndsLine (parseStartLineOn s u) := by
  unfold parseStartLineOn
  split
  · exact endsLine_of_fails (by simp) (by simp)
  · split <;> exact lineFromVersionOn_endsLine _ u

end HttpResponseParser

end Everscale
