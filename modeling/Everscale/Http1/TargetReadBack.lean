/-
# Everscale.Http1.TargetReadBack -- a target that is written and read again

The target of an accepted request is written as its components stand (`targetText`), and read again as
itself, but for a default port, an empty query or fragment and white space in front of a NUL (`readAgain`,
`WellRead.reads`).  For `Compare` it is another target where a query or white space was lost
(`Compare_readAgain_iff`).
-/
import Everscale.Http1.ReadBack
import Everscale.Http1.TargetReading
import Everscale.Http1.UriOrder

namespace Everscale

set_option autoImplicit false

open Theory HttpUtil

namespace HttpRequestUriParser

open HttpRequestUriFormatter (targetElements targetText absPathText isPath isDefaultPort)

/-! ## Larger buffers -/

section larger

variable {size larger : Nat} {uri : HttpRequestUri}

theorem PathRead.mono (h : PathRead size uri) (le : size ≤ larger) : PathRead larger uri where
  absPath text given := ⟨(h.absPath text given).1, (h.absPath text given).2.trans_le (max_le_max_right 2 le)⟩
  query text given := ⟨(h.query text given).1, (h.query text given).2.trans_le le⟩
  fragment text given := ⟨(h.fragment text given).1, (h.fragment text given).2.trans_le le⟩

theorem WellRead.mono (h : WellRead size uri) (le : size ≤ larger) : WellRead larger uri := by
  cases h with
  | asterisk type => exact .asterisk type
  | path h => exact .path { h with toPathRead := h.toPathRead.mono le }
  | host h =>
      obtain ⟨name, given, is, short⟩ := h.host
      exact .host { h with toPathRead := h.toPathRead.mono le, host := ⟨name, given, is, short.trans_le le⟩ }
  | other h =>
      obtain ⟨text, given, is, short⟩ := h.other
      exact .other ⟨h.type, text, given, is, short.trans_le le⟩

end larger

/-! ## Written targets -/

section written

variable {size : Nat} {uri : HttpRequestUri} {name : List Octet}

/-- The path that is written; a missing one is the root. -/
def pathText (uri : HttpRequestUri) : List Octet := uri.absPath.getD (octets "/")

/-- The port that is written, if any. -/
def portPart (uri : HttpRequestUri) : List Octet :=
  if isDefaultPort uri then [] else octet ':' :: numeral 10 uri.port.toNat

theorem PathRead.path (h : PathRead size uri) : IsPath (pathText uri) := by
  rw [pathText]
  cases given : uri.absPath with
  | none => exact ⟨rfl, rfl⟩
  | some text => exact (h.absPath text given).1

theorem absPathText_eq (path : IsPath (pathText uri)) : absPathText uri = pathText uri := by
  have visible := IsPath.all_visible (.inr path)
  have plain : (pathText uri).all isPath = true := by
    cases shape : pathText uri with
    | nil =>
        rw [shape] at path
        exact path.elim
    | cons c rest =>
        rw [shape] at path
        obtain ⟨rfl, all⟩ := path
        rw [List.all_cons, Bool.and_eq_true]
        exact ⟨by decide, all⟩
  have slash : (pathText uri).head? = some (octet '/') := by
    cases shape : pathText uri with
    | nil =>
        rw [shape] at path
        exact path.elim
    | cons c rest =>
        rw [shape] at path
        rw [List.head?_cons, path.1]
  rw [absPathText, ← pathText, cstr_visible visible, if_pos slash, unescaped plain]

theorem path_spells (path : IsPath (pathText uri)) :
    Spells (HttpRequestUriFormatter.begun.tail uri) (pathText uri ++ tailText uri.query uri.fragment) :=
  ⟨pathText uri, _, by rw [absPathText_eq path],
    ⟨_, _, rfl, ⟨_, _, rfl, rfl, (List.append_nil _).symm⟩, rfl⟩, rfl⟩

theorem LocalRead.spells (h : LocalRead size uri) :
    Spells (targetElements uri) (pathText uri ++ tailText uri.query uri.fragment) := by
  rw [targetElements, HttpRequestUriFormatter.firstStage, h.type, h.host]
  exact path_spells h.path

theorem HostRead.named (h : HostRead size uri) (given : uri.host = some name) : IsHost name ∧ name.length < size := by
  obtain ⟨_, same, is, short⟩ := h.host
  obtain rfl := Option.some.inj (same.symm.trans given)
  exact ⟨is, short⟩

theorem HostRead.hasHost (h : HostRead size uri) (given : uri.host = some name) :
    HttpRequestUriFormatter.hasHost uri = true ∧ cstr name = name := by
  obtain ⟨is, -⟩ := h.named given
  have whole := cstr_visible (IsHost.all_visible (.inr is))
  refine ⟨?_, whole⟩
  rw [HttpRequestUriFormatter.hasHost, given, Option.any_some, whole]
  rcases h.type with type | type <;> simp [type, is.ne_nil]

theorem HostRead.spells (h : HostRead size uri) (given : uri.host = some name) :
    Spells (targetElements uri) (schemeName uri.type ++ octet ':' :: octet '/' :: octet '/' ::
      (name ++ (portPart uri ++ (pathText uri ++ tailText uri.query uri.fragment)))) := by
  obtain ⟨has, whole⟩ := h.hasHost given
  have scheme : HttpRequestUriFormatter.schemeText uri =
      .ok (schemeName uri.type ++ [octet ':', octet '/', octet '/']) := by
    rcases h.type with type | type <;> rw [HttpRequestUriFormatter.schemeText, type] <;> decide
  have host : HttpRequestUriFormatter.hostText uri = .ok name := by
    rw [HttpRequestUriFormatter.hostText, if_pos has, given, Option.getD_some, whole]
  have port : HttpRequestUriFormatter.portText uri = .ok (portPart uri) := by
    have below := h.port
    rw [HttpRequestUriFormatter.portText, if_neg (by rw [has]; simp; omega), portPart]
    split_ifs <;> rfl
  have stage : HttpRequestUriFormatter.firstStage uri = .scheme := by
    have some : uri.host.any (fun host => cstr host ≠ []) = true := by
      rw [given, Option.any_some, whole]
      simp [(h.named given).1.ne_nil]
    rcases h.type with type | type <;> rw [HttpRequestUriFormatter.firstStage, type] <;> exact if_pos some
  rw [targetElements, stage]
  refine ⟨_, _, scheme, ⟨_, _, host, ⟨_, _, port, path_spells h.path, rfl⟩, rfl⟩, ?_⟩
  rw [List.append_assoc]
  rfl

theorem IsScheme.all_visible {scheme : List Octet} (is : IsScheme scheme) : scheme.all isVisible = true := by
  obtain ⟨⟨c, front, rfl, alpha, all⟩, -⟩ := is
  refine List.all_eq_true.mpr fun d inside => ?_
  rcases List.mem_cons.mp inside with rfl | later
  · exact alphaNum_visible (letter_alphaNum alpha)
  · have taken := List.all_eq_true.mp all d later
    simp only [isTaken, Bool.or_eq_true, decide_eq_true_eq] at taken
    rcases taken with ((letter | rfl) | rfl) | rfl
    · exact alphaNum_visible letter
    all_goals decide

/-- What stands in front of a NUL begins with the same scheme. -/
theorem IsOther.cstr {text : List Octet} (other : IsOther text) : IsOther (Everscale.cstr text) := by
  obtain ⟨scheme, rest, rfl, is, unspaced⟩ := other
  refine ⟨scheme, Everscale.cstr rest, ?_, is, ?_⟩
  · have plain : ∀ c ∈ scheme, (c != NUL) = true := fun c inside =>
      bne_iff_ne.mpr (visible_ne (List.all_eq_true.mp is.all_visible c inside)).2.2.1
    rw [Everscale.cstr, List.takeWhile_append_of_pos plain, List.takeWhile_cons_of_pos (by decide)]
    rfl
  · exact List.all_eq_true.mpr fun c inside => List.all_eq_true.mp unspaced c ((List.takeWhile_prefix _).subset inside)

theorem IsOther.ne_nil {text : List Octet} (other : IsOther text) : text ≠ [] := by
  obtain ⟨scheme, rest, rfl, -⟩ := other
  simp

theorem OtherRead.spells {text : List Octet} (h : OtherRead size uri) (given : uri.other = some text)
    (other : IsOther text) : Spells (targetElements uri) (cstr text) := by
  have written : HttpRequestUriFormatter.nonHttpUriText uri = .ok (cstr text) := by
    rw [HttpRequestUriFormatter.nonHttpUriText, if_neg (not_not.mpr h.type), given, Option.getD_some]
    cases shape : cstr text with
    | nil => exact absurd shape other.cstr.ne_nil
    | cons c rest => rfl
  rw [targetElements, HttpRequestUriFormatter.firstStage, h.type]
  exact spells_singleton.mpr written

theorem asterisk_spells (type : uri.type = .asterisk) : Spells (targetElements uri) (octets "*") := by
  rw [targetElements, HttpRequestUriFormatter.firstStage, type]
  exact spells_singleton.mpr rfl

/-! ## Reading what was written -/

/-- What is read of a target that was written. -/
def readAgain (uri : HttpRequestUri) : HttpRequestUri :=
  match uri.type with
  | .asterisk => { type := .asterisk }
  | .other => { type := .other, other := some ((cstr (uri.other.getD [])).rdropWhile Buffer.isTrimmed) }
  | type => {
      type, host := uri.host, port := if isDefaultPort uri then -1 else uri.port, absPath := some (pathText uri)
      query := shown uri.query, fragment := shown uri.fragment }

theorem readAgain_http (type : uri.type = .http ∨ uri.type = .https) : readAgain uri = {
    type := uri.type, host := uri.host, port := if isDefaultPort uri then -1 else uri.port
    absPath := some (pathText uri), query := shown uri.query, fragment := shown uri.fragment } := by
  rcases type with type | type <;> rw [readAgain, type]

/-- There is room for the scheme that is written. -/
def SchemeFits (size : Nat) (uri : HttpRequestUri) : Prop :=
  (uri.type = .http ∨ uri.type = .https) → uri.host ≠ none → (schemeName uri.type).length < size

instance (size : Nat) (uri : HttpRequestUri) : Decidable (SchemeFits size uri) :=
  inferInstanceAs (Decidable (_ ∨ _ → _ → _))

theorem PathRead.tail (h : PathRead size uri) : UricRead size uri.query ∧ UricRead size uri.fragment :=
  ⟨⟨fun text given => (h.query text given).1, fun text given => (h.query text given).2⟩,
    ⟨fun text given => (h.fragment text given).1, fun text given => (h.fragment text given).2⟩⟩

/-- A run behind white space, of which there is none here. -/
theorem parseOn_initial {s : HttpRequestUriParser} (initial : s.state = .initial) {c : Octet} {rest : List Octet}
    (black : isSpace c = false) : parseOn s (c :: rest) = componentOn { s with state := kindOf c } (c :: rest) := by
  rw [parseOn, if_neg (by rw [initial]; decide), if_pos initial]
  dsimp only
  rw [List.dropWhile_cons_of_neg (by rw [black]; decide), if_neg (List.cons_ne_nil c rest)]
  rfl

theorem PathRead.path_short (h : PathRead size uri) (two : 2 ≤ size) : (pathText uri).length < size := by
  rw [pathText]
  cases given : uri.absPath with
  | none => exact lt_of_lt_of_le (by decide) two
  | some text => exact (h.absPath text given).2.trans_eq (Nat.max_eq_left two)

/-- Behind the host, or where there is none. -/
theorem PathRead.reads (h : PathRead size uri) (two : 2 ≤ size) {s : HttpRequestUriParser} {known : HttpRequestUri}
    (stands : InFront size known s) (none' : known.query = none ∧ known.fragment = none) (rest : List Octet) :
    Takes size { known with absPath := some (pathText uri), query := shown uri.query, fragment := shown uri.fragment }
      rest (absPathOn s (pathText uri ++ (tailText uri.query uri.fragment ++ SP :: rest))) := by
  obtain ⟨holds, rfl, rfl⟩ := stands
  exact absPathOn_reads holds h.path (h.path_short two) h.tail.1 h.tail.2 none' rest

theorem IsPath.slash {text : List Octet} (path : IsPath text) : ∃ rest, text = octet '/' :: rest := by
  cases text with
  | nil => exact path.elim
  | cons c rest => exact ⟨rest, by rw [path.1]⟩

section parse

variable {s : HttpRequestUriParser}

theorem LocalRead.reads (h : LocalRead size uri) (initial : s.state = .initial) (stands : InFront size {} s)
    (two : 2 ≤ size) (rest : List Octet) :
    Takes size (readAgain uri) rest (parseOn s (pathText uri ++ tailText uri.query uri.fragment ++ SP :: rest)) := by
  have same : readAgain uri =
      { absPath := some (pathText uri), query := shown uri.query, fragment := shown uri.fragment } := by
    have default : isDefaultPort uri = true := by
      rw [isDefaultPort, decide_eq_true h.port]
      rfl
    rw [readAgain_http (.inl h.type), h.type, h.host, default]
    rfl
  have takes := h.toPathRead.reads two (s := { s with state := .absPath })
    ⟨stands.holds, stands.capacity, stands.requestUri⟩ ⟨rfl, rfl⟩ rest
  obtain ⟨behind, shape⟩ := h.path.slash
  rw [List.append_assoc, same]
  rw [shape] at takes ⊢
  rw [List.cons_append, parseOn_initial initial (by decide)]
  exact takes

theorem schemeName_letter (type : UriType) : ∃ rest, schemeName type = octet 'h' :: rest := by
  rw [schemeName]
  split_ifs
  · exact ⟨octets "ttps", rfl⟩
  · exact ⟨octets "ttp", rfl⟩

theorem HostRead.reads (h : HostRead size uri) (given : uri.host = some name) (initial : s.state = .initial)
    (stands : InFront size {} s) (two : 2 ≤ size) (fits : SchemeFits size uri) (rest : List Octet) :
    Takes size (readAgain uri) rest
      (parseOn s (schemeName uri.type ++ octet ':' :: octet '/' :: octet '/' ::
        (name ++ (portPart uri ++ (pathText uri ++ tailText uri.query uri.fragment))) ++ SP :: rest)) := by
  obtain ⟨host, short⟩ := h.named given
  obtain ⟨behind, shape⟩ := h.path.slash
  let tail := tailText uri.query uri.fragment ++ SP :: rest
  have stands₀ : InFront size {} { s with state := .scheme } := ⟨stands.holds, stands.capacity, stands.requestUri⟩
  obtain ⟨s₁, stands₁, first⟩ := schemeOn_http stands₀ h.type (fits h.type (by rw [given]; simp)) host
    (portPart uri ++ (pathText uri ++ tail))
  let known : HttpRequestUri :=
    { type := uri.type, host := some name, port := if isDefaultPort uri then -1 else uri.port }
  have second : ∃ s', InFront size known s' ∧
      hostOn s₁ (name ++ (portPart uri ++ (pathText uri ++ tail))) = absPathOn s' (pathText uri ++ tail) := by
    rw [shape, portPart, List.cons_append]
    by_cases default : isDefaultPort uri = true
    · obtain ⟨s', stands', read⟩ := hostOn_path stands₁ host short (behind ++ tail)
      refine ⟨s', ?_, by rwa [if_pos default]⟩
      rwa [show known = _ from congrArg (HttpRequestUri.mk _ · _ _ _ _ _) (if_pos default)]
    · have positive : ¬ uri.port < 0 := by
        intro none'
        rw [isDefaultPort, decide_eq_true none'] at default
        exact default rfl
      have below := h.port
      obtain ⟨s', stands', read⟩ := hostOn_port stands₁ host short (show (-1 : Int) < 0 by decide) uri.port.toNat
        (by omega) (behind ++ tail)
      refine ⟨s', ?_, by rwa [if_neg default]⟩
      rw [Int.toNat_of_nonneg (by omega)] at stands'
      rwa [show known = _ from congrArg (HttpRequestUri.mk _ · _ _ _ _ _) (if_neg default)]
  obtain ⟨s₂, stands₂, second⟩ := second
  have same : readAgain uri =
      { known with absPath := some (pathText uri), query := shown uri.query, fragment := shown uri.fragment } := by
    rw [readAgain_http h.type, given]
  obtain ⟨letters, begins⟩ := schemeName_letter uri.type
  have text : schemeName uri.type ++ octet ':' :: octet '/' :: octet '/' ::
      (name ++ (portPart uri ++ (pathText uri ++ tailText uri.query uri.fragment))) ++ SP :: rest =
      schemeName uri.type ++ octet ':' :: octet '/' :: octet '/' ::
        (name ++ (portPart uri ++ (pathText uri ++ tail))) := by
    simp only [List.append_assoc, List.cons_append, tail]
  rw [text, same]
  have takes := h.toPathRead.reads two stands₂ ⟨rfl, rfl⟩ rest
  rw [← second, ← first] at takes
  rw [begins] at takes ⊢
  rw [List.cons_append, parseOn_initial initial (by decide)]
  exact takes

theorem OtherRead.reads {text : List Octet} (h : OtherRead size uri) (given : uri.other = some text)
    (other : IsOther text) (short : text.length < size) (initial : s.state = .initial) (stands : InFront size {} s)
    (rest : List Octet) : Takes size (readAgain uri) rest (parseOn s (cstr text ++ SP :: rest)) := by
  have stands₀ : InFront size {} { s with state := .scheme } := ⟨stands.holds, stands.capacity, stands.requestUri⟩
  have takes := schemeOn_other stands₀ other.cstr ((List.takeWhile_prefix _).length_le.trans_lt short) rest
  have same : readAgain uri = { type := .other, other := some ((cstr text).rdropWhile Buffer.isTrimmed) } := by
    rw [readAgain, h.type, given]
    rfl
  obtain ⟨scheme, behind, shape, ⟨⟨c, front, rfl, alpha, -⟩, -⟩, -⟩ := other.cstr
  have kind : kindOf c = .scheme := by
    rw [kindOf, if_neg (by rintro rfl; exact absurd alpha (by decide)),
      if_neg (by rintro rfl; exact absurd alpha (by decide))]
  rw [same]
  rw [shape] at takes ⊢
  rw [List.cons_append, List.cons_append,
    parseOn_initial initial (visible_ne (alphaNum_visible (letter_alphaNum alpha))).2.2.2, kind]
  exact takes

theorem asterisk_reads (type : uri.type = .asterisk) (initial : s.state = .initial) (stands : InFront size {} s)
    (rest : List Octet) : Takes size (readAgain uri) rest (parseOn s (octets "*" ++ SP :: rest)) := by
  have same : readAgain uri = { type := .asterisk } := by rw [readAgain, type]
  rw [same, show octets "*" ++ SP :: rest = octet '*' :: SP :: rest from rfl, parseOn_initial initial (by decide)]
  have fresh := stands.requestUri
  refine ⟨rfl, ?_, rfl, stands.holds.wf, stands.capacity⟩
  change { s.requestUri with type := .asterisk } = _
  rw [fresh]

/-- **A target that was read can be written, and is read again from what was written**, where there is room for the
scheme. -/
theorem WellRead.reads (well : WellRead size uri) (two : 2 ≤ size) (fits : SchemeFits size uri)
    (initial : s.state = .initial) (stands : InFront size {} s) (rest : List Octet) :
    Takes size (readAgain uri) rest (parseOn s (targetText uri ++ SP :: rest)) := by
  cases well with
  | asterisk type =>
      rw [targetText, ← spells_eq_remaining (asterisk_spells type)]
      exact asterisk_reads type initial stands rest
  | path h =>
      rw [targetText, ← spells_eq_remaining h.spells]
      exact h.reads initial stands two rest
  | host h =>
      obtain ⟨name, given, -⟩ := h.host
      rw [targetText, ← spells_eq_remaining (h.spells given)]
      exact h.reads given initial stands two fits rest
  | other h =>
      obtain ⟨text, given, other, short⟩ := h.other
      rw [targetText, ← spells_eq_remaining (h.spells given other)]
      exact h.reads given other short initial stands rest

/-- Where there is no room for the scheme, the target is refused. -/
theorem WellRead.refuses (well : WellRead size uri) (tight : ¬ SchemeFits size uri) (initial : s.state = .initial)
    (stands : InFront size {} s) (rest : List Octet) : (parseOn s (targetText uri ++ SP :: rest)).code ≠ .success := by
  obtain ⟨type, hosted, full⟩ : (uri.type = .http ∨ uri.type = .https) ∧ uri.host ≠ none ∧
      ¬ (schemeName uri.type).length < size := by simpa [SchemeFits] using tight
  cases well with
  | asterisk other => rcases type with type | type <;> cases other.symm.trans type
  | path h => exact absurd h.host hosted
  | other h => rcases type with type | type <;> cases h.type.symm.trans type
  | host h =>
      obtain ⟨name, given, -⟩ := h.host
      obtain ⟨letters, begins⟩ := schemeName_letter uri.type
      have plain : octet ':' ∉ schemeName uri.type := by rcases type with type | type <;> rw [type] <;> decide
      have few : ¬ Taken size (schemeName uri.type) := by
        rw [begins] at full ⊢
        exact fun taken => full taken.2.2
      obtain ⟨holds, rfl, -⟩ := stands
      rw [targetText, ← spells_eq_remaining (h.spells given), List.append_assoc, List.cons_append]
      rcases whole_scheme_read (s := { s with state := .scheme }) rfl holds plain _ with ⟨taken, -⟩ | ⟨-, refused⟩
      · exact absurd taken few
      · have refused := refused.success
        rw [begins] at refused ⊢
        rw [List.cons_append, parseOn_initial initial (by decide)]
        exact refused

theorem WellRead.spells (well : WellRead size uri) : Spells (targetElements uri) (targetText uri) := by
  have all {text : List Octet} (spells : Spells (targetElements uri) text) :
      Spells (targetElements uri) (targetText uri) := by
    rwa [targetText, ← spells_eq_remaining spells]
  cases well with
  | asterisk type => exact all (asterisk_spells type)
  | path h => exact all h.spells
  | host h =>
      obtain ⟨name, given, -⟩ := h.host
      exact all (h.spells given)
  | other h =>
      obtain ⟨text, given, other, -⟩ := h.other
      exact all (h.spells given other)

end parse

/-! ## What is lost -/

theorem effectivePort_again {again : HttpRequestUri} (type : again.type = uri.type)
    (known : uri.type = .http ∨ uri.type = .https) (port : again.port = if isDefaultPort uri then -1 else uri.port) :
    again.effectivePort = uri.effectivePort := by
  rw [HttpRequestUri.effectivePort, HttpRequestUri.effectivePort, type, port, isDefaultPort]
  rcases known with known | known <;> simp only [known, decide_true, decide_false, reduceCtorEq, Bool.true_and,
    Bool.false_and, Bool.or_false, Bool.or_eq_true, decide_eq_true_eq, if_true, if_false] <;> split_ifs <;> omega

theorem shown_same_iff (component : Option (List Octet)) :
    (shown component).map cstr = component.map cstr ↔ component ≠ some [] := by
  rcases component with _ | _ | ⟨c, text⟩
  · exact iff_of_true rfl (by rintro ⟨⟩)
  · exact iff_of_false (by rintro ⟨⟩) (not_not.mpr rfl)
  · exact iff_of_true rfl (by rintro ⟨⟩)

/-- The target is the same for `Compare` when it has been read again, unless white space or an empty query was
lost. -/
theorem Compare_readAgain_iff (uri : HttpRequestUri) : HttpRequestUri.Compare (readAgain uri) uri = 0 ↔
    (uri.type = .other → endsSpaced (cstr (uri.other.getD [])) = false) ∧
      (uri.type = .http ∨ uri.type = .https → uri.query ≠ some []) := by
  by_cases type : uri.type = .http ∨ uri.type = .https
  · have again := readAgain_http type
    have is : (readAgain uri).IsHttp := by
      rw [again]
      exact type
    have plain : uri.type ≠ .other := by rcases type with type | type <;> rw [type] <;> decide
    rw [HttpRequestUri.Compare_eq_zero_iff is, and_iff_right fun other => absurd other plain, imp_iff_right type,
      ← shown_same_iff]
    constructor
    · intro same
      have query := same.query
      rwa [again] at query
    · intro query
      refine ⟨by rw [again], by rw [again], ?_, by rw [again]; rfl, by rwa [again]⟩
      exact effectivePort_again (by rw [again]) type (by rw [again])
  · rw [and_iff_left fun http => absurd http type]
    cases kind : uri.type with
    | http => exact absurd (.inl kind) type
    | https => exact absurd (.inr kind) type
    | asterisk =>
        refine iff_of_true ?_ (by rintro ⟨⟩)
        rw [readAgain, kind, HttpRequestUri.Compare, if_pos ⟨rfl, kind⟩]
    | other =>
        have plain : cstr ((cstr (uri.other.getD [])).rdropWhile Buffer.isTrimmed) =
            (cstr (uri.other.getD [])).rdropWhile Buffer.isTrimmed :=
          cstr_eq_self fun inside => nul_notMem_cstr _ ((List.rdropWhile_prefix _ _).subset inside)
        rw [readAgain, kind, HttpRequestUri.Compare, if_neg (by simp), if_pos ⟨rfl, kind⟩, strcmp_eq_zero_iff,
          Option.getD_some, plain, imp_iff_right rfl, rdropWhile_eq_self_iff]

end written

end HttpRequestUriParser

end Everscale
