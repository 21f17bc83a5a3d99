/-
# Everscale.Http1.TargetReading -- reading the components of a target one by one

Each component is read in front of any rest: its octets are kept (`scan_run`), and the octet behind them takes
the parser to the next component (`InFront`) or to the end of the target (`Takes`).
-/
import Everscale.Http1.TargetShape

namespace Everscale

set_option autoImplicit false

open Theory HttpUtil

namespace HttpRequestUriParser

open HttpRequestUriFormatter (uricText)

/-! ## Runs of octets -/

section runs

variable {act : HttpRequestUriParser → Octet → Act Error HttpRequestUriParser}
  (after : StreamParser HttpRequestUriParser) {s : HttpRequestUriParser} {held text : List Octet}

/-- A run of octets that the loop keeps is gathered, in front of any rest. -/
theorem scan_run {P : HttpRequestUriParser → Prop} {p : Octet → Bool}
    (takes : ∀ s c, P s → p c = true → act s c = .keep (s.put c))
    (stays : ∀ s held c, Holds s.working (held ++ [c]) 0 → P s) (here : P s) (holds : Holds s.working held 0)
    (all : text.all p = true) (room : held.length + text.length ≤ s.working.capacity) (rest : List Octet) :
    ∃ working, Holds working (held ++ text) 0 ∧ working.capacity = s.working.capacity ∧
      scan .again workingFull act after s (text ++ rest) =
        scan .again workingFull act after { s with working } rest := by
  induction text generalizing s held with
  | nil => exact ⟨s.working, by rwa [List.append_nil], rfl, rfl⟩
  | cons c text ih =>
      rw [List.all_cons, Bool.and_eq_true] at all
      rw [List.length_cons] at room
      obtain ⟨holds', capacity⟩ := holds.putNext (by omega) c
      have later : (held ++ [c]).length + text.length ≤ (s.put c).working.capacity := by
        rw [put, capacity, List.length_append, List.length_singleton]
        omega
      obtain ⟨working, gathered, same, read⟩ := ih (s := s.put c) (stays _ held c holds') holds' all.2 later
      refine ⟨working, by rwa [← List.append_cons] at gathered, same.trans capacity, ?_⟩
      rw [List.cons_append, scan, workingFull_room holds (by omega)]
      dsimp only
      rw [takes s c here all.1]
      exact read

/-- A component that has been begun is past its start. -/
theorem begun (holds : Holds s.working held 0) (some : held ≠ []) : s.atStart = false := by
  rw [atStart_iff holds, decide_eq_false some]

/-- A run behind the first octet of a component. -/
theorem scan_component {p : Octet → Bool} {c : Octet} (holds : Holds s.working [] 0)
    (first : ∀ s, s.atStart = true → act s c = .keep (s.put c))
    (takes : ∀ s c, s.atStart = false → p c = true → act s c = .keep (s.put c)) (all : text.all p = true)
    (room : (c :: text).length ≤ s.working.capacity) (rest : List Octet) :
    ∃ working, Holds working (c :: text) 0 ∧ working.capacity = s.working.capacity ∧
      scan .again workingFull act after s (c :: text ++ rest) =
        scan .again workingFull act after { s with working } rest := by
  rw [List.length_cons] at room
  obtain ⟨holds', capacity⟩ := holds.putNext (show ([] : List Octet).length < _ from Nat.zero_lt_of_lt room) c
  have later : ([] ++ [c]).length + text.length ≤ (s.put c).working.capacity := by
    rw [put, capacity, List.nil_append, List.length_singleton]
    omega
  obtain ⟨working, gathered, same, read⟩ := scan_run after takes (fun _ _ _ holds => begun holds (by simp))
    (begun (s := s.put c) holds' (by simp)) holds' all later rest
  refine ⟨working, gathered, same.trans capacity, ?_⟩
  rw [List.cons_append, scan, workingFull_room holds (Nat.zero_lt_of_lt room)]
  dsimp only
  rw [first s (by rw [atStart_iff holds, decide_eq_true rfl])]
  exact read

variable {after}

/-- The octet behind a run. -/
theorem scan_jump {s' : HttpRequestUriParser} {c : Octet} (holds : Holds s.working held 0)
    (room : held.length < s.working.capacity) (jumps : act s c = .jump s') (rest : List Octet) :
    scan .again workingFull act after s (c :: rest) = after s' rest := by
  rw [scan, workingFull_room holds room]
  dsimp only
  rw [jumps]

theorem scan_back {s' : HttpRequestUriParser} {c : Octet} (holds : Holds s.working held 0)
    (room : held.length < s.working.capacity) (goes : act s c = .back s') (rest : List Octet) :
    scan .again workingFull act after s (c :: rest) = after s' (c :: rest) := by
  rw [scan, workingFull_room holds room]
  dsimp only
  rw [goes]

end runs

/-! ## Components -/

/-- The text and a space behind it are taken, and this is the target then. -/
structure Takes (size : Nat) (uri : HttpRequestUri) (rest : List Octet)
    (o : Outcome Error HttpRequestUriParser (List Octet)) : Prop where
  code : o.code = .success
  requestUri : o.state.requestUri = uri
  input : o.input = rest
  wf : o.state.working.WF
  capacity : o.state.working.capacity = size

/-- A component that is there and not empty; no other is written. -/
def shown (component : Option (List Octet)) : Option (List Octet) := component.filter (· ≠ [])

section components

variable {s : HttpRequestUriParser} {text : List Octet} {uri : HttpRequestUri}

theorem leave_takes {held : List Octet} (holds : Holds s.working held 0) (rest : List Octet) :
    Takes s.working.capacity uri rest ⟨.success, s.leave .parseComplete uri, rest⟩ :=
  ⟨rfl, rfl, rfl, Buffer.clear_wf holds.wf, Buffer.clear_capacity s.working⟩

theorem duplicate_visible {working : Buffer} (holds : Holds working text 0) (all : text.all isVisible = true) :
    working.duplicate = text := by rw [holds.duplicate, rdropWhile_visible all]

theorem fragmentOn_reads (holds : Holds s.working [] 0) (all : text.all isUric = true)
    (room : text.length < s.working.capacity) (rest : List Octet) :
    Takes s.working.capacity { s.requestUri with fragment := some text } rest (fragmentOn s (text ++ SP :: rest)) := by
  have takes (s : HttpRequestUriParser) (c : Octet) (_ : True) (uric : isUric c = true) :
      fragmentOctet s c = .keep (s.put c) := by rw [fragmentOctet, if_pos uric]
  obtain ⟨working, gathered, same, read⟩ :=
    scan_run finishedOn takes (fun _ _ _ _ => trivial) trivial holds all (by simpa using room.le) (SP :: rest)
  rw [List.nil_append] at gathered
  have jumps : fragmentOctet { s with working } SP =
      .jump ({ s with working }.leave .parseComplete { s.requestUri with fragment := some text }) := by
    rw [fragmentOctet, if_neg (by decide), if_pos (by decide), duplicate_visible gathered (uric_all_visible all)]
  rw [fragmentOn, read, scan_jump gathered (same ▸ room) jumps, ← same]
  exact leave_takes (s := { s with working }) gathered rest

/-- What stands behind a path. -/
def tailText (query fragment : Option (List Octet)) : List Octet :=
  uricText (octet '?') query ++ uricText (octet '#') fragment

/-- A query or fragment that can be read. -/
structure UricRead (size : Nat) (component : Option (List Octet)) : Prop where
  uric : ∀ text ∈ component, text.all isUric = true
  short : ∀ text ∈ component, text.length < size

/-- Text that needs no escapes is written as it stands. -/
theorem unescaped {isPlain : Octet → Bool} (all : text.all isPlain = true) :
    (text.flatMap fun c => if isPlain c then [c] else escape c) = text := by
  induction text with
  | nil => rfl
  | cons c text ih =>
      rw [List.all_cons, Bool.and_eq_true] at all
      rw [List.flatMap_cons, if_pos all.1, ih all.2]
      rfl

theorem uricText_eq (introducer : Octet) {component : Option (List Octet)}
    (uric : ∀ text ∈ component, text.all isUric = true) :
    uricText introducer component = (shown component).elim [] (introducer :: ·) := by
  cases component with
  | none => rfl
  | some text =>
      have all := uric text rfl
      rw [uricText, Option.getD_some, cstr_visible (uric_all_visible all)]
      cases text with
      | nil => rfl
      | cons c text =>
          dsimp only
          rw [unescaped all]
          rfl

theorem shown_eq {component : Option (List Octet)} (there : shown component = some text) : component = some text :=
  (Option.filter_eq_some_iff.mp there).1

/-- The end of a target, behind a component that may be followed by a fragment. -/
theorem fragment_reads {act : HttpRequestUriParser → Octet → Act Error HttpRequestUriParser}
    {after : StreamParser HttpRequestUriParser} {held : List Octet} {fragment : Option (List Octet)}
    (holds : Holds s.working held 0) (room : held.length < s.working.capacity)
    (space : act s SP = .jump (s.leave .parseComplete uri)) (hash : act s (octet '#') = .jump (s.leave .fragment uri))
    (ends : ∀ s u, s.state = .parseComplete → after s u = finishedOn s u)
    (goes : ∀ s u, s.state = .fragment → after s u = fragmentOn s u)
    (behind : UricRead s.working.capacity fragment) (none' : uri.fragment = none) (rest : List Octet) :
    Takes s.working.capacity { uri with fragment := shown fragment } rest
      (scan .again workingFull act after s (uricText (octet '#') fragment ++ SP :: rest)) := by
  rw [uricText_eq _ behind.uric]
  cases there : shown fragment with
  | none =>
      rw [Option.elim_none, List.nil_append, scan_jump holds room space, ends _ _ rfl, ← none']
      exact leave_takes holds rest
  | some text =>
      have here := shown_eq there
      rw [Option.elim_some, List.cons_append, scan_jump holds room hash, goes _ _ rfl]
      have cleared : (s.leave .fragment uri).working.capacity = s.working.capacity := Buffer.clear_capacity s.working
      have read := fragmentOn_reads (s := s.leave .fragment uri) (.clear holds.wf) (behind.uric text here)
        (cleared ▸ behind.short text here) rest
      rwa [cleared] at read

theorem queryOn_reads (holds : Holds s.working [] 0) (all : text.all isUric = true)
    (room : text.length < s.working.capacity) {fragment : Option (List Octet)}
    (behind : UricRead s.working.capacity fragment) (none' : s.requestUri.fragment = none) (rest : List Octet) :
    Takes s.working.capacity { s.requestUri with query := some text, fragment := shown fragment } rest
      (queryOn s (text ++ (uricText (octet '#') fragment ++ SP :: rest))) := by
  have takes (s : HttpRequestUriParser) (c : Octet) (_ : True) (uric : isUric c = true) :
      queryOctet s c = .keep (s.put c) := by rw [queryOctet, if_pos uric]
  obtain ⟨working, gathered, same, read⟩ := scan_run afterQueryOn takes (fun _ _ _ _ => trivial) trivial holds all
    (by simpa using room.le) (uricText (octet '#') fragment ++ SP :: rest)
  rw [List.nil_append] at gathered
  have whole := duplicate_visible gathered (uric_all_visible all)
  have space : queryOctet { s with working } SP =
      .jump ({ s with working }.leave .parseComplete { s.requestUri with query := some text }) := by
    rw [queryOctet, if_neg (by decide)]
    dsimp only
    rw [if_neg (by decide), if_pos (by decide), whole]
  have hash : queryOctet { s with working } (octet '#') =
      .jump ({ s with working }.leave .fragment { s.requestUri with query := some text }) := by
    rw [queryOctet, if_neg (by decide)]
    dsimp only
    rw [if_pos rfl, whole]
  rw [queryOn, read, ← same]
  refine fragment_reads gathered (same ▸ room) space hash (fun s u state => ?_) (fun s u state => ?_)
    (same.symm ▸ behind) none' rest
  · rw [afterQueryOn, state]
  · rw [afterQueryOn, state]

/-- The octets of a path behind its slash are kept. -/
theorem absPathOctet_takes (s : HttpRequestUriParser) (c : Octet) (later : s.atStart = false)
    (inside : admitted .absPath c = true) : absPathOctet s c = .keep (s.put c) := by
  rw [absPathOctet, if_neg (by rw [later]; decide)]
  by_cases pchar : isPchar c = true
  · rw [if_pos pchar]
  · rw [if_neg pchar, if_pos]
    simpa [admitted, HttpRequestUriFormatter.isPath, pchar] using inside

theorem absPathOn_reads (holds : Holds s.working [] 0) (path : IsPath text)
    (room : text.length < s.working.capacity) {query fragment : Option (List Octet)}
    (asked : UricRead s.working.capacity query) (behind : UricRead s.working.capacity fragment)
    (none' : s.requestUri.query = none ∧ s.requestUri.fragment = none) (rest : List Octet) :
    Takes s.working.capacity
      { s.requestUri with absPath := some text, query := shown query, fragment := shown fragment } rest
      (absPathOn s (text ++ (tailText query fragment ++ SP :: rest))) := by
  have visible := IsPath.all_visible (.inr path)
  cases text with
  | nil => exact path.elim
  | cons slash text =>
      obtain ⟨rfl, all⟩ := path
      have first (s : HttpRequestUriParser) (start : s.atStart = true) :
          absPathOctet s (octet '/') = .keep (s.put (octet '/')) := by rw [absPathOctet, if_pos start, if_pos rfl]
      obtain ⟨working, gathered, same, read⟩ := scan_component afterAbsPathOn holds first
        absPathOctet_takes all room.le (tailText query fragment ++ SP :: rest)
      have whole := duplicate_visible gathered visible
      have later : ¬ { s with working }.atStart = true := by
        rw [begun (s := { s with working }) gathered (by simp)]
        decide
      let uri := { s.requestUri with absPath := some (octet '/' :: text) }
      have space : absPathOctet { s with working } SP = .jump ({ s with working }.leave .parseComplete uri) := by
        rw [absPathOctet, if_neg later, if_neg (by decide), if_neg (by decide)]
        dsimp only
        rw [if_neg (by decide), if_neg (by decide), if_pos (by decide), whole]
      have hash : absPathOctet { s with working } (octet '#') = .jump ({ s with working }.leave .fragment uri) := by
        rw [absPathOctet, if_neg later, if_neg (by decide), if_neg (by decide)]
        dsimp only
        rw [if_neg (by decide), if_pos rfl, whole]
      have mark : absPathOctet { s with working } (octet '?') = .jump ({ s with working }.leave .query uri) := by
        rw [absPathOctet, if_neg later, if_neg (by decide), if_neg (by decide)]
        dsimp only
        rw [if_pos rfl, whole]
      rw [absPathOn, read, tailText, uricText_eq _ asked.uric, ← same]
      cases there : shown query with
      | none =>
          rw [Option.elim_none, List.nil_append, ← none'.1]
          refine fragment_reads gathered (same ▸ room) space hash (fun s u state => ?_) (fun s u state => ?_)
            (same.symm ▸ behind) none'.2 rest
          · rw [afterAbsPathOn, state, afterQueryOn, state]
          · rw [afterAbsPathOn, state, afterQueryOn, state]
      | some text =>
          have here := shown_eq there
          have cleared : ({ s with working }.leave .query uri).working.capacity = working.capacity :=
            Buffer.clear_capacity working
          rw [Option.elim_some, List.append_assoc, List.cons_append, scan_jump gathered (same ▸ room) mark]
          have read := queryOn_reads (s := { s with working }.leave .query uri) (.clear gathered.wf)
            (asked.uric text here) (by rw [cleared, same]; exact asked.short text here)
            (show UricRead _ fragment by rw [cleared, same]; exact behind) none'.2 rest
          rwa [cleared] at read

end components

/-! ## Hosts and ports -/

section hosts

variable {size : Nat} {s : HttpRequestUriParser} {uri : HttpRequestUri} {name rest : List Octet}

/-- In front of a component, with nothing gathered of it. -/
structure InFront (size : Nat) (uri : HttpRequestUri) (s : HttpRequestUriParser) : Prop where
  holds : Holds s.working [] 0
  capacity : s.working.capacity = size
  requestUri : s.requestUri = uri

theorem leave_inFront {held : List Octet} (holds : Holds s.working held 0) (stage : UriStage) :
    InFront s.working.capacity uri (s.leave stage uri) :=
  ⟨.clear holds.wf, Buffer.clear_capacity s.working, rfl⟩

/-- A number with one digit more. -/
def withDigit (n : Nat) (c : Octet) : Nat := n * 10 + (c.toNat - 48)

theorem le_foldl_withDigit (digits : List Octet) (n : Nat) : n ≤ digits.foldl withDigit n := by
  induction digits generalizing n with
  | nil => exact Nat.le_refl n
  | cons c digits ih =>
      have more : n ≤ withDigit n c := by rw [withDigit]; omega
      exact more.trans (ih (withDigit n c))

theorem portOctet_digit {n : Nat} {c : Octet} (digit : isDigit c = true)
    (counted : (if s.requestUri.port < 0 then 0 else s.requestUri.port) = (n : Int)) (below : withDigit n c < 65536) :
    portOctet s c = .keep { s with requestUri := { s.requestUri with port := (withDigit n c : Int) } } := by
  have value : (n : Int) * 10 + ((c.toNat - 48 : Nat) : Int) = (withDigit n c : Int) := by
    rw [withDigit, Nat.cast_add, Nat.cast_mul]
    rfl
  rw [portOctet, if_pos digit]
  dsimp only
  rw [counted, value, if_neg (by omega)]

/-- A port is read digit by digit; before the first it counts as none. -/
theorem portOn_digits {digits : List Octet} {n : Nat} (all : digits.all isDigit = true) (some : digits ≠ [])
    (counted : (if s.requestUri.port < 0 then 0 else s.requestUri.port) = (n : Int))
    (below : digits.foldl withDigit n < 65536) (rest : List Octet) :
    portOn s (digits ++ rest) =
      portOn { s with requestUri := { s.requestUri with port := (digits.foldl withDigit n : Nat) } } rest := by
  induction digits generalizing s n with
  | nil => exact absurd rfl some
  | cons c digits ih =>
      rw [List.all_cons, Bool.and_eq_true] at all
      have here := (le_foldl_withDigit digits (withDigit n c)).trans_lt below
      rw [List.cons_append, portOn, scan]
      dsimp only
      rw [portOctet_digit all.1 counted here]
      cases digits with
      | nil => rfl
      | cons d digits =>
          have positive : ¬ ((withDigit n c : Nat) : Int) < 0 := by omega
          exact ih (s := { s with requestUri := { s.requestUri with port := (withDigit n c : Nat) } }) all.2 (by simp)
            (if_neg positive) below

theorem numeral_digit (n : Nat) : (numeral 10 n).all isDigit = true :=
  List.all_eq_true.mpr (numeral_digits (by decide) (by decide) n)

theorem portOn_numeral (stands : InFront size uri s) (none' : uri.port < 0) {port : Nat} (below : port < 65536)
    (rest : List Octet) :
    ∃ s', InFront size { uri with port } s' ∧
      portOn s (numeral 10 port ++ octet '/' :: rest) = absPathOn s' (octet '/' :: rest) := by
  obtain ⟨holds, rfl, rfl⟩ := stands
  have value : (numeral 10 port).foldl withDigit 0 = port :=
    foldl_numeral (by decide) (by decide) (fun d small => by interval_cases d <;> decide) port
  have positive : ¬ (port : Int) < 0 := by omega
  refine ⟨s.leave .absPath { s.requestUri with port }, leave_inFront holds .absPath, ?_⟩
  rw [portOn_digits (numeral_digit port) (numeral_ne_nil 10 port) (n := 0) (if_pos none') (by rw [value]; exact below),
    value, portOn, scan]
  dsimp only
  rw [portOctet, if_neg (by decide)]
  dsimp only
  rw [if_neg positive, if_neg (by decide), if_pos rfl]
  rfl

theorem hostOctet_takes (s : HttpRequestUriParser) (c : Octet) (later : s.atStart = false)
    (inside : admitted .host c = true) : hostOctet s c = .keep (s.put c) := by
  rw [hostOctet, if_neg (by rw [later]; decide)]
  by_cases letter : isAlphaNum c = true
  · rw [if_pos letter]
  · rw [if_neg letter, if_pos]
    simpa [admitted, letter] using inside

/-- The name of a host is read up to the octet behind it. -/
theorem hostOn_name (holds : Holds s.working [] 0) (host : IsHost name) (room : name.length < s.working.capacity)
    (rest : List Octet) :
    ∃ working, Holds working name 0 ∧ working.duplicate = name ∧ working.capacity = s.working.capacity ∧
      hostOn s (name ++ rest) = hostOn { s with working } rest := by
  have visible := IsHost.all_visible (.inr host)
  cases name with
  | nil => exact host.elim
  | cons c name =>
      have first (s : HttpRequestUriParser) (start : s.atStart = true) : hostOctet s c = .keep (s.put c) := by
        rw [hostOctet, if_pos start, if_pos host.1]
      obtain ⟨working, gathered, same, read⟩ :=
        scan_component afterHostOn holds first hostOctet_takes host.2 room.le rest
      exact ⟨working, gathered, duplicate_visible gathered visible, same, read⟩

theorem IsHost.ne_nil (host : IsHost name) : name ≠ [] := by
  rintro rfl
  exact host

theorem hostOn_path (stands : InFront size uri s) (host : IsHost name) (room : name.length < size) (rest : List Octet) :
    ∃ s', InFront size { uri with host := some name } s' ∧
      hostOn s (name ++ octet '/' :: rest) = absPathOn s' (octet '/' :: rest) := by
  obtain ⟨holds, rfl, rfl⟩ := stands
  obtain ⟨working, gathered, whole, same, read⟩ := hostOn_name holds host room (octet '/' :: rest)
  have later : ¬ { s with working }.atStart = true := by
    rw [begun (s := { s with working }) gathered host.ne_nil]
    decide
  have goes : hostOctet { s with working } (octet '/') =
      .back ({ s with working }.leave .absPath { s.requestUri with host := some name }) := by
    rw [hostOctet, if_neg later, if_neg (by decide), if_neg (by decide)]
    dsimp only
    rw [if_neg (by decide), if_neg (by decide), if_pos rfl, whole]
  refine ⟨_, same ▸ leave_inFront (s := { s with working }) gathered .absPath, ?_⟩
  rw [read, hostOn, scan_back gathered (same ▸ room) goes]
  rfl

theorem hostOn_port (stands : InFront size uri s) (host : IsHost name) (room : name.length < size) (none' : uri.port < 0)
    (port : Nat) (below : port < 65536) (rest : List Octet) :
    ∃ s', InFront size { uri with host := some name, port } s' ∧
      hostOn s (name ++ octet ':' :: (numeral 10 port ++ octet '/' :: rest)) = absPathOn s' (octet '/' :: rest) := by
  obtain ⟨holds, rfl, rfl⟩ := stands
  obtain ⟨working, gathered, whole, same, read⟩ :=
    hostOn_name holds host room (octet ':' :: (numeral 10 port ++ octet '/' :: rest))
  have later : ¬ { s with working }.atStart = true := by
    rw [begun (s := { s with working }) gathered host.ne_nil]
    decide
  have jumps : hostOctet { s with working } (octet ':') =
      .jump ({ s with working }.leave .port { s.requestUri with host := some name }) := by
    rw [hostOctet, if_neg later, if_neg (by decide), if_neg (by decide)]
    dsimp only
    rw [if_pos rfl, whole]
  have stands : InFront s.working.capacity { s.requestUri with host := some name } _ :=
    same ▸ leave_inFront (s := { s with working }) gathered .port
  obtain ⟨s', stands', reads⟩ := portOn_numeral stands none' below rest
  refine ⟨s', stands', ?_⟩
  rw [read, hostOn, scan_jump gathered (same ▸ room) jumps, ← reads]
  rfl

/-! ## Schemes -/

theorem schemeOn_read {scheme : List Octet} (holds : Holds s.working [] 0)
    (begins : ∃ c front, scheme = c :: front ∧ isAlpha c = true ∧ front.all isTaken = true)
    (room : scheme.length < s.working.capacity) (rest : List Octet) :
    ∃ working, Holds working scheme 0 ∧ working.capacity = s.working.capacity ∧
      schemeOn s (scheme ++ rest) = schemeOn { s with working } rest := by
  obtain ⟨c, front, rfl, alpha, all⟩ := begins
  have first (s : HttpRequestUriParser) (start : s.atStart = true) : schemeOctet s c = .keep (s.put c) := by
    rw [schemeOctet_first start, if_pos alpha]
  have takes (s : HttpRequestUriParser) (d : Octet) (later : s.atStart = false) (taken : isTaken d = true) :
      schemeOctet s d = .keep (s.put d) := schemeOctet_taken later taken
  obtain ⟨working, gathered, same, read⟩ := scan_component afterSchemeOn holds first takes all room.le rest
  exact ⟨working, gathered, same, read⟩

/-- What is written in front of the colon. -/
def schemeName (type : UriType) : List Octet := if type = .https then octets "https" else octets "http"

theorem schemeOn_http (stands : InFront size uri s) {type : UriType} (known : type = .http ∨ type = .https)
    (room : (schemeName type).length < size) (host : IsHost name) (rest : List Octet) :
    ∃ s', InFront size { uri with type } s' ∧
      schemeOn s (schemeName type ++ octet ':' :: octet '/' :: octet '/' :: (name ++ rest)) =
        hostOn s' (name ++ rest) := by
  obtain ⟨holds, rfl, rfl⟩ := stands
  have begins : ∃ c front, schemeName type = c :: front ∧ isAlpha c = true ∧ front.all isTaken = true := by
    rcases known with rfl | rfl
    · exact ⟨octet 'h', octets "ttp", by decide, by decide, by decide⟩
    · exact ⟨octet 'h', octets "ttps", by decide, by decide, by decide⟩
  obtain ⟨working, gathered, same, read⟩ :=
    schemeOn_read holds begins room (octet ':' :: octet '/' :: octet '/' :: (name ++ rest))
  have some : schemeName type ≠ [] := by
    obtain ⟨c, front, shape, -⟩ := begins
    rw [shape]
    exact List.cons_ne_nil c front
  have later : ¬ { s with working }.atStart = true := by
    rw [begun (s := { s with working }) gathered some]
    decide
  have jumps : schemeOctet { s with working } (octet ':') =
      .jump ({ s with working }.leave .skippingFwdSlashes { s.requestUri with type }) := by
    rw [schemeOctet, if_neg later, if_neg (by decide), if_neg (by decide), if_pos rfl, Buffer.matchLiteral,
      Buffer.matchLiteral, gathered.unread]
    rcases known with rfl | rfl
    · rw [if_pos (by decide)]
    · rw [if_neg (by decide), if_pos (by decide)]
  have slashes : (octet '/' :: octet '/' :: (name ++ rest)).dropWhile (· = octet '/') = name ++ rest := by
    cases name with
    | nil => exact host.elim
    | cons c name =>
        have other : c ≠ octet '/' := by
          rintro rfl
          exact absurd host.1 (by decide)
        rw [List.dropWhile_cons_of_pos (by decide), List.dropWhile_cons_of_pos (by decide), List.cons_append,
          List.dropWhile_cons_of_neg (by simpa using other)]
  have nonempty : name ++ rest ≠ [] := by simp [host.ne_nil]
  let s' : HttpRequestUriParser := { s with working }.leave .skippingFwdSlashes { s.requestUri with type }
  refine ⟨{ s' with state := .host }, ?_, ?_⟩
  · exact ⟨.clear gathered.wf, (Buffer.clear_capacity working).trans same, rfl⟩
  · rw [read, schemeOn, scan_jump gathered (same ▸ room) jumps,
      show afterSchemeOn s' _ = forwardSlashesOn s' _ from rfl, forwardSlashesOn, slashes, if_neg nonempty]

theorem nonHttpUriOn_reads {held text : List Octet} (holds : Holds s.working held 0)
    (unspaced : text.all (!isSpace ·) = true) (room : held.length + text.length < s.working.capacity)
    (rest : List Octet) :
    Takes s.working.capacity { s.requestUri with other := some ((held ++ text).rdropWhile Buffer.isTrimmed) } rest
      (nonHttpUriOn s (text ++ SP :: rest)) := by
  have takes (s : HttpRequestUriParser) (c : Octet) (_ : True) (black : (!isSpace c) = true) :
      nonHttpUriOctet s c = .keep (s.put c) := by
    rw [nonHttpUriOctet, if_neg (by simpa using black)]
  obtain ⟨working, gathered, same, read⟩ :=
    scan_run finishedOn takes (fun _ _ _ _ => trivial) trivial holds unspaced room.le (SP :: rest)
  have jumps : nonHttpUriOctet { s with working } SP = .jump ({ s with working }.leave .parseComplete
      { s.requestUri with other := some ((held ++ text).rdropWhile Buffer.isTrimmed) }) := by
    rw [nonHttpUriOctet, if_pos (by decide), gathered.duplicate]
  rw [nonHttpUriOn, read, scan_jump gathered (by rw [List.length_append, same]; exact room) jumps, ← same]
  exact leave_takes (s := { s with working }) gathered rest

/-- A target with another scheme is read as it stands, but for white space at its end. -/
theorem schemeOn_other {text : List Octet} (stands : InFront size uri s) (other : IsOther text)
    (room : text.length < size) (rest : List Octet) :
    Takes size { uri with type := .other, other := some (text.rdropWhile Buffer.isTrimmed) } rest
      (schemeOn s (text ++ SP :: rest)) := by
  obtain ⟨holds, rfl, rfl⟩ := stands
  obtain ⟨scheme, behind, rfl, ⟨begins, kind⟩, unspaced⟩ := other
  rw [List.length_append, List.length_cons] at room
  have some : scheme ≠ [] := by
    obtain ⟨c, front, rfl, -⟩ := begins
    exact List.cons_ne_nil c front
  obtain ⟨working, gathered, same, read⟩ :=
    schemeOn_read holds begins (by omega) (octet ':' :: (behind ++ SP :: rest))
  have later : ¬ { s with working }.atStart = true := by
    rw [begun (s := { s with working }) gathered some]
    decide
  let s' : HttpRequestUriParser := { s with
    working := working.putNext (octet ':'), state := .nonHttpUri, requestUri := { s.requestUri with type := .other } }
  have jumps : schemeOctet { s with working } (octet ':') = .jump s' := by
    rw [kindTaken] at kind
    split_ifs at kind with http https
    rw [schemeOctet, if_neg later, if_neg (by decide), if_neg (by decide), if_pos rfl, Buffer.matchLiteral,
      Buffer.matchLiteral, gathered.unread, if_neg http, if_neg https]
    rfl
  obtain ⟨holds', capacity⟩ := gathered.putNext (by omega) (octet ':')
  have taken := nonHttpUriOn_reads (s := s') holds' unspaced
    (by rw [show s'.working.capacity = _ from capacity, same, List.length_append, List.length_singleton]; omega) rest
  rw [List.append_assoc, List.cons_append, read, schemeOn, scan_jump gathered (by dsimp only; omega) jumps]
  rw [← List.append_cons, show s'.working.capacity = _ from capacity, same] at taken
  exact taken

end hosts

end HttpRequestUriParser

end Everscale
