/-
# Everscale.Http1.TargetShape -- the shape of an accepted target

What a target is made of once it was accepted (`WellRead`): `*`, a path, a scheme with a host and perhaps a
port and a path, or the text of a target with another scheme.  All its texts are shorter than the working
buffer.  The first line of a head was read as if it had come in one piece (`AcceptsOctets.lineRead`), so a
single pass over the octets is all there is to follow.
-/
import Everscale.Http1.RequestTarget

namespace Everscale

set_option autoImplicit false

open Theory HttpUtil

/-! ## Passes that succeed -/

section passes

variable {σ : Type} {P Q R : σ → Prop}

/-- From a state in `P` the parser comes to one in `Q`, if it succeeds. -/
def LeadsOn (P : σ → Prop) (f : StreamParser σ) (Q : σ → Prop) : Prop :=
  ∀ s u, P s → (f s u).code = .success → Q (f s u).state

/-- The loop goes on in `P`, succeeds in `Q` or goes over in `R`. -/
def ActLeadsOn (P Q R : σ → Prop) : Act Error σ → Prop
  | .keep s => P s
  | .stop e s => e = .success → Q s
  | .jump s | .back s => R s

theorem scanOn_leads {guard : σ → Option Error} {act : σ → Octet → Act Error σ} {after : StreamParser σ}
    (refuses : ∀ s, guard s ≠ some .success) (acts : ∀ s c, P s → guard s = none → ActLeadsOn P Q R (act s c))
    (afterLeads : LeadsOn R after Q) : LeadsOn P (scan .again guard act after) Q := by
  intro s u
  induction u generalizing s with
  | nil => rintro - ⟨⟩
  | cons c rest ih =>
      intro h success
      rw [scan] at success ⊢
      cases guarded : guard s with
      | some e =>
          rw [guarded] at success
          exact absurd (guarded.trans (congrArg some success)) (refuses s)
      | none =>
          have led := acts s c h guarded
          rw [guarded] at success
          dsimp only at success ⊢
          cases acted : act s c with
          | keep s' =>
              rw [acted] at led success
              exact ih s' led success
          | stop e s' =>
              rw [acted] at led success
              exact led success
          | jump s' =>
              rw [acted] at led success
              exact afterLeads s' rest led success
          | back s' =>
              rw [acted] at led success
              exact afterLeads s' _ led success

end passes

namespace HttpRequestUriParser

open HttpRequestUriFormatter (path_visible hostLetter_visible)

/-! ## Shapes -/

/-- The name of a host. -/
def IsHost : List Octet → Prop
  | [] => False
  | c :: rest => isAlphaNum c = true ∧ rest.all (admitted .host) = true

/-- An absolute path. -/
def IsPath : List Octet → Prop
  | [] => False
  | c :: rest => c = octet '/' ∧ rest.all (admitted .absPath) = true

/-- A scheme that is neither `http` nor `https`, nor one of their beginnings. -/
def IsScheme (scheme : List Octet) : Prop :=
  (∃ c front, scheme = c :: front ∧ isAlpha c = true ∧ front.all isTaken = true) ∧ kindTaken scheme = .other

/-- The text of a target with such a scheme. -/
def IsOther (text : List Octet) : Prop :=
  ∃ scheme rest, text = scheme ++ octet ':' :: rest ∧ IsScheme scheme ∧ rest.all (!isSpace ·) = true

/-- What stands behind the host. -/
structure PathRead (size : Nat) (uri : HttpRequestUri) : Prop where
  absPath : ∀ text ∈ uri.absPath, IsPath text ∧ text.length < max size 2
  query : ∀ text ∈ uri.query, text.all isUric = true ∧ text.length < size
  fragment : ∀ text ∈ uri.fragment, text.all isUric = true ∧ text.length < size

/-- A target with a host. -/
structure HostRead (size : Nat) (uri : HttpRequestUri) : Prop extends PathRead size uri where
  type : uri.type = .http ∨ uri.type = .https
  host : ∃ name, uri.host = some name ∧ IsHost name ∧ name.length < size
  port : uri.port < 65536

/-- A target that is a path. -/
structure LocalRead (size : Nat) (uri : HttpRequestUri) : Prop extends PathRead size uri where
  type : uri.type = .http
  host : uri.host = none
  port : uri.port < 0

/-- A target with another scheme. -/
structure OtherRead (size : Nat) (uri : HttpRequestUri) : Prop where
  type : uri.type = .other
  other : ∃ text, uri.other = some text ∧ IsOther text ∧ text.length < size

/-- A target as it is read. -/
inductive WellRead (size : Nat) (uri : HttpRequestUri) : Prop where
  | asterisk : uri.type = .asterisk → WellRead size uri
  | path : LocalRead size uri → WellRead size uri
  | host : HostRead size uri → WellRead size uri
  | other : OtherRead size uri → WellRead size uri

/-! ## Reading -/

/-- What has been gathered of a component, with what is known of the components before it. -/
structure Gathers (size : Nat) (T : List Octet → Prop) (U : HttpRequestUri → Prop) (s : HttpRequestUriParser) :
    Prop where
  text : ∃ held, Holds s.working held 0 ∧ T held
  capacity : s.working.capacity = size
  uri : U s.requestUri

section reading

variable {size : Nat} {T T' : List Octet → Prop} {U U' : HttpRequestUri → Prop} {s : HttpRequestUriParser}

theorem room_of_guard {held : List Octet} (holds : Holds s.working held 0) (room : s.workingFull = none) :
    held.length < s.working.capacity := by
  by_contra full
  rw [workingFull_full holds full] at room
  cases room

theorem atStart_iff_nil {held : List Octet} (holds : Holds s.working held 0) : s.atStart = true ↔ held = [] := by
  rw [atStart_iff holds, decide_eq_true_iff]

theorem Gathers.put (h : Gathers size T U s) (room : s.workingFull = none) {c : Octet}
    (next : ∀ held, (s.atStart = true ↔ held = []) → T held → T' (held ++ [c])) : Gathers size T' U (s.put c) := by
  obtain ⟨held, holds, text⟩ := h.text
  obtain ⟨holds', same⟩ := holds.putNext (room_of_guard holds room) c
  exact ⟨⟨held ++ [c], holds', next held (atStart_iff_nil holds) text⟩, same.trans h.capacity, h.uri⟩

theorem Gathers.leave (h : Gathers size T U s) (next : UriStage) {uri : HttpRequestUri} (known : U' uri) :
    Gathers size (· = []) U' (s.leave next uri) := by
  obtain ⟨held, holds, -⟩ := h.text
  exact ⟨⟨[], .clear holds.wf, rfl⟩, (Buffer.clear_capacity s.working).trans h.capacity, known⟩

/-- A component that is complete, as it is stored. -/
theorem Gathers.stored (h : Gathers size T U s) (room : s.workingFull = none)
    (visible : ∀ held, T held → held.all isVisible = true) :
    T s.working.duplicate ∧ s.working.duplicate.length < size ∧ (s.atStart = true ↔ s.working.duplicate = []) := by
  obtain ⟨held, holds, text⟩ := h.text
  rw [holds.duplicate, rdropWhile_visible (visible held text)]
  exact ⟨text, (room_of_guard holds room).trans_eq h.capacity, atStart_iff_nil holds⟩

end reading

/-! ## Behind the host -/

/-- What is known of a target stays known while the components behind the host are read. -/
structure Stays (size : Nat) (U : HttpRequestUri → Prop) : Prop where
  absPath : ∀ uri text, U uri → IsPath text → text.length < max size 2 → U { uri with absPath := some text }
  query : ∀ uri text, U uri → text.all isUric = true → text.length < size → U { uri with query := some text }
  fragment : ∀ uri text, U uri → text.all isUric = true → text.length < size → U { uri with fragment := some text }

/-- The component that is entered, or the end. -/
def Enters (size : Nat) (U : HttpRequestUri → Prop) (next : List UriStage) (s : HttpRequestUriParser) : Prop :=
  U s.requestUri ∧ (s.state = .parseComplete ∨ s.state ∈ next ∧ Gathers size (· = []) U s)

section path

variable {size : Nat} {U U' : HttpRequestUri → Prop} {T : List Octet → Prop} {s : HttpRequestUriParser}
  {next : List UriStage} {uri : HttpRequestUri}

theorem Gathers.enters (h : Gathers size T U' s) {stage : UriStage} (inside : stage ∈ next) (known : U uri) :
    Enters size U next (s.leave stage uri) := ⟨known, .inr ⟨inside, h.leave stage known⟩⟩

theorem Enters.ended (known : U uri) : Enters size U next (s.leave .parseComplete uri) := ⟨known, .inl rfl⟩

theorem all_snoc {p : Octet → Bool} {held : List Octet} {c : Octet} (all : held.all p = true) (inside : p c = true) :
    (held ++ [c]).all p = true := by
  rw [List.all_append, all, List.all_cons, inside]
  rfl

theorem uric_all_visible {text : List Octet} (all : text.all isUric = true) : text.all isVisible = true :=
  List.all_eq_true.mpr fun c inside => uric_visible (List.all_eq_true.mp all c inside)

theorem fragmentOn_leads (stays : Stays size U) :
    LeadsOn (Gathers size (fun t => t.all isUric = true) U) fragmentOn fun s => U s.requestUri := by
  refine scanOn_leads (R := fun s => U s.requestUri) workingFull_refuses (fun s c h room => ?_) fun _ _ h _ => h
  rw [fragmentOctet]
  split_ifs with uric
  · exact h.put room fun _ _ all => all_snoc all uric
  · obtain ⟨all, short, -⟩ := h.stored room fun _ => uric_all_visible
    exact stays.fragment _ _ h.uri all short
  · rintro ⟨⟩

theorem afterQueryOn_leads (stays : Stays size U) :
    LeadsOn (Enters size U [.fragment]) afterQueryOn fun s => U s.requestUri := by
  rintro s u ⟨known, state⟩ success
  rw [afterQueryOn] at success ⊢
  rcases state with state | ⟨state, text, capacity, -⟩
  · rw [state]
    exact known
  · rw [List.mem_singleton] at state
    rw [state] at success ⊢
    obtain ⟨held, holds, rfl⟩ := text
    exact fragmentOn_leads stays s u ⟨⟨[], holds, rfl⟩, capacity, known⟩ success

theorem queryOn_leads (stays : Stays size U) :
    LeadsOn (Gathers size (fun t => t.all isUric = true) U) queryOn fun s => U s.requestUri := by
  refine scanOn_leads workingFull_refuses (fun s c h room => ?_) (afterQueryOn_leads stays)
  rw [queryOctet]
  dsimp only
  obtain ⟨all, short, -⟩ := h.stored room fun _ => uric_all_visible
  have known := stays.query _ _ h.uri all short
  split_ifs with uric
  · exact h.put room fun _ _ all => all_snoc all uric
  · exact h.enters (by decide) known
  · exact .ended known
  · rintro ⟨⟩

theorem afterAbsPathOn_leads (stays : Stays size U) :
    LeadsOn (Enters size U [.query, .fragment]) afterAbsPathOn fun s => U s.requestUri := by
  rintro s u ⟨known, state | ⟨state, gathers⟩⟩ success
  · rw [afterAbsPathOn, state] at success ⊢
    exact afterQueryOn_leads stays s u ⟨known, .inl state⟩ success
  · rw [List.mem_cons] at state
    rcases state with state | state
    · rw [afterAbsPathOn, state] at success ⊢
      obtain ⟨⟨held, holds, rfl⟩, capacity, -⟩ := gathers
      exact queryOn_leads stays s u ⟨⟨[], holds, rfl⟩, capacity, known⟩ success
    · rw [afterAbsPathOn, List.mem_singleton.mp state] at success ⊢
      exact afterQueryOn_leads stays s u ⟨known, .inr ⟨state, gathers⟩⟩ success

theorem IsPath.all_visible {text : List Octet} (path : text = [] ∨ IsPath text) : text.all isVisible = true := by
  rcases path with rfl | path
  · rfl
  · cases text with
    | nil => rfl
    | cons c rest =>
        obtain ⟨rfl, all⟩ := path
        refine List.all_eq_true.mpr fun d inside => ?_
        rcases List.mem_cons.mp inside with rfl | later
        · decide
        · exact path_visible (List.all_eq_true.mp all d later)

theorem IsPath.snoc {held : List Octet} {c : Octet} (path : IsPath held) (inside : admitted .absPath c = true) :
    IsPath (held ++ [c]) := by
  cases held with
  | nil => exact path.elim
  | cons d rest => exact ⟨path.1, all_snoc path.2 inside⟩

theorem absPathOn_leads (stays : Stays size U) :
    LeadsOn (Gathers size (fun t => t = [] ∨ IsPath t) U) absPathOn fun s => U s.requestUri := by
  refine scanOn_leads workingFull_refuses (fun s c h room => ?_) (afterAbsPathOn_leads stays)
  obtain ⟨path, short, nil⟩ := h.stored room fun _ => IsPath.all_visible
  have later (inside : admitted .absPath c = true) (start : ¬ s.atStart = true) :
      Gathers size (fun t => t = [] ∨ IsPath t) U (s.put c) :=
    h.put room fun held empty path => .inr ((path.resolve_left (mt empty.mpr start)).snoc inside)
  have known (start : ¬ s.atStart = true) : U { s.requestUri with absPath := some s.working.duplicate } :=
    stays.absPath _ _ h.uri (path.resolve_left (mt nil.mpr start)) (short.trans_le (Nat.le_max_left _ _))
  rw [absPathOctet]
  dsimp only
  split_ifs with start slash pchar other
  · refine h.put room fun held empty _ => .inr ?_
    rw [empty.mp start]
    exact ⟨slash, rfl⟩
  · rintro ⟨⟩
  · exact later (by simp [admitted, pchar]) start
  · exact later (by rcases other with other | other <;> simp [admitted, other]) start
  · exact h.enters (by decide) (known start)
  · exact h.enters (by decide) (known start)
  · exact .ended (known start)
  · rintro ⟨⟩

theorem afterPortOn_leads (stays : Stays size U) :
    LeadsOn (Enters size U [.absPath, .query, .fragment]) afterPortOn fun s => U s.requestUri := by
  rintro s u ⟨known, state | ⟨state, gathers⟩⟩ success
  · rw [afterPortOn, state] at success ⊢
    exact afterAbsPathOn_leads stays s u ⟨known, .inl state⟩ success
  · rw [List.mem_cons] at state
    rcases state with state | state
    · rw [afterPortOn, state] at success ⊢
      obtain ⟨⟨held, holds, rfl⟩, capacity, -⟩ := gathers
      exact absPathOn_leads stays s u ⟨⟨[], holds, .inl rfl⟩, capacity, known⟩ success
    · have other : afterPortOn s u = afterAbsPathOn s u := by
        rw [List.mem_cons, List.mem_singleton] at state
        rcases state with state | state <;> rw [afterPortOn, state]
      rw [other] at success ⊢
      exact afterAbsPathOn_leads stays s u ⟨known, .inr ⟨state, gathers⟩⟩ success

end path

/-! ## Hosts and schemes -/

section host

variable {size : Nat} {s : HttpRequestUriParser}

theorem PathRead.setPath {uri : HttpRequestUri} (h : PathRead size uri) {text : List Octet} (path : IsPath text)
    (short : text.length < max size 2) : PathRead size { uri with absPath := some text } :=
  { h with absPath := fun _ here => Option.some.inj here ▸ ⟨path, short⟩ }

theorem PathRead.setQuery {uri : HttpRequestUri} (h : PathRead size uri) {text : List Octet}
    (all : text.all isUric = true) (short : text.length < size) : PathRead size { uri with query := some text } :=
  { h with query := fun _ here => Option.some.inj here ▸ ⟨all, short⟩ }

theorem PathRead.setFragment {uri : HttpRequestUri} (h : PathRead size uri) {text : List Octet}
    (all : text.all isUric = true) (short : text.length < size) : PathRead size { uri with fragment := some text } :=
  { h with fragment := fun _ here => Option.some.inj here ▸ ⟨all, short⟩ }

theorem hostStays : Stays size (HostRead size) where
  absPath _ _ h path short := { h with toPathRead := h.toPathRead.setPath path short }
  query _ _ h all short := { h with toPathRead := h.toPathRead.setQuery all short }
  fragment _ _ h all short := { h with toPathRead := h.toPathRead.setFragment all short }

theorem localStays : Stays size (LocalRead size) where
  absPath _ _ h path short := { h with toPathRead := h.toPathRead.setPath path short }
  query _ _ h all short := { h with toPathRead := h.toPathRead.setQuery all short }
  fragment _ _ h all short := { h with toPathRead := h.toPathRead.setFragment all short }

theorem HostRead.root {uri : HttpRequestUri} (h : HostRead size uri) :
    HostRead size { uri with absPath := some (octets "/") } :=
  hostStays.absPath _ _ h ⟨rfl, rfl⟩ (lt_of_lt_of_le (by decide) (Nat.le_max_right _ _))

theorem portOn_leads : LeadsOn (Gathers size (· = []) (HostRead size)) portOn fun s => HostRead size s.requestUri := by
  refine scanOn_leads (fun _ => show none ≠ some Error.success by decide) (fun s c h _ => ?_)
    (afterPortOn_leads hostStays)
  have counted (port : Int) (below : port < 65536) :
      Gathers size (· = []) (HostRead size) { s with requestUri := { s.requestUri with port } } :=
    ⟨h.text, h.capacity, { h.uri with port := below }⟩
  rw [portOctet]
  by_cases digit : isDigit c = true
  · rw [if_pos digit]
    dsimp only
    generalize (if s.requestUri.port < 0 then 0 else s.requestUri.port) * 10 + ((c.toNat - 48 : Nat) : Int) = port
    split_ifs with large
    · rintro ⟨⟩
    · exact counted port (by omega)
  rw [if_neg digit]
  dsimp only
  split_ifs
  · rintro ⟨⟩
  · exact .ended h.uri.root
  · exact h.enters (by decide) h.uri
  · exact h.enters (by decide) h.uri.root
  · exact h.enters (by decide) h.uri.root
  · rintro ⟨⟩

theorem afterHostOn_leads :
    LeadsOn (Enters size (HostRead size) [.port, .absPath, .query, .fragment]) afterHostOn
      fun s => HostRead size s.requestUri := by
  rintro s u ⟨known, state | ⟨state, gathers⟩⟩ success
  · rw [afterHostOn, state] at success ⊢
    exact afterPortOn_leads hostStays s u ⟨known, .inl state⟩ success
  · rw [List.mem_cons] at state
    rcases state with state | state
    · rw [afterHostOn, state] at success ⊢
      exact portOn_leads s u gathers success
    · have other : afterHostOn s u = afterPortOn s u := by
        simp only [List.mem_cons, List.not_mem_nil, or_false] at state
        rcases state with state | state | state <;> rw [afterHostOn, state]
      rw [other] at success ⊢
      exact afterPortOn_leads hostStays s u ⟨known, .inr ⟨state, gathers⟩⟩ success

/-- Nothing is known of the target but perhaps its scheme. -/
structure Bare (size : Nat) (uri : HttpRequestUri) : Prop extends PathRead size uri where
  host : uri.host = none
  port : uri.port < 0

/-- In front of the host. -/
structure Schemed (size : Nat) (uri : HttpRequestUri) : Prop extends Bare size uri where
  type : uri.type = .http ∨ uri.type = .https

theorem IsHost.all_visible {text : List Octet} (host : text = [] ∨ IsHost text) : text.all isVisible = true := by
  rcases host with rfl | host
  · rfl
  · cases text with
    | nil => rfl
    | cons c rest =>
        refine List.all_eq_true.mpr fun d inside => ?_
        rcases List.mem_cons.mp inside with rfl | later
        · exact alphaNum_visible host.1
        · exact hostLetter_visible (List.all_eq_true.mp host.2 d later)

theorem IsHost.snoc {held : List Octet} {c : Octet} (host : IsHost held) (inside : admitted .host c = true) :
    IsHost (held ++ [c]) := by
  cases held with
  | nil => exact host.elim
  | cons d rest => exact ⟨host.1, all_snoc host.2 inside⟩

theorem hostOn_leads :
    LeadsOn (Gathers size (fun t => t = [] ∨ IsHost t) (Schemed size)) hostOn fun s => HostRead size s.requestUri := by
  refine scanOn_leads workingFull_refuses (fun s c h room => ?_) afterHostOn_leads
  obtain ⟨host, short, nil⟩ := h.stored room fun _ => IsHost.all_visible
  have later (inside : admitted .host c = true) (start : ¬ s.atStart = true) :
      Gathers size (fun t => t = [] ∨ IsHost t) (Schemed size) (s.put c) :=
    h.put room fun held empty host => .inr ((host.resolve_left (mt empty.mpr start)).snoc inside)
  have known (start : ¬ s.atStart = true) :
      HostRead size { s.requestUri with host := some s.working.duplicate } :=
    { h.uri.toPathRead with
      type := h.uri.type
      host := ⟨_, rfl, host.resolve_left (mt nil.mpr start), short⟩
      port := by have := h.uri.port; dsimp only; omega }
  rw [hostOctet]
  dsimp only
  split_ifs with start letter letter other
  · refine h.put room fun held empty _ => .inr ?_
    rw [empty.mp start]
    exact ⟨letter, rfl⟩
  · rintro ⟨⟩
  · exact later (by simp [admitted, letter]) start
  · exact later (by rcases other with other | other <;> simp [admitted, other]) start
  · exact h.enters (by decide) (known start)
  · exact .ended (known start).root
  · exact h.enters (by decide) (known start)
  · exact h.enters (by decide) (known start).root
  · exact h.enters (by decide) (known start).root
  · rintro ⟨⟩

theorem forwardSlashesOn_leads :
    LeadsOn (Gathers size (· = []) (Schemed size)) forwardSlashesOn fun s => HostRead size s.requestUri := by
  intro s u h success
  rw [forwardSlashesOn] at success ⊢
  split_ifs at success ⊢ with blank
  obtain ⟨⟨held, holds, rfl⟩, capacity, known⟩ := h
  exact hostOn_leads _ _ ⟨⟨[], holds, .inl rfl⟩, capacity, known⟩ success

end host

section scheme

variable {size : Nat} {s : HttpRequestUriParser}

theorem rdropWhile_append_cons {p : Octet → Bool} {c : Octet} (kept : p c = false) (front rest : List Octet) :
    (front ++ c :: rest).rdropWhile p = front ++ c :: rest.rdropWhile p := by
  induction rest using List.reverseRecOn with
  | nil => exact List.rdropWhile_concat_neg p front c (by rw [kept]; decide)
  | append_singleton rest d ih =>
      rw [← List.cons_append, ← List.append_assoc]
      by_cases dropped : p d = true
      · rw [List.rdropWhile_concat_pos p _ d dropped, List.rdropWhile_concat_pos p _ d dropped, ih]
      · rw [List.rdropWhile_concat_neg p _ d dropped, List.rdropWhile_concat_neg p _ d dropped, List.append_assoc]
        rfl

theorem IsOther.snoc {held : List Octet} {c : Octet} (other : IsOther held) (unspaced : isSpace c = false) :
    IsOther (held ++ [c]) := by
  obtain ⟨scheme, rest, rfl, is, all⟩ := other
  exact ⟨scheme, rest ++ [c], by rw [List.append_assoc]; rfl, is, all_snoc all (by rw [unspaced]; rfl)⟩

/-- Without the white space at its end. -/
theorem IsOther.trim {held : List Octet} (other : IsOther held) : IsOther (held.rdropWhile Buffer.isTrimmed) := by
  obtain ⟨scheme, rest, rfl, is, all⟩ := other
  refine ⟨scheme, _, rdropWhile_append_cons (by decide) scheme rest, is, ?_⟩
  exact List.all_eq_true.mpr fun c inside =>
    List.all_eq_true.mp all c ((List.rdropWhile_prefix Buffer.isTrimmed rest).subset inside)

theorem nonHttpUriOn_leads :
    LeadsOn (Gathers size IsOther (·.type = .other)) nonHttpUriOn fun s => OtherRead size s.requestUri := by
  refine scanOn_leads (R := fun s => OtherRead size s.requestUri) workingFull_refuses (fun s c h room => ?_)
    fun _ _ h _ => h
  rw [nonHttpUriOctet]
  split_ifs with space
  · obtain ⟨held, holds, other⟩ := h.text
    refine ⟨h.uri, _, rfl, ?_, ?_⟩
    · rw [holds.duplicate]
      exact other.trim
    · rw [holds.duplicate]
      refine (List.rdropWhile_prefix Buffer.isTrimmed held).length_le.trans_lt ?_
      exact (room_of_guard holds room).trans_eq h.capacity
  · exact h.put room fun _ _ other => other.snoc (Bool.eq_false_iff.mpr space)

/-- What is gathered of a scheme. -/
def BeginsScheme (text : List Octet) : Prop :=
  text = [] ∨ ∃ c front, text = c :: front ∧ isAlpha c = true ∧ front.all isTaken = true

theorem BeginsScheme.snoc {held : List Octet} {c : Octet} (begins : BeginsScheme held) (some : held ≠ [])
    (taken : isTaken c = true) : BeginsScheme (held ++ [c]) := by
  obtain ⟨d, front, rfl, alpha, all⟩ := begins.resolve_left some
  exact .inr ⟨d, front ++ [c], rfl, alpha, all_snoc all taken⟩

/-- A target with a scheme. -/
def AbsoluteRead (size : Nat) (uri : HttpRequestUri) : Prop := HostRead size uri ∨ OtherRead size uri

/-- Behind the colon. -/
def PastScheme (size : Nat) (s : HttpRequestUriParser) : Prop :=
  s.state = .skippingFwdSlashes ∧ Gathers size (· = []) (Schemed size) s ∨
    s.state = .nonHttpUri ∧ Gathers size IsOther (·.type = .other) s

theorem afterSchemeOn_leads : LeadsOn (PastScheme size) afterSchemeOn fun s => AbsoluteRead size s.requestUri := by
  rintro s u (⟨state, gathers⟩ | ⟨state, gathers⟩) success
  · rw [afterSchemeOn, state] at success ⊢
    exact .inl (forwardSlashesOn_leads s u gathers success)
  · rw [afterSchemeOn, state] at success ⊢
    exact .inr (nonHttpUriOn_leads s u gathers success)

theorem schemeOn_leads :
    LeadsOn (Gathers size BeginsScheme (Bare size)) schemeOn fun s => AbsoluteRead size s.requestUri := by
  refine scanOn_leads workingFull_refuses (fun s c h room => ?_) afterSchemeOn_leads
  have typed (type : UriType) (http : type = .http ∨ type = .https) : Schemed size { s.requestUri with type } :=
    { h.uri with type := http }
  have later (start : ¬ s.atStart = true) (taken : isTaken c = true) :
      Gathers size BeginsScheme (Bare size) (s.put c) :=
    h.put room fun held empty begins => begins.snoc (mt empty.mpr start) taken
  rw [schemeOctet]
  split_ifs with start letter letter sign colon http https
  · refine h.put room fun held empty _ => .inr ⟨c, [], ?_, letter, rfl⟩
    rw [empty.mp start]
    rfl
  · rintro ⟨⟩
  · exact later start (by simp [isTaken, letter])
  · exact later start (by simpa [isTaken, letter, or_assoc] using sign)
  · exact .inl ⟨rfl, h.leave .skippingFwdSlashes (typed .http (.inl rfl))⟩
  · exact .inl ⟨rfl, h.leave .skippingFwdSlashes (typed .https (.inr rfl))⟩
  · obtain ⟨held, holds, begins⟩ := h.text
    have some : held ≠ [] := mt (atStart_iff_nil holds).mpr start
    rw [Buffer.matchLiteral, holds.unread] at http https
    have kind : kindTaken held = .other := by rw [kindTaken, if_neg http, if_neg https]
    obtain ⟨holds', same⟩ := holds.putNext (room_of_guard holds room) c
    refine .inr ⟨rfl, ⟨held ++ [c], holds', held, [], ?_, ⟨begins.resolve_left some, kind⟩, rfl⟩,
      same.trans h.capacity, rfl⟩
    rw [colon]
  · rintro ⟨⟩

end scheme

/-- **A target that was read in one pass has one of the four shapes.** -/
theorem parseOn_wellRead {size : Nat} {s : HttpRequestUriParser} (initial : s.state = .initial)
    (fresh : s.requestUri = {}) (holds : Holds s.working [] 0) (capacity : s.working.capacity = size) (u : List Octet)
    (success : (parseOn s u).code = .success) : WellRead size (parseOn s u).state.requestUri := by
  have bare : Bare size s.requestUri := by
    rw [fresh]
    exact ⟨⟨by rintro text ⟨⟩, by rintro text ⟨⟩, by rintro text ⟨⟩⟩, rfl, by decide⟩
  rw [parseOn, if_neg (by rw [initial]; decide), if_pos initial] at success ⊢
  dsimp only at success ⊢
  split_ifs at success ⊢ with blank
  generalize u.dropWhile isSpace = v at success ⊢
  have kind : kindOn v = .asterisk ∨ kindOn v = .absPath ∨ kindOn v = .scheme := by
    rw [kindOn, kindOf]
    split_ifs <;> simp
  rw [componentOn] at success ⊢
  rcases kind with kind | kind | kind <;> rw [kind] at success ⊢ <;> dsimp only at success ⊢
  · exact .asterisk (asteriskOn_type success)
  · refine .path (absPathOn_leads localStays _ v ⟨⟨[], holds, .inl rfl⟩, capacity, ?_⟩ success)
    exact { bare with type := by rw [fresh] }
  · have scheme : Gathers size BeginsScheme (Bare size) { s with state := .scheme } :=
      ⟨⟨[], holds, .inl rfl⟩, capacity, bare⟩
    rcases schemeOn_leads _ v scheme success with host | other
    · exact .host host
    · exact .other other

end HttpRequestUriParser

/-! ## Request lines -/

namespace HttpRequestParser

open HttpRequestUriParser (WellRead parseOn_wellRead)
open HttpMessageParser (AcceptsOctets)

/-- A request line as it is read. -/
structure LineWellRead (size : Nat) (line : RequestLine) : Prop where
  method : ∃ text, line.method = some text ∧ text ≠ [] ∧ text.all isToken = true ∧ text.length < size
  requestUri : WellRead size line.requestUri

theorem parseStartLineOn_wellRead {s : RequestLineParse} (initial : s.sub = {}) (fresh : s.message.startLine = {})
    (wf : s.working.WF) {v : List Octet} (front : ∀ c ∈ v.head?, isSpace c = false)
    (success : (parseStartLineOn s v).code = .success) :
    LineWellRead s.working.capacity (parseStartLineOn s v).state.message.startLine := by
  have first : s.sub.requestState = .initial := by rw [initial]
  rw [parseStartLineOn, if_neg (by rw [first]; decide), if_pos first, lineFromMethodOn,
    if_pos (show (enter .method s).sub.requestState = .method from rfl), stage] at success ⊢
  by_cases read : (onScratchOn methodOn (enter .method s) v).code = .success
  · rw [if_pos read] at success ⊢
    obtain ⟨word, space, came⟩ := methodOn_came v (s := (enter .method s).toScratch) (.clear wf) rfl read
    have some : word ≠ [] := by
      rintro rfl
      have black := front space (by rw [came.taken]; rfl)
      rw [came.ends] at black
      cases black
    let s' : RequestLineParse := enter .requestUri (onScratchOn methodOn (enter .method s) v).state
    have line : s'.message.startLine = { method := Option.some word, requestUri := {} } := by
      refine came.startLine.trans ?_
      change { s.message.startLine with method := Option.some word } = _
      rw [fresh]
    obtain ⟨found, same⟩ := lineFromUriOn_read (s := s') rfl _ success
    rw [same, line]
    refine ⟨⟨word, rfl, some, came.tokens, came.short⟩, ?_⟩
    exact parseOn_wellRead (congrArg RequestSub.uriState initial) (congrArg RequestLine.requestUri line)
      (.clear came.wf) came.capacity _ found
  · rw [if_neg read] at success
    exact absurd success read

/-- **The first line of an accepted request**, however the head was cut. -/
theorem accepted_wellRead {working : Buffer} (wf : working.WF) {u : List Octet} {s' : HttpRequestParser}
    (accepts : AcceptsOctets stream (fresh working) u s') :
    LineWellRead working.capacity s'.message.startLine := by
  obtain ⟨v, more, shape, some, success, same⟩ := accepts.lineRead knowsLine (fresh_known wf) rfl
  rw [← same]
  refine parseStartLineOn_wellRead (s := (HttpMessageParser.enter .startLine (fresh working)).toStartLineParse) rfl rfl
    (Buffer.clear_wf wf) (fun c here => ?_) success
  cases v with
  | nil => exact absurd rfl some
  | cons d rest =>
      obtain rfl : d = c := Option.some.inj here
      have black := List.head?_dropWhile_not isLWS u
      rw [shape] at black
      simp only [List.cons_append, List.head?_cons] at black
      simp only [isLWS, Bool.or_eq_false_iff, decide_eq_false_iff_not] at black
      simp [isSpace, black]

end HttpRequestParser

end Everscale
