/-
# Everscale.Http1.Scheme -- the schemes of absolute request targets

`parseScheme` collects octets up to a colon and then compares what it has with `http` and
`https`, no further than it has octets.  What a whole target comes to, however it was cut, is
seen in the state after the last call (`Shows`): the kind of the scheme, or that it was refused.

The octets it collects are not quite those of the grammar that the source quotes, the letter
case counts, and the beginnings of `http` pass for it; `scheme_shown_iff` says that nothing else
goes wrong.
-/
import Everscale.Base.Writer
import Everscale.Http1.AcceptedHead
import Everscale.Http1.LineEnd

namespace Everscale

set_option autoImplicit false

open Theory HttpUtil

namespace HttpRequestUriParser

/-! ## Calls on pieces of a target -/

/-- The parser after some calls that asked for more: all the octets that have arrived, and those
of them that are still unread.  A mark is where the parser needs it. -/
inductive Fed (first : HttpRequestUriParser) : HttpRequestUriParser → List Octet → List Octet → Prop where
  | start : Fed first first [] []
  | more {s u held piece b} : Fed first s u held → b.WF → (Needs s → Marked b) → b.unread = held ++ piece →
      (parse s b).code = .again → Fed first (parse s b).state (u ++ piece) (parse s b).input.unread

/-- The pieces do not show. -/
theorem Fed.parseOn_eq {first s : HttpRequestUriParser} {u held : List Octet} (fed : Fed first s u held)
    (piece : List Octet) : parseOn s (held ++ piece) = parseOn first (u ++ piece) := by
  induction fed generalizing piece with
  | start => rfl
  | @more s u held before b _ wf marked unread again ih =>
      obtain ⟨reads, -⟩ := parse_mirrors s b trivial wf marked
      rw [reads.state, reads.unread, unread]
      have waits : (parseOn s (held ++ before)).code = .again := by rw [← unread, ← reads.code, again]
      rw [← (parseOn_resumesAt s (held ++ before)).resume piece waits trivial, List.append_assoc, ih, List.append_assoc]

/-! ## What is kept behind the scheme -/

section keeps

variable {P : HttpRequestUriParser → Prop} {act : HttpRequestUriParser → Octet → Act Error HttpRequestUriParser}
  {guard : HttpRequestUriParser → Option Error} {after : StreamParser HttpRequestUriParser}

/-- Whatever is read, `P` still holds of the state. -/
def KeepsOn (P : HttpRequestUriParser → Prop) (f : StreamParser HttpRequestUriParser) : Prop :=
  ∀ s u, P s → P (f s u).state

theorem scanOn_keeps (acts : ∀ s c, P s → Reader.ActKeeps P (act s c)) (afterKeeps : KeepsOn P after) :
    KeepsOn P (scan .again guard act after) := by
  intro s u
  refine scan_induction (K := fun s _ o => P s → P o.state) ?_ ?_ ?_ ?_ ?_ ?_ s u
  · exact fun s h => h
  · exact fun s c rest e _ h => h
  · intro s c rest s' o kept later h
    have keeps := acts s c h
    rw [kept] at keeps
    exact later keeps
  · intro s c rest e s' stopped h
    have keeps := acts s c h
    rwa [stopped] at keeps
  · intro s c rest s' jumped h
    have keeps := acts s c h
    rw [jumped] at keeps
    exact afterKeeps s' rest keeps
  · intro s c rest s' stepped h
    have keeps := acts s c h
    rw [stepped] at keeps
    exact afterKeeps s' _ keeps

end keeps

/-- The scheme is behind the parser, and was of this kind. -/
structure Behind (type : UriType) (s : HttpRequestUriParser) : Prop where
  type_eq : s.requestUri.type = type
  state : s.state ≠ .scheme

section behind

variable {type : UriType}

theorem finishedOn_behind : KeepsOn (Behind type) finishedOn := fun _ _ h => h

theorem fragmentOn_behind : KeepsOn (Behind type) fragmentOn := by
  refine scanOn_keeps (fun s c h => ?_) finishedOn_behind
  unfold fragmentOctet
  split_ifs
  · exact ⟨h.type_eq, h.state⟩
  · exact ⟨h.type_eq, nofun⟩
  · exact h

theorem afterQueryOn_behind : KeepsOn (Behind type) afterQueryOn := by
  intro s u h
  unfold afterQueryOn
  split
  · exact fragmentOn_behind s u h
  · exact h

theorem queryOn_behind : KeepsOn (Behind type) queryOn := by
  refine scanOn_keeps (fun s c h => ?_) afterQueryOn_behind
  unfold queryOctet
  dsimp only
  split_ifs
  · exact ⟨h.type_eq, h.state⟩
  · exact ⟨h.type_eq, nofun⟩
  · exact ⟨h.type_eq, nofun⟩
  · exact h

theorem afterAbsPathOn_behind : KeepsOn (Behind type) afterAbsPathOn := by
  intro s u h
  unfold afterAbsPathOn
  split
  · exact queryOn_behind s u h
  · exact afterQueryOn_behind s u h

theorem absPathOn_behind : KeepsOn (Behind type) absPathOn := by
  refine scanOn_keeps (fun s c h => ?_) afterAbsPathOn_behind
  unfold absPathOctet
  dsimp only
  split_ifs <;> first | exact h | exact ⟨h.type_eq, h.state⟩ | exact ⟨h.type_eq, nofun⟩

theorem afterPortOn_behind : KeepsOn (Behind type) afterPortOn := by
  intro s u h
  unfold afterPortOn
  split
  · exact absPathOn_behind s u h
  · exact afterAbsPathOn_behind s u h

theorem portOn_behind : KeepsOn (Behind type) portOn := by
  refine scanOn_keeps (fun s c h => ?_) afterPortOn_behind
  unfold portOctet
  dsimp only
  split_ifs <;> first | exact h | exact ⟨h.type_eq, h.state⟩ | exact ⟨h.type_eq, nofun⟩

theorem afterHostOn_behind : KeepsOn (Behind type) afterHostOn := by
  intro s u h
  unfold afterHostOn
  split
  · exact portOn_behind s u h
  · exact afterPortOn_behind s u h

theorem hostOn_behind : KeepsOn (Behind type) hostOn := by
  refine scanOn_keeps (fun s c h => ?_) afterHostOn_behind
  unfold hostOctet
  dsimp only
  split_ifs <;> first | exact h | exact ⟨h.type_eq, h.state⟩ | exact ⟨h.type_eq, nofun⟩

theorem forwardSlashesOn_behind : KeepsOn (Behind type) forwardSlashesOn := by
  intro s u h
  unfold forwardSlashesOn
  dsimp only
  split_ifs
  · exact h
  · exact hostOn_behind _ _ ⟨h.type_eq, nofun⟩

theorem nonHttpUriOn_behind : KeepsOn (Behind type) nonHttpUriOn := by
  refine scanOn_keeps (fun s c h => ?_) finishedOn_behind
  unfold nonHttpUriOctet
  split_ifs
  · exact ⟨h.type_eq, nofun⟩
  · exact ⟨h.type_eq, h.state⟩

theorem afterSchemeOn_behind : KeepsOn (Behind type) afterSchemeOn := by
  intro s u h
  unfold afterSchemeOn
  split
  · exact forwardSlashesOn_behind s u h
  · exact nonHttpUriOn_behind s u h

end behind

/-! ## Reading a scheme -/

/-- The octets that `parseScheme` takes behind the first. -/
def isTaken (c : Octet) : Bool := isAlphaNum c || c = octet '+' || c = octet '=' || c = octet '.'

/-- The kind that `parseScheme` gives to what it has collected. -/
def kindTaken (text : List Octet) : UriType :=
  if Buffer.strncmpEqual text (octets "http") then .http
  else if Buffer.strncmpEqual text (octets "https") then .https
  else .other

/-- The state behind the colon. -/
structure Entered (text : List Octet) (s : HttpRequestUriParser) : Prop where
  behind : Behind (kindTaken text) s
  kept : kindTaken text = .other → s.state = .nonHttpUri ∧ Holds s.working (text ++ [octet ':']) 0

/-- The scheme was refused. -/
structure Refused (o : Outcome Error HttpRequestUriParser (List Octet)) : Prop where
  state : o.state.state = .scheme
  again : o.code ≠ .again
  success : o.code ≠ .success

section scheme

variable {s : HttpRequestUriParser} {held front rest : List Octet}

theorem atStart_iff (holds : Holds s.working held 0) : s.atStart = decide (held = []) := by
  rw [atStart, holds.writePosition, decide_eq_decide, List.length_eq_zero_iff]

theorem schemeOctet_first {c : Octet} (first : s.atStart = true) :
    schemeOctet s c = if isAlpha c then .keep (s.put c) else .stop .badRequestUriScheme s := by
  rw [schemeOctet, if_pos first]

theorem schemeOctet_taken {c : Octet} (later : s.atStart = false) (taken : isTaken c = true) :
    schemeOctet s c = .keep (s.put c) := by
  rw [schemeOctet, later, if_neg Bool.false_ne_true]
  by_cases alphaNum : isAlphaNum c = true
  · rw [if_pos alphaNum]
  · rw [if_neg alphaNum, if_pos]
    simpa [isTaken, alphaNum, or_assoc] using taken

theorem schemeOctet_other {c : Octet} (later : s.atStart = false) (other : ¬ isTaken c = true) (ne : c ≠ octet ':') :
    schemeOctet s c = .stop .badRequestUriScheme s := by
  simp only [isTaken, Bool.or_eq_true, decide_eq_true_eq, not_or] at other
  obtain ⟨⟨⟨alphaNum, plus⟩, equals⟩, dot⟩ := other
  rw [schemeOctet, later, if_neg Bool.false_ne_true, if_neg alphaNum, if_neg (by simp [plus, equals, dot]), if_neg ne]

theorem workingFull_room (holds : Holds s.working held 0) (room : held.length < s.working.capacity) :
    s.workingFull = none := by rw [workingFull, if_pos (holds.isWritable.mpr room)]

/-- No octet is looked at when the working buffer is full. -/
theorem schemeOn_full (here : s.state = .scheme) (holds : Holds s.working held 0)
    (full : ¬ held.length < s.working.capacity) (c : Octet) : Refused (schemeOn s (c :: rest)) := by
  have guard : s.workingFull = some .overflow := by rw [workingFull, if_neg (mt holds.isWritable.mp full)]
  rw [schemeOn, scan, guard]
  exact ⟨here, by simp, by simp⟩

theorem schemeOn_stop (here : s.state = .scheme) (guard : s.workingFull = none) {c : Octet}
    (stops : schemeOctet s c = .stop .badRequestUriScheme s) : Refused (schemeOn s (c :: rest)) := by
  rw [schemeOn, scan, guard]
  dsimp only
  rw [stops]
  exact ⟨here, by simp, by simp⟩

theorem schemeOn_keep (guard : s.workingFull = none) {c : Octet} (keeps : schemeOctet s c = .keep (s.put c)) :
    schemeOn s (c :: rest) = schemeOn (s.put c) rest := by
  rw [schemeOn, scan, guard]
  dsimp only
  rw [keeps]

theorem colon_entered (holds : Holds s.working held 0) (some : held ≠ []) (room : held.length < s.working.capacity) :
    ∃ s', schemeOn s (octet ':' :: rest) = afterSchemeOn s' rest ∧ Entered held s' := by
  have later : s.atStart = false := by rw [atStart_iff holds, decide_eq_false some]
  have colon : isAlphaNum (octet ':') = false := by decide
  have others : ¬ (octet ':' = octet '+' ∨ octet ':' = octet '=' ∨ octet ':' = octet '.') := by decide
  rw [schemeOn, scan, workingFull_room holds room]
  dsimp only
  rw [schemeOctet, later, if_neg Bool.false_ne_true, colon, if_neg Bool.false_ne_true, if_neg others, if_pos rfl,
    Buffer.matchLiteral, Buffer.matchLiteral, holds.unread]
  split_ifs with http https
  · exact ⟨_, rfl, ⟨by rw [kindTaken, if_pos http]; rfl, by rintro ⟨⟩⟩, by simp [kindTaken, http]⟩
  · refine ⟨_, rfl, ⟨by rw [kindTaken, if_neg http, if_pos https]; rfl, by rintro ⟨⟩⟩, ?_⟩
    rw [kindTaken, if_neg http, if_pos https]
    simp
  · exact ⟨_, rfl, ⟨by rw [kindTaken, if_neg http, if_neg https], by rintro ⟨⟩⟩, fun _ => ⟨rfl, (holds.putNext room _).1⟩⟩

/-- The octets in front of the colon, once there is a first. -/
theorem scheme_read (here : s.state = .scheme) (holds : Holds s.working held 0) (some : held ≠ [])
    (inside : octet ':' ∉ front) (rest : List Octet) :
    (front.all isTaken = true ∧ held.length + front.length < s.working.capacity ∧
      ∃ s', schemeOn s (front ++ octet ':' :: rest) = afterSchemeOn s' rest ∧ Entered (held ++ front) s') ∨
    (¬ (front.all isTaken = true ∧ held.length + front.length < s.working.capacity) ∧
      Refused (schemeOn s (front ++ octet ':' :: rest))) := by
  induction front generalizing s held with
  | nil =>
      by_cases room : held.length < s.working.capacity
      · rw [List.append_nil]
        exact .inl ⟨rfl, room, colon_entered holds some room⟩
      · exact .inr ⟨fun fits => room fits.2, schemeOn_full here holds room _⟩
  | cons c front ih =>
      obtain ⟨ne, inside⟩ := not_or.mp (List.mem_cons.not.mp inside)
      have later : s.atStart = false := by rw [atStart_iff holds, decide_eq_false some]
      rw [List.cons_append, List.all_cons, List.length_cons]
      by_cases room : held.length < s.working.capacity
      · have guard := workingFull_room holds room
        by_cases taken : isTaken c = true
        · obtain ⟨holds', capacity⟩ := holds.putNext room c
          have longer : (held ++ [c]).length + front.length = held.length + (front.length + 1) := by
            rw [List.length_append, List.length_singleton]
            omega
          have next := ih (s := s.put c) here holds' (by simp) inside
          rw [schemeOn_keep guard (schemeOctet_taken later taken), taken, Bool.true_and]
          rwa [longer, show (s.put c).working.capacity = s.working.capacity from capacity, List.append_assoc,
            List.singleton_append] at next
        · refine .inr ⟨fun fits => taken (Bool.and_eq_true_iff.mp fits.1).1, ?_⟩
          exact schemeOn_stop here guard (schemeOctet_other later taken (Ne.symm ne))
      · exact .inr ⟨fun fits => room (by omega), schemeOn_full here holds room c⟩

/-- What `parseScheme` takes for a scheme, with room for the octet behind it. -/
def Taken (capacity : Nat) : List Octet → Prop
  | [] => False
  | c :: front => isAlpha c = true ∧ front.all isTaken = true ∧ front.length + 1 < capacity

theorem whole_scheme_read {scheme : List Octet} (here : s.state = .scheme) (holds : Holds s.working [] 0)
    (inside : octet ':' ∉ scheme) (rest : List Octet) :
    (Taken s.working.capacity scheme ∧
      ∃ s', schemeOn s (scheme ++ octet ':' :: rest) = afterSchemeOn s' rest ∧ Entered scheme s') ∨
    (¬ Taken s.working.capacity scheme ∧ Refused (schemeOn s (scheme ++ octet ':' :: rest))) := by
  have first : s.atStart = true := by rw [atStart_iff holds, decide_eq_true rfl]
  by_cases room : ([] : List Octet).length < s.working.capacity
  · have guard := workingFull_room holds room
    cases scheme with
    | nil =>
        refine .inr ⟨id, schemeOn_stop here guard ?_⟩
        rw [schemeOctet_first first, if_neg (by decide)]
    | cons c front =>
        obtain ⟨-, inside⟩ := not_or.mp (List.mem_cons.not.mp inside)
        rw [List.cons_append]
        by_cases alpha : isAlpha c = true
        · obtain ⟨holds', capacity⟩ := holds.putNext room c
          have keeps : schemeOctet s c = .keep (s.put c) := by rw [schemeOctet_first first, if_pos alpha]
          rw [schemeOn_keep guard keeps]
          have next := scheme_read (s := s.put c) here holds' (by simp) inside rest
          rw [show (s.put c).working.capacity = s.working.capacity from capacity, List.nil_append, List.length_singleton,
            Nat.add_comm] at next
          rcases next with ⟨all, fits, entered⟩ | ⟨none, refused⟩
          · exact .inl ⟨⟨alpha, all, fits⟩, entered⟩
          · exact .inr ⟨fun taken => none taken.2, refused⟩
        · refine .inr ⟨fun taken => alpha taken.1, schemeOn_stop here guard ?_⟩
          rw [schemeOctet_first first, if_neg alpha]
  · refine .inr ⟨fun taken => ?_, ?_⟩
    · cases scheme with
      | nil => exact taken
      | cons c front => exact room (Nat.zero_lt_of_lt taken.2.2)
    · cases scheme with
      | nil => exact schemeOn_full here holds room _
      | cons c front => exact schemeOn_full here holds room c

end scheme

/-! ## What is shown -/

theorem prefix_rdropWhile {text held : List Octet} {last : Octet} (visible : Buffer.isTrimmed last = false)
    (begins : text ++ [last] <+: held) : text ++ [last] <+: held.rdropWhile Buffer.isTrimmed := by
  obtain ⟨more, rfl⟩ := begins
  have kept : (text ++ [last]).rdropWhile Buffer.isTrimmed = text ++ [last] := by
    rw [List.rdropWhile_concat, if_neg (by simp [visible])]
  unfold List.rdropWhile at kept ⊢
  rw [List.reverse_append, List.dropWhile_append]
  split_ifs with blank
  · rw [kept]
  · rw [List.reverse_append, List.reverse_reverse]
    exact List.prefix_append _ _

/-- What is kept of a URI that is neither `http` nor `https` begins with the scheme. -/
theorem nonHttpUriOn_keeps {text : List Octet} {last : Octet} (visible : Buffer.isTrimmed last = false)
    (u : List Octet) {s : HttpRequestUriParser} {held : List Octet} (holds : Holds s.working held 0)
    (begins : text ++ [last] <+: held) (success : (nonHttpUriOn s u).code = .success) :
    ∃ t, (nonHttpUriOn s u).state.requestUri.other = some t ∧ text ++ [last] <+: t := by
  induction u generalizing s held with
  | nil => cases success
  | cons c rest ih =>
      rw [nonHttpUriOn, scan] at success ⊢
      by_cases room : held.length < s.working.capacity
      · rw [workingFull_room holds room] at success ⊢
        dsimp only at success ⊢
        rw [nonHttpUriOctet] at success ⊢
        by_cases space : isSpace c = true
        · rw [if_pos space] at success ⊢
          refine ⟨_, rfl, ?_⟩
          rw [holds.duplicate]
          exact prefix_rdropWhile visible begins
        · rw [if_neg space] at success ⊢
          exact ih (holds.putNext room c).1 (begins.trans (List.prefix_append _ _)) success
      · have guard : s.workingFull = some .overflow := by rw [workingFull, if_neg (mt holds.isWritable.mp room)]
        rw [guard] at success
        cases success

/-- A scheme of the grammar that the source quotes. -/
def isScheme : List Octet → Bool
  | [] => false
  | c :: rest => isAlpha c && rest.all fun c => isAlphaNum c || c = octet '+' || c = octet '-' || c = octet '.'

/-- The kind of an absolute URI, by its scheme; none for what is no scheme. -/
def kindMeant (scheme : List Octet) : Option UriType :=
  if isScheme scheme then
    if scheme.map toLower = octets "http" then some .http
    else if scheme.map toLower = octets "https" then some .https
    else some .other
  else none

/-- After a target with this scheme: it is of this kind, and another scheme is kept, or it was
refused. -/
def Shows (scheme : List Octet) (kind : Option UriType) (o : Outcome Error HttpRequestUriParser Buffer) : Prop :=
  match kind with
  | none => o.state.state = .scheme ∧ o.code ≠ .again ∧ o.code ≠ .success
  | some type => Behind type o.state ∧ (type = .other → o.code = .success →
      ∃ t, o.state.requestUri.other = some t ∧ scheme ++ [octet ':'] <+: t)

instance (capacity : Nat) (scheme : List Octet) : Decidable (Taken capacity scheme) :=
  match scheme with
  | [] => .isFalse id
  | c :: front => inferInstanceAs (Decidable (isAlpha c = true ∧ front.all isTaken = true ∧ front.length + 1 < capacity))

/-- The kind that `parseScheme` gives to a scheme. -/
def kindGiven (capacity : Nat) (scheme : List Octet) : Option UriType :=
  if Taken capacity scheme then some (kindTaken scheme) else none

/-- The first octets of an absolute target. -/
def BeginsAbsolute (scheme : List Octet) : Prop :=
  octet ':' ∉ scheme ∧ ∀ c ∈ scheme.head?, isSpace c = false ∧ c ≠ octet '*' ∧ c ≠ octet '/'

theorem parseOn_absolute {first : HttpRequestUriParser} (initial : first.state = .initial) {blanks scheme : List Octet}
    (blank : ∀ c ∈ blanks, isSpace c = true) (absolute : BeginsAbsolute scheme) (rest : List Octet) :
    parseOn first (blanks ++ (scheme ++ octet ':' :: rest)) =
      schemeOn { first with state := .scheme } (scheme ++ octet ':' :: rest) := by
  have head : ∃ c tail, scheme ++ octet ':' :: rest = c :: tail ∧ isSpace c = false ∧ c ≠ octet '*' ∧ c ≠ octet '/' := by
    cases scheme with
    | nil => exact ⟨octet ':', rest, rfl, by decide, by decide, by decide⟩
    | cons c tail => exact ⟨c, tail ++ octet ':' :: rest, rfl, absolute.2 c rfl⟩
  obtain ⟨c, tail, shape, black, star, slash⟩ := head
  have skipped : (blanks ++ (c :: tail)).dropWhile isSpace = c :: tail := by
    rw [List.dropWhile_append, List.dropWhile_eq_nil_iff.mpr blank, List.dropWhile_cons, black]
    rfl
  rw [shape, parseOn, initial, if_neg (by simp), if_pos rfl]
  dsimp only
  rw [skipped, if_neg (List.cons_ne_nil _ _), kindOn, List.headD_cons, kindOf, if_neg star, if_neg slash, componentOn]

/-- However the target was cut: it shows the kind that `parseScheme` gives to its scheme. -/
theorem shows_given {first s : HttpRequestUriParser} {u held : List Octet} (initial : first.state = .initial)
    (empty : Holds first.working [] 0) (fed : Fed first s u held) {b : Buffer} (wf : b.WF)
    (marked : Needs s → Marked b) {piece : List Octet} (unread : b.unread = held ++ piece)
    {blanks scheme rest : List Octet} (blank : ∀ c ∈ blanks, isSpace c = true) (absolute : BeginsAbsolute scheme)
    (arrived : u ++ piece = blanks ++ (scheme ++ octet ':' :: rest)) :
    Shows scheme (kindGiven first.working.capacity scheme) (parse s b) := by
  obtain ⟨reads, -⟩ := parse_mirrors s b trivial wf marked
  have whole : parseOn s b.unread = schemeOn { first with state := .scheme } (scheme ++ octet ':' :: rest) := by
    rw [unread, fed.parseOn_eq, arrived, parseOn_absolute initial blank absolute]
  rw [whole] at reads
  have read := whole_scheme_read (s := { first with state := .scheme }) rfl empty absolute.1 rest
  rcases read with ⟨taken, s', enters, entered⟩ | ⟨none, refused⟩
  · rw [kindGiven, if_pos taken]
    rw [enters] at reads
    refine ⟨?_, fun other success => ?_⟩
    · rw [reads.state]
      exact afterSchemeOn_behind s' rest entered.behind
    · obtain ⟨state, kept⟩ := entered.kept other
      have nonHttp : afterSchemeOn s' rest = nonHttpUriOn s' rest := by simp only [afterSchemeOn, state]
      rw [reads.code, nonHttp] at success
      rw [reads.state, nonHttp]
      exact nonHttpUriOn_keeps (by decide) rest kept (List.prefix_refl _) success
  · rw [kindGiven, if_neg none]
    exact ⟨reads.state ▸ refused.state, reads.code ▸ refused.again, reads.code ▸ refused.success⟩

/-- A target shows one kind. -/
theorem Shows.unique {scheme : List Octet} {kind kind' : Option UriType} {o : Outcome Error HttpRequestUriParser Buffer}
    (h : Shows scheme kind o) (h' : Shows scheme kind' o) : kind = kind' := by
  cases kind with
  | none =>
      cases kind' with
      | none => rfl
      | some type => exact absurd h.1 h'.1.state
  | some type =>
      cases kind' with
      | none => exact absurd h'.1 h.1.state
      | some type' => rw [← h.1.type_eq, ← h'.1.type_eq]

/-! ## Where it is right -/

/-- A scheme of the grammar fits the working buffer with the colon, has no hyphen, is no proper
beginning of `http`, and if it is `http` or `https` is written in small letters; and nothing else
is taken for a scheme. -/
def SchemeRead (capacity : Nat) (scheme : List Octet) : Prop :=
  if isScheme scheme then
    scheme.length < capacity ∧ octet '-' ∉ scheme ∧ scheme ∉ [octets "h", octets "ht", octets "htt"] ∧
      (scheme.map toLower ∈ [octets "http", octets "https"] → scheme.map toLower = scheme)
  else ¬ Taken capacity scheme

theorem strncmpEqual_iff {text literal : List Octet} (plain : NUL ∉ text) :
    Buffer.strncmpEqual text literal = true ↔ text <+: literal := by
  induction text generalizing literal with
  | nil => simp [Buffer.strncmpEqual]
  | cons c text ih =>
      obtain ⟨visible, plain⟩ := not_or.mp (List.mem_cons.not.mp plain)
      cases literal with
      | nil => simpa [Buffer.strncmpEqual] using Ne.symm visible
      | cons d literal => rw [Buffer.strncmpEqual, Bool.and_eq_true, decide_eq_true_iff, ih plain, List.cons_prefix_cons]

/-- The kinds of the beginnings of `http` and `https`, and of everything else. -/
theorem kindTaken_eq {scheme : List Octet} (plain : NUL ∉ scheme) (some : scheme ≠ []) :
    kindTaken scheme =
      if scheme ∈ [octets "h", octets "ht", octets "htt", octets "http"] then .http
      else if scheme = octets "https" then .https else .other := by
  have inits : (octets "http").inits = [[], octets "h", octets "ht", octets "htt", octets "http"] := by decide
  have inits' : (octets "https").inits =
      [[], octets "h", octets "ht", octets "htt", octets "http", octets "https"] := by decide
  have http : Buffer.strncmpEqual scheme (octets "http") = true ↔
      scheme ∈ [octets "h", octets "ht", octets "htt", octets "http"] := by
    rw [strncmpEqual_iff plain, ← List.mem_inits, inits, List.mem_cons, or_iff_right some]
  have https : Buffer.strncmpEqual scheme (octets "https") = true ↔
      scheme ∈ [octets "h", octets "ht", octets "htt", octets "http"] ∨ scheme = octets "https" := by
    rw [strncmpEqual_iff plain, ← List.mem_inits, inits']
    simp only [List.mem_cons, List.not_mem_nil, or_false]
    tauto
  rw [kindTaken]
  by_cases begins : scheme ∈ [octets "h", octets "ht", octets "htt", octets "http"]
  · rw [if_pos (http.mpr begins), if_pos begins]
  · rw [if_neg (mt http.mp begins), if_neg begins]
    by_cases whole : scheme = octets "https"
    · rw [if_pos (https.mpr (.inr whole)), if_pos whole]
    · rw [if_neg (fun taken => (https.mp taken).elim begins whole), if_neg whole]

theorem taken_iff {capacity : Nat} {scheme : List Octet} (grammar : isScheme scheme = true) :
    Taken capacity scheme ↔ scheme.length < capacity ∧ octet '-' ∉ scheme := by
  cases scheme with
  | nil => cases grammar
  | cons c front =>
      rw [isScheme, Bool.and_eq_true, List.all_eq_true] at grammar
      obtain ⟨alpha, others⟩ := grammar
      have first : octet '-' ≠ c := by
        rintro rfl
        exact absurd alpha (by decide)
      have all : front.all isTaken = true ↔ octet '-' ∉ front := by
        rw [List.all_eq_true]
        constructor
        · exact fun taken inside => absurd (taken _ inside) (by decide)
        · intro none d inside
          have octet := others d inside
          have ne : d ≠ Everscale.octet '-' := fun same => none (same ▸ inside)
          simp only [isTaken, Bool.or_eq_true, decide_eq_true_eq] at octet ⊢
          tauto
      rw [Taken, all, List.length_cons, List.mem_cons, not_or]
      constructor
      · rintro ⟨_, absent, room⟩
        exact ⟨room, first, absent⟩
      · rintro ⟨room, _, absent⟩
        exact ⟨alpha, absent, room⟩

theorem nul_notMem_scheme {scheme : List Octet} (grammar : isScheme scheme = true) : NUL ∉ scheme := by
  cases scheme with
  | nil => cases grammar
  | cons c front =>
      rw [isScheme, Bool.and_eq_true, List.all_eq_true] at grammar
      rintro inside
      rcases List.mem_cons.mp inside with rfl | inside
      · exact absurd grammar.1 (by decide)
      · exact absurd (grammar.2 _ inside) (by decide)

theorem kind_right_iff (capacity : Nat) (scheme : List Octet) :
    kindMeant scheme = kindGiven capacity scheme ↔ SchemeRead capacity scheme := by
  unfold kindMeant kindGiven SchemeRead
  by_cases grammar : isScheme scheme = true
  · rw [if_pos grammar, if_pos grammar]
    by_cases taken : Taken capacity scheme
    · rw [if_pos taken]
      obtain ⟨room, none⟩ := (taken_iff grammar).mp taken
      have some : scheme ≠ [] := by
        rintro rfl
        cases grammar
      rw [and_iff_right room, and_iff_right none, kindTaken_eq (nul_notMem_scheme grammar) some]
      by_cases begins : scheme ∈ [octets "h", octets "ht", octets "htt", octets "http"]
      · clear grammar taken room none some
        simp only [List.mem_cons, List.not_mem_nil, or_false] at begins
        rcases begins with rfl | rfl | rfl | rfl <;> decide
      by_cases https : scheme = octets "https"
      · clear grammar taken room none some begins
        subst https
        decide
      rw [if_neg begins, if_neg https]
      have short : scheme ∉ [octets "h", octets "ht", octets "htt"] := fun inside => begins (by
        simp only [List.mem_cons, List.not_mem_nil, or_false] at inside ⊢
        tauto)
      have http : scheme ≠ octets "http" := fun same => begins (by simp [same])
      rw [and_iff_right short]
      by_cases low : scheme.map toLower = octets "http"
      · rw [if_pos low]
        exact iff_of_false nofun fun same => http ((same (by simp [low])).symm.trans low)
      rw [if_neg low]
      by_cases low' : scheme.map toLower = octets "https"
      · rw [if_pos low']
        exact iff_of_false nofun fun same => https ((same (by simp [low'])).symm.trans low')
      rw [if_neg low']
      exact iff_of_true rfl fun inside => absurd inside (by simp [low, low'])
    · rw [if_neg taken]
      refine iff_of_false ?_ fun right => taken ((taken_iff grammar).mpr ⟨right.1, right.2.1⟩)
      split_ifs <;> exact nofun
  · rw [if_neg grammar, if_neg grammar]
    by_cases taken : Taken capacity scheme
    · rw [if_pos taken]
      exact iff_of_false nofun fun none => none taken
    · rw [if_neg taken]
      exact iff_of_true rfl taken

/-- However the target was cut: after the colon it shows the kind that its scheme means under
exactly this condition. -/
theorem scheme_shown_iff {first s : HttpRequestUriParser} {u held : List Octet} (initial : first.state = .initial)
    (empty : Holds first.working [] 0) (fed : Fed first s u held) {b : Buffer} (wf : b.WF)
    (marked : Needs s → Marked b) {piece : List Octet} (unread : b.unread = held ++ piece)
    {blanks scheme rest : List Octet} (blank : ∀ c ∈ blanks, isSpace c = true) (absolute : BeginsAbsolute scheme)
    (arrived : u ++ piece = blanks ++ (scheme ++ octet ':' :: rest)) :
    Shows scheme (kindMeant scheme) (parse s b) ↔ SchemeRead first.working.capacity scheme := by
  have shows := shows_given initial empty fed wf marked unread blank absolute arrived
  rw [← kind_right_iff]
  exact ⟨fun meant => meant.unique shows, fun same => same ▸ shows⟩

/-- A fresh parser of targets. -/
def freshUri : HttpRequestUriParser := { working := Buffer.create 16, requestUri := {} }

theorem http_shown :
    freshUri.state = .initial ∧ Holds freshUri.working [] 0 ∧ Fed freshUri freshUri [] [] ∧
      ((Buffer.create 16).fill (octets "http://a ")).WF ∧
      (Needs freshUri → Marked ((Buffer.create 16).fill (octets "http://a "))) ∧
      ((Buffer.create 16).fill (octets "http://a ")).unread = [] ++ octets "http://a " ∧
      (∀ c ∈ ([] : List Octet), isSpace c = true) ∧ BeginsAbsolute (octets "http") ∧
      [] ++ octets "http://a " = [] ++ (octets "http" ++ octet ':' :: octets "//a ") ∧
      (Shows (octets "http") (kindMeant (octets "http"))
          (parse freshUri ((Buffer.create 16).fill (octets "http://a "))) ↔
        SchemeRead freshUri.working.capacity (octets "http")) := by
  have empty : Holds freshUri.working [] 0 := Holds.create (by decide)
  have wf : ((Buffer.create 16).fill (octets "http://a ")).WF :=
    Buffer.fill_wf (Buffer.create_wf (by decide)) (by decide +kernel)
  have marked : Needs freshUri → Marked ((Buffer.create 16).fill (octets "http://a ")) := nofun
  have unread : ((Buffer.create 16).fill (octets "http://a ")).unread = [] ++ octets "http://a " := by decide +kernel
  have absolute : BeginsAbsolute (octets "http") := ⟨by decide +kernel, by decide +kernel⟩
  have arrived : [] ++ octets "http://a " = [] ++ (octets "http" ++ octet ':' :: octets "//a ") := by decide +kernel
  have blank : ∀ c ∈ ([] : List Octet), isSpace c = true := nofun
  exact ⟨rfl, empty, .start, wf, marked, unread, blank, absolute, arrived,
    scheme_shown_iff rfl empty .start wf marked unread blank absolute arrived⟩

/-- `h` passes for `http`, `HTTP` does not, `x-y` is refused and `x=y` is not. -/
theorem schemes_confused :
    (parse freshUri ((Buffer.create 16).fill (octets "h://a "))).code = .success ∧
      (parse freshUri ((Buffer.create 16).fill (octets "h://a "))).state.requestUri.type = .http ∧
      kindMeant (octets "h") = some .other ∧
    (parse freshUri ((Buffer.create 16).fill (octets "HTTP://a "))).code = .success ∧
      (parse freshUri ((Buffer.create 16).fill (octets "HTTP://a "))).state.requestUri.type = .other ∧
      kindMeant (octets "HTTP") = some .http ∧
    (parse freshUri ((Buffer.create 16).fill (octets "x-y:a "))).code = .badRequestUriScheme ∧
      kindMeant (octets "x-y") = some .other ∧
    (parse freshUri ((Buffer.create 16).fill (octets "x=y:a "))).code = .success ∧
      kindMeant (octets "x=y") = none := by
  decide

end HttpRequestUriParser

end Everscale
