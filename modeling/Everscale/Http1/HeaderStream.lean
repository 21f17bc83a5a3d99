/-
# Everscale.Http1.HeaderStream -- header parsing over the unread octets

`parseHeaders` over lists, for any first line parser that has a list version of its
own (`StartLineStream`).  `parseHeaders_mirrors` connects it to the buffer parser.

Cuts are not all harmless.  A call of `parseHeaders` that finds the parser inside a
field name looks for the empty line that ends the headers before it goes on with
the name, so a name cut just before a line break ends the headers and one cut just
before white space fails the assertion.  `nameCut` says that a cut is not of that
kind; `parseHeadersOn_resumable` holds for all others.
-/
import Everscale.Http1.ElementStream

namespace Everscale.HttpMessageParser

set_option autoImplicit false

open Theory HttpUtil

variable {χ ρ : Type}

/-! ## Fields -/

def onScratchOn (p : StreamParser (Scratch ρ)) : StreamParser (HttpMessageParser χ ρ) :=
  p.on (·.toScratch) fun s scratch => { s with toScratch := scratch }

def onStartLineOn (p : StreamParser (StartLineParse χ ρ)) : StreamParser (HttpMessageParser χ ρ) :=
  p.on (·.toStartLineParse) fun s start => { s with toStartLineParse := start }

theorem onScratchOn_resumesAt {p : StreamParser (Scratch ρ)}
    (rules : ∀ s u, ResumesAt .again anyCut p p s u) (s : HttpMessageParser χ ρ) (u : List Octet) :
    ResumesAt .again anyCut (onScratchOn p) (onScratchOn (χ := χ) p) s u :=
  on_resumesAt (fun s : HttpMessageParser χ ρ => s.toScratch)
    (fun s scratch => { s with toScratch := scratch }) (fun _ _ => rfl) (fun _ _ _ => rfl)
    (rules s.toScratch u)

theorem onScratch_mirrors {f : Reader (Scratch ρ)} {p : StreamParser (Scratch ρ)}
    {needs here : HttpMessageParser χ ρ → Prop} (mirrors : MirrorsPlainly (fun _ => True) f p)
    (plain : ∀ s scratch, here s → ¬ needs { s with toScratch := scratch }) :
    Mirrors needs here (onScratch f) (onScratchOn p) :=
  on_mirrors mirrors (fun _ _ => trivial) (fun _ _ h => h.elim) plain

def endOfHeadersOn (methods : StartLineMethods χ ρ) : StreamParser (HttpMessageParser χ ρ) :=
  fun s u =>
    let (e, s) := postParse methods (enter .headerParseComplete s)
    ⟨e, s, u⟩

/-- `parseHeaderFields` over lists. -/
def fieldsOn (methods : StartLineMethods χ ρ) (s : HttpMessageParser χ ρ) (u : List Octet) :
    Outcome Error (HttpMessageParser χ ρ) (List Octet) :=
  match s.stage with
  | .fieldName =>
      match u with
      | [] => ⟨.again, s, []⟩
      | c :: rest =>
          if c = CR then
            match rest with
            | [] => ⟨.again, s, [c]⟩
            | d :: rest =>
                if d = LF then endOfHeadersOn methods s rest
                else ⟨.badRequestFieldName, s, d :: rest⟩
          else if c = LF then endOfHeadersOn methods s rest
          else if c = SP ∨ c = HT then ⟨.assertFailed, s, c :: rest⟩
          else
            let o := onScratchOn fieldNameOn s (c :: rest)
            if o.code = .success then fieldsOn methods (enter .fieldValue o.state) o.input else o
  | .fieldValue =>
      let o := onScratchOn fieldValueOn s u
      if o.code = .success then fieldsOn methods (enter .fieldName o.state) o.input else o
  | _ => ⟨.invalidState, s, u⟩
termination_by u.length
decreasing_by
  · rename_i ok; exact fieldNameOn_shorter s.toScratch (c :: rest) ok
  · rename_i ok; exact fieldValueOn_shorter s.toScratch u ok

section fields

variable {methods : StartLineMethods χ ρ}

theorem fieldsOn_value {s : HttpMessageParser χ ρ} (h : s.stage = .fieldValue) (u : List Octet) :
    fieldsOn methods s u =
      Theory.stage .success (onScratchOn fieldValueOn) (enter .fieldName) (fieldsOn methods) s u := by
  rw [fieldsOn.eq_def]; simp only [h]; rfl

theorem fieldsOn_name {s : HttpMessageParser χ ρ} (h : s.stage = .fieldName) {c : Octet}
    (black : isLWS c = false) (rest : List Octet) :
    fieldsOn methods s (c :: rest) =
      Theory.stage .success (onScratchOn fieldNameOn) (enter .fieldValue) (fieldsOn methods) s
        (c :: rest) := by
  have : c ≠ CR ∧ c ≠ LF ∧ c ≠ SP ∧ c ≠ HT := by
    simpa [isLWS, and_assoc] using black
  obtain ⟨cr, lf, sp, ht⟩ := this
  rw [fieldsOn.eq_def]
  simp only [h, cr, lf, sp, ht, if_false, or_self]
  rfl

theorem fieldsOn_nil {s : HttpMessageParser χ ρ} (h : s.stage = .fieldName) :
    fieldsOn methods s [] = ⟨.again, s, []⟩ := by
  rw [fieldsOn.eq_def]; simp only [h]

theorem fieldsOn_lineFeed {s : HttpMessageParser χ ρ} (h : s.stage = .fieldName)
    (rest : List Octet) : fieldsOn methods s (LF :: rest) = endOfHeadersOn methods s rest := by
  rw [fieldsOn.eq_def]; simp only [h]; rfl

theorem fieldsOn_return {s : HttpMessageParser χ ρ} (h : s.stage = .fieldName) :
    fieldsOn methods s [CR] = ⟨.again, s, [CR]⟩ := by
  rw [fieldsOn.eq_def]; simp only [h, if_true]

theorem fieldsOn_returnLineFeed {s : HttpMessageParser χ ρ} (h : s.stage = .fieldName)
    (rest : List Octet) : fieldsOn methods s (CR :: LF :: rest) = endOfHeadersOn methods s rest := by
  rw [fieldsOn.eq_def]; simp only [h, if_true]

theorem fieldsOn_returnOther {s : HttpMessageParser χ ρ} (h : s.stage = .fieldName) {d : Octet}
    (ne : d ≠ LF) (rest : List Octet) :
    fieldsOn methods s (CR :: d :: rest) = ⟨.badRequestFieldName, s, d :: rest⟩ := by
  rw [fieldsOn.eq_def]; simp only [h, if_true, ne, if_false]

theorem fieldsOn_space {s : HttpMessageParser χ ρ} (h : s.stage = .fieldName) {c : Octet}
    (space : c = SP ∨ c = HT) (rest : List Octet) :
    fieldsOn methods s (c :: rest) = ⟨.assertFailed, s, c :: rest⟩ := by
  rw [fieldsOn.eq_def]
  rcases space with rfl | rfl <;> simp only [h] <;> rfl

/-- What the loop over fields finds at the beginning of a line. -/
theorem fieldsOn_cases (u : List Octet) {motive : Prop} (nil : u = [] → motive)
    (waits : u = [CR] → motive) (ends : ∀ rest, u = CR :: LF :: rest → motive)
    (lineFeed : ∀ rest, u = LF :: rest → motive)
    (lone : ∀ d rest, u = CR :: d :: rest → d ≠ LF → motive)
    (space : ∀ c rest, u = c :: rest → c = SP ∨ c = HT → motive)
    (name : ∀ c rest, u = c :: rest → isLWS c = false → motive) : motive := by
  match u with
  | [] => exact nil rfl
  | [c] =>
      by_cases cr : c = CR
      · exact waits (by rw [cr])
      · by_cases lf : c = LF
        · exact lineFeed [] (by rw [lf])
        · by_cases sp : c = SP ∨ c = HT
          · exact space c [] rfl sp
          · exact name c [] rfl (by simpa [isLWS, cr, lf] using sp)
  | c :: d :: rest =>
      by_cases cr : c = CR
      · by_cases lf : d = LF
        · exact ends rest (by rw [cr, lf])
        · exact lone d rest (by rw [cr]) lf
      · by_cases lf : c = LF
        · exact lineFeed (d :: rest) (by rw [lf])
        · by_cases sp : c = SP ∨ c = HT
          · exact space c (d :: rest) rfl sp
          · exact name c (d :: rest) rfl (by simpa [isLWS, cr, lf] using sp)

/-- A cut is harmless unless it falls inside a field name, right before white space or a
line break. -/
def nameCut (s : HttpMessageParser χ ρ) (rest : List Octet) : Prop :=
  s.stage = .fieldName → s.working.writePosition ≠ 0 → ∀ c ∈ rest.head?, isLWS c = false

instance (s : HttpMessageParser χ ρ) (rest : List Octet) : Decidable (nameCut s rest) :=
  inferInstanceAs (Decidable (_ → _ → ∀ c ∈ rest.head?, isLWS c = false))

/-- The only error a header can cause. -/
theorem postParseHeader_code (header : HttpHeader) (found : PostParse ρ) :
    (postParseHeader header found).1 = .success ∨
      (postParseHeader header found).1 = .badContentLength := by
  unfold postParseHeader
  split
  · exact .inl rfl
  · rename_i value _
    split_ifs <;> first
      | exact .inl rfl
      | rcases ParseInteger_code value with h | h <;> simp [h]

theorem postParseHeaders_code (headers : List HttpHeader) (found : PostParse ρ) :
    (postParseHeaders headers found).1 = .success ∨
      (postParseHeaders headers found).1 = .badContentLength := by
  induction headers generalizing found with
  | nil => exact .inl rfl
  | cons header rest ih =>
      rw [postParseHeaders]
      rcases postParseHeader_code header found with code | code
      · simp only [code, if_true]; exact ih _
      · simp [code]

theorem delimitBody_code (methods : StartLineMethods χ ρ) (s : HttpMessageParser χ ρ)
    (found : PostParse ρ) : (delimitBody methods s found).1 = .success ∨
      (delimitBody methods s found).1 = .multipartNotSupported := by
  simp only [delimitBody]
  split_ifs <;> first | exact .inl rfl | exact .inr rfl

theorem postParse_final (methods : StartLineMethods χ ρ) (s : HttpMessageParser χ ρ) :
    (postParse methods s).1 ≠ .again := by
  simp only [postParse]
  rcases postParseHeaders_code s.message.headers (postParseStart s.message) with h | h
  · rcases delimitBody_code methods s
      (postParseHeaders s.message.headers (postParseStart s.message)).2 with h' | h' <;> simp [h, h']
  · simp [h]

theorem endOfHeadersOn_resumesAt (methods : StartLineMethods χ ρ)
    {safe : HttpMessageParser χ ρ → List Octet → Prop} {g : StreamParser (HttpMessageParser χ ρ)}
    (s : HttpMessageParser χ ρ) (u : List Octet) :
    ResumesAt .again safe g (endOfHeadersOn methods) s u :=
  .of_final List.suffix_rfl (postParse_final methods (enter .headerParseComplete s)) fun _ => rfl

/-- **Fields may be cut anywhere but inside a name that is about to break off.**  The
dispatcher `g` has to run the fields in the fields' own states. -/
theorem fieldsOn_resumesAt {g : StreamParser (HttpMessageParser χ ρ)}
    (dispatch : ∀ s u, s.stage = .fieldName ∨ s.stage = .fieldValue →
      g s u = fieldsOn methods s u) (s : HttpMessageParser χ ρ) (u : List Octet)
    (h : s.stage = .fieldName ∨ s.stage = .fieldValue) :
    ResumesAt .again nameCut g (fieldsOn methods) s u := by
  induction length : u.length using Nat.strong_induction_on generalizing s u with
  | _ n ih =>
      rcases h with h | h
      · have here := fun w => dispatch s w (.inl h)
        refine fieldsOn_cases u ?_ ?_ ?_ ?_ ?_ ?_ ?_
        · rintro rfl
          exact .of_wait (fieldsOn_nil h) fun w _ => here w
        · rintro rfl
          exact .of_wait (fieldsOn_return h) fun w _ => here w
        · rintro rest rfl
          exact .of_continue ((List.suffix_cons LF rest).trans (List.suffix_cons CR _))
            (endOfHeadersOn_resumesAt methods s rest)
            fun more => fieldsOn_returnLineFeed h (rest ++ more)
        · rintro rest rfl
          exact .of_continue (List.suffix_cons LF rest) (endOfHeadersOn_resumesAt methods s rest)
            fun more => fieldsOn_lineFeed h (rest ++ more)
        · rintro d rest rfl ne
          exact .of_final (List.suffix_cons CR (d :: rest)) (by decide)
            fun more => fieldsOn_returnOther h ne (rest ++ more)
        · rintro c rest rfl space
          exact .of_final (List.suffix_rfl) (by decide)
            fun more => fieldsOn_space h space (rest ++ more)
        · rintro c rest rfl black
          refine .of_continue List.suffix_rfl (stage_resumesAt (by decide)
            (onScratchOn_resumesAt fieldNameOn_resumesAt s (c :: rest)) ?_ ?_)
            fun more => fieldsOn_name h black (rest ++ more)
          · -- inside the name, a safe cut leaves the next octet part of it or wrong
            intro wants w cut
            have parked : (onScratchOn fieldNameOn s (c :: rest)).state.stage = .fieldName := h
            rw [dispatch _ _ (.inl parked)]
            cases w with
            | nil => exact fieldsOn_nil parked
            | cons d w =>
                exact fieldsOn_name parked (cut parked (fieldNameOn_parks wants) d (by simp)) w
          · intro ok
            have shorter : (onScratchOn fieldNameOn s (c :: rest)).input.length < n := by
              rw [← length]; exact fieldNameOn_shorter s.toScratch (c :: rest) ok
            exact ih _ shorter _ _ (.inr rfl) rfl
      · refine .of_continue List.suffix_rfl (stage_resumesAt (by decide)
          (onScratchOn_resumesAt fieldValueOn_resumesAt s u) ?_ ?_)
          fun more => fieldsOn_value h (u ++ more)
        · intro _ w _
          have parked : (onScratchOn fieldValueOn s u).state.stage = .fieldValue := h
          rw [dispatch _ _ (.inr parked)]
          exact fieldsOn_value parked w
        · intro ok
          have shorter : (onScratchOn fieldValueOn s u).input.length < n := by
            rw [← length]; exact fieldValueOn_shorter s.toScratch u ok
          exact ih _ shorter _ _ (.inl rfl) rfl

theorem fieldsOn_waits (s : HttpMessageParser χ ρ) (u : List Octet)
    (h : s.stage = .fieldName ∨ s.stage = .fieldValue) :
    Waits .again Lookahead (fieldsOn methods) s u := by
  induction length : u.length using Nat.strong_induction_on generalizing s u with
  | _ n ih =>
      unfold Waits
      rcases h with h | h
      · refine fieldsOn_cases u ?_ ?_ ?_ ?_ ?_ ?_ ?_
        · rintro rfl; rw [fieldsOn_nil h]; exact fun _ => lookahead_nil
        · rintro rfl; rw [fieldsOn_return h]; exact fun _ => .inr rfl
        · rintro rest rfl
          rw [fieldsOn_returnLineFeed h]
          exact fun wants => absurd wants (postParse_final methods _)
        · rintro rest rfl
          rw [fieldsOn_lineFeed h]
          exact fun wants => absurd wants (postParse_final methods _)
        · rintro d rest rfl ne; rw [fieldsOn_returnOther h ne]; exact fun wants => nomatch wants
        · rintro c rest rfl space; rw [fieldsOn_space h space]; exact fun wants => nomatch wants
        · rintro c rest rfl black
          rw [fieldsOn_name h black]
          refine stage_waits (fieldNameOn_waits s.toScratch (c :: rest)) fun ok => ?_
          have shorter : (onScratchOn fieldNameOn s (c :: rest)).input.length < n := by
            rw [← length]; exact fieldNameOn_shorter s.toScratch (c :: rest) ok
          exact ih _ shorter _ _ (.inr rfl) rfl
      · rw [fieldsOn_value h]
        refine stage_waits (fieldValueOn_waits s.toScratch u) fun ok => ?_
        have shorter : (onScratchOn fieldValueOn s u).input.length < n := by
          rw [← length]; exact fieldValueOn_shorter s.toScratch u ok
        exact ih _ shorter _ _ (.inl rfl) rfl

theorem endOfHeaders_reads (methods : StartLineMethods χ ρ) (s : HttpMessageParser χ ρ)
    {b : Buffer} (wf : b.WF) :
    Reads b (endOfHeaders methods s b) (endOfHeadersOn methods s b.unread) :=
  .leaving rfl (Buffer.readMark_wf wf) (SameOctets.readMark b)

/-- Fields wait only in their own states. -/
theorem fieldsOn_parks (s : HttpMessageParser χ ρ) (u : List Octet)
    (h : s.stage = .fieldName ∨ s.stage = .fieldValue)
    (wants : (fieldsOn methods s u).code = .again) :
    (fieldsOn methods s u).state.stage = .fieldName ∨
      (fieldsOn methods s u).state.stage = .fieldValue := by
  induction length : u.length using Nat.strong_induction_on generalizing s u with
  | _ n ih =>
      rcases h with h | h
      · refine fieldsOn_cases u ?_ ?_ ?_ ?_ ?_ ?_ ?_
        · rintro rfl; rw [fieldsOn_nil h]; exact .inl h
        · rintro rfl; rw [fieldsOn_return h]; exact .inl h
        · rintro rest rfl
          rw [fieldsOn_returnLineFeed h] at wants
          exact absurd wants (postParse_final methods _)
        · rintro rest rfl
          rw [fieldsOn_lineFeed h] at wants
          exact absurd wants (postParse_final methods _)
        · rintro d rest rfl ne
          rw [fieldsOn_returnOther h ne] at wants; cases wants
        · rintro c rest rfl space
          rw [fieldsOn_space h space] at wants; cases wants
        · rintro c rest rfl black
          rw [fieldsOn_name h black] at wants ⊢
          simp only [Theory.stage] at wants ⊢
          split_ifs at wants ⊢ with ok
          · have shorter : (onScratchOn fieldNameOn s (c :: rest)).input.length < n := by
              rw [← length]; exact fieldNameOn_shorter s.toScratch (c :: rest) ok
            exact ih _ shorter _ _ (.inr rfl) wants rfl
          · exact .inl h
      · rw [fieldsOn_value h] at wants ⊢
        simp only [Theory.stage] at wants ⊢
        split_ifs at wants ⊢ with ok
        · have shorter : (onScratchOn fieldValueOn s u).input.length < n := by
            rw [← length]; exact fieldValueOn_shorter s.toScratch u ok
          exact ih _ shorter _ _ (.inl rfl) wants rfl
        · exact .inr h

theorem onScratch_reads {f : Reader (Scratch ρ)} {p : StreamParser (Scratch ρ)}
    (mirrors : MirrorsPlainly (fun _ => True) f p) (s : HttpMessageParser χ ρ) {b : Buffer}
    (wf : b.WF) : Reads b (onScratch f s b) (onScratchOn p s b.unread) := by
  obtain ⟨reads, -⟩ := mirrors s.toScratch b trivial wf (fun h => h.elim)
  refine ⟨reads.code, ?_, reads.unread, reads.wf, reads.same⟩
  simp only [onScratch, Reader.on, onScratchOn, Parser.on, reads.state]

/-- The loop over fields reads what its list version reads, with more fuel than octets. -/
theorem parseFields_reads (fuel : Nat) :
    ∀ (s : HttpMessageParser χ ρ) (b : Buffer), s.stage = .fieldName ∨ s.stage = .fieldValue →
      b.WF → b.unread.length < fuel →
      Reads b (parseFields methods fuel s b) (fieldsOn methods s b.unread) := by
  induction fuel with
  | zero => intro s b _ _ enough; exact absurd enough (Nat.not_lt_zero _)
  | succ fuel ih =>
      intro s b h wf enough
      rcases h with h | h
      · refine fieldsOn_cases b.unread ?_ ?_ ?_ ?_ ?_ ?_ ?_
        · intro empty
          rw [empty, fieldsOn_nil h]
          simp only [parseFields, h, Buffer.not_isReadable_of_unread wf empty, Bool.not_false, if_true]
          exact .leaving empty wf (SameOctets.refl b)
        · intro unread
          have readable := Buffer.isReadable_of_unread wf unread
          have tail := Buffer.skipNext_unread_cons wf unread
          rw [unread, fieldsOn_return h]
          simp only [parseFields, h, readable, Buffer.peekNext_of_unread wf unread,
            Buffer.not_isReadable_of_unread (Buffer.skipNext_wf wf) tail, Bool.not_true,
            Bool.not_false, Bool.false_eq_true, if_false, if_true,
            Buffer.setReadPosition_skipNext wf readable]
          exact .leaving unread wf (SameOctets.refl b)
        · intro rest unread
          have wf' := Buffer.skipNext_wf wf
          have tail := Buffer.skipNext_unread_cons wf unread
          rw [unread, fieldsOn_returnLineFeed h]
          simp only [parseFields, h, Buffer.isReadable_of_unread wf unread,
            Buffer.peekNext_of_unread wf unread, Buffer.isReadable_of_unread wf' tail,
            Buffer.peekNext_of_unread wf' tail, Bool.not_true, Bool.false_eq_true, ne_eq,
            not_true_eq_false, if_false, if_true]
          have step := endOfHeaders_reads methods s (Buffer.skipNext_wf wf')
          rw [Buffer.skipNext_unread_cons wf' tail] at step
          exact step.of_same ((SameOctets.skipNext b).trans (SameOctets.skipNext _))
        · intro rest unread
          rw [unread, fieldsOn_lineFeed h]
          have ne : LF ≠ CR := by decide
          simp only [parseFields, h, Buffer.isReadable_of_unread wf unread,
            Buffer.peekNext_of_unread wf unread, Bool.not_true, Bool.false_eq_true, ne, if_false,
            if_true]
          have step := endOfHeaders_reads methods s (Buffer.skipNext_wf wf)
          rw [Buffer.skipNext_unread_cons wf unread] at step
          exact step.of_same (SameOctets.skipNext b)
        · intro d rest unread ne
          have wf' := Buffer.skipNext_wf wf
          have tail := Buffer.skipNext_unread_cons wf unread
          rw [unread, fieldsOn_returnOther h ne]
          simp only [parseFields, h, Buffer.isReadable_of_unread wf unread,
            Buffer.peekNext_of_unread wf unread, Buffer.isReadable_of_unread wf' tail,
            Buffer.peekNext_of_unread wf' tail, Bool.not_true, Bool.false_eq_true, ne_eq, ne,
            not_false_eq_true, if_false, if_true]
          exact .leaving tail wf' (SameOctets.skipNext b)
        · intro c rest unread space
          have distinct : c ≠ CR ∧ c ≠ LF := by rcases space with rfl | rfl <;> decide
          rw [unread, fieldsOn_space h space]
          simp only [parseFields, h, Buffer.isReadable_of_unread wf unread,
            Buffer.peekNext_of_unread wf unread, distinct, space, Bool.not_true,
            Bool.false_eq_true, if_false, if_true]
          exact .leaving unread wf (SameOctets.refl b)
        · intro c rest unread black
          have distinct : c ≠ CR ∧ c ≠ LF ∧ ¬ (c = SP ∨ c = HT) := by
            simpa [isLWS, and_assoc] using black
          have named : parseFields methods (fuel + 1) s b =
              Reader.stage (onScratch parseFieldName) (enter .fieldValue)
                (parseFields methods fuel) s b := by
            simp only [parseFields, h, Buffer.isReadable_of_unread wf unread,
              Buffer.peekNext_of_unread wf unread, distinct, Bool.not_true, Bool.false_eq_true,
              if_false]
          have namedOn : fieldsOn methods s (c :: rest) = _ := fieldsOn_name h black rest
          rw [← unread] at namedOn
          rw [named, namedOn]
          refine stage_reads (onScratch_reads parseFieldName_mirrors s wf) ?_
          intro ok b' wf' _ left
          have shorter := fieldNameOn_shorter s.toScratch b.unread ok
          refine ih _ b' (.inr rfl) wf' ?_
          rw [left]
          exact Nat.lt_of_lt_of_le shorter (Nat.le_of_lt_succ enough)
      · have valued : parseFields methods (fuel + 1) s b =
            Reader.stage (onScratch parseFieldValue) (enter .fieldName)
              (parseFields methods fuel) s b := by
          simp only [parseFields, h]
        rw [valued, fieldsOn_value h]
        refine stage_reads (onScratch_reads parseFieldValue_mirrors s wf) ?_
        intro ok b' wf' _ left
        have shorter := fieldValueOn_shorter s.toScratch b.unread ok
        refine ih _ b' (.inl rfl) wf' ?_
        rw [left]
        exact Nat.lt_of_lt_of_le shorter (Nat.le_of_lt_succ enough)

end fields

/-! ## Headers -/

/-- The list version of a first line parser with what the header parser needs of it. -/
structure StartLineStream (methods : StartLineMethods χ ρ) where
  parseStartLineOn : StreamParser (StartLineParse χ ρ)
  /-- the states that need the read mark -/
  needs : StartLineParse χ ρ → Prop
  mirrors : Mirrors needs (fun _ => True) methods.parseStartLine parseStartLineOn
  resumes : ∀ s u, ResumesAt .again anyCut parseStartLineOn parseStartLineOn s u
  waits : ∀ s u, Waits .again Lookahead parseStartLineOn s u

section headers

variable {methods : StartLineMethods χ ρ} (stream : StartLineStream methods)

def fromStartLineOn : StreamParser (HttpMessageParser χ ρ) := fun s u =>
  if s.stage = .startLine then
    Theory.stage .success (onStartLineOn stream.parseStartLineOn) (enter .fieldName)
      (fieldsOn methods) s u
  else fieldsOn methods s u

/-- `parseHeaders` over lists. -/
def parseHeadersOn : StreamParser (HttpMessageParser χ ρ) := fun s u =>
  if s.stage = .headerParseComplete then ⟨.invalidState, s, u⟩
  else if s.stage = .initial then
    let v := u.dropWhile isLWS
    if v = [] then ⟨.again, s, []⟩ else fromStartLineOn stream (enter .startLine s) v
  else fromStartLineOn stream s u

/-- The header parser needs the read mark where its first line parser does. -/
def HeaderNeeds (s : HttpMessageParser χ ρ) : Prop :=
  s.stage = .startLine ∧ stream.needs s.toStartLineParse

variable {stream}

theorem parseHeadersOn_fields {s : HttpMessageParser χ ρ}
    (h : s.stage = .fieldName ∨ s.stage = .fieldValue) (u : List Octet) :
    parseHeadersOn stream s u = fieldsOn methods s u := by
  rcases h with h | h <;> simp [parseHeadersOn, fromStartLineOn, h]

theorem parseHeadersOn_startLine {s : HttpMessageParser χ ρ} (h : s.stage = .startLine)
    (u : List Octet) :
    parseHeadersOn stream s u =
      Theory.stage .success (onStartLineOn stream.parseStartLineOn) (enter .fieldName)
        (fieldsOn methods) s u := by
  simp [parseHeadersOn, fromStartLineOn, h]

theorem onStartLineOn_resumesAt (s : HttpMessageParser χ ρ) (u : List Octet) :
    ResumesAt .again anyCut (onStartLineOn stream.parseStartLineOn)
      (onStartLineOn stream.parseStartLineOn) s u :=
  on_resumesAt (fun s : HttpMessageParser χ ρ => s.toStartLineParse)
    (fun s start => { s with toStartLineParse := start }) (fun _ _ => rfl) (fun _ _ _ => rfl)
    (stream.resumes s.toStartLineParse u)

theorem startLine_resumesAt {s : HttpMessageParser χ ρ} (h : s.stage = .startLine)
    (u : List Octet) :
    ResumesAt .again nameCut (parseHeadersOn stream) (parseHeadersOn stream) s u := by
  refine .of_continue List.suffix_rfl (stage_resumesAt (by decide)
    (onStartLineOn_resumesAt s u) (fun _ w _ => ?_) fun _ => ?_)
    fun more => parseHeadersOn_startLine h (u ++ more)
  · have parked : (onStartLineOn stream.parseStartLineOn s u).state.stage = .startLine := h
    exact parseHeadersOn_startLine parked w
  · exact fieldsOn_resumesAt (fun _ w at_ => parseHeadersOn_fields at_ w) _ _ (.inl rfl)

/-- **`parseHeaders` may be cut anywhere but inside a field name that breaks off.** -/
theorem parseHeadersOn_resumable : Resumable .again nameCut (parseHeadersOn stream) := by
  intro s u
  cases h : s.stage with
  | headerParseComplete =>
      have complete : ∀ w, parseHeadersOn stream s w = ⟨.invalidState, s, w⟩ := fun w => by
        simp only [parseHeadersOn, h, if_true]
      exact .of_final List.suffix_rfl (by decide) fun more => complete (u ++ more)
  | initial =>
      have start : ∀ w, parseHeadersOn stream s w =
          if w.dropWhile isLWS = [] then ⟨.again, s, []⟩
          else parseHeadersOn stream (enter .startLine s) (w.dropWhile isLWS) := by
        intro w
        simp only [parseHeadersOn, h, reduceCtorEq, if_false, if_true, enter]
      exact .of_skip isLWS (fun _ => enter .startLine s) start (fun _ _ _ => rfl) (fun _ => rfl)
        fun _ => startLine_resumesAt (s := enter .startLine s) rfl _
  | startLine => exact startLine_resumesAt h u
  | fieldName =>
      exact .of_continue List.suffix_rfl (fieldsOn_resumesAt (fun _ w at_ => parseHeadersOn_fields at_ w) s u
        (.inl h)) fun more => parseHeadersOn_fields (.inl h) (u ++ more)
  | fieldValue =>
      exact .of_continue List.suffix_rfl (fieldsOn_resumesAt (fun _ w at_ => parseHeadersOn_fields at_ w) s u
        (.inr h)) fun more => parseHeadersOn_fields (.inr h) (u ++ more)

theorem fromStartLineOn_waits (s : HttpMessageParser χ ρ) (u : List Octet)
    (h : s.stage ≠ .headerParseComplete) (h' : s.stage ≠ .initial) :
    Waits .again Lookahead (fromStartLineOn stream) s u := by
  unfold Waits
  cases stage : s.stage with
  | headerParseComplete => exact absurd stage h
  | initial => exact absurd stage h'
  | startLine =>
      simp only [fromStartLineOn, stage, if_true]
      exact stage_waits (stream.waits s.toStartLineParse u) fun _ => fieldsOn_waits _ _ (.inl rfl)
  | fieldName =>
      simp only [fromStartLineOn, stage, reduceCtorEq, if_false]
      exact fieldsOn_waits s u (.inl stage)
  | fieldValue =>
      simp only [fromStartLineOn, stage, reduceCtorEq, if_false]
      exact fieldsOn_waits s u (.inr stage)

/-- **What `parseHeaders` leaves unread when it asks for more.** -/
theorem parseHeadersOn_waits (s : HttpMessageParser χ ρ) (u : List Octet) :
    Waits .again Lookahead (parseHeadersOn stream) s u := by
  unfold Waits
  by_cases complete : s.stage = .headerParseComplete
  · simp [parseHeadersOn, complete]
  · by_cases initial : s.stage = .initial
    · simp only [parseHeadersOn, initial, reduceCtorEq, if_false, if_true]
      split
      · exact fun _ => lookahead_nil
      · exact fromStartLineOn_waits _ _ (by simp [enter]) (by simp [enter])
    · simp only [parseHeadersOn, complete, initial, if_false]
      exact fromStartLineOn_waits s u complete initial

variable (stream)

theorem parseHeaderFields_mirrors :
    Mirrors (HeaderNeeds stream) (fun s => s.stage ≠ .startLine) (parseHeaderFields methods)
      (fieldsOn methods) := by
  intro s b h wf _
  by_cases fields : s.stage = .fieldName ∨ s.stage = .fieldValue
  · have reads : Reads b (parseHeaderFields methods s b) (fieldsOn methods s b.unread) :=
      parseFields_reads (b.readable + 1) s b fields wf
        (by rw [Buffer.unread_length wf]; exact Nat.lt_succ_self _)
    refine ⟨reads, fun wants need => ?_⟩
    have parked := fieldsOn_parks s b.unread fields (reads.code.symm.trans wants)
    rw [← reads.state] at parked
    rcases parked with parked | parked <;>
      exact absurd (parked.symm.trans need.1) (by decide)
  · have lost : parseHeaderFields methods s b = ⟨.invalidState, s, b⟩ := by
      simp only [parseHeaderFields, parseFields]
      cases stage : s.stage <;> simp_all
    have lostOn : fieldsOn methods s b.unread = ⟨.invalidState, s, b.unread⟩ := by
      rw [fieldsOn.eq_def]
      cases stage : s.stage <;> simp_all
    rw [lost, lostOn]
    exact ⟨Reads.rest wf _ _, fun wants => nomatch wants⟩

theorem parseFromStartLine_mirrors :
    Mirrors (HeaderNeeds stream) (fun _ => True) (parseFromStartLine methods)
      (fromStartLineOn stream) := by
  intro s b _ wf marked
  by_cases h : s.stage = .startLine
  · have element : Mirrors (HeaderNeeds stream) (fun s => s.stage = .startLine)
        (onStartLine methods.parseStartLine) (onStartLineOn stream.parseStartLineOn) :=
      on_mirrors stream.mirrors (fun _ _ => trivial) (fun _ h need => ⟨h, need⟩)
        (fun _ _ _ need => need.2)
    have staged : Mirrors (HeaderNeeds stream) (fun s => s.stage = .startLine)
        (Reader.stage (onStartLine methods.parseStartLine) (enter .fieldName)
          (parseHeaderFields methods)) _ :=
      stage_mirrors element (fun _ _ _ _ => by simp [enter])
        (parseHeaderFields_mirrors stream)
    have staged := staged s b h wf marked
    simpa only [parseFromStartLine, fromStartLineOn, h, if_true] using staged
  · have fields := parseHeaderFields_mirrors stream s b h wf marked
    simpa only [parseFromStartLine, fromStartLineOn, h, if_false] using fields

/-- **`parseHeaders` reads a buffer as `parseHeadersOn` reads its unread octets.** -/
theorem parseHeaders_mirrors :
    Mirrors (HeaderNeeds stream) (fun _ => True) (parseHeaders methods) (parseHeadersOn stream) := by
  intro s b _ wf marked
  by_cases complete : s.stage = .headerParseComplete
  · simp only [parseHeaders, parseHeadersOn, complete, if_true]
    exact ⟨Reads.rest wf _ _, fun wants => nomatch wants⟩
  · by_cases initial : s.stage = .initial
    · obtain ⟨left, wf', same⟩ := Buffer.skipWhile_spec isLWS b.readable wf
        (by rw [Buffer.unread_length wf])
      simp only [parseHeaders, parseHeadersOn, initial, if_false, if_true, reduceCtorEq]
      by_cases blank : b.unread.dropWhile isLWS = []
      · rw [if_pos blank, if_neg (by
          rw [Buffer.not_isReadable_of_unread wf' (left.trans blank)]; simp)]
        refine ⟨.leaving (left.trans blank) wf' same, fun _ need => ?_⟩
        exact absurd (initial.symm.trans need.1) (by decide)
      · rw [if_neg blank, if_pos ((Buffer.isReadable_iff wf').2 (by rw [left]; exact blank))]
        have step := parseFromStartLine_mirrors stream (enter .startLine s)
          (b.skipWhile isLWS b.readable).readMark trivial (Buffer.readMark_wf wf') (fun _ => rfl)
        rw [Buffer.readMark_unread, left] at step
        exact ⟨step.1.of_same (same.trans (SameOctets.readMark _)), step.2⟩
    · have step := parseFromStartLine_mirrors stream s b trivial wf marked
      simpa only [parseHeaders, parseHeadersOn, complete, initial, if_false] using step

end headers

end Everscale.HttpMessageParser
