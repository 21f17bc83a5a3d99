/-
# Theory.Resumable -- parsers that may be called again with more input

A parser called on the octets that have arrived so far either finishes, with a
result code, or asks for more (`again`), leaving some octets unread.  The caller
keeps the parser's state and the unread octets and calls again once more octets
are there.  The parser is *resumable* when the cut does not show: finishing is
stable under further input, and a call after `again` on the extended remainder is
the call that would have been made on everything at once.

Some cuts may show.  `safe s rest` says which do not: those in front of `rest`
with the parser waiting in state `s`.

A large parser is a dispatch on its own state over smaller ones, so the working
notion is relative.  `ResumesAt again safe g f s u` says that the call `f s u` is
resumed by calling the dispatcher `g`.  The combinators come with their rules:
`scan_resumesAt` for a loop over octets, `stage_resumesAt` for one element followed
by the rest, `on_resumesAt` for a parser on a part of the state.
-/
import Mathlib.Data.List.Infix

namespace Everscale.Theory

set_option autoImplicit false

/-- What one call returns: a result code, the state to keep and what is left of
the input. -/
@[ext] structure Outcome (ε σ ι : Type*) where
  code : ε
  state : σ
  input : ι
  deriving DecidableEq, Repr

variable {ε σ τ α : Type*}

namespace Outcome

/-- The same outcome with `more` input behind what was left. -/
def extend (o : Outcome ε σ (List α)) (more : List α) : Outcome ε σ (List α) :=
  { o with input := o.input ++ more }

@[simp] theorem extend_code (o : Outcome ε σ (List α)) (more : List α) :
    (o.extend more).code = o.code := rfl

@[simp] theorem extend_state (o : Outcome ε σ (List α)) (more : List α) :
    (o.extend more).state = o.state := rfl

@[simp] theorem extend_input (o : Outcome ε σ (List α)) (more : List α) :
    (o.extend more).input = o.input ++ more := rfl

end Outcome

/-- A parser on the input that is there. -/
abbrev Parser (ε σ α : Type*) := σ → List α → Outcome ε σ (List α)

/-- The call `f s u` takes input from the front only; a final outcome survives more
input; and after `again`, at a safe cut, a call of `g` on the extended remainder is
the call of `f` on the whole. -/
structure ResumesAt (again : ε) (safe : σ → List α → Prop) (g f : Parser ε σ α) (s : σ)
    (u : List α) : Prop where
  suffix : (f s u).input <:+ u
  final : ∀ more, (f s u).code ≠ again → f s (u ++ more) = (f s u).extend more
  resume : ∀ more, (f s u).code = again → safe (f s u).state ((f s u).input ++ more) →
    f s (u ++ more) = g (f s u).state ((f s u).input ++ more)

/-- When the call `f s u` asks for more, what it leaves unread is within `limit`. -/
def Waits (again : ε) (limit : List α → Prop) (f : Parser ε σ α) (s : σ) (u : List α) : Prop :=
  (f s u).code = again → limit (f s u).input

namespace ResumesAt

variable {again : ε} {safe : σ → List α → Prop} {f g k : Parser ε σ α} {s s' : σ} {u r : List α}

/-- A call that asks for more with nothing taken and nothing changed. -/
theorem of_wait (now : f s u = ⟨again, s, u⟩) (dispatch : ∀ w, safe s w → g s w = f s w) :
    ResumesAt again safe g f s u where
  suffix := by rw [now]
  final more done := absurd (by rw [now]) done
  resume more _ cut := by rw [now] at cut ⊢; exact (dispatch _ cut).symm

/-- A call that finishes with the same outcome whatever follows. -/
theorem of_final {e : ε} (left : r <:+ u) (ne : e ≠ again)
    (same : ∀ more, f s (u ++ more) = ⟨e, s', r ++ more⟩) : ResumesAt again safe g f s u := by
  have now : f s u = ⟨e, s', r⟩ := by simpa using same []
  refine ⟨by rw [now]; exact left, fun more _ => ?_, fun more wants => ?_⟩
  · rw [now, same]; rfl
  · rw [now] at wants; exact absurd wants ne

/-- A call that goes on as another one, whatever follows. -/
theorem of_continue (left : r <:+ u) (rules : ResumesAt again safe g k s' r)
    (same : ∀ more, f s (u ++ more) = k s' (r ++ more)) : ResumesAt again safe g f s u := by
  have now : f s u = k s' r := by simpa using same []
  refine ⟨by rw [now]; exact rules.suffix.trans left, fun more done => ?_,
    fun more wants cut => ?_⟩
  · rw [now] at done ⊢; rw [same, rules.final more done]
  · rw [now] at wants cut ⊢; rw [same, rules.resume more wants cut]

/-- A call that skips over `p` and then, if anything is left, goes on in a state that the
first octet left decides. -/
theorem of_skip (p : α → Bool) (entered : List α → σ)
    (now : ∀ w, f s w = if w.dropWhile p = [] then ⟨again, s, []⟩
      else k (entered (w.dropWhile p)) (w.dropWhile p))
    (stable : ∀ v more, v ≠ [] → entered (v ++ more) = entered v)
    (dispatch : ∀ w, g s w = f s w)
    (rules : u.dropWhile p ≠ [] →
      ResumesAt again safe g k (entered (u.dropWhile p)) (u.dropWhile p)) :
    ResumesAt again safe g f s u := by
  by_cases blank : u.dropWhile p = []
  · have waits : f s u = ⟨again, s, []⟩ := by rw [now, if_pos blank]
    refine ⟨by rw [waits]; exact List.nil_suffix, fun more done => absurd (by rw [waits]) done,
      fun more _ _ => ?_⟩
    rw [waits, dispatch, now, now, List.dropWhile_append, blank]
    rfl
  · refine .of_continue (List.dropWhile_suffix p) (rules blank) fun more => ?_
    have skipped : (u ++ more).dropWhile p = u.dropWhile p ++ more := by
      rw [List.dropWhile_append]; simp [blank]
    rw [now, skipped, if_neg (by simp [blank]), stable _ _ blank]

end ResumesAt

/-- A parser whose calls may be cut at every safe place. -/
abbrev Resumable (again : ε) (safe : σ → List α → Prop) (f : Parser ε σ α) : Prop :=
  ∀ s u, ResumesAt again safe f f s u

/-- Every cut is safe. -/
abbrev anyCut : σ → List α → Prop := fun _ _ => True

variable [DecidableEq ε] {again success : ε} {safe : σ → List α → Prop}

/-! ## Loops over octets -/

/-- What a loop does with one octet. -/
inductive Act (ε σ : Type*) where
  /-- take the octet and go on -/
  | keep (s : σ)
  /-- take the octet and return -/
  | stop (code : ε) (s : σ)
  /-- take the octet and go over to what follows the loop -/
  | jump (s : σ)
  /-- leave the octet and go over to what follows the loop -/
  | back (s : σ)

/-- A loop over octets.  `guard` may refuse before the next octet is taken. -/
def scan (again : ε) (guard : σ → Option ε) (act : σ → α → Act ε σ) (after : Parser ε σ α) :
    Parser ε σ α
  | s, [] => ⟨again, s, []⟩
  | s, c :: rest =>
      match guard s with
      | some e => ⟨e, s, c :: rest⟩
      | none =>
          match act s c with
          | .keep s' => scan again guard act after s' rest
          | .stop e s' => ⟨e, s', rest⟩
          | .jump s' => after s' rest
          | .back s' => after s' (c :: rest)

section scan

variable {guard : σ → Option ε} {act : σ → α → Act ε σ} {after g : Parser ε σ α}
  {here there : σ → Prop}

/-- What a loop owes: its own codes are final, kept states stay `here` and the states
it leaves in are `there`. -/
structure ScanRules (again : ε) (guard : σ → Option ε) (act : σ → α → Act ε σ)
    (here there : σ → Prop) : Prop where
  guard_final : ∀ s, guard s ≠ some again
  stop_final : ∀ s c s', act s c ≠ .stop again s'
  keep_here : ∀ s c s', here s → act s c = .keep s' → here s'
  jump_there : ∀ s c s', here s → act s c = .jump s' → there s'
  back_there : ∀ s c s', here s → act s c = .back s' → there s'

omit [DecidableEq ε] in
/-- A loop is resumed by a dispatcher that runs the loop in the loop's states. -/
theorem scan_resumesAt (rules : ScanRules again guard act here there)
    (dispatch : ∀ s w, here s → safe s w → g s w = scan again guard act after s w)
    (afterRules : ∀ s u, there s → ResumesAt again safe g after s u) (s : σ) (u : List α)
    (h : here s) : ResumesAt again safe g (scan again guard act after) s u := by
  induction u generalizing s with
  | nil => exact .of_wait rfl fun w => dispatch s w h
  | cons c rest ih =>
      cases refused : guard s with
      | some e =>
          have refuses : ∀ more, scan again guard act after s (c :: rest ++ more) =
              ⟨e, s, c :: rest ++ more⟩ := fun more => by simp only [List.cons_append, scan, refused]
          exact .of_final List.suffix_rfl
            (fun wants => rules.guard_final s (refused.trans (congrArg some wants))) refuses
      | none =>
          cases acted : act s c with
          | keep s' =>
              exact .of_continue (List.suffix_cons c rest) (ih s' (rules.keep_here s c s' h acted))
                (fun more => by simp only [List.cons_append, scan, refused, acted])
          | stop e s' =>
              have stops : ∀ more, scan again guard act after s (c :: rest ++ more) =
                  ⟨e, s', rest ++ more⟩ := fun more => by
                simp only [List.cons_append, scan, refused, acted]
              exact .of_final (List.suffix_cons c rest)
                (fun wants => rules.stop_final s c s' (by rw [acted, wants])) stops
          | jump s' =>
              exact .of_continue (List.suffix_cons c rest)
                (afterRules s' rest (rules.jump_there s c s' h acted))
                (fun more => by simp only [List.cons_append, scan, refused, acted])
          | back s' =>
              exact .of_continue List.suffix_rfl
                (afterRules s' (c :: rest) (rules.back_there s c s' h acted))
                (fun more => by simp only [List.cons_append, scan, refused, acted])

omit [DecidableEq ε] in
/-- Where a loop waits. -/
theorem scan_parks (parked : σ → Prop) (rules : ScanRules again guard act here there)
    (afterParks : ∀ s u, there s → (after s u).code = again → parked (after s u).state)
    (hereParks : ∀ s, here s → parked s) (s : σ) (u : List α) (h : here s)
    (wants : (scan again guard act after s u).code = again) :
    parked (scan again guard act after s u).state := by
  induction u generalizing s with
  | nil => exact hereParks s h
  | cons c rest ih =>
      rw [scan] at wants ⊢
      cases refused : guard s with
      | some e =>
          simp only [refused] at wants
          exact absurd (refused.trans (congrArg some wants)) (rules.guard_final s)
      | none =>
          simp only [refused] at wants ⊢
          cases acted : act s c with
          | keep s' =>
              simp only [acted] at wants ⊢
              exact ih s' (rules.keep_here s c s' h acted) wants
          | stop e s' =>
              simp only [acted] at wants
              exact absurd (acted.trans (by rw [← wants])) (rules.stop_final s c s')
          | jump s' =>
              simp only [acted] at wants ⊢
              exact afterParks s' rest (rules.jump_there s c s' h acted) wants
          | back s' =>
              simp only [acted] at wants ⊢
              exact afterParks s' (c :: rest) (rules.back_there s c s' h acted) wants

omit [DecidableEq ε] in
/-- A loop that waits has taken everything, unless what follows it waits. -/
theorem scan_waits {limit : List α → Prop} (nothing : limit [])
    (rules : ScanRules again guard act here there)
    (afterWaits : ∀ s u, there s → Waits again limit after s u) (s : σ) (u : List α) (h : here s) :
    Waits again limit (scan again guard act after) s u := by
  induction u generalizing s with
  | nil => exact fun _ => nothing
  | cons c rest ih =>
      intro wants
      rw [scan] at wants ⊢
      cases refused : guard s with
      | some e =>
          simp only [refused] at wants
          exact absurd (refused.trans (congrArg some wants)) (rules.guard_final s)
      | none =>
          simp only [refused] at wants ⊢
          cases acted : act s c with
          | keep s' =>
              simp only [acted] at wants ⊢
              exact ih s' (rules.keep_here s c s' h acted) wants
          | stop e s' =>
              simp only [acted] at wants
              exact absurd (acted.trans (by rw [← wants])) (rules.stop_final s c s')
          | jump s' =>
              simp only [acted] at wants ⊢
              exact afterWaits s' rest (rules.jump_there s c s' h acted) wants
          | back s' =>
              simp only [acted] at wants ⊢
              exact afterWaits s' (c :: rest) (rules.back_there s c s' h acted) wants

omit [DecidableEq ε] in
/-- A loop that returns by itself has taken the octet it returned on. -/
theorem scan_shorter (rules : ScanRules again guard act here fun _ => False)
    (guardFails : ∀ s, guard s ≠ some success) (ne : again ≠ success) (s : σ) (u : List α)
    (h : here s) (ok : (scan again guard act after s u).code = success) :
    (scan again guard act after s u).input.length < u.length := by
  induction u generalizing s with
  | nil => exact absurd ok ne
  | cons c rest ih =>
      rw [scan] at ok ⊢
      cases refused : guard s with
      | some e =>
          simp only [refused] at ok
          exact absurd (refused.trans (congrArg some ok)) (guardFails s)
      | none =>
          simp only [refused] at ok ⊢
          cases acted : act s c with
          | keep s' =>
              simp only [acted] at ok ⊢
              exact Nat.lt_succ_of_lt (ih s' (rules.keep_here s c s' h acted) ok)
          | stop e s' => simp
          | jump s' => exact (rules.jump_there s c s' h acted).elim
          | back s' => exact (rules.back_there s c s' h acted).elim

end scan

/-! ## One element, then the rest -/

/-- Runs `element`; on success moves the state on and runs `rest`. -/
def stage (success : ε) (element : Parser ε σ α) (advance : σ → σ) (rest : Parser ε σ α) :
    Parser ε σ α := fun s u =>
  let o := element s u
  if o.code = success then rest (advance o.state) o.input else o

section stage

variable {element rest g : Parser ε σ α} {advance : σ → σ}

/-- An element followed by the rest is resumed by `g` when `g` runs them in the state
the element waits in. -/
theorem stage_resumesAt (ne : again ≠ success) {s : σ} {u : List α}
    (elementRules : ResumesAt again anyCut element element s u)
    (dispatch : (element s u).code = again → ∀ w, safe (element s u).state w →
      g (element s u).state w = stage success element advance rest (element s u).state w)
    (restRules : (element s u).code = success →
      ResumesAt again safe g rest (advance (element s u).state) (element s u).input) :
    ResumesAt again safe g (stage success element advance rest) s u := by
  by_cases ok : (element s u).code = success
  · have rules := restRules ok
    -- the element is over: it ends the same way however much follows
    have now : ∀ more, stage success element advance rest s (u ++ more) =
        rest (advance (element s u).state) ((element s u).input ++ more) := by
      intro more
      have stable := elementRules.final more (fun wants => ne (wants.symm.trans ok))
      simp only [stage, stable, Outcome.extend_code, Outcome.extend_state, Outcome.extend_input,
        ok, if_true]
    exact .of_continue elementRules.suffix rules now
  · have start : stage success element advance rest s u = element s u := by
      simp only [stage, ok, if_false]
    refine ⟨?_, fun more done => ?_, fun more wants cut => ?_⟩
    · rw [start]; exact elementRules.suffix
    · rw [start] at done ⊢
      simp only [stage, elementRules.final more done, Outcome.extend_code, ok, if_false]
    · rw [start] at wants cut ⊢
      rw [dispatch wants _ cut]
      simp only [stage, elementRules.resume more wants trivial]

theorem stage_waits {limit : List α → Prop} {s : σ} {u : List α}
    (elementWaits : Waits again limit element s u)
    (restWaits : (element s u).code = success →
      Waits again limit rest (advance (element s u).state) (element s u).input) :
    Waits again limit (stage success element advance rest) s u := by
  unfold Waits stage
  by_cases ok : (element s u).code = success
  · simp only [ok, if_true]
    exact restWaits ok
  · simp only [ok, if_false]
    exact elementWaits

end stage

/-! ## A parser on a part of the state -/

/-- Runs a parser on the part of the state that `get` reads and `set` writes back. -/
def Parser.on (get : τ → σ) (set : τ → σ → τ) (f : Parser ε σ α) : Parser ε τ α := fun t u =>
  let o := f (get t) u
  ⟨o.code, set t o.state, o.input⟩

omit [DecidableEq ε] in
theorem on_resumesAt (get : τ → σ) (set : τ → σ → τ) {f : Parser ε σ α}
    (get_set : ∀ t s, get (set t s) = s) (set_set : ∀ t s s', set (set t s) s' = set t s')
    {t : τ} {u : List α} (rules : ResumesAt again anyCut f f (get t) u) :
    ResumesAt again anyCut (f.on get set) (f.on get set) t u where
  suffix := rules.suffix
  final more done := by
    simp only [Parser.on] at done ⊢
    rw [rules.final more done]; rfl
  resume more wants _ := by
    simp only [Parser.on] at wants ⊢
    rw [rules.resume more wants trivial, get_set, set_set]

end Everscale.Theory
