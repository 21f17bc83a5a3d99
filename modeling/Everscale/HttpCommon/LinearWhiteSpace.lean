/-
# Everscale.HttpCommon.LinearWhiteSpace -- what `SkipLWS` and `SkipLine` should skip

Folded white space is spaces and tabs, and line breaks with a space or a tab behind; a line feed breaks a
line, and a carriage return before it is ignored (`Folded`).  `fieldSpace` reads as much of it as there is
and says what comes then.

`SkipLine` does what its comment says (`SkipLine_right`).  `SkipLWS` never counts its depth down, and it
takes a carriage return anywhere for white space.  So it is right if and only if neither more
continuations than the depth come first nor a carriage return without a line feed (`skips_right_iff`).
-/
import Everscale.HttpCommon.Util

namespace Everscale.HttpUtil

set_option autoImplicit false

/-! ## Folded white space -/

/-- What comes behind the white space at the front. -/
inductive FieldSpace where
  /-- More octets have to come. -/
  | again
  /-- A line break, and no continuation. -/
  | ends (behind : List Octet)
  /-- Something else. -/
  | continues (behind : List Octet)
  /-- One continuation too many. -/
  | overflow
  deriving DecidableEq

/-- The white space at the front, with so many line continuations at most. -/
def fieldSpace : Nat → List Octet → FieldSpace
  | _, [] => .again
  | depth, c :: rest =>
      if isSpace c then fieldSpace depth rest
      else if c = LF then
        match rest with
        | [] => .again
        | d :: behind =>
            if isSpace d then
              match depth with
              | 0 => .overflow
              | depth + 1 => fieldSpace depth behind
            else .ends (d :: behind)
      else if c = CR ∧ rest = [] then .again
      else if c = CR ∧ rest.head? = some LF then fieldSpace depth rest
      else .continues (c :: rest)

/-- White space with so many line continuations. -/
inductive Folded : Nat → List Octet → Prop where
  | nil : Folded 0 []
  | space {n c front} : isSpace c = true → Folded n front → Folded n (c :: front)
  | fold {n c front} : isSpace c = true → Folded n front → Folded (n + 1) (LF :: c :: front)
  | carriageReturn {n front} : Folded n (LF :: front) → Folded n (CR :: LF :: front)

section

variable {n depth : Nat} {front rest u behind : List Octet} {c : Octet}

theorem isSpace_ne (space : isSpace c = true) : c ≠ CR ∧ c ≠ LF := by
  constructor <;> rintro rfl <;> exact absurd space (by decide)

theorem fieldSpace_cons (depth : Nat) (c : Octet) (rest : List Octet) : fieldSpace depth (c :: rest) =
    if isSpace c then fieldSpace depth rest
    else if c = LF then
      match rest with
      | [] => .again
      | d :: behind =>
          if isSpace d then
            match depth with
            | 0 => .overflow
            | depth + 1 => fieldSpace depth behind
          else .ends (d :: behind)
    else if c = CR ∧ rest = [] then .again
    else if c = CR ∧ rest.head? = some LF then fieldSpace depth rest
    else .continues (c :: rest) := by
  cases rest <;> cases depth <;> simp only [fieldSpace]

theorem fieldSpace_space (space : isSpace c = true) : fieldSpace depth (c :: rest) = fieldSpace depth rest := by
  rw [fieldSpace_cons, if_pos space]

theorem fieldSpace_feed : fieldSpace depth (LF :: c :: rest) =
    if isSpace c then
      match depth with
      | 0 => .overflow
      | depth + 1 => fieldSpace depth rest
    else .ends (c :: rest) := by
  have feed : ¬ isSpace LF = true := by decide
  rw [fieldSpace_cons, if_neg feed, if_pos rfl]

theorem fieldSpace_fold (space : isSpace c = true) :
    fieldSpace (depth + 1) (LF :: c :: rest) = fieldSpace depth rest := by
  rw [fieldSpace_feed, if_pos space]

theorem fieldSpace_deep (space : isSpace c = true) : fieldSpace 0 (LF :: c :: rest) = .overflow := by
  rw [fieldSpace_feed, if_pos space]

theorem fieldSpace_ends (other : ¬ isSpace c = true) : fieldSpace depth (LF :: c :: rest) = .ends (c :: rest) := by
  rw [fieldSpace_feed, if_neg other]

theorem fieldSpace_crlf : fieldSpace depth (CR :: LF :: rest) = fieldSpace depth (LF :: rest) := by
  have space : ¬ isSpace CR = true := by decide
  rw [fieldSpace_cons, if_neg space, if_neg CR_ne_LF, if_neg (by simp), if_pos ⟨rfl, rfl⟩]

theorem fieldSpace_cr (other : c ≠ LF) : fieldSpace depth (CR :: c :: rest) = .continues (CR :: c :: rest) := by
  have space : ¬ isSpace CR = true := by decide
  have feed : ¬ (c :: rest).head? = some LF := fun same => other (Option.some.inj same)
  rw [fieldSpace_cons, if_neg space, if_neg CR_ne_LF, if_neg (by simp), if_neg fun both => feed both.2]

theorem fieldSpace_other (space : ¬ isSpace c = true) (feed : c ≠ LF) (cr : c ≠ CR) :
    fieldSpace depth (c :: rest) = .continues (c :: rest) := by
  rw [fieldSpace_cons, if_neg space, if_neg feed, if_neg fun both => cr both.1, if_neg fun both => cr both.1]

/-- Up to the depth, folded white space is skipped. -/
theorem Folded.skipped (h : Folded n front) (within : n ≤ depth) (rest : List Octet) :
    fieldSpace depth (front ++ rest) = fieldSpace (depth - n) rest := by
  induction h generalizing depth with
  | nil => rfl
  | space space _ ih =>
      rw [List.cons_append, fieldSpace_space space]
      exact ih within
  | @fold n c front space _ ih =>
      obtain ⟨more, rfl⟩ : ∃ more, depth = more + 1 := ⟨depth - 1, by omega⟩
      rw [List.cons_append, List.cons_append, fieldSpace_fold space, ih (Nat.le_of_succ_le_succ within),
        Nat.add_sub_add_right]
  | carriageReturn _ ih =>
      rw [List.cons_append, List.cons_append, fieldSpace_crlf]
      exact ih within

theorem Folded.deep (h : Folded n front) (beyond : depth < n) (rest : List Octet) :
    fieldSpace depth (front ++ rest) = .overflow := by
  induction h generalizing depth with
  | nil => exact absurd beyond (Nat.not_lt_zero _)
  | space space _ ih =>
      rw [List.cons_append, fieldSpace_space space]
      exact ih beyond
  | @fold n c front space _ ih =>
      rw [List.cons_append, List.cons_append]
      cases depth with
      | zero => exact fieldSpace_deep space
      | succ depth =>
          rw [fieldSpace_fold space]
          exact ih (Nat.lt_of_succ_lt_succ beyond)
  | carriageReturn _ ih =>
      rw [List.cons_append, List.cons_append, fieldSpace_crlf]
      exact ih beyond

/-- More continuations than the depth come first, or a carriage return without a line feed. -/
def Strays (depth : Nat) (u : List Octet) : Prop :=
  ∃ n front rest, u = front ++ rest ∧ Folded n front ∧
    (depth < n ∨ ∃ c behind, rest = CR :: c :: behind ∧ c ≠ LF)

theorem Strays.space (space : isSpace c = true) (h : Strays depth u) : Strays depth (c :: u) := by
  obtain ⟨n, front, rest, rfl, folded, stray⟩ := h
  exact ⟨n, c :: front, rest, rfl, .space space folded, stray⟩

theorem Strays.fold (space : isSpace c = true) (h : Strays depth u) : Strays (depth + 1) (LF :: c :: u) := by
  obtain ⟨n, front, rest, rfl, folded, stray⟩ := h
  exact ⟨n + 1, LF :: c :: front, rest, rfl, .fold space folded, stray.imp Nat.succ_lt_succ id⟩

theorem Strays.carriageReturn (h : Strays depth (LF :: u)) : Strays depth (CR :: LF :: u) := by
  obtain ⟨n, front, rest, shape, folded, stray⟩ := h
  cases front with
  | nil =>
      cases folded
      rcases stray with deep | ⟨c, behind, rfl, -⟩
      · exact absurd deep (Nat.not_lt_zero _)
      · exact absurd (List.head_eq_of_cons_eq shape) LF_ne_CR
  | cons c front =>
      obtain ⟨rfl, rfl⟩ := List.cons.inj shape
      exact ⟨n, CR :: LF :: front, rest, rfl, .carriageReturn folded, stray⟩

/-- The result that goes with it, over lists. -/
def FieldSpace.result : FieldSpace → Option (Error × List Octet)
  | .again => none
  | .ends behind => some (.success, behind)
  | .continues behind => some (.inProgress, behind)
  | .overflow => some (.overflow, [])

theorem skipLWSOn_space (space : isSpace c = true) (found : Bool) :
    skipLWSOn found (c :: rest) = skipLWSOn false rest := by
  obtain ⟨cr, feed⟩ := isSpace_ne space
  have either : c = SP ∨ c = HT := by simpa [isSpace] using space
  rw [skipLWSOn, if_neg cr, if_neg feed, if_pos either]

theorem skipLWSOn_feed : skipLWSOn false (LF :: rest) = skipLWSOn true rest := by
  rw [skipLWSOn, if_neg LF_ne_CR, if_pos rfl]
  rfl

theorem skipLWSOn_cr : skipLWSOn false (CR :: rest) = skipLWSOn false rest := by
  rw [skipLWSOn, if_pos rfl]
  rfl

theorem skipLWSOn_ends (space : ¬ isSpace c = true) : skipLWSOn true (c :: rest) = some (.success, c :: rest) := by
  have either : ¬ (c = SP ∨ c = HT) := by simpa [isSpace] using space
  rw [skipLWSOn, if_neg either]
  simp

theorem skipLWSOn_other (space : ¬ isSpace c = true) (feed : c ≠ LF) (cr : c ≠ CR) :
    skipLWSOn false (c :: rest) = some (.inProgress, c :: rest) := by
  have either : ¬ (c = SP ∨ c = HT) := by simpa [isSpace] using space
  rw [skipLWSOn, if_neg cr, if_neg feed, if_neg either]
  rfl

theorem skipLWSOn_of_not_strays (h : ¬ Strays depth u) : skipLWSOn false u = (fieldSpace depth u).result := by
  -- a break and its continuation are read together, so the induction is on the length
  induction length : u.length using Nat.strong_induction_on generalizing u depth with
  | _ length ih =>
      subst length
      cases u with
      | nil => rfl
      | cons c rest =>
          by_cases space : isSpace c = true
          · rw [skipLWSOn_space space, fieldSpace_space space]
            exact ih _ (Nat.lt_succ_self _) (fun stray => h (stray.space space)) rfl
          · by_cases feed : c = LF
            · subst feed
              rw [skipLWSOn_feed]
              cases rest with
              | nil => rfl
              | cons d behind =>
                  by_cases more : isSpace d = true
                  · rw [skipLWSOn_space more]
                    cases depth with
                    | zero =>
                        have folded : Folded 1 [LF, d] := .fold more .nil
                        exact absurd ⟨1, [LF, d], behind, rfl, folded, .inl Nat.zero_lt_one⟩ h
                    | succ depth =>
                        rw [fieldSpace_fold more]
                        exact ih _ (Nat.lt_succ_of_lt (Nat.lt_succ_self _)) (fun stray => h (stray.fold more)) rfl
                  · rw [skipLWSOn_ends more, fieldSpace_ends more]
                    rfl
            · by_cases cr : c = CR
              · subst cr
                rw [skipLWSOn_cr]
                cases rest with
                | nil => rfl
                | cons d behind =>
                    by_cases feed : d = LF
                    · subst feed
                      rw [fieldSpace_crlf]
                      exact ih _ (Nat.lt_succ_self _) (fun stray => h stray.carriageReturn) rfl
                    · exact absurd ⟨0, [], _, rfl, .nil, .inr ⟨d, behind, rfl, feed⟩⟩ h
              · rw [skipLWSOn_other space feed cr, fieldSpace_other space feed cr]
                rfl

/-- Folded white space is skipped, however often it is folded. -/
theorem Folded.skippedOn (h : Folded n front) (rest : List Octet) :
    skipLWSOn false (front ++ rest) = skipLWSOn false rest := by
  induction h with
  | nil => rfl
  | space space _ ih =>
      rw [List.cons_append, skipLWSOn_space space]
      exact ih
  | fold space _ ih =>
      rw [List.cons_append, List.cons_append, skipLWSOn_feed, skipLWSOn_space space]
      exact ih
  | carriageReturn _ ih =>
      rw [List.cons_append, List.cons_append, skipLWSOn_cr]
      exact ih

theorem skipLWSOn_strays (h : Strays depth u) : skipLWSOn false u ≠ (fieldSpace depth u).result := by
  obtain ⟨n, front, rest, rfl, folded, stray⟩ := h
  intro same
  by_cases deep : depth < n
  · rw [folded.deep deep] at same
    rcases skipLWSOn_code same with success | inProgress
    · cases success
    · cases inProgress
  · obtain ⟨c, behind, rfl, other⟩ := stray.resolve_left deep
    rw [folded.skippedOn, folded.skipped (Nat.le_of_not_lt deep), fieldSpace_cr other, skipLWSOn_cr] at same
    -- the carriage return has been skipped
    have suffix := (skipLWSOn_suffix same).length_le
    exact absurd suffix (by simp)

theorem skipLWSOn_eq_iff : skipLWSOn false u = (fieldSpace depth u).result ↔ ¬ Strays depth u :=
  ⟨fun same stray => skipLWSOn_strays stray same, skipLWSOn_of_not_strays⟩

end

/-! ## Buffers -/

/-- The result is the one for what comes, with the read position behind the white space; more octets
leave the buffer as it was. -/
def Shows (b : Buffer) (expected : FieldSpace) (result : Error × Buffer) : Prop :=
  match expected with
  | .again => result = (.again, b)
  | .ends behind =>
      result.1 = .success ∧ result.2.unread = behind ∧ result.2.WF ∧ SameOctets b result.2
  | .continues behind =>
      result.1 = .inProgress ∧ result.2.unread = behind ∧ result.2.WF ∧ SameOctets b result.2
  | .overflow => result.1 = .overflow

/-- A call that needs more octets can be repeated as if it had not been made, and one that does not gives
the same result when there are more. -/
def Resumes {α : Type} (code : α → Error) (call : Buffer → α × Buffer) (b : Buffer) : Prop :=
  ∀ octets : List Octet, octets.length ≤ b.writable →
    (code (call b).1 = .again → call ((call b).2.fill octets) = call (b.fill octets)) ∧
      (code (call b).1 ≠ .again → (call (b.fill octets)).1 = (call b).1 ∧
        (call (b.fill octets)).2.unread = (call b).2.unread ++ octets)

section

variable {b : Buffer}

theorem not_shows {expected : FieldSpace} {result : Error × Buffer} (overflow : expected = .overflow)
    (taken : result.1 ≠ .overflow) : ¬ Shows b expected result := by
  rw [overflow]
  exact taken

theorem SkipLWS_depth {depth : Int} (some : 0 ≤ depth) (b : Buffer) : SkipLWS b depth = SkipLWS b 3 := by
  unfold SkipLWS
  rw [if_neg (Int.not_lt.2 some), if_neg (by decide)]

theorem shows_iff (wf : b.WF) (expected : FieldSpace) :
    Shows b expected (SkipLWS b 3) ↔ skipLWSOn false b.unread = expected.result := by
  have spec := SkipLWS_spec wf
  cases read : skipLWSOn false b.unread with
  | none =>
      rw [read] at spec
      dsimp only at spec
      rw [spec]
      cases expected with
      | again => exact ⟨fun _ => rfl, fun _ => rfl⟩
      | ends behind => exact ⟨nofun, nofun⟩
      | continues behind => exact ⟨nofun, nofun⟩
      | overflow => exact ⟨nofun, nofun⟩
  | some result =>
      obtain ⟨e, r⟩ := result
      have code := skipLWSOn_code read
      rw [read] at spec
      obtain ⟨error, left, wf', same⟩ := spec
      cases expected with
      | again =>
          constructor
          · intro shows
            have again : e = .again := error.symm.trans (congrArg Prod.fst shows)
            rw [again] at code
            rcases code with code | code <;> cases code
          · exact nofun
      | ends behind =>
          constructor
          · rintro ⟨success, unread, -⟩
            rw [← error, ← left, success, unread]
            rfl
          · intro equal
            cases equal
            exact ⟨error, left, wf', same⟩
      | continues behind =>
          constructor
          · rintro ⟨inProgress, unread, -⟩
            rw [← error, ← left, inProgress, unread]
            rfl
          · intro equal
            cases equal
            exact ⟨error, left, wf', same⟩
      | overflow =>
          constructor
          · intro overflow
            have overflow : e = .overflow := error.symm.trans overflow
            rw [overflow] at code
            rcases code with code | code <;> cases code
          · intro equal
            cases equal
            exact error

/-- What is expected at a depth; none is allowed below zero. -/
def expected (depth : Int) (u : List Octet) : FieldSpace :=
  if depth < 0 then .overflow else fieldSpace depth.toNat u

theorem SkipLWS_right_iff (wf : b.WF) (depth : Int) :
    Shows b (expected depth b.unread) (SkipLWS b depth) ↔ depth < 0 ∨ ¬ Strays depth.toNat b.unread := by
  unfold expected
  by_cases negative : depth < 0
  · have overflow : (SkipLWS b depth).1 = .overflow := congrArg Prod.fst (if_pos negative)
    rw [if_pos negative]
    exact ⟨fun _ => .inl negative, fun _ => overflow⟩
  · rw [if_neg negative, SkipLWS_depth (Int.not_lt.1 negative), shows_iff wf, skipLWSOn_eq_iff]
    exact ⟨.inr, fun either => either.resolve_left negative⟩

theorem SkipLWS_resumes (wf : b.WF) (depth : Int) : Resumes id (SkipLWS · depth) b := by
  intro octets room
  by_cases negative : depth < 0
  · have overflow : ∀ b, SkipLWS b depth = (.overflow, b) := fun _ => if_pos negative
    dsimp only
    rw [overflow, overflow]
    exact ⟨nofun, fun _ => ⟨rfl, Buffer.fill_unread wf octets⟩⟩
  · have same : (SkipLWS · depth) = (SkipLWS · 3) := funext (SkipLWS_depth (Int.not_lt.1 negative))
    have spec := SkipLWS_spec wf
    have whole := SkipLWS_spec (Buffer.fill_wf wf room)
    rw [Buffer.fill_unread wf] at whole
    rw [same]
    dsimp only
    cases read : skipLWSOn false b.unread with
    | none =>
        rw [read] at spec
        dsimp only at spec
        rw [spec]
        exact ⟨fun _ => rfl, fun decided => absurd rfl decided⟩
    | some result =>
        obtain ⟨e, r⟩ := result
        rw [skipLWSOn_append octets read] at whole
        rw [read] at spec
        have decided : e ≠ .again := by
          rintro rfl
          rcases skipLWSOn_code read with code | code <;> cases code
        rw [id, spec.1, whole.1, whole.2.1, spec.2.1]
        exact ⟨fun again => absurd again decided, fun _ => ⟨rfl, rfl⟩⟩

end

/-! ## Lines -/

/-- A line without the carriage return before its line feed. -/
def withoutCR (line : List Octet) : List Octet := if line.getLast? = some CR then line.dropLast else line

theorem withoutCR_cons (c : Octet) (line : List Octet) (h : c ≠ CR ∨ line ≠ []) :
    (withoutCR (c :: line)).length = (withoutCR line).length + 1 := by
  unfold withoutCR
  cases line with
  | nil =>
      have plain : ¬ [c].getLast? = some CR := fun same => h.elim (· (Option.some.inj same)) (· rfl)
      rw [if_neg plain]
      rfl
  | cons d line =>
      have last : (c :: d :: line).getLast? = (d :: line).getLast? := List.getLast?_cons_cons
      rw [last]
      by_cases cr : (d :: line).getLast? = some CR
      · rw [if_pos cr, if_pos cr]
        rfl
      · rw [if_neg cr, if_neg cr]
        rfl

/-- The line and the carriage return that is not counted yet. -/
theorem skipLineOn_count {line : List Octet} (plain : LF ∉ line) (found : Bool) (count : Nat) (behind : List Octet) :
    skipLineOn found count (line ++ LF :: behind) =
      some (count + (withoutCR (if found then CR :: line else line)).length, behind) := by
  induction line generalizing found count with
  | nil =>
      rw [List.nil_append, skipLineOn, if_neg LF_ne_CR, if_pos rfl]
      cases found <;> rfl
  | cons c line ih =>
      have feed : c ≠ LF := fun same => plain (same ▸ List.mem_cons_self)
      have later : LF ∉ line := fun member => plain (List.mem_cons_of_mem _ member)
      rw [List.cons_append, skipLineOn]
      by_cases cr : c = CR
      · subst cr
        rw [if_pos rfl]
        cases found with
        | false =>
            rw [if_neg Bool.false_ne_true, ih later, if_pos rfl]
            rfl
        | true =>
            have more := withoutCR_cons CR (CR :: line) (.inr (by simp))
            rw [if_pos rfl, ih later, if_pos rfl, if_pos rfl, more]
            congr 2
            omega
      · have one := withoutCR_cons c line (.inl cr)
        rw [if_neg cr, if_neg feed]
        cases found with
        | false =>
            rw [if_neg Bool.false_ne_true, ih later, if_neg Bool.false_ne_true, if_neg Bool.false_ne_true, one]
            congr 2
            omega
        | true =>
            have more := withoutCR_cons CR (c :: line) (.inr (by simp))
            rw [if_pos rfl, ih later, if_neg Bool.false_ne_true, if_pos rfl, more, one]
            congr 2
            omega

theorem skipLineOn_open {u : List Octet} (plain : LF ∉ u) (found : Bool) (count : Nat) :
    skipLineOn found count u = none := by
  cases read : skipLineOn found count u with
  | none => rfl
  | some result =>
      induction u generalizing found count with
      | nil => exact absurd read nofun
      | cons c rest ih =>
          have feed : c ≠ LF := fun same => plain (same ▸ List.mem_cons_self)
          have later : LF ∉ rest := fun member => plain (List.mem_cons_of_mem _ member)
          rw [skipLineOn] at read
          split_ifs at read <;> exact ih later _ _ read

/-- The line at the front is skipped with its break, and the octets before that are counted; without a
line feed the buffer is as it was. -/
def SkipsLine (b : Buffer) (result : Error × Nat × Buffer) : Prop :=
  (LF ∉ b.unread → result.1 = .again ∧ result.2.2 = b) ∧
    ∀ line behind, b.unread = line ++ LF :: behind → LF ∉ line →
      result.1 = .success ∧ result.2.1 = (withoutCR line).length ∧ result.2.2.unread = behind ∧
        result.2.2.WF ∧ SameOctets b result.2.2

/-- The error and the count, and the buffer. -/
def lineSkipped (b : Buffer) : (Error × Nat) × Buffer := (((SkipLine b).1, (SkipLine b).2.1), (SkipLine b).2.2)

section

variable {b : Buffer}

theorem SkipLine_right (wf : b.WF) : SkipsLine b (SkipLine b) := by
  have spec := SkipLine_spec wf
  constructor
  · intro plain
    rw [skipLineOn_open plain] at spec
    exact spec
  · intro line behind shape plain
    rw [shape, skipLineOn_count plain, Nat.zero_add, if_neg Bool.false_ne_true] at spec
    exact spec

theorem SkipLine_resumes (wf : b.WF) : Resumes Prod.fst lineSkipped b := by
  intro octets room
  have spec := SkipLine_spec wf
  have whole := SkipLine_spec (Buffer.fill_wf wf room)
  rw [Buffer.fill_unread wf] at whole
  unfold lineSkipped
  dsimp only
  cases read : skipLineOn false 0 b.unread with
  | none =>
      rw [read] at spec
      rw [spec.1, spec.2]
      exact ⟨fun _ => rfl, fun decided => absurd rfl decided⟩
  | some result =>
      obtain ⟨n, r⟩ := result
      rw [skipLineOn_append octets read] at whole
      rw [read] at spec
      rw [spec.1, whole.1, spec.2.1, whole.2.1, spec.2.2.1, whole.2.2.1]
      exact ⟨nofun, fun _ => ⟨rfl, rfl⟩⟩

/-- **Skipping**: `SkipLine` and `SkipLWS` skip what they should and can be repeated, if and only if the
buffer does not begin with folded white space of more continuations than the depth, nor with folded
white space and a carriage return without a line feed. -/
theorem skips_right_iff (wf : b.WF) (depth : Int) :
    (SkipsLine b (SkipLine b) ∧ Resumes Prod.fst lineSkipped b ∧
        Shows b (expected depth b.unread) (SkipLWS b depth) ∧ Resumes id (SkipLWS · depth) b) ↔
      depth < 0 ∨ ¬ Strays depth.toNat b.unread := by
  rw [← SkipLWS_right_iff wf]
  constructor
  · exact fun all => all.2.2.1
  · exact fun shows => ⟨SkipLine_right wf, SkipLine_resumes wf, shows, SkipLWS_resumes wf depth⟩

end

/-- A buffer that is full of these octets. -/
def holding (text : String) : Buffer := ⟨octets text, 0, 0, 0, (octets text).length⟩

theorem holding_wf {text : String} (small : (octets text).length < 2 ^ 32) : (holding text).WF :=
  ⟨Nat.zero_le _, Nat.le_refl _, small⟩

/-- One continuation, then a value. -/
theorem skips_right_folded :
    SkipsLine (holding " \r\n\tvalue") (SkipLine (holding " \r\n\tvalue")) ∧
      Resumes Prod.fst lineSkipped (holding " \r\n\tvalue") ∧
      Shows (holding " \r\n\tvalue") (expected 3 (holding " \r\n\tvalue").unread)
        (SkipLWS (holding " \r\n\tvalue") 3) ∧
      Resumes id (SkipLWS · 3) (holding " \r\n\tvalue") := by
  have wf : (holding " \r\n\tvalue").WF := holding_wf (by decide)
  have plain : ¬ Strays 3 (holding " \r\n\tvalue").unread := skipLWSOn_eq_iff.1 (by decide +kernel)
  exact (skips_right_iff wf 3).mpr (.inr plain)

/-- Five continuations are taken where three are allowed, and a carriage return for white space. -/
theorem continuations_unbounded :
    (SkipLWS (holding " \n \n \n \n \n x") 3).1 = .inProgress ∧
      (SkipLWS (holding "\rx") 3).2.unread = octets "x" ∧
      ¬ Shows (holding " \n \n \n \n \n x") (expected 3 (holding " \n \n \n \n \n x").unread)
        (SkipLWS (holding " \n \n \n \n \n x") 3) := by
  have skipped : (SkipLWS (holding " \n \n \n \n \n x") 3).1 = .inProgress := by decide
  have overflow : expected 3 (holding " \n \n \n \n \n x").unread = .overflow := by decide +kernel
  have taken : (SkipLWS (holding " \n \n \n \n \n x") 3).1 ≠ .overflow := by
    rw [skipped]
    decide
  exact ⟨skipped, by decide, not_shows overflow taken⟩

end Everscale.HttpUtil
