/-
# Everscale.Base.TLSContextIndex -- contexts by the names of their certificates

`indexContext` puts a context into the index under each name of its certificate, one after another,
and stops at the first that the index refuses.  What it put in before that stays, so that the call
leaves the index as it was if and only if the first name is the one that is refused
(`indexContext_whole_iff`).

What OpenSSL reads from a certificate, the allocation of a context and `TLSContext::Create` are
parameters.  A context that nobody refers to any more goes back to the pool, which is no part of
this model.
-/
import Everscale.Base.WildcardIndex

namespace Everscale

set_option autoImplicit false

open Theory (Key)
open ReferencedMap (Call Answer)

/-! ## Names -/

/-- The text of a name, as OpenSSL has it. -/
abbrev Text := List UInt8

/-- The buffer that names are copied to. -/
def ESB_MAX_HOSTNAME : Nat := 255

inductive GeneralName where
  | dns (text : Text)
  | other
  deriving DecidableEq, Repr

/-- What was read from a certificate; `certificate` says whether there is one. -/
structure X509Certificate where
  certificate : Bool
  subjectCommonName : Option Text
  subjectAltNames : Option (List GeneralName)
  deriving DecidableEq, Repr

namespace X509Certificate

/-- What `memcpy` and the terminating zero leave of a text, for a reader of C strings. -/
def copied (text : Text) : Text := text.takeWhile (· ≠ 0)

def numSubjectAltNames (c : X509Certificate) : Nat :=
  (c.subjectAltNames.getD []).countP fun san => match san with | .dns _ => true | .other => false

def commonName (c : X509Certificate) (size : Nat) : Error × Text :=
  if c.certificate = false then (.cannotFind, [])
  else
    match c.subjectCommonName with
    | none => (.cannotFind, [])
    | some text => if size ≤ text.length then (.overflow, []) else (.success, copied text)

/-- The loop of `subjectAltName` over the names from `position` on. -/
def seekName (size : Nat) : Nat → List GeneralName → Error × Text × Nat
  | position, [] => (.cannotFind, [], position)
  | position, .other :: rest => seekName size (position + 1) rest
  | position, .dns text :: _ =>
      if size ≤ text.length then (.overflow, [], position) else (.success, copied text, position + 1)

def subjectAltName (c : X509Certificate) (size position : Nat) : Error × Text × Nat :=
  if c.certificate = false then (.invalidState, [], position)
  else
    match c.subjectAltNames with
    | none => (.cannotFind, [], position)
    | some names => seekName size position (names.drop position)

end X509Certificate

/-- `SplitFqdn`: what stands in front of the first dot, and what behind it, if there is one. -/
def SplitFqdn (fqdn : Text) : Key × Option Domain :=
  (fqdn.takeWhile (· ≠ 46), match fqdn.dropWhile (· ≠ 46) with | [] => none | _ :: domain => some domain)

/-! ## The index -/

structure TLSContextIndex where
  contexts : WildcardIndex

namespace TLSContextIndex

/-- One name goes in. -/
def insertName (contexts : WildcardIndex) (memory : Memory) (name : Text) (pointer : Pointer) (maskSanConflicts : Bool) :
    Option (Error × WildcardIndex) :=
  let (hostname, domain) := SplitFqdn name
  contexts.insert memory domain (some hostname) pointer maskSanConflicts

/-- The loop of `indexContext`, with the allocator's answers while the name in front of each
position goes in.  Every turn leaves a name behind, so the fuel cannot run out. -/
def indexNames (memories : Nat → Memory) (pointer : Pointer) (maskSanConflicts : Bool) (certificate : X509Certificate) :
    Nat → WildcardIndex → Nat → Option (Error × WildcardIndex)
  | 0, _, _ => none
  | fuel + 1, contexts, position =>
      match certificate.subjectAltName ESB_MAX_HOSTNAME position with
      | (.cannotFind, _, _) => some (.success, contexts)
      | (.success, name, position) =>
          (insertName contexts (memories position) name pointer maskSanConflicts).bind fun (error, contexts) =>
            if error ≠ .success then some (error, contexts)
            else indexNames memories pointer maskSanConflicts certificate fuel contexts position
      | _ => some (.generalTlsError, contexts)

/-- `indexContext`.  `created` is what came of the allocation and of `TLSContext::Create`. -/
def indexContext (index : TLSContextIndex) (created : Except Failure (Pointer × X509Certificate)) (memories : Nat → Memory)
    (maskSanConflicts : Bool) : Option (Error × TLSContextIndex) :=
  match created with
  | .error error => some (error.val, index)
  | .ok (pointer, certificate) =>
      let fuel := (certificate.subjectAltNames.getD []).length + 1
      let names := fun contexts =>
        (indexNames memories pointer maskSanConflicts certificate fuel contexts 0).map fun (error, contexts) =>
          (error, { index with contexts := contexts })
      if certificate.numSubjectAltNames = 0 then
        match certificate.commonName ESB_MAX_HOSTNAME with
        | (.cannotFind, _) => some (.cannotConvert, index)
        | (.success, name) =>
            (insertName index.contexts (memories 0) name pointer maskSanConflicts).bind fun (error, contexts) =>
              if error ≠ .success then some (error, { index with contexts := contexts }) else names contexts
        | (error, _) => some (error, index)
      else names index.contexts

/-! ## The names that are reported -/

/-- The names that `subjectAltName` reports from `position` on, each with the position behind it;
`none` is one that does not fit the buffer. -/
def reports (position : Nat) : List GeneralName → List (Nat × Option Text)
  | [] => []
  | .other :: rest => reports (position + 1) rest
  | .dns text :: rest =>
      if ESB_MAX_HOSTNAME ≤ text.length then [(position, none)]
      else (position + 1, some (X509Certificate.copied text)) :: reports (position + 1) rest

/-- The names of a certificate: the alternative ones, or else the common one. -/
def namesOf (c : X509Certificate) : List (Nat × Option Text) :=
  if c.certificate = false then []
  else if c.numSubjectAltNames = 0 then
    match c.commonName ESB_MAX_HOSTNAME with
    | (.success, name) => [(0, some name)]
    | _ => []
  else reports 0 (c.subjectAltNames.getD [])

section names

variable {certificate : X509Certificate} {names : List GeneralName} {position : Nat}

theorem seekName_reports (position : Nat) (names : List GeneralName) :
    match reports position names with
    | [] => (X509Certificate.seekName ESB_MAX_HOSTNAME position names).1 = .cannotFind
    | (_, none) :: _ => (X509Certificate.seekName ESB_MAX_HOSTNAME position names).1 = .overflow
    | (behind, some name) :: rest =>
        X509Certificate.seekName ESB_MAX_HOSTNAME position names = (.success, name, behind) ∧
          ∃ k, 0 < k ∧ k ≤ names.length ∧ behind = position + k ∧ rest = reports behind (names.drop k) := by
  induction names generalizing position with
  | nil => rfl
  | cons san names ih =>
      cases san with
      | other =>
          have here := ih (position + 1)
          rw [reports, X509Certificate.seekName]
          cases reported : reports (position + 1) names with
          | nil => rw [reported] at here; exact here
          | cons first rest =>
              obtain ⟨behind, name⟩ := first
              rw [reported] at here
              cases name with
              | none => exact here
              | some name =>
                  obtain ⟨sought, k, positive, inside, same, more⟩ := here
                  exact ⟨sought, k + 1, Nat.succ_pos k, Nat.succ_le_succ inside, by omega, more⟩
      | dns text =>
          rw [reports, X509Certificate.seekName]
          by_cases long : ESB_MAX_HOSTNAME ≤ text.length
          · rw [if_pos long, if_pos long]
          · rw [if_neg long, if_neg long]
            exact ⟨rfl, 1, Nat.one_pos, Nat.succ_le_succ (Nat.zero_le _), rfl, rfl⟩

theorem reports_of_countP (none : names.countP (fun san => match san with | .dns _ => true | .other => false) = 0) :
    reports position names = [] := by
  induction names generalizing position with
  | nil => rfl
  | cons san names ih =>
      cases san with
      | other => exact ih (by simpa using none)
      | dns text => simp at none

end names

/-- Names go in, one after another, up to the first that does not. -/
def insertAll (memories : Nat → Memory) (pointer : Pointer) (maskSanConflicts : Bool) :
    WildcardIndex → List (Nat × Option Text) → Option (Error × WildcardIndex)
  | contexts, [] => some (.success, contexts)
  | contexts, (_, none) :: _ => some (.generalTlsError, contexts)
  | contexts, (position, some name) :: rest =>
      (insertName contexts (memories position) name pointer maskSanConflicts).bind fun (error, contexts) =>
        if error ≠ .success then some (error, contexts) else insertAll memories pointer maskSanConflicts contexts rest

section loops

variable {memories : Nat → Memory} {pointer : Pointer} {maskSanConflicts : Bool} {certificate : X509Certificate}

theorem indexNames_eq (present : certificate.certificate = true) {names : List GeneralName}
    (all : certificate.subjectAltNames.getD [] = names) {fuel : Nat} (contexts : WildcardIndex) {position : Nat}
    (enough : (names.drop position).length < fuel) :
    indexNames memories pointer maskSanConflicts certificate fuel contexts position =
      insertAll memories pointer maskSanConflicts contexts (reports position (names.drop position)) := by
  induction fuel generalizing contexts position with
  | zero => exact absurd enough (Nat.not_lt_zero _)
  | succ fuel ih =>
      have sought := seekName_reports position (names.drop position)
      have here : (certificate.subjectAltName ESB_MAX_HOSTNAME position).1 =
          (X509Certificate.seekName ESB_MAX_HOSTNAME position (names.drop position)).1 ∧
          ((certificate.subjectAltName ESB_MAX_HOSTNAME position).1 = .success →
            certificate.subjectAltName ESB_MAX_HOSTNAME position =
              X509Certificate.seekName ESB_MAX_HOSTNAME position (names.drop position)) := by
        rw [X509Certificate.subjectAltName, if_neg (by simp [present])]
        cases names' : certificate.subjectAltNames with
        | none =>
            rw [names'] at all
            subst all
            simp [X509Certificate.seekName]
        | some list =>
            rw [names'] at all
            subst all
            exact ⟨rfl, fun _ => rfl⟩
      obtain ⟨code, whole⟩ := here
      rw [indexNames]
      cases reported : reports position (names.drop position) with
      | nil =>
          rw [reported] at sought
          rw [show certificate.subjectAltName ESB_MAX_HOSTNAME position =
            (.cannotFind, (certificate.subjectAltName ESB_MAX_HOSTNAME position).2) from Prod.ext (code.trans sought) rfl]
          rfl
      | cons first rest =>
          obtain ⟨behind, name⟩ := first
          rw [reported] at sought
          cases name with
          | none =>
              rw [show certificate.subjectAltName ESB_MAX_HOSTNAME position =
                (.overflow, (certificate.subjectAltName ESB_MAX_HOSTNAME position).2) from Prod.ext (code.trans sought) rfl]
              rfl
          | some name =>
              obtain ⟨found, k, positive, inside, same, more⟩ := sought
              rw [found] at code whole
              rw [whole code, insertAll]
              dsimp only
              congr 1
              funext done
              obtain ⟨error, contexts'⟩ := done
              have shorter : (names.drop behind).length < fuel := by
                rw [same, ← List.drop_drop, List.length_drop]
                omega
              rw [more, List.drop_drop, ← same]
              dsimp only
              rw [ih contexts' shorter]

/-- Nothing goes in, and the call fails; or the names go in. -/
theorem indexContext_eq (index : TLSContextIndex) (created : Except Failure (Pointer × X509Certificate)) :
    (∃ error, error ≠ .success ∧ index.indexContext created memories maskSanConflicts = some (error, index) ∧
      ∀ pointer certificate, created = .ok (pointer, certificate) → namesOf certificate = []) ∨
      ∃ pointer certificate, created = .ok (pointer, certificate) ∧
        index.indexContext created memories maskSanConflicts =
          (insertAll memories pointer maskSanConflicts index.contexts (namesOf certificate)).map fun (error, contexts) =>
            (error, { index with contexts := contexts }) := by
  cases created with
  | error error => exact .inl ⟨error.val, error.property, rfl, nofun⟩
  | ok made =>
      obtain ⟨pointer, certificate⟩ := made
      rw [indexContext]
      dsimp only
      cases present : certificate.certificate with
      | false =>
          have nothing : ∀ pointer' certificate', Except.ok (pointer, certificate) = (.ok (pointer', certificate') :
              Except Failure (Pointer × X509Certificate)) → namesOf certificate' = [] := by
            rintro pointer' certificate' same
            cases same
            exact if_pos present
          refine .inl ?_
          by_cases none : certificate.numSubjectAltNames = 0
          · rw [if_pos none, X509Certificate.commonName, if_pos present]
            exact ⟨.cannotConvert, by decide, rfl, nothing⟩
          · rw [if_neg none, indexNames, X509Certificate.subjectAltName, if_pos present]
            exact ⟨.generalTlsError, by decide, rfl, nothing⟩
      | true =>
          have looped : ∀ contexts, indexNames memories pointer maskSanConflicts certificate
              ((certificate.subjectAltNames.getD []).length + 1) contexts 0 =
                insertAll memories pointer maskSanConflicts contexts (reports 0 (certificate.subjectAltNames.getD [])) :=
            fun contexts => indexNames_eq present rfl contexts (Nat.lt_succ_self _)
          simp only [looped]
          by_cases none : certificate.numSubjectAltNames = 0
          · rw [if_pos none, reports_of_countP none]
            cases called : certificate.commonName ESB_MAX_HOSTNAME with
            | mk error name =>
                have nothing : error ≠ .success → ∀ pointer' certificate', Except.ok (pointer, certificate) =
                    (.ok (pointer', certificate') : Except Failure (Pointer × X509Certificate)) →
                    namesOf certificate' = [] := by
                  rintro failed pointer' certificate' same
                  cases same
                  rw [namesOf, if_neg (by simp [present]), if_pos none, called]
                  cases error <;> first | rfl | contradiction
                by_cases missing : error = .cannotFind
                · subst missing
                  exact .inl ⟨.cannotConvert, by decide, rfl, nothing (by decide)⟩
                · by_cases success : error = .success
                  · subst success
                    have own : namesOf certificate = [(0, some name)] := by
                      rw [namesOf, if_neg (by simp [present]), if_pos none, called]
                    refine .inr ⟨pointer, certificate, rfl, ?_⟩
                    rw [own, insertAll, Option.map_bind]
                    dsimp only
                    congr 1
                    funext done
                    simp only [Function.comp_apply, insertAll, Option.map_some]
                    split <;> rfl
                  · refine .inl ⟨error, success, ?_, nothing success⟩
                    cases error <;> first | rfl | contradiction
          · have own : namesOf certificate = reports 0 (certificate.subjectAltNames.getD []) := by
              rw [namesOf, if_neg (by simp [present]), if_neg none]
            rw [if_neg none]
            exact .inr ⟨pointer, certificate, rfl, by rw [own]⟩

end loops

/-! ## What a call comes to -/

/-- The key of a name, unless it has no dot. -/
def keyOf (name : Text) : Option (Domain × Key) := (SplitFqdn name).2.map fun domain => (domain, (SplitFqdn name).1)

/-- Each name has the pointer, and nothing else has changed. -/
def Entered (pointer : Pointer) (f : WildcardIndex.FiniteMap) (names : List (Nat × Option Text))
    (f' : WildcardIndex.FiniteMap) : Prop :=
  (∀ name ∈ names, ∃ key, name.2.bind keyOf = some key ∧ f' key = some pointer) ∧
    ∀ key, (∀ name ∈ names, name.2.bind keyOf ≠ some key) → f' key = f key

section calls

variable (memories : Nat → Memory) (pointer : Pointer) (maskSanConflicts : Bool)

/-- What the index needs for the names that it takes (`WildcardIndex.Fits`). -/
def NamesFit : WildcardIndex → List (Nat × Option Text) → Prop
  | contexts, (position, some name) :: rest =>
      (∀ key, keyOf name = some key → contexts.Fits (.entry (.insert (memories position) key pointer maskSanConflicts))) ∧
        ∀ contexts', insertName contexts (memories position) name pointer maskSanConflicts = some (.success, contexts') →
          NamesFit contexts' rest
  | _, _ => True

/-- The index takes every name. -/
def AllTaken : WildcardIndex → List (Nat × Option Text) → Prop
  | _, [] => True
  | _, (_, none) :: _ => False
  | contexts, (position, some name) :: rest =>
      ∃ contexts', insertName contexts (memories position) name pointer maskSanConflicts = some (.success, contexts') ∧
        AllTaken contexts' rest

/-- It does not take the first. -/
def FirstRefused (contexts : WildcardIndex) : List (Nat × Option Text) → Prop
  | [] => False
  | (_, none) :: _ => True
  | (position, some name) :: _ =>
      ∀ contexts', insertName contexts (memories position) name pointer maskSanConflicts ≠ some (.success, contexts')

variable {memories pointer maskSanConflicts} {contexts : WildcardIndex} {f : WildcardIndex.FiniteMap}

theorem insertName_spec (h : contexts.Holds f) {memory : Memory} {name : Text}
    (fits : ∀ key, keyOf name = some key → contexts.Fits (.entry (.insert memory key pointer maskSanConflicts))) :
    ∃ error contexts' f', insertName contexts memory name pointer maskSanConflicts = some (error, contexts') ∧
      contexts'.Holds f' ∧
      (error ≠ .success ∧ f' = f ∨
        error = .success ∧ ∃ key, keyOf name = some key ∧ f' = Function.update f key (some pointer) ∧
          (maskSanConflicts = false → f key = none)) := by
  cases split : (SplitFqdn name).2 with
  | none =>
      refine ⟨.nullPointer, contexts, f, ?_, h, .inl ⟨by decide, rfl⟩⟩
      rw [insertName]
      simp only [split]
      rfl
  | some domain =>
      have own : keyOf name = some (domain, (SplitFqdn name).1) := by rw [keyOf, split]; rfl
      obtain ⟨error, contexts', inserted, f', holds, -, -, serves⟩ :=
        WildcardIndex.insert_spec h memory domain (SplitFqdn name).1 pointer maskSanConflicts (fits _ own)
      refine ⟨error, contexts', f', ?_, holds, ?_⟩
      · rw [insertName]
        simp only [split]
        exact inserted
      · generalize contexts'.refs = refs' at serves
        cases serves with
        | unavailable => exact .inl ⟨by decide, rfl⟩
        | served _ serves =>
            cases serves with
            | inserted _ _ absent => exact .inr ⟨rfl, _, own, rfl, fun _ => absent⟩
            | replaced _ _ _ => exact .inr ⟨rfl, _, own, rfl, nofun⟩
            | refused | present => exact .inl ⟨by decide, rfl⟩
            | insertRejected _ failed => exact .inl ⟨failed, rfl⟩

/-- What is in the index stays. -/
def Extends (f f' : WildcardIndex.FiniteMap) : Prop := ∀ key value, f key = some value → f' key = some value

/-- One name more in front. -/
theorem Entered.cons {f₁ f' : WildcardIndex.FiniteMap} {names : List (Nat × Option Text)} (entered : Entered pointer f₁ names f')
    {position : Nat} {name : Text} {key : Domain × Key} (own : keyOf name = some key)
    (first : f₁ = Function.update f key (some pointer)) : Entered pointer f ((position, some name) :: names) f' := by
  subst first
  constructor
  · intro other member
    rcases List.mem_cons.mp member with rfl | later
    · refine ⟨key, own, ?_⟩
      by_cases again : ∃ other ∈ names, other.2.bind keyOf = some key
      · obtain ⟨other, later, same⟩ := again
        obtain ⟨key', own', stored⟩ := entered.1 other later
        rwa [Option.some.inj (own'.symm.trans same)] at stored
      · rw [entered.2 key fun other later same => again ⟨other, later, same⟩, Function.update_self]
    · exact entered.1 other later
  · intro other apart
    have ne : other ≠ key := fun same => apart (position, some name) List.mem_cons_self (own.trans (same ▸ rfl))
    rw [entered.2 other fun name later => apart name (List.mem_cons_of_mem _ later), Function.update_of_ne ne]

/-- **The names of a certificate**: all go in, or the call fails; and without masking conflicts
what was there stays. -/
theorem insertAll_spec (h : contexts.Holds f) (names : List (Nat × Option Text))
    (fit : NamesFit memories pointer maskSanConflicts contexts names) :
    ∃ error contexts' f', insertAll memories pointer maskSanConflicts contexts names = some (error, contexts') ∧
      contexts'.Holds f' ∧ (maskSanConflicts = false → Extends f f') ∧
      (error = .success ∧ AllTaken memories pointer maskSanConflicts contexts names ∧ Entered pointer f names f' ∨
        error ≠ .success ∧ ¬ AllTaken memories pointer maskSanConflicts contexts names) := by
  induction names generalizing contexts f with
  | nil => exact ⟨.success, contexts, f, rfl, h, fun _ _ _ same => same, .inl ⟨rfl, trivial, nofun, fun _ _ => rfl⟩⟩
  | cons first names ih =>
      obtain ⟨position, name⟩ := first
      cases name with
      | none => exact ⟨.generalTlsError, contexts, f, rfl, h, fun _ _ _ same => same, .inr ⟨by decide, id⟩⟩
      | some name =>
          obtain ⟨error, contexts₁, f₁, inserted, h₁, refused | ⟨rfl, key, own, updated, absent⟩⟩ :=
            insertName_spec h fit.1
          · obtain ⟨failed, rfl⟩ := refused
            refine ⟨error, contexts₁, f₁, ?_, h₁, fun _ _ _ same => same, .inr ⟨failed, ?_⟩⟩
            · rw [insertAll, inserted, Option.bind_some]
              exact if_pos failed
            · rintro ⟨contexts', taken, -⟩
              rw [inserted] at taken
              exact failed (Prod.mk.inj (Option.some.inj taken)).1
          · obtain ⟨error, contexts', f', rest, h', extend, outcome⟩ := ih h₁ (fit.2 contexts₁ inserted)
            refine ⟨error, contexts', f', ?_, h', fun unmasked key' value present => ?_, ?_⟩
            · rw [insertAll, inserted, Option.bind_some]
              exact rest
            · have ne : key' ≠ key := by
                rintro rfl
                rw [absent unmasked] at present
                cases present
              refine extend unmasked key' value ?_
              rwa [updated, Function.update_of_ne ne]
            · rcases outcome with ⟨success, taken, entered⟩ | ⟨failed, untaken⟩
              · exact .inl ⟨success, ⟨contexts₁, inserted, taken⟩, entered.cons own updated⟩
              · refine .inr ⟨failed, ?_⟩
                rintro ⟨contexts'', taken, others⟩
                rw [inserted] at taken
                obtain ⟨-, rfl⟩ := Prod.mk.inj (Option.some.inj taken)
                exact untaken others

/-- A failed call has left the first name behind. -/
theorem insertAll_partial (h : contexts.Holds f) {names : List (Nat × Option Text)}
    (fit : NamesFit memories pointer false contexts names) (taken : ¬ FirstRefused memories pointer false contexts names)
    {error : Error} {contexts' : WildcardIndex} {f' : WildcardIndex.FiniteMap} (failed : error ≠ .success)
    (done : insertAll memories pointer false contexts names = some (error, contexts')) (h' : contexts'.Holds f') :
    f' ≠ f := by
  rcases names with - | ⟨⟨position, - | name⟩, names⟩
  · exact absurd (Prod.mk.inj (Option.some.inj done)).1.symm failed
  · exact absurd trivial taken
  · obtain ⟨error₁, contexts₁, f₁, inserted, h₁, refused | ⟨rfl, key, own, updated, absent⟩⟩ := insertName_spec h fit.1
    · refine absurd (fun contexts'' success => ?_) taken
      rw [inserted] at success
      exact refused.1 (Prod.mk.inj (Option.some.inj success)).1
    · obtain ⟨error', contexts'', f'', rest, h'', extend, -⟩ := insertAll_spec h₁ names (fit.2 contexts₁ inserted)
      rw [insertAll, inserted, Option.bind_some] at done
      obtain ⟨-, rfl⟩ := Prod.mk.inj (Option.some.inj (rest.symm.trans done))
      obtain rfl := h'.unique h''
      have stored : f' key = some pointer := extend rfl key pointer (by rw [updated, Function.update_self])
      rintro rfl
      rw [absent rfl] at stored
      cases stored

theorem insertAll_refused (h : contexts.Holds f) {names : List (Nat × Option Text)}
    (fit : NamesFit memories pointer maskSanConflicts contexts names)
    (refused : FirstRefused memories pointer maskSanConflicts contexts names) {error : Error} {contexts' : WildcardIndex}
    {f' : WildcardIndex.FiniteMap}
    (done : insertAll memories pointer maskSanConflicts contexts names = some (error, contexts')) (h' : contexts'.Holds f') :
    f' = f := by
  rcases names with - | ⟨⟨position, - | name⟩, names⟩
  · exact refused.elim
  · obtain ⟨-, rfl⟩ := Prod.mk.inj (Option.some.inj done)
    exact h'.unique h
  · obtain ⟨error₁, contexts₁, f₁, inserted, h₁, ⟨failed, rfl⟩ | ⟨rfl, -⟩⟩ := insertName_spec h fit.1
    · rw [insertAll, inserted, Option.bind_some] at done
      dsimp only at done
      rw [if_pos failed] at done
      obtain ⟨-, rfl⟩ := Prod.mk.inj (Option.some.inj done)
      exact h'.unique h₁
    · exact absurd inserted (refused contexts₁)

/-- Whether a name goes in, when there is memory enough. -/
theorem insertName_taken (h : contexts.Holds f) {memory : Memory} {name : Text} (available : contexts.available = true)
    (some : pointer ≠ 0) (room : ¬ WildcardIndex.short contexts.map.allocated memory)
    (fits : ∀ key, keyOf name = Option.some key → contexts.Fits (.entry (.insert memory key pointer false)))
    {error : Error} {contexts' : WildcardIndex}
    (done : insertName contexts memory name pointer false = Option.some (error, contexts')) :
    contexts'.available = true ∧ contexts'.map.allocated = contexts.map.allocated ∧
      (error = .success ↔
        ∃ key, keyOf name = Option.some key ∧ WildcardIndexNode.legalKey key.2 ∧ f key = none) := by
  rw [insertName] at done
  cases split : (SplitFqdn name).2 with
  | none =>
      simp only [split] at done
      obtain ⟨rfl, rfl⟩ := Prod.mk.inj (Option.some.inj done)
      refine ⟨available, rfl, iff_of_false (by decide) ?_⟩
      rintro ⟨key, own, -⟩
      rw [keyOf, split] at own
      cases own
  | some domain =>
      have own : keyOf name = Option.some (domain, (SplitFqdn name).1) := by rw [keyOf, split]; rfl
      simp only [split] at done
      obtain ⟨error', contexts'', inserted, f', holds, sameLocks, sameArray, serves⟩ :=
        WildcardIndex.insert_spec h memory domain (SplitFqdn name).1 pointer false (fits _ own)
      obtain ⟨rfl, rfl⟩ := Prod.mk.inj (Option.some.inj (inserted.symm.trans done))
      refine ⟨sameLocks.trans available, sameArray, ?_⟩
      have only : ∀ {P : Domain × Key → Prop}, (∃ key, keyOf name = Option.some key ∧ P key) ↔ P (domain, (SplitFqdn name).1) :=
        ⟨fun ⟨key, same, holds⟩ => Option.some.inj (own.symm.trans same) ▸ holds, fun holds => ⟨_, own, holds⟩⟩
      rw [only]
      generalize contexts''.refs = refs' at serves
      cases serves with
      | unavailable none => exact absurd (available.symm.trans none) nofun
      | served _ serves =>
          cases serves with
          | inserted legal _ absent => exact iff_of_true rfl ⟨legal, absent⟩
          | refused _ _ _ short => exact absurd short room
          | present _ _ present => exact iff_of_false nofun fun both => by rw [both.2] at present; cases present
          | insertRejected illegal failed => exact iff_of_false failed fun both => illegal ⟨both.1, some⟩

/-- With memory enough, the index takes names that it does not have, with a host that is a key and
a domain, and each once. -/
theorem allTaken_iff (h : contexts.Holds f) (available : contexts.available = true) (some : pointer ≠ 0)
    (names : List (Nat × Option Text)) (fit : NamesFit memories pointer false contexts names)
    (room : ∀ name ∈ names, ¬ WildcardIndex.short contexts.map.allocated (memories name.1)) :
    AllTaken memories pointer false contexts names ↔
      (∀ name ∈ names, ∃ key, name.2.bind keyOf = Option.some key ∧ WildcardIndexNode.legalKey key.2 ∧ f key = none) ∧
        (names.map fun name => name.2.bind keyOf).Nodup := by
  induction names generalizing contexts f with
  | nil => exact iff_of_true trivial ⟨nofun, List.nodup_nil⟩
  | cons first names ih =>
      obtain ⟨position, name⟩ := first
      cases name with
      | none =>
          refine iff_of_false id fun conditions => ?_
          obtain ⟨key, own, -⟩ := conditions.1 _ List.mem_cons_self
          cases own
      | some name =>
          obtain ⟨error, contexts₁, f₁, inserted, h₁, outcome⟩ := insertName_spec h fit.1
          obtain ⟨available₁, sameArray, taken⟩ :=
            insertName_taken h available some (room _ List.mem_cons_self) fit.1 inserted
          rcases outcome with ⟨failed, -⟩ | ⟨rfl, key, own, updated, -⟩
          · refine iff_of_false ?_ fun conditions => failed (taken.mpr (conditions.1 _ List.mem_cons_self))
            rintro ⟨contexts', success, -⟩
            exact failed (Prod.mk.inj (Option.some.inj (inserted.symm.trans success))).1
          · have rest := ih h₁ available₁ (fit.2 contexts₁ inserted)
              fun name later => sameArray ▸ room name (List.mem_cons_of_mem _ later)
            have here : AllTaken memories pointer false contexts ((position, Option.some name) :: names) ↔
                AllTaken memories pointer false contexts₁ names := by
              refine ⟨fun ⟨contexts', success, others⟩ => ?_, fun others => ⟨contexts₁, inserted, others⟩⟩
              obtain ⟨-, rfl⟩ := Prod.mk.inj (Option.some.inj (inserted.symm.trans success))
              exact others
            obtain ⟨key', own', legal, absent⟩ := taken.mp rfl
            obtain rfl := Option.some.inj (own.symm.trans own')
            rw [here, rest, List.map_cons, List.nodup_cons, List.forall_mem_cons]
            subst updated
            constructor
            · rintro ⟨others, distinct⟩
              refine ⟨⟨⟨key, own, legal, absent⟩, fun name later => ?_⟩, fun again => ?_, distinct⟩
              · obtain ⟨key', own', legal', absent'⟩ := others name later
                have ne : key' ≠ key := by
                  rintro rfl
                  rw [Function.update_self] at absent'
                  cases absent'
                exact ⟨key', own', legal', by rwa [Function.update_of_ne ne] at absent'⟩
              · obtain ⟨name', later, same⟩ := List.mem_map.mp again
                obtain ⟨key', own', -, absent'⟩ := others name' later
                obtain rfl := Option.some.inj ((same.trans own).symm.trans own')
                rw [Function.update_self] at absent'
                cases absent'
            · rintro ⟨⟨-, others⟩, apart, distinct⟩
              refine ⟨fun other later => ?_, distinct⟩
              obtain ⟨key', own', legal', absent'⟩ := others other later
              have ne : key' ≠ key := fun same =>
                apart (List.mem_map.mpr ⟨other, later, own'.trans ((congrArg Option.some same).trans own.symm)⟩)
              exact ⟨key', own', legal', by rwa [Function.update_of_ne ne]⟩

end calls

/-- What a name needs to go in, when there is memory enough: a domain, a host that is a key, and no
entry in its place. -/
def Vacant (f : WildcardIndex.FiniteMap) (name : Option Text) : Prop :=
  ∃ key, name.bind keyOf = some key ∧ WildcardIndexNode.legalKey key.2 ∧ f key = none

theorem firstRefused_iff {contexts : WildcardIndex} {f : WildcardIndex.FiniteMap} {memories : Nat → Memory}
    {pointer : Pointer} (h : contexts.Holds f) (available : contexts.available = true) (some : pointer ≠ 0)
    (names : List (Nat × Option Text)) (fit : NamesFit memories pointer false contexts names)
    (room : ∀ name ∈ names, ¬ WildcardIndex.short contexts.map.allocated (memories name.1)) :
    FirstRefused memories pointer false contexts names ↔ ∃ first ∈ names.head?, ¬ Vacant f first.2 := by
  rcases names with - | ⟨⟨position, - | name⟩, names⟩
  · exact iff_of_false id fun ⟨_, first, _⟩ => nomatch first
  · exact iff_of_true trivial ⟨_, rfl, fun ⟨_, own, _⟩ => nomatch own⟩
  · obtain ⟨error, contexts₁, f₁, inserted, -⟩ := insertName_spec h fit.1
    obtain ⟨-, -, taken⟩ := insertName_taken h available some (room _ List.mem_cons_self) fit.1 inserted
    constructor
    · refine fun refused => ⟨_, rfl, fun vacant => ?_⟩
      exact refused contexts₁ (by rw [inserted, taken.mpr vacant])
    · rintro ⟨first, here, occupied⟩ contexts' success
      obtain rfl := Option.some.inj here
      rw [inserted] at success
      exact occupied (taken.mp (Prod.mk.inj (Option.some.inj success)).1)

/-- A call that fails without masking conflicts leaves the index as it was, and one that succeeds
has put the context under each name of the certificate and changed nothing else. -/
def Whole (index : TLSContextIndex) (f : WildcardIndex.FiniteMap) (created : Except Failure (Pointer × X509Certificate))
    (memories : Nat → Memory) (maskSanConflicts : Bool) : Prop :=
  ∃ error index' f', index.indexContext created memories maskSanConflicts = some (error, index') ∧
    index'.contexts.Holds f' ∧ (maskSanConflicts = false → error ≠ .success → f' = f) ∧
    (error = .success → ∃ pointer certificate, created = .ok (pointer, certificate) ∧
      Entered pointer f (namesOf certificate) f')

/-- It is, if conflicts are masked, or the index takes all names, or it does not take the first. -/
theorem whole_iff {index : TLSContextIndex} {f : WildcardIndex.FiniteMap} (h : index.contexts.Holds f)
    {created : Except Failure (Pointer × X509Certificate)} {memories : Nat → Memory} {maskSanConflicts : Bool}
    (fit : ∀ pointer certificate, created = .ok (pointer, certificate) →
      NamesFit memories pointer maskSanConflicts index.contexts (namesOf certificate)) :
    Whole index f created memories maskSanConflicts ↔
      ∀ pointer certificate, created = .ok (pointer, certificate) → maskSanConflicts = true ∨
        AllTaken memories pointer maskSanConflicts index.contexts (namesOf certificate) ∨
        FirstRefused memories pointer maskSanConflicts index.contexts (namesOf certificate) := by
  have calls : (∃ error, error ≠ .success ∧ index.indexContext created memories maskSanConflicts = some (error, index) ∧ _) ∨
      _ := index.indexContext_eq created
  rcases calls with ⟨error, failed, done, nothing⟩ | ⟨pointer, certificate, rfl, done⟩
  · refine iff_of_true ⟨error, index, f, done, h, fun _ _ => rfl, fun success => absurd success failed⟩
      fun pointer certificate same => .inr (.inl ?_)
    rw [nothing pointer certificate same]
    trivial
  · have fit := fit pointer certificate rfl
    obtain ⟨error, contexts', f', inserted, h', -, outcome⟩ := insertAll_spec h (namesOf certificate) fit
    rw [inserted, Option.map_some] at done
    constructor
    · rintro ⟨error', index', f'', done', h'', unchanged, -⟩ pointer' certificate' same
      cases same
      obtain ⟨rfl, rfl⟩ := Prod.mk.inj (Option.some.inj (done.symm.trans done'))
      by_contra none
      obtain ⟨unmasked, partly⟩ := not_or.mp none
      obtain ⟨untaken, first⟩ := not_or.mp partly
      have unmasked := Bool.eq_false_of_not_eq_true unmasked
      subst unmasked
      rcases outcome with ⟨-, taken, -⟩ | ⟨failed, -⟩
      · exact untaken taken
      · exact insertAll_partial h fit first failed inserted h'' (unchanged rfl failed)
    · intro conditions
      refine ⟨error, _, f', done, h', fun unmasked failed => ?_, fun success => ⟨pointer, certificate, rfl, ?_⟩⟩
      · rcases conditions pointer certificate rfl with masked | taken | first
        · exact absurd (unmasked.symm.trans masked) nofun
        · rcases outcome with ⟨success, -⟩ | ⟨-, untaken⟩
          · exact absurd success failed
          · exact absurd taken untaken
        · exact insertAll_refused h fit first inserted h'
      · rcases outcome with ⟨-, -, entered⟩ | ⟨failed, -⟩
        · exact entered
        · exact absurd success failed

/-- **All or nothing**: a call is, if conflicts are masked, or the index takes all names, or it does
not take the first.  With memory enough, it takes the names that have no entry, each once. -/
theorem indexContext_whole_iff {index : TLSContextIndex} {f : WildcardIndex.FiniteMap} (h : index.contexts.Holds f)
    {created : Except Failure (Pointer × X509Certificate)} {memories : Nat → Memory} {maskSanConflicts : Bool}
    (fit : ∀ pointer certificate, created = .ok (pointer, certificate) →
      NamesFit memories pointer maskSanConflicts index.contexts (namesOf certificate)) :
    (Whole index f created memories maskSanConflicts ↔
      ∀ pointer certificate, created = .ok (pointer, certificate) → maskSanConflicts = true ∨
        AllTaken memories pointer maskSanConflicts index.contexts (namesOf certificate) ∨
        FirstRefused memories pointer maskSanConflicts index.contexts (namesOf certificate)) ∧
      (index.contexts.available = true →
        (∀ position, ¬ WildcardIndex.short index.contexts.map.allocated (memories position)) →
        (∀ pointer certificate, created = .ok (pointer, certificate) → pointer ≠ 0) →
        (Whole index f created memories maskSanConflicts ↔
          ∀ pointer certificate, created = .ok (pointer, certificate) → maskSanConflicts = true ∨
            ((∀ name ∈ namesOf certificate, Vacant f name.2) ∧
              ((namesOf certificate).map fun name => name.2.bind keyOf).Nodup) ∨
            ∃ first ∈ (namesOf certificate).head?, ¬ Vacant f first.2)) := by
  refine ⟨whole_iff h fit, fun available room nonzero => ?_⟩
  rw [whole_iff h fit]
  refine forall_congr' fun pointer => forall_congr' fun certificate => forall_congr' fun made => ?_
  cases maskSanConflicts with
  | true => exact iff_of_true (.inl rfl) (.inl rfl)
  | false =>
      have fit := fit pointer certificate made
      have some := nonzero pointer certificate made
      rw [allTaken_iff h available some _ fit fun name _ => room name.1,
        firstRefused_iff h available some _ fit fun name _ => room name.1]
      rfl

/-- No contexts yet. -/
def emptyIndex : TLSContextIndex := { contexts := .new 1 0 .success .success }

/-- A certificate for `a.x` and `b.x`. -/
def twoNames : X509Certificate where
  certificate := true
  subjectCommonName := none
  subjectAltNames := some [.dns [97, 46, 120], .dns [98, 46, 120]]

/-- A certificate for `c.x`, `*.y` and `a.y`, with something else among its names. -/
def threeNames : X509Certificate where
  certificate := true
  subjectCommonName := some [97, 46, 120]
  subjectAltNames := some [.dns [99, 46, 120], .other, .dns [42, 46, 121], .dns [97, 46, 121]]

/-- A certificate for `d.x` and `a.x`. -/
def oneTaken : X509Certificate where
  certificate := true
  subjectCommonName := none
  subjectAltNames := some [.dns [100, 46, 120], .dns [97, 46, 120]]

/-- Each name fits for sure (`WildcardIndex.fitsSurely`). -/
def namesFitSurely (memories : Nat → Memory) (pointer : Pointer) (maskSanConflicts : Bool) :
    WildcardIndex → List (Nat × Option Text) → Bool
  | contexts, (position, some name) :: rest =>
      ((keyOf name).all fun key => contexts.fitsSurely (.entry (.insert (memories position) key pointer maskSanConflicts))) &&
        (insertName contexts (memories position) name pointer maskSanConflicts).all fun (_, contexts') =>
          namesFitSurely memories pointer maskSanConflicts contexts' rest
  | _, _ => true

theorem namesFit_of_surely {memories : Nat → Memory} {pointer : Pointer} {maskSanConflicts : Bool} {contexts : WildcardIndex}
    {names : List (Nat × Option Text)} (surely : namesFitSurely memories pointer maskSanConflicts contexts names = true) :
    NamesFit memories pointer maskSanConflicts contexts names := by
  induction names generalizing contexts with
  | nil => trivial
  | cons first names ih =>
      rcases first with ⟨position, - | name⟩
      · trivial
      · obtain ⟨here, later⟩ := Bool.and_eq_true_iff.mp surely
        constructor
        · intro key own
          rw [own, Option.all_some] at here
          exact WildcardIndex.fits_of_surely contexts _ here
        · intro contexts' inserted
          rw [inserted, Option.all_some] at later
          exact ih later

theorem made_fits {index : TLSContextIndex} {pointer : Pointer} {certificate : X509Certificate} {mask : Bool}
    (surely : namesFitSurely (fun _ => .plenty) pointer mask index.contexts (namesOf certificate) = true) :
    ∀ pointer' certificate', (Except.ok (pointer, certificate) : Except Failure (Pointer × X509Certificate)) =
      .ok (pointer', certificate') → NamesFit (fun _ => .plenty) pointer' mask index.contexts (namesOf certificate') := by
  rintro _ _ ⟨⟩
  exact namesFit_of_surely surely

theorem plenty_not_short {index : TLSContextIndex} (allocated : index.contexts.map.allocated = true) :
    ∀ position : Nat, ¬ WildcardIndex.short index.contexts.map.allocated ((fun _ => Memory.plenty) position) := by
  rintro position (refuses | failed | unallocated)
  · exact Heap.plenty_grants refuses
  · exact failed rfl
  · exact absurd (allocated.symm.trans unallocated) nofun

/-- The index that has the two names. -/
def filledIndex : TLSContextIndex :=
  ((emptyIndex.indexContext (.ok (7, twoNames)) (fun _ => .plenty) false).map Prod.snd).getD emptyIndex

theorem indexContext_whole_with_entries :
    ∃ f, emptyIndex.indexContext (.ok (7, twoNames)) (fun _ => .plenty) false = some (.success, filledIndex) ∧
      filledIndex.contexts.Holds f ∧ f ([120], [97]) = some 7 ∧
      Whole filledIndex f (.ok (8, threeNames)) (fun _ => .plenty) false ∧
      ¬ Whole filledIndex f (.ok (9, oneTaken)) (fun _ => .plenty) false ∧
      Whole filledIndex f (.ok (9, oneTaken)) (fun _ => .plenty) true := by
  have holds : emptyIndex.contexts.Holds fun _ => none := WildcardIndex.new_holds 1 0 .success .success (by decide)
  have indexed : Whole emptyIndex (fun _ => none) (.ok (7, twoNames)) (fun _ => .plenty) false := by
    refine ((indexContext_whole_iff holds (made_fits (by decide +kernel))).2 rfl (plenty_not_short rfl) ?_).mpr ?_
    · rintro pointer certificate ⟨⟩
      decide
    · rintro pointer certificate ⟨⟩
      refine .inr (.inl ⟨List.forall_mem_cons.mpr ⟨?_, List.forall_mem_singleton.mpr ?_⟩, by decide⟩)
      · exact ⟨([120], [97]), by decide, ⟨by decide, by decide⟩, rfl⟩
      · exact ⟨([120], [98]), by decide, ⟨by decide, by decide⟩, rfl⟩
  have success : (emptyIndex.indexContext (.ok (7, twoNames)) (fun _ => .plenty) false).map Prod.fst = some .success := by
    decide +kernel
  obtain ⟨error, index, f, done, filled, -, entered⟩ := indexed
  rw [done, Option.map_some] at success
  obtain rfl := Option.some.inj success
  obtain rfl : filledIndex = index := by rw [filledIndex, done]; rfl
  obtain ⟨_, _, ⟨⟩, present, absent⟩ := entered rfl
  have apart : ∀ key, (∀ name ∈ namesOf twoNames, name.2.bind keyOf ≠ some key) → f key = none := absent
  have first : f ([120], [97]) = some 7 := by
    obtain ⟨key, own, stored⟩ := present _ (show (1, some [97, 46, 120]) ∈ namesOf twoNames by decide)
    cases own
    exact stored
  refine ⟨f, done, filled, first, ?_, ?_, ?_⟩
  · refine ((indexContext_whole_iff filled (made_fits (by decide +kernel))).2 (by decide +kernel)
      (plenty_not_short (by decide +kernel)) ?_).mpr ?_
    · rintro pointer certificate ⟨⟩
      decide
    · rintro pointer certificate ⟨⟩
      refine .inr (.inl ⟨List.forall_mem_cons.mpr ⟨?_, List.forall_mem_cons.mpr ⟨?_, List.forall_mem_singleton.mpr ?_⟩⟩,
        by decide⟩)
      · exact ⟨([120], [99]), by decide, ⟨by decide, by decide⟩, apart _ (by decide)⟩
      · exact ⟨([121], [42]), by decide, ⟨by decide, by decide⟩, apart _ (by decide)⟩
      · exact ⟨([121], [97]), by decide, ⟨by decide, by decide⟩, apart _ (by decide)⟩
  · rw [(indexContext_whole_iff filled (made_fits (by decide +kernel))).2 (by decide +kernel)
      (plenty_not_short (by decide +kernel)) (by rintro pointer certificate ⟨⟩; decide)]
    intro whole
    rcases whole _ _ rfl with masked | ⟨vacant, -⟩ | ⟨name, here, occupied⟩
    · cases masked
    · obtain ⟨key, own, -, none⟩ := vacant _ (show (2, some [97, 46, 120]) ∈ namesOf oneTaken by decide)
      cases own
      cases first.symm.trans none
    · cases here
      exact occupied ⟨([120], [100]), by decide, ⟨by decide, by decide⟩, apart _ (by decide)⟩
  · refine (indexContext_whole_iff filled (made_fits (by decide +kernel))).1.mpr ?_
    rintro pointer certificate ⟨⟩
    exact .inl rfl

/-- The index has `b.x` already.  The call fails, and `a.x` has the new context. -/
theorem first_name_stays :
    ((emptyIndex.contexts.insert .plenty (some [120]) (some [98]) 1 false).bind fun (error, contexts) =>
      ((TLSContextIndex.mk contexts).indexContext (.ok (2, twoNames)) (fun _ => .plenty) false).bind fun (error', index') =>
        (WildcardIndex.perform contexts (.entry (.find ([120], [97])))).bind fun (before, _) =>
          (WildcardIndex.perform index'.contexts (.entry (.find ([120], [97])))).map fun (after, _) =>
            (error, error', before, after)) =
      some (.success, .uniquenessViolation, .found .cannotFind none, .found .success (some 2)) := by
  decide +kernel

end TLSContextIndex

end Everscale
