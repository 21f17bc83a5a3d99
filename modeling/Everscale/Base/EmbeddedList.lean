/-
# Everscale.Base.EmbeddedList -- doubly linked lists whose elements hold the links

The links are in the elements, so all lists share them.  `Holds` says that the links from a list's head
on are those of a sequence; an operation changes no links but those of its list's elements
(`SameLinks`), so no other list changes (`EmbeddedLists.Agrees`).

`size` and `index` count in an `int`.  A run of calls does to the lists what it should, and answers what
it should, if and only if no list of `2 ^ 31` elements is counted, and none of more than `2 ^ 32 + idx`
is searched for a negative index `idx` (`embeddedLists_serve_iff`).

A call has no result where an assertion fails, a null pointer is followed, or a loop takes more steps than
there are elements.
-/
import Mathlib.Data.Fintype.Basic
import Mathlib.Data.List.Perm.Subperm
import Mathlib.Logic.Function.Basic
import Everscale.Base.List
import Everscale.Theory.DoublyLinked
import Everscale.Theory.Serving

namespace Everscale

set_option autoImplicit false

open Theory
open ESBList (relink relink_of_mem relink_of_notMem)

/-- `EmbeddedListElement *`, not null. -/
abbrev EmbeddedListElement := Nat

/-- `ESB::EmbeddedList`, with the links of all elements. -/
structure EmbeddedList where
  head : Option EmbeddedListElement := none
  tail : Option EmbeddedListElement := none
  next : EmbeddedListElement → Option EmbeddedListElement := fun _ => none
  previous : EmbeddedListElement → Option EmbeddedListElement := fun _ => none

namespace EmbeddedList

def setNext (s : EmbeddedList) (e : EmbeddedListElement) (link : Option EmbeddedListElement) : EmbeddedList :=
  { s with next := Function.update s.next e link }

def setPrevious (s : EmbeddedList) (e : EmbeddedListElement) (link : Option EmbeddedListElement) : EmbeddedList :=
  { s with previous := Function.update s.previous e link }

/-- `debug` says whether assertions are checked. -/
def addFirst (debug : Bool) (s : EmbeddedList) (element : Option EmbeddedListElement) : Option EmbeddedList :=
  match element with
  | none => none
  | some e =>
      if debug = true ∧ ¬ (s.next e = none ∧ s.previous e = none) then none
      else
        match s.head with
        | none => some ({ s with head := some e, tail := some e }.setNext e none |>.setPrevious e none)
        | some first =>
            let s := (s.setNext e s.head).setPrevious e none
            some { s.setPrevious first (some e) with head := some e }

def addLast (debug : Bool) (s : EmbeddedList) (element : Option EmbeddedListElement) : Option EmbeddedList :=
  match element with
  | none => none
  | some e =>
      if debug = true ∧ ¬ (s.next e = none ∧ s.previous e = none) then none
      else
        match s.tail with
        | none => some ({ s with head := some e, tail := some e }.setNext e none |>.setPrevious e none)
        | some last =>
            let s := (s.setNext e none).setPrevious e s.tail
            some { s.setNext last (some e) with tail := some e }

/-- The loop of the assertion in `remove`. -/
def foundElement (s : EmbeddedList) (element : EmbeddedListElement) :
    Nat → Option EmbeddedListElement → Bool → Option Bool
  | _, none, found => some found
  | 0, some _, _ => none
  | fuel + 1, some e, found => s.foundElement element fuel (s.next e) (found || e = element)

/-- What `remove` does where no assertion fails. -/
def unlink (s : EmbeddedList) (e : EmbeddedListElement) : EmbeddedList :=
  let s := match s.previous e with
    | some before => s.setNext before (s.next e)
    | none =>
        let s := { s with head := s.next e }
        match s.head with
        | some first => s.setPrevious first none
        | none => s
  let s := match s.next e with
    | some behind => s.setPrevious behind (s.previous e)
    | none =>
        let s := { s with tail := s.previous e }
        match s.tail with
        | some last => s.setNext last none
        | none => s
  (s.setNext e none).setPrevious e none

/-- `elements` bounds the loop. -/
def remove (debug : Bool) (elements : Nat) (s : EmbeddedList) (element : Option EmbeddedListElement) :
    Option EmbeddedList :=
  if debug = true ∧ ¬ (element ≠ none ∧ s.head ≠ none ∧ s.tail ≠ none) then none
  else
    match element with
    | none => some s
    | some e =>
        if s.head = none ∨ s.tail = none then some s
        else if debug = true ∧ ¬ (s.foundElement e elements s.head false = some true ∧
            (s.previous e = none → s.head = some e) ∧ (s.next e = none → s.tail = some e)) then none
        else some (s.unlink e)

def removeFirst (debug : Bool) (elements : Nat) (s : EmbeddedList) :
    Option (Option EmbeddedListElement × EmbeddedList) :=
  match s.head with
  | none => some (none, s)
  | some e => (s.remove debug elements (some e)).map fun s => (some e, s)

def removeLast (debug : Bool) (elements : Nat) (s : EmbeddedList) :
    Option (Option EmbeddedListElement × EmbeddedList) :=
  match s.tail with
  | none => some (none, s)
  | some e => (s.remove debug elements (some e)).map fun s => (some e, s)

/-- The loop of `clear`, with the elements whose handlers destroy them. -/
def clearLoop (debug : Bool) (elements : Nat) (handled : EmbeddedListElement → Bool) :
    Nat → EmbeddedList → Option (List EmbeddedListElement × EmbeddedList)
  | fuel, s =>
      match s.removeFirst debug elements with
      | none => none
      | some (none, s) => some ([], s)
      | some (some e, s) =>
          match fuel with
          | 0 => none
          | fuel + 1 => (clearLoop debug elements handled fuel s).map fun (destroyed, s) =>
              (if handled e then e :: destroyed else destroyed, s)

def clear (debug : Bool) (elements : Nat) (handled : EmbeddedListElement → Bool) (s : EmbeddedList) :
    Option (List EmbeddedListElement × EmbeddedList) :=
  clearLoop debug elements handled elements s

def isEmpty (s : EmbeddedList) : Bool := s.head = none

/-- `++` of an `int`. -/
def increment (n : Int) : Int := (n + 1).bmod (2 ^ 32)

/-- The loop of `size`. -/
def sizeLoop (s : EmbeddedList) : Nat → Option EmbeddedListElement → Int → Option Int
  | _, none, length => some length
  | 0, some _, _ => none
  | fuel + 1, some current, length => s.sizeLoop fuel (s.next current) (increment length)

def size (elements : Nat) (s : EmbeddedList) : Option Int := s.sizeLoop elements s.head 0

/-- The loop of `index`. -/
def indexLoop (s : EmbeddedList) (idx : Int) :
    Nat → Option EmbeddedListElement → Int → Option (Option EmbeddedListElement)
  | _, none, _ => some none
  | 0, some _, _ => none
  | fuel + 1, some e, i => if i = idx then some (some e) else s.indexLoop idx fuel (s.next e) (increment i)

def index (elements : Nat) (s : EmbeddedList) (idx : Int) : Option (Option EmbeddedListElement) :=
  s.indexLoop idx elements s.head 0

/-- The links from an element to its neighbours, and back. -/
def Matches (s : EmbeddedList) (current : EmbeddedListElement) : Prop :=
  (match s.next current with
    | some n => s.previous n = some current
    | none => s.tail = some current) ∧
  (match s.previous current with
    | some p => s.next p = some current
    | none => s.head = some current)

instance (s : EmbeddedList) (current : EmbeddedListElement) : Decidable (s.Matches current) := by
  unfold Matches
  cases s.next current <;> cases s.previous current <;> infer_instance

/-- The loop of `validate`. -/
def validateLoop (debug : Bool) (s : EmbeddedList) : Nat → Option EmbeddedListElement → Option Bool
  | _, none => some true
  | 0, some _ => none
  | fuel + 1, some current =>
      if s.Matches current then s.validateLoop debug fuel (s.next current)
      else if debug = true then none
      else some false

def validate (debug : Bool) (elements : Nat) (s : EmbeddedList) : Option Bool := s.validateLoop debug elements s.head

/-! ## One list -/

/-- The list has these elements. -/
structure Holds (s : EmbeddedList) (xs : List EmbeddedListElement) : Prop where
  linked : DoublyLinked s.next s.previous s.head xs
  tail_eq : s.tail = xs.getLast?

/-- Elements that are not among these have the same links. -/
def SameLinks (xs : List EmbeddedListElement) (s s' : EmbeddedList) : Prop :=
  ∀ a ∉ xs, s'.next a = s.next a ∧ s'.previous a = s.previous a

/-- The element has no links. -/
def Loose (s : EmbeddedList) (e : EmbeddedListElement) : Prop := s.next e = none ∧ s.previous e = none

section

variable {s s' s'' : EmbeddedList} {xs ys : List EmbeddedListElement} {e : EmbeddedListElement} {debug : Bool}
  {elements fuel : Nat}

theorem SameLinks.refl (xs : List EmbeddedListElement) (s : EmbeddedList) : SameLinks xs s s := fun _ _ => ⟨rfl, rfl⟩

theorem SameLinks.mono (h : SameLinks xs s s') (more : xs ⊆ ys) : SameLinks ys s s' :=
  fun a outside => h a fun member => outside (more member)

theorem SameLinks.trans (h : SameLinks xs s s') (h' : SameLinks xs s' s'') : SameLinks xs s s'' :=
  fun a outside => ⟨(h' a outside).1.trans (h a outside).1, (h' a outside).2.trans (h a outside).2⟩

theorem Holds.nil_iff (h : s.Holds xs) : s.head = none ↔ xs = [] := by
  rw [h.linked.head_eq, List.head?_eq_none_iff]

theorem Holds.isEmpty (h : s.Holds xs) : s.isEmpty = xs.isEmpty := by
  unfold EmbeddedList.isEmpty
  rw [h.linked.head_eq]
  cases xs <;> rfl

theorem Holds.tail_none (h : s.Holds xs) : s.tail = none ↔ xs = [] := by
  rw [h.tail_eq, List.getLast?_eq_none_iff]

/-- The list read from its other end. -/
def mirror (s : EmbeddedList) : EmbeddedList :=
  { head := s.tail, tail := s.head, next := s.previous, previous := s.next }

theorem Holds.mirror (h : s.Holds xs) : s.mirror.Holds xs.reverse where
  linked := by
    have linked := h.linked.reverse
    rwa [← h.tail_eq] at linked
  tail_eq := h.linked.head_eq.trans List.getLast?_reverse.symm

theorem addLast_eq (debug : Bool) (s : EmbeddedList) (element : Option EmbeddedListElement) :
    s.addLast debug element = (s.mirror.addFirst debug element).map mirror := by
  obtain ⟨head, tail, next, previous⟩ := s
  cases element with
  | none => rfl
  | some e =>
      unfold addLast addFirst mirror
      dsimp only
      by_cases linked : debug = true ∧ ¬ (next e = none ∧ previous e = none)
      · rw [if_pos linked, if_pos ⟨linked.1, fun loose => linked.2 loose.symm⟩]
        rfl
      · rw [if_neg linked, if_neg fun other => linked ⟨other.1, fun loose => other.2 loose.symm⟩]
        cases tail <;> rfl

/-! ### Insertion -/

theorem Holds.addFirst (h : s.Holds xs) (new : e ∉ xs) (loose : s.Loose e) (debug : Bool) :
    ∃ s', s.addFirst debug (some e) = some s' ∧ s'.Holds (e :: xs) ∧ SameLinks (e :: xs) s s' := by
  have passes : ¬ (debug = true ∧ ¬ (s.next e = none ∧ s.previous e = none)) := fun fails => fails.2 loose
  unfold EmbeddedList.addFirst
  dsimp only
  rw [if_neg passes]
  cases xs with
  | nil =>
      have head : s.head = none := h.linked.head_eq
      rw [head]
      refine ⟨_, rfl, ⟨.single (Function.update_self ..) (Function.update_self ..), rfl⟩, fun a outside => ?_⟩
      have other : a ≠ e := fun same => outside (List.mem_singleton.2 same)
      exact ⟨Function.update_of_ne other .., Function.update_of_ne other ..⟩
  | cons first rest =>
      have head : s.head = some first := h.linked.head_eq
      have behind : first ≠ e := fun same => new (same ▸ List.mem_cons_self)
      simp only [head]
      refine ⟨_, rfl, ⟨h.linked.push new ?_ ?_ ?_ ?_ ?_, h.tail_eq⟩, fun a outside => ?_⟩
      · rw [head]
        exact Function.update_self ..
      · exact (Function.update_of_ne behind.symm ..).trans (Function.update_self ..)
      · rintro a isHead
        rw [head] at isHead
        cases isHead
        exact Function.update_self ..
      · intro a member
        have apart : a ≠ e := fun same => new (same ▸ member)
        exact Function.update_of_ne apart ..
      · intro a member notHead
        have apart : a ≠ e := fun same => new (same ▸ member)
        have later : a ≠ first := fun same => notHead (head.trans (congrArg some same.symm))
        exact (Function.update_of_ne later ..).trans (Function.update_of_ne apart ..)
      · have apart : a ≠ e := fun same => outside (same ▸ List.mem_cons_self)
        have later : a ≠ first := fun same => outside (same ▸ List.mem_cons_of_mem _ List.mem_cons_self)
        exact ⟨Function.update_of_ne apart ..,
          (Function.update_of_ne later ..).trans (Function.update_of_ne apart ..)⟩

theorem Holds.addLast (h : s.Holds xs) (new : e ∉ xs) (loose : s.Loose e) (debug : Bool) :
    ∃ s', s.addLast debug (some e) = some s' ∧ s'.Holds (xs ++ [e]) ∧ SameLinks (e :: xs) s s' := by
  obtain ⟨s', done, holds, same⟩ := h.mirror.addFirst (fun member => new (List.mem_reverse.1 member)) loose.symm debug
  rw [addLast_eq, done]
  refine ⟨s'.mirror, rfl, ?_, fun a outside => ?_⟩
  · have holds := holds.mirror
    rwa [List.reverse_cons, List.reverse_reverse] at holds
  · have outside : a ∉ e :: xs.reverse := by
      rw [List.mem_cons, List.mem_reverse, ← List.mem_cons]
      exact outside
    exact (same a outside).symm

/-! ### Removal -/

theorem Holds.distinct (h : s.Holds (xs ++ e :: ys)) :
    (∀ a, s.previous e = some a → e ≠ a) ∧ ∀ a, s.next e = some a → e ≠ a := by
  obtain ⟨before, behind⟩ := h.linked.neighbours
  obtain ⟨-, nodup, notFront⟩ := List.nodup_append.1 h.linked.nodup
  constructor
  · rintro a isBefore rfl
    exact notFront e (List.mem_of_getLast? (before.symm.trans isBefore)) e List.mem_cons_self rfl
  · rintro a isBehind rfl
    exact (List.nodup_cons.1 nodup).1 (List.mem_of_mem_head? (behind.symm.trans isBehind))

/-- The links of the neighbours, and those of the element. -/
theorem Holds.unlink_eq (h : s.Holds (xs ++ e :: ys)) : s.unlink e =
    { head := if s.previous e = none then s.next e else s.head
      tail := if s.next e = none then s.previous e else s.tail
      next := Function.update (relink s.next (s.previous e) (s.next e)) e none
      previous := Function.update (relink s.previous (s.next e) (s.previous e)) e none } := by
  obtain ⟨notBefore, notBehind⟩ := h.distinct
  unfold unlink
  cases before : s.previous e with
  | none =>
      cases behind : s.next e with
      | none => simp [before, behind, relink, setNext, setPrevious]
      | some b => simp [before, behind, relink, setNext, setPrevious, notBehind b behind]
  | some a =>
      cases behind : s.next e with
      | none => simp [before, behind, relink, setNext, setPrevious, notBefore a before]
      | some b => simp [before, behind, relink, setNext, setPrevious, notBefore a before]

theorem Holds.unlink (h : s.Holds (xs ++ e :: ys)) :
    (s.unlink e).Holds (xs ++ ys) ∧ (s.unlink e).Loose e ∧ SameLinks (xs ++ e :: ys) s (s.unlink e) := by
  obtain ⟨before, behind⟩ := h.linked.neighbours
  obtain ⟨-, nodup, notFront⟩ := List.nodup_append.1 h.linked.nodup
  have outside : e ∉ xs ++ ys := by
    intro member
    rcases List.mem_append.1 member with front | rest
    · exact notFront e front e List.mem_cons_self rfl
    · exact (List.nodup_cons.1 nodup).1 rest
  obtain ⟨notBefore, notBehind⟩ := h.distinct
  rw [h.unlink_eq]
  refine ⟨⟨?_, ?_⟩, ⟨Function.update_self .., Function.update_self ..⟩, fun a other => ⟨?_, ?_⟩⟩
  · refine h.linked.remove (fun a isBefore => ?_) (fun a isBehind => ?_) (fun a member other => ?_) fun a member other => ?_
    · exact (Function.update_of_ne (notBefore a isBefore).symm ..).trans (relink_of_mem isBefore)
    · exact (Function.update_of_ne (notBehind a isBehind).symm ..).trans (relink_of_mem isBehind)
    · have apart : a ≠ e := fun same => outside (same ▸ member)
      exact (Function.update_of_ne apart ..).trans (relink_of_notMem other)
    · have apart : a ≠ e := fun same => outside (same ▸ member)
      exact (Function.update_of_ne apart ..).trans (relink_of_notMem other)
  · change (if s.next e = none then s.previous e else s.tail) = (xs ++ ys).getLast?
    rw [behind, before, h.tail_eq]
    cases ys <;> simp
  · have apart : a ≠ e := fun same => other (same ▸ by simp)
    refine (Function.update_of_ne apart ..).trans (relink_of_notMem fun isBefore => other ?_)
    rw [before] at isBefore
    exact List.mem_append_left _ (List.mem_of_getLast? isBefore)
  · have apart : a ≠ e := fun same => other (same ▸ by simp)
    refine (Function.update_of_ne apart ..).trans (relink_of_notMem fun isBehind => other ?_)
    rw [behind] at isBehind
    exact List.mem_append_right _ (List.mem_cons_of_mem _ (List.mem_of_mem_head? isBehind))

/-! ### Loops -/

open DoublyLinked (Walks)

theorem foundElement_eq {start : Option EmbeddedListElement} (walks : Walks s.next start xs) (enough : xs.length ≤ fuel)
    (found : Bool) : s.foundElement e fuel start found = some (found || decide (e ∈ xs)) := by
  induction xs generalizing start fuel found with
  | nil =>
      have done : start = none := walks
      rw [done]
      cases fuel <;> simp [foundElement]
  | cons a rest ih =>
      obtain ⟨rfl, later⟩ := walks
      cases fuel with
      | zero => exact absurd enough (Nat.not_succ_le_zero _)
      | succ fuel =>
          rw [foundElement, ih later (Nat.le_of_succ_le_succ enough)]
          simp [Bool.or_assoc, eq_comm]

theorem increment_bmod (n : Nat) : increment ((n : Int).bmod (2 ^ 32)) = ((n + 1 : Nat) : Int).bmod (2 ^ 32) := by
  unfold increment
  rw [Int.bmod_add_bmod, Int.natCast_succ]

theorem sizeLoop_eq {start : Option EmbeddedListElement} (walks : Walks s.next start xs) (enough : xs.length ≤ fuel)
    (n : Nat) : s.sizeLoop fuel start ((n : Int).bmod (2 ^ 32)) = some (((n + xs.length : Nat) : Int).bmod (2 ^ 32)) := by
  induction xs generalizing start fuel n with
  | nil =>
      have done : start = none := walks
      rw [done, List.length_nil, Nat.add_zero]
      cases fuel <;> rw [sizeLoop]
  | cons a rest ih =>
      obtain ⟨rfl, later⟩ := walks
      cases fuel with
      | zero => exact absurd enough (Nat.not_succ_le_zero _)
      | succ fuel =>
          rw [sizeLoop, increment_bmod, ih later (Nat.le_of_succ_le_succ enough), List.length_cons, Nat.add_assoc,
            Nat.add_comm 1]

theorem Holds.size (h : s.Holds xs) (enough : xs.length ≤ elements) :
    s.size elements = some ((xs.length : Int).bmod (2 ^ 32)) := by
  have counted := sizeLoop_eq h.linked.walks enough 0
  rw [Nat.zero_add, Int.natCast_zero, Int.zero_bmod] at counted
  exact counted

theorem shown_iff {n : Nat} : (n : Int).bmod (2 ^ 32) = n ↔ n < 2 ^ 31 := by
  rw [Int.bmod_def]
  split <;> omega

/-- The loop finds the element whose position the counter first shows. -/
theorem indexLoop_eq {start : Option EmbeddedListElement} (walks : Walks s.next start xs) (enough : xs.length ≤ fuel)
    {idx : Int} (low : -2 ^ 31 ≤ idx) (high : idx < 2 ^ 31) (n : Nat) :
    s.indexLoop idx fuel start ((n : Int).bmod (2 ^ 32)) = some xs[((idx - n) % 2 ^ 32).toNat]? := by
  induction xs generalizing start fuel n with
  | nil =>
      have done : start = none := walks
      rw [done, List.getElem?_nil]
      cases fuel <;> rw [indexLoop]
  | cons a rest ih =>
      obtain ⟨rfl, later⟩ := walks
      cases fuel with
      | zero => exact absurd enough (Nat.not_succ_le_zero _)
      | succ fuel =>
          have shows : (n : Int).bmod (2 ^ 32) = idx ↔ (idx - n) % 2 ^ 32 = 0 := by
            rw [Int.bmod_def]
            split <;> omega
          rw [indexLoop]
          by_cases here : (n : Int).bmod (2 ^ 32) = idx
          · rw [if_pos here, shows.1 here, Int.toNat_zero, List.getElem?_cons_zero]
          · have next : ((idx - n) % 2 ^ 32).toNat = ((idx - (n + 1 : Nat)) % 2 ^ 32).toNat + 1 := by
              have other := mt shows.2 here
              omega
            rw [if_neg here, increment_bmod, ih later (Nat.le_of_succ_le_succ enough), next, List.getElem?_cons_succ]

theorem Holds.index (h : s.Holds xs) (enough : xs.length ≤ elements) {idx : Int} (low : -2 ^ 31 ≤ idx)
    (high : idx < 2 ^ 31) : s.index elements idx = some xs[(idx % 2 ^ 32).toNat]? := by
  have found := indexLoop_eq h.linked.walks enough low high 0
  rw [Int.natCast_zero, Int.sub_zero, Int.zero_bmod] at found
  exact found

theorem searched_iff {idx : Int} (low : -2 ^ 31 ≤ idx) (high : idx < 2 ^ 31) :
    xs[(idx % 2 ^ 32).toNat]? = (if 0 ≤ idx then xs[idx.toNat]? else none) ↔ 0 ≤ idx ∨ xs.length ≤ idx + 2 ^ 32 := by
  by_cases inside : 0 ≤ idx
  · have small : idx % 2 ^ 32 = idx := Int.emod_eq_of_lt inside (by omega)
    rw [small, if_pos inside]
    exact ⟨fun _ => .inl inside, fun _ => rfl⟩
  · have wrapped : idx % 2 ^ 32 = idx + 2 ^ 32 := by omega
    rw [wrapped, if_neg inside, List.getElem?_eq_none_iff]
    omega

/-- The links of an element of the list agree. -/
theorem Holds.matches (h : s.Holds (xs ++ e :: ys)) : s.Matches e := by
  obtain ⟨before, behind⟩ := h.linked.neighbours
  obtain ⟨-, chain, toElement⟩ := List.isChain_append.1 h.linked.chain
  unfold Matches
  rw [before, behind]
  constructor
  · cases ys with
    | nil =>
        show s.tail = some e
        rw [h.tail_eq, List.getLast?_concat]
    | cons y rest => exact (List.isChain_cons_cons.1 chain).1.2
  · cases last : xs.getLast? with
    | none =>
        have empty : xs = [] := List.getLast?_eq_none_iff.1 last
        show s.head = some e
        rw [h.linked.head_eq, empty]
        rfl
    | some p => exact (toElement p last e rfl).1

theorem validateLoop_eq {start : Option EmbeddedListElement} (walks : Walks s.next start xs) (enough : xs.length ≤ fuel)
    (agree : ∀ a ∈ xs, s.Matches a) : s.validateLoop debug fuel start = some true := by
  induction xs generalizing start fuel with
  | nil =>
      have done : start = none := walks
      rw [done]
      cases fuel <;> rfl
  | cons a rest ih =>
      obtain ⟨rfl, later⟩ := walks
      cases fuel with
      | zero => exact absurd enough (Nat.not_succ_le_zero _)
      | succ fuel =>
          rw [validateLoop, if_pos (agree a List.mem_cons_self)]
          exact ih later (Nat.le_of_succ_le_succ enough) fun b member => agree b (List.mem_cons_of_mem _ member)

theorem Holds.validate (h : s.Holds xs) (enough : xs.length ≤ elements) : s.validate debug elements = some true := by
  refine validateLoop_eq h.linked.walks enough fun a member => ?_
  obtain ⟨front, rest, rfl⟩ := List.append_of_mem member
  exact h.matches

/-! ### Removal in the list -/

theorem Holds.remove (h : s.Holds (xs ++ e :: ys)) (enough : (xs ++ e :: ys).length ≤ elements) (debug : Bool) :
    s.remove debug elements (some e) = some (s.unlink e) := by
  have head : s.head ≠ none := fun none => by simpa using h.nil_iff.1 none
  have tail : s.tail ≠ none := fun none => by simpa using h.tail_none.1 none
  obtain ⟨forward, backward⟩ := h.matches
  have found : s.foundElement e elements s.head false = some true := by
    rw [foundElement_eq h.linked.walks enough]
    simp
  have first : s.previous e = none → s.head = some e := fun none => by rwa [none] at backward
  have last : s.next e = none → s.tail = some e := fun none => by rwa [none] at forward
  unfold EmbeddedList.remove
  rw [if_neg fun fails => fails.2 ⟨nofun, head, tail⟩]
  dsimp only
  rw [if_neg fun none => none.elim head tail, if_neg fun fails => fails.2 ⟨found, first, last⟩]

/-- In a release build nothing is removed from an empty list, and a null pointer is not followed. -/
theorem remove_nothing {element : Option EmbeddedListElement} (nothing : element = none ∨ s.head = none) :
    s.remove false elements element = some s := by
  unfold EmbeddedList.remove
  rw [if_neg (nofun : ¬ (false = true ∧ _))]
  cases element with
  | none => rfl
  | some e => exact if_pos (.inl (nothing.resolve_left nofun))

theorem Holds.removeFirst (h : s.Holds (e :: xs)) (enough : (e :: xs).length ≤ elements) (debug : Bool) :
    s.removeFirst debug elements = some (some e, s.unlink e) := by
  have head : s.head = some e := h.linked.head_eq
  have whole : s.Holds ([] ++ e :: xs) := h
  unfold EmbeddedList.removeFirst
  rw [head]
  dsimp only
  rw [whole.remove enough]
  rfl

theorem Holds.removeLast (h : s.Holds (xs ++ [e])) (enough : (xs ++ [e]).length ≤ elements) (debug : Bool) :
    s.removeLast debug elements = some (some e, s.unlink e) := by
  have tail : s.tail = some e := h.tail_eq.trans List.getLast?_concat
  unfold EmbeddedList.removeLast
  rw [tail]
  dsimp only
  rw [h.remove enough]
  rfl

/-- What is removed stays without links while the others are. -/
theorem Holds.clearLoop (h : s.Holds xs) (enough : xs.length ≤ elements) (steps : xs.length ≤ fuel)
    (handled : EmbeddedListElement → Bool) (debug : Bool) :
    ∃ s', clearLoop debug elements handled fuel s = some (xs.filter handled, s') ∧ s'.Holds [] ∧
      (∀ a ∈ xs, s'.Loose a) ∧ SameLinks xs s s' := by
  induction xs generalizing s fuel with
  | nil =>
      have head : s.head = none := h.linked.head_eq
      refine ⟨s, ?_, h, nofun, .refl _ s⟩
      unfold EmbeddedList.clearLoop EmbeddedList.removeFirst
      rw [head]
      rfl
  | cons e rest ih =>
      cases fuel with
      | zero => exact absurd steps (Nat.not_succ_le_zero _)
      | succ fuel =>
          have whole : s.Holds ([] ++ e :: rest) := h
          obtain ⟨left, loose, same⟩ := whole.unlink
          obtain ⟨s', done, empty, cleared, others⟩ :=
            ih left (Nat.le_of_succ_le enough) (Nat.le_of_succ_le_succ steps)
          have outside : e ∉ rest := (List.nodup_cons.1 h.linked.nodup).1
          refine ⟨s', ?_, empty, ?_, ?_⟩
          · unfold EmbeddedList.clearLoop
            rw [h.removeFirst enough]
            dsimp only
            rw [done, List.filter_cons]
            rfl
          · intro a member
            rcases List.mem_cons.1 member with rfl | later
            · exact ⟨(others a outside).1.trans loose.1, (others a outside).2.trans loose.2⟩
            · exact cleared a later
          · exact same.trans (others.mono (List.subset_cons_self e rest))

end

end EmbeddedList

/-! ## Several lists -/

/-- The elements made so far, their links, and the heads and tails of the lists. -/
structure EmbeddedLists (ι : Type) where
  elements : Nat := 0
  next : EmbeddedListElement → Option EmbeddedListElement := fun _ => none
  previous : EmbeddedListElement → Option EmbeddedListElement := fun _ => none
  ends : ι → Option EmbeddedListElement × Option EmbeddedListElement := fun _ => (none, none)

inductive EmbeddedListCall (ι : Type) where
  /-- An element is constructed. -/
  | element
  | addFirst (l : ι) (element : Option EmbeddedListElement)
  | addLast (l : ι) (element : Option EmbeddedListElement)
  | remove (l : ι) (element : Option EmbeddedListElement)
  | removeFirst (l : ι)
  | removeLast (l : ι)
  | clear (l : ι)
  | isEmpty (l : ι)
  | first (l : ι)
  | last (l : ι)
  | size (l : ι)
  | index (l : ι) (idx : Int)
  | validate (l : ι)

inductive EmbeddedListAnswer where
  | done
  | element (e : Option EmbeddedListElement)
  | destroyed (es : List EmbeddedListElement)
  | flag (b : Bool)
  | number (n : Int)
  deriving DecidableEq

/-- What the lists are for. -/
structure Sequences (ι : Type) where
  made : Nat := 0
  lists : ι → List EmbeddedListElement := fun _ => []

variable {ι : Type} [DecidableEq ι]

namespace Sequences

def set (t : Sequences ι) (l : ι) (xs : List EmbeddedListElement) : Sequences ι :=
  { t with lists := Function.update t.lists l xs }

theorem set_eq {t : Sequences ι} {l : ι} {xs : List EmbeddedListElement} (same : t.lists l = xs) : t.set l xs = t := by
  unfold set
  rw [← same, Function.update_eq_self]

/-- The answer to a call, and the sequences after it; `handled` elements have a cleanup handler. -/
def serve (handled : EmbeddedListElement → Bool) (t : Sequences ι) :
    EmbeddedListCall ι → EmbeddedListAnswer × Sequences ι
  | .element => (.element t.made, { t with made := t.made + 1 })
  | .addFirst l (some e) => (.done, t.set l (e :: t.lists l))
  | .addLast l (some e) => (.done, t.set l (t.lists l ++ [e]))
  | .remove l (some e) => (.done, t.set l ((t.lists l).erase e))
  | .addFirst _ none | .addLast _ none | .remove _ none => (.done, t)
  | .removeFirst l => (.element (t.lists l).head?, t.set l (t.lists l).tail)
  | .removeLast l => (.element (t.lists l).getLast?, t.set l (t.lists l).dropLast)
  | .clear l => (.destroyed ((t.lists l).filter handled), t.set l [])
  | .isEmpty l => (.flag (t.lists l).isEmpty, t)
  | .first l => (.element (t.lists l).head?, t)
  | .last l => (.element (t.lists l).getLast?, t)
  | .size l => (.number (t.lists l).length, t)
  | .index l idx => (.element (if 0 ≤ idx then (t.lists l)[idx.toNat]? else none), t)
  | .validate _ => (.flag true, t)

end Sequences

namespace EmbeddedLists

/-- One list, with the links of all elements. -/
def view (s : EmbeddedLists ι) (l : ι) : EmbeddedList := ⟨(s.ends l).1, (s.ends l).2, s.next, s.previous⟩

def put (s : EmbeddedLists ι) (l : ι) (v : EmbeddedList) : EmbeddedLists ι :=
  { s with next := v.next, previous := v.previous, ends := Function.update s.ends l (v.head, v.tail) }

/-- `EmbeddedListElement::EmbeddedListElement`. -/
def construct (s : EmbeddedLists ι) : EmbeddedLists ι :=
  { s with
    elements := s.elements + 1
    next := Function.update s.next s.elements none
    previous := Function.update s.previous s.elements none }

/-- The elements that a walk from the head visits. -/
def nodes (s : EmbeddedLists ι) (l : ι) : List EmbeddedListElement :=
  DoublyLinked.walk s.next s.elements (s.ends l).1

def perform (debug : Bool) (handled : EmbeddedListElement → Bool) (s : EmbeddedLists ι) :
    EmbeddedListCall ι → Option (EmbeddedListAnswer × EmbeddedLists ι)
  | .element => some (.element s.elements, s.construct)
  | .addFirst l element => ((s.view l).addFirst debug element).map fun v => (.done, s.put l v)
  | .addLast l element => ((s.view l).addLast debug element).map fun v => (.done, s.put l v)
  | .remove l element => ((s.view l).remove debug s.elements element).map fun v => (.done, s.put l v)
  | .removeFirst l => ((s.view l).removeFirst debug s.elements).map fun (e, v) => (.element e, s.put l v)
  | .removeLast l => ((s.view l).removeLast debug s.elements).map fun (e, v) => (.element e, s.put l v)
  | .clear l => ((s.view l).clear debug s.elements handled).map fun (es, v) => (.destroyed es, s.put l v)
  | .isEmpty l => some (.flag (s.view l).isEmpty, s)
  | .first l => some (.element (s.view l).head, s)
  | .last l => some (.element (s.view l).tail, s)
  | .size l => ((s.view l).size s.elements).map fun n => (.number n, s)
  | .index l idx => ((s.view l).index s.elements idx).map fun e => (.element e, s)
  | .validate l => ((s.view l).validate debug s.elements).map fun b => (.flag b, s)

/-- Each list is well formed and has the elements of its sequence, no element is in two lists, and one that
is in none has no links. -/
structure Agrees (s : EmbeddedLists ι) (t : Sequences ι) : Prop where
  holds : ∀ l, (s.view l).Holds (t.lists l)
  apart : ∀ {l m e}, e ∈ t.lists l → e ∈ t.lists m → l = m
  loose : ∀ {e}, (∀ l, e ∉ t.lists l) → s.next e = none ∧ s.previous e = none
  made_lt : ∀ {l e}, e ∈ t.lists l → e < s.elements
  made_eq : t.made = s.elements

/-- An element that is added is in no list, and one that is removed is in the list; in a release build
nothing is removed from an empty list, nor is a null pointer.  An index is an `int`. -/
def Legal (debug : Bool) (s : EmbeddedLists ι) : EmbeddedListCall ι → Prop
  | .addFirst _ (some e) | .addLast _ (some e) => e < s.elements ∧ ∀ l, e ∉ s.nodes l
  | .addFirst _ none | .addLast _ none => False
  | .remove l (some e) => e ∈ s.nodes l ∨ debug = false ∧ s.nodes l = []
  | .remove _ none => debug = false
  | .index _ idx => -2 ^ 31 ≤ idx ∧ idx < 2 ^ 31
  | _ => True

instance [Fintype ι] (debug : Bool) (s : EmbeddedLists ι) : (call : EmbeddedListCall ι) → Decidable (Legal debug s call)
  | .addFirst _ (some e) | .addLast _ (some e) => inferInstanceAs (Decidable (e < s.elements ∧ ∀ l, e ∉ s.nodes l))
  | .remove l (some e) => inferInstanceAs (Decidable (e ∈ s.nodes l ∨ debug = false ∧ s.nodes l = []))
  | .remove _ none => inferInstanceAs (Decidable (debug = false))
  | .index _ idx => inferInstanceAs (Decidable (-2 ^ 31 ≤ idx ∧ idx < 2 ^ 31))
  | .addFirst _ none | .addLast _ none => isFalse id
  | .element | .removeFirst _ | .removeLast _ | .clear _ | .isEmpty _ | .first _ | .last _ | .size _ | .validate _ =>
      isTrue trivial

/-- What is counted has fewer than `2 ^ 31` elements, and a search for a negative index ends before the
counter shows it. -/
def Fits (s : EmbeddedLists ι) : EmbeddedListCall ι → Prop
  | .size l => (s.nodes l).length < 2 ^ 31
  | .index l idx => 0 ≤ idx ∨ (s.nodes l).length ≤ idx + 2 ^ 32
  | _ => True

instance (s : EmbeddedLists ι) : (call : EmbeddedListCall ι) → Decidable (Fits s call)
  | .size l => inferInstanceAs (Decidable ((s.nodes l).length < 2 ^ 31))
  | .index l idx => inferInstanceAs (Decidable (0 ≤ idx ∨ (s.nodes l).length ≤ idx + 2 ^ 32))
  | .addFirst _ _ | .addLast _ _ | .remove _ _ | .element | .removeFirst _ | .removeLast _ | .clear _ | .isEmpty _
  | .first _ | .last _ | .validate _ => isTrue trivial

variable {s : EmbeddedLists ι} {t : Sequences ι} {l : ι} {v : EmbeddedList} {ys zs : List EmbeddedListElement}
  {e : EmbeddedListElement}

section

omit [DecidableEq ι]

theorem agrees_empty : ({} : EmbeddedLists ι).Agrees {} :=
  ⟨fun _ => ⟨.nil .., rfl⟩, nofun, fun _ => ⟨rfl, rfl⟩, nofun, rfl⟩

theorem Agrees.enough (h : s.Agrees t) (l : ι) : (t.lists l).length ≤ s.elements := by
  have sub : t.lists l ⊆ List.range s.elements := fun e member => List.mem_range.2 (h.made_lt member)
  have le := (List.subperm_of_subset (h.holds l).linked.nodup sub).length_le
  rwa [List.length_range] at le

theorem Agrees.nodes_eq (h : s.Agrees t) (l : ι) : s.nodes l = t.lists l :=
  (h.holds l).linked.walks.walk_eq (h.enough l)

theorem Agrees.notMem (h : s.Agrees t) (legal : ∀ l, e ∉ s.nodes l) (l : ι) : e ∉ t.lists l := by
  rw [← h.nodes_eq l]
  exact legal l

/-- An element that is constructed is in no list. -/
theorem Agrees.construct (h : s.Agrees t) : s.construct.Agrees { t with made := t.made + 1 } := by
  have old : ∀ {l a}, a ∈ t.lists l → a ≠ s.elements := fun member => Nat.ne_of_lt (h.made_lt member)
  refine ⟨fun l => ?_, h.apart, fun {a} outside => ?_, fun member => Nat.lt_succ_of_lt (h.made_lt member),
    congrArg (· + 1) h.made_eq⟩
  · exact ⟨(h.holds l).linked.congr (fun a member => Function.update_of_ne (old member) ..)
      fun a member => Function.update_of_ne (old member) .., (h.holds l).tail_eq⟩
  · by_cases new : a = s.elements
    · rw [new]
      exact ⟨Function.update_self .., Function.update_self ..⟩
    · have loose := h.loose outside
      exact ⟨(Function.update_of_ne new ..).trans loose.1, (Function.update_of_ne new ..).trans loose.2⟩

end

/-- A list is changed, and no links but those of its elements and of new ones. -/
theorem Agrees.put (h : s.Agrees t) (holds : v.Holds ys) (same : EmbeddedList.SameLinks zs (s.view l) v)
    (fresh : ∀ a ∈ ys, a ∉ t.lists l → (∀ m, a ∉ t.lists m) ∧ a < s.elements)
    (within : ∀ a ∈ zs, a ∈ ys ∨ a ∈ t.lists l) (gone : ∀ a ∈ t.lists l, a ∉ ys → v.Loose a) :
    (s.put l v).Agrees (t.set l ys) := by
  have others : ∀ {m a}, m ≠ l → a ∈ t.lists m → a ∉ ys ∧ a ∉ t.lists l := by
    intro m a other member
    have outside : a ∉ t.lists l := fun here => other (h.apart member here)
    exact ⟨fun here => (fresh a here outside).1 m member, outside⟩
  have mine : (t.set l ys).lists l = ys := Function.update_self ..
  have theirs : ∀ {m}, m ≠ l → (t.set l ys).lists m = t.lists m := fun other => Function.update_of_ne other ..
  refine ⟨fun m => ?_, fun {m n a} first second => ?_, fun {a} outside => ?_, fun {m a} member => ?_, h.made_eq⟩
  · by_cases here : m = l
    · subst here
      have view : (s.put m v).view m = v := by
        unfold EmbeddedLists.view EmbeddedLists.put
        dsimp only
        rw [Function.update_self]
      rw [mine, view]
      exact holds
    · have ends : (s.put l v).ends m = s.ends m := Function.update_of_ne here ..
      have links : ∀ a ∈ t.lists m, v.next a = s.next a ∧ v.previous a = s.previous a := by
        intro a member
        obtain ⟨notNew, notOld⟩ := others here member
        exact same a fun changed => (within a changed).elim notNew notOld
      have old := h.holds m
      rw [theirs here]
      unfold EmbeddedLists.view
      rw [ends]
      exact ⟨old.linked.congr (fun a member => (links a member).1) fun a member => (links a member).2, old.tail_eq⟩
  · by_cases here : m = l
    · by_cases there : n = l
      · exact here.trans there.symm
      · rw [here, mine] at first
        rw [theirs there] at second
        exact absurd first (others there second).1
    · rw [theirs here] at first
      by_cases there : n = l
      · rw [there, mine] at second
        exact absurd second (others here first).1
      · rw [theirs there] at second
        exact h.apart first second
  · have notNew : a ∉ ys := by
      have here := outside l
      rwa [mine] at here
    by_cases old : a ∈ t.lists l
    · exact gone a old notNew
    · have nowhere : ∀ m, a ∉ t.lists m := by
        intro m
        by_cases here : m = l
        · rw [here]
          exact old
        · have there := outside m
          rwa [theirs here] at there
      have links := same a fun changed => (within a changed).elim notNew old
      have loose := h.loose nowhere
      exact ⟨links.1.trans loose.1, links.2.trans loose.2⟩
  · by_cases here : m = l
    · rw [here, mine] at member
      by_cases old : a ∈ t.lists l
      · exact h.made_lt old
      · exact (fresh a member old).2
    · rw [theirs here] at member
      exact h.made_lt member

/-! ### Calls -/

variable {debug : Bool} {handled : EmbeddedListElement → Bool} {call : EmbeddedListCall ι}

/-- What an element that is not in any list may be, in a list that is changed. -/
theorem Agrees.added (h : s.Agrees t) (made : e < s.elements) (outside : ∀ l, e ∉ t.lists l)
    (holds : v.Holds ys) (same : EmbeddedList.SameLinks (e :: t.lists l) (s.view l) v)
    (members : ∀ a, a ∈ ys ↔ a = e ∨ a ∈ t.lists l) : (s.put l v).Agrees (t.set l ys) := by
  refine h.put holds same (fun a new old => ?_) (fun a changed => ?_) fun a old lost => ?_
  · rcases (members a).1 new with rfl | here
    · exact ⟨outside, made⟩
    · exact absurd here old
  · exact .inl ((members a).2 (List.mem_cons.1 changed))
  · exact absurd ((members a).2 (.inr old)) lost

theorem Agrees.addFirst (h : s.Agrees t) (made : e < s.elements) (outside : ∀ l, e ∉ t.lists l) (l : ι) :
    ∃ v, (s.view l).addFirst debug (some e) = some v ∧ (s.put l v).Agrees (t.set l (e :: t.lists l)) := by
  obtain ⟨v, done, holds, same⟩ := (h.holds l).addFirst (outside l) (h.loose outside) debug
  exact ⟨v, done, h.added made outside holds same fun a => List.mem_cons⟩

theorem Agrees.addLast (h : s.Agrees t) (made : e < s.elements) (outside : ∀ l, e ∉ t.lists l) (l : ι) :
    ∃ v, (s.view l).addLast debug (some e) = some v ∧ (s.put l v).Agrees (t.set l (t.lists l ++ [e])) := by
  obtain ⟨v, done, holds, same⟩ := (h.holds l).addLast (outside l) (h.loose outside) debug
  refine ⟨v, done, h.added made outside holds same fun a => ?_⟩
  rw [List.mem_append, List.mem_singleton, Or.comm]

/-- An element is taken out of its list, and has no links then. -/
theorem Agrees.unlink (h : s.Agrees t) {xs : List EmbeddedListElement} (list : t.lists l = xs ++ e :: ys) :
    (s.put l ((s.view l).unlink e)).Agrees (t.set l (xs ++ ys)) := by
  have whole := h.holds l
  rw [list] at whole
  obtain ⟨holds, loose, same⟩ := whole.unlink
  rw [← list] at same
  refine h.put holds same (fun a new old => ?_) (fun a changed => .inr changed) fun a old lost => ?_
  · refine absurd ?_ old
    rw [list]
    rcases List.mem_append.1 new with front | rest
    · exact List.mem_append_left _ front
    · exact List.mem_append_right _ (List.mem_cons_of_mem _ rest)
  · rw [list] at old
    have isElement : a = e := by
      rcases List.mem_append.1 old with front | rest
      · exact absurd (List.mem_append_left _ front) lost
      · exact (List.mem_cons.1 rest).resolve_right fun behind => lost (List.mem_append_right _ behind)
    rw [isElement]
    exact loose

theorem Agrees.remove (h : s.Agrees t) (member : e ∈ t.lists l) :
    (s.view l).remove debug s.elements (some e) = some ((s.view l).unlink e) ∧
      (s.put l ((s.view l).unlink e)).Agrees (t.set l ((t.lists l).erase e)) := by
  have whole := h.holds l
  have enough := h.enough l
  obtain ⟨xs, ys, list⟩ := List.append_of_mem member
  have notFront : e ∉ xs := by
    have nodup := whole.linked.nodup
    rw [list] at nodup
    exact fun front => (List.nodup_append.1 nodup).2.2 e front e List.mem_cons_self rfl
  have erased : (t.lists l).erase e = xs ++ ys := by
    rw [list, List.erase_append_right _ notFront, List.erase_cons_head]
  rw [list] at whole enough
  rw [erased]
  exact ⟨whole.remove enough debug, h.unlink list⟩

/-- A list that is left as it is. -/
theorem Agrees.put_view (h : s.Agrees t) (l : ι) : (s.put l (s.view l)).Agrees t := by
  have ends : Function.update s.ends l ((s.ends l).1, (s.ends l).2) = s.ends := Function.update_eq_self ..
  unfold EmbeddedLists.put EmbeddedLists.view
  dsimp only
  rw [ends]
  exact h

theorem Agrees.removeFirst (h : s.Agrees t) (l : ι) :
    ∃ v, (s.view l).removeFirst debug s.elements = some ((t.lists l).head?, v) ∧
      (s.put l v).Agrees (t.set l (t.lists l).tail) := by
  have whole := h.holds l
  have enough := h.enough l
  cases list : t.lists l with
  | nil =>
      have head : (s.view l).head = none := whole.nil_iff.2 list
      unfold EmbeddedList.removeFirst
      rw [head]
      refine ⟨s.view l, rfl, ?_⟩
      rw [List.tail_nil, Sequences.set_eq list]
      exact h.put_view l
  | cons e rest =>
      have split : t.lists l = [] ++ e :: rest := list
      rw [list] at whole enough
      exact ⟨_, whole.removeFirst enough debug, h.unlink split⟩

theorem Agrees.removeLast (h : s.Agrees t) (l : ι) :
    ∃ v, (s.view l).removeLast debug s.elements = some ((t.lists l).getLast?, v) ∧
      (s.put l v).Agrees (t.set l (t.lists l).dropLast) := by
  have whole := h.holds l
  have enough := h.enough l
  rcases List.eq_nil_or_concat' (t.lists l) with list | ⟨rest, e, list⟩
  · have tail : (s.view l).tail = none := whole.tail_none.2 list
    unfold EmbeddedList.removeLast
    rw [tail]
    refine ⟨s.view l, by rw [list]; rfl, ?_⟩
    rw [Sequences.set_eq (by rw [list]; rfl)]
    exact h.put_view l
  · rw [list] at whole enough
    have left := h.unlink list
    rw [List.append_nil] at left
    rw [list, List.getLast?_concat, List.dropLast_concat]
    exact ⟨_, whole.removeLast enough debug, left⟩

theorem Agrees.clear (h : s.Agrees t) (l : ι) :
    ∃ v, (s.view l).clear debug s.elements handled = some ((t.lists l).filter handled, v) ∧
      (s.put l v).Agrees (t.set l []) := by
  obtain ⟨v, done, empty, loose, same⟩ := (h.holds l).clearLoop (h.enough l) (h.enough l) handled debug
  exact ⟨v, done, h.put empty same nofun (fun a member => .inr member) fun a member _ => loose a member⟩

theorem Agrees.answers (h : s.Agrees t) (legal : Legal debug s call) (fits : Fits s call) :
    ∃ answer s' t', perform debug handled s call = some (answer, s') ∧ s'.Agrees t' ∧
      Sequences.serve handled t call = (answer, t') := by
  cases call with
  | element =>
      refine ⟨_, _, _, rfl, h.construct, ?_⟩
      rw [← h.made_eq]
      rfl
  | addFirst l element =>
      cases element with
      | none => exact legal.elim
      | some e =>
          obtain ⟨v, done, agrees⟩ := h.addFirst legal.1 (h.notMem legal.2) l
          exact ⟨_, _, _, congrArg (Option.map _) done, agrees, rfl⟩
  | addLast l element =>
      cases element with
      | none => exact legal.elim
      | some e =>
          obtain ⟨v, done, agrees⟩ := h.addLast legal.1 (h.notMem legal.2) l
          exact ⟨_, _, _, congrArg (Option.map _) done, agrees, rfl⟩
  | remove l element =>
      cases element with
      | none =>
          have release : debug = false := legal
          subst release
          have nothing : (s.view l).remove false s.elements none = some (s.view l) := EmbeddedList.remove_nothing (.inl rfl)
          refine ⟨.done, s.put l (s.view l), t, ?_, h.put_view l, rfl⟩
          unfold EmbeddedLists.perform
          dsimp only
          rw [nothing]
          rfl
      | some e =>
          rcases legal with member | ⟨release, empty⟩
          · rw [h.nodes_eq l] at member
            obtain ⟨done, agrees⟩ := h.remove member
            exact ⟨_, _, _, congrArg (Option.map _) done, agrees, rfl⟩
          · subst release
            rw [h.nodes_eq l] at empty
            have head : (s.view l).head = none := (h.holds l).nil_iff.2 empty
            have nothing : (s.view l).remove false s.elements (some e) = some (s.view l) :=
              EmbeddedList.remove_nothing (.inr head)
            have same : t.set l ((t.lists l).erase e) = t := by
              rw [empty, List.erase_nil]
              exact Sequences.set_eq empty
            exact ⟨_, _, t, congrArg (Option.map _) nothing, h.put_view l, congrArg (Prod.mk _) same⟩
  | removeFirst l =>
      obtain ⟨v, done, agrees⟩ := h.removeFirst l
      exact ⟨_, _, _, congrArg (Option.map _) done, agrees, rfl⟩
  | removeLast l =>
      obtain ⟨v, done, agrees⟩ := h.removeLast l
      exact ⟨_, _, _, congrArg (Option.map _) done, agrees, rfl⟩
  | clear l =>
      obtain ⟨v, done, agrees⟩ := h.clear l
      exact ⟨_, _, _, congrArg (Option.map _) done, agrees, rfl⟩
  | isEmpty l =>
      exact ⟨_, s, t, congrArg (fun b => some (EmbeddedListAnswer.flag b, s)) (h.holds l).isEmpty, h, rfl⟩
  | first l =>
      exact ⟨_, s, t, congrArg (fun e => some (EmbeddedListAnswer.element e, s)) (h.holds l).linked.head_eq, h, rfl⟩
  | last l =>
      exact ⟨_, s, t, congrArg (fun e => some (EmbeddedListAnswer.element e, s)) (h.holds l).tail_eq, h, rfl⟩
  | size l =>
      have few : (s.nodes l).length < 2 ^ 31 := fits
      have counted := (h.holds l).size (h.enough l)
      rw [h.nodes_eq l] at few
      rw [EmbeddedList.shown_iff.2 few] at counted
      exact ⟨_, s, t, congrArg (Option.map _) counted, h, rfl⟩
  | index l idx =>
      have inside : 0 ≤ idx ∨ (s.nodes l).length ≤ idx + 2 ^ 32 := fits
      have searched := (h.holds l).index (h.enough l) legal.1 legal.2
      rw [h.nodes_eq l] at inside
      rw [(EmbeddedList.searched_iff legal.1 legal.2).2 inside] at searched
      exact ⟨_, s, t, congrArg (Option.map _) searched, h, rfl⟩
  | validate l =>
      exact ⟨_, s, t, congrArg (Option.map _) ((h.holds l).validate (h.enough l)), h, rfl⟩

theorem Agrees.fits_iff (h : s.Agrees t) (legal : Legal debug s call) :
    Fits s call ↔ ∃ answer s' t', perform debug handled s call = some (answer, s') ∧ s'.Agrees t' ∧
      Sequences.serve handled t call = (answer, t') := by
  refine ⟨h.answers legal, ?_⟩
  rintro ⟨answer, s', t', performed, -, served⟩
  cases call with
  | size l =>
      have counted := congrArg (Option.map fun n => (EmbeddedListAnswer.number n, s)) ((h.holds l).size (h.enough l))
      have same := congrArg Prod.fst (Option.some.inj (counted.symm.trans performed))
      have shown := EmbeddedListAnswer.number.inj (same.trans (congrArg Prod.fst served).symm)
      change (s.nodes l).length < 2 ^ 31
      rw [h.nodes_eq l]
      exact EmbeddedList.shown_iff.1 shown
  | index l idx =>
      have searched := congrArg (Option.map fun e => (EmbeddedListAnswer.element e, s))
        ((h.holds l).index (h.enough l) legal.1 legal.2)
      have same := congrArg Prod.fst (Option.some.inj (searched.symm.trans performed))
      have found := EmbeddedListAnswer.element.inj (same.trans (congrArg Prod.fst served).symm)
      change 0 ≤ idx ∨ (s.nodes l).length ≤ idx + 2 ^ 32
      rw [h.nodes_eq l]
      exact (EmbeddedList.searched_iff legal.1 legal.2).1 found
  | _ => trivial

/-- **Embedded lists**: after each call of a sequence every list is linked as its sequence says, no element
outside has links, and the call answers for the sequence, if and only if no count of elements overflows. -/
theorem embeddedLists_serve_iff (h : s.Agrees t) {calls : List (EmbeddedListCall ι)}
    (legal : AllFit (perform debug handled) (Legal debug) s calls) :
    ServesEach (perform debug handled) (fun t call answer t' => Sequences.serve handled t call = (answer, t')) Agrees
      s t calls ↔ AllFit (perform debug handled) Fits s calls :=
  servesEach_iff (fun agrees legal => agrees.fits_iff legal) h legal

/-- Two lists; an element is moved from one to the other and back. -/
theorem embeddedLists_serve_two :
    ServesEach (perform true (· = 2)) (fun t call answer t' => Sequences.serve (· = 2) t call = (answer, t')) Agrees
      ({} : EmbeddedLists Bool) {}
      [.element, .element, .element, .addLast false (some 0), .addFirst false (some 1), .addLast false (some 2),
        .remove false (some 0), .addLast true (some 0), .validate false, .index false 1, .removeLast true,
        .addFirst false (some 0), .size false, .clear false, .addFirst true (some 1), .last true] :=
  (embeddedLists_serve_iff agrees_empty (by decide)).mpr (by decide)

/-- Elements are constructed, from `e` on, and added to a list. -/
def lengthen (l : ι) : EmbeddedListElement → Nat → List (EmbeddedListCall ι)
  | _, 0 => []
  | e, n + 1 => .element :: .addLast l (some e) :: lengthen l (e + 1) n

theorem Agrees.lengthen (h : s.Agrees t) (l : ι) (n : Nat) :
    ∃ answers s' t', serveAll (perform debug handled) s (lengthen l s.elements n) = some (answers, s') ∧ s'.Agrees t' ∧
      t'.lists l = t.lists l ++ List.range' s.elements n ∧
      AllFit (perform debug handled) (Legal debug) s (EmbeddedLists.lengthen l s.elements n) := by
  induction n generalizing s t with
  | zero => exact ⟨[], s, t, rfl, h, (List.append_nil _).symm, trivial⟩
  | succ n ih =>
      have outside : ∀ m, s.elements ∉ t.lists m := fun m member => Nat.lt_irrefl _ (h.made_lt member)
      have made := h.construct
      obtain ⟨v, done, added⟩ := made.addLast (Nat.lt_succ_self _) outside l
      obtain ⟨answers, s', t', served, agrees, list, legal⟩ := ih added
      have performed : perform debug handled s.construct (.addLast l (some s.elements)) = some (.done, s.construct.put l v) :=
        congrArg (Option.map _) done
      have allowed : Legal debug s.construct (.addLast l (some s.elements)) := by
        refine ⟨Nat.lt_succ_self _, fun m => ?_⟩
        rw [made.nodes_eq m]
        exact outside m
      refine ⟨.element s.elements :: .done :: answers, s', t', serveAll_cons rfl (serveAll_cons performed served), agrees, ?_,
        .cons trivial rfl (.cons allowed performed legal)⟩
      have mine : (Sequences.set { t with made := t.made + 1 } l (t.lists l ++ [s.elements])).lists l =
          t.lists l ++ [s.elements] := Function.update_self ..
      rw [list, mine, List.range'_succ, List.append_cons _ _ (List.range' (s.elements + 1) n)]
      rfl

/-- After `2 ^ 31` insertions the list is as it should be, and shows a negative size. -/
theorem long_list_miscounted :
    ∃ answers, ∃ s : EmbeddedLists Unit, ∃ t : Sequences Unit,
      AllFit (perform true fun _ => false) (Legal true) {} (lengthen () 0 (2 ^ 31)) ∧
      serveAll (perform true fun _ => false) {} (lengthen () 0 (2 ^ 31)) = some (answers, s) ∧
      s.Agrees t ∧ (t.lists ()).length = 2 ^ 31 ∧
      perform true (fun _ => false) s (.size ()) = some (.number (-2 ^ 31), s) := by
  obtain ⟨answers, s, t, served, agrees, list, legal⟩ := agrees_empty.lengthen () (2 ^ 31)
  have long : (t.lists ()).length = 2 ^ 31 := by
    rw [list, List.length_append, List.length_range']
    rfl
  have counted := (agrees.holds ()).size (agrees.enough ())
  have shown : ((2 ^ 31 : Nat) : Int).bmod (2 ^ 32) = -2 ^ 31 := by
    rw [Int.bmod_def]
    split <;> omega
  rw [long, shown] at counted
  exact ⟨answers, s, t, legal, served, agrees, long, congrArg (Option.map _) counted⟩

end EmbeddedLists

end Everscale
