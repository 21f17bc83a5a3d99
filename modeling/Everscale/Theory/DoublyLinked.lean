/-
# Theory.DoublyLinked -- doubly linked lists in a heap

A heap gives every node a next and a previous node, or none.  `DoublyLinked` says that the
nodes from a head on are a given list; pushing in front of the head (`push`) and taking a
node out anywhere (`remove`) are stated on how the links change, whatever a heap is made of.
-/
import Mathlib.Data.List.Chain
import Mathlib.Data.List.Nodup

namespace Everscale.Theory

set_option autoImplicit false

variable {α : Type}

/-- From `head` on, `next` goes through the list `xs` and `prev` goes back. -/
structure DoublyLinked (next prev : α → Option α) (head : Option α) (xs : List α) : Prop where
  chain : xs.IsChain fun a b => next a = some b ∧ prev b = some a
  head_eq : head = xs.head?
  first : ∀ a ∈ xs.head?, prev a = none
  last : ∀ a ∈ xs.getLast?, next a = none
  nodup : xs.Nodup

namespace DoublyLinked

variable {next prev next' prev' : α → Option α} {head : Option α} {xs : List α}

theorem nil (next prev : α → Option α) : DoublyLinked next prev none [] :=
  ⟨.nil, rfl, by simp, by simp, .nil⟩

theorem single {e : α} (last : next e = none) (first : prev e = none) :
    DoublyLinked next prev (some e) [e] :=
  ⟨.singleton e, rfl, by simpa using first, by simpa using last, by simp⟩

/-- Links outside the list do not matter. -/
theorem congr (h : DoublyLinked next prev head xs) (sameNext : ∀ a ∈ xs, next' a = next a)
    (samePrev : ∀ a ∈ xs, prev' a = prev a) : DoublyLinked next' prev' head xs where
  chain := h.chain.imp_of_mem_imp fun a b aMember bMember linked =>
    ⟨(sameNext a aMember).trans linked.1, (samePrev b bMember).trans linked.2⟩
  head_eq := h.head_eq
  first a isHead := (samePrev a (List.mem_of_mem_head? isHead)).trans (h.first a isHead)
  last a isLast := (sameNext a (List.mem_of_mem_getLast? isLast)).trans (h.last a isLast)
  nodup := h.nodup

/-- A node that is not in the list becomes its head. -/
theorem push (h : DoublyLinked next prev head xs) {e : α} (new : e ∉ xs) (nextNew : next' e = head)
    (prevNew : prev' e = none) (prevHead : ∀ a ∈ head, prev' a = some e)
    (sameNext : ∀ a ∈ xs, next' a = next a) (samePrev : ∀ a ∈ xs, a ∉ head → prev' a = prev a) :
    DoublyLinked next' prev' (some e) (e :: xs) := by
  cases xs with
  | nil =>
      have empty : head = none := h.head_eq
      exact single (nextNew.trans empty) prevNew
  | cons x rest =>
      have isHead : head = some x := h.head_eq
      have nodup := List.nodup_cons.1 h.nodup
      have notHead : ∀ a ∈ rest, a ∉ head := by
        rintro a member same
        rw [isHead] at same
        cases same
        exact nodup.1 member
      refine ⟨?_, rfl, by simpa using prevNew, fun a isLast => ?_, List.nodup_cons.2 ⟨new, h.nodup⟩⟩
      · refine .cons_cons ⟨nextNew.trans isHead, prevHead x isHead⟩ ?_
        have chain := List.isChain_cons.1 h.chain
        refine List.isChain_cons.2 ⟨fun b isNext => ?_, chain.2.imp_of_mem_imp fun a b aMember bMember linked => ?_⟩
        · have linked := chain.1 b isNext
          have member := List.mem_of_mem_head? isNext
          exact ⟨(sameNext x (by simp)).trans linked.1,
            (samePrev b (.tail _ member) (notHead b member)).trans linked.2⟩
        · exact ⟨(sameNext a (.tail _ aMember)).trans linked.1,
            (samePrev b (.tail _ bMember) (notHead b bMember)).trans linked.2⟩
      · have isLast : a ∈ (x :: rest).getLast? := by simpa using isLast
        exact (sameNext a (List.mem_of_mem_getLast? isLast)).trans (h.last a isLast)

/-- A node of the list is linked to what stands before and behind it. -/
theorem neighbours {as bs : List α} {e : α} (h : DoublyLinked next prev head (as ++ e :: bs)) :
    prev e = as.getLast? ∧ next e = bs.head? := by
  have chain := List.isChain_append.1 h.chain
  constructor
  · cases last : as.getLast? with
    | none =>
        have empty : as = [] := by simpa using last
        subst empty
        exact h.first e (by simp)
    | some p => exact (chain.2.2 p last e (by simp)).2
  · cases bs with
    | nil => exact h.last e (by simp)
    | cons n rest => exact ((List.isChain_cons.1 chain.2.1).1 n (by simp)).1

theorem next_first {bs : List α} {e : α} (h : DoublyLinked next prev head (e :: bs)) : next e = bs.head? := by
  have split : DoublyLinked next prev head ([] ++ e :: bs) := h
  exact split.neighbours.2

/-- A node is taken out: its neighbours are linked to each other, and when it was the head
what stood behind it is the new head. -/
theorem remove {as bs : List α} {e : α} (h : DoublyLinked next prev head (as ++ e :: bs))
    (nextPrev : ∀ p ∈ prev e, next' p = next e) (prevNext : ∀ n ∈ next e, prev' n = prev e)
    (sameNext : ∀ a ∈ as ++ bs, a ∉ prev e → next' a = next a)
    (samePrev : ∀ a ∈ as ++ bs, a ∉ next e → prev' a = prev a) :
    DoublyLinked next' prev' (if prev e = none then next e else head) (as ++ bs) := by
  obtain ⟨before, behind⟩ := h.neighbours
  rw [before] at nextPrev sameNext
  rw [behind] at prevNext samePrev
  have chain := List.isChain_append.1 h.chain
  have chainBs := List.isChain_cons.1 chain.2.1
  have nodup := h.nodup
  have nodupAs : as.Nodup := (List.nodup_append.1 nodup).1
  have nodupBs : bs.Nodup := (List.nodup_cons.1 (List.nodup_append.1 nodup).2.1).2
  have apart : ∀ a ∈ as, a ∉ bs := fun a inAs inBs =>
    (List.nodup_append.1 nodup).2.2 a inAs a (.tail _ inBs) rfl
  -- the last node of `as` is not linked back to within `as`, the first of `bs` not within `bs`
  have notLast : ∀ a b, as.IsInfix as → a ∈ as → b ∈ as → next a = some b → a ∉ as.getLast? := by
    intro a b _ inAs bInAs linked isLast
    have toE := (chain.2.2 a isLast e (by simp)).1
    rw [linked] at toE
    cases toE
    exact (List.nodup_append.1 nodup).2.2 _ bInAs _ (by simp) rfl
  have notFirst : ∀ a b, a ∈ bs → b ∈ bs → prev b = some a → b ∉ bs.head? := by
    intro a b inBs bInBs linked isFirst
    have fromE := (chainBs.1 b isFirst).2
    rw [linked] at fromE
    cases fromE
    exact (List.nodup_cons.1 (List.nodup_append.1 nodup).2.1).1 inBs
  refine ⟨List.isChain_append.2 ⟨?_, ?_, ?_⟩, ?_, ?_, ?_, ?_⟩
  · refine chain.1.imp_of_mem_imp fun a b inAs bInAs linked => ⟨?_, ?_⟩
    · rw [sameNext a (by simp [inAs]) (notLast a b (List.infix_refl _) inAs bInAs linked.1), linked.1]
    · refine (samePrev b (by simp [bInAs]) fun isFirst => ?_).trans linked.2
      exact apart b bInAs (List.mem_of_mem_head? isFirst)
  · refine chainBs.2.imp_of_mem_imp fun a b inBs bInBs linked => ⟨?_, ?_⟩
    · refine (sameNext a (by simp [inBs]) fun isLast => ?_).trans linked.1
      exact apart a (List.mem_of_mem_getLast? isLast) inBs
    · rw [samePrev b (by simp [bInBs]) (notFirst a b inBs bInBs linked.2), linked.2]
  · intro p isLast n isFirst
    exact ⟨(nextPrev p isLast).trans (behind.trans isFirst), (prevNext n isFirst).trans (before.trans isLast)⟩
  · rw [before, behind, h.head_eq]
    cases as with
    | nil => simp
    | cons a rest =>
        have some : (a :: rest).getLast? ≠ none := by simp
        rw [if_neg some]
        simp
  · intro a isFirst
    cases as with
    | nil => exact (prevNext a (by simpa using isFirst)).trans before
    | cons x rest =>
        have same : a = x := by simpa using isFirst.symm
        subst same
        refine (samePrev a (by simp) fun isFirst => ?_).trans (h.first a (by simp))
        exact apart a (by simp) (List.mem_of_mem_head? isFirst)
  · intro a isLast
    cases bs with
    | nil =>
        have isLast : a ∈ as.getLast? := by simpa using isLast
        exact (nextPrev a isLast).trans behind
    | cons n rest =>
        have isLast : a ∈ (n :: rest).getLast? := by simpa using isLast
        have inBs := List.mem_of_mem_getLast? isLast
        refine (sameNext a (List.mem_append_right _ inBs) fun isLast' => ?_).trans (h.last a ?_)
        · exact apart a (List.mem_of_mem_getLast? isLast') inBs
        · simpa using isLast
  · exact List.nodup_append.2 ⟨nodupAs, nodupBs, fun a inAs b inBs same => apart a inAs (same ▸ inBs)⟩

/-- What stands behind some first nodes is a list once its own first node is linked back to none. -/
theorem suffix {as bs : List α} (h : DoublyLinked next prev head (as ++ bs))
    (sameNext : ∀ a ∈ bs, next' a = next a) (samePrev : ∀ a ∈ bs, a ∉ bs.head? → prev' a = prev a)
    (first : ∀ a ∈ bs.head?, prev' a = none) : DoublyLinked next' prev' bs.head? bs := by
  have chain := (List.isChain_append.1 h.chain).2.1
  have apart := (List.nodup_append.1 h.nodup).2.2
  refine ⟨chain.imp_of_mem_imp fun a b inBs bInBs linked => ?_, rfl, first, fun a isLast => ?_,
    (List.nodup_append.1 h.nodup).2.1⟩
  · refine ⟨(sameNext a inBs).trans linked.1, (samePrev b bInBs fun isFirst => ?_).trans linked.2⟩
    -- the first node is linked back to what stands in front, if anything does
    obtain ⟨rest, rfl⟩ : ∃ rest, bs = b :: rest := ⟨bs.tail, (List.cons_head?_tail isFirst).symm⟩
    have back := h.neighbours.1
    rw [linked.2] at back
    exact apart a (List.mem_of_mem_getLast? back.symm) a inBs rfl
  · rw [sameNext a (List.mem_of_mem_getLast? isLast)]
    refine h.last a ?_
    rw [List.getLast?_append, isLast]
    rfl

/-- Read backwards, a list is a list. -/
theorem reverse (h : DoublyLinked next prev head xs) : DoublyLinked prev next xs.getLast? xs.reverse where
  chain := List.isChain_reverse.2 (h.chain.imp fun _ _ linked => linked.symm)
  head_eq := List.head?_reverse.symm
  first a isFirst := h.last a (by rwa [List.head?_reverse] at isFirst)
  last a isLast := h.first a (by rwa [List.getLast?_reverse] at isLast)
  nodup := List.nodup_reverse.2 h.nodup

/-- The nodes that a walk along the links visits. -/
def walk (link : α → Option α) : Nat → Option α → List α
  | n + 1, some a => a :: walk link n (link a)
  | _, _ => []

/-- A walk along the links visits these nodes, and ends. -/
def Walks (link : α → Option α) : Option α → List α → Prop
  | start, [] => start = none
  | start, a :: rest => start = some a ∧ Walks link (link a) rest

theorem walks (h : DoublyLinked next prev head xs) : Walks next head xs := by
  classical
  induction xs generalizing head prev with
  | nil => exact h.head_eq
  | cons a rest ih =>
      have behind : DoublyLinked next (fun b => if b ∈ rest.head? then none else prev b) rest.head? rest := by
        have split : DoublyLinked next prev head ([a] ++ rest) := h
        exact split.suffix (fun _ _ => rfl) (fun b _ other => if_neg other) fun b isFirst => if_pos isFirst
      refine ⟨h.head_eq, ?_⟩
      rw [h.next_first]
      exact ih behind

theorem Walks.walk_eq {link : α → Option α} {start : Option α} (h : Walks link start xs) {n : Nat}
    (enough : xs.length ≤ n) : walk link n start = xs := by
  induction xs generalizing start n with
  | nil =>
      have done : start = none := h
      rw [done]
      cases n <;> rfl
  | cons a rest ih =>
      obtain ⟨rfl, later⟩ := h
      cases n with
      | zero => exact absurd enough (Nat.not_succ_le_zero _)
      | succ n => rw [walk, ih later (Nat.le_of_succ_le_succ enough)]

theorem walk_eq (h : DoublyLinked next prev head xs) : walk next xs.length head = xs := h.walks.walk_eq (Nat.le_refl _)

end DoublyLinked

end Everscale.Theory
