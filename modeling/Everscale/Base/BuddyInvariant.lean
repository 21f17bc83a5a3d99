/-
# Everscale.Base.BuddyInvariant -- the buddy allocator is a buddy system

`Represents` says that an allocator's lists, heads and pool are those of a
`Theory.BuddySystem`.  Every function of the allocator is a sequence of the system's
operations: taking a block off its list, halving it, fusing it with its buddy, putting it
on a list.
-/
import Everscale.Base.BuddyLists
import Everscale.Theory.Dyadic
import Everscale.Theory.DoublyLinked

namespace Everscale

set_option autoImplicit false

open Theory

namespace BuddyAllocator

open AvailListElem

/-! ## Representing a buddy system -/

/-- What a pointer points to; null points to nothing. -/
def pointer (address : Nat) : Option Nat := if address = 0 then none else some address

theorem mem_pointer {address a : Nat} : a ∈ pointer address ↔ address ≠ 0 ∧ a = address := by
  unfold pointer
  split
  · simp_all
  · rename_i some
    simp [some, eq_comm]

def next (s : BuddyAllocator) (elem : Nat) : Option Nat := pointer (peek s.memory elem .linkF)

def prev (s : BuddyAllocator) (elem : Nat) : Option Nat := pointer (peek s.memory elem .linkB)

/-- The addresses of the heads of the blocks. -/
def headsOf (pool : Nat) (blocks : Set Block) : Set Nat := {a | ∃ b ∈ blocks, a = pool + b.start}

/-- Blocks have room for a head, unless there is but one. -/
def Roomy (K : Nat) (blocks : Set Block) : Prop := ∀ b ∈ blocks, 5 ≤ b.order ∨ b.order = K

structure Represents {K : Nat} (s : BuddyAllocator) (system : BuddySystem K) : Prop where
  poolKVal : s.poolKVal = K
  poolSmall : K < ESB_AVAIL_LIST_LENGTH
  poolPresent : s.pool ≠ 0
  poolFits : s.pool + 2 ^ K ≤ 2 ^ 64
  roomy : Roomy K (system.free ∪ system.live)
  lists : ∀ k < ESB_AVAIL_LIST_LENGTH,
    ∃ xs, DoublyLinked s.next s.prev (pointer (s.availList k)) xs ∧
      ∀ a, a ∈ xs ↔ ∃ start, a = s.pool + start ∧ ⟨start, k⟩ ∈ system.free
  kVal : ∀ b ∈ system.free ∪ system.live, peek s.memory (s.pool + b.start) .kVal = b.order
  freeTag : ∀ b ∈ system.free, peek s.memory (s.pool + b.start) .tag = 1
  liveTag : ∀ b ∈ system.live, peek s.memory (s.pool + b.start) .tag = 0

section tilings

variable {K : Nat} {blocks : Set Block}

/-- A block that has its head in front of another's ends before that. -/
theorem ends_before (tiling : Tiling K blocks) {b c : Block} (bMember : b ∈ blocks)
    (cMember : c ∈ blocks) (front : b.start < c.start) : b.start + 2 ^ b.order ≤ c.start := by
  by_contra within
  have same := tiling.disjoint b bMember c cMember c.start ⟨by omega, by omega⟩ c.covers_start
  rw [same] at front
  exact Nat.lt_irrefl _ front

/-- Where two blocks are, each has room for its head. -/
theorem room_of_two (tiling : Tiling K blocks) (roomy : Roomy K blocks) {b c : Block}
    (bMember : b ∈ blocks) (cMember : c ∈ blocks) (front : b.start < c.start) :
    size ≤ 2 ^ b.order := by
  have order : 5 ≤ b.order := by
    rcases roomy b bMember with large | whole
    · exact large
    · have ends := ends_before tiling bMember cMember front
      have inside := tiling.inside c cMember
      have pos := c.pos
      rw [whole] at ends
      omega
  calc size ≤ 2 ^ 5 := by decide
    _ ≤ 2 ^ b.order := Nat.pow_le_pow_right (by decide) order

theorem separate_of_tiling (pool : Nat) (tiling : Tiling K blocks) (roomy : Roomy K blocks) :
    Separate (headsOf pool blocks) := by
  rintro _ ⟨b, bMember, rfl⟩ _ ⟨c, cMember, rfl⟩
  unfold Apart
  rcases Nat.lt_trichotomy b.start c.start with front | same | behind
  · have room := room_of_two tiling roomy bMember cMember front
    have ends := ends_before tiling bMember cMember front
    right; left; omega
  · left; omega
  · have room := room_of_two tiling roomy cMember bMember behind
    have ends := ends_before tiling cMember bMember behind
    right; right; omega

/-- The heads of the blocks are no part of a payload. -/
theorem payload_outside (tiling : Tiling K blocks) (roomy : Roomy K blocks) (pool : Nat) {x : Nat} {c : Block}
    (member : c ∈ blocks) (low : pool + c.start + size ≤ x) (high : x < pool + c.start + 2 ^ c.order) :
    ∀ a ∈ headsOf pool blocks, x < a ∨ a + size ≤ x := by
  rintro _ ⟨d, dMember, rfl⟩
  rcases Nat.lt_trichotomy d.start c.start with front | equal | behind
  · have room := room_of_two tiling roomy dMember member front
    have ends := ends_before tiling dMember member front
    right; omega
  · right; omega
  · have ends := ends_before tiling member dMember behind
    left; omega

end tilings

namespace Represents

variable {K : Nat} {s : BuddyAllocator} {system : BuddySystem K}

/-- The heads of all blocks. -/
abbrev heads (s : BuddyAllocator) (system : BuddySystem K) : Set Nat :=
  headsOf s.pool (system.free ∪ system.live)

theorem mem_heads {k a : Nat} (h : ∃ start, a = s.pool + start ∧ ⟨start, k⟩ ∈ system.free) :
    a ∈ heads s system := by
  obtain ⟨start, rfl, free⟩ := h
  exact ⟨_, .inl free, rfl⟩

/-- A block is on one list only. -/
theorem list_unique {k k' a : Nat} (h : ∃ start, a = s.pool + start ∧ ⟨start, k⟩ ∈ system.free)
    (h' : ∃ start, a = s.pool + start ∧ ⟨start, k'⟩ ∈ system.free) : k = k' := by
  obtain ⟨start, rfl, free⟩ := h
  obtain ⟨start', same, free'⟩ := h'
  have same := system.tiling.start_injective (.inl free) (.inl free') (Nat.add_left_cancel same)
  exact congrArg Block.order same

variable (holds : Represents s system)

include holds

theorem separate : Separate (heads s system) := separate_of_tiling _ system.tiling holds.roomy

theorem address_lt {b : Block} (member : b ∈ system.free ∪ system.live) : s.pool + b.start < 2 ^ 64 := by
  have inside := system.tiling.inside b member
  have pos := b.pos
  have fits := holds.poolFits
  omega

theorem address_ne_zero (b : Block) : s.pool + b.start ≠ 0 := by
  have present := holds.poolPresent
  omega

theorem order_lt {b : Block} (member : b ∈ system.free ∪ system.live) :
    b.order < ESB_AVAIL_LIST_LENGTH :=
  Nat.lt_of_le_of_lt (system.tiling.order_le member) holds.poolSmall

/-- The list of a free block's order, around the block. -/
theorem listed {b : Block} (free : b ∈ system.free) :
    ∃ as bs, DoublyLinked s.next s.prev (pointer (s.availList b.order))
        (as ++ (s.pool + b.start) :: bs) ∧
      ∀ a, a ∈ as ++ (s.pool + b.start) :: bs ↔
        ∃ start, a = s.pool + start ∧ ⟨start, b.order⟩ ∈ system.free := by
  obtain ⟨xs, linked, members⟩ := holds.lists b.order (holds.order_lt (.inl free))
  obtain ⟨as, bs, rfl⟩ := List.append_of_mem ((members _).2 ⟨b.start, rfl, free⟩)
  exact ⟨as, bs, linked, members⟩

theorem neighbours {b : Block} (free : b ∈ system.free) :
    Neighbours (heads s system) (s.pool + b.start) s := by
  obtain ⟨as, bs, linked, members⟩ := holds.listed free
  obtain ⟨before, behind⟩ := linked.neighbours
  have nodup := List.nodup_middle.1 linked.nodup
  have notElem : ∀ a ∈ as ++ bs, a ≠ s.pool + b.start := fun a member same =>
    (List.nodup_cons.1 nodup).1 (same ▸ member)
  have near : ∀ a ∈ as ++ bs, a ∈ heads s system ∧ a ≠ s.pool + b.start := fun a member =>
    ⟨Represents.mem_heads ((members a).1 (by
      rcases List.mem_append.1 member with inAs | inBs
      · exact List.mem_append_left _ inAs
      · exact List.mem_append_right _ (.tail _ inBs))), notElem a member⟩
  refine ⟨holds.separate, ⟨b, .inl free, rfl⟩, fun some => ?_, fun some => ?_⟩
  · have last : peek s.memory (s.pool + b.start) .linkB ∈ as.getLast? :=
      before ▸ mem_pointer.2 ⟨some, rfl⟩
    exact near _ (List.mem_append_left _ (List.mem_of_mem_getLast? last))
  · have first : peek s.memory (s.pool + b.start) .linkF ∈ bs.head? :=
      behind ▸ mem_pointer.2 ⟨some, rfl⟩
    exact near _ (List.mem_append_right _ (List.mem_of_mem_head? first))

/-- The owner of a block may write into its payload. -/
theorem congr {memory : Memory} (same : ∀ a ∈ heads s system, ∀ field,
    peek memory a field = peek s.memory a field) : Represents { s with memory } system := by
  have fields : ∀ b ∈ system.free ∪ system.live, ∀ field,
      peek memory (s.pool + b.start) field = peek s.memory (s.pool + b.start) field :=
    fun b member field => same _ ⟨b, member, rfl⟩ field
  refine { holds with lists := fun k small => ?_, kVal := ?_, freeTag := ?_, liveTag := ?_ }
  · obtain ⟨xs, linked, onList⟩ := holds.lists k small
    refine ⟨xs, linked.congr (fun a member => ?_) (fun a member => ?_), onList⟩
    · exact congrArg pointer (same a (mem_heads ((onList a).1 member)) _)
    · exact congrArg pointer (same a (mem_heads ((onList a).1 member)) _)
  · exact fun b member => (fields b member _).trans (holds.kVal b member)
  · exact fun b free => (fields b (.inl free) _).trans (holds.freeTag b free)
  · exact fun b live => (fields b (.inr live) _).trans (holds.liveTag b live)

end Represents

/-! ## Taking a block -/

namespace Unlists

variable {heads : Set Nat} {elem a : Nat} {s s' : BuddyAllocator} (h : Unlists heads elem s s')

include h

theorem next_eq (head : a ∈ heads) (other : a ≠ elem) (notPrev : a ∉ s.prev elem) :
    s'.next a = s.next a := by
  unfold next
  rw [h.fields a head, if_neg (by simp [other]),
    if_neg fun both => notPrev (mem_pointer.2 ⟨both.1, both.2.1⟩), if_neg (by simp)]

theorem prev_eq (head : a ∈ heads) (other : a ≠ elem) (notNext : a ∉ s.next elem) :
    s'.prev a = s.prev a := by
  unfold prev
  rw [h.fields a head, if_neg (by simp [other]), if_neg (by simp),
    if_neg fun both => notNext (mem_pointer.2 ⟨both.1, both.2.1⟩)]

theorem next_prev (head : a ∈ heads) (other : a ≠ elem) (isPrev : a ∈ s.prev elem) :
    s'.next a = s.next elem := by
  have isPrev := mem_pointer.1 isPrev
  unfold next
  rw [h.fields a head, if_neg (by simp [other]), if_pos ⟨isPrev.1, isPrev.2, rfl⟩]

theorem prev_next (head : a ∈ heads) (other : a ≠ elem) (isNext : a ∈ s.next elem) :
    s'.prev a = s.prev elem := by
  have isNext := mem_pointer.1 isNext
  unfold prev
  rw [h.fields a head, if_neg (by simp [other]), if_neg (by simp), if_pos ⟨isNext.1, isNext.2, rfl⟩]

theorem kVal_eq (head : a ∈ heads) : peek s'.memory a .kVal = peek s.memory a .kVal := by
  rw [h.fields a head, if_neg (by simp), if_neg (by simp), if_neg (by simp)]

theorem tag_eq (head : a ∈ heads) :
    peek s'.memory a .tag = if a = elem then 0 else peek s.memory a .tag := by
  rw [h.fields a head]
  by_cases same : a = elem <;> simp [same]

end Unlists

theorem Represents.take {K : Nat} {s s' : BuddyAllocator} {system : BuddySystem K}
    (holds : Represents s system) {b : Block} (free : b ∈ system.free)
    (h : Unlists (Represents.heads s system) (s.pool + b.start) s s') :
    Represents s' (system.take b free) := by
  have members : (system.take b free).free ∪ (system.take b free).live = system.free ∪ system.live := by
    ext c
    by_cases same : c = b
    · subst same; simp [BuddySystem.take, free]
    · simp [BuddySystem.take, same]
  have head : ∀ {c}, c ∈ system.free ∪ system.live → s.pool + c.start ∈ Represents.heads s system :=
    fun member => ⟨_, member, rfl⟩
  have order := holds.kVal b (.inl free)
  constructor
  case poolKVal => rw [h.poolKVal, holds.poolKVal]
  case poolSmall => exact holds.poolSmall
  case poolPresent => rw [h.pool]; exact holds.poolPresent
  case poolFits => rw [h.pool]; exact holds.poolFits
  case roomy => rw [members]; exact holds.roomy
  case kVal =>
    intro c member
    rw [members] at member
    rw [h.pool, h.kVal_eq (head member), holds.kVal c member]
  case freeTag =>
    rintro c ⟨cFree, other⟩
    have other : s.pool + c.start ≠ s.pool + b.start := fun same =>
      other (system.tiling.start_injective (.inl cFree) (.inl free) (Nat.add_left_cancel same))
    rw [h.pool, h.tag_eq (head (.inl cFree)), if_neg other, holds.freeTag c cFree]
  case liveTag =>
    rintro c (rfl | live)
    · rw [h.pool, h.tag_eq (head (.inl free)), if_pos rfl]
    · rw [h.pool, h.tag_eq (head (.inr live)), holds.liveTag c live, ite_self]
  case lists =>
    intro k small
    rw [h.pool]
    obtain ⟨as, bs, linked, onList⟩ := holds.listed free
    have nodup := List.nodup_middle.1 linked.nodup
    have notElem : ∀ a ∈ as ++ bs, a ≠ s.pool + b.start := fun a member same =>
      (List.nodup_cons.1 nodup).1 (same ▸ member)
    have inList : ∀ a ∈ as ++ bs, a ∈ as ++ (s.pool + b.start) :: bs := fun a member => by
      rcases List.mem_append.1 member with inAs | inBs
      · exact List.mem_append_left _ inAs
      · exact List.mem_append_right _ (.tail _ inBs)
    obtain ⟨before, behind⟩ := linked.neighbours
    have prevOnList : ∀ a ∈ s.prev (s.pool + b.start), a ∈ as ++ bs := fun a isPrev =>
      List.mem_append_left _ (List.mem_of_mem_getLast? (before ▸ isPrev))
    have nextOnList : ∀ a ∈ s.next (s.pool + b.start), a ∈ as ++ bs := fun a isNext =>
      List.mem_append_right _ (List.mem_of_mem_head? (behind ▸ isNext))
    have isHead : ∀ a ∈ as ++ bs, a ∈ Represents.heads s system := fun a member =>
      Represents.mem_heads ((onList a).1 (inList a member))
    by_cases same : k = b.order
    · -- the list that the block was on
      subst same
      refine ⟨as ++ bs, ?_, fun a => ?_⟩
      · have removed : DoublyLinked s'.next s'.prev (if s.prev (s.pool + b.start) = none then
            s.next (s.pool + b.start) else pointer (s.availList b.order)) (as ++ bs) := linked.remove
          (fun p isPrev => h.next_prev (isHead p (prevOnList p isPrev)) (notElem p (prevOnList p isPrev)) isPrev)
          (fun n isNext => h.prev_next (isHead n (nextOnList n isNext)) (notElem n (nextOnList n isNext)) isNext)
          (fun a member notPrev => h.next_eq (isHead a member) (notElem a member) notPrev)
          (fun a member notNext => h.prev_eq (isHead a member) (notElem a member) notNext)
        have headEq : pointer (s'.availList b.order) =
            if s.prev (s.pool + b.start) = none then s.next (s.pool + b.start)
            else pointer (s.availList b.order) := by
          rw [h.availList, order]
          unfold prev next
          by_cases first : peek s.memory (s.pool + b.start) .linkB = 0
          · simp [first, pointer]
          · simp [first, pointer]
        rw [headEq]
        exact removed
      · constructor
        · intro member
          obtain ⟨start, rfl, free'⟩ := (onList a).1 (inList a member)
          refine ⟨start, rfl, free', fun same => notElem _ member ?_⟩
          rw [show start = b.start from congrArg Block.start same]
        · rintro ⟨start, rfl, free', other⟩
          have member := (onList _).2 ⟨start, rfl, free'⟩
          have ne : start ≠ b.start := fun same =>
            other (system.tiling.start_injective (.inl free') (.inl free) same)
          simpa [ne] using member
    · -- another list
      obtain ⟨xs, linked', onList'⟩ := holds.lists k small
      have notThere : ∀ a ∈ xs, a ∉ as ++ (s.pool + b.start) :: bs := fun a inXs inList =>
        same (Represents.list_unique ((onList' a).1 inXs) ((onList a).1 inList))
      have notElem' : ∀ a ∈ xs, a ≠ s.pool + b.start := fun a inXs same =>
        notThere a inXs (same ▸ by simp)
      have isHead' : ∀ a ∈ xs, a ∈ Represents.heads s system := fun a inXs =>
        Represents.mem_heads ((onList' a).1 inXs)
      refine ⟨xs, ?_, fun a => ?_⟩
      · have head : s'.availList k = s.availList k := by
          rw [h.availList, order]
          split
          · rw [Function.update_of_ne same]
          · rfl
        rw [head]
        refine linked'.congr (fun a inXs => ?_) fun a inXs => ?_
        · exact h.next_eq (isHead' a inXs) (notElem' a inXs)
            fun isPrev => notThere a inXs (inList a (prevOnList a isPrev))
        · exact h.prev_eq (isHead' a inXs) (notElem' a inXs)
            fun isNext => notThere a inXs (inList a (nextOnList a isNext))
      · rw [onList' a]
        constructor
        · rintro ⟨start, rfl, free'⟩
          exact ⟨start, rfl, free', fun eq => same (congrArg Block.order eq)⟩
        · rintro ⟨start, rfl, free', -⟩
          exact ⟨start, rfl, free'⟩

/-! ## Giving a block back -/

namespace Lists

variable {heads : Set Nat} {elem a : Nat} {s s' : BuddyAllocator} (h : Lists heads elem s s')

include h

theorem next_eq (head : a ∈ heads) (other : a ≠ elem) : s'.next a = s.next a := by
  unfold next
  rw [h.fields a head, if_neg other, if_neg (by simp)]

theorem prev_eq (head : a ∈ heads) (other : a ≠ elem)
    (notFirst : a ∉ pointer (s.availList (peek s.memory elem .kVal))) : s'.prev a = s.prev a := by
  unfold prev
  rw [h.fields a head, if_neg other, if_neg fun both => notFirst (mem_pointer.2 ⟨both.1, both.2.1⟩)]

theorem prev_first (head : a ∈ heads) (other : a ≠ elem) (present : elem ≠ 0)
    (first : a ∈ pointer (s.availList (peek s.memory elem .kVal))) : s'.prev a = some elem := by
  have first := mem_pointer.1 first
  unfold prev
  rw [h.fields a head, if_neg other, if_pos ⟨first.1, first.2, rfl⟩, pointer, if_neg present]

theorem next_new (head : elem ∈ heads) :
    s'.next elem = pointer (s.availList (peek s.memory elem .kVal)) := by
  unfold next
  rw [h.fields elem head, if_pos rfl]

theorem prev_new (head : elem ∈ heads) : s'.prev elem = none := by
  unfold prev
  rw [h.fields elem head, if_pos rfl]
  rfl

theorem kVal_eq (head : a ∈ heads) : peek s'.memory a .kVal = peek s.memory a .kVal := by
  rw [h.fields a head]
  by_cases same : a = elem <;> simp [same]

theorem tag_eq (head : a ∈ heads) :
    peek s'.memory a .tag = if a = elem then 1 else peek s.memory a .tag := by
  rw [h.fields a head]
  by_cases same : a = elem <;> simp [same]

end Lists

section giving

variable {K : Nat} {s s' : BuddyAllocator} {system : BuddySystem K}
  (holds : Represents s system) {b : Block}

include holds

/-- A live block may be put on its list. -/
theorem Represents.push_lists (live : b ∈ system.live) :
    Lists (Represents.heads s system) (s.pool + b.start) s (s.pushAvailList (s.pool + b.start)) := by
  have order := holds.kVal b (.inr live)
  obtain ⟨xs, linked, onList⟩ := holds.lists b.order (holds.order_lt (.inr live))
  have first : s.availList b.order ≠ 0 → s.availList b.order ∈ xs := fun some =>
    List.mem_of_mem_head? (linked.head_eq ▸ mem_pointer.2 ⟨some, rfl⟩)
  have small : s.availList b.order < 2 ^ 64 := by
    by_cases some : s.availList b.order = 0
    · rw [some]; decide
    · obtain ⟨start, same, free⟩ := (onList _).1 (first some)
      rw [same]
      exact holds.address_lt (.inl free)
  refine pushAvailList_lists holds.separate ⟨b, .inr live, rfl⟩ (holds.address_lt (.inr live))
    (order ▸ small) fun some => ?_
  rw [order] at some ⊢
  have onList := (onList _).1 (first some)
  refine ⟨Represents.mem_heads onList, fun same => ?_⟩
  obtain ⟨start, same', free⟩ := onList
  have same := system.tiling.start_injective (.inl free) (.inr live)
    (Nat.add_left_cancel (same'.symm.trans same))
  exact system.apart _ free (same ▸ live)

theorem Represents.give (live : b ∈ system.live) (unpaired : b.order < K → b.buddy ∉ system.free)
    (h : Lists (Represents.heads s system) (s.pool + b.start) s s') :
    Represents s' (system.give b live unpaired) := by
  have members : (system.give b live unpaired).free ∪ (system.give b live unpaired).live =
      system.free ∪ system.live := by
    ext c
    by_cases same : c = b
    · subst same; simp [BuddySystem.give, live]
    · simp [BuddySystem.give, same]
  have head : ∀ {c}, c ∈ system.free ∪ system.live → s.pool + c.start ∈ Represents.heads s system :=
    fun member => ⟨_, member, rfl⟩
  have order := holds.kVal b (.inr live)
  have notLive : ∀ c ∈ system.free, s.pool + c.start ≠ s.pool + b.start := fun c free same =>
    system.apart c free (system.tiling.start_injective (.inl free) (.inr live) (Nat.add_left_cancel same) ▸ live)
  constructor
  case poolKVal => rw [h.poolKVal, holds.poolKVal]
  case poolSmall => exact holds.poolSmall
  case poolPresent => rw [h.pool]; exact holds.poolPresent
  case poolFits => rw [h.pool]; exact holds.poolFits
  case roomy => rw [members]; exact holds.roomy
  case kVal =>
    intro c member
    rw [members] at member
    rw [h.pool, h.kVal_eq (head member), holds.kVal c member]
  case freeTag =>
    rintro c (rfl | free)
    · rw [h.pool, h.tag_eq (head (.inr live)), if_pos rfl]
    · rw [h.pool, h.tag_eq (head (.inl free)), if_neg (notLive c free), holds.freeTag c free]
  case liveTag =>
    rintro c ⟨cLive, other⟩
    have other : s.pool + c.start ≠ s.pool + b.start := fun same =>
      other (system.tiling.start_injective (.inr cLive) (.inr live) (Nat.add_left_cancel same))
    rw [h.pool, h.tag_eq (head (.inr cLive)), if_neg other, holds.liveTag c cLive]
  case lists =>
    intro k small
    rw [h.pool]
    obtain ⟨xs, linked, onList⟩ := holds.lists k small
    have isHead : ∀ a ∈ xs, a ∈ Represents.heads s system := fun a member =>
      Represents.mem_heads ((onList a).1 member)
    have notElem : ∀ a ∈ xs, a ≠ s.pool + b.start := by
      intro a member
      obtain ⟨start, rfl, free⟩ := (onList a).1 member
      exact notLive _ free
    by_cases same : k = b.order
    · subst same
      have newHead : s'.availList b.order = s.pool + b.start := by
        rw [h.availList, order, Function.update_self]
      refine ⟨(s.pool + b.start) :: xs, ?_, fun a => ?_⟩
      · rw [newHead, pointer, if_neg (holds.address_ne_zero b)]
        refine linked.push (fun member => notElem _ member rfl) ?_ (h.prev_new (head (.inr live)))
          (fun a first => ?_) (fun a member => h.next_eq (isHead a member) (notElem a member))
          fun a member notFirst => h.prev_eq (isHead a member) (notElem a member) (order ▸ notFirst)
        · rw [h.next_new (head (.inr live)), order]
        · have member : a ∈ xs := List.mem_of_mem_head? (linked.head_eq ▸ first)
          exact h.prev_first (isHead a member) (notElem a member) (holds.address_ne_zero b)
            (order ▸ first)
      · rw [List.mem_cons, onList a]
        constructor
        · rintro (rfl | ⟨start, rfl, free⟩)
          · exact ⟨b.start, rfl, .inl rfl⟩
          · exact ⟨start, rfl, .inr free⟩
        · rintro ⟨start, rfl, same | free⟩
          · exact .inl (by rw [← same])
          · exact .inr ⟨start, rfl, free⟩
    · refine ⟨xs, ?_, fun a => ?_⟩
      · rw [h.availList, order, Function.update_of_ne same]
        refine linked.congr (fun a member => h.next_eq (isHead a member) (notElem a member))
          fun a member => h.prev_eq (isHead a member) (notElem a member) fun first => ?_
        -- what is first on the block's list is on no other
        rw [order] at first
        obtain ⟨ys, linked', onList'⟩ := holds.lists b.order (holds.order_lt (.inr live))
        have there : a ∈ ys := List.mem_of_mem_head? (linked'.head_eq ▸ first)
        exact same (Represents.list_unique ((onList a).1 member) ((onList' a).1 there))
      · rw [onList a]
        constructor
        · rintro ⟨start, rfl, free⟩
          exact ⟨start, rfl, .inr free⟩
        · rintro ⟨start, rfl, eq | free⟩
          · exact absurd (congrArg Block.order eq) same
          · exact ⟨start, rfl, free⟩

end giving

/-! ## Halving and fusing -/

section sizes

variable {K : Nat} {s : BuddyAllocator} {system : BuddySystem K}
  (holds : Represents s system) {b : Block}

theorem halve_pool (s : BuddyAllocator) (elem k : Nat) : (s.halve elem k).pool = s.pool := by
  unfold halve
  simp only [write_pool]

theorem halve_poolKVal (s : BuddyAllocator) (elem k : Nat) : (s.halve elem k).poolKVal = s.poolKVal := by
  unfold halve
  simp only [write_poolKVal]

theorem halve_availList (s : BuddyAllocator) (elem k : Nat) : (s.halve elem k).availList = s.availList := by
  unfold halve
  simp only [write_availList]

/-- The fields of the heads when a block has been halved. -/
theorem halve_peek {heads : Set Nat} (separate : Separate heads) {elem k x : Nat}
    (elemHead : elem ∈ heads) (halfHead : elem + 2 ^ k ∈ heads) (xHead : x ∈ heads) (small : k < 256)
    (field : Field) :
    peek (s.halve elem k).memory x field =
      if x = elem + 2 ^ k then
        match field with
        | .kVal => k
        | _ => 0
      else if x = elem ∧ field = .kVal then k
      else peek s.memory x field := by
  have smallMod : k % 256 = k := Nat.mod_eq_of_lt small
  unfold halve
  simp only [write_peek separate halfHead xHead, write_peek separate elemHead xHead]
  by_cases half : x = elem + 2 ^ k
  · cases field <;> simp [half, Field.width, smallMod]
  · by_cases same : x = elem <;> cases field <;> simp [half, same, Field.width, smallMod]

include holds

theorem Represents.halve {k : Nat} (live : b ∈ system.live) (order : b.order = k + 1) (large : 5 ≤ k) :
    Represents (s.halve (s.pool + b.start) k) (system.halve b k live order) := by
  have blocks : (system.halve b k live order).free ∪ (system.halve b k live order).live =
      insert (b.left k) (insert (b.right k) ((system.free ∪ system.live) \ {b})) := by
    have notFree : ∀ c ∈ system.free, c ≠ b := fun c free same => system.apart c free (same ▸ live)
    ext c
    have := notFree c
    simp only [BuddySystem.halve, Set.mem_union, Set.mem_insert_iff, Set.mem_sdiff,
      Set.mem_singleton_iff]
    tauto
  have roomy : Roomy K ((system.halve b k live order).free ∪ (system.halve b k live order).live) := by
    rw [blocks]
    rintro c (rfl | rfl | ⟨member, -⟩)
    · exact .inl large
    · exact .inl large
    · exact holds.roomy c member
  have tiling := (system.halve b k live order).tiling
  have separate := separate_of_tiling (s.pool) tiling roomy
  have small : k < 256 := by
    have := holds.order_lt (.inr live)
    simp only [ESB_AVAIL_LIST_LENGTH] at this
    omega
  have halfAddress : s.pool + b.start + 2 ^ k = s.pool + (b.right k).start := Nat.add_assoc _ _ _
  have left : b.left k ∈ (system.halve b k live order).live := .inl rfl
  have right : b.right k ∈ (system.halve b k live order).live := .inr (.inl rfl)
  have elemHead : s.pool + b.start ∈
      headsOf s.pool ((system.halve b k live order).free ∪ (system.halve b k live order).live) :=
    ⟨_, .inr left, rfl⟩
  have fields : ∀ c ∈ (system.halve b k live order).free ∪ (system.halve b k live order).live,
      ∀ field, peek (s.halve (s.pool + b.start) k).memory (s.pool + c.start) field =
        if c = b.right k then
          match field with
          | .kVal => k
          | _ => 0
        else if c = b.left k ∧ field = .kVal then k
        else peek s.memory (s.pool + c.start) field := by
    intro c member field
    rw [halve_peek separate elemHead ⟨_, .inr right, halfAddress⟩ ⟨c, member, rfl⟩ small]
    have isRight : s.pool + c.start = s.pool + b.start + 2 ^ k ↔ c = b.right k := by
      rw [halfAddress]
      exact ⟨fun same => tiling.start_injective member (.inr right) (Nat.add_left_cancel same), fun same => by rw [same]⟩
    have isLeft : s.pool + c.start = s.pool + b.start ↔ c = b.left k :=
      ⟨fun same => tiling.start_injective member (.inr left) (Nat.add_left_cancel same), fun same => by rw [same]; rfl⟩
    simp only [isRight, isLeft]
  have notHalf : ∀ c ∈ system.free, c ≠ b.left k ∧ c ≠ b.right k := by
    have absent := system.halves_absent live order
    exact fun c free => ⟨fun same => absent.1 (same ▸ .inl free), fun same => absent.2 (same ▸ .inl free)⟩
  have freeFields : ∀ c ∈ system.free, ∀ field,
      peek (s.halve (s.pool + b.start) k).memory (s.pool + c.start) field =
        peek s.memory (s.pool + c.start) field := by
    intro c free field
    rw [fields c (.inl free), if_neg (notHalf c free).2, if_neg fun both => (notHalf c free).1 both.1]
  constructor
  case poolKVal => rw [halve_poolKVal]; exact holds.poolKVal
  case poolSmall => exact holds.poolSmall
  case poolPresent => rw [halve_pool]; exact holds.poolPresent
  case poolFits => rw [halve_pool]; exact holds.poolFits
  case roomy => exact roomy
  case kVal =>
    intro c member
    rw [halve_pool, fields c member]
    by_cases isRight : c = b.right k
    · simp [isRight, Block.right]
    · by_cases isLeft : c = b.left k
      · rw [if_neg isRight, if_pos ⟨isLeft, rfl⟩, isLeft, Block.left]
      · rw [blocks] at member
        rcases member with same | same | ⟨member, -⟩
        · exact absurd same isLeft
        · exact absurd same isRight
        · simp [isRight, isLeft, holds.kVal c member]
  case freeTag =>
    intro c free
    rw [halve_pool, freeFields c free, holds.freeTag c free]
  case liveTag =>
    intro c cLive
    rw [halve_pool, fields c (.inr cLive)]
    by_cases isRight : c = b.right k
    · simp [isRight]
    · rw [if_neg isRight, if_neg (by simp)]
      rcases cLive with rfl | rfl | ⟨cLive, -⟩
      · exact holds.liveTag b live
      · exact absurd rfl isRight
      · exact holds.liveTag c cLive
  case lists =>
    intro j small
    obtain ⟨xs, linked, onList⟩ := holds.lists j small
    rw [halve_pool, halve_availList]
    refine ⟨xs, linked.congr (fun a member => ?_) (fun a member => ?_), onList⟩
    · obtain ⟨start, rfl, free⟩ := (onList a).1 member
      unfold next
      rw [freeFields _ free]
    · obtain ⟨start, rfl, free⟩ := (onList a).1 member
      unfold prev
      rw [freeFields _ free]

theorem Represents.fuse (live : b ∈ system.live) (buddyLive : b.buddy ∈ system.live)
    (small : b.order < K) :
    Represents (s.write (s.pool + b.parent.start) .kVal (b.order + 1))
      (system.fuse b live buddyLive small) := by
  have aligned := system.tiling.aligned b (.inr live)
  -- one of the halves has its head where the parent has
  obtain ⟨half, halfLive, start⟩ : ∃ half ∈ system.live, b.parent.start = half.start := by
    rcases Block.parent_start aligned with start | start
    · exact ⟨b, live, start⟩
    · exact ⟨b.buddy, buddyLive, start⟩
  have halfHead : s.pool + b.parent.start ∈ Represents.heads s system := ⟨half, .inr halfLive, by rw [start]⟩
  have smallMod : (b.order + 1) % 256 = b.order + 1 := by
    have := holds.poolSmall
    simp only [ESB_AVAIL_LIST_LENGTH] at this
    omega
  have fields : ∀ c ∈ system.free ∪ system.live, ∀ field,
      peek (s.write (s.pool + b.parent.start) .kVal (b.order + 1)).memory (s.pool + c.start) field =
        if c = half ∧ field = .kVal then b.order + 1 else peek s.memory (s.pool + c.start) field := by
    intro c member field
    rw [write_peek holds.separate halfHead ⟨c, member, rfl⟩]
    have isHalf : s.pool + c.start = s.pool + b.parent.start ↔ c = half := by
      rw [start]
      exact ⟨fun same => system.tiling.start_injective member (.inr halfLive) (Nat.add_left_cancel same), fun same => by rw [same]⟩
    simp only [isHalf, Field.width, pow_one, smallMod]
  have parentField : ∀ field,
      peek (s.write (s.pool + b.parent.start) .kVal (b.order + 1)).memory (s.pool + b.parent.start) field =
        if field = .kVal then b.order + 1 else peek s.memory (s.pool + half.start) field := by
    intro field
    have := fields half (.inr halfLive) field
    rw [← start] at this
    simpa [start] using this
  have notHalf : ∀ c ∈ system.free, c ≠ half := fun c free same => system.apart c free (same ▸ halfLive)
  have freeFields : ∀ c ∈ system.free, ∀ field,
      peek (s.write (s.pool + b.parent.start) .kVal (b.order + 1)).memory (s.pool + c.start) field =
        peek s.memory (s.pool + c.start) field := by
    intro c free field
    rw [fields c (.inl free), if_neg fun both => notHalf c free both.1]
  -- a live block that is still there is neither half
  have others : ∀ c ∈ system.live, c ∉ ({b, b.buddy} : Set Block) → c ≠ half := by
    rintro c cLive other rfl
    have halves := Block.parent_halves aligned
    rcases halves with ⟨this, that⟩ | ⟨this, that⟩
    · exact other (.inl (system.tiling.start_injective (.inr cLive) (.inr live)
        (start.symm.trans (congrArg Block.start this).symm)))
    · exact other (.inr (system.tiling.start_injective (.inr cLive) (.inr buddyLive)
        (start.symm.trans (congrArg Block.start that).symm)))
  constructor
  case poolKVal => exact holds.poolKVal
  case poolSmall => exact holds.poolSmall
  case poolPresent => exact holds.poolPresent
  case poolFits => exact holds.poolFits
  case roomy =>
    rintro c (free | rfl | ⟨cLive, -⟩)
    · exact holds.roomy c (.inl free)
    · rcases holds.roomy b (.inr live) with large | whole
      · exact .inl (Nat.le_succ_of_le large)
      · exact absurd small (whole ▸ Nat.lt_irrefl _)
    · exact holds.roomy c (.inr cLive)
  case kVal =>
    rintro c (free | rfl | ⟨cLive, other⟩)
    · exact (freeFields c free _).trans (holds.kVal c (.inl free))
    · exact (parentField _).trans (if_pos rfl)
    · rw [write_pool, fields c (.inr cLive), if_neg fun both => others c cLive other both.1,
        holds.kVal c (.inr cLive)]
  case freeTag => exact fun c free => (freeFields c free _).trans (holds.freeTag c free)
  case liveTag =>
    rintro c (rfl | ⟨cLive, -⟩)
    · exact (parentField _).trans (holds.liveTag half halfLive)
    · rw [write_pool, fields c (.inr cLive), if_neg (by simp), holds.liveTag c cLive]
  case lists =>
    intro j small
    obtain ⟨xs, linked, onList⟩ := holds.lists j small
    refine ⟨xs, linked.congr (fun a member => ?_) (fun a member => ?_), onList⟩
    · obtain ⟨start, rfl, free⟩ := (onList a).1 member
      unfold next
      rw [freeFields _ free]
    · obtain ⟨start, rfl, free⟩ := (onList a).1 member
      unfold prev
      rw [freeFields _ free]

end sizes

/-! ## What is spared -/

/-- The payload of the other blocks stays, and so does what is outside a pool that has room
for a head. -/
structure Spares (K : Nat) (others : Set Block) (s s' : BuddyAllocator) : Prop where
  pool : s'.pool = s.pool
  payload : ∀ c ∈ others, ∀ x, s.pool + c.start + size ≤ x → x < s.pool + c.start + 2 ^ c.order →
    s'.memory x = s.memory x
  outside : 5 ≤ K → ∀ x, x < s.pool ∨ s.pool + 2 ^ K ≤ x → s'.memory x = s.memory x

namespace Spares

variable {K : Nat} {others more blocks : Set Block} {s s' s'' : BuddyAllocator}

theorem refl (K : Nat) (others : Set Block) (s : BuddyAllocator) : Spares K others s s :=
  ⟨rfl, fun _ _ _ _ _ => rfl, fun _ _ _ => rfl⟩

theorem trans (h : Spares K others s s') (h' : Spares K more s' s'') (within : others ⊆ more) :
    Spares K others s s'' where
  pool := h'.pool.trans h.pool
  payload c member x low high := by
    have later := h'.payload c (within member) x
    rw [h.pool] at later
    exact (later low high).trans (h.payload c member x low high)
  outside large x away := by
    have later := h'.outside large x
    rw [h.pool] at later
    exact (later away).trans (h.outside large x away)

theorem of_same (tiling : Tiling K blocks) (roomy : Roomy K blocks) (pool : s'.pool = s.pool)
    (same : SameOutside (headsOf s.pool blocks) s s') (within : others ⊆ blocks) :
    Spares K others s s' where
  pool := pool
  payload c member x low high := same.same x (payload_outside tiling roomy _ (within member) low high)
  outside large x away := by
    refine same.same x ?_
    rintro _ ⟨d, dMember, rfl⟩
    have inside := tiling.inside d dMember
    have order : 5 ≤ d.order := (roomy d dMember).elim id fun whole => whole ▸ large
    have room : 2 ^ 5 ≤ 2 ^ d.order := Nat.pow_le_pow_right (by decide) order
    unfold size
    omega

end Spares

/-! ## Splitting and coalescing -/

section loops

variable {K : Nat}

theorem halve_outside {heads : Set Nat} (s : BuddyAllocator) {elem k : Nat} (elemHead : elem ∈ heads)
    (halfHead : elem + 2 ^ k ∈ heads) : SameOutside heads s (s.halve elem k) :=
  ((((write_outside elemHead _ _).trans (write_outside halfHead _ _)).trans
    (write_outside halfHead _ _)).trans (write_outside halfHead _ _)).trans (write_outside halfHead _ _)

/-- The right half goes on its list. -/
theorem splitOnce_spec {s : BuddyAllocator} {system : BuddySystem K} (holds : Represents s system)
    {start k : Nat} (live : ⟨start, k + 1⟩ ∈ system.live) (large : 5 ≤ k) :
    ∃ system' : BuddySystem K, Represents (s.splitOnce (s.pool + start) k) system' ∧
      system'.live = insert ⟨start, k⟩ (system.live \ {⟨start, k + 1⟩}) ∧
      Spares K (system.live \ {⟨start, k + 1⟩}) s (s.splitOnce (s.pool + start) k) := by
  have halved := holds.halve live rfl large
  generalize h : system.halve ⟨start, k + 1⟩ k live rfl = halvedSystem at halved
  have halvedLive : halvedSystem.live = insert ⟨start, k⟩
      (insert ⟨start + 2 ^ k, k⟩ (system.live \ {⟨start, k + 1⟩})) := by rw [← h]; rfl
  have right : ⟨start + 2 ^ k, k⟩ ∈ halvedSystem.live := by rw [halvedLive]; exact .inr (.inl rfl)
  have left : ⟨start, k⟩ ∈ halvedSystem.live := by rw [halvedLive]; exact .inl rfl
  have aligned := system.tiling.aligned _ (.inr live)
  have buddy : (Block.mk (start + 2 ^ k) k).buddy = ⟨start, k⟩ := Block.buddy_right aligned rfl
  have unpaired : k < K → (Block.mk (start + 2 ^ k) k).buddy ∉ halvedSystem.free := by
    rw [buddy]
    exact fun _ free => halvedSystem.apart _ free left
  have address : s.pool + start + 2 ^ k = s.pool + (Block.mk (start + 2 ^ k) k).start :=
    Nat.add_assoc _ _ _
  have pool := halve_pool s (s.pool + start) k
  have outside : SameOutside (headsOf s.pool (halvedSystem.free ∪ halvedSystem.live)) s
      (s.halve (s.pool + start) k) :=
    halve_outside s ⟨_, .inr left, rfl⟩ ⟨_, .inr right, address⟩
  have within : system.live \ {⟨start, k + 1⟩} ⊆ halvedSystem.free ∪ halvedSystem.live := by
    rw [halvedLive]
    exact fun c member => .inr (.inr (.inr member))
  unfold splitOnce
  rw [address]
  generalize s.halve (s.pool + start) k = s₁ at halved outside pool ⊢
  have pushed := halved.push_lists right
  rw [← pool]
  refine ⟨_, halved.give right unpaired pushed, ?_, ?_⟩
  · show halvedSystem.live \ {⟨start + 2 ^ k, k⟩} = _
    have absent := (system.halves_absent live rfl).2
    have ne := Block.left_ne_right ⟨start, k + 1⟩ k
    rw [halvedLive]
    ext c
    have rightAbsent : c ∈ system.live → c ≠ ⟨start + 2 ^ k, k⟩ := by
      rintro member rfl
      exact absent (.inr member)
    have leftOther : c = ⟨start, k⟩ → c ≠ ⟨start + 2 ^ k, k⟩ := fun same same' =>
      ne (same.symm.trans same')
    simp only [Set.mem_insert_iff, Set.mem_sdiff, Set.mem_singleton_iff]
    tauto
  · have spared : Spares K (system.live \ {⟨start, k + 1⟩}) s s₁ :=
      .of_same halvedSystem.tiling halved.roomy pool outside within
    have listed : Spares K (system.live \ {⟨start, k + 1⟩}) s₁ (s₁.pushAvailList (s₁.pool + (start + 2 ^ k))) :=
      .of_same halvedSystem.tiling halved.roomy pushed.pool pushed.outside within
    exact spared.trans listed (Set.Subset.refl _)

theorem splitDown_spec {minimum : Nat} (large : 5 ≤ minimum) (actual : Nat) :
    ∀ {s : BuddyAllocator} {system : BuddySystem K} {start : Nat}, Represents s system →
      ⟨start, actual⟩ ∈ system.live → minimum ≤ actual →
      ∃ system' : BuddySystem K, Represents (splitDown (s.pool + start) minimum actual s) system' ∧
        system'.live = insert ⟨start, minimum⟩ (system.live \ {⟨start, actual⟩}) ∧
        Spares K (system.live \ {⟨start, actual⟩}) s (splitDown (s.pool + start) minimum actual s) := by
  have done : ∀ {live : Set Block} {b : Block}, b ∈ live → live = insert b (live \ {b}) := by
    intro live b member
    rw [Set.insert_sdiff_singleton, Set.insert_eq_of_mem member]
  induction actual with
  | zero =>
      intro s system start holds live le
      omega
  | succ actual ih =>
      intro s system start holds live le
      rw [splitDown]
      split
      · obtain ⟨system₁, holds₁, live₁, spares₁⟩ := splitOnce_spec holds live (by omega)
        have left : ⟨start, actual⟩ ∈ system₁.live := by rw [live₁]; exact .inl rfl
        have pool := spares₁.pool
        obtain ⟨system₂, holds₂, live₂, spares₂⟩ := ih holds₁ left (by omega)
        rw [pool] at holds₂ spares₂
        have absent : ⟨start, actual⟩ ∉ system.live := fun member =>
          (system.halves_absent live rfl).1 (.inr member)
        have rest : system₁.live \ {⟨start, actual⟩} = system.live \ {⟨start, actual + 1⟩} := by
          rw [live₁]
          exact Set.insert_sdiff_self_of_notMem fun member => absent member.1
        rw [rest] at live₂ spares₂
        exact ⟨system₂, holds₂, live₂, spares₁.trans spares₂ (Set.Subset.refl _)⟩
      · have order : minimum = actual + 1 := by omega
        subst order
        exact ⟨system, holds, done live, .refl _ _ _⟩

/-- A block's buddy is on its list and whole when it is free. -/
theorem canMerge_iff {s : BuddyAllocator} {system : BuddySystem K} (holds : Represents s system)
    {b : Block} (live : b ∈ system.live) (small : b.order < K) :
    s.canMerge (s.pool + b.start) (s.pool + b.buddy.start) = true ↔ b.buddy ∈ system.free := by
  have order := holds.kVal b (.inr live)
  obtain ⟨c, member, start, -⟩ := system.tiling.buddy_start (.inr live) small
  have order' := holds.kVal c member
  unfold canMerge
  rw [order, ← start, order']
  simp only [Bool.and_eq_true, decide_eq_true_eq]
  constructor
  · rintro ⟨tagged, same⟩
    have isBuddy : c = b.buddy := by
      obtain ⟨start', order'⟩ := c
      dsimp only at start same
      rw [start, same]
      rfl
    rcases member with free | cLive
    · exact isBuddy ▸ free
    · exact absurd (holds.liveTag c cLive) tagged
  · intro free
    have isBuddy := system.tiling.start_injective member (.inl free) start
    subst isBuddy
    exact ⟨by rw [holds.freeTag _ free]; decide, rfl⟩

/-- The buddy is taken off its list and the two are fused. -/
theorem mergeInto_spec {s : BuddyAllocator} {system : BuddySystem K} (holds : Represents s system)
    {b : Block} (live : b ∈ system.live) (free : b.buddy ∈ system.free) (small : b.order < K) :
    ∃ system' : BuddySystem K,
      Represents (s.mergeInto (s.pool + b.parent.start) (s.pool + b.buddy.start)) system' ∧
        b.parent ∈ system'.live ∧ system'.live \ {b.parent} = system.live \ {b} ∧
        Spares K (system.live \ {b}) s
          (s.mergeInto (s.pool + b.parent.start) (s.pool + b.buddy.start)) := by
  have aligned := system.tiling.aligned b (.inr live)
  have unlists := removeFromAvailList_unlists (holds.neighbours free)
  have taken := holds.take free unlists
  have pool := unlists.pool
  have live' : b ∈ (system.take b.buddy free).live := .inr live
  have buddyLive : b.buddy ∈ (system.take b.buddy free).live := .inl rfl
  have fused := taken.fuse live' buddyLive small
  rw [pool] at fused
  -- where the parent has its head one of the halves has, and both are of the same order
  obtain ⟨half, halfLive, start, order⟩ : ∃ half ∈ (system.take b.buddy free).live,
      b.parent.start = half.start ∧ half.order = b.order := by
    rcases Block.parent_start aligned with start | start
    · exact ⟨b, live', start, rfl⟩
    · exact ⟨b.buddy, buddyLive, start, rfl⟩
  have kVal : peek (s.removeFromAvailList (s.pool + b.buddy.start)).memory (s.pool + b.parent.start)
      .kVal = b.order := by
    have := taken.kVal half (.inr halfLive)
    rw [pool] at this
    rw [start, this, order]
  have blocks : system.live \ {b} ⊆ system.free ∪ system.live := fun c member => .inr member.1
  have merged : s.mergeInto (s.pool + b.parent.start) (s.pool + b.buddy.start) =
      (s.removeFromAvailList (s.pool + b.buddy.start)).write (s.pool + b.parent.start) .kVal
        (b.order + 1) := by
    unfold mergeInto
    dsimp only
    rw [kVal]
  rw [merged]
  refine ⟨_, fused, .inl rfl, ?_, ?_⟩
  · exact system.merged_live live free small
  · have listed : Spares K (system.live \ {b}) s (s.removeFromAvailList (s.pool + b.buddy.start)) :=
      .of_same system.tiling holds.roomy pool unlists.outside blocks
    have takenBlocks : system.live \ {b} ⊆
        (system.take b.buddy free).free ∪ (system.take b.buddy free).live :=
      fun c member => .inr (.inr member.1)
    have parentHead : s.pool + b.parent.start ∈ Represents.heads
        (s.removeFromAvailList (s.pool + b.buddy.start)) (system.take b.buddy free) :=
      ⟨half, .inr halfLive, by rw [start, pool]⟩
    have written : Spares K (system.live \ {b}) (s.removeFromAvailList (s.pool + b.buddy.start))
        ((s.removeFromAvailList (s.pool + b.buddy.start)).write (s.pool + b.parent.start) .kVal
          (b.order + 1)) :=
      .of_same (system.take b.buddy free).tiling taken.roomy (write_pool _ _ _ _)
        (write_outside parentHead _ _) takenBlocks
    exact listed.trans written (Set.Subset.refl _)

theorem coalesce_spec (turns : Nat) :
    ∀ {s : BuddyAllocator} {system : BuddySystem K} {b : Block}, Represents s system →
      b ∈ system.live → K < turns + b.order →
      ∃ system' : BuddySystem K, Represents (coalesce turns (s.pool + b.start) s) system' ∧
        system'.live = system.live \ {b} ∧
        Spares K (system.live \ {b}) s (coalesce turns (s.pool + b.start) s) := by
  induction turns with
  | zero =>
      intro s system b holds live enough
      have := system.tiling.order_le (.inr live)
      omega
  | succ turns ih =>
      intro s system b holds live enough
      have order := holds.kVal b (.inr live)
      have aligned := system.tiling.aligned b (.inr live)
      have blocks : system.live \ {b} ⊆ system.free ∪ system.live := fun c member => .inr member.1
      have listed := holds.push_lists live
      have given : (b.order < K → b.buddy ∉ system.free) →
          ∃ system' : BuddySystem K, Represents (s.pushAvailList (s.pool + b.start)) system' ∧
            system'.live = system.live \ {b} ∧
            Spares K (system.live \ {b}) s (s.pushAvailList (s.pool + b.start)) :=
        fun unpaired => ⟨_, holds.give live unpaired listed, rfl,
          .of_same system.tiling holds.roomy listed.pool listed.outside blocks⟩
      rw [coalesce]
      simp only [order, holds.poolKVal]
      split
      · rename_i whole
        exact given fun small => absurd whole (Nat.ne_of_lt small)
      · rename_i notWhole
        have small : b.order < K :=
          Nat.lt_of_le_of_ne (system.tiling.order_le (.inr live)) notWhole
        have merging := canMerge_iff holds live small
        -- after a merge the loop goes on with the parent
        have merged : b.buddy ∈ system.free → ∃ system' : BuddySystem K,
            Represents (coalesce turns (s.pool + b.parent.start)
              (s.mergeInto (s.pool + b.parent.start) (s.pool + b.buddy.start))) system' ∧
            system'.live = system.live \ {b} ∧
            Spares K (system.live \ {b}) s (coalesce turns (s.pool + b.parent.start)
              (s.mergeInto (s.pool + b.parent.start) (s.pool + b.buddy.start))) := by
          intro free
          obtain ⟨system₁, holds₁, parentLive, rest, spares₁⟩ := mergeInto_spec holds live free small
          have order' : b.parent.order = b.order + 1 := rfl
          obtain ⟨system₂, holds₂, live₂, spares₂⟩ := ih holds₁ parentLive (by omega)
          rw [spares₁.pool] at holds₂ spares₂
          rw [rest] at live₂ spares₂
          exact ⟨system₂, holds₂, live₂, spares₁.trans spares₂ (Set.Subset.refl _)⟩
        have offset : s.pool + b.start - s.pool = b.start := Nat.add_sub_cancel_left _ _
        rw [offset]
        by_cases isLeft : b.IsLeft
        · have multiple : b.start % 2 ^ (b.order + 1) = 0 := Nat.mod_eq_zero_of_dvd isLeft
          have buddy : s.pool + b.start + 2 ^ b.order = s.pool + b.buddy.start := by
            rw [Block.buddy, if_pos isLeft, Nat.add_assoc]
          have parent : s.pool + b.start = s.pool + b.parent.start := by
            rw [Block.parent, if_pos isLeft]
          rw [if_pos multiple, buddy]
          split
          · rename_i can
            rw [parent]
            exact merged (merging.1 can)
          · rename_i cannot
            exact given fun _ free => cannot (merging.2 free)
        · have multiple : b.start % 2 ^ (b.order + 1) ≠ 0 := fun zero =>
            isLeft (Nat.dvd_of_mod_eq_zero zero)
          obtain ⟨q, start⟩ := Block.right_start aligned isLeft
          have buddy : s.pool + b.start - 2 ^ b.order = s.pool + b.buddy.start := by
            rw [Block.buddy, if_neg isLeft]
            dsimp only
            omega
          have parent : s.pool + b.buddy.start = s.pool + b.parent.start := by
            rw [Block.parent, Block.buddy, if_neg isLeft, if_neg isLeft]
          rw [if_neg multiple, buddy]
          split
          · rename_i can
            have merged := merged (merging.1 can)
            rw [← parent] at merged
            exact merged
          · rename_i cannot
            exact given fun _ free => cannot (merging.2 free)

end loops

/-! ## Allocating and deallocating -/

/-- An order of a pool has a list. -/
theorem short_of_le {K : Nat} (le : K ≤ 32) : K < ESB_AVAIL_LIST_LENGTH := Nat.lt_of_le_of_lt le (by decide)

theorem two_pow_of_short {k : Nat} (short : k < ESB_AVAIL_LIST_LENGTH) : 2 ^ k ≤ 2 ^ 63 :=
  Nat.pow_le_pow_right (by decide) (Nat.le_of_lt_succ short)

/-- Only an exponent that fits is returned. -/
theorem kValLoop_sound {uWord k : Nat} (turns : Nat) :
    ∀ {min kVal max : Nat}, kValLoop uWord turns min kVal max = some k →
      2 ^ (k - 1) < uWord ∧ uWord ≤ 2 ^ k := by
  induction turns with
  | zero => intro min kVal max found; exact nomatch found
  | succ turns ih =>
      intro min kVal max found
      rw [kValLoop] at found
      split at found
      · exact ih found
      · split at found
        · rename_i large small
          cases found
          exact ⟨small, Nat.le_of_not_lt large⟩
        · exact ih found

theorem UWordToKVal_sound {uWord k : Nat} (found : UWordToKVal uWord = some k) :
    2 ^ (k - 1) < uWord ∧ uWord ≤ 2 ^ k := kValLoop_sound _ found

/-- The exponent lies between the bounds of the search, and a turn narrows them, as long as the
word is not above the last power there is. -/
theorem kValLoop_returns {uWord : Nat} (low : 2 ≤ uWord) (high : uWord ≤ 2 ^ 63) (turns : Nat) :
    ∀ {min kVal max : Nat}, min < kVal → kVal < max → (min = 0 ∨ 2 ^ min < uWord) →
      (max = ESB_AVAIL_LIST_LENGTH ∨ uWord ≤ 2 ^ (max - 1)) → max - min ≤ turns →
      ∃ k, kValLoop uWord turns min kVal max = some k := by
  have above : ∀ {k : Nat}, 2 ^ k < uWord → uWord ≤ 2 ^ (k + 1 - 1) → False := fun beyond atMost =>
    absurd beyond (Nat.not_lt.2 atMost)
  induction turns with
  | zero => intro min kVal max left right below upper enough; omega
  | succ turns ih =>
      intro min kVal max left right below upper enough
      rw [kValLoop]
      split
      · rename_i beyond
        have apart : kVal + 1 ≠ max := by
          rintro rfl
          rcases upper with last | atMost
          · simp only [ESB_AVAIL_LIST_LENGTH] at last
            rw [show kVal = 63 by omega] at beyond
            omega
          · exact above beyond atMost
        exact ih (by omega) (by omega) (.inr beyond) upper (by omega)
      · split
        · exact ⟨_, rfl⟩
        · rename_i notBeyond notAtMost
          have atMost : uWord ≤ 2 ^ (kVal - 1) := by omega
          have apart : min + 1 ≠ kVal := by
            rintro rfl
            rcases below with zero | beyond
            · rw [zero] at atMost
              omega
            · exact above beyond atMost
          exact ih (by omega) (by omega) below (.inr atMost) (by omega)

theorem AdjustedKVal_returns {requested : Nat} (fits : requested + size ≤ 2 ^ 63) :
    ∃ k, AdjustedKVal requested = some k := by
  unfold AdjustedKVal UWordToKVal
  rw [Nat.mod_eq_of_lt (by omega)]
  exact kValLoop_returns (by unfold size; omega) fits _ (by decide) (by decide) (.inl rfl) (.inl rfl) (by decide)

/-- A block of the order returned has room for its head and what is requested. -/
theorem AdjustedKVal_room {requested k : Nat} (fits : requested + size < 2 ^ 64)
    (found : AdjustedKVal requested = some k) : 5 ≤ k ∧ requested + size ≤ 2 ^ k := by
  have sound := (UWordToKVal_sound found).2
  rw [Nat.mod_eq_of_lt fits] at sound
  refine ⟨?_, sound⟩
  by_contra small
  have le : 2 ^ k ≤ 2 ^ 4 := Nat.pow_le_pow_right (by decide) (by omega)
  unfold size at sound
  omega

section calls

variable {K : Nat} {s : BuddyAllocator} {system : BuddySystem K}

theorem firstAvailable_some {minimum k : Nat} (found : s.firstAvailable minimum = some k) :
    minimum ≤ k ∧ k < ESB_AVAIL_LIST_LENGTH ∧ s.availList k ≠ 0 := by
  have member := List.mem_of_find?_eq_some found
  have chosen := List.find?_some found
  simp only [List.mem_range] at member
  simp only [Bool.and_eq_true, decide_eq_true_eq] at chosen
  exact ⟨chosen.1, member, chosen.2⟩

/-- The first block of a list that is not empty is taken. -/
theorem popAvailList_spec (holds : Represents s system) {k : Nat} (small : k < ESB_AVAIL_LIST_LENGTH)
    (some : s.availList k ≠ 0) :
    ∃ (start : Nat) (free : ⟨start, k⟩ ∈ system.free), (s.popAvailList k).1 = s.pool + start ∧
      Represents (s.popAvailList k).2 (system.take ⟨start, k⟩ free) ∧
      Spares K system.live s (s.popAvailList k).2 := by
  obtain ⟨xs, linked, onList⟩ := holds.lists k small
  have first : s.availList k ∈ xs.head? := linked.head_eq ▸ mem_pointer.2 ⟨some, rfl⟩
  obtain ⟨start, address, free⟩ := (onList _).1 (List.mem_of_mem_head? first)
  have noPrev : peek s.memory (s.pool + start) .linkB = 0 := by
    have none := linked.first _ first
    rw [address] at none
    by_contra present
    exact nomatch (mem_pointer.2 ⟨present, rfl⟩ : _ ∈ s.prev (s.pool + start)).symm.trans none
  have popped := popAvailList_unlists address (address ▸ some) (holds.neighbours free) noPrev
    (holds.kVal _ (.inl free))
  exact ⟨start, free, popped.1, holds.take free popped.2,
    .of_same system.tiling holds.roomy popped.2.pool popped.2.outside fun _ member => .inr member⟩

/-- What a pool gives out is a block that was not live, of the order asked for. -/
theorem allocateFromPool_spec (holds : Represents s system) {minimum : Nat} (large : 5 ≤ minimum) :
    s.allocateFromPool minimum = ((.outOfMemory, 0), s) ∨
      ∃ (start : Nat) (system' : BuddySystem K),
        (s.allocateFromPool minimum).1 = (.success, s.pool + start + size) ∧
        Represents (s.allocateFromPool minimum).2 system' ∧
        ⟨start, minimum⟩ ∉ system.live ∧ system'.live = insert ⟨start, minimum⟩ system.live ∧
        Spares K system.live s (s.allocateFromPool minimum).2 := by
  unfold allocateFromPool
  split
  · exact .inl rfl
  · rename_i actual found
    obtain ⟨le, small, some⟩ := firstAvailable_some found
    obtain ⟨start, free, popped, taken, spares⟩ := popAvailList_spec holds small some
    right
    have pool := spares.pool
    have notLive : ⟨start, actual⟩ ∉ system.live := system.apart _ free
    obtain ⟨system', holds', live', spares'⟩ := splitDown_spec large actual taken (.inl rfl) le
    rw [pool] at holds' spares'
    have rest : (system.take ⟨start, actual⟩ free).live \ {⟨start, actual⟩} = system.live :=
      Set.insert_sdiff_self_of_notMem notLive
    rw [rest] at live' spares'
    dsimp only
    rw [popped]
    refine ⟨start, system', rfl, holds', fun live => ?_, live', spares.trans spares' (Set.Subset.refl _)⟩
    have same := system.tiling.start_injective (.inl free) (.inr live) rfl
    exact notLive (same ▸ live)

theorem deallocate_spec (holds : Represents s system) {b : Block} (live : b ∈ system.live)
    (large : 5 ≤ b.order) :
    (s.deallocate (s.pool + b.start + size)).1 = .success ∧
      ∃ system' : BuddySystem K, Represents (s.deallocate (s.pool + b.start + size)).2 system' ∧
        system'.live = system.live \ {b} ∧
        Spares K (system.live \ {b}) s (s.deallocate (s.pool + b.start + size)).2 := by
  have inside := system.tiling.inside b (.inr live)
  have room : 2 ^ 5 ≤ 2 ^ b.order := Nat.pow_le_pow_right (by decide) large
  have owned : s.owns (s.pool + b.start + size) = true := by
    unfold owns size
    rw [holds.poolKVal]
    simp only [Bool.and_eq_true, decide_eq_true_eq]
    omega
  have elem : s.pool + b.start + size - size = s.pool + b.start := Nat.add_sub_cancel _ _
  have notNull : s.pool + b.start + size ≠ 0 := by unfold size; omega
  unfold deallocate
  rw [if_neg notNull, if_neg holds.poolPresent, if_neg (by simp [owned]), elem, holds.poolKVal]
  exact ⟨rfl, coalesce_spec (K + 1) holds live (by omega)⟩

/-- What a live block has room for. -/
theorem allocationSize_spec (holds : Represents s system) {b : Block} (live : b ∈ system.live)
    (large : 5 ≤ b.order) : s.allocationSize (s.pool + b.start + size) = 2 ^ b.order - size := by
  have inside := system.tiling.inside b (.inr live)
  have bound := two_pow_of_short (holds.order_lt (.inr live))
  have room : 2 ^ 5 ≤ 2 ^ b.order := Nat.pow_le_pow_right (by decide) large
  have owned : s.owns (s.pool + b.start + size) = true := by
    unfold owns size
    rw [holds.poolKVal]
    simp only [Bool.and_eq_true, decide_eq_true_eq]
    omega
  unfold allocationSize
  rw [if_neg (by simp [owned]), Nat.add_sub_cancel, holds.kVal b (.inr live)]
  unfold size
  omega

/-- A list holds a pointer where a block of its order is free. -/
theorem availList_present (holds : Represents s system) {k : Nat} (small : k < ESB_AVAIL_LIST_LENGTH) :
    s.availList k ≠ 0 ↔ ∃ start, ⟨start, k⟩ ∈ system.free := by
  obtain ⟨xs, linked, onList⟩ := holds.lists k small
  constructor
  · intro some
    have first : s.availList k ∈ xs.head? := linked.head_eq ▸ mem_pointer.2 ⟨some, rfl⟩
    obtain ⟨start, -, free⟩ := (onList _).1 (List.mem_of_mem_head? first)
    exact ⟨start, free⟩
  · rintro ⟨start, free⟩ none
    have member := (onList (s.pool + start)).2 ⟨start, rfl, free⟩
    have empty : xs.head? = Option.none := by rw [← linked.head_eq, none]; rfl
    rw [List.head?_eq_none_iff.1 empty] at member
    exact nomatch member

/-- The list of the largest order has the whole pool, or nothing. -/
theorem availList_whole (holds : Represents s system) : s.availList K ≠ 0 ↔ ⟨0, K⟩ ∈ system.free := by
  rw [availList_present holds holds.poolSmall]
  constructor
  · rintro ⟨start, free⟩
    exact system.tiling.start_of_order (.inl free) rfl ▸ free
  · exact fun free => ⟨0, free⟩

/-- When the whole pool is free all other lists are empty. -/
theorem availList_other (holds : Represents s system) (whole : ⟨0, K⟩ ∈ system.free) {k : Nat}
    (small : k < ESB_AVAIL_LIST_LENGTH) (other : k ≠ K) : s.availList k = 0 := by
  by_contra some
  obtain ⟨start, free⟩ := (availList_present holds small).1 some
  rw [system.free_eq_whole (system.live_eq_empty whole)] at free
  exact other (congrArg Block.order free)

/-- Nothing but the list of the largest order may hold a pointer when there is no pool. -/
def Poolless (s : BuddyAllocator) : Prop :=
  s.pool = 0 ∧ ∀ k < ESB_AVAIL_LIST_LENGTH, k ≠ s.poolKVal → s.availList k = 0

theorem reset_spec (holds : Represents s system) :
    (s.reset.1 = .success ↔ system.live = ∅) ∧
      (s.reset.1 = .success → s.reset.2.Poolless) ∧ (s.reset.1 ≠ .success → s.reset.2 = s) := by
  have whole := availList_whole holds
  unfold reset
  rw [if_neg holds.poolPresent, holds.poolKVal]
  split
  · rename_i none
    refine ⟨⟨fun success => (nomatch success), fun empty => ?_⟩, fun success => (nomatch success), fun _ => rfl⟩
    have free : ⟨0, K⟩ ∈ system.free := by rw [system.free_eq_whole empty]; rfl
    exact absurd none (whole.2 free)
  · rename_i some
    have free := whole.1 some
    refine ⟨⟨fun _ => system.live_eq_empty free, fun _ => rfl⟩, fun _ => ⟨rfl, fun k small other => ?_⟩,
      fun failed => absurd rfl failed⟩
    exact availList_other holds free small (holds.poolKVal ▸ other)

theorem initializePool_spec {pool : Nat} (poolless : s.Poolless) (low : 1 ≤ s.poolKVal)
    (small : s.poolKVal < ESB_AVAIL_LIST_LENGTH) (present : pool ≠ 0)
    (fits : pool + 2 ^ s.poolKVal ≤ 2 ^ 64) :
    (s.initializePool (.ok pool)).1 = .success ∧
      Represents (s.initializePool (.ok pool)).2 (BuddySystem.fresh s.poolKVal) := by
  obtain ⟨noPool, empty⟩ := poolless
  unfold initializePool
  rw [if_neg (by omega)]
  refine ⟨rfl, ?_⟩
  have separate : Separate {pool} := by rintro _ rfl _ rfl; exact .inl rfl
  have smallMod : s.poolKVal % 256 = s.poolKVal := by
    simp only [ESB_AVAIL_LIST_LENGTH] at small
    omega
  dsimp only
  simp only [write_poolKVal]
  generalize h : { s with pool } = s₁
  have poolKVal : s₁.poolKVal = s.poolKVal := by rw [← h]
  have pool₁ : s₁.pool = pool := by rw [← h]
  have availList : s₁.availList = s.availList := by rw [← h]
  generalize written : (((s₁.write pool .linkB 0).write pool .linkF 0).write pool .tag 1).write pool
    .kVal s.poolKVal = s₂
  have fields : peek s₂.memory pool .linkB = 0 ∧ peek s₂.memory pool .linkF = 0 ∧
      peek s₂.memory pool .kVal = s.poolKVal ∧ peek s₂.memory pool .tag = 1 := by
    rw [← written]
    simp only [write_peek separate rfl rfl]
    simp [Field.width, smallMod]
  obtain ⟨linkB, linkF, kVal, tag⟩ := fields
  have same₂ : s₂.pool = pool ∧ s₂.poolKVal = s.poolKVal ∧ s₂.availList = s.availList := by
    rw [← written]
    simp only [write_pool, write_poolKVal, write_availList]
    exact ⟨pool₁, poolKVal, availList⟩
  obtain ⟨pool₂, poolKVal₂, availList₂⟩ := same₂
  constructor
  case poolKVal => rw [setAvailList_poolKVal, poolKVal₂]
  case poolSmall => exact small
  case poolPresent => rw [setAvailList_pool, pool₂]; exact present
  case poolFits => rw [setAvailList_pool, pool₂]; exact fits
  case roomy =>
    rintro b (rfl | live)
    · exact .inr rfl
    · exact live.elim
  case kVal =>
    rintro b (rfl | live)
    · rw [setAvailList_pool, setAvailList_memory, pool₂, Nat.add_zero, kVal]
    · exact live.elim
  case freeTag =>
    rintro b rfl
    rw [setAvailList_pool, setAvailList_memory, pool₂, Nat.add_zero, tag]
  case liveTag => exact fun b live => live.elim
  case lists =>
    intro k smallK
    rw [setAvailList_pool, pool₂, setAvailList_availList, availList₂]
    by_cases same : k = s.poolKVal
    · subst same
      refine ⟨[pool], ?_, fun a => ?_⟩
      · rw [Function.update_self, pointer, if_neg present]
        refine DoublyLinked.single ?_ ?_
        · show pointer (peek s₂.memory pool .linkF) = none
          rw [linkF]; rfl
        · show pointer (peek s₂.memory pool .linkB) = none
          rw [linkB]; rfl
      · rw [List.mem_singleton]
        constructor
        · rintro rfl
          exact ⟨0, rfl, rfl⟩
        · rintro ⟨start, rfl, free⟩
          rw [show start = 0 from congrArg Block.start free, Nat.add_zero]
    · refine ⟨[], ?_, fun a => ?_⟩
      · rw [Function.update_of_ne same, empty k smallK same]
        exact .nil _ _
      · constructor
        · simp
        · rintro ⟨start, -, free⟩
          exact absurd (congrArg Block.order free) same

end calls

end BuddyAllocator

end Everscale
