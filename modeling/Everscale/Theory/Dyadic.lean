/-
# Theory.Dyadic -- tilings by aligned blocks, and the buddy system

A block of order `k` is `2 ^ k` long and starts at a multiple of its length.  Two such blocks
are nested or disjoint (`Block.nested`), so in a tiling the place of a block's buddy is the
start of a block that is no larger (`Tiling.buddy_start`).

`BuddySystem` is the abstract state of a buddy allocator: blocks that are free and blocks
that are live, which tile the pool, and no free block beside its free buddy.  All that an
allocator does is taking and giving, halving and fusing.
-/
import Mathlib.Data.Set.Insert
import Mathlib.Data.Nat.Find
import Mathlib.Tactic.Common
import Mathlib.Tactic.Ring

namespace Everscale.Theory

set_option autoImplicit false

structure Block where
  start : Nat
  order : Nat
  deriving DecidableEq, Repr

namespace Block

def Covers (b : Block) (x : Nat) : Prop := b.start ≤ x ∧ x < b.start + 2 ^ b.order

def Aligned (b : Block) : Prop := 2 ^ b.order ∣ b.start

/-- The block is the left half of the block of the next order. -/
def IsLeft (b : Block) : Prop := 2 ^ (b.order + 1) ∣ b.start

instance (b : Block) : Decidable b.IsLeft := inferInstanceAs (Decidable (_ ∣ _))

/-- The other half of the block of the next order. -/
def buddy (b : Block) : Block :=
  ⟨if b.IsLeft then b.start + 2 ^ b.order else b.start - 2 ^ b.order, b.order⟩

/-- The block of the next order that the block is a half of. -/
def parent (b : Block) : Block :=
  ⟨if b.IsLeft then b.start else b.start - 2 ^ b.order, b.order + 1⟩

/-- The halves of a block of order `k + 1`. -/
def left (b : Block) (k : Nat) : Block := ⟨b.start, k⟩

def right (b : Block) (k : Nat) : Block := ⟨b.start + 2 ^ k, k⟩

theorem pos (b : Block) : 0 < 2 ^ b.order := Nat.two_pow_pos _

theorem covers_start (b : Block) : b.Covers b.start := ⟨Nat.le_refl _, Nat.lt_add_of_pos_right b.pos⟩

/-- A half that is not the left one starts behind the left one. -/
theorem right_start {b : Block} (aligned : b.Aligned) (right : ¬ b.IsLeft) :
    ∃ q, b.start = q * 2 ^ (b.order + 1) + 2 ^ b.order := by
  obtain ⟨i, start⟩ := aligned
  rcases Nat.even_or_odd' i with ⟨q, even | odd⟩
  · exact absurd ⟨q, by rw [start, even]; ring⟩ right
  · exact ⟨q, by rw [start, odd]; ring⟩

theorem buddy_aligned {b : Block} (aligned : b.Aligned) : b.buddy.Aligned := by
  unfold buddy
  split
  · exact Nat.dvd_add aligned (Nat.dvd_refl _)
  · exact Nat.dvd_sub aligned (Nat.dvd_refl _)

theorem parent_aligned {b : Block} (aligned : b.Aligned) : b.parent.Aligned := by
  unfold parent
  split
  · assumption
  · rename_i right
    obtain ⟨q, start⟩ := right_start aligned right
    exact ⟨q, by dsimp only; rw [start, Nat.add_sub_cancel, Nat.mul_comm]⟩

theorem buddy_isLeft {b : Block} (aligned : b.Aligned) : b.buddy.IsLeft ↔ ¬ b.IsLeft := by
  unfold buddy
  constructor
  · intro left' left
    rw [if_pos left] at left'
    have whole : 2 ^ (b.order + 1) ∣ 2 ^ b.order := (Nat.dvd_add_right left).1 left'
    exact absurd (Nat.le_of_dvd b.pos whole) (by rw [pow_succ]; have := b.pos; omega)
  · intro right
    rw [if_neg right]
    obtain ⟨q, start⟩ := right_start aligned right
    exact ⟨q, by dsimp only; rw [start, Nat.add_sub_cancel, Nat.mul_comm]⟩

@[simp] theorem buddy_order (b : Block) : b.buddy.order = b.order := rfl

theorem buddy_buddy {b : Block} (aligned : b.Aligned) : b.buddy.buddy = b := by
  have other := buddy_isLeft aligned
  by_cases left : b.IsLeft
  · have right : ¬ b.buddy.IsLeft := fun h => other.1 h left
    unfold buddy at right ⊢
    rw [if_pos left] at right ⊢
    rw [if_neg right]
    simp
  · have left' : b.buddy.IsLeft := other.2 left
    obtain ⟨q, start⟩ := right_start aligned left
    unfold buddy at left' ⊢
    rw [if_neg left] at left' ⊢
    rw [if_pos left']
    have : 2 ^ b.order ≤ b.start := by omega
    obtain ⟨start, order⟩ := b
    simp only [mk.injEq, and_true]
    dsimp only at this
    omega

theorem buddy_ne (b : Block) (aligned : b.Aligned) : b.buddy ≠ b := by
  intro same
  have other := buddy_isLeft aligned
  rw [same] at other
  exact iff_not_self other

/-- A block and its buddy are the halves of their parent. -/
theorem parent_halves {b : Block} (aligned : b.Aligned) :
    (b = b.parent.left b.order ∧ b.buddy = b.parent.right b.order) ∨
      (b = b.parent.right b.order ∧ b.buddy = b.parent.left b.order) := by
  by_cases left : b.IsLeft
  · left; simp [parent, buddy, left, Block.left, Block.right]
  · right
    obtain ⟨q, start⟩ := right_start aligned left
    have : 2 ^ b.order ≤ b.start := by omega
    obtain ⟨start, order⟩ := b
    simp_all [parent, buddy, Block.left, Block.right]

/-- A parent begins where one of its halves does. -/
theorem parent_start {b : Block} (aligned : b.Aligned) :
    b.parent.start = b.start ∨ b.parent.start = b.buddy.start := by
  rcases parent_halves aligned with ⟨this, -⟩ | ⟨-, this⟩
  · exact .inl (congrArg start this).symm
  · exact .inr (congrArg start this).symm

/-! ## Nesting -/

/-- Aligned blocks that share a point are nested. -/
theorem nested {b c : Block} (alignedB : b.Aligned) (alignedC : c.Aligned) (le : b.order ≤ c.order)
    {x : Nat} (inB : b.Covers x) (inC : c.Covers x) :
    c.start ≤ b.start ∧ b.start + 2 ^ b.order ≤ c.start + 2 ^ c.order := by
  obtain ⟨i, startB⟩ := alignedB
  obtain ⟨m, startC⟩ := alignedC
  obtain ⟨d, order⟩ := Nat.exists_eq_add_of_le le
  have size : 2 ^ c.order = 2 ^ b.order * 2 ^ d := by rw [order, pow_add]
  obtain ⟨lowB, highB⟩ := inB
  obtain ⟨lowC, highC⟩ := inC
  rw [startB] at lowB highB ⊢
  rw [startC, size] at lowC highC
  rw [startC, size]
  have pos := b.pos
  generalize 2 ^ b.order = s at *
  have below : 2 ^ d * m < i + 1 := by
    have : s * (2 ^ d * m) < s * (i + 1) := by
      calc s * (2 ^ d * m) = s * 2 ^ d * m := by ring
        _ ≤ x := lowC
        _ < s * (i + 1) := by rw [Nat.mul_add, Nat.mul_one]; exact highB
    exact Nat.lt_of_mul_lt_mul_left this
  have above : i < 2 ^ d * m + 2 ^ d := by
    have : s * i < s * (2 ^ d * m + 2 ^ d) := by
      calc s * i ≤ x := lowB
        _ < s * 2 ^ d * m + s * 2 ^ d := highC
        _ = s * (2 ^ d * m + 2 ^ d) := by ring
    exact Nat.lt_of_mul_lt_mul_left this
  constructor
  · calc s * 2 ^ d * m = s * (2 ^ d * m) := by ring
      _ ≤ s * i := Nat.mul_le_mul_left _ (by omega)
  · calc s * i + s = s * (i + 1) := by ring
      _ ≤ s * (2 ^ d * m + 2 ^ d) := Nat.mul_le_mul_left _ (by omega)
      _ = s * 2 ^ d * m + s * 2 ^ d := by ring

/-- What covers a multiple of its own length starts there. -/
theorem start_eq {c : Block} (aligned : c.Aligned) {x : Nat} (multiple : 2 ^ c.order ∣ x)
    (inside : c.Covers x) : c.start = x := by
  have point : (Block.mk x c.order).Covers x := covers_start _
  have h := nested (b := c) (c := ⟨x, c.order⟩) aligned multiple (Nat.le_refl _) inside point
  have := inside.1
  have : x ≤ c.start := h.1
  omega

theorem covers_halves {b : Block} {k : Nat} (order : b.order = k + 1) (x : Nat) :
    b.Covers x ↔ (b.left k).Covers x ∨ (b.right k).Covers x := by
  have pos := Nat.two_pow_pos k
  simp only [Covers, left, right, order, pow_succ]
  generalize 2 ^ k = n at *
  omega

theorem not_both_halves {b : Block} {k x : Nat} (inLeft : (b.left k).Covers x) :
    ¬ (b.right k).Covers x := by
  simp only [Covers, left, right] at *
  omega

theorem left_aligned {b : Block} {k : Nat} (aligned : b.Aligned) (order : b.order = k + 1) :
    (b.left k).Aligned :=
  Nat.dvd_trans (pow_dvd_pow 2 (by simp [left, order])) aligned

theorem right_aligned {b : Block} {k : Nat} (aligned : b.Aligned) (order : b.order = k + 1) :
    (b.right k).Aligned :=
  Nat.dvd_add (left_aligned aligned order) (Nat.dvd_refl _)

/-- The halves are each other's buddies. -/
theorem buddy_right {b : Block} {k : Nat} (aligned : b.Aligned) (order : b.order = k + 1) :
    (b.right k).buddy = b.left k := by
  have isLeft : (b.left k).IsLeft := by
    unfold IsLeft left
    rw [← order]
    exact aligned
  have buddy : (b.left k).buddy = b.right k := by
    unfold Block.buddy
    rw [if_pos isLeft]
    rfl
  rw [← buddy, buddy_buddy (left_aligned aligned order)]

theorem left_ne_right (b : Block) (k : Nat) : b.left k ≠ b.right k := by
  intro same
  have := congrArg start same
  have := Nat.two_pow_pos k
  simp only [left, right] at *
  omega

end Block

/-! ## Tilings -/

/-- The blocks are aligned, lie in the pool of order `K` and cover each of its points once. -/
structure Tiling (K : Nat) (s : Set Block) : Prop where
  aligned : ∀ b ∈ s, b.Aligned
  inside : ∀ b ∈ s, b.start + 2 ^ b.order ≤ 2 ^ K
  covered : ∀ x < 2 ^ K, ∃ b ∈ s, b.Covers x
  disjoint : ∀ b ∈ s, ∀ c ∈ s, ∀ x, b.Covers x → c.Covers x → b = c

namespace Tiling

variable {K : Nat} {s t : Set Block}

theorem whole (K : Nat) : Tiling K {⟨0, K⟩} where
  aligned := by rintro b rfl; exact Nat.dvd_zero _
  inside := by rintro b rfl; simp
  covered x below := ⟨_, rfl, Nat.zero_le _, by simpa using below⟩
  disjoint := by rintro b rfl c rfl _ _ _; rfl

theorem order_le (h : Tiling K s) {b : Block} (member : b ∈ s) : b.order ≤ K := by
  have inside := h.inside b member
  exact (Nat.pow_le_pow_iff_right (by decide)).1 (Nat.le_of_add_left_le inside)

/-- Blocks that start at one place are the same. -/
theorem start_injective (h : Tiling K s) {b c : Block} (bMember : b ∈ s) (cMember : c ∈ s)
    (same : b.start = c.start) : b = c :=
  h.disjoint b bMember c cMember _ b.covers_start (same ▸ c.covers_start)

/-- A block of the largest order is the only one. -/
theorem start_of_order (h : Tiling K s) {b : Block} (member : b ∈ s) (order : b.order = K) :
    b = ⟨0, K⟩ := by
  have inside := h.inside b member
  obtain ⟨start, k⟩ := b
  dsimp only at order inside
  subst order
  simp only [Block.mk.injEq, and_true]
  omega

/-- A block of a smaller order has its parent in the pool. -/
theorem parent_inside (h : Tiling K s) {b : Block} (member : b ∈ s) (small : b.order < K) :
    b.parent.start + 2 ^ b.parent.order ≤ 2 ^ K := by
  have aligned := h.aligned b member
  have parentAligned := Block.parent_aligned aligned
  have inside := h.inside b member
  have pool : (Block.mk 0 K).Aligned := Nat.dvd_zero _
  have start : b.parent.Covers b.start := by
    have pos := b.pos
    unfold Block.parent Block.Covers
    dsimp only
    rw [pow_succ]
    split <;> omega
  have inPool : (Block.mk 0 K).Covers b.start := ⟨Nat.zero_le _, by have := b.pos; dsimp only; omega⟩
  have nested := Block.nested parentAligned pool (show b.order + 1 ≤ K from small) start inPool
  simpa using nested.2

/-- Where the buddy of a block would be, a block starts that is no larger. -/
theorem buddy_start (h : Tiling K s) {b : Block} (member : b ∈ s) (small : b.order < K) :
    ∃ c ∈ s, c.start = b.buddy.start ∧ c.order ≤ b.order := by
  have aligned := h.aligned b member
  have parentAligned := Block.parent_aligned aligned
  have parentInside := h.parent_inside member small
  have halves := Block.parent_halves aligned
  have order : b.parent.order = b.order + 1 := rfl
  have whole := Block.covers_halves order
  have inParent : b.parent.Covers b.start ∧ b.parent.Covers b.buddy.start := by
    rw [whole, whole]
    rcases halves with ⟨this, other⟩ | ⟨this, other⟩
    · exact ⟨.inl (this ▸ b.covers_start), .inr (other ▸ b.buddy.covers_start)⟩
    · exact ⟨.inr (this ▸ b.covers_start), .inl (other ▸ b.buddy.covers_start)⟩
  obtain ⟨c, cMember, covers⟩ := h.covered b.buddy.start
    (Nat.lt_of_lt_of_le inParent.2.2 parentInside)
  refine ⟨c, cMember, ?_⟩
  by_cases le : c.order ≤ b.order
  · have multiple : 2 ^ c.order ∣ b.buddy.start :=
      Nat.dvd_trans (pow_dvd_pow 2 le) (Block.buddy_aligned aligned)
    exact ⟨Block.start_eq (h.aligned c cMember) multiple covers, le⟩
  · -- a larger block there would hold the parent, and the block with it
    have larger : b.parent.order ≤ c.order := by rw [order]; omega
    have nested := Block.nested parentAligned (h.aligned c cMember) larger inParent.2 covers
    have coversB : c.Covers b.start :=
      ⟨Nat.le_trans nested.1 inParent.1.1, Nat.lt_of_lt_of_le inParent.1.2 nested.2⟩
    have same : c = b := h.disjoint c cMember b member _ coversB b.covers_start
    exact absurd (Nat.le_of_eq (congrArg Block.order same)) le

/-- Without buddies there is one block. -/
theorem eq_whole (h : Tiling K s) (separated : ∀ b ∈ s, b.order < K → b.buddy ∉ s) :
    s = {⟨0, K⟩} := by
  classical
  have largest : ∀ b ∈ s, b.order = K := by
    by_contra smaller
    push Not at smaller
    obtain ⟨b₀, member₀, order₀⟩ := smaller
    have some : ∃ k, ∃ b ∈ s, b.order = k := ⟨b₀.order, b₀, member₀, rfl⟩
    obtain ⟨b, member, order⟩ := Nat.find_spec some
    have least : ∀ c ∈ s, b.order ≤ c.order := fun c cMember =>
      order ▸ Nat.find_min' some ⟨c, cMember, rfl⟩
    have small : b.order < K :=
      Nat.lt_of_le_of_lt (least b₀ member₀) (Nat.lt_of_le_of_ne (h.order_le member₀) order₀)
    obtain ⟨c, cMember, start, le⟩ := h.buddy_start member small
    have same : c = b.buddy := by
      obtain ⟨start', order'⟩ := c
      have le' : b.order ≤ order' := least _ cMember
      dsimp only at start le
      rw [start, Nat.le_antisymm le le']
      rfl
    exact separated b member small (same ▸ cMember)
  obtain ⟨b, member, _⟩ := h.covered 0 (Nat.two_pow_pos K)
  have one := h.start_of_order member (largest b member)
  ext c
  constructor
  · intro cMember
    exact h.start_of_order cMember (largest c cMember)
  · rintro rfl
    exact one ▸ member

/-- A block in place of which its halves are. -/
theorem split (h : Tiling K s) {b : Block} {k : Nat} (member : b ∈ s) (order : b.order = k + 1) :
    Tiling K (insert (b.left k) (insert (b.right k) (s \ {b}))) := by
  have halves := Block.covers_halves order
  have apart : ∀ c ∈ s \ {b}, ∀ x, c.Covers x → ¬ (b.left k).Covers x ∧ ¬ (b.right k).Covers x := by
    rintro c ⟨cMember, other⟩ x covers
    rw [← not_or, ← halves]
    exact fun covers' => other (h.disjoint c cMember b member x covers covers')
  have inside := h.inside b member
  rw [order, pow_succ] at inside
  refine ⟨?_, ?_, fun x below => ?_, ?_⟩
  · rintro c (rfl | rfl | ⟨cMember, -⟩)
    · exact Block.left_aligned (h.aligned b member) order
    · exact Block.right_aligned (h.aligned b member) order
    · exact h.aligned c cMember
  · rintro c (rfl | rfl | ⟨cMember, -⟩)
    · simp only [Block.left]; omega
    · simp only [Block.right]; omega
    · exact h.inside c cMember
  · obtain ⟨c, cMember, covers⟩ := h.covered x below
    by_cases same : c = b
    · rw [same, halves] at covers
      rcases covers with covers | covers
      · exact ⟨_, .inl rfl, covers⟩
      · exact ⟨_, .inr (.inl rfl), covers⟩
    · exact ⟨c, .inr (.inr ⟨cMember, same⟩), covers⟩
  · rintro c (rfl | rfl | cMember) d (rfl | rfl | dMember) x covers covers'
    · rfl
    · exact absurd covers' (Block.not_both_halves covers)
    · exact absurd covers (apart d dMember x covers').1
    · exact absurd covers (Block.not_both_halves covers')
    · rfl
    · exact absurd covers (apart d dMember x covers').2
    · exact absurd covers' (apart c cMember x covers).1
    · exact absurd covers' (apart c cMember x covers).2
    · exact h.disjoint c cMember.1 d dMember.1 x covers covers'

/-- A block and its buddy, in place of which their parent is. -/
theorem merge (h : Tiling K s) {b : Block} (member : b ∈ s) (buddyMember : b.buddy ∈ s)
    (small : b.order < K) : Tiling K (insert b.parent (s \ {b, b.buddy})) := by
  have aligned := h.aligned b member
  have halves : ∀ x, b.parent.Covers x ↔ b.Covers x ∨ b.buddy.Covers x := by
    intro x
    rw [Block.covers_halves (show b.parent.order = b.order + 1 from rfl)]
    rcases Block.parent_halves aligned with ⟨this, other⟩ | ⟨this, other⟩
    · rw [← this, ← other]
    · rw [← this, ← other, or_comm]
  have apart : ∀ c ∈ s \ {b, b.buddy}, ∀ x, c.Covers x → ¬ b.parent.Covers x := by
    rintro c ⟨cMember, other⟩ x covers covers'
    rcases (halves x).1 covers' with covers' | covers'
    · exact other (.inl (h.disjoint c cMember b member x covers covers'))
    · exact other (.inr (h.disjoint c cMember _ buddyMember x covers covers'))
  refine ⟨?_, ?_, fun x below => ?_, ?_⟩
  · rintro c (rfl | ⟨cMember, -⟩)
    · exact Block.parent_aligned aligned
    · exact h.aligned c cMember
  · rintro c (rfl | ⟨cMember, -⟩)
    · exact h.parent_inside member small
    · exact h.inside c cMember
  · obtain ⟨c, cMember, covers⟩ := h.covered x below
    by_cases half : c = b ∨ c = b.buddy
    · refine ⟨_, .inl rfl, (halves x).2 ?_⟩
      rcases half with rfl | rfl
      · exact .inl covers
      · exact .inr covers
    · exact ⟨c, .inr ⟨cMember, half⟩, covers⟩
  · rintro c (rfl | cMember) d (rfl | dMember) x covers covers'
    · rfl
    · exact absurd covers (apart d dMember x covers')
    · exact absurd covers' (apart c cMember x covers)
    · exact h.disjoint c cMember.1 d dMember.1 x covers covers'

/-- A tiling may be given by its members. -/
theorem of_eq (h : Tiling K s) (same : ∀ b, b ∈ t ↔ b ∈ s) : Tiling K t :=
  (Set.ext same : t = s) ▸ h

end Tiling

/-! ## Buddy systems -/

/-- Free and live blocks that tile the pool of order `K`, no two of the free ones buddies. -/
structure BuddySystem (K : Nat) where
  free : Set Block
  live : Set Block
  apart : ∀ b ∈ free, b ∉ live
  tiling : Tiling K (free ∪ live)
  separated : ∀ b ∈ free, b.order < K → b.buddy ∉ free

namespace BuddySystem

variable {K : Nat} (s : BuddySystem K)

/-- The whole pool is free. -/
def fresh (K : Nat) : BuddySystem K where
  free := {⟨0, K⟩}
  live := ∅
  apart _ _ := id
  tiling := (Tiling.whole K).of_eq fun b => by simp
  separated := by
    rintro b rfl small
    exact absurd small (Nat.lt_irrefl K)

/-- A free block is taken. -/
def take (b : Block) (free : b ∈ s.free) : BuddySystem K where
  free := s.free \ {b}
  live := insert b s.live
  apart := by
    rintro c ⟨cFree, other⟩ (rfl | live)
    · exact other rfl
    · exact s.apart c cFree live
  tiling := s.tiling.of_eq fun c => by
    by_cases same : c = b
    · subst same; simp [free]
    · simp [same]
  separated := fun c cFree small buddy => s.separated c cFree.1 small buddy.1

/-- A live block becomes two. -/
def halve (b : Block) (k : Nat) (live : b ∈ s.live) (order : b.order = k + 1) : BuddySystem K where
  free := s.free
  live := insert (b.left k) (insert (b.right k) (s.live \ {b}))
  apart := by
    have within : ∀ c ∈ s.free, ∀ x, c.Covers x → ¬ b.Covers x := fun c cFree x covers covers' =>
      s.apart c cFree (s.tiling.disjoint c (.inl cFree) b (.inr live) x covers covers' ▸ live)
    have halves := fun x => (Block.covers_halves order x).2
    rintro c cFree (rfl | rfl | ⟨cLive, -⟩)
    · exact within _ cFree _ (Block.covers_start _) (halves _ (.inl (Block.covers_start _)))
    · exact within _ cFree _ (Block.covers_start _) (halves _ (.inr (Block.covers_start _)))
    · exact s.apart c cFree cLive
  tiling := (s.tiling.split (.inr live) order).of_eq fun c => by
    have notFree : c ∈ s.free → c ≠ b := fun cFree same => s.apart c cFree (same ▸ live)
    simp only [Set.mem_union, Set.mem_insert_iff, Set.mem_sdiff, Set.mem_singleton_iff]
    tauto
  separated := s.separated

/-- A live block and its live buddy become one. -/
def fuse (b : Block) (live : b ∈ s.live) (buddyLive : b.buddy ∈ s.live) (small : b.order < K) :
    BuddySystem K where
  free := s.free
  live := insert b.parent (s.live \ {b, b.buddy})
  apart := by
    have aligned := s.tiling.aligned b (.inr live)
    rintro c cFree (rfl | ⟨cLive, -⟩)
    · rcases Block.parent_start aligned with start | start
      · have same := s.tiling.disjoint _ (.inl cFree) b (.inr live) _ (Block.covers_start _)
          (start ▸ b.covers_start)
        exact s.apart _ cFree (by rw [same]; exact live)
      · have same := s.tiling.disjoint _ (.inl cFree) _ (.inr buddyLive) _ (Block.covers_start _)
          (start ▸ b.buddy.covers_start)
        exact s.apart _ cFree (by rw [same]; exact buddyLive)
    · exact s.apart c cFree cLive
  tiling := (s.tiling.merge (.inr live) (.inr buddyLive) small).of_eq fun c => by
    have notFree : c ∈ s.free → c ≠ b ∧ c ≠ b.buddy := fun cFree =>
      ⟨fun same => s.apart c cFree (same ▸ live), fun same => s.apart c cFree (same ▸ buddyLive)⟩
    simp only [Set.mem_union, Set.mem_insert_iff, Set.mem_sdiff, Set.mem_singleton_iff]
    tauto
  separated := s.separated

/-- Neither half of a live block is there besides. -/
theorem halves_absent {b : Block} {k : Nat} (live : b ∈ s.live) (order : b.order = k + 1) :
    b.left k ∉ s.free ∪ s.live ∧ b.right k ∉ s.free ∪ s.live := by
  have absent : ∀ c, c.order = k → b.Covers c.start → c ∉ s.free ∪ s.live := by
    intro c order' covers member
    have same := s.tiling.disjoint c member b (.inr live) _ c.covers_start covers
    rw [same, order] at order'
    omega
  exact ⟨absent _ rfl ((Block.covers_halves order _).2 (.inl (Block.covers_start _))),
    absent _ rfl ((Block.covers_halves order _).2 (.inr (Block.covers_start _)))⟩

/-- A block is not there when its parent is. -/
theorem parent_absent {b : Block} (member : b ∈ s.free ∪ s.live) : b.parent ∉ s.free ∪ s.live := by
  intro present
  have aligned := s.tiling.aligned b member
  have covers : b.parent.Covers b.start := by
    rw [Block.covers_halves (show b.parent.order = b.order + 1 from rfl)]
    rcases Block.parent_halves aligned with ⟨this, -⟩ | ⟨this, -⟩
    · exact .inl (this ▸ b.covers_start)
    · exact .inr (this ▸ b.covers_start)
  have same := s.tiling.disjoint _ present b member _ covers b.covers_start
  have := congrArg Block.order same
  simp [Block.parent] at this

/-- A live block is given back; its buddy is not free. -/
def give (b : Block) (live : b ∈ s.live) (unpaired : b.order < K → b.buddy ∉ s.free) :
    BuddySystem K where
  free := insert b s.free
  live := s.live \ {b}
  apart := by
    rintro c (rfl | cFree) ⟨cLive, other⟩
    · exact other rfl
    · exact s.apart c cFree cLive
  tiling := s.tiling.of_eq fun c => by
    by_cases same : c = b
    · subst same; simp [live]
    · simp [same]
  separated := by
    have aligned := s.tiling.aligned b (.inr live)
    rintro c (rfl | cFree) small (same | free)
    · exact Block.buddy_ne c aligned same
    · exact unpaired small free
    · have same' : c = b.buddy := by
        rw [← same, Block.buddy_buddy (s.tiling.aligned c (.inl cFree))]
      have small' : b.order < K := by rw [same'] at small; exact small
      exact unpaired small' (same' ▸ cFree)
    · exact s.separated c cFree small free

/-- A live block that takes its free buddy in leaves the other live blocks as they are. -/
theorem merged_live {b : Block} (live : b ∈ s.live) (free : b.buddy ∈ s.free) (small : b.order < K) :
    ((s.take b.buddy free).fuse b (.inr live) (.inl rfl) small).live \ {b.parent} = s.live \ {b} := by
  have absent := s.parent_absent (.inr live)
  ext c
  have notBuddy : c ∈ s.live → c ≠ b.buddy := fun cLive same => s.apart _ free (same ▸ cLive)
  have notParent : c ∈ s.live → c ≠ b.parent := fun cLive same => absent (.inr (same ▸ cLive))
  simp only [fuse, take, Set.mem_insert_iff, Set.mem_sdiff, Set.mem_singleton_iff]
  tauto

/-- When nothing is live the pool is one free block. -/
theorem free_eq_whole (empty : s.live = ∅) : s.free = {⟨0, K⟩} := by
  have tiling := s.tiling
  rw [empty, Set.union_empty] at tiling
  exact tiling.eq_whole s.separated

/-- When the whole pool is free nothing is live. -/
theorem live_eq_empty (whole : ⟨0, K⟩ ∈ s.free) : s.live = ∅ := by
  refine Set.eq_empty_of_forall_notMem fun b live => ?_
  have inside := s.tiling.inside b (.inr live)
  have inPool : (Block.mk 0 K).Covers b.start :=
    ⟨Nat.zero_le _, by have := b.pos; dsimp only; omega⟩
  have same := s.tiling.disjoint _ (.inl whole) b (.inr live) _ inPool b.covers_start
  exact s.apart _ whole (same ▸ live)

end BuddySystem

end Everscale.Theory
