/-
# Everscale.Base.BuddyLists -- what listing a block changes

The heads of the blocks do not overlap, so every write of the allocator changes one field of
one head.  On that rest the effects of putting a block on its list and of taking it off,
stated for the heads of all blocks at once.
-/
import Everscale.Base.BuddyAllocator

namespace Everscale

set_option autoImplicit false

open Theory

namespace AvailListElem

/-- The heads at two addresses do not overlap. -/
def Apart (a b : Nat) : Prop := a + size ≤ b ∨ b + size ≤ a

/-- Any two of the heads at these addresses are the same or apart. -/
def Separate (heads : Set Nat) : Prop := ∀ a ∈ heads, ∀ b ∈ heads, a = b ∨ Apart a b

theorem peek_poke (m : Memory) {elem x : Nat} (field field' : Field) (value : Nat)
    (apart : x = elem ∨ Apart x elem) :
    peek (poke m elem field value) x field' =
      if x = elem ∧ field' = field then value % 256 ^ field.width else peek m x field' := by
  unfold peek poke
  split
  · rename_i same
    rw [same.1, same.2, Memory.load_store_same]
  · rename_i other
    refine Memory.load_store_apart _ _ ?_
    rcases apart with rfl | apart
    · have fields : field' ≠ field := fun same => other ⟨rfl, same⟩
      cases field <;> cases field' <;> simp_all [Field.offset, Field.width]
    · unfold Apart size at apart
      cases field <;> cases field' <;> simp only [Field.offset, Field.width] <;> omega

theorem peek_lt (m : Memory) (elem : Nat) (field : Field) :
    peek m elem field < 256 ^ field.width := Memory.load_lt _ _ _

theorem peek_congr {m m' : Memory} {elem : Nat} (same : ∀ x, elem ≤ x → x < elem + size → m' x = m x)
    (field : Field) : peek m' elem field = peek m elem field := by
  unfold size at same
  refine Memory.load_congr fun x low high => same x ?_ ?_
  · omega
  · cases field <;> simp only [Field.offset, Field.width] at high <;> omega

theorem poke_outside (m : Memory) {elem x : Nat} (field : Field) (value : Nat)
    (outside : x < elem ∨ elem + size ≤ x) : poke m elem field value x = m x := by
  refine Memory.store_outside _ _ ?_
  unfold size at outside
  cases field <;> simp only [Field.offset, Field.width] <;> omega

end AvailListElem

namespace BuddyAllocator

open AvailListElem

/-! ## Effects -/

@[simp] theorem write_pool (elem : Nat) (field : Field) (value : Nat) (s : BuddyAllocator) :
    (s.write elem field value).pool = s.pool := rfl

@[simp] theorem write_poolKVal (elem : Nat) (field : Field) (value : Nat) (s : BuddyAllocator) :
    (s.write elem field value).poolKVal = s.poolKVal := rfl

@[simp] theorem write_availList (elem : Nat) (field : Field) (value : Nat) (s : BuddyAllocator) :
    (s.write elem field value).availList = s.availList := rfl

@[simp] theorem unlisted_pool (elem : Nat) (s : BuddyAllocator) : (s.unlisted elem).pool = s.pool := rfl

@[simp] theorem unlisted_poolKVal (elem : Nat) (s : BuddyAllocator) :
    (s.unlisted elem).poolKVal = s.poolKVal := rfl

@[simp] theorem unlisted_availList (elem : Nat) (s : BuddyAllocator) :
    (s.unlisted elem).availList = s.availList := rfl

@[simp] theorem setAvailList_pool (kVal elem : Nat) (s : BuddyAllocator) :
    (s.setAvailList kVal elem).pool = s.pool := rfl

@[simp] theorem setAvailList_poolKVal (kVal elem : Nat) (s : BuddyAllocator) :
    (s.setAvailList kVal elem).poolKVal = s.poolKVal := rfl

@[simp] theorem setAvailList_memory (kVal elem : Nat) (s : BuddyAllocator) :
    (s.setAvailList kVal elem).memory = s.memory := rfl

@[simp] theorem setAvailList_availList (kVal elem : Nat) (s : BuddyAllocator) :
    (s.setAvailList kVal elem).availList = Function.update s.availList kVal elem := rfl

section effects

variable {heads : Set Nat} {s : BuddyAllocator} {elem x : Nat}

theorem write_peek (separate : Separate heads) (elemHead : elem ∈ heads) (xHead : x ∈ heads)
    (field field' : Field) (value : Nat) :
    peek (s.write elem field value).memory x field' =
      if x = elem ∧ field' = field then value % 256 ^ field.width else peek s.memory x field' :=
  peek_poke _ _ _ _ (separate x xHead elem elemHead)

theorem unlisted_peek (separate : Separate heads) (elemHead : elem ∈ heads) (xHead : x ∈ heads)
    (field : Field) :
    peek (s.unlisted elem).memory x field =
      if x = elem ∧ field ≠ .kVal then 0 else peek s.memory x field := by
  unfold unlisted
  simp only [write_peek separate elemHead xHead]
  cases field <;> by_cases same : x = elem <;> simp [same]

/-- Nothing outside the heads changes. -/
structure SameOutside (heads : Set Nat) (s s' : BuddyAllocator) : Prop where
  same : ∀ x, (∀ a ∈ heads, x < a ∨ a + size ≤ x) → s'.memory x = s.memory x

theorem SameOutside.refl (heads : Set Nat) (s : BuddyAllocator) : SameOutside heads s s :=
  ⟨fun _ _ => rfl⟩

theorem SameOutside.trans {s' s'' : BuddyAllocator} (h : SameOutside heads s s')
    (h' : SameOutside heads s' s'') : SameOutside heads s s'' :=
  ⟨fun x outside => (h'.same x outside).trans (h.same x outside)⟩

theorem write_outside (elemHead : elem ∈ heads) (field : Field) (value : Nat) :
    SameOutside heads s (s.write elem field value) :=
  ⟨fun _ outside => poke_outside _ _ _ (outside elem elemHead)⟩

theorem unlisted_outside (elemHead : elem ∈ heads) : SameOutside heads s (s.unlisted elem) :=
  ((write_outside elemHead _ _).trans (write_outside elemHead _ _)).trans (write_outside elemHead _ _)

theorem setAvailList_outside (kVal elem : Nat) :
    SameOutside heads s (s.setAvailList kVal elem) := ⟨fun _ _ => rfl⟩

/-- The block at `elem` is taken off its list. -/
structure Unlists (heads : Set Nat) (elem : Nat) (s s' : BuddyAllocator) : Prop where
  pool : s'.pool = s.pool
  poolKVal : s'.poolKVal = s.poolKVal
  availList : s'.availList =
    if peek s.memory elem .linkB = 0 then
      Function.update s.availList (peek s.memory elem .kVal) (peek s.memory elem .linkF)
    else s.availList
  fields : ∀ x ∈ heads, ∀ field, peek s'.memory x field =
    if x = elem ∧ field ≠ .kVal then 0
    else if peek s.memory elem .linkB ≠ 0 ∧ x = peek s.memory elem .linkB ∧ field = .linkF then
      peek s.memory elem .linkF
    else if peek s.memory elem .linkF ≠ 0 ∧ x = peek s.memory elem .linkF ∧ field = .linkB then
      peek s.memory elem .linkB
    else peek s.memory x field
  outside : SameOutside heads s s'

/-- The neighbours of a block on its list, where there are any. -/
structure Neighbours (heads : Set Nat) (elem : Nat) (s : BuddyAllocator) : Prop where
  separate : Separate heads
  member : elem ∈ heads
  linkB : peek s.memory elem .linkB ≠ 0 →
    peek s.memory elem .linkB ∈ heads ∧ peek s.memory elem .linkB ≠ elem
  linkF : peek s.memory elem .linkF ≠ 0 →
    peek s.memory elem .linkF ∈ heads ∧ peek s.memory elem .linkF ≠ elem

theorem removeFromAvailList_unlists (near : Neighbours heads elem s) :
    Unlists heads elem s (s.removeFromAvailList elem) := by
  obtain ⟨separate, elemHead, prevHead, nextHead⟩ := near
  have prevSmall := peek_lt s.memory elem .linkB
  have nextSmall := peek_lt s.memory elem .linkF
  unfold removeFromAvailList
  -- the block before it is linked to the one behind
  generalize before : (if peek s.memory elem .linkB ≠ 0 then
      s.write (peek s.memory elem .linkB) .linkF (peek s.memory elem .linkF) else s) = s₁
  have fields₁ : ∀ x ∈ heads, ∀ field, peek s₁.memory x field =
      if peek s.memory elem .linkB ≠ 0 ∧ x = peek s.memory elem .linkB ∧ field = .linkF then
        peek s.memory elem .linkF else peek s.memory x field := by
    intro x xHead field
    rw [← before]
    split
    · rename_i some
      rw [write_peek separate (prevHead some).1 xHead, Nat.mod_eq_of_lt nextSmall]
      simp [some]
    · rename_i none
      simp [none]
  have same₁ : s₁.pool = s.pool ∧ s₁.poolKVal = s.poolKVal ∧ s₁.availList = s.availList ∧
      SameOutside heads s s₁ := by
    rw [← before]
    split
    · rename_i some
      exact ⟨write_pool _ _ _ _, write_poolKVal _ _ _ _, write_availList _ _ _ _,
        write_outside (prevHead some).1 _ _⟩
    · exact ⟨rfl, rfl, rfl, .refl _ _⟩
  have own₁ : ∀ field, peek s₁.memory elem field = peek s.memory elem field := by
    intro field
    rw [fields₁ elem elemHead, if_neg]
    rintro ⟨some, same, -⟩
    exact (prevHead some).2 same.symm
  simp only [own₁]
  -- the block behind it is linked to the one before
  generalize behind : (if peek s.memory elem .linkF ≠ 0 then
      s₁.write (peek s.memory elem .linkF) .linkB (peek s.memory elem .linkB) else s₁) = s₂
  have fields₂ : ∀ x ∈ heads, ∀ field, peek s₂.memory x field =
      if peek s.memory elem .linkF ≠ 0 ∧ x = peek s.memory elem .linkF ∧ field = .linkB then
        peek s.memory elem .linkB else peek s₁.memory x field := by
    intro x xHead field
    rw [← behind]
    split
    · rename_i some
      rw [write_peek separate (nextHead some).1 xHead, Nat.mod_eq_of_lt prevSmall]
      simp [some]
    · rename_i none
      simp [none]
  have same₂ : s₂.pool = s.pool ∧ s₂.poolKVal = s.poolKVal ∧ s₂.availList = s.availList ∧
      SameOutside heads s s₂ := by
    obtain ⟨pool, poolKVal, availList, outside⟩ := same₁
    rw [← behind]
    split
    · rename_i some
      rw [write_pool, write_poolKVal, write_availList]
      exact ⟨pool, poolKVal, availList, outside.trans (write_outside (nextHead some).1 _ _)⟩
    · exact ⟨pool, poolKVal, availList, outside⟩
  have own₂ : ∀ field, peek s₂.memory elem field = peek s.memory elem field := by
    intro field
    rw [fields₂ elem elemHead, if_neg, own₁]
    rintro ⟨some, same, -⟩
    exact (nextHead some).2 same.symm
  simp only [own₂]
  obtain ⟨pool, poolKVal, availList, outside⟩ := same₂
  -- the head of the list moves on; no field changes
  generalize moved : (if peek s.memory elem .linkB = 0 then
      s₂.setAvailList (peek s.memory elem .kVal) (peek s.memory elem .linkF) else s₂) = s₃
  have same₃ : s₃.pool = s.pool ∧ s₃.poolKVal = s.poolKVal ∧ s₃.memory = s₂.memory ∧
      s₃.availList = if peek s.memory elem .linkB = 0 then
        Function.update s.availList (peek s.memory elem .kVal) (peek s.memory elem .linkF)
      else s.availList := by
    rw [← moved, ← availList]
    split
    · exact ⟨pool, poolKVal, rfl, rfl⟩
    · exact ⟨pool, poolKVal, rfl, rfl⟩
  obtain ⟨pool₃, poolKVal₃, memory₃, availList₃⟩ := same₃
  constructor
  case pool => rw [unlisted_pool, pool₃]
  case poolKVal => rw [unlisted_poolKVal, poolKVal₃]
  case availList => rw [unlisted_availList, availList₃]
  case fields =>
    intro x xHead field
    rw [unlisted_peek separate elemHead xHead, memory₃, fields₂ x xHead, fields₁ x xHead]
    split
    · rfl
    · -- at most one of the two neighbours' fields is meant
      by_cases isLinkF : field = .linkF
      · simp [isLinkF]
      · simp [isLinkF]
  case outside =>
    constructor
    intro x away
    rw [(unlisted_outside elemHead).same x away, memory₃, outside.same x away]

/-- The first block of a list has none before it. -/
theorem popAvailList_unlists {kVal : Nat} (head : s.availList kVal = elem) (present : elem ≠ 0)
    (near : Neighbours heads elem s) (first : peek s.memory elem .linkB = 0)
    (order : peek s.memory elem .kVal = kVal) :
    (s.popAvailList kVal).1 = elem ∧ Unlists heads elem s (s.popAvailList kVal).2 := by
  obtain ⟨separate, elemHead, -, nextHead⟩ := near
  unfold popAvailList
  rw [head]
  simp only [present, if_false]
  split
  · rename_i some
    refine ⟨rfl, ?_⟩
    constructor
    case pool => simp
    case poolKVal => simp
    case availList => simp [first, order]
    case fields =>
      intro x xHead field
      rw [setAvailList_memory, write_peek separate (nextHead some).1 xHead,
        unlisted_peek separate elemHead xHead]
      have other := (nextHead some).2
      by_cases next : x = peek s.memory elem .linkF
      · have ne : x ≠ elem := next ▸ other
        by_cases back : field = .linkB
        · simp [next, back, some, first, other]
        · simp [back, ne, first]
      · simp [next, first]
    case outside =>
      exact ((unlisted_outside elemHead).trans (write_outside (nextHead some).1 _ _)).trans
        (setAvailList_outside _ _)
  · rename_i none
    have none : peek s.memory elem .linkF = 0 := by simpa using none
    refine ⟨rfl, ?_⟩
    constructor
    case pool => simp
    case poolKVal => simp
    case availList => simp [first, order, none]
    case fields =>
      intro x xHead field
      rw [setAvailList_memory, unlisted_peek separate elemHead xHead]
      simp [first, none]
    case outside => exact (unlisted_outside elemHead).trans (setAvailList_outside _ _)

/-- The block at `elem` becomes the first of the list of its order. -/
structure Lists (heads : Set Nat) (elem : Nat) (s s' : BuddyAllocator) : Prop where
  pool : s'.pool = s.pool
  poolKVal : s'.poolKVal = s.poolKVal
  availList : s'.availList = Function.update s.availList (peek s.memory elem .kVal) elem
  fields : ∀ x ∈ heads, ∀ field, peek s'.memory x field =
    if x = elem then
      match field with
      | .linkB => 0
      | .linkF => s.availList (peek s.memory elem .kVal)
      | .kVal => peek s.memory elem .kVal
      | .tag => 1
    else if s.availList (peek s.memory elem .kVal) ≠ 0 ∧
        x = s.availList (peek s.memory elem .kVal) ∧ field = .linkB then elem
    else peek s.memory x field
  outside : SameOutside heads s s'

theorem pushAvailList_lists (separate : Separate heads) (elemHead : elem ∈ heads)
    (elemSmall : elem < 2 ^ 64) (nextSmall : s.availList (peek s.memory elem .kVal) < 2 ^ 64)
    (nextHead : s.availList (peek s.memory elem .kVal) ≠ 0 →
      s.availList (peek s.memory elem .kVal) ∈ heads ∧ s.availList (peek s.memory elem .kVal) ≠ elem) :
    Lists heads elem s (s.pushAvailList elem) := by
  unfold pushAvailList
  dsimp only
  generalize order : peek s.memory elem .kVal = kVal at *
  generalize isNext : s.availList kVal = next at *
  have nextSmall : next % 18446744073709551616 = next := by omega
  have elemSmall : elem % 18446744073709551616 = elem := by omega
  -- the fields of the block itself
  generalize listed : ((s.write elem .linkB 0).write elem .linkF next).write elem .tag 1 = s₁
  have own : ∀ x ∈ heads, ∀ field, peek s₁.memory x field =
      if x = elem then
        match field with
        | .linkB => 0
        | .linkF => next
        | .kVal => kVal
        | .tag => 1
      else peek s.memory x field := by
    intro x xHead field
    rw [← listed]
    simp only [write_peek separate elemHead xHead]
    by_cases same : x = elem
    · subst same
      cases field <;> simp [Field.width, nextSmall, order]
    · simp [same]
  have same₁ : s₁.pool = s.pool ∧ s₁.poolKVal = s.poolKVal ∧ s₁.availList = s.availList ∧
      SameOutside heads s s₁ := by
    rw [← listed]
    exact ⟨rfl, rfl, rfl,
      ((write_outside elemHead _ _).trans (write_outside elemHead _ _)).trans (write_outside elemHead _ _)⟩
  obtain ⟨pool, poolKVal, availList, outside⟩ := same₁
  split
  · rename_i some
    constructor
    case pool => simp [pool]
    case poolKVal => simp [poolKVal]
    case availList => simp [availList, order]
    case fields =>
      intro x xHead field
      rw [setAvailList_memory, write_peek separate (nextHead some).1 xHead, own x xHead, order, isNext]
      have other := (nextHead some).2
      by_cases same : x = next
      · have ne : x ≠ elem := same ▸ other
        by_cases back : field = .linkB
        · simp [same, back, some, other, Field.width, elemSmall]
        · simp [back, ne]
      · simp [same]
    case outside =>
      exact (outside.trans (write_outside (nextHead some).1 _ _)).trans (setAvailList_outside _ _)
  · rename_i none
    have none : next = 0 := by simpa using none
    constructor
    case pool => simp [pool]
    case poolKVal => simp [poolKVal]
    case availList => simp [availList, order]
    case fields =>
      intro x xHead field
      rw [setAvailList_memory, own x xHead, order, isNext]
      simp [none]
    case outside => exact outside.trans (setAvailList_outside _ _)

end effects

end BuddyAllocator

end Everscale
