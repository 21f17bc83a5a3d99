/-
# Theory.SortedTable -- a table in the order of a comparator

A table lists elements by their keys, each key once.  `lookup`, `put`, `drop` and `change` say what a
dictionary does to it; `Cut` says how the sign of a comparison runs along it, first positive, then zero at most once,
then negative, and with it the search for a key is a matter of where the list is cut
(`lookup_split`, `drop_split`, `change_split`).  What a changed table has for a key is what the old one had,
or what was changed (`lookup_put`, `lookup_drop`, `lookup_change`, `lookup_filter`).
-/
import Everscale.Theory.Comparison

namespace Everscale.Theory.SortedTable

set_option autoImplicit false

variable {α κ : Type*}

/-- Along the list `f` is positive, then at most once zero, then negative. -/
def Cut (f : α → Int) (xs : List α) : Prop := xs.Pairwise fun a b => f a ≤ 0 → f b < 0

theorem Cut.around {f : α → Int} {xs ys : List α} {a : α} (cut : Cut f (xs ++ a :: ys)) (zero : f a = 0) :
    (∀ b ∈ xs, 0 < f b) ∧ ∀ b ∈ ys, f b < 0 := by
  obtain ⟨-, atNode, across⟩ := List.pairwise_append.1 cut
  constructor
  · intro b member
    have := across b member a (.head _)
    omega
  · intro b member
    exact (List.pairwise_cons.1 atNode).1 b member (by omega)

section Table

variable (compare : κ → κ → Int) (key : α → κ)

def Sorted (xs : List α) : Prop := xs.Pairwise fun a b => compare (key a) (key b) < 0

def lookup (k : κ) (xs : List α) : Option α := xs.find? fun a => compare k (key a) = 0

/-- The element between those with smaller and those with larger keys. -/
def put (e : α) (xs : List α) : List α :=
  xs.filter (fun a => 0 < compare (key e) (key a)) ++ e :: xs.filter (fun a => compare (key e) (key a) < 0)

def drop (k : κ) (xs : List α) : List α := xs.filter fun a => compare k (key a) ≠ 0

/-- Another element in the place of the one with the key. -/
def change (k : κ) (f : α → α) (xs : List α) : List α :=
  xs.map fun a => if compare k (key a) = 0 then f a else a

end Table

variable {compare : κ → κ → Int} {key : α → κ} {xs ys : List α} {a e : α} {k : κ}

theorem Sorted.cut (orders : OrdersOn compare Set.univ) (sorted : Sorted compare key xs) (k : κ) :
    Cut (fun a => compare k (key a)) xs :=
  sorted.imp fun below le => orders.neg_of_le_of_neg trivial trivial trivial le below

theorem Sorted.put (orders : OrdersOn compare Set.univ) (sorted : Sorted compare key xs) :
    Sorted compare key (put compare key e xs) := by
  have above : ∀ a ∈ xs.filter (fun a => 0 < compare (key e) (key a)), compare (key a) (key e) < 0 := by
    intro a member
    have positive : 0 < compare (key e) (key a) := by simpa using (List.mem_filter.1 member).2
    exact (orders.neg_iff trivial trivial).2 positive
  refine List.pairwise_append.2 ⟨sorted.sublist List.filter_sublist,
    List.pairwise_cons.2 ⟨fun b member => ?_, sorted.sublist List.filter_sublist⟩, fun a member b inside => ?_⟩
  · simpa using (List.mem_filter.1 member).2
  · rcases List.mem_cons.1 inside with rfl | later
    · exact above a member
    · have below : compare (key e) (key b) < 0 := by simpa using (List.mem_filter.1 later).2
      exact orders.neg_of_neg_of_le trivial trivial trivial (above a member) below.le

theorem Sorted.drop (sorted : Sorted compare key xs) : Sorted compare key (drop compare key k xs) :=
  sorted.sublist List.filter_sublist

theorem lookup_eq_none (missing : ∀ a ∈ xs, compare k (key a) ≠ 0) : lookup compare key k xs = none :=
  List.find?_eq_none.2 fun a member => by simpa using missing a member

/-- Where the comparison is zero, the lookup has found what it is for. -/
theorem lookup_split (cut : Cut (fun a => compare k (key a)) (xs ++ a :: ys)) (zero : compare k (key a) = 0) :
    lookup compare key k (xs ++ a :: ys) = some a := by
  have before := (cut.around zero).1
  have none : xs.find? (fun a => decide (compare k (key a) = 0)) = none := by
    refine List.find?_eq_none.2 fun b member => ?_
    have := before b member
    simp
    omega
  rw [lookup, List.find?_append, none, Option.none_or]
  exact List.find?_cons_of_pos (decide_eq_true zero)

theorem drop_split (cut : Cut (fun a => compare k (key a)) (xs ++ a :: ys)) (zero : compare k (key a) = 0) :
    drop compare key k (xs ++ a :: ys) = xs ++ ys := by
  obtain ⟨before, after⟩ := cut.around zero
  have keep : ∀ zs : List α, (∀ b ∈ zs, compare k (key b) ≠ 0) →
      zs.filter (fun a => decide (compare k (key a) ≠ 0)) = zs := fun zs nonzero =>
    List.filter_eq_self.2 fun b member => decide_eq_true (nonzero b member)
  rw [drop, List.filter_append, List.filter_cons_of_neg (by simp [zero]),
    keep xs fun b member => by have := before b member; omega,
    keep ys fun b member => by have := after b member; omega]

theorem change_split (cut : Cut (fun a => compare k (key a)) (xs ++ a :: ys)) (zero : compare k (key a) = 0)
    (f : α → α) : change compare key k f (xs ++ a :: ys) = xs ++ f a :: ys := by
  obtain ⟨before, after⟩ := cut.around zero
  have keep : ∀ zs : List α, (∀ b ∈ zs, compare k (key b) ≠ 0) →
      zs.map (fun a => if compare k (key a) = 0 then f a else a) = zs := fun zs nonzero =>
    (List.map_congr_left fun b member => if_neg (nonzero b member)).trans (List.map_id zs)
  rw [change, List.map_append, List.map_cons, if_pos zero,
    keep xs fun b member => by have := before b member; omega,
    keep ys fun b member => by have := after b member; omega]

theorem length_put_le (compare : κ → κ → Int) (key : α → κ) (e : α) (xs : List α) :
    (put compare key e xs).length ≤ xs.length + 1 := by
  have both : (xs.filter fun a => 0 < compare (key e) (key a)).length +
      (xs.filter fun a => compare (key e) (key a) < 0).length ≤ xs.length := by
    induction xs with
    | nil => exact Nat.le_refl 0
    | cons a xs ih =>
        simp only [List.filter_cons, List.length_cons, decide_eq_true_eq]
        split <;> split <;> grind
  simp only [put, List.length_append, List.length_cons]
  omega

/-- What is in the table after a new element came in. -/
theorem put_perm (nonzero : ∀ a ∈ xs, compare (key e) (key a) ≠ 0) : (put compare key e xs).Perm (e :: xs) := by
  have same : xs.filter (fun a => decide (compare (key e) (key a) < 0)) =
      xs.filter (fun a => !decide (0 < compare (key e) (key a))) := by
    refine List.filter_congr fun a member => ?_
    have := nonzero a member
    rw [← decide_not]
    exact decide_eq_decide.2 (by omega)
  rw [put, same]
  exact List.perm_middle.trans ((List.filter_append_perm _ xs).cons e)

/-! ## What a table has for a key -/

section Lookup

variable (orders : OrdersOn compare Set.univ)

include orders

theorem lookup_eq_some_iff (sorted : Sorted compare key xs) :
    lookup compare key k xs = some a ↔ a ∈ xs ∧ compare k (key a) = 0 := by
  constructor
  · intro found
    exact ⟨List.mem_of_find?_eq_some found, by simpa using List.find?_some found⟩
  · rintro ⟨member, zero⟩
    obtain ⟨us, vs, rfl⟩ := List.append_of_mem member
    exact lookup_split (sorted.cut orders k) zero

theorem lookup_filter (sorted : Sorted compare key xs) (p : α → Bool) :
    lookup compare key k (xs.filter p) = (lookup compare key k xs).filter p := by
  ext a
  rw [lookup_eq_some_iff orders (sorted.sublist List.filter_sublist), Option.filter_eq_some_iff,
    lookup_eq_some_iff orders sorted, List.mem_filter]
  exact and_right_comm

theorem lookup_put (sorted : Sorted compare key xs) (nonzero : ∀ a ∈ xs, compare (key e) (key a) ≠ 0) :
    lookup compare key k (put compare key e xs) =
      if compare k (key e) = 0 then some e else lookup compare key k xs := by
  have member (a : α) : a ∈ put compare key e xs ↔ a = e ∨ a ∈ xs := by
    rw [(put_perm nonzero).mem_iff, List.mem_cons]
  split
  · rename_i zero
    exact (lookup_eq_some_iff orders (sorted.put orders)).2 ⟨(member e).2 (.inl rfl), zero⟩
  · rename_i other
    ext a
    rw [lookup_eq_some_iff orders (sorted.put orders), lookup_eq_some_iff orders sorted, member]
    constructor
    · rintro ⟨rfl | inside, zero⟩
      · exact absurd zero other
      · exact ⟨inside, zero⟩
    · rintro ⟨inside, zero⟩
      exact ⟨.inr inside, zero⟩

theorem lookup_drop (sorted : Sorted compare key xs) (k' : κ) :
    lookup compare key k' (drop compare key k xs) =
      if compare k' k = 0 then none else lookup compare key k' xs := by
  rw [drop, lookup_filter orders sorted]
  cases found : lookup compare key k' xs with
  | none => simp
  | some a =>
      obtain ⟨-, zero⟩ := (lookup_eq_some_iff orders sorted).1 found
      have same : compare k (key a) = 0 ↔ compare k' k = 0 := orders.zero_congr trivial trivial trivial zero
      by_cases tie : compare k' k = 0
      · simp [tie, same.2 tie]
      · simp [tie, mt same.1 tie]

/-- A change that leaves the keys as they are. -/
theorem lookup_change (sorted : Sorted compare key xs) {f : α → α} (keeps : ∀ a, key (f a) = key a) (k' : κ) :
    lookup compare key k' (change compare key k f xs) =
      if compare k' k = 0 then (lookup compare key k' xs).map f else lookup compare key k' xs := by
  have shifted : lookup compare key k' (change compare key k f xs) =
      (lookup compare key k' xs).map fun a => if compare k (key a) = 0 then f a else a := by
    rw [change, lookup, List.find?_map]
    congr 2
    funext a
    simp only [Function.comp_apply]
    split
    · rw [keeps]
    · rfl
  rw [shifted]
  cases found : lookup compare key k' xs with
  | none => simp
  | some a =>
      obtain ⟨-, zero⟩ := (lookup_eq_some_iff orders sorted).1 found
      have same : compare k (key a) = 0 ↔ compare k' k = 0 := orders.zero_congr trivial trivial trivial zero
      by_cases tie : compare k' k = 0
      · simp [tie, same.2 tie]
      · simp [tie, mt same.1 tie]

end Lookup

end Everscale.Theory.SortedTable
