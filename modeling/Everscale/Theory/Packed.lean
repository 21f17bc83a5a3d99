/-
# Theory.Packed -- entries packed one behind another into an array of octets

An entry is the length of its key, the key and a value of fixed width; a zero octet ends the
entries and the rest of the array is slack.  Reading and writing are checked: `none` stands for
an access beyond the array.

`seek` walks from length to length.  On an array that holds entries (`Packs`) it never leaves the
array, and stops at the entry with the key, or at the end (`seek_packs`).  Appending, replacing a
value and closing up over an entry keep the array packed; what they do to the entries is what
inserting, updating and removing do to a finite map (`entryMap`).
-/
import Mathlib.Algebra.Group.Int.Defs
import Mathlib.Algebra.Group.Nat.Defs
import Mathlib.Logic.Function.Basic
import Mathlib.Data.List.Nodup
import Mathlib.Tactic.Common

namespace Everscale.Theory

set_option autoImplicit false

/-! ## Arrays -/

section arrays

variable {β : Type*}

/-- The `n` octets at `p`. -/
def slice (b : List β) (p n : Nat) : Option (List β) :=
  if p + n ≤ b.length then some ((b.drop p).take n) else none

/-- The octets at `p` become those of `new`. -/
def overwrite (b : List β) (p : Nat) (new : List β) : Option (List β) :=
  if p + new.length ≤ b.length then some (b.take p ++ new ++ b.drop (p + new.length)) else none

/-- `memmove(b + p, b + next, size)`, with `p` in front of `next`. -/
def closeUp (b : List β) (p next size : Nat) : Option (List β) :=
  if p ≤ next ∧ next + size ≤ b.length then
    some (b.take p ++ (b.drop next).take size ++ b.drop (p + size))
  else none

variable {front middle back : List β} {p n : Nat}

theorem slice_middle (hp : front.length = p) (hn : middle.length = n) :
    slice (front ++ (middle ++ back)) p n = some middle := by
  subst hp hn
  rw [slice, if_pos (by simp), List.drop_left, List.take_left]

theorem get_middle {x : β} (hp : front.length = p) : (front ++ x :: back)[p]? = some x := by
  subst hp
  simp

theorem overwrite_middle {new : List β} (hp : front.length = p) (hn : middle.length = new.length) :
    overwrite (front ++ (middle ++ back)) p new = some (front ++ (new ++ back)) := by
  subst hp
  have rest : (front ++ (middle ++ back)).drop (front.length + new.length) = back := by
    rw [← List.drop_drop, List.drop_left, ← hn, List.drop_left]
  rw [overwrite, if_pos (by simp only [List.length_append]; omega), List.take_left, rest, List.append_assoc]

theorem overwrite_front {x y : β} : overwrite (x :: back) 0 [y] = some (y :: back) := by
  rw [overwrite, if_pos (by simp)]
  simp

theorem closeUp_middle {next size : Nat} (hp : front.length = p) (hn : p + middle.length = next)
    (hs : back.length = size) :
    ∃ slack, closeUp (front ++ (middle ++ back)) p next size = some (front ++ (back ++ slack)) ∧
      slack.length = middle.length := by
  subst hp hn hs
  have rest : (front ++ (middle ++ back)).drop (front.length + middle.length) = back := by
    rw [← List.drop_drop, List.drop_left, List.drop_left]
  rw [closeUp, if_pos (by simp only [List.length_append]; omega), List.take_left, rest, List.take_length,
    List.append_assoc]
  refine ⟨_, rfl, ?_⟩
  simp only [List.length_drop, List.length_append]
  omega

end arrays

/-! ## Entries -/

/-- Values that are stored in octets, always in the same number of them. -/
structure Codec (ν : Type*) where
  width : Nat
  encode : ν → List UInt8
  decode : List UInt8 → ν
  length_encode : ∀ v, (encode v).length = width
  decode_encode : ∀ v, decode (encode v) = v

abbrev Key := List UInt8

variable {ν : Type*} (c : Codec ν)

def record (key : Key) (value : ν) : List UInt8 :=
  UInt8.ofNat key.length :: (key ++ c.encode value)

def records (es : List (Key × ν)) : List UInt8 := es.flatMap fun e => record c e.1 e.2

/-- Keys of 1 to 255 octets, all different. -/
structure WellKeyed (es : List (Key × ν)) : Prop where
  sized : ∀ e ∈ es, 1 ≤ e.1.length ∧ e.1.length ≤ 255
  distinct : (es.map Prod.fst).Nodup

/-- The array holds these entries. -/
structure Packs (b : List UInt8) (es : List (Key × ν)) : Prop where
  keyed : WellKeyed es
  layout : ∃ slack, b = records c es ++ 0 :: slack

/-- The entries as a finite map. -/
def entryMap (es : List (Key × ν)) : Key → Option ν := fun key => es.lookup key

/-- Where the entry with the key begins (`true`), or where the entries end (`false`). -/
def seek (b : List UInt8) (capacity width : Nat) (key : Key) : Nat → Nat → Option (Bool × Nat)
  | 0, _ => none
  | fuel + 1, p =>
      match b[p]? with
      | none => none
      | some size =>
          if size = 0 then some (false, p)
          else
            let same := if size.toNat = key.length then (slice b (p + 1) size.toNat).map (· == key)
              else some false
            match same with
            | none => none
            | some true => some (true, p)
            | some false =>
                -- the walk asserts that it stays within the capacity
                if capacity < p + 1 + size.toNat + width then none
                else seek b capacity width key fuel (p + 1 + size.toNat + width)

variable {c} {key : Key} {value : ν} {es before after : List (Key × ν)} {b : List UInt8}

@[simp] theorem length_record : (record c key value).length = 1 + key.length + c.width := by
  simp only [record, List.length_cons, List.length_append, c.length_encode]
  omega

@[simp] theorem records_nil : records c ([] : List (Key × ν)) = [] := rfl

@[simp] theorem records_cons {e : Key × ν} : records c (e :: es) = record c e.1 e.2 ++ records c es :=
  List.flatMap_cons

@[simp] theorem records_append : records c (before ++ after) = records c before ++ records c after :=
  List.flatMap_append

theorem length_le_records : es.length ≤ (records c es).length := by
  induction es with
  | nil => exact Nat.le_refl _
  | cons e rest ih =>
      rw [records_cons, List.length_append, length_record, List.length_cons]
      omega

theorem WellKeyed.tail {e : Key × ν} (h : WellKeyed (e :: es)) : WellKeyed es :=
  ⟨fun e' member => h.sized e' (List.mem_cons_of_mem _ member), (List.nodup_cons.mp h.distinct).2⟩

/-- What a walk finds: the one entry with the key, or none. -/
inductive Sought (d : Codec ν) (k : Key) (entries : List (Key × ν)) (p : Nat) : Bool × Nat → Prop where
  | found {front value back} : entries = front ++ (k, value) :: back →
      Sought d k entries p (true, p + (records d front).length)
  | missing : k ∉ entries.map Prod.fst → Sought d k entries p (false, p + (records d entries).length)

theorem Sought.here {p : Nat} : Sought c key ((key, value) :: es) p (true, p) :=
  show Sought c key _ p (true, p + (records c []).length) from .found rfl

theorem Sought.behind {k : Key} {v : ν} {p : Nat} {found : Bool × Nat} (ne : k ≠ key)
    (h : Sought c key es (p + 1 + k.length + c.width) found) : Sought c key ((k, v) :: es) p found := by
  have onward : ∀ some : List (Key × ν), p + 1 + k.length + c.width + (records c some).length =
      p + (records c ((k, v) :: some)).length := fun some => by
    rw [records_cons, List.length_append, length_record]
    dsimp only
    omega
  cases h with
  | found split =>
      rw [onward, split]
      exact .found rfl
  | missing absent =>
      rw [onward]
      refine .missing ?_
      rw [List.map_cons, List.mem_cons]
      exact not_or.mpr ⟨fun same => ne same.symm, absent⟩

theorem length_octet (low : 1 ≤ key.length) (high : key.length ≤ 255) :
    (UInt8.ofNat key.length).toNat = key.length ∧ UInt8.ofNat key.length ≠ 0 := by
  have size : (UInt8.ofNat key.length).toNat = key.length := by
    rw [UInt8.toNat_ofNat']
    exact Nat.mod_eq_of_lt (by omega)
  refine ⟨size, fun zero => ?_⟩
  rw [zero] at size
  exact absurd size.symm (Nat.pos_iff_ne_zero.mp low)

theorem seek_records {front slack : List UInt8} (keyed : WellKeyed es) {p fuel capacity : Nat}
    (hp : front.length = p) (enough : es.length < fuel)
    (within : (front ++ (records c es ++ 0 :: slack)).length ≤ capacity) :
    ∃ found, seek (front ++ (records c es ++ 0 :: slack)) capacity c.width key fuel p = some found ∧
      Sought c key es p found := by
  induction es generalizing front p fuel with
  | nil =>
      obtain ⟨fuel, rfl⟩ := Nat.exists_eq_succ_of_ne_zero (Nat.pos_iff_ne_zero.mp enough)
      refine ⟨(false, p), ?_, .missing (by simp)⟩
      rw [records_nil, List.nil_append, seek, get_middle hp]
      rfl
  | cons e rest ih =>
      obtain ⟨k, v⟩ := e
      obtain ⟨fuel, rfl⟩ := Nat.exists_eq_succ_of_ne_zero (Nat.pos_iff_ne_zero.mp (Nat.zero_lt_of_lt enough))
      obtain ⟨low, high⟩ : 1 ≤ k.length ∧ k.length ≤ 255 := keyed.sized (k, v) List.mem_cons_self
      obtain ⟨size, nonzero⟩ := length_octet low high
      have here : front ++ (records c ((k, v) :: rest) ++ 0 :: slack) =
          front ++ UInt8.ofNat k.length :: (k ++ (c.encode v ++ (records c rest ++ 0 :: slack))) := by
        simp [record]
      have whole : front ++ (records c ((k, v) :: rest) ++ 0 :: slack) =
          (front ++ record c k v) ++ (records c rest ++ 0 :: slack) := by
        simp
      have keyAt : slice (front ++ (records c ((k, v) :: rest) ++ 0 :: slack)) (p + 1) k.length = some k := by
        rw [here, List.append_cons]
        exact slice_middle (by simp [hp]) rfl
      have inside : ¬ capacity < p + 1 + k.length + c.width := by
        simp only [List.length_append, records_cons, length_record, hp] at within
        omega
      have lengthAt : (front ++ (records c ((k, v) :: rest) ++ 0 :: slack))[p]? =
          some (UInt8.ofNat k.length) := by
        rw [here]
        exact get_middle hp
      rw [seek, lengthAt]
      simp only [nonzero, if_false, size, keyAt, Option.map_some]
      rcases eq_or_ne k key with rfl | ne
      · refine ⟨(true, p), ?_, ?_⟩
        · simp
        · exact .here
      · have differs : (if k.length = key.length then some (k == key) else some false) = some false := by
          split <;> simp [ne]
        simp only [differs, inside, if_false]
        have next : (front ++ record c k v).length = p + 1 + k.length + c.width := by
          simp only [List.length_append, length_record, hp]
          omega
        obtain ⟨found, ends, sought⟩ := ih keyed.tail next (Nat.lt_of_succ_lt_succ enough) (whole ▸ within)
        rw [whole]
        exact ⟨found, ends, sought.behind ne⟩

/-- From the beginning, with one turn for every octet of the array. -/
theorem seek_packs (h : Packs c b es) (key : Key) :
    ∃ found, seek b b.length c.width key b.length 0 = some found ∧ Sought c key es 0 found := by
  obtain ⟨slack, rfl⟩ := h.layout
  have enough : es.length < (records c es ++ 0 :: slack).length := by
    have : es.length ≤ (records c es).length := length_le_records
    simp only [List.length_append, List.length_cons]
    omega
  exact seek_records h.keyed (List.length_nil (α := UInt8)) enough (Nat.le_refl _)

/-! ## Changing an array -/

theorem WellKeyed.middle (h : WellKeyed (before ++ (key, value) :: after)) :
    (1 ≤ key.length ∧ key.length ≤ 255) ∧ key ∉ before.map Prod.fst ∧ key ∉ after.map Prod.fst := by
  have distinct := h.distinct
  rw [List.map_append, List.map_cons, List.nodup_middle, List.nodup_cons, List.mem_append] at distinct
  exact ⟨h.sized (key, value) (by simp), not_or.mp distinct.1⟩

theorem WellKeyed.replace (h : WellKeyed (before ++ (key, value) :: after)) (new : ν) :
    WellKeyed (before ++ (key, new) :: after) := by
  refine ⟨fun e member => ?_, by simpa using h.distinct⟩
  rcases List.mem_append.mp member with member | member
  · exact h.sized e (List.mem_append_left _ member)
  · rcases List.mem_cons.mp member with rfl | member
    · exact h.middle.1
    · exact h.sized e (by simp [member])

theorem WellKeyed.remove (h : WellKeyed (before ++ (key, value) :: after)) : WellKeyed (before ++ after) := by
  refine ⟨fun e member => h.sized e ?_, ?_⟩
  · rcases List.mem_append.mp member with member | member <;> simp [member]
  · have distinct := h.distinct
    rw [List.map_append, List.map_cons, List.nodup_middle] at distinct
    rw [List.map_append]
    exact (List.nodup_cons.mp distinct).2

theorem WellKeyed.insert (h : WellKeyed (before ++ after)) (low : 1 ≤ key.length) (high : key.length ≤ 255)
    (absent : key ∉ (before ++ after).map Prod.fst) : WellKeyed (before ++ (key, value) :: after) := by
  refine ⟨fun e member => ?_, ?_⟩
  · rcases List.mem_cons.mp (List.perm_middle.mem_iff.mp member) with rfl | member
    · exact ⟨low, high⟩
    · exact h.sized e member
  · rw [List.map_append, List.map_cons, List.nodup_middle, ← List.map_append]
    exact List.nodup_cons.mpr ⟨absent, h.distinct⟩

theorem WellKeyed.add (h : WellKeyed es) (low : 1 ≤ key.length) (high : key.length ≤ 255)
    (absent : key ∉ es.map Prod.fst) : WellKeyed (es ++ [(key, value)]) := by
  rw [← List.append_nil es] at h absent
  exact h.insert low high absent

theorem Packs.end_at (h : Packs c b es) : b[(records c es).length]? = some 0 := by
  obtain ⟨slack, rfl⟩ := h.layout
  exact get_middle rfl

/-- The entries of an array, as far as `fuel` reaches. -/
def unpack (c : Codec ν) : Nat → List UInt8 → List (Key × ν)
  | fuel + 1, size :: rest =>
      if size = 0 then []
      else (rest.take size.toNat, c.decode ((rest.drop size.toNat).take c.width)) ::
        unpack c fuel ((rest.drop size.toNat).drop c.width)
  | _, _ => []

theorem unpack_records (keyed : WellKeyed es) (slack : List UInt8) {fuel : Nat} (enough : es.length < fuel) :
    unpack c fuel (records c es ++ 0 :: slack) = es := by
  induction es generalizing fuel with
  | nil =>
      obtain ⟨fuel, rfl⟩ := Nat.exists_eq_succ_of_ne_zero (Nat.pos_iff_ne_zero.mp enough)
      rw [records_nil, List.nil_append, unpack, if_pos rfl]
  | cons e rest ih =>
      obtain ⟨k, v⟩ := e
      obtain ⟨fuel, rfl⟩ := Nat.exists_eq_succ_of_ne_zero (Nat.pos_iff_ne_zero.mp (Nat.zero_lt_of_lt enough))
      obtain ⟨low, high⟩ : 1 ≤ k.length ∧ k.length ≤ 255 := keyed.sized (k, v) List.mem_cons_self
      obtain ⟨size, nonzero⟩ := length_octet low high
      have here : records c ((k, v) :: rest) ++ 0 :: slack =
          UInt8.ofNat k.length :: (k ++ (c.encode v ++ (records c rest ++ 0 :: slack))) := by
        simp [record]
      rw [here, unpack, if_neg nonzero, size, List.take_left, List.drop_left]
      have value : c.width = (c.encode v).length := (c.length_encode v).symm
      rw [value, List.take_left, List.drop_left, c.decode_encode,
        ih keyed.tail (Nat.lt_of_succ_lt_succ enough)]

theorem Packs.unpack_eq (h : Packs c b es) : unpack c b.length b = es := by
  obtain ⟨slack, rfl⟩ := h.layout
  refine unpack_records h.keyed slack ?_
  have enough : es.length ≤ (records c es).length := length_le_records
  simp only [List.length_append, List.length_cons]
  omega

theorem Packs.unique {es' : List (Key × ν)} (h : Packs c b es) (h' : Packs c b es') : es = es' :=
  h.unpack_eq.symm.trans h'.unpack_eq

/-- The length of an entry and its key. -/
theorem Packs.key_at (h : Packs c b (before ++ (key, value) :: after)) :
    ∃ size, b[(records c before).length]? = some size ∧ size ≠ 0 ∧ size.toNat = key.length ∧
      slice b ((records c before).length + 1) key.length = some key := by
  obtain ⟨size, nonzero⟩ := length_octet h.keyed.middle.1.1 h.keyed.middle.1.2
  obtain ⟨slack, rfl⟩ := h.layout
  have here : records c (before ++ (key, value) :: after) ++ 0 :: slack =
      records c before ++ UInt8.ofNat key.length :: (key ++ (c.encode value ++ (records c after ++ 0 :: slack))) := by
    simp [record]
  refine ⟨UInt8.ofNat key.length, ?_, nonzero, size, ?_⟩
  · rw [here]
    exact get_middle rfl
  · rw [here, List.append_cons]
    exact slice_middle (by simp) rfl

/-- The array from the key of an entry on. -/
theorem Packs.behind (h : Packs c b (before ++ (key, value) :: after)) :
    ∃ more, b.drop ((records c before).length + 1) = key ++ (c.encode value ++ more) := by
  obtain ⟨slack, rfl⟩ := h.layout
  have here : records c (before ++ (key, value) :: after) ++ 0 :: slack =
      (records c before ++ [UInt8.ofNat key.length]) ++ (key ++ (c.encode value ++ (records c after ++ 0 :: slack))) := by
    simp [record]
  refine ⟨records c after ++ 0 :: slack, ?_⟩
  rw [here]
  exact List.drop_left' (by simp)

/-- The value of an entry. -/
theorem Packs.value_at (h : Packs c b (before ++ (key, value) :: after)) :
    slice b ((records c before).length + 1 + key.length) c.width = some (c.encode value) := by
  obtain ⟨slack, rfl⟩ := h.layout
  have here : records c (before ++ (key, value) :: after) ++ 0 :: slack =
      (records c before ++ UInt8.ofNat key.length :: key) ++ (c.encode value ++ (records c after ++ 0 :: slack)) := by
    simp [record]
  rw [here]
  refine slice_middle ?_ (c.length_encode value)
  simp only [List.length_append, List.length_cons]
  omega

theorem Packs.set_value (h : Packs c b (before ++ (key, value) :: after)) (new : ν) :
    ∃ b', overwrite b ((records c before).length + 1 + key.length) (c.encode new) = some b' ∧
      b'.length = b.length ∧ Packs c b' (before ++ (key, new) :: after) := by
  obtain ⟨slack, rfl⟩ := h.layout
  have whole : ∀ v, records c (before ++ (key, v) :: after) ++ 0 :: slack =
      (records c before ++ UInt8.ofNat key.length :: key) ++ (c.encode v ++ (records c after ++ 0 :: slack)) :=
    fun v => by simp [record]
  have start : (records c before ++ UInt8.ofNat key.length :: key).length =
      (records c before).length + 1 + key.length := by
    simp only [List.length_append, List.length_cons]
    omega
  refine ⟨records c (before ++ (key, new) :: after) ++ 0 :: slack, ?_, ?_, h.keyed.replace new, slack, rfl⟩
  · rw [whole value, whole new]
    exact overwrite_middle start (by rw [c.length_encode, c.length_encode])
  · rw [whole value, whole new]
    simp only [List.length_append, c.length_encode]

theorem Packs.close_up (h : Packs c b (before ++ (key, value) :: after)) :
    ∃ b', closeUp b (records c before).length ((records c before).length + key.length + c.width + 1)
        (b.length - ((records c before).length + key.length + c.width + 1)) = some b' ∧
      b'.length = b.length ∧ Packs c b' (before ++ after) := by
  obtain ⟨slack, rfl⟩ := h.layout
  have whole : records c (before ++ (key, value) :: after) ++ 0 :: slack =
      records c before ++ (record c key value ++ (records c after ++ 0 :: slack)) := by
    simp
  have next : (records c before).length + (record c key value).length =
      (records c before).length + key.length + c.width + 1 := by
    rw [length_record]
    omega
  obtain ⟨more, closed, length⟩ := 
    closeUp_middle rfl next (show (records c after ++ 0 :: slack).length = _ from rfl)
  have size : (records c before ++ (record c key value ++ (records c after ++ 0 :: slack))).length -
      ((records c before).length + key.length + c.width + 1) = (records c after ++ 0 :: slack).length := by
    rw [← next]
    simp only [List.length_append]
    omega
  rw [whole, size, closed]
  refine ⟨_, rfl, ?_, h.keyed.remove, slack ++ more, by simp⟩
  simp only [List.length_append, length]
  omega

theorem Packs.append (h : Packs c b es) (value : ν) (low : 1 ≤ key.length) (high : key.length ≤ 255)
    (absent : key ∉ es.map Prod.fst)
    (room : (records c es).length + key.length + c.width + 2 ≤ b.length) :
    ∃ b', overwrite b (records c es).length (record c key value ++ [0]) = some b' ∧
      b'.length = b.length ∧ Packs c b' (es ++ [(key, value)]) := by
  obtain ⟨slack, rfl⟩ := h.layout
  have long : key.length + c.width + 2 ≤ (0 :: slack).length := by
    simp only [List.length_append] at room
    omega
  obtain ⟨used, rest, split, length⟩ : ∃ used rest, 0 :: slack = used ++ rest ∧
      used.length = (record c key value ++ [0]).length := by
    refine ⟨(0 :: slack).take (key.length + c.width + 2), (0 :: slack).drop (key.length + c.width + 2),
      (List.take_append_drop _ _).symm, ?_⟩
    rw [List.length_take, Nat.min_eq_left long, List.length_append, length_record, List.length_singleton]
    omega
  rw [split, overwrite_middle rfl length]
  refine ⟨_, rfl, ?_, h.keyed.add low high absent, rest, by simp⟩
  simp only [List.length_append, length]

/-- Only the entries and their end matter. -/
theorem Packs.reallocated (h : Packs c b es) {n : Nat} (enough : (records c es).length + 1 ≤ n)
    (fresh : List UInt8) : Packs c (b.take n ++ fresh) es := by
  obtain ⟨slack, rfl⟩ := h.layout
  obtain ⟨m, rfl⟩ := Nat.exists_eq_add_of_le enough
  refine ⟨h.keyed, slack.take m ++ fresh, ?_⟩
  rw [Nat.add_assoc, List.take_length_add_append, Nat.add_comm 1 m, List.take_succ_cons]
  simp

theorem wellKeyed_nil : WellKeyed ([] : List (Key × ν)) := ⟨fun _ member => (nomatch member), .nil⟩

/-- An array with a zero in front holds nothing. -/
theorem packs_nil {slack : List UInt8} : Packs c (0 :: slack) ([] : List (Key × ν)) :=
  ⟨wellKeyed_nil, slack, rfl⟩

theorem Packs.length_lt (h : Packs c b es) : (records c es).length < b.length := by
  obtain ⟨slack, rfl⟩ := h.layout
  simp

/-! ## Entries as a map -/

theorem entryMap_missing (absent : key ∉ es.map Prod.fst) : entryMap es key = none := by
  refine List.lookup_eq_none_iff.mpr fun e member => ?_
  have ne : key ≠ e.1 := fun same => absent (same ▸ List.mem_map_of_mem member)
  simp [ne]

theorem entryMap_append (k : Key) : entryMap (before ++ after) k = (entryMap before k).or (entryMap after k) :=
  List.lookup_append

theorem entryMap_cons (k : Key) :
    entryMap ((key, value) :: es) k = if k = key then some value else entryMap es k := by
  rw [entryMap, List.lookup_cons]
  by_cases same : k = key
  · rw [if_pos same, beq_iff_eq.mpr same]
  · rw [if_neg same, beq_false_of_ne same]
    rfl

theorem entryMap_found (absent : key ∉ before.map Prod.fst) :
    entryMap (before ++ (key, value) :: after) key = some value := by
  rw [entryMap_append, entryMap_missing absent, entryMap_cons, if_pos rfl]
  rfl

theorem entryMap_insert (absent : key ∉ before.map Prod.fst) :
    entryMap (before ++ (key, value) :: after) = Function.update (entryMap (before ++ after)) key (some value) := by
  funext k
  rcases eq_or_ne k key with rfl | ne
  · rw [Function.update_self, entryMap_found absent]
  · rw [Function.update_of_ne ne]
    simp only [entryMap_append, entryMap_cons, if_neg ne]

theorem entryMap_replace (absent : key ∉ before.map Prod.fst) (new : ν) :
    entryMap (before ++ (key, new) :: after) =
      Function.update (entryMap (before ++ (key, value) :: after)) key (some new) := by
  rw [entryMap_insert absent, entryMap_insert absent, Function.update_idem]

theorem entryMap_remove (absent : key ∉ before.map Prod.fst) (absent' : key ∉ after.map Prod.fst) :
    entryMap (before ++ after) =
      Function.update (entryMap (before ++ (key, value) :: after)) key none := by
  have missing : entryMap (before ++ after) key = none := by
    rw [entryMap_append, entryMap_missing absent, entryMap_missing absent']
    rfl
  rw [entryMap_insert absent, Function.update_idem, ← missing, Function.update_eq_self]

theorem entryMap_add (absent : key ∉ es.map Prod.fst) :
    entryMap (es ++ [(key, value)]) = Function.update (entryMap es) key (some value) := by
  rw [entryMap_insert absent, List.append_nil]

theorem mem_iff_entryMap (keyed : WellKeyed es) : (key, value) ∈ es ↔ entryMap es key = some value := by
  constructor
  · intro member
    obtain ⟨before, after, rfl⟩ := List.append_of_mem member
    exact entryMap_found keyed.middle.2.1
  · intro found
    obtain ⟨before, after, rfl, -⟩ := List.lookup_eq_some_iff.mp found
    simp

/-- Lists of entries that are the same map take the same room. -/
theorem records_length_eq {es' : List (Key × ν)} (keyed : WellKeyed es) (keyed' : WellKeyed es')
    (same : entryMap es = entryMap es') : (records c es).length = (records c es').length := by
  have perm : es.Perm es' := by
    refine (List.perm_ext_iff_of_nodup keyed.distinct.of_map keyed'.distinct.of_map).mpr fun e => ?_
    rw [mem_iff_entryMap keyed, mem_iff_entryMap keyed', same]
  exact (perm.flatMap_right _).length_eq

theorem eq_nil_of_entryMap (nothing : entryMap es = fun _ => none) : es = [] := by
  cases es with
  | nil => rfl
  | cons e rest =>
      have first := congrFun nothing e.1
      rw [show e :: rest = [] ++ (e.1, e.2) :: rest from rfl, entryMap_found List.not_mem_nil] at first
      cases first

theorem eq_single_of_entryMap (keyed : WellKeyed es)
    (single : entryMap es = Function.update (fun _ => none) key (some value)) : es = [(key, value)] := by
  have perm : es.Perm [(key, value)] := by
    refine (List.perm_ext_iff_of_nodup keyed.distinct.of_map (List.nodup_singleton _)).mpr fun e => ?_
    rw [mem_iff_entryMap keyed, single, List.mem_singleton]
    rcases eq_or_ne e.1 key with same | ne
    · rw [same, Function.update_self, Option.some_inj, Prod.ext_iff]
      exact ⟨fun equal => ⟨same, equal.symm⟩, fun both => both.2.symm⟩
    · rw [Function.update_of_ne ne]
      exact ⟨nofun, fun equal => absurd (congrArg Prod.fst equal) ne⟩
  exact List.perm_singleton.mp perm

end Everscale.Theory
