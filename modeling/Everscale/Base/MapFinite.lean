/-
# Everscale.Base.MapFinite -- the map over a run, as a finite map

`FiniteMap.step` says what each operation answers and does when the map is a function from keys to pairs.
It follows the comments of `ESBMap.h`: a value may be null, and no more than `ESB_UINT32_MAX` pairs are taken.
The code follows it but for the insert that hands out an iterator, which refuses a null value and does
not look at the size; in every run in which no such call meets either, all answers are those of the
finite map, and the links stay a red-black tree of its pairs (`run_mirrors`).
-/
import Everscale.Base.MapWalk

namespace Everscale

set_option autoImplicit false

open Theory Theory.RedBlack Theory.SortedTable

namespace Map

variable {κ ν : Type}

/-- What a key has, if anything: the node at which iterators to its pair stand, and the value. -/
structure FiniteMap (κ ν : Type) where
  pair : κ → Option (MapNode × Option ν)
  count : Nat

namespace FiniteMap

def empty : FiniteMap κ ν := ⟨fun _ => none, 0⟩

section Step

variable (compare : κ → κ → Int) (m : FiniteMap κ ν)

def put (key : κ) (pair : MapNode × Option ν) : FiniteMap κ ν where
  pair k := if compare k key = 0 then some pair else m.pair k
  count := m.count + 1

def remove (key : κ) : FiniteMap κ ν where
  pair k := if compare k key = 0 then none else m.pair k
  count := m.count - 1

def assign (key : κ) (value : Option ν) : FiniteMap κ ν :=
  { m with pair := fun k => if compare k key = 0 then (m.pair k).map fun p => (p.1, value) else m.pair k }

/-- An insertion of a pair, for which there may be no memory. -/
def insert (key : κ) (value : Option ν) (node : Option MapNode) : Error × FiniteMap κ ν :=
  if m.count = 0xFFFFFFFF then (.overflow, m)
  else
    match node with
    | none => (.outOfMemory, m)
    | some node =>
        match m.pair key with
        | some _ => (.uniquenessViolation, m)
        | none => (.success, m.put compare key (node, value))

open Classical in
/-- The pair that an iterator is at goes. -/
noncomputable def erase (node : MapNode) : Error × FiniteMap κ ν :=
  if ∃ key value, m.pair key = some (node, value) then
    (.success, { pair := fun k => (m.pair k).filter fun p => p.1 ≠ node, count := m.count - 1 })
  else (.invalidIterator, m)

/-- What an operation answers when the map is a finite map, and the finite map after it. -/
noncomputable def step : MapOp κ ν → MapAnswer ν × FiniteMap κ ν
  | .insert none _ _ => (.error .nullPointer, m)
  | .insert (some key) value node =>
      let inserted := m.insert compare key value node
      (.error inserted.1, inserted.2)
  | .insertIterator (some key) value true node =>
      let inserted := m.insert compare key value node
      (.inserted inserted.1 (if inserted.1 = .success then node else none), inserted.2)
  | .insertIterator _ _ _ _ => (.inserted .nullPointer none, m)
  | .remove none => (.error .nullPointer, m)
  | .remove (some key) =>
      match m.pair key with
      | none => (.error .cannotFind, m)
      | some _ => (.error .success, m.remove compare key)
  | .find key => (.value (key.bind fun key => (m.pair key).bind Prod.snd), m)
  | .update none _ _ => (.updated .nullPointer none, m)
  | .update (some key) value old =>
      match m.pair key with
      | none => (.updated .cannotFind none, m)
      | some p => (.updated .success (if old then some p.2 else none), m.assign compare key value)
  | .findIterator none => (.iterator none, m)
  | .findIterator (some key) => (.iterator (some ((m.pair key).elim mapSentinel Prod.fst)), m)
  | .erase none => (.error .nullPointer, m)
  | .erase (some none) => (.error .invalidIterator, m)
  | .erase (some (some node)) =>
      let erased := m.erase node
      (.error erased.1, erased.2)
  | .clear => (.error .success, empty)
  | .size => (.size (UInt32.ofNat m.count), m)

noncomputable def run : FiniteMap κ ν → List (MapOp κ ν) → List (MapAnswer ν) × FiniteMap κ ν
  | m, [] => ([], m)
  | m, op :: ops =>
      let (answer, m) := m.step compare op
      let (answers, m) := run m ops
      (answer :: answers, m)

end Step

end FiniteMap

section Careful

variable (compare : κ → κ → Int)

/-- The insert with an iterator has a value, and room within the limit. -/
def Careful (xs : List (MapEntry κ ν)) : MapOp κ ν → Prop
  | .insertIterator (some _) value true _ => value.isSome = true ∧ xs.length < 0xFFFFFFFF
  | _ => True

def CarefulRun : List (MapEntry κ ν) → List (MapOp κ ν) → Prop
  | _, [] => True
  | xs, op :: ops => Careful xs op ∧ CarefulRun (tableStep compare xs op).2 ops

instance (xs : List (MapEntry κ ν)) : (op : MapOp κ ν) → Decidable (Careful xs op)
  | .insertIterator (some _) value true _ =>
      inferInstanceAs (Decidable (value.isSome = true ∧ xs.length < 0xFFFFFFFF))
  | .insertIterator none _ _ _ | .insertIterator (some _) _ false _ | .insert .. | .remove _ | .find _ | .update ..
  | .findIterator _ | .erase _ | .clear | .size => isTrue trivial

instance decidableCarefulRun (xs : List (MapEntry κ ν)) :
    (ops : List (MapOp κ ν)) → Decidable (CarefulRun compare xs ops)
  | [] => isTrue trivial
  | op :: ops =>
      have := decidableCarefulRun (tableStep compare xs op).2 ops
      inferInstanceAs (Decidable (Careful xs op ∧ CarefulRun compare (tableStep compare xs op).2 ops))

/-- The table has the pairs of the finite map. -/
structure FiniteMap.Shows (m : FiniteMap κ ν) (xs : List (MapEntry κ ν)) : Prop where
  count : m.count = xs.length
  pair : ∀ k, m.pair k = (lookup compare MapEntry.key k xs).map fun e => (e.node, e.value)

/-- The links are those of a red-black tree in the order of the keys, with as many nodes as the size says,
and its pairs are those of the finite map. -/
def Mirrors (s : Map κ ν) (m : FiniteMap κ ν) : Prop :=
  ∃ t, At s [] t ∧ IsRedBlack t ∧ Sorted compare MapEntry.key t.inorder ∧
    s.size.toNat = t.inorder.length ∧ m.Shows compare t.inorder

end Careful

variable {compare : κ → κ → Int} {s : Map κ ν} {m : FiniteMap κ ν} {xs : List (MapEntry κ ν)} {fuel : Nat}
  {op : MapOp κ ν} {ops : List (MapOp κ ν)}

namespace FiniteMap.Shows

theorem none_iff (h : m.Shows compare xs) (k : κ) :
    m.pair k = none ↔ lookup compare MapEntry.key k xs = none := by
  rw [h.pair, Option.map_eq_none_iff]

variable (h : m.Shows compare xs) (orders : OrdersOn compare Set.univ) (sorted : Sorted compare MapEntry.key xs)

include h orders sorted

theorem put {e : MapEntry κ ν} (missing : lookup compare MapEntry.key e.key xs = none) :
    (m.put compare e.key (e.node, e.value)).Shows compare (SortedTable.put compare MapEntry.key e xs) := by
  have nonzero : ∀ a ∈ xs, compare e.key a.key ≠ 0 := by simpa [lookup] using missing
  have perm : (SortedTable.put compare MapEntry.key e xs).Perm (e :: xs) := put_perm nonzero
  refine ⟨?_, fun k => ?_⟩
  · rw [perm.length_eq, List.length_cons, ← h.count]
    rfl
  · rw [lookup_put orders sorted nonzero]
    show (if compare k e.key = 0 then some (e.node, e.value) else m.pair k) = _
    split
    · rfl
    · exact h.pair k

theorem remove {key : κ} {e : MapEntry κ ν} (found : lookup compare MapEntry.key key xs = some e) :
    (m.remove compare key).Shows compare (drop compare MapEntry.key key xs) := by
  refine ⟨?_, fun k => ?_⟩
  · obtain ⟨member, zero⟩ := (lookup_eq_some_iff orders sorted).1 found
    obtain ⟨us, vs, rfl⟩ := List.append_of_mem member
    rw [drop_split (sorted.cut orders key) zero]
    show m.count - 1 = _
    rw [h.count]
    simp only [List.length_append, List.length_cons]
    omega
  · rw [lookup_drop orders sorted]
    show (if compare k key = 0 then none else m.pair k) = _
    split
    · rfl
    · exact h.pair k

theorem assign (key : κ) (value : Option ν) : (m.assign compare key value).Shows compare
    (change compare MapEntry.key key (fun e => { e with value := value }) xs) := by
  refine ⟨h.count.trans (List.length_map _).symm, fun k => ?_⟩
  rw [lookup_change orders sorted (f := fun e : MapEntry κ ν => { e with value := value }) fun _ => rfl]
  show (if compare k key = 0 then (m.pair k).map fun p => (p.1, value) else m.pair k) = _
  rw [h.pair]
  split
  · rw [Option.map_map, Option.map_map]
    rfl
  · rfl

theorem erase {e : MapEntry κ ν} (member : e ∈ xs) (nodup : (xs.map MapEntry.node).Nodup) :
    (m.erase e.node).1 = .success ∧ (m.erase e.node).2.Shows compare (xs.filter (·.node ≠ e.node)) := by
  have there : ∃ key value, m.pair key = some (e.node, value) := by
    refine ⟨e.key, e.value, ?_⟩
    rw [h.pair, (lookup_eq_some_iff orders sorted).2 ⟨member, orders.self trivial⟩]
    rfl
  rw [FiniteMap.erase, if_pos there]
  refine ⟨rfl, ?_, fun k => ?_⟩
  · obtain ⟨us, vs, rfl⟩ := List.append_of_mem member
    rw [filter_node nodup]
    show m.count - 1 = _
    rw [h.count]
    simp only [List.length_append, List.length_cons]
    omega
  · rw [lookup_filter orders sorted]
    show (m.pair k).filter (fun p => p.1 ≠ e.node) = _
    rw [h.pair, Option.filter_map]
    rfl

/-- An insertion for which there are memory and room. -/
theorem insert (e : MapEntry κ ν) (room : xs.length < 0xFFFFFFFF) :
    (m.insert compare e.key e.value (some e.node)).1 = (tableInsert compare e xs).1 ∧
      (m.insert compare e.key e.value (some e.node)).2.Shows compare (tableInsert compare e xs).2 := by
  have notFull : m.count ≠ 0xFFFFFFFF := by
    rw [h.count]
    omega
  rw [FiniteMap.insert, if_neg notFull, tableInsert]
  cases found : lookup compare MapEntry.key e.key xs with
  | none =>
      have missing := (h.none_iff e.key).2 found
      simp only [missing, true_and]
      exact h.put orders sorted found
  | some a =>
      have pair : m.pair e.key = some (a.node, a.value) := by
        rw [h.pair, found]
        rfl
      simpa only [pair, true_and] using h

/-- An operation answers as the finite map does, and the table shows the finite map after it. -/
theorem step (nodup : (xs.map MapEntry.node).Nodup) (limit : xs.length ≤ 0xFFFFFFFF) (careful : Careful xs op) :
    (m.step compare op).1 = (tableStep compare xs op).1 ∧
      (m.step compare op).2.Shows compare (tableStep compare xs op).2 := by
  cases op with
  | insert key value node =>
      cases key with
      | none => exact ⟨rfl, h⟩
      | some key =>
          have wraps : UInt32.ofNat xs.length = 0xFFFFFFFF ↔ m.count = 0xFFFFFFFF := by
            rw [h.count, ← UInt32.toNat_inj, UInt32.toNat_ofNat_of_lt' (by simp [UInt32.size]; omega)]
            rfl
          by_cases full : m.count = 0xFFFFFFFF
          · simpa only [FiniteMap.step, FiniteMap.insert, tableStep, wraps, full, if_true, true_and] using h
          · cases node with
            | none => simpa only [FiniteMap.step, FiniteMap.insert, tableStep, wraps, full, if_false, true_and] using h
            | some node =>
                have room : xs.length < 0xFFFFFFFF := by
                  have := h.count
                  omega
                obtain ⟨answer, shows⟩ := h.insert orders sorted ⟨node, key, value⟩ room
                simp only [FiniteMap.step, tableStep, wraps, full, if_false]
                exact ⟨congrArg _ answer, shows⟩
  | insertIterator key value iterator node =>
      cases key with
      | none => exact ⟨rfl, h⟩
      | some key =>
          cases iterator with
          | false => cases value <;> exact ⟨rfl, h⟩
          | true =>
              obtain ⟨hasValue, room⟩ := careful
              obtain ⟨value, rfl⟩ := Option.isSome_iff_exists.1 hasValue
              cases node with
              | none =>
                  have notFull : m.count ≠ 0xFFFFFFFF := by
                    rw [h.count]
                    omega
                  simpa only [FiniteMap.step, FiniteMap.insert, tableStep, notFull, if_false, reduceCtorEq,
                    true_and] using h
              | some node =>
                  obtain ⟨answer, shows⟩ := h.insert orders sorted ⟨node, key, some value⟩ room
                  simp only at answer
                  simp only [FiniteMap.step, tableStep, answer, true_and]
                  exact shows
  | remove key =>
      cases key with
      | none => exact ⟨rfl, h⟩
      | some key =>
          cases found : lookup compare MapEntry.key key xs with
          | none =>
              have missing := (h.none_iff key).2 found
              simpa only [FiniteMap.step, tableStep, missing, found, true_and] using h
          | some e =>
              have pair : m.pair key = some (e.node, e.value) := by rw [h.pair, found]; rfl
              simpa only [FiniteMap.step, tableStep, pair, found, true_and] using h.remove orders sorted found
  | find key =>
      cases key with
      | none => exact ⟨rfl, h⟩
      | some key =>
          refine ⟨?_, h⟩
          simp only [FiniteMap.step, tableStep, Option.bind_some, h.pair, Option.bind_map]
          rfl
  | update key value old =>
      cases key with
      | none => exact ⟨rfl, h⟩
      | some key =>
          cases found : lookup compare MapEntry.key key xs with
          | none =>
              have missing := (h.none_iff key).2 found
              simpa only [FiniteMap.step, tableStep, missing, found, true_and] using h
          | some e =>
              have pair : m.pair key = some (e.node, e.value) := by rw [h.pair, found]; rfl
              simpa only [FiniteMap.step, tableStep, pair, found, true_and] using h.assign orders sorted key value
  | findIterator key =>
      cases key with
      | none => exact ⟨rfl, h⟩
      | some key =>
          refine ⟨?_, h⟩
          simp only [FiniteMap.step, tableStep, h.pair]
          cases lookup compare MapEntry.key key xs <;> rfl
  | erase iterator =>
      rcases iterator with _ | _ | node
      · exact ⟨rfl, h⟩
      · exact ⟨rfl, h⟩
      · by_cases inside : node ∈ xs.map MapEntry.node
        · obtain ⟨e, member, rfl⟩ := List.mem_map.1 inside
          have any : xs.any (·.node = e.node) = true := List.any_eq_true.2 ⟨e, member, decide_eq_true rfl⟩
          obtain ⟨answer, shows⟩ := h.erase orders sorted member nodup
          simp only [FiniteMap.step, tableStep, any, if_true, answer, true_and]
          exact shows
        · have any : xs.any (·.node = node) = false :=
            List.any_eq_false.2 fun e member same => inside (List.mem_map.2 ⟨e, member, of_decide_eq_true same⟩)
          have nothing : ¬ ∃ key value, m.pair key = some (node, value) := by
            rintro ⟨key, value, pair⟩
            rw [h.pair, Option.map_eq_some_iff] at pair
            obtain ⟨e, found, same⟩ := pair
            exact inside (List.mem_map.2 ⟨e, ((lookup_eq_some_iff orders sorted).1 found).1, congrArg Prod.fst same⟩)
          simpa only [FiniteMap.step, FiniteMap.erase, tableStep, any, if_neg nothing, Bool.false_eq_true, if_false,
            true_and] using h
  | clear => exact ⟨rfl, rfl, fun _ => rfl⟩
  | size => exact ⟨by simp only [FiniteMap.step, tableStep, h.count], h⟩

end FiniteMap.Shows

/-- The table stays within the limit. -/
theorem Careful.limit (careful : Careful xs op) (limit : xs.length ≤ 0xFFFFFFFF) :
    (tableStep compare xs op).2.length ≤ 0xFFFFFFFF := by
  by_cases room : xs.length < 0xFFFFFFFF
  · exact (length_tableStep_le compare xs op).trans room
  have full : xs.length = 0xFFFFFFFF := by omega
  have wraps : UInt32.ofNat xs.length = 0xFFFFFFFF := by
    rw [full]
    rfl
  -- no operation adds a pair to a full table
  fun_cases tableStep compare xs op
  all_goals first
    | exact limit
    | exact absurd wraps ‹_›
    | exact absurd careful.2 room
    | exact Nat.zero_le _
    | exact (List.length_filter_le _ _).trans limit
    | exact (List.length_map _).le.trans limit

/-! ## Over a run -/

/-- A run answers as the finite map does, and mirrors it after it. -/
theorem run_mirrors_from (h : s.Represents compare xs) (shows : m.Shows compare xs)
    (orders : OrdersOn compare Set.univ) (limit : xs.length ≤ 0xFFFFFFFF) (allowed : AllowedRun compare xs ops)
    (careful : CarefulRun compare xs ops) (enough : 2 * (xs.length + ops.length) + 4 ≤ fuel) :
    ∃ s', s.run compare fuel ops = some ((m.run compare ops).1, s') ∧ Mirrors compare s' (m.run compare ops).2 := by
  induction ops generalizing s m xs with
  | nil =>
      obtain ⟨t, hAt, redBlack, order⟩ := h.tree
      refine ⟨s, rfl, t, hAt, redBlack, order ▸ h.sorted, ?_, order ▸ shows⟩
      rw [h.size, order, UInt32.toNat_ofNat_of_lt' (by simp [UInt32.size]; omega)]
  | cons op ops ih =>
      rw [List.length_cons] at enough
      have fits : 2 * xs.length + 4 ≤ fuel := by omega
      obtain ⟨s', result, kept⟩ := step_represents h orders allowed.1 fits
      obtain ⟨t, hAt, -, order⟩ := h.tree
      have nodup : (xs.map MapEntry.node).Nodup := order ▸ hAt.nodup
      obtain ⟨answer, shows'⟩ := shows.step orders h.sorted nodup limit careful.1
      have length := length_tableStep_le compare xs op
      obtain ⟨s'', result', mirrors⟩ := ih kept shows' (careful.1.limit limit) allowed.2 careful.2 (by omega)
      rw [← answer] at result
      exact ⟨s'', by simp [Map.run, FiniteMap.run, result, result'], mirrors⟩

/-- From the empty map, every run whose inserts with an iterator have a value and stay within the limit
answers as the finite map does, and ends in a red-black tree of its pairs. -/
theorem run_mirrors (orders : OrdersOn compare Set.univ) (allowed : AllowedRun compare [] ops)
    (careful : CarefulRun compare [] ops) (enough : 2 * ops.length + 4 ≤ fuel) :
    ∃ s, run compare fuel empty ops = some ((FiniteMap.empty.run compare ops).1, s) ∧
      Mirrors compare s (FiniteMap.empty.run compare ops).2 :=
  run_mirrors_from (empty_represents compare) ⟨rfl, fun _ => rfl⟩ orders (Nat.zero_le _) allowed careful
    (by simpa using enough)

theorem run_mirrors_turning :
    ∃ s, run (fun a b : Int => a - b) 36 (empty : Map Int Nat) turningOps =
        some ((FiniteMap.empty.run (fun a b : Int => a - b) turningOps).1, s) ∧
      Mirrors (fun a b : Int => a - b) s (FiniteMap.empty.run (fun a b : Int => a - b) turningOps).2 ∧
      (FiniteMap.empty.run (fun a b : Int => a - b) turningOps).1 =
        [.error .success, .error .success, .error .success, .error .success, .error .success, .error .success,
          .inserted .success (some 7), .error .success, .inserted .uniquenessViolation none, .error .success,
          .error .success, .updated .success (some (some 60)), .error .success, .value (some 66), .value none,
          .size 5] := by
  have shown : (run (fun a b : Int => a - b) 36 (empty : Map Int Nat) turningOps).map Prod.fst =
      some (tableRun (fun a b : Int => a - b) [] turningOps).1 := by
    decide +kernel
  obtain ⟨s, ran, mirrors⟩ := run_mirrors sub_orders
    (show AllowedRun (fun a b : Int => a - b) [] turningOps by decide +kernel)
    (show CarefulRun (fun a b : Int => a - b) [] turningOps by decide +kernel)
    (show 2 * turningOps.length + 4 ≤ 36 by decide)
  rw [ran, Option.map_some, tableRun_turningOps] at shown
  exact ⟨s, ran, mirrors, Option.some.inj shown⟩

/-- A null value, which `ESBMap.h` allows, is refused when the insert is to hand out an iterator. -/
theorem null_value_refused :
    ¬ ∃ s, run (fun a b : Int => a - b) 6 (empty : Map Int Nat) [.insertIterator (some 1) none true (some 1)] =
        some ((FiniteMap.empty.run (fun a b : Int => a - b) [.insertIterator (some 1) none true (some 1)]).1, s) ∧
      Mirrors (fun a b : Int => a - b) s
        (FiniteMap.empty.run (fun a b : Int => a - b) [.insertIterator (some 1) none true (some 1)]).2 := by
  rintro ⟨s, ran, -⟩
  have answer : ([.inserted .nullPointer none] : List (MapAnswer Nat)) = [.inserted .success (some 1)] :=
    congrArg Prod.fst (Option.some.inj ran)
  simp at answer

end Map

end Everscale
