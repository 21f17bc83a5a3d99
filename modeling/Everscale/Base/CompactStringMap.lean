/-
# Everscale.Base.CompactStringMap -- a map packed into one array

The entries stand one behind another, each the length of its key, the key and its pointer, up to
a zero octet.  Every call walks them from the front.  An insert that does not fit reallocates the
array first; its size is a 32-bit number, so that near 4 GiB the size asked for wraps
(`requestSize`).  Below that the map serves its callers as a finite map does
(`answers_as_finite_map`).

`none` stands for an access outside the array or a failed assertion.  The map is not changed
during an iteration, so that one is a call of its own (`entries`).
-/
import Everscale.Base.SizedBuffer
import Everscale.Theory.Serving

namespace Everscale

set_option autoImplicit false

open Theory (Key slice records Packs WellKeyed entryMap serveAll AllFit ServesAll KeepsServing serveAll_concat)

/-! ## The calls -/

structure CompactStringMap where
  buffer : Option (List UInt8)
  capacity : Nat

namespace CompactStringMap

/-- The constructor. -/
def new (initialCapacity : UInt32) : CompactStringMap := ⟨none, initialCapacity.toNat⟩

/-- The map with this array. -/
def of (array : SizedBuffer) : CompactStringMap := ⟨some array.data, array.capacity⟩

/-- `insert` once there is an array. -/
def insertInto (array : SizedBuffer) (heap : Heap) (key : Key) (value : Pointer) (updateIfExists : Bool) :
    Option (Error × CompactStringMap) :=
  match array.find key with
  | none => none
  | some (true, p) =>
      if updateIfExists = false then some (.uniquenessViolation, of array)
      else (array.writePointer (p + 1 + key.length) value).map fun array => (.success, of array)
  | some (false, p) => (array.push heap p key value).map fun (error, array) => (error, of array)

def insert (m : CompactStringMap) (heap : Heap) (key : Option Key) (value : Pointer)
    (updateIfExists : Bool) : Option (Error × CompactStringMap) :=
  match checkKey key with
  | .error error => some (error, m)
  | .ok key =>
      match m.buffer with
      | some data => insertInto ⟨data, m.capacity⟩ heap key value updateIfExists
      | none =>
          match heap.malloc m.capacity with
          | none => some (.outOfMemory, m)
          | some fresh =>
              (SizedBuffer.empty ⟨fresh, m.capacity⟩).bind fun array =>
                insertInto array heap key value updateIfExists

def remove (m : CompactStringMap) (key : Option Key) : Option (Error × CompactStringMap) :=
  match key with
  | none => some (.nullPointer, m)
  | some key =>
      match m.buffer with
      | none => some (.cannotFind, m)
      | some data =>
          match SizedBuffer.find ⟨data, m.capacity⟩ key with
          | none => none
          | some (false, _) => some (.cannotFind, m)
          | some (true, p) =>
              (SizedBuffer.promote ⟨data, m.capacity⟩ p key.length).map fun array => (.success, of array)

def find (m : CompactStringMap) (key : Option Key) : Option Pointer :=
  match key with
  | none => some 0
  | some key =>
      match m.buffer with
      | none => some 0
      | some data =>
          match SizedBuffer.find ⟨data, m.capacity⟩ key with
          | none => none
          | some (false, _) => some 0
          | some (true, p) => SizedBuffer.readPointer ⟨data, m.capacity⟩ (p + 1 + key.length)

/-- The pointer before the update comes along; a caller without `old` drops it. -/
def update (m : CompactStringMap) (key : Option Key) (value : Pointer) :
    Option (Error × Option Pointer × CompactStringMap) :=
  match checkKey key with
  | .error error => some (error, none, m)
  | .ok key =>
      match m.buffer with
      | none => some (.cannotFind, none, m)
      | some data =>
          match SizedBuffer.find ⟨data, m.capacity⟩ key with
          | none => none
          | some (false, _) => some (.cannotFind, none, m)
          | some (true, p) =>
              (SizedBuffer.readPointer ⟨data, m.capacity⟩ (p + 1 + key.length)).bind fun old =>
                (SizedBuffer.writePointer ⟨data, m.capacity⟩ (p + 1 + key.length) value).map fun array =>
                  (.success, some old, of array)

def clear (m : CompactStringMap) : Option (Error × CompactStringMap) :=
  match m.buffer with
  | none => some (.success, m)
  | some data => (SizedBuffer.empty ⟨data, m.capacity⟩).map fun array => (.success, of array)

def firstMarker : Nat := 0

def hasNext (m : CompactStringMap) (marker : Nat) : Option Bool :=
  match m.buffer with
  | none => some false
  | some data => data[marker]?.map (· ≠ 0)

/-- The entry at the marker, and the marker behind it. -/
def next (m : CompactStringMap) (marker : Nat) : Option (Error × Option (Key × Pointer) × Nat) :=
  match m.buffer with
  | none => some (.cannotFind, none, marker)
  | some data =>
      match data[marker]? with
      | none => none
      | some size =>
          if size = 0 then some (.cannotFind, none, marker)
          else
            (slice data (marker + 1) size.toNat).bind fun key =>
              (SizedBuffer.readPointer ⟨data, m.capacity⟩ (marker + 1 + size.toNat)).map fun value =>
                (.success, some (key, value), (marker + 1 + size.toNat + pointers.width) % 2 ^ 32)

/-- What a caller sees that goes on while there is a next key. -/
def entriesFrom (m : CompactStringMap) : Nat → Nat → Option (List (Key × Pointer))
  | 0, _ => none
  | turns + 1, marker =>
      match m.hasNext marker with
      | none => none
      | some false => some []
      | some true =>
          match m.next marker with
          | some (.success, some entry, marker) => (m.entriesFrom turns marker).map (entry :: ·)
          | _ => none

def entries (m : CompactStringMap) : Option (List (Key × Pointer)) :=
  m.entriesFrom (m.capacity + 1) firstMarker

/-! ## Against a finite map -/

inductive Call where
  | insert (heap : Heap) (key : Option Key) (value : Pointer) (updateIfExists : Bool)
  | remove (key : Option Key)
  | find (key : Option Key)
  | update (key : Option Key) (value : Pointer)
  | clear
  | iterate

inductive Answer where
  | returned (error : Error)
  | found (value : Pointer)
  | updated (error : Error) (old : Option Pointer)
  | visited (entries : List (Key × Pointer))
  deriving DecidableEq, Repr

def perform (m : CompactStringMap) : Call → Option (Answer × CompactStringMap)
  | .insert heap key value updateIfExists =>
      (m.insert heap key value updateIfExists).map fun (error, m) => (.returned error, m)
  | .remove key => (m.remove key).map fun (error, m) => (.returned error, m)
  | .find key => (m.find key).map fun value => (.found value, m)
  | .update key value => (m.update key value).map fun (error, old, m) => (.updated error old, m)
  | .clear => m.clear.map fun (error, m) => (.returned error, m)
  | .iterate => m.entries.map fun entries => (.visited entries, m)

abbrev FiniteMap := Key → Option Pointer

/-- The answer of a finite map, and the map afterwards.  Only an insert may be refused, for want
of memory, and then nothing changes. -/
inductive Serves (f : FiniteMap) : Call → Answer → FiniteMap → Prop where
  | inserted {k heap key value updateIfExists} : checkKey key = .ok k → f k = none →
      Serves f (.insert heap key value updateIfExists) (.returned .success)
        (Function.update f k (some value))
  | refused {k heap key value updateIfExists} : checkKey key = .ok k → f k = none → heap.Refuses →
      Serves f (.insert heap key value updateIfExists) (.returned .outOfMemory) f
  | replaced {k heap key value old} : checkKey key = .ok k → f k = some old →
      Serves f (.insert heap key value true) (.returned .success) (Function.update f k (some value))
  | present {k heap key value old} : checkKey key = .ok k → f k = some old →
      Serves f (.insert heap key value false) (.returned .uniquenessViolation) f
  | notInserted {heap key value updateIfExists error} : checkKey key = .error error →
      Serves f (.insert heap key value updateIfExists) (.returned error) f
  | removed {key old} : f key = some old →
      Serves f (.remove (some key)) (.returned .success) (Function.update f key none)
  | notRemoved {key} : f key = none → Serves f (.remove (some key)) (.returned .cannotFind) f
  | removedNull : Serves f (.remove none) (.returned .nullPointer) f
  | found {key} : Serves f (.find (some key)) (.found ((f key).getD 0)) f
  | foundNull : Serves f (.find none) (.found 0) f
  | updated {k key value old} : checkKey key = .ok k → f k = some old →
      Serves f (.update key value) (.updated .success (some old)) (Function.update f k (some value))
  | missing {k key value} : checkKey key = .ok k → f k = none →
      Serves f (.update key value) (.updated .cannotFind none) f
  | notUpdated {key value error} : checkKey key = .error error →
      Serves f (.update key value) (.updated error none) f
  | cleared : Serves f .clear (.returned .success) fun _ => none
  | visited {entries} : (entries.map Prod.fst).Nodup → (∀ k v, (k, v) ∈ entries ↔ f k = some v) →
      Serves f .iterate (.visited entries) f

/-- The map holds these entries. -/
structure Holds (m : CompactStringMap) (es : List (Key × Pointer)) : Prop where
  positive : 1 ≤ m.capacity
  bounded : m.capacity < 2 ^ 32
  empty : m.buffer = none → es = []
  stores : ∀ {data}, m.buffer = some data → SizedBuffer.Stores ⟨data, m.capacity⟩ es

/-- A new key leaves the entries, each with the nine octets beside its key, and their end below
4 GiB. -/
def Fits (m : CompactStringMap) : Call → Prop
  | .insert _ (some key) _ _ => ∀ es, Holds m es → key ∉ es.map Prod.fst →
      (records pointers es).length + key.length + 10 < 2 ^ 32
  | _ => True

section

variable {m : CompactStringMap} {array : SizedBuffer} {es : List (Key × Pointer)} {key : Key}

theorem Holds.of_stores (stores : array.Stores es) : Holds (of array) es where
  positive := Nat.zero_lt_of_lt stores.length_lt
  bounded := stores.bounded
  empty none := nomatch none
  stores some := Option.some.inj some ▸ stores

theorem insertInto_spec (stores : array.Stores es) (low : 1 ≤ key.length) (high : key.length ≤ 255)
    (fits : key ∉ es.map Prod.fst → (records pointers es).length + key.length + 10 < 2 ^ 32)
    (heap : Heap) (value : Pointer) (updateIfExists : Bool) :
    ∃ error m' es', insertInto array heap key value updateIfExists = some (error, m') ∧ Holds m' es' ∧
      Serves (entryMap es) (.insert heap (some key) value updateIfExists) (.returned error) (entryMap es') := by
  have ok : checkKey (some key) = .ok key := checkKey_some low high
  obtain ⟨found, ends, sought⟩ := stores.find key
  rw [insertInto, ends]
  cases sought with
  | missing absent =>
      have missing : entryMap es key = none := Theory.entryMap_missing absent
      dsimp only
      rw [Nat.zero_add]
      rcases stores.push low high absent (fits absent) heap value with ⟨array', pushed, stores'⟩ | ⟨pushed, refuses⟩
      · rw [pushed]
        refine ⟨.success, _, es ++ [(key, value)], rfl, .of_stores stores', ?_⟩
        rw [Theory.entryMap_add absent]
        exact .inserted ok missing
      · rw [pushed]
        exact ⟨.outOfMemory, _, es, rfl, .of_stores stores, .refused ok missing refuses⟩
  | @found front old back split =>
      subst split
      have present : entryMap (front ++ (key, old) :: back) key = some old :=
        Theory.entryMap_found stores.packs.keyed.middle.2.1
      dsimp only
      cases updateIfExists with
      | false => exact ⟨.uniquenessViolation, _, _, rfl, .of_stores stores, .present ok present⟩
      | true =>
          obtain ⟨array', written, -, stores'⟩ := stores.writePointer value
          rw [if_neg (by simp), Nat.zero_add, written]
          refine ⟨.success, _, _, rfl, .of_stores stores', ?_⟩
          rw [Theory.entryMap_replace stores.packs.keyed.middle.2.1 value]
          exact .replaced ok present

theorem insert_spec (h : Holds m es) (heap : Heap) (key : Option Key) (value : Pointer)
    (updateIfExists : Bool) (fits : m.Fits (.insert heap key value updateIfExists)) :
    ∃ error m' es', m.insert heap key value updateIfExists = some (error, m') ∧ Holds m' es' ∧
      Serves (entryMap es) (.insert heap key value updateIfExists) (.returned error) (entryMap es') := by
  cases ok : checkKey key with
  | error error =>
      rw [insert, ok]
      exact ⟨error, m, es, rfl, h, .notInserted ok⟩
  | ok k =>
      obtain ⟨rfl, low, high⟩ := checkKey_ok ok
      rw [insert, ok]
      dsimp only
      cases buffer : m.buffer with
      | some data => exact insertInto_spec (h.stores buffer) low high (fits es h) heap value updateIfExists
      | none =>
          obtain rfl := h.empty buffer
          cases granted : heap.malloc m.capacity with
          | none => exact ⟨.outOfMemory, m, [], rfl, h, .refused ok rfl ⟨m.capacity, .inl granted⟩⟩
          | some fresh =>
              obtain ⟨array, emptied, -, stores⟩ := SizedBuffer.Stores.empty ⟨fresh, m.capacity⟩
                h.positive (heap.malloc_length granted) h.bounded
              dsimp only
              rw [emptied, Option.bind_some]
              exact insertInto_spec stores low high (fits [] h) heap value updateIfExists

theorem remove_spec (h : Holds m es) (key : Option Key) :
    ∃ error m' es', m.remove key = some (error, m') ∧ Holds m' es' ∧
      Serves (entryMap es) (.remove key) (.returned error) (entryMap es') := by
  cases key with
  | none => exact ⟨.nullPointer, m, es, rfl, h, .removedNull⟩
  | some key =>
      cases buffer : m.buffer with
      | none =>
          obtain rfl := h.empty buffer
          refine ⟨.cannotFind, m, [], ?_, h, .notRemoved rfl⟩
          rw [remove, buffer]
      | some data =>
          have stores := h.stores buffer
          obtain ⟨found, ends, sought⟩ := stores.find key
          rw [remove, buffer]
          dsimp only
          rw [ends]
          cases sought with
          | missing absent => exact ⟨.cannotFind, m, es, rfl, h, .notRemoved (Theory.entryMap_missing absent)⟩
          | @found front old back split =>
              subst split
              obtain ⟨array', closed, -, stores'⟩ := stores.promote
              dsimp only
              rw [Nat.zero_add, closed]
              refine ⟨.success, _, _, rfl, .of_stores stores', ?_⟩
              rw [Theory.entryMap_remove stores.packs.keyed.middle.2.1 stores.packs.keyed.middle.2.2]
              exact .removed (Theory.entryMap_found stores.packs.keyed.middle.2.1)

theorem find_spec (h : Holds m es) (key : Option Key) :
    ∃ value, m.find key = some value ∧ Serves (entryMap es) (.find key) (.found value) (entryMap es) := by
  cases key with
  | none => exact ⟨0, rfl, .foundNull⟩
  | some key =>
      refine ⟨(entryMap es key).getD 0, ?_, .found⟩
      cases buffer : m.buffer with
      | none =>
          obtain rfl := h.empty buffer
          rw [find, buffer]
          rfl
      | some data =>
          have stores := h.stores buffer
          obtain ⟨found, ends, sought⟩ := stores.find key
          rw [find, buffer]
          dsimp only
          rw [ends]
          cases sought with
          | missing absent =>
              rw [Theory.entryMap_missing absent]
              rfl
          | @found front old back split =>
              subst split
              dsimp only
              rw [Nat.zero_add, stores.readPointer, Theory.entryMap_found stores.packs.keyed.middle.2.1]
              rfl

theorem update_spec (h : Holds m es) (key : Option Key) (value : Pointer) :
    ∃ error old m' es', m.update key value = some (error, old, m') ∧ Holds m' es' ∧
      Serves (entryMap es) (.update key value) (.updated error old) (entryMap es') := by
  cases ok : checkKey key with
  | error error =>
      rw [update, ok]
      exact ⟨error, none, m, es, rfl, h, .notUpdated ok⟩
  | ok k =>
      rw [update, ok]
      dsimp only
      cases buffer : m.buffer with
      | none =>
          obtain rfl := h.empty buffer
          exact ⟨.cannotFind, none, m, [], rfl, h, .missing ok rfl⟩
      | some data =>
          have stores := h.stores buffer
          obtain ⟨found, ends, sought⟩ := stores.find k
          dsimp only
          rw [ends]
          cases sought with
          | missing absent => exact ⟨.cannotFind, none, m, es, rfl, h, .missing ok (Theory.entryMap_missing absent)⟩
          | @found front old back split =>
              subst split
              obtain ⟨array', written, -, stores'⟩ := stores.writePointer value
              dsimp only
              rw [Nat.zero_add, stores.readPointer, Option.bind_some, written, Option.map_some]
              refine ⟨.success, some old, _, _, rfl, .of_stores stores', ?_⟩
              rw [Theory.entryMap_replace stores.packs.keyed.middle.2.1 value]
              exact .updated ok (Theory.entryMap_found stores.packs.keyed.middle.2.1)

theorem clear_spec (h : Holds m es) :
    ∃ m', m.clear = some (.success, m') ∧ Holds m' [] := by
  cases buffer : m.buffer with
  | none =>
      obtain rfl := h.empty buffer
      refine ⟨m, ?_, h⟩
      rw [clear, buffer]
  | some data =>
      obtain ⟨array, emptied, -, stores⟩ :=
        SizedBuffer.Stores.empty ⟨data, m.capacity⟩ h.positive (h.stores buffer).length h.bounded
      refine ⟨of array, ?_, .of_stores stores⟩
      rw [clear, buffer]
      dsimp only
      rw [emptied, Option.map_some]

/-- At the end of an entry and with a turn for each that follows, a caller visits those. -/
theorem entriesFrom_spec {before after : List (Key × Pointer)} {data : List UInt8} (buffer : m.buffer = some data)
    (stores : SizedBuffer.Stores ⟨data, m.capacity⟩ (before ++ after)) {turns : Nat} (enough : after.length < turns) :
    m.entriesFrom turns (records pointers before).length = some after := by
  induction after generalizing before turns with
  | nil =>
      obtain ⟨turns, rfl⟩ := Nat.exists_eq_succ_of_ne_zero (Nat.pos_iff_ne_zero.mp enough)
      have stop : m.hasNext (records pointers before).length = some false := by
        rw [List.append_nil] at stores
        rw [hasNext, buffer]
        dsimp only
        rw [stores.packs.end_at]
        rfl
      rw [entriesFrom, stop]
  | cons e rest ih =>
      obtain ⟨key, value⟩ := e
      obtain ⟨turns, rfl⟩ := Nat.exists_eq_succ_of_ne_zero (Nat.pos_iff_ne_zero.mp (Nat.zero_lt_of_lt enough))
      obtain ⟨size, sizeAt, nonzero, same, keyAt⟩ := stores.packs.key_at
      have more : m.hasNext (records pointers before).length = some true := by
        rw [hasNext, buffer]
        dsimp only
        rw [sizeAt, Option.map_some, decide_eq_true nonzero]
      have behind : (records pointers before).length + 1 + key.length + pointers.width =
          (records pointers (before ++ [(key, value)])).length := by
        rw [Theory.records_append, List.length_append, Theory.records_cons, Theory.records_nil, List.append_nil,
          Theory.length_record]
        dsimp only
        omega
      have split : before ++ (key, value) :: rest = before ++ [(key, value)] ++ rest := by simp
      have small : (records pointers (before ++ [(key, value)])).length < 2 ^ 32 := by
        have inside := stores.length_lt
        have bounded := stores.bounded
        rw [split, Theory.records_append, List.length_append] at inside
        omega
      have step : m.next (records pointers before).length =
          some (.success, some (key, value), (records pointers (before ++ [(key, value)])).length) := by
        rw [next, buffer]
        dsimp only
        rw [sizeAt]
        dsimp only
        rw [if_neg nonzero, same, keyAt, Option.bind_some, stores.readPointer, Option.map_some, behind,
          Nat.mod_eq_of_lt small]
      rw [entriesFrom, more]
      dsimp only
      rw [step]
      dsimp only
      rw [ih (split ▸ stores) (Nat.lt_of_succ_lt_succ enough), Option.map_some]

theorem entries_spec (h : Holds m es) : m.entries = some es := by
  cases buffer : m.buffer with
  | none =>
      obtain rfl := h.empty buffer
      rw [entries, entriesFrom, hasNext, buffer]
  | some data =>
      have stores : SizedBuffer.Stores ⟨data, m.capacity⟩ ([] ++ es) := h.stores buffer
      have enough : es.length < m.capacity + 1 := by
        have : (records pointers es).length < m.capacity := stores.length_lt
        have : es.length ≤ (records pointers es).length := Theory.length_le_records
        omega
      exact entriesFrom_spec buffer stores enough

theorem Holds.unique {es' : List (Key × Pointer)} (h : Holds m es) (h' : Holds m es') : es = es' :=
  Option.some.inj ((entries_spec h).symm.trans (entries_spec h'))

theorem Holds.keyed (h : Holds m es) : WellKeyed es := by
  cases buffer : m.buffer with
  | none =>
      obtain rfl := h.empty buffer
      exact Theory.wellKeyed_nil
  | some data => exact (h.stores buffer).packs.keyed

/-- One call serves as the finite map does, and the map holds what the finite map holds. -/
theorem perform_spec (h : Holds m es) (call : Call) (fits : m.Fits call) :
    ∃ answer m' es', m.perform call = some (answer, m') ∧ Holds m' es' ∧
      Serves (entryMap es) call answer (entryMap es') := by
  cases call with
  | insert heap key value updateIfExists =>
      obtain ⟨error, m', es', done, h', serves⟩ := insert_spec h heap key value updateIfExists fits
      exact ⟨_, m', es', by rw [perform, done]; rfl, h', serves⟩
  | remove key =>
      obtain ⟨error, m', es', done, h', serves⟩ := remove_spec h key
      exact ⟨_, m', es', by rw [perform, done]; rfl, h', serves⟩
  | find key =>
      obtain ⟨value, done, serves⟩ := find_spec h key
      exact ⟨_, m, es, by rw [perform, done]; rfl, h, serves⟩
  | update key value =>
      obtain ⟨error, old, m', es', done, h', serves⟩ := update_spec h key value
      exact ⟨_, m', es', by rw [perform, done]; rfl, h', serves⟩
  | clear =>
      obtain ⟨m', done, h'⟩ := clear_spec h
      exact ⟨_, m', [], by rw [perform, done]; rfl, h', .cleared⟩
  | iterate =>
      exact ⟨.visited es, m, es, by rw [perform, entries_spec h]; rfl, h,
        .visited h.keyed.distinct fun _ _ => Theory.mem_iff_entryMap h.keyed⟩

theorem keeps_serving : KeepsServing perform Fits Serves fun m f => ∃ es, Holds m es ∧ entryMap es = f := by
  rintro m _ call ⟨es, h, rfl⟩ fits
  obtain ⟨answer, m', es', performed, h', serves⟩ := perform_spec h call fits
  exact ⟨answer, m', _, performed, ⟨es', h', rfl⟩, serves⟩

theorem new_holds {initialCapacity : UInt32} (positive : 1 ≤ initialCapacity.toNat) :
    Holds (new initialCapacity) [] where
  positive := positive
  bounded := initialCapacity.toNat_lt
  empty _ := rfl
  stores none := nomatch none

end

/-- As long as every insert fits, a sequence of calls never leaves the array, its answers are those
of a finite map, and the array holds in the end what the finite map holds. -/
theorem answers_as_finite_map (initialCapacity : UInt32) (positive : 1 ≤ initialCapacity.toNat)
    (calls : List Call) (fit : AllFit perform Fits (new initialCapacity) calls) :
    ∃ answers m es, serveAll perform (new initialCapacity) calls = some (answers, m) ∧ Holds m es ∧
      ServesAll Serves (fun _ => none) calls answers (entryMap es) := by
  have start : ∃ es, Holds (new initialCapacity) es ∧ entryMap es = fun _ => none := ⟨[], new_holds positive, rfl⟩
  obtain ⟨answers, m, _, performed, ⟨es, h, rfl⟩, serves⟩ := keeps_serving.run start fit
  exact ⟨answers, m, es, performed, h, serves⟩

/-- A key fits when the array and the key are small. -/
def fitsSurely (m : CompactStringMap) : Call → Bool
  | .insert _ (some key) _ _ => decide (m.capacity + key.length + 10 < 2 ^ 32)
  | _ => true

theorem fits_of_surely (m : CompactStringMap) (call : Call) (surely : m.fitsSurely call = true) : m.Fits call := by
  cases call with
  | insert heap key value updateIfExists =>
      cases key with
      | none => trivial
      | some key =>
          have small : m.capacity + key.length + 10 < 2 ^ 32 := of_decide_eq_true surely
          intro es holds _
          cases buffer : m.buffer with
          | none =>
              rw [holds.empty buffer, Theory.records_nil, List.length_nil]
              omega
          | some data =>
              have within : (records pointers es).length < m.capacity := (holds.stores buffer).length_lt
              omega
  | _ => trivial

/-- Keys of three lengths in an array that grows from one octet; one is replaced, and one removed. -/
def threeKeys : List Call :=
  [.insert .plenty (some [97]) 5 false, .insert .plenty (some [97, 98, 99]) 6 false,
    .insert .plenty (some (List.replicate 200 120)) 7 false, .insert .plenty (some [97]) 8 false,
    .insert .plenty (some [97]) 9 true, .update (some [97, 98, 99]) 10, .remove (some [97]), .find (some [97]),
    .find (some (List.replicate 200 120)), .iterate]

theorem agrees_for_three_keys :
    (serveAll perform (new 1) threeKeys).map Prod.fst =
      some [.returned .success, .returned .success, .returned .success, .returned .uniquenessViolation,
        .returned .success, .updated .success (some 6), .returned .success, .found 0, .found 7,
        .visited [([97, 98, 99], 10), (List.replicate 200 120, 7)]] ∧
    ∃ answers m es, serveAll perform (new 1) threeKeys = some (answers, m) ∧ Holds m es ∧
      ServesAll Serves (fun _ => none) threeKeys answers (entryMap es) := by
  have fits : AllFit perform Fits (new 1) threeKeys := Theory.AllFit.mono fits_of_surely (by decide +kernel)
  exact ⟨by decide +kernel, answers_as_finite_map 1 (by decide) threeKeys fits⟩

/-! ## Where a key does not fit -/

section

variable {m : CompactStringMap} {es : List (Key × Pointer)} {key : Key}

theorem insert_outside (h : Holds m es) (low : 1 ≤ key.length) (high : key.length ≤ 255)
    (absent : key ∉ es.map Prod.fst) (large : 2 ^ 32 ≤ (records pointers es).length + key.length + 10)
    {heap : Heap} (grants : ¬ heap.Refuses) (value : Pointer) (updateIfExists : Bool) :
    m.insert heap (some key) value updateIfExists = none := by
  rw [insert, checkKey_some low high]
  dsimp only
  cases buffer : m.buffer with
  | none =>
      obtain rfl := h.empty buffer
      have : (records pointers []).length = 0 := rfl
      omega
  | some data =>
      have stores := h.stores buffer
      obtain ⟨found, ends, sought⟩ := stores.find key
      dsimp only
      rw [insertInto, ends]
      cases sought with
      | found split =>
          subst split
          exact absurd (by simp) absent
      | missing =>
          dsimp only
          rw [Nat.zero_add, stores.push_outside large grants, Option.map_none]

theorem Serves.granted {f f' : FiniteMap} {heap : Heap} {value : Pointer} {updateIfExists : Bool} {answer : Answer}
    (serves : Serves f (.insert heap (some key) value updateIfExists) answer f') (low : 1 ≤ key.length)
    (high : key.length ≤ 255) (absent : f key = none) (grants : ¬ heap.Refuses) :
    f' = Function.update f key (some value) := by
  have ok : checkKey (some key) = .ok key := checkKey_some low high
  cases serves with
  | inserted ok' => rw [Except.ok.inj (ok.symm.trans ok')]
  | refused _ _ refuses => exact absurd refuses grants
  | replaced ok' found =>
      obtain rfl := Except.ok.inj (ok.symm.trans ok')
      exact nomatch absent.symm.trans found
  | present ok' found =>
      obtain rfl := Except.ok.inj (ok.symm.trans ok')
      exact nomatch absent.symm.trans found
  | notInserted error => exact nomatch ok.symm.trans error

end

/-- Keys of 255 octets, all different. -/
def longKey (i : Nat) : Key := WritePointer (UInt64.ofNat i) ++ List.replicate 247 0

@[simp] theorem length_longKey (i : Nat) : (longKey i).length = 255 := by
  rw [longKey, List.length_append, List.length_replicate]
  rfl

theorem longKey_inj {i j : Nat} (hi : i < 2 ^ 64) (hj : j < 2 ^ 64) (same : longKey i = longKey j) : i = j := by
  have octets : WritePointer (UInt64.ofNat i) = WritePointer (UInt64.ofNat j) := List.append_inj_left' same rfl
  have numbers : UInt64.ofNat i = UInt64.ofNat j := by
    rw [← read_write (UInt64.ofNat i), octets, read_write]
  have := congrArg UInt64.toNat numbers
  rwa [UInt64.toNat_ofNat', UInt64.toNat_ofNat', Nat.mod_eq_of_lt hi, Nat.mod_eq_of_lt hj] at this

def longEntries (n : Nat) : List (Key × Pointer) := (List.range n).map fun i => (longKey i, 1)

def insertLong (i : Nat) : Call := .insert Heap.plenty (some (longKey i)) 1 false

theorem longEntries_absent {n : Nat} (small : n < 2 ^ 64) : longKey n ∉ (longEntries n).map Prod.fst := by
  intro member
  simp only [longEntries, List.map_map, List.mem_map, List.mem_range, Function.comp_apply] at member
  obtain ⟨i, lt, same⟩ := member
  exact absurd (longKey_inj (Nat.lt_trans lt small) small same) (Nat.ne_of_lt lt)

theorem longEntries_keyed {n : Nat} (small : n ≤ 2 ^ 64) : WellKeyed (longEntries n) where
  sized e member := by
    obtain ⟨i, -, rfl⟩ := List.mem_map.mp member
    simp
  distinct := by
    rw [longEntries, List.map_map]
    refine List.Nodup.map_on ?_ List.nodup_range
    intro i hi j hj same
    exact longKey_inj (Nat.lt_of_lt_of_le (List.mem_range.mp hi) small)
      (Nat.lt_of_lt_of_le (List.mem_range.mp hj) small) same

theorem longEntries_succ (n : Nat) : longEntries (n + 1) = longEntries n ++ [(longKey n, 1)] := by
  rw [longEntries, List.range_succ, List.map_append]
  rfl

theorem longEntries_length (n : Nat) : (records pointers (longEntries n)).length = 264 * n := by
  induction n with
  | zero => rfl
  | succ n ih =>
      rw [longEntries_succ, Theory.records_append, List.length_append, ih, Theory.records_cons, List.length_append,
        Theory.length_record, length_longKey]
      rfl

/-- As many inserts of long keys as fit succeed. -/
theorem long_inserts (initialCapacity : UInt32) (positive : 1 ≤ initialCapacity.toNat) {n : Nat}
    (fits : 264 * n + 1 < 2 ^ 32) :
    ∃ answers m es, serveAll perform (new initialCapacity) ((List.range n).map insertLong) = some (answers, m) ∧
      Holds m es ∧ entryMap es = entryMap (longEntries n) := by
  induction n with
  | zero => exact ⟨[], new initialCapacity, [], rfl, new_holds positive, rfl⟩
  | succ n ih =>
      obtain ⟨answers, m, es, done, h, same⟩ := ih (by omega)
      have small : n < 2 ^ 64 := by omega
      have room : m.Fits (insertLong n) := fun es' h' _ => by
        rw [h'.unique h, Theory.records_length_eq h.keyed (longEntries_keyed (Nat.le_of_lt small)) same,
          longEntries_length, length_longKey]
        omega
      have absent : entryMap es (longKey n) = none := by
        rw [same]
        exact Theory.entryMap_missing (longEntries_absent small)
      obtain ⟨answer, m', es', next, h', serves⟩ := perform_spec h (insertLong n) room
      refine ⟨answers ++ [answer], m', es', ?_, h', ?_⟩
      · rw [List.range_succ, List.map_append, List.map_singleton, serveAll_concat, done, Option.bind_some]
        dsimp only
        rw [next, Option.map_some]
      · rw [longEntries_succ, Theory.entryMap_add (longEntries_absent small), ← same]
        exact serves.granted (by simp) (by simp) absent Heap.plenty_grants

/-- With 16268815 keys of 255 octets in the map, the next leaves the array. -/
theorem growth_wraps :
    serveAll perform (new 1024) ((List.range 16268816).map insertLong) = none ∧ ∀ i, (longKey i).length = 255 := by
  refine ⟨?_, length_longKey⟩
  obtain ⟨answers, m, es, done, h, same⟩ := long_inserts 1024 (by decide)
    (show 264 * 16268815 + 1 < 2 ^ 32 by decide)
  have keyed : WellKeyed (longEntries 16268815) := longEntries_keyed (by decide)
  have length : (records pointers es).length = 264 * 16268815 := by
    rw [Theory.records_length_eq h.keyed keyed same, longEntries_length]
  have absent : longKey 16268815 ∉ es.map Prod.fst := fun member => by
    obtain ⟨e, member, first⟩ := List.mem_map.mp member
    have found : entryMap es (longKey 16268815) = some e.2 :=
      (Theory.mem_iff_entryMap h.keyed).mp (first ▸ member)
    rw [same, Theory.entryMap_missing (longEntries_absent (by decide))] at found
    cases found
  have outside : m.perform (insertLong 16268815) = none := by
    rw [insertLong, perform, insert_outside h (by simp) (by simp) absent _ Heap.plenty_grants, Option.map_none]
    rw [length, length_longKey]
    decide
  rw [List.range_succ, List.map_append, List.map_singleton, serveAll_concat, done, Option.bind_some]
  dsimp only
  rw [outside, Option.map_none]

end CompactStringMap

end Everscale
