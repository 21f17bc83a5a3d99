/-
# Everscale.Base.WildcardIndexNode -- the patterns of one domain

A node keeps its patterns in an array behind its key, in the block it was allocated with, and what
does not fit there in a second array that grows.  Every call looks at the first and then at the
second.  An insert that is to replace the pointer of a pattern in the second array reads the old
pointer from the first and writes the new one an octet too early (`insert`); apart from that, and
below 4 GiB, a node is a map of reference-counted values.

`none` stands for an access outside the arrays or a failed assertion.
-/
import Everscale.Base.ReferencedMap

namespace Everscale

set_option autoImplicit false

open Theory (Key slice overwrite records entryMap WellKeyed)
open ReferencedMap (Call Answer Serves)

/-- `sizeof(WildcardIndexNode)` where a pointer has eight octets. -/
def sizeofNode : Nat := 64

def maxHostname : Nat := 255

def DefaultAlloc : Nat := sizeofNode + maxHostname + 3 * pointers.width

structure WildcardIndexNode where
  key : List UInt8
  wildcards : SizedBuffer
  extra : Option SizedBuffer
  deriving DecidableEq, Repr

namespace WildcardIndexNode

/-- In a block that holds these octets behind the key. -/
def create (block : Nat → List UInt8) (key : List UInt8) : Option WildcardIndexNode :=
  let capacity := DefaultAlloc - sizeofNode - key.length - 1
  (SizedBuffer.empty ⟨block capacity, capacity⟩).map fun wildcards =>
    { key := key, wildcards := wildcards, extra := none }

/-- The assertions on the key, which the source also checks where they are compiled out. -/
def goodKey (key : List UInt8) : Bool := 0 < key.length ∧ key.length ≤ maxHostname

/-- The new pattern into the second array, at its end `q`. -/
def spill (node : WildcardIndexNode) (refs : References) (memory : Memory) (extra : SizedBuffer) (q : Nat)
    (key : Key) (value : Pointer) : Option (Error × WildcardIndexNode × References) :=
  (extra.push memory.toHeap q key value).map fun (error, extra) =>
    (error, { node with extra := some extra }, if error = .success then refs.inc value else refs)

/-- The end of `insert`: the pattern is in neither array; they end at `p` and at `q`. -/
def add (node : WildcardIndexNode) (refs : References) (memory : Memory) (p : Nat)
    (extra : Option (SizedBuffer × Nat)) (key : Key) (value : Pointer) :
    Option (Error × WildcardIndexNode × References) :=
  if node.wildcards.freeSpace p > key.length + pointers.width + 2 then
    (node.wildcards.append p key value).map fun wildcards =>
      (.success, { node with wildcards := wildcards }, refs.inc value)
  else
    match extra with
    | some (extra, q) => node.spill refs memory extra q key value
    | none =>
        match memory.malloc (max DefaultAlloc (key.length + pointers.width + 1)) with
        | none => some (.outOfMemory, node, refs)
        | some fresh =>
            (SizedBuffer.empty ⟨fresh, DefaultAlloc⟩).bind fun extra =>
              node.spill refs memory extra 0 key value

/-- The pointer of the entry at `p` gives way to another. -/
def replace (buffer : SizedBuffer) (refs : References) (p keySize : Nat) (value : Pointer) :
    Option (Pointer × SizedBuffer × References) :=
  (buffer.readPointer (p + 1 + keySize)).bind fun ptr =>
    (refs.dec ptr).bind fun refs =>
      (buffer.writePointer (p + 1 + keySize) value).map fun buffer => (ptr, buffer, refs.inc value)

def insert (node : WildcardIndexNode) (refs : References) (memory : Memory) (key : Option Key)
    (value : Pointer) (updateIfExists : Bool) : Option (Error × WildcardIndexNode × References) :=
  match checkKey key with
  | .error error => some (error, node, refs)
  | .ok key =>
      if value = 0 then some (.invalidArgument, node, refs)
      else
        match node.wildcards.find key with
        | none => none
        | some (true, p) =>
            if updateIfExists = false then some (.uniquenessViolation, node, refs)
            else
              (replace node.wildcards refs p key.length value).map fun (_, wildcards, refs) =>
                (.success, { node with wildcards := wildcards }, refs)
        | some (false, p) =>
            match node.extra with
            | none => node.add refs memory p none key value
            | some extra =>
                match extra.find key with
                | none => none
                | some (true, q) =>
                    if updateIfExists = false then some (.uniquenessViolation, node, refs)
                    else
                      -- reads behind `p`, where `_wildcards` ends, and writes at `q + keySize`
                      (node.wildcards.readPointer (p + 1 + key.length)).bind fun ptr =>
                        (refs.dec ptr).bind fun refs =>
                          (extra.writePointer (q + key.length) value).map fun extra =>
                            (.success, { node with extra := some extra }, refs.inc value)
                | some (false, q) => node.add refs memory p (some (extra, q)) key value

/-- The entry at `p` goes. -/
def release (buffer : SizedBuffer) (refs : References) (p keySize : Nat) : Option (SizedBuffer × References) :=
  (buffer.readPointer (p + 1 + keySize)).bind fun ptr =>
    (refs.dec ptr).bind fun refs => (buffer.promote p keySize).map fun buffer => (buffer, refs)

def remove (node : WildcardIndexNode) (refs : References) (key : Option Key) :
    Option (Error × WildcardIndexNode × References) :=
  match key with
  | none => some (.nullPointer, node, refs)
  | some key =>
      if key.length = 0 then some (.invalidArgument, node, refs)
      else if 255 < key.length then some (.cannotFind, node, refs)
      else
        match node.wildcards.find key with
        | none => none
        | some (true, p) =>
            (release node.wildcards refs p key.length).map fun (wildcards, refs) =>
              (.success, { node with wildcards := wildcards }, refs)
        | some (false, _) =>
            match node.extra with
            | none => some (.cannotFind, node, refs)
            | some extra =>
                match extra.find key with
                | none => none
                | some (false, _) => some (.cannotFind, node, refs)
                | some (true, q) =>
                    (release extra refs q key.length).map fun (extra, refs) =>
                      (.success, { node with extra := some extra }, refs)

def find (node : WildcardIndexNode) (key : Option Key) : Option (Error × Option Pointer) :=
  match key with
  | none => some (.cannotFind, none)
  | some key =>
      if key.length = 0 ∨ 255 < key.length then some (.cannotFind, none)
      else
        match node.wildcards.find key with
        | none => none
        | some (true, p) =>
            (node.wildcards.readPointer (p + 1 + key.length)).map fun value => (.success, some value)
        | some (false, _) =>
            match node.extra with
            | none => some (.cannotFind, none)
            | some extra =>
                match extra.find key with
                | none => none
                | some (false, _) => some (.cannotFind, none)
                | some (true, q) =>
                    (extra.readPointer (q + 1 + key.length)).map fun value => (.success, some value)

/-- The pointer before the update comes along; a caller without `old` drops it. -/
def update (node : WildcardIndexNode) (refs : References) (key : Option Key) (value : Pointer) :
    Option (Error × Option Pointer × WildcardIndexNode × References) :=
  match checkKey key with
  | .error error => some (error, none, node, refs)
  | .ok key =>
      if value = 0 then some (.invalidArgument, none, node, refs)
      else
        match node.wildcards.find key with
        | none => none
        | some (true, p) =>
            (replace node.wildcards refs p key.length value).map fun (old, wildcards, refs) =>
              (.success, some old, { node with wildcards := wildcards }, refs)
        | some (false, _) =>
            match node.extra with
            | none => some (.cannotFind, none, node, refs)
            | some extra =>
                match extra.find key with
                | none => none
                | some (false, _) => some (.cannotFind, none, node, refs)
                | some (true, q) =>
                    (replace extra refs q key.length value).map fun (old, extra, refs) =>
                      (.success, some old, { node with extra := some extra }, refs)

/-- The walk of `clear` over one array, which gives back the reference of every entry. -/
def clearFrom (buffer : SizedBuffer) : Nat → Nat → References → Option References
  | 0, _, _ => none
  | turns + 1, p, refs =>
      match buffer.data[p]? with
      | none => none
      | some size =>
          if size = 0 then some refs
          else
            (buffer.readPointer (p + 1 + size.toNat)).bind fun ptr =>
              (refs.dec ptr).bind fun refs =>
                if buffer.capacity < p + 1 + size.toNat + pointers.width then none
                else clearFrom buffer turns (p + 1 + size.toNat + pointers.width) refs

def clearBuffer (buffer : SizedBuffer) (refs : References) : Option (SizedBuffer × References) :=
  (clearFrom buffer (buffer.capacity + 1) 0 refs).bind fun refs =>
    buffer.empty.map fun buffer => (buffer, refs)

def clear (node : WildcardIndexNode) (refs : References) : Option (WildcardIndexNode × References) :=
  (clearBuffer node.wildcards refs).bind fun (wildcards, refs) =>
    match node.extra with
    | none => some ({ node with wildcards := wildcards }, refs)
    | some extra =>
        -- the second array is freed
        (clearBuffer extra refs).map fun (_, refs) => ({ node with wildcards := wildcards, extra := none }, refs)

def empty (node : WildcardIndexNode) : Option Bool :=
  match node.wildcards.data[0]? with
  | none => none
  | some first =>
      if first ≠ 0 then some false
      else
        match node.extra with
        | none => some true
        | some extra => extra.data[0]?.map (· = 0)

/-! ## What a node holds -/

def legalKey (key : Key) : Prop := 1 ≤ key.length ∧ key.length ≤ 255

def short (memory : Memory) : Prop := memory.toHeap.Refuses

/-- Patterns, all different, and no null pointer. -/
structure Sound (es : List (Key × Pointer)) : Prop where
  keyed : WellKeyed es
  values : ∀ e ∈ es, e.2 ≠ 0

/-- The node holds `es` in the first array and `xs` in the second. -/
structure Holds (node : WildcardIndexNode) (es xs : List (Key × Pointer)) : Prop where
  wildcards : node.wildcards.Stores es
  noExtra : node.extra = none → xs = []
  extra : ∀ {buffer}, node.extra = some buffer → buffer.Stores xs
  sound : Sound (es ++ xs)

/-- What the second array has to do with an insert: it is not asked to replace a pointer, and a
new pattern leaves it below 4 GiB. -/
structure Fits (node : WildcardIndexNode) (key : Key) (updateIfExists : Bool) : Prop where
  replaces : ∀ es xs, Holds node es xs → key ∈ xs.map Prod.fst → updateIfExists = false
  grows : ∀ es xs, Holds node es xs → legalKey key → key ∉ (es ++ xs).map Prod.fst →
    (records pointers xs).length + key.length + 10 < 2 ^ 32

variable {node : WildcardIndexNode} {es xs before after : List (Key × Pointer)} {key : Key} {value old : Pointer}
  {refs : References} {buffer : SizedBuffer}

theorem Holds.unique {es' xs' : List (Key × Pointer)} (h : Holds node es xs) (h' : Holds node es' xs') :
    es = es' ∧ xs = xs' := by
  refine ⟨h.wildcards.packs.unique h'.wildcards.packs, ?_⟩
  cases extra : node.extra with
  | none => rw [h.noExtra extra, h'.noExtra extra]
  | some buffer => exact (h.extra extra).packs.unique (h'.extra extra).packs

theorem checkKey_legal (legal : legalKey key) : checkKey (some key) = .ok key := checkKey_some legal.1 legal.2

theorem checkKey_illegal {error : Error} (checked : checkKey (some key) = .error error) :
    ¬ legalKey key ∧ error ≠ .success := by
  constructor
  · intro legal
    rw [checkKey_legal legal] at checked
    cases checked
  · rintro rfl
    rw [checkKey] at checked
    by_cases short : key.length < 1
    · rw [if_pos short] at checked
      cases checked
    · rw [if_neg short] at checked
      by_cases long : key.length > 255
      · rw [if_pos long] at checked
        cases checked
      · rw [if_neg long] at checked
        cases checked

namespace Sound

theorem insert (h : Sound (before ++ after)) (legal : legalKey key) (ne : value ≠ 0)
    (absent : key ∉ (before ++ after).map Prod.fst) : Sound (before ++ (key, value) :: after) := by
  refine ⟨h.keyed.insert legal.1 legal.2 absent, fun e member => ?_⟩
  rcases List.mem_cons.mp (List.perm_middle.mem_iff.mp member) with rfl | member
  · exact ne
  · exact h.values e member

theorem remove (h : Sound (before ++ (key, value) :: after)) : Sound (before ++ after) :=
  ⟨h.keyed.remove, fun e member => h.values e (List.perm_middle.mem_iff.mpr (List.mem_cons_of_mem _ member))⟩

theorem replace (h : Sound (before ++ (key, old) :: after)) (ne : value ≠ 0) :
    Sound (before ++ (key, value) :: after) := by
  have absent : key ∉ (before ++ after).map Prod.fst := by
    rw [List.map_append, List.mem_append]
    exact not_or.mpr h.keyed.middle.2
  exact h.remove.insert h.keyed.middle.1 ne absent

theorem value_ne (h : Sound (before ++ (key, value) :: after)) : value ≠ 0 := h.values (key, value) (by simp)

end Sound

/-! ## The calls on a node -/

theorem replace_spec (stores : buffer.Stores (before ++ (key, old) :: after)) (ne : old ≠ 0) (refs : References)
    (value : Pointer) :
    ∃ buffer', replace buffer refs (records pointers before).length key.length value =
        some (old, buffer', (refs.lost old).inc value) ∧
      buffer'.Stores (before ++ (key, value) :: after) := by
  obtain ⟨buffer', written, -, stores'⟩ := stores.writePointer value
  refine ⟨buffer', ?_, stores'⟩
  rw [replace, stores.readPointer, Option.bind_some, References.dec_of_ne ne, Option.bind_some, written,
    Option.map_some]

theorem release_spec (stores : buffer.Stores (before ++ (key, old) :: after)) (ne : old ≠ 0) (refs : References) :
    ∃ buffer', release buffer refs (records pointers before).length key.length = some (buffer', refs.lost old) ∧
      buffer'.Stores (before ++ after) := by
  obtain ⟨buffer', closed, -, stores'⟩ := stores.promote
  refine ⟨buffer', ?_, stores'⟩
  rw [release, stores.readPointer, Option.bind_some, References.dec_of_ne ne, Option.bind_some, closed,
    Option.map_some]

/-- The call is served as a map serves it, and the node holds the map that is left. -/
def Answers (node : WildcardIndexNode) (es xs : List (Key × Pointer)) (refs : References) (call : Call Key)
    (answer : Answer) (node' : WildcardIndexNode) (refs' : References) : Prop :=
  ∃ es' xs', Holds node' es' xs' ∧ node'.key = node.key ∧
    Serves legalKey short (entryMap (es ++ xs)) refs call answer (entryMap (es' ++ xs')) refs'

theorem Answers.same (h : Holds node es xs) {call : Call Key} {answer : Answer}
    (serves : Serves legalKey short (entryMap (es ++ xs)) refs call answer (entryMap (es ++ xs)) refs) :
    Answers node es xs refs call answer node refs := ⟨es, xs, h, rfl, serves⟩

/-- The first array has changed from `es` to `es'`. -/
theorem Holds.with_wildcards (h : Holds node es xs) {wildcards : SizedBuffer} {es' : List (Key × Pointer)}
    (stores : wildcards.Stores es') (sound : Sound (es' ++ xs)) :
    Holds { node with wildcards := wildcards } es' xs := ⟨stores, h.noExtra, h.extra, sound⟩

theorem Holds.with_extra (h : Holds node es xs) {xs' : List (Key × Pointer)} (stores : buffer.Stores xs')
    (sound : Sound (es ++ xs')) : Holds { node with extra := some buffer } es xs' :=
  ⟨h.wildcards, nofun, fun some => Option.some.inj some ▸ stores, sound⟩

theorem spill_spec (h : Holds node es xs) (stores : buffer.Stores xs) (memory : Memory) (legal : legalKey key)
    (ne : value ≠ 0) (absent : key ∉ (es ++ xs).map Prod.fst)
    (grows : (records pointers xs).length + key.length + 10 < 2 ^ 32) (updateIfExists : Bool) :
    ∃ error node' refs', node.spill refs memory buffer (records pointers xs).length key value =
        some (error, node', refs') ∧
      Answers node es xs refs (.insert memory key value updateIfExists) (.returned error) node' refs' := by
  have missing : entryMap (es ++ xs) key = none := Theory.entryMap_missing absent
  have apart : key ∉ xs.map Prod.fst := fun member => absent (by simp [member])
  rcases stores.push legal.1 legal.2 apart grows memory.toHeap value with ⟨buffer', pushed, stores'⟩ | ⟨pushed, refuses⟩
  · rw [spill, pushed]
    have sound : Sound (es ++ (xs ++ [(key, value)])) := by
      rw [← List.append_assoc]
      refine Sound.insert ?_ legal ne ?_ <;> rw [List.append_nil]
      · exact h.sound
      · exact absent
    refine ⟨.success, _, refs.inc value, rfl, es, xs ++ [(key, value)], h.with_extra stores' sound, rfl, ?_⟩
    rw [← List.append_assoc, Theory.entryMap_add absent]
    exact .inserted legal ne missing
  · rw [spill, pushed]
    exact ⟨.outOfMemory, _, refs, rfl, es, xs, h.with_extra stores h.sound, rfl, .refused legal ne missing refuses⟩

theorem add_spec (h : Holds node es xs) (refs : References) (memory : Memory) (legal : legalKey key) (ne : value ≠ 0)
    (absent : key ∉ (es ++ xs).map Prod.fst) (grows : (records pointers xs).length + key.length + 10 < 2 ^ 32)
    (updateIfExists : Bool) :
    ∃ error node' refs', node.add refs memory (records pointers es).length
        (node.extra.map fun buffer => (buffer, (records pointers xs).length)) key value =
          some (error, node', refs') ∧
      Answers node es xs refs (.insert memory key value updateIfExists) (.returned error) node' refs' := by
  have missing : entryMap (es ++ xs) key = none := Theory.entryMap_missing absent
  have apart : key ∉ es.map Prod.fst := fun member => absent (by simp [member])
  rw [add.eq_def, h.wildcards.freeSpace]
  by_cases room : node.wildcards.capacity - (records pointers es).length > key.length + pointers.width + 2
  · have width : pointers.width = 8 := rfl
    obtain ⟨wildcards, written, -, stores⟩ := h.wildcards.append legal.1 legal.2 apart value (by omega)
    rw [if_pos room, written]
    have split : es ++ [(key, value)] ++ xs = es ++ (key, value) :: xs := by simp
    refine ⟨.success, _, refs.inc value, rfl, es ++ [(key, value)], xs, ?_, rfl, ?_⟩
    · exact h.with_wildcards stores (split ▸ h.sound.insert legal ne absent)
    · rw [split, Theory.entryMap_insert apart]
      exact .inserted legal ne missing
  · rw [if_neg room]
    cases extra : node.extra with
    | some buffer => exact spill_spec h (h.extra extra) memory legal ne absent grows updateIfExists
    | none =>
        obtain rfl := h.noExtra extra
        dsimp only [Option.map_none]
        cases granted : memory.malloc (max DefaultAlloc (key.length + pointers.width + 1)) with
        | none =>
            exact ⟨.outOfMemory, node, refs, rfl, .same h (.refused legal ne missing ⟨_, .inl granted⟩)⟩
        | some fresh =>
            have size : max DefaultAlloc (key.length + pointers.width + 1) = DefaultAlloc := by
              refine Nat.max_eq_left ?_
              have : DefaultAlloc = 343 := rfl
              have : pointers.width = 8 := rfl
              have : key.length ≤ 255 := legal.2
              omega
            have length : fresh.length = DefaultAlloc := size ▸ memory.malloc_length granted
            obtain ⟨buffer, emptied, -, stores⟩ :=
              SizedBuffer.Stores.empty ⟨fresh, DefaultAlloc⟩
                (show 1 ≤ DefaultAlloc by decide) length (show DefaultAlloc < 2 ^ 32 by decide)
            dsimp only
            rw [emptied, Option.bind_some]
            exact spill_spec h stores memory legal ne absent grows updateIfExists

/-- A pattern found in the first array, seen among those of both. -/
theorem in_wildcards (h : Holds node (before ++ (key, old) :: after) xs) :
    Sound (before ++ (key, old) :: (after ++ xs)) := by
  have sound := h.sound
  rwa [List.append_assoc, List.cons_append] at sound

theorem in_extra (h : Holds node es (before ++ (key, old) :: after)) :
    Sound (es ++ before ++ (key, old) :: after) := by
  have sound := h.sound
  rwa [← List.append_assoc] at sound

theorem found_in_wildcards (h : Holds node (before ++ (key, old) :: after) xs) :
    entryMap (before ++ (key, old) :: after ++ xs) key = some old := by
  rw [List.append_assoc, List.cons_append]
  exact Theory.entryMap_found (in_wildcards h).keyed.middle.2.1

theorem found_in_extra (h : Holds node es (before ++ (key, old) :: after)) :
    entryMap (es ++ (before ++ (key, old) :: after)) key = some old := by
  rw [← List.append_assoc]
  exact Theory.entryMap_found (in_extra h).keyed.middle.2.1

theorem found_in_neither {xs : List (Key × Pointer)} (absent : key ∉ es.map Prod.fst) (absent' : key ∉ xs.map Prod.fst) :
    key ∉ (es ++ xs).map Prod.fst := by
  rw [List.map_append, List.mem_append]
  exact not_or.mpr ⟨absent, absent'⟩

theorem missing_alone (absent : key ∉ es.map Prod.fst) : entryMap (es ++ []) key = none := by
  rw [List.append_nil]
  exact Theory.entryMap_missing absent

theorem Holds.replaced_in_wildcards (h : Holds node (before ++ (key, old) :: after) xs) (ne : value ≠ 0)
    {wildcards : SizedBuffer} (stores : wildcards.Stores (before ++ (key, value) :: after)) :
    Holds { node with wildcards := wildcards } (before ++ (key, value) :: after) xs ∧
      entryMap (before ++ (key, value) :: after ++ xs) =
        Function.update (entryMap (before ++ (key, old) :: after ++ xs)) key (some value) := by
  have sound := in_wildcards h
  refine ⟨h.with_wildcards stores ?_, ?_⟩
  · rw [List.append_assoc, List.cons_append]
    exact sound.replace ne
  · rw [List.append_assoc, List.append_assoc, List.cons_append, List.cons_append]
    exact Theory.entryMap_replace sound.keyed.middle.2.1 value

theorem Holds.replaced_in_extra (h : Holds node es (before ++ (key, old) :: after)) (ne : value ≠ 0)
    (stores : buffer.Stores (before ++ (key, value) :: after)) :
    Holds { node with extra := some buffer } es (before ++ (key, value) :: after) ∧
      entryMap (es ++ (before ++ (key, value) :: after)) =
        Function.update (entryMap (es ++ (before ++ (key, old) :: after))) key (some value) := by
  have sound := in_extra h
  refine ⟨h.with_extra stores ?_, ?_⟩
  · rw [← List.append_assoc]
    exact sound.replace ne
  · rw [← List.append_assoc, ← List.append_assoc]
    exact Theory.entryMap_replace sound.keyed.middle.2.1 value

theorem insert_spec (h : Holds node es xs) (refs : References) (memory : Memory) (updateIfExists : Bool)
    (fits : Fits node key updateIfExists) (value : Pointer) :
    ∃ error node' refs', node.insert refs memory (some key) value updateIfExists = some (error, node', refs') ∧
      Answers node es xs refs (.insert memory key value updateIfExists) (.returned error) node' refs' := by
  rw [insert]
  cases checked : checkKey (some key) with
  | error error =>
      obtain ⟨illegal, failed⟩ := checkKey_illegal checked
      exact ⟨error, node, refs, rfl, .same h (.insertRejected (fun both => illegal both.1) failed)⟩
  | ok k =>
      obtain ⟨same, legal⟩ := checkKey_ok checked
      obtain rfl := Option.some.inj same
      dsimp only
      by_cases null : value = 0
      · rw [if_pos null]
        exact ⟨.invalidArgument, node, refs, rfl, .same h (.insertRejected (fun both => both.2 null) nofun)⟩
      rw [if_neg null]
      obtain ⟨found, ends, sought⟩ := h.wildcards.find key
      rw [ends]
      cases sought with
      | @found front old back split =>
          subst split
          have present := found_in_wildcards h
          dsimp only
          cases updateIfExists with
          | false => exact ⟨.uniquenessViolation, node, refs, rfl, .same h (.present legal null present)⟩
          | true =>
              obtain ⟨wildcards, replaced, stores⟩ :=
                replace_spec h.wildcards (in_wildcards h).value_ne refs value
              obtain ⟨holds, map⟩ := h.replaced_in_wildcards null stores
              rw [if_neg (by simp), Nat.zero_add, replaced]
              refine ⟨.success, _, _, rfl, _, _, holds, rfl, ?_⟩
              rw [map]
              exact .replaced legal null present
      | missing absent =>
          dsimp only
          cases extra : node.extra with
          | none =>
              obtain rfl := h.noExtra extra
              have apart : key ∉ (es ++ []).map Prod.fst := found_in_neither absent nofun
              have added := add_spec h refs memory legal null apart (fits.grows es [] h legal apart) updateIfExists
              rw [extra, Option.map_none] at added
              dsimp only
              rw [Nat.zero_add]
              exact added
          | some buffer =>
              obtain ⟨found, ends, sought⟩ := (h.extra extra).find key
              dsimp only
              rw [ends]
              cases sought with
              | @found front old back split =>
                  subst split
                  have keep : updateIfExists = false := fits.replaces es _ h (by simp)
                  dsimp only
                  rw [if_pos keep, keep]
                  exact ⟨.uniquenessViolation, node, refs, rfl, .same h (.present legal null (found_in_extra h))⟩
              | missing absent' =>
                  have apart : key ∉ (es ++ xs).map Prod.fst := found_in_neither absent absent'
                  have added := add_spec h refs memory legal null apart (fits.grows es xs h legal apart) updateIfExists
                  rw [extra, Option.map_some] at added
                  dsimp only
                  rw [Nat.zero_add, Nat.zero_add]
                  exact added

theorem remove_spec (h : Holds node es xs) (refs : References) (key : Key) :
    ∃ error node' refs', node.remove refs (some key) = some (error, node', refs') ∧
      Answers node es xs refs (.remove key) (.returned error) node' refs' := by
  rw [remove]
  by_cases empty : key.length = 0
  · rw [if_pos empty]
    have illegal : ¬ legalKey key := fun legal => absurd legal.1 (by omega)
    exact ⟨.invalidArgument, node, refs, rfl, .same h (.removeRejected illegal nofun)⟩
  rw [if_neg empty]
  by_cases long : 255 < key.length
  · rw [if_pos long]
    have illegal : ¬ legalKey key := fun legal => absurd legal.2 (by omega)
    exact ⟨.cannotFind, node, refs, rfl, .same h (.removeRejected illegal nofun)⟩
  rw [if_neg long]
  have legal : legalKey key := ⟨Nat.pos_of_ne_zero empty, Nat.le_of_not_lt long⟩
  obtain ⟨found, ends, sought⟩ := h.wildcards.find key
  rw [ends]
  cases sought with
  | @found front old back split =>
      subst split
      have sound := in_wildcards h
      obtain ⟨wildcards, released, stores⟩ := release_spec h.wildcards sound.value_ne refs
      dsimp only
      rw [Nat.zero_add, released]
      refine ⟨.success, _, _, rfl, front ++ back, xs, h.with_wildcards stores ?_, rfl, ?_⟩
      · rw [List.append_assoc]
        exact sound.remove
      · have map : entryMap (front ++ back ++ xs) =
            Function.update (entryMap (front ++ (key, old) :: back ++ xs)) key none := by
          rw [List.append_assoc, List.append_assoc, List.cons_append]
          exact Theory.entryMap_remove sound.keyed.middle.2.1 sound.keyed.middle.2.2
        rw [map]
        exact .removed legal (found_in_wildcards h)
  | missing absent =>
      dsimp only
      cases extra : node.extra with
      | none =>
          obtain rfl := h.noExtra extra
          have missing := missing_alone absent
          exact ⟨.cannotFind, node, refs, rfl, .same h (.notRemoved legal missing)⟩
      | some buffer =>
          obtain ⟨found, ends, sought⟩ := (h.extra extra).find key
          dsimp only
          rw [ends]
          cases sought with
          | @found front old back split =>
              subst split
              have sound := in_extra h
              obtain ⟨buffer', released, stores⟩ := release_spec (h.extra extra) sound.value_ne refs
              dsimp only
              rw [Nat.zero_add, released]
              refine ⟨.success, _, _, rfl, es, front ++ back, h.with_extra stores ?_, rfl, ?_⟩
              · rw [← List.append_assoc]
                exact sound.remove
              · have map : entryMap (es ++ (front ++ back)) =
                    Function.update (entryMap (es ++ (front ++ (key, old) :: back))) key none := by
                  rw [← List.append_assoc, ← List.append_assoc]
                  exact Theory.entryMap_remove sound.keyed.middle.2.1 sound.keyed.middle.2.2
                rw [map]
                exact .removed legal (found_in_extra h)
          | missing absent' =>
              have missing := Theory.entryMap_missing (found_in_neither absent absent')
              exact ⟨.cannotFind, node, refs, rfl, .same h (.notRemoved legal missing)⟩

theorem update_spec (h : Holds node es xs) (refs : References) (key : Key) (value : Pointer) :
    ∃ error old node' refs', node.update refs (some key) value = some (error, old, node', refs') ∧
      Answers node es xs refs (.update key value) (.updated error old) node' refs' := by
  rw [update]
  cases checked : checkKey (some key) with
  | error error =>
      obtain ⟨illegal, failed⟩ := checkKey_illegal checked
      exact ⟨error, none, node, refs, rfl, .same h (.updateRejected (fun both => illegal both.1) failed)⟩
  | ok k =>
      obtain ⟨same, legal⟩ := checkKey_ok checked
      obtain rfl := Option.some.inj same
      dsimp only
      by_cases null : value = 0
      · rw [if_pos null]
        exact ⟨.invalidArgument, none, node, refs, rfl, .same h (.updateRejected (fun both => both.2 null) nofun)⟩
      rw [if_neg null]
      obtain ⟨found, ends, sought⟩ := h.wildcards.find key
      rw [ends]
      cases sought with
      | @found front old back split =>
          subst split
          obtain ⟨wildcards, replaced, stores⟩ := replace_spec h.wildcards (in_wildcards h).value_ne refs value
          obtain ⟨holds, map⟩ := h.replaced_in_wildcards null stores
          dsimp only
          rw [Nat.zero_add, replaced]
          refine ⟨.success, some old, _, _, rfl, _, _, holds, rfl, ?_⟩
          rw [map]
          exact .updated legal null (found_in_wildcards h)
      | missing absent =>
          dsimp only
          cases extra : node.extra with
          | none =>
              obtain rfl := h.noExtra extra
              have missing := missing_alone absent
              exact ⟨.cannotFind, none, node, refs, rfl, .same h (.notUpdated legal null missing)⟩
          | some buffer =>
              obtain ⟨found, ends, sought⟩ := (h.extra extra).find key
              dsimp only
              rw [ends]
              cases sought with
              | @found front old back split =>
                  subst split
                  obtain ⟨buffer', replaced, stores⟩ := replace_spec (h.extra extra) (in_extra h).value_ne refs value
                  obtain ⟨holds, map⟩ := h.replaced_in_extra null stores
                  dsimp only
                  rw [Nat.zero_add, replaced]
                  refine ⟨.success, some old, _, _, rfl, _, _, holds, rfl, ?_⟩
                  rw [map]
                  exact .updated legal null (found_in_extra h)
              | missing absent' =>
                  have missing := Theory.entryMap_missing (found_in_neither absent absent')
                  exact ⟨.cannotFind, none, node, refs, rfl, .same h (.notUpdated legal null missing)⟩

theorem find_spec (h : Holds node es xs) (refs : References) (key : Key) :
    ∃ error value, node.find (some key) = some (error, value) ∧
      Answers node es xs refs (.find key) (.found error value) node refs := by
  rw [find]
  by_cases illegal : key.length = 0 ∨ 255 < key.length
  · rw [if_pos illegal]
    have absent : key ∉ (es ++ xs).map Prod.fst := fun member => by
      obtain ⟨e, inside, rfl⟩ := List.mem_map.mp member
      have := h.sound.keyed.sized e inside
      omega
    exact ⟨.cannotFind, none, rfl, .same h (.notFound (Theory.entryMap_missing absent))⟩
  rw [if_neg illegal]
  obtain ⟨found, ends, sought⟩ := h.wildcards.find key
  rw [ends]
  cases sought with
  | @found front old back split =>
      subst split
      dsimp only
      rw [Nat.zero_add, h.wildcards.readPointer]
      exact ⟨.success, some old, rfl, .same h (.found (found_in_wildcards h))⟩
  | missing absent =>
      dsimp only
      cases extra : node.extra with
      | none =>
          obtain rfl := h.noExtra extra
          have missing := missing_alone absent
          exact ⟨.cannotFind, none, rfl, .same h (.notFound missing)⟩
      | some buffer =>
          obtain ⟨found, ends, sought⟩ := (h.extra extra).find key
          dsimp only
          rw [ends]
          cases sought with
          | @found front old back split =>
              subst split
              dsimp only
              rw [Nat.zero_add, (h.extra extra).readPointer]
              exact ⟨.success, some old, rfl, .same h (.found (found_in_extra h))⟩
          | missing absent' =>
              have missing := Theory.entryMap_missing (found_in_neither absent absent')
              exact ⟨.cannotFind, none, rfl, .same h (.notFound missing)⟩

/-- The references without those of the entries. -/
def without (refs : References) (es : List (Key × Pointer)) : References :=
  es.foldl (fun refs e => refs.lost e.2) refs

theorem clearFrom_spec (stores : buffer.Stores (before ++ after)) (values : ∀ e ∈ after, e.2 ≠ 0) {turns : Nat}
    (enough : after.length < turns) (refs : References) :
    clearFrom buffer turns (records pointers before).length refs = some (without refs after) := by
  induction after generalizing before turns refs with
  | nil =>
      obtain ⟨turns, rfl⟩ := Nat.exists_eq_succ_of_ne_zero (Nat.pos_iff_ne_zero.mp enough)
      rw [List.append_nil] at stores
      rw [clearFrom, stores.packs.end_at]
      rfl
  | cons e rest ih =>
      obtain ⟨key, value⟩ := e
      obtain ⟨turns, rfl⟩ := Nat.exists_eq_succ_of_ne_zero (Nat.pos_iff_ne_zero.mp (Nat.zero_lt_of_lt enough))
      obtain ⟨size, sizeAt, nonzero, same, -⟩ := stores.packs.key_at
      have split : before ++ (key, value) :: rest = before ++ [(key, value)] ++ rest := by simp
      have behind : (records pointers before).length + 1 + key.length + pointers.width =
          (records pointers (before ++ [(key, value)])).length := by
        rw [Theory.records_append, List.length_append, Theory.records_cons, Theory.records_nil, List.append_nil,
          Theory.length_record]
        dsimp only
        omega
      have inside : ¬ buffer.capacity < (records pointers (before ++ [(key, value)])).length := by
        have := stores.length_lt
        rw [split, Theory.records_append, List.length_append] at this
        omega
      have ne : value ≠ 0 := values (key, value) List.mem_cons_self
      rw [clearFrom, sizeAt]
      dsimp only
      rw [if_neg nonzero, same, stores.readPointer, Option.bind_some, References.dec_of_ne ne, Option.bind_some,
        behind, if_neg inside]
      exact ih (split ▸ stores) (fun e member => values e (List.mem_cons_of_mem _ member))
        (Nat.lt_of_succ_lt_succ enough) (refs.lost value)

theorem clearBuffer_spec (stores : buffer.Stores es) (values : ∀ e ∈ es, e.2 ≠ 0) (refs : References) :
    ∃ buffer', clearBuffer buffer refs = some (buffer', without refs es) ∧ buffer'.Stores [] := by
  have positive : 1 ≤ buffer.capacity := Nat.zero_lt_of_lt stores.length_lt
  have enough : es.length < buffer.capacity + 1 := by
    have : (records pointers es).length < buffer.capacity := stores.length_lt
    have : es.length ≤ (records pointers es).length := Theory.length_le_records
    omega
  have whole : buffer.Stores ([] ++ es) := stores
  obtain ⟨buffer', emptied, -, stores'⟩ := SizedBuffer.Stores.empty buffer positive stores.length stores.bounded
  refine ⟨buffer', ?_, stores'⟩
  have walked : clearFrom buffer (buffer.capacity + 1) 0 refs = some (without refs es) :=
    clearFrom_spec whole values enough refs
  rw [clearBuffer, walked, Option.bind_some, emptied, Option.map_some]

theorem Holds.nothing {domain : List UInt8} {wildcards : SizedBuffer} (stores : wildcards.Stores []) :
    Holds ⟨domain, wildcards, none⟩ [] [] :=
  ⟨stores, fun _ => rfl, nofun, Theory.wellKeyed_nil, nofun⟩

theorem clear_spec (h : Holds node es xs) (refs : References) :
    ∃ node', node.clear refs = some (node', without refs (es ++ xs)) ∧ Holds node' [] [] ∧ node'.key = node.key := by
  obtain ⟨wildcards, cleared, stores⟩ := clearBuffer_spec h.wildcards
    (fun e member => h.sound.values e (List.mem_append_left _ member)) refs
  rw [clear, cleared, Option.bind_some]
  cases extra : node.extra with
  | none =>
      obtain rfl := h.noExtra extra
      rw [List.append_nil]
      exact ⟨_, rfl, .nothing stores, rfl⟩
  | some buffer =>
      obtain ⟨_, freed, -⟩ := clearBuffer_spec (h.extra extra)
        (fun e member => h.sound.values e (List.mem_append_right _ member)) (without refs es)
      dsimp only
      rw [freed, Option.map_some, show without (without refs es) xs = without refs (es ++ xs) from
        (List.foldl_append ..).symm]
      exact ⟨_, rfl, .nothing stores, rfl⟩

theorem create_spec (memory : Memory) {domain : List UInt8} (good : goodKey domain = true) :
    ∃ node, create memory.block domain = some node ∧ Holds node [] [] ∧ node.key = domain := by
  obtain ⟨low, high⟩ : 0 < domain.length ∧ domain.length ≤ 255 := of_decide_eq_true good
  have capacity : 1 ≤ DefaultAlloc - sizeofNode - domain.length - 1 ∧
      DefaultAlloc - sizeofNode - domain.length - 1 < 2 ^ 32 := by
    rw [show DefaultAlloc = 343 from rfl, show sizeofNode = 64 from rfl]
    omega
  obtain ⟨wildcards, emptied, -, stores⟩ := SizedBuffer.Stores.empty
    ⟨memory.block (DefaultAlloc - sizeofNode - domain.length - 1), DefaultAlloc - sizeofNode - domain.length - 1⟩
    capacity.1 (memory.length_block _) capacity.2
  refine ⟨⟨domain, wildcards, none⟩, ?_, .nothing stores, rfl⟩
  rw [create, emptied, Option.map_some]

theorem fits_nothing (holds : Holds node [] []) (key : Key) (updateIfExists : Bool) : Fits node key updateIfExists where
  replaces es xs h member := by
    obtain ⟨-, rfl⟩ := holds.unique h
    cases member
  grows es xs h legal _ := by
    obtain ⟨-, rfl⟩ := holds.unique h
    have none : (records pointers []).length = 0 := rfl
    have long : key.length ≤ 255 := legal.2
    omega

theorem first_octet (stores : buffer.Stores es) : ∃ first, buffer.data[0]? = some first ∧ (first = 0 ↔ es = []) := by
  cases es with
  | nil => exact ⟨0, stores.packs.end_at, by simp⟩
  | cons e rest =>
      have whole : buffer.Stores ([] ++ (e.1, e.2) :: rest) := stores
      obtain ⟨size, sizeAt, nonzero, -, -⟩ := whole.packs.key_at
      exact ⟨size, sizeAt, by simp [nonzero]⟩

theorem empty_spec (h : Holds node es xs) : node.empty = some (decide (es = [] ∧ xs = [])) := by
  obtain ⟨first, firstAt, firstZero⟩ := first_octet h.wildcards
  rw [empty, firstAt]
  dsimp only
  by_cases some : first ≠ 0
  · have : es ≠ [] := fun none => some (firstZero.mpr none)
    rw [if_pos some]
    simp [this]
  · rw [if_neg some]
    have none : es = [] := firstZero.mp (not_not.mp some)
    cases extra : node.extra with
    | none => simp [none, h.noExtra extra]
    | some buffer =>
        obtain ⟨first', firstAt', firstZero'⟩ := first_octet (h.extra extra)
        dsimp only
        rw [firstAt']
        simp [none, firstZero']

end WildcardIndexNode

end Everscale
