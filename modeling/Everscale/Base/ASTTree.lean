/-
# Everscale.Base.ASTTree -- building a tree from callbacks, and replaying it

`Tree` is a set of callbacks that builds elements.  The element on top of the stack says what comes
next: a list takes another element, a map takes a key, and a scalar is a key that waits for its
value.  `traverse` calls another set of callbacks for the elements of the tree.

Beside the fields of the source a tree counts the elements that were allocated and logs the blocks
that were given back.
-/
import Everscale.Base.ASTElement

namespace Everscale

set_option autoImplicit false

namespace AST

/-- A callback and its arguments. -/
inductive Event where
  | mapStart
  | mapEnd
  | listStart
  | listEnd
  | null
  | boolean (value : Bool)
  | integer (value : Int64)
  | decimal (value : Double)
  /-- `none` is a null pointer -/
  | string (value : Option (List Octet))
  deriving DecidableEq, Repr

inductive ParseControl where
  | BREAK
  | CONTINUE
  deriving DecidableEq, Repr

/-- What the allocator answers in one callback, for an element, for the octets of a string, and for
a node of a map. -/
structure Answers where
  element : Error
  value : Error
  node : Error
  deriving DecidableEq, Repr

def Answers.plenty : Answers := ⟨.success, .success, .success⟩

structure Tree where
  /-- `_stack`, its last element first -/
  stack : List Element
  error : Error
  root : Option Element
  allocator : Allocator
  /-- how many elements were allocated -/
  created : Nat
  /-- the blocks that were given back -/
  freed : List Block
  deriving Repr

namespace Tree

def new (allocator : Allocator) : Tree :=
  { stack := [], error := .success, root := none, allocator := allocator, created := 0, freed := [] }

/-! ## Building -/

/-- The tree has failed. -/
def broken (t : Tree) (error : Error) : ParseControl × Tree := (.BREAK, { t with error := error })

/-- The next element that is allocated. -/
def block (t : Tree) : Block := ⟨t.created, t.allocator⟩

/-- `deallocate`, after the destructor. -/
def deallocate (t : Tree) (block : Block) : Tree := { t with freed := t.freed ++ [block] }

/-- `none` is a read through a null pointer. -/
def insertKeyPair (t : Tree) (element : Element) (answers : Answers) : Option (ParseControl × Tree) :=
  match t.stack with
  | [] => none
  | .scalar key :: below =>
      match below with
      | [] => none
      | .map block entries :: rest =>
          match Map.insert entries key element answers.node with
          | (.success, entries) => some (.CONTINUE, { t with stack := .map block entries :: rest })
          | (error, _) => some (({ t with stack := below } : Tree).broken error)
      | _ :: _ => some (({ t with stack := below } : Tree).broken .cannotParse)
  | _ :: _ => some (t.broken .cannotParse)

def onMapStart (t : Tree) (answers : Answers) : ParseControl × Tree :=
  if answers.element ≠ .success then t.broken .outOfMemory
  else
    -- the map is allocated here, and knows of no allocator but the default one
    (.CONTINUE, { t with stack := .map ⟨t.created, SystemAllocator⟩ [] :: t.stack, created := t.created + 1 })

def onListStart (t : Tree) (answers : Answers) : ParseControl × Tree :=
  if answers.element ≠ .success then t.broken .outOfMemory
  else (.CONTINUE, { t with stack := .list t.block [] :: t.stack, created := t.created + 1 })

/-- A container that has come to its end goes to where it belongs, in `onMapEnd` and `onListEnd`. -/
def settle (t : Tree) (element : Element) (answers : Answers) : Option (ParseControl × Tree) :=
  match t.stack with
  | [] => some (.CONTINUE, { t with root := some element })
  | .list block elements :: rest =>
      some (.CONTINUE, { t with stack := .list block (elements ++ [element]) :: rest })
  | _ :: _ =>
      (t.insertKeyPair element answers).map fun done =>
        match done with
        | (.BREAK, t) => (.BREAK, { t with stack := element :: t.stack })
        | done => done

def onMapEnd (t : Tree) (answers : Answers) : Option (ParseControl × Tree) :=
  match t.stack with
  | [] => none
  | .map block entries :: below => ({ t with stack := below } : Tree).settle (.map block entries) answers
  | _ :: below => some (({ t with stack := below } : Tree).broken .cannotParse)

def onListEnd (t : Tree) (answers : Answers) : Option (ParseControl × Tree) :=
  match t.stack with
  | [] => none
  | .list block elements :: below => ({ t with stack := below } : Tree).settle (.list block elements) answers
  | _ :: below => some (({ t with stack := below } : Tree).broken .cannotParse)

/-- A new element that could not be put anywhere is given back. -/
def orFree (block : Block) (done : ParseControl × Tree) : ParseControl × Tree :=
  match done with
  | (.BREAK, t) => (.BREAK, t.deallocate block)
  | done => done

def onNull (t : Tree) (answers : Answers) : Option (ParseControl × Tree) :=
  match t.stack with
  | [] => some (t.broken .cannotParse)
  | .map .. :: _ => some (t.broken .cannotParse)
  | .null _ :: _ => some (t.broken .cannotParse)
  | .list block elements :: rest =>
      if answers.element ≠ .success then some (t.broken .outOfMemory)
      else
        some (.CONTINUE,
          { t with stack := .list block (elements ++ [.null t.block]) :: rest, created := t.created + 1 })
  | .scalar _ :: _ =>
      if answers.element ≠ .success then some (t.broken .outOfMemory)
      else
        (({ t with created := t.created + 1 } : Tree).insertKeyPair (.null t.block) answers).map (orFree t.block)

def validateKeyType (t : Tree) : ParseControl × Tree :=
  match t.stack with
  | [] => t.broken .cannotParse
  | .null _ :: _ => t.broken .cannotParse
  | _ :: _ => (.CONTINUE, t)

def insertKeyOrValue (t : Tree) (element : Element) (answers : Answers) : Option (ParseControl × Tree) :=
  match t.stack with
  | [] => none
  | .list block elements :: rest =>
      some (.CONTINUE, { t with stack := .list block (elements ++ [element]) :: rest })
  | .map .. :: _ => some (.CONTINUE, { t with stack := element :: t.stack })
  | _ :: _ => t.insertKeyPair element answers

/-- `onBoolean`, `onInteger` and `onDecimal` -/
def onScalar (t : Tree) (value : Value) (answers : Answers) : Option (ParseControl × Tree) :=
  match t.validateKeyType with
  | (.BREAK, t) => some (.BREAK, t)
  | (.CONTINUE, t) =>
      if answers.element ≠ .success then some (t.broken .outOfMemory)
      else
        (({ t with created := t.created + 1 } : Tree).insertKeyOrValue (.scalar ⟨t.block, value⟩) answers).map
          (orFree t.block)

def onBoolean (t : Tree) (value : Bool) (answers : Answers) : Option (ParseControl × Tree) :=
  t.onScalar (.boolean value) answers

def onInteger (t : Tree) (value : Int64) (answers : Answers) : Option (ParseControl × Tree) :=
  t.onScalar (.integer value) answers

def onDecimal (t : Tree) (value : Double) (answers : Answers) : Option (ParseControl × Tree) :=
  t.onScalar (.decimal value) answers

/-- `setValue` of a string that has no value yet, with `Duplicate`. -/
def setValue (value : Option (List Octet)) (allocate : Error) : Except Error Value :=
  match value with
  | none => .error .nullPointer
  | some buffer => if allocate ≠ .success then .error allocate else .ok (.string buffer)

def onString (t : Tree) (value : Option (List Octet)) (answers : Answers) : Option (ParseControl × Tree) :=
  match t.validateKeyType with
  | (.BREAK, t) => some (.BREAK, t)
  | (.CONTINUE, t) =>
      if answers.element ≠ .success then some (t.broken .outOfMemory)
      else
        let allocated : Tree := { t with created := t.created + 1 }
        match setValue value answers.value with
        | .error error => some (orFree t.block (allocated.broken error))
        | .ok value => (allocated.insertKeyOrValue (.scalar ⟨t.block, value⟩) answers).map (orFree t.block)

def call (t : Tree) (event : Event) (answers : Answers) : Option (ParseControl × Tree) :=
  match event with
  | .mapStart => some (t.onMapStart answers)
  | .mapEnd => t.onMapEnd answers
  | .listStart => some (t.onListStart answers)
  | .listEnd => t.onListEnd answers
  | .null => t.onNull answers
  | .boolean value => t.onBoolean value answers
  | .integer value => t.onInteger value answers
  | .decimal value => t.onDecimal value answers
  | .string value => t.onString value answers

/-- `~Tree`: the blocks that are given back. -/
def destroy (t : Tree) : List Block := (t.root.elim [] Element.destroy) ++ Element.destroyAll t.stack

end Tree

/-! ## Replaying -/

section replay

variable {σ : Type*} (callbacks : σ → Event → ParseControl × σ)

/-- Callbacks one after another, up to the first that breaks. -/
def feed : List Event → σ → ParseControl × σ
  | [], s => (.CONTINUE, s)
  | event :: rest, s =>
      match callbacks s event with
      | (.BREAK, s) => (.BREAK, s)
      | (.CONTINUE, s) => feed rest s

theorem feed_append (events rest : List Event) (s : σ) :
    feed callbacks (events ++ rest) s =
      match feed callbacks events s with
      | (.BREAK, s) => (.BREAK, s)
      | (.CONTINUE, s) => feed callbacks rest s := by
  induction events generalizing s with
  | nil => rfl
  | cons event events ih =>
      rw [List.cons_append, feed, feed]
      rcases callbacks s event with ⟨_ | _, s'⟩
      · rfl
      · exact ih s'

/-- The callback for a scalar, as a key and as a value. -/
def traverseScalar (value : Value) (s : σ) : ParseControl × σ :=
  match value with
  | .string value => callbacks s (.string (some (cstr value)))
  | .boolean value => callbacks s (.boolean value)
  | .integer value => callbacks s (.integer value)
  | .decimal value => callbacks s (.decimal value)

mutual

def traverseElement : Element → σ → ParseControl × σ
  | .map _ entries, s =>
      match callbacks s .mapStart with
      | (.BREAK, s) => (.BREAK, s)
      | (.CONTINUE, s) =>
          match traverseEntries entries s with
          | (.BREAK, s) => (.BREAK, s)
          | (.CONTINUE, s) => callbacks s .mapEnd
  | .list _ elements, s =>
      match callbacks s .listStart with
      | (.BREAK, s) => (.BREAK, s)
      | (.CONTINUE, s) =>
          match traverseElements elements s with
          | (.BREAK, s) => (.BREAK, s)
          | (.CONTINUE, s) => callbacks s .listEnd
  | .null _, s => callbacks s .null
  | .scalar own, s => traverseScalar callbacks own.value s

/-- The loop of `traverseList`. -/
def traverseElements : List Element → σ → ParseControl × σ
  | [], s => (.CONTINUE, s)
  | element :: rest, s =>
      match traverseElement element s with
      | (.BREAK, s) => (.BREAK, s)
      | (.CONTINUE, s) => traverseElements rest s

/-- The loop of `traverseMap`. -/
def traverseEntries : List (Scalar × Element) → σ → ParseControl × σ
  | [], s => (.CONTINUE, s)
  | (key, value) :: rest, s =>
      match traverseScalar callbacks key.value s with
      | (.BREAK, s) => (.BREAK, s)
      | (.CONTINUE, s) =>
          match traverseElement value s with
          | (.BREAK, s) => (.BREAK, s)
          | (.CONTINUE, s) => traverseEntries rest s

end

def Tree.traverse (t : Tree) (s : σ) : σ :=
  match t.root with
  | none => s
  | some root => (traverseElement callbacks root s).2

end replay

/-- The callback of a scalar. -/
def Value.event : Value → Event
  | .string value => .string (some (cstr value))
  | .boolean value => .boolean value
  | .integer value => .integer value
  | .decimal value => .decimal value

namespace Element

mutual

/-- The callbacks that an element is replayed as. -/
def events : Element → List Event
  | .map _ entries => .mapStart :: (eventsOfEntries entries ++ [.mapEnd])
  | .list _ elements => .listStart :: (eventsOfAll elements ++ [.listEnd])
  | .null _ => [.null]
  | .scalar own => [own.value.event]

def eventsOfAll : List Element → List Event
  | [] => []
  | element :: rest => element.events ++ eventsOfAll rest

def eventsOfEntries : List (Scalar × Element) → List Event
  | [] => []
  | (key, value) :: rest => key.value.event :: (value.events ++ eventsOfEntries rest)

end

end Element

section replay

variable {σ : Type*} (callbacks : σ → Event → ParseControl × σ)

theorem feed_single (event : Event) (s : σ) : feed callbacks [event] s = callbacks s event := by
  rw [feed]
  rcases callbacks s event with ⟨_ | _, _⟩ <;> rfl

theorem traverseScalar_eq (value : Value) (s : σ) : traverseScalar callbacks value s = callbacks s value.event := by
  cases value <;> rfl

mutual

/-- An element is replayed, up to the first callback that breaks. -/
theorem traverseElement_eq : ∀ (element : Element) (s : σ),
    traverseElement callbacks element s = feed callbacks element.events s
  | .map _ entries, s => by
      rw [traverseElement, Element.events, feed]
      rcases callbacks s .mapStart with ⟨_ | _, s'⟩
      · rfl
      · dsimp only
        rw [traverseEntries_eq entries s', feed_append]
        simp only [feed_single]
  | .list _ elements, s => by
      rw [traverseElement, Element.events, feed]
      rcases callbacks s .listStart with ⟨_ | _, s'⟩
      · rfl
      · dsimp only
        rw [traverseElements_eq elements s', feed_append]
        simp only [feed_single]
  | .null _, s => by rw [traverseElement, Element.events, feed_single]
  | .scalar own, s => by rw [traverseElement, Element.events, feed_single, traverseScalar_eq]

theorem traverseElements_eq : ∀ (elements : List Element) (s : σ),
    traverseElements callbacks elements s = feed callbacks (Element.eventsOfAll elements) s
  | [], _ => rfl
  | element :: rest, s => by
      rw [traverseElements, Element.eventsOfAll, feed_append, traverseElement_eq element s]
      rcases feed callbacks element.events s with ⟨_ | _, s'⟩
      · rfl
      · exact traverseElements_eq rest s'

theorem traverseEntries_eq : ∀ (entries : List (Scalar × Element)) (s : σ),
    traverseEntries callbacks entries s = feed callbacks (Element.eventsOfEntries entries) s
  | [], _ => rfl
  | (key, value) :: rest, s => by
      rw [traverseEntries, Element.eventsOfEntries, feed, traverseScalar_eq]
      rcases callbacks s key.value.event with ⟨_ | _, s'⟩
      · rfl
      · dsimp only
        rw [feed_append, traverseElement_eq value s']
        rcases feed callbacks value.events s' with ⟨_ | _, s''⟩
        · rfl
        · exact traverseEntries_eq rest s''

end

end replay

end AST

end Everscale
