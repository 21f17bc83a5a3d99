/-
# Everscale.Base.TreeOwnership -- who owns the elements of a tree

Every element that was allocated is below the root, on or below the stack, or given back, and is
given back once when the tree is destroyed (`Owned`).  A callback keeps this up if and only if it is
careful (`owned_iff`): a key that waits for its value finds a map below it that takes the pair, a
container ends where one was started, and no map is allocated from another allocator than the
default one.
-/
import Everscale.Base.ASTTree
import Everscale.Theory.Ledger
import Everscale.Theory.Serving

namespace Everscale

set_option autoImplicit false

namespace AST

open Theory (Tallied AfterEach AllFit)

/-! ## What is held -/

namespace Element

/-- The blocks of an element and of those below it. -/
def blocks (element : Element) : Multiset Block := element.destroy

mutual

/-- The element and those below it. -/
def numbers : Element → List Nat
  | .null block => [block.number]
  | .scalar own => [own.block.number]
  | .list block elements => block.number :: numbersOfAll elements
  | .map block entries => block.number :: numbersOfEntries entries

def numbersOfAll : List Element → List Nat
  | [] => []
  | element :: rest => element.numbers ++ numbersOfAll rest

def numbersOfEntries : List (Scalar × Element) → List Nat
  | [] => []
  | (key, value) :: rest => key.block.number :: (value.numbers ++ numbersOfEntries rest)

end

mutual

theorem destroy_numbers : ∀ element : Element, (element.destroy.map Block.number).Perm element.numbers
  | .null _ => .refl _
  | .scalar _ => .refl _
  | .list _ elements => by
      rw [destroy, numbers, List.map_append]
      exact (List.perm_append_singleton _ _).trans (.cons _ (destroyAll_numbers elements))
  | .map _ entries => by
      rw [destroy, numbers, List.map_append]
      exact (List.perm_append_singleton _ _).trans (.cons _ (clear_numbers entries))

theorem destroyAll_numbers : ∀ elements : List Element,
    ((destroyAll elements).map Block.number).Perm (numbersOfAll elements)
  | [] => .refl _
  | element :: rest => by
      rw [destroyAll, numbersOfAll, List.map_append]
      exact (destroy_numbers element).append (destroyAll_numbers rest)

theorem clear_numbers : ∀ entries : List (Scalar × Element),
    ((clear entries).map Block.number).Perm (numbersOfEntries entries)
  | [] => .refl _
  | (_, value) :: rest => by
      rw [clear, numbersOfEntries, List.map_cons, List.map_append]
      exact .cons _ ((destroy_numbers value).append (clear_numbers rest))

end

@[simp] theorem blocks_null (block : Block) : (Element.null block).blocks = {block} := rfl

@[simp] theorem blocks_scalar (own : Scalar) : (Element.scalar own).blocks = {own.block} := rfl

theorem blocks_list (block : Block) (elements : List Element) :
    (Element.list block elements).blocks = ↑(destroyAll elements) + {block} := rfl

theorem blocks_map (block : Block) (entries : List (Scalar × Element)) :
    (Element.map block entries).blocks = ↑(clear entries) + {block} := rfl

theorem blocks_concat (block : Block) (elements : List Element) (element : Element) :
    (Element.list block (elements ++ [element])).blocks = (Element.list block elements).blocks + element.blocks := by
  rw [blocks_list, blocks_list, destroyAll_append, ← Multiset.coe_add, destroyAll, destroyAll, List.append_nil, blocks]
  abel

theorem blocks_insert {block : Block} {entries entries' : List (Scalar × Element)} {key : Scalar} {value : Element}
    (inserted : Map.insertNode key value entries = some entries') :
    (Element.map block entries').blocks = (Element.map block entries).blocks + {key.block} + value.blocks := by
  have same : (↑(clear entries') : Multiset Block) = ↑(clear ((key, value) :: entries)) :=
    Multiset.coe_eq_coe.mpr (clear_perm (Map.insertNode_perm inserted))
  rw [blocks_map, blocks_map, same, clear, ← Multiset.cons_coe, ← Multiset.coe_add, ← Multiset.singleton_add, blocks]
  abel

theorem blocks_ne_zero (element : Element) : element.blocks ≠ 0 := by
  intro none
  have cards := congrArg Multiset.card none
  cases element with
  | null | scalar => cases cards
  | list => rw [blocks_list, Multiset.card_add, Multiset.card_singleton] at cards; cases cards
  | map => rw [blocks_map, Multiset.card_add, Multiset.card_singleton] at cards; cases cards

end Element

namespace Tree

/-- The blocks on and below a stack. -/
def stacked (stack : List Element) : Multiset Block := Element.destroyAll stack

@[simp] theorem stacked_cons (element : Element) (stack : List Element) :
    stacked (element :: stack) = element.blocks + stacked stack := by
  rw [stacked, Element.destroyAll, ← Multiset.coe_add]
  rfl

/-- All blocks that the tree has or has given back. -/
def held (t : Tree) : Multiset Block := ↑t.freed + t.root.elim 0 Element.blocks + stacked t.stack

theorem held_eq (t : Tree) : t.held = ↑(t.freed ++ t.destroy) := by
  rw [held, destroy, ← Multiset.coe_add, ← Multiset.coe_add, ← add_assoc]
  cases t.root <;> rfl

/-- What is reachable from the root or the stack. -/
def reachable (t : Tree) : List Nat := t.root.elim [] Element.numbers ++ Element.numbersOfAll t.stack

theorem destroy_reachable (t : Tree) : (t.destroy.map Block.number).Perm t.reachable := by
  rw [destroy, reachable, List.map_append]
  refine .append ?_ (Element.destroyAll_numbers t.stack)
  cases t.root with
  | none => exact .refl _
  | some root => exact root.destroy_numbers

/-- The block that was due to the tree's `n`-th element. -/
def due (t : Tree) (n : Nat) : Block := ⟨n, t.allocator⟩

/-- Each element is reachable or was given back, and destroying the tree gives back each one once. -/
structure Owned (t : Tree) : Prop where
  accounted : (t.freed.map Block.number ++ t.reachable).Perm (List.range t.created)
  released : (t.freed ++ t.destroy).Perm ((List.range t.created).map t.due)

theorem owned_iff_tallied (t : Tree) : t.Owned ↔ Tallied t.due t.created t.held := by
  rw [Tallied, held_eq, Multiset.range, Multiset.map_coe, Multiset.coe_eq_coe]
  refine ⟨Owned.released, fun released => ⟨?_, released⟩⟩
  have numbers := released.map Block.number
  rw [List.map_append, List.map_map] at numbers
  refine ((List.Perm.refl _).append t.destroy_reachable.symm).trans (numbers.trans ?_)
  rw [show Block.number ∘ t.due = id from rfl, List.map_id]

theorem new_owned (allocator : Allocator) : (new allocator).Owned := ⟨.refl _, .refl _⟩

/-! ## Careful callbacks -/

/-- If a key waits for its value, there is a map below it that takes the pair. -/
def Pairs (stack : List Element) (answers : Answers) : Prop :=
  ∀ key below, stack = .scalar key :: below → ∃ block entries rest, below = .map block entries :: rest ∧
    entries.length ≠ 2 ^ 32 - 1 ∧ answers.node = .success ∧ ∀ entry ∈ entries, key.value.compare entry.1.value ≠ 0

/-- A container may leave the stack: it becomes the only root, or goes to where there is a place. -/
def Settles (t : Tree) (below : List Element) (answers : Answers) : Prop :=
  (below = [] → t.root = none) ∧ Pairs below answers

def Careful (t : Tree) (call : Event × Answers) : Prop :=
  match call with
  | (.mapStart, answers) => answers.element = .success → t.allocator = SystemAllocator
  | (.listStart, _) => True
  | (.mapEnd, answers) => ∃ block entries below, t.stack = .map block entries :: below ∧ t.Settles below answers
  | (.listEnd, answers) => ∃ block elements below, t.stack = .list block elements :: below ∧ t.Settles below answers
  | (.string value, answers) =>
      answers.element = .success → value ≠ none → answers.value = .success → Pairs t.stack answers
  | (_, answers) => answers.element = .success → Pairs t.stack answers

/-- The maps on the stack are in order. -/
def Ordered (t : Tree) : Prop := ∀ block entries, Element.map block entries ∈ t.stack → Map.Sorted entries

def perform (t : Tree) (call : Event × Answers) : Option (ParseControl × Tree) := t.call call.1 call.2

/-! ## What a callback moves -/

/-- From one tree to another, new blocks have come and others are lost. -/
structure Moves (t t' : Tree) (new lost : Multiset Block) : Prop where
  allocator : t'.allocator = t.allocator
  created : t'.created = t.created + new.card
  held : t'.held + lost = t.held + new
  ordered : t.Ordered → t'.Ordered

namespace Moves

variable {t t' : Tree} {new lost : Multiset Block}

theorem owned_iff (h : Moves t t' new lost) (owned : t.Owned) (one : new.card ≤ 1) :
    t'.Owned ↔ lost = 0 ∧ ∀ block ∈ new, block = t.block := by
  have tallied := (owned_iff_tallied t).mp owned
  rw [owned_iff_tallied, h.created, show t'.due = t.due by unfold due; rw [h.allocator]]
  exact tallied.step_iff h.held one

end Moves

section calls

variable {t : Tree} {answers : Answers}

theorem broken_moves (t : Tree) (error : Error) : Moves t (t.broken error).2 0 0 :=
  ⟨rfl, rfl, rfl, id⟩

theorem Pairs.of_not_scalar {stack : List Element} (other : ∀ key below, stack ≠ .scalar key :: below) :
    Pairs stack answers := fun key below same => absurd same (other key below)

/-- An element went to a place in the stack, or was left to the caller. -/
structure Inserts (t t' : Tree) (control : ParseControl) (element : Element) (lost : Multiset Block) : Prop where
  allocator : t'.allocator = t.allocator
  created : t'.created = t.created
  freed : t'.freed = t.freed
  root : t'.root = t.root
  ordered : t.Ordered → t'.Ordered
  stacked : stacked t'.stack + lost = stacked t.stack + (if control = .CONTINUE then element.blocks else 0)

theorem broken_inserts (t : Tree) (error : Error) (element : Element) :
    Inserts t (t.broken error).2 .BREAK element 0 := ⟨rfl, rfl, rfl, rfl, id, rfl⟩

theorem lost_inserts {key : Scalar} {below : List Element} (shape : t.stack = .scalar key :: below) (error : Error)
    (element : Element) : Inserts t (({ t with stack := below } : Tree).broken error).2 .BREAK element {key.block} where
  allocator := rfl
  created := rfl
  freed := rfl
  root := rfl
  ordered ordered block entries member := ordered block entries (shape ▸ List.mem_cons_of_mem _ member)
  stacked := by
    rw [shape, stacked_cons, Element.blocks_scalar, if_neg nofun, add_zero, add_comm]
    rfl

/-- A pair goes into the map, or the key is lost. -/
theorem insertKeyPair_inserts (ordered : t.Ordered) (element : Element) (nonempty : t.stack ≠ []) :
    (t.insertKeyPair element answers = none ∧ ¬ Pairs t.stack answers) ∨
      ∃ control t' lost, t.insertKeyPair element answers = some (control, t') ∧ Inserts t t' control element lost ∧
        (Pairs t.stack answers ↔ lost = 0) := by
  cases shape : t.stack with
  | nil => exact absurd shape nonempty
  | cons top below =>
      cases top with
      | null | list | map =>
          refine .inr ⟨.BREAK, (t.broken .cannotParse).2, 0, by rw [insertKeyPair, shape]; rfl, broken_inserts t _ _,
            iff_of_true (Pairs.of_not_scalar nofun) rfl⟩
      | scalar key =>
          have keyed : ({key.block} : Multiset Block) ≠ 0 := Multiset.singleton_ne_zero _
          cases below with
          | nil =>
              refine .inl ⟨by rw [insertKeyPair, shape], fun pairs => ?_⟩
              obtain ⟨_, _, _, same, -⟩ := pairs key [] rfl
              cases same
          | cons second rest =>
              cases second with
              | null | list | scalar =>
                  refine .inr ⟨.BREAK, _, {key.block}, by rw [insertKeyPair, shape]; rfl, lost_inserts shape _ _,
                    iff_of_false (fun pairs => ?_) keyed⟩
                  obtain ⟨_, _, _, same, -⟩ := pairs key _ rfl
                  cases same
              | map block entries =>
                  have sorted : Map.Sorted entries :=
                    ordered block entries (shape ▸ List.mem_cons_of_mem _ List.mem_cons_self)
                  have pairs : Pairs (.scalar key :: .map block entries :: rest) answers ↔
                      (Map.insert entries key element answers.node).1 = .success := by
                    rw [Map.insert_success_iff element sorted]
                    constructor
                    · intro pairs
                      obtain ⟨_, _, _, same, conditions⟩ := pairs key _ rfl
                      cases same
                      exact conditions
                    · rintro conditions _ _ ⟨⟩
                      exact ⟨block, entries, rest, rfl, conditions⟩
                  rw [pairs, insertKeyPair, shape]
                  dsimp only
                  cases inserted : Map.insert entries key element answers.node with
                  | mk error entries' =>
                      by_cases success : error = .success
                      · subst success
                        have walked := Map.insert_success inserted
                        refine .inr ⟨.CONTINUE, { t with stack := .map block entries' :: rest }, 0, rfl,
                          ⟨rfl, rfl, rfl, rfl, fun _ block' entries'' member => ?_, ?_⟩, iff_of_true rfl rfl⟩
                        · rcases List.mem_cons.mp member with same | member
                          · cases same
                            exact Map.insertNode_sorted sorted walked
                          · exact ordered block' entries''
                              (shape ▸ List.mem_cons_of_mem _ (List.mem_cons_of_mem _ member))
                        · rw [if_pos rfl, shape, stacked_cons, stacked_cons, stacked_cons, Element.blocks_insert walked,
                            Element.blocks_scalar]
                          abel
                      · refine .inr ⟨.BREAK, _, {key.block}, ?_, lost_inserts shape error _, iff_of_false success keyed⟩
                        cases error <;> first | rfl | exact absurd rfl success

theorem listed_inserts {block : Block} {elements rest : List Element} (shape : t.stack = .list block elements :: rest)
    (element : Element) :
    Inserts t { t with stack := .list block (elements ++ [element]) :: rest } .CONTINUE element 0 where
  allocator := rfl
  created := rfl
  freed := rfl
  root := rfl
  ordered ordered block' entries member := by
    rcases List.mem_cons.mp member with same | member
    · cases same
    · exact ordered block' entries (shape ▸ List.mem_cons_of_mem _ member)
  stacked := by
    rw [if_pos rfl, shape, stacked_cons, stacked_cons, Element.blocks_concat]
    abel

theorem insertKeyOrValue_inserts (ordered : t.Ordered) (own : Scalar) (nonempty : t.stack ≠ []) :
    (t.insertKeyOrValue (.scalar own) answers = none ∧ ¬ Pairs t.stack answers) ∨
      ∃ control t' lost, t.insertKeyOrValue (.scalar own) answers = some (control, t') ∧
        Inserts t t' control (.scalar own) lost ∧ (Pairs t.stack answers ↔ lost = 0) := by
  rw [insertKeyOrValue]
  cases shape : t.stack with
  | nil => exact absurd shape nonempty
  | cons top below =>
      cases top with
      | null | scalar =>
          have pair : (t.insertKeyPair (.scalar own) answers = none ∧ _) ∨ _ :=
            insertKeyPair_inserts ordered (.scalar own) nonempty
          rwa [shape] at pair
      | list block elements =>
          exact .inr ⟨.CONTINUE, _, 0, rfl, listed_inserts shape _, iff_of_true (Pairs.of_not_scalar nofun) rfl⟩
      | map block entries =>
          refine .inr ⟨.CONTINUE, { t with stack := .scalar own :: t.stack }, 0, by rw [shape],
            ⟨rfl, rfl, rfl, rfl, fun ordered block' entries' member => ?_, ?_⟩,
            iff_of_true (Pairs.of_not_scalar nofun) rfl⟩
          · rcases List.mem_cons.mp member with same | member
            · cases same
            · exact ordered block' entries' member
          · rw [if_pos rfl, stacked_cons]
            abel

theorem Inserts.held_eq {t' : Tree} {control : ParseControl} {element : Element} {lost : Multiset Block}
    (h : Inserts t t' control element lost) :
    t'.held + lost = t.held + (if control = .CONTINUE then element.blocks else 0) := by
  have stacked := h.stacked
  rw [held, held, h.freed, h.root, add_assoc, stacked]
  abel

/-- With a new element, which is given back if it has found no place. -/
theorem Inserts.orFree_moves {t' : Tree} {control : ParseControl} {element : Element} {lost : Multiset Block}
    (h : Inserts { t with created := t.created + 1 } t' control element lost) (own : element.blocks = {t.block}) :
    Moves t (orFree t.block (control, t')).2 {t.block} lost := by
  have held : t'.held + lost = t.held + (if control = .CONTINUE then element.blocks else 0) := h.held_eq
  cases control with
  | CONTINUE =>
      exact ⟨h.allocator, by rw [Multiset.card_singleton]; exact h.created, by rw [← own]; exact held, h.ordered⟩
  | BREAK =>
      refine ⟨h.allocator, by rw [Multiset.card_singleton]; exact h.created, ?_, h.ordered⟩
      rw [if_neg nofun, add_zero] at held
      rw [← held]
      show (t'.deallocate t.block).held + lost = _
      rw [Tree.held, Tree.held, deallocate, ← Multiset.coe_add, Multiset.coe_singleton]
      abel

/-- A container that has left the stack finds its place, or is back on it. -/
theorem settle_moves (ordered : t.Ordered) (element : Element) (sorted : ∀ block entries, element = .map block entries → Map.Sorted entries) :
    (t.settle element answers = none ∧ ¬ t.Settles t.stack answers) ∨
      ∃ control t' lost, t.settle element answers = some (control, t') ∧ t'.allocator = t.allocator ∧
        t'.created = t.created ∧ t'.held + lost = t.held + element.blocks ∧ t'.Ordered ∧
        (t.Settles t.stack answers ↔ lost = 0) := by
  rw [settle]
  cases shape : t.stack with
  | nil =>
      refine .inr ⟨.CONTINUE, { t with root := some element }, t.root.elim 0 Element.blocks, by rw [shape], rfl, rfl, ?_,
        ordered, ?_⟩
      · rw [held, held, Option.elim]
        abel
      · have settles : t.Settles [] answers ↔ t.root = none :=
          ⟨fun settles => settles.1 rfl, fun none => ⟨fun _ => none, Pairs.of_not_scalar nofun⟩⟩
        rw [settles]
        cases t.root with
        | none => exact iff_of_true rfl rfl
        | some root => exact iff_of_false nofun root.blocks_ne_zero
  | cons top below =>
      have inside : t.Settles (top :: below) answers ↔ Pairs (top :: below) answers :=
        ⟨And.right, fun pairs => ⟨nofun, pairs⟩⟩
      rw [inside]
      cases top with
      | list block elements =>
          have h := listed_inserts shape element
          have held := h.held_eq
          rw [if_pos rfl] at held
          exact .inr ⟨.CONTINUE, _, 0, rfl, rfl, rfl, held, h.ordered ordered,
            iff_of_true (Pairs.of_not_scalar nofun) rfl⟩
      | null | scalar | map =>
          have pair : (t.insertKeyPair element answers = none ∧ _) ∨ _ :=
            insertKeyPair_inserts ordered element (by rw [shape]; exact nofun)
          rw [shape] at pair
          dsimp only
          obtain ⟨stuck, unpaired⟩ | ⟨control, t', lost, done, h, pairs⟩ := pair
          · exact .inl ⟨by rw [stuck]; rfl, unpaired⟩
          · have held := h.held_eq
            rw [done, Option.map_some]
            cases control with
            | CONTINUE =>
                exact .inr ⟨.CONTINUE, t', lost, rfl, h.allocator, h.created, held, h.ordered ordered, pairs⟩
            | BREAK =>
                refine .inr ⟨.BREAK, { t' with stack := element :: t'.stack }, lost, rfl, h.allocator, h.created, ?_, ?_,
                  pairs⟩
                · rw [if_neg nofun, add_zero] at held
                  rw [← held, Tree.held, Tree.held, stacked_cons]
                  abel
                · intro block entries member
                  rcases List.mem_cons.mp member with same | member
                  · exact sorted block entries same.symm
                  · exact h.ordered ordered block entries member

/-- What a callback does to the blocks. -/
def Accounts (t : Tree) (call : Event × Answers) (done : Option (ParseControl × Tree)) : Prop :=
  (done = none ∧ ¬ t.Careful call) ∨
    ∃ control t' new lost, done = some (control, t') ∧ Moves t t' new lost ∧ new.card ≤ 1 ∧
      (t.Careful call ↔ lost = 0 ∧ ∀ block ∈ new, block = t.block)

theorem broken_accounts {call : Event × Answers} (careful : t.Careful call) (error : Error) :
    t.Accounts call (some (t.broken error)) :=
  .inr ⟨.BREAK, _, 0, 0, rfl, broken_moves t error, Nat.zero_le _,
    iff_of_true careful ⟨rfl, fun _ member => absurd member (Multiset.notMem_zero _)⟩⟩

theorem started_accounts {call : Event × Answers} {element : Element} {block : Block} (own : element.blocks = {block})
    (sorted : ∀ block entries, element = .map block entries → Map.Sorted entries)
    (careful : t.Careful call ↔ block = t.block) :
    t.Accounts call (some (.CONTINUE, { t with stack := element :: t.stack, created := t.created + 1 })) := by
  refine .inr ⟨_, _, {block}, 0, rfl, ⟨rfl, rfl, ?_, fun ordered block' entries member => ?_⟩, Nat.le_refl 1, ?_⟩
  · rw [held, held, stacked_cons, own]
    abel
  · rcases List.mem_cons.mp member with same | member
    · exact sorted block' entries same.symm
    · exact ordered block' entries member
  · rw [careful]
    exact ⟨fun same => ⟨rfl, fun other member => (Multiset.mem_singleton.mp member).trans same⟩,
      fun all => all.2 block (Multiset.mem_singleton_self _)⟩

/-- A container that ends, where the one on top of the stack is of its kind. -/
theorem ended_accounts {call : Event × Answers} {element : Element} {below : List Element} (ordered : t.Ordered)
    (shape : t.stack = element :: below) (careful : t.Careful call ↔ t.Settles below answers) :
    t.Accounts call (({ t with stack := below } : Tree).settle element answers) := by
  have orderedBelow : ({ t with stack := below } : Tree).Ordered := fun block entries member =>
    ordered block entries (shape ▸ List.mem_cons_of_mem _ member)
  have sorted : ∀ block entries, element = .map block entries → Map.Sorted entries := fun block entries same =>
    ordered block entries (shape ▸ same ▸ List.mem_cons_self)
  rw [Accounts, careful]
  obtain ⟨stuck, unsettled⟩ | ⟨control, t', lost, done, sameAllocator, sameCreated, held, ordered', settles⟩ :=
    settle_moves orderedBelow element sorted
  · exact .inl ⟨stuck, unsettled⟩
  · refine .inr ⟨control, t', 0, lost, done, ⟨sameAllocator, sameCreated, ?_, fun _ => ordered'⟩, Nat.zero_le _, ?_⟩
    · rw [held, Tree.held, Tree.held, shape, stacked_cons]
      abel
    · refine settles.trans ⟨fun none => ⟨none, fun _ member => absurd member (Multiset.notMem_zero _)⟩, And.left⟩

/-- One that ends where something else is on top of the stack. -/
theorem misended_accounts {call : Event × Answers} {element : Element} {below : List Element}
    (shape : t.stack = element :: below) (careless : ¬ t.Careful call) :
    t.Accounts call (some (({ t with stack := below } : Tree).broken .cannotParse)) := by
  refine .inr ⟨.BREAK, _, 0, element.blocks, rfl, ⟨rfl, rfl, ?_, fun ordered block entries member => ?_⟩, Nat.zero_le _,
    iff_of_false careless fun all => element.blocks_ne_zero all.1⟩
  · simp only [held, shape, stacked_cons]
    abel
  · exact ordered block entries (shape ▸ List.mem_cons_of_mem _ member)

/-- A new element that goes to its place or is given back. -/
theorem placed_accounts {call : Event × Answers} {element : Element} {done : Option (ParseControl × Tree)}
    (own : element.blocks = {t.block}) (careful : t.Careful call ↔ Pairs t.stack answers)
    (inserts : (done = none ∧ ¬ Pairs t.stack answers) ∨
      ∃ control t' lost, done = some (control, t') ∧ Inserts { t with created := t.created + 1 } t' control element lost ∧
        (Pairs t.stack answers ↔ lost = 0)) :
    t.Accounts call (done.map (orFree t.block)) := by
  rw [Accounts, careful]
  obtain ⟨rfl, unpaired⟩ | ⟨control, t', lost, rfl, h, pairs⟩ := inserts
  · exact .inl ⟨rfl, unpaired⟩
  · refine .inr ⟨_, _, {t.block}, lost, rfl, h.orFree_moves own, Nat.le_refl 1, pairs.trans ?_⟩
    exact ⟨fun none => ⟨none, fun _ member => Multiset.mem_singleton.mp member⟩, And.left⟩

theorem Pairs.of_null {block : Block} {stack : List Element} : Pairs (.null block :: stack) answers :=
  Pairs.of_not_scalar nofun

/-- Where the top of the stack does not allow another element, nothing was allocated. -/
theorem validateKeyType_break (answers : Answers) {control : ParseControl} {t' : Tree} (validated : t.validateKeyType = (control, t')) :
    (control = .BREAK ∧ (some (.BREAK, t') : Option (ParseControl × Tree)) = some (t.broken .cannotParse) ∧
      Pairs t.stack answers) ∨ control = .CONTINUE ∧ t' = t ∧ t.stack ≠ [] := by
  rw [validateKeyType] at validated
  cases shape : t.stack with
  | nil =>
      rw [shape] at validated
      obtain ⟨rfl, rfl⟩ := Prod.mk.inj validated
      exact .inl ⟨rfl, rfl, Pairs.of_not_scalar nofun⟩
  | cons top below =>
      cases top with
      | null =>
          rw [shape] at validated
          obtain ⟨rfl, rfl⟩ := Prod.mk.inj validated
          exact .inl ⟨rfl, rfl, .of_null⟩
      | scalar | list | map =>
          rw [shape] at validated
          obtain ⟨rfl, rfl⟩ := Prod.mk.inj validated
          exact .inr ⟨rfl, rfl, nofun⟩

theorem onScalar_accounts {call : Event × Answers} (ordered : t.Ordered) (value : Value)
    (careful : t.Careful call ↔ (answers.element = .success → Pairs t.stack answers)) :
    t.Accounts call (t.onScalar value answers) := by
  rw [onScalar]
  cases validated : t.validateKeyType with
  | mk control t' =>
      obtain ⟨rfl, same, pairs⟩ | ⟨rfl, rfl, nonempty⟩ := validateKeyType_break answers validated
      · dsimp only
        rw [same]
        exact broken_accounts (careful.mpr fun _ => pairs) .cannotParse
      · dsimp only
        by_cases granted : answers.element = .success
        · rw [if_neg (not_not.mpr granted)]
          refine placed_accounts (Element.blocks_scalar ⟨t'.block, value⟩)
            (careful.trans ⟨fun all => all granted, fun all _ => all⟩) ?_
          exact insertKeyOrValue_inserts (t := { t' with created := t'.created + 1 }) ordered _ nonempty
        · rw [if_pos granted]
          exact broken_accounts (careful.mpr fun success => absurd success granted) .outOfMemory

theorem onString_accounts (ordered : t.Ordered) (value : Option (List Octet)) :
    t.Accounts (.string value, answers) (t.onString value answers) := by
  rw [onString]
  cases validated : t.validateKeyType with
  | mk control t' =>
      obtain ⟨rfl, same, pairs⟩ | ⟨rfl, rfl, nonempty⟩ := validateKeyType_break answers validated
      · dsimp only
        rw [same]
        exact broken_accounts (show t.Careful (.string value, answers) from fun _ _ _ => pairs) .cannotParse
      · dsimp only
        by_cases granted : answers.element = .success
        · rw [if_neg (not_not.mpr granted)]
          have unset : ∀ error, (value ≠ none → answers.value ≠ .success) → t'.Accounts (.string value, answers)
              (some (orFree t'.block (({ t' with created := t'.created + 1 } : Tree).broken error))) := by
            intro error failed
            refine .inr ⟨_, _, {t'.block}, 0, rfl,
              (broken_inserts ({ t' with created := t'.created + 1 } : Tree) error (.scalar ⟨t'.block, .boolean true⟩)).orFree_moves rfl,
              Nat.le_refl 1, iff_of_true (fun _ given success => absurd success (failed given))
                ⟨rfl, fun _ member => Multiset.mem_singleton.mp member⟩⟩
          cases value with
          | none => exact unset .nullPointer fun given => absurd rfl given
          | some buffer =>
              rw [setValue]
              by_cases copied : answers.value = .success
              · rw [if_neg (not_not.mpr copied)]
                refine placed_accounts (Element.blocks_scalar ⟨t'.block, .string buffer⟩)
                  ⟨fun all => all granted nofun copied, fun all _ _ _ => all⟩ ?_
                exact insertKeyOrValue_inserts (t := { t' with created := t'.created + 1 }) ordered _ nonempty
              · rw [if_pos copied]
                exact unset answers.value fun _ => copied
        · rw [if_pos granted]
          exact broken_accounts (show t'.Careful (.string value, answers) from fun success => absurd success granted)
            .outOfMemory

theorem onNull_accounts (ordered : t.Ordered) : t.Accounts (.null, answers) (t.onNull answers) := by
  have unpaired : (∀ key below, t.stack ≠ .scalar key :: below) → t.Careful (.null, answers) := fun other _ =>
    Pairs.of_not_scalar other
  have refused : answers.element ≠ .success → t.Accounts (.null, answers) (some (t.broken .outOfMemory)) := fun failed =>
    broken_accounts (show t.Careful (.null, answers) from fun success => absurd success failed) .outOfMemory
  have careful : answers.element = .success → (t.Careful (.null, answers) ↔ Pairs t.stack answers) := fun granted =>
    ⟨fun all => all granted, fun all _ => all⟩
  rw [onNull]
  cases shape : t.stack with
  | nil => exact broken_accounts (unpaired (by rw [shape]; exact nofun)) .cannotParse
  | cons top below =>
      cases top with
      | null | map => exact broken_accounts (unpaired (by rw [shape]; exact nofun)) .cannotParse
      | list block elements =>
          dsimp only
          by_cases granted : answers.element = .success
          · rw [if_neg (not_not.mpr granted)]
            have pairs : Pairs t.stack answers := Pairs.of_not_scalar (by rw [shape]; exact nofun)
            have inserts : Inserts ({ t with created := t.created + 1 } : Tree) _ .CONTINUE (.null t.block) 0 :=
              listed_inserts (show ({ t with created := t.created + 1 } : Tree).stack = _ from shape) (.null t.block)
            exact placed_accounts (Element.blocks_null _) (careful granted)
              (.inr ⟨_, _, 0, rfl, inserts, iff_of_true pairs rfl⟩)
          · rw [if_pos granted]
            exact refused granted
      | scalar key =>
          dsimp only
          by_cases granted : answers.element = .success
          · rw [if_neg (not_not.mpr granted)]
            refine placed_accounts (Element.blocks_null _) (careful granted) ?_
            rw [← shape]
            exact insertKeyPair_inserts (show ({ t with created := t.created + 1 } : Tree).Ordered from ordered)
              (.null t.block) (by rw [shape]; exact nofun)
          · rw [if_pos granted]
            exact refused granted

theorem onMapStart_accounts (t : Tree) (answers : Answers) : t.Accounts (.mapStart, answers) (some (t.onMapStart answers)) := by
  rw [onMapStart]
  by_cases granted : answers.element = .success
  · rw [if_neg (not_not.mpr granted)]
    refine started_accounts rfl (fun block entries same => ?_) ⟨fun all => ?_, fun same _ => ?_⟩
    · cases same
      exact List.Pairwise.nil
    · rw [block, all granted]
    · exact (Block.mk.inj same).2.symm
  · rw [if_pos granted]
    exact broken_accounts (show t.Careful (.mapStart, answers) from fun success => absurd success granted) .outOfMemory

theorem onListStart_accounts (t : Tree) (answers : Answers) :
    t.Accounts (.listStart, answers) (some (t.onListStart answers)) := by
  rw [onListStart]
  by_cases granted : answers.element = .success
  · rw [if_neg (not_not.mpr granted)]
    exact started_accounts rfl nofun (iff_of_true trivial rfl)
  · rw [if_pos granted]
    exact broken_accounts (show t.Careful (.listStart, answers) from trivial) .outOfMemory

theorem onMapEnd_accounts (ordered : t.Ordered) : t.Accounts (.mapEnd, answers) (t.onMapEnd answers) := by
  have careless : (∀ block entries below, t.stack ≠ .map block entries :: below) → ¬ t.Careful (.mapEnd, answers) :=
    fun other ⟨block, entries, below, shape, _⟩ => other block entries below shape
  rw [onMapEnd]
  cases shape : t.stack with
  | nil => exact .inl ⟨rfl, careless (by simp [shape])⟩
  | cons top below =>
      cases top with
      | map block entries =>
          refine ended_accounts ordered shape ⟨?_, fun settles => ⟨block, entries, below, shape, settles⟩⟩
          rintro ⟨_, _, _, same, settles⟩
          obtain ⟨-, rfl⟩ := List.cons.inj (shape.symm.trans same)
          exact settles
      | null | scalar | list => exact misended_accounts shape (careless (by simp [shape]))

theorem onListEnd_accounts (ordered : t.Ordered) : t.Accounts (.listEnd, answers) (t.onListEnd answers) := by
  have careless : (∀ block elements below, t.stack ≠ .list block elements :: below) → ¬ t.Careful (.listEnd, answers) :=
    fun other ⟨block, elements, below, shape, _⟩ => other block elements below shape
  rw [onListEnd]
  cases shape : t.stack with
  | nil => exact .inl ⟨rfl, careless (by simp [shape])⟩
  | cons top below =>
      cases top with
      | list block elements =>
          refine ended_accounts ordered shape ⟨?_, fun settles => ⟨block, elements, below, shape, settles⟩⟩
          rintro ⟨_, _, _, same, settles⟩
          obtain ⟨-, rfl⟩ := List.cons.inj (shape.symm.trans same)
          exact settles
      | null | scalar | map => exact misended_accounts shape (careless (by simp [shape]))

theorem perform_accounts (ordered : t.Ordered) (call : Event × Answers) : t.Accounts call (t.perform call) := by
  obtain ⟨event, answers⟩ := call
  cases event with
  | mapStart => exact t.onMapStart_accounts answers
  | mapEnd => exact onMapEnd_accounts ordered
  | listStart => exact t.onListStart_accounts answers
  | listEnd => exact onListEnd_accounts ordered
  | null => exact onNull_accounts ordered
  | boolean value => exact onScalar_accounts ordered (.boolean value) Iff.rfl
  | integer value => exact onScalar_accounts ordered (.integer value) Iff.rfl
  | decimal value => exact onScalar_accounts ordered (.decimal value) Iff.rfl
  | string value => exact onString_accounts ordered value

end calls

/-- A callback keeps up the ownership of the elements if and only if it is careful. -/
theorem careful_iff {t : Tree} (ordered : t.Ordered) (owned : t.Owned) {call : Event × Answers} :
    t.Careful call ↔ ∃ control t', t.perform call = some (control, t') ∧ t'.Owned := by
  obtain ⟨stuck, careless⟩ | ⟨control, t', new, lost, done, moves, one, careful⟩ := perform_accounts ordered call
  · refine iff_of_false careless ?_
    rintro ⟨control, t', done, -⟩
    rw [stuck] at done
    cases done
  · rw [careful, ← moves.owned_iff owned one]
    refine ⟨fun owned' => ⟨control, t', done, owned'⟩, ?_⟩
    rintro ⟨control', t'', again, owned''⟩
    obtain ⟨-, rfl⟩ := Prod.mk.inj (Option.some.inj (done.symm.trans again))
    exact owned''

/-- **Ownership**: after each callback of a sequence every element is owned once, if and only if all
callbacks of the sequence are careful. -/
theorem owned_after_each_iff (allocator : Allocator) (calls : List (Event × Answers)) :
    AfterEach perform Owned (new allocator) calls ↔ AllFit perform Careful (new allocator) calls := by
  refine Theory.afterEach_iff (fun {t call control t'} ordered performed => ?_) (fun ordered owned => careful_iff ordered owned)
    (show (new allocator).Ordered from nofun) (new_owned allocator) calls
  obtain ⟨stuck, -⟩ | ⟨control', t'', new, lost, done, moves, -⟩ := perform_accounts ordered call
  · rw [stuck] at performed
    cases performed
  · obtain ⟨-, rfl⟩ := Prod.mk.inj (Option.some.inj (done.symm.trans performed))
    exact moves.ordered ordered

/-- `{"a":1,"a":2}`: the second key is neither reachable nor given back.  `{}` with an allocator of
its own: the map goes to the default one. -/
theorem key_lost_and_map_misdirected :
    (∃ controls t, Theory.serveAll perform (new SystemAllocator)
        ([.mapStart, .string (some [97]), .integer 1, .string (some [97]), .integer 2].map fun event => (event, .plenty)) =
          some (controls, t) ∧ controls.getLast? = some .BREAK ∧ t.error = .uniquenessViolation ∧ ¬ t.Owned) ∧
      ∃ t, Theory.serveAll perform (new 1) [(.mapStart, .plenty), (.mapEnd, .plenty)] =
        some ([.CONTINUE, .CONTINUE], t) ∧ ¬ t.Owned := by
  refine ⟨⟨_, _, rfl, rfl, rfl, fun owned => absurd owned.accounted ?_⟩, ⟨_, rfl, fun owned => absurd owned.released ?_⟩⟩
  · decide
  · decide

end Tree

end AST

end Everscale
