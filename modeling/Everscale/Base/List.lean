/-
# Everscale.Base.List -- a doubly linked list whose allocator may refuse to take a node back

`ESB::List` unlinks a node before it frees it, and links it again when the allocator reports a
failure.  `Holds` says that the list is well formed and has certain nodes: head, tail, links and size
agree, so that a walk either way visits them (`Holds.forwards`, `Holds.backwards`).

`deleteNode` and `clear` put everything back.  `popFront` and `popBack` forget the other end of a list
of one node: after `popFront` has failed there, the node is the head again, and the tail is null
(`popFront_alone`).  So a run of calls leaves the list well formed exactly if no pop fails on a list of
one node (`list_serves_iff`).

`popBack` and `pushBack` are `popFront` and `pushFront` with the two directions swapped (`mirror`).
-/
import Mathlib.Logic.Function.Basic
import Everscale.Base.Error
import Everscale.Theory.DoublyLinked
import Everscale.Theory.Serving

namespace Everscale

set_option autoImplicit false

open Theory

/-- `ListNode *` -/
abbrev ListNode := Nat

/-- `void *`, not null. -/
abbrev ListValue := Nat

/-- `ESB::List`, with the fields of the nodes. -/
structure ESBList where
  size : Nat := 0
  head : Option ListNode := none
  tail : Option ListNode := none
  next : ListNode → Option ListNode := fun _ => none
  prev : ListNode → Option ListNode := fun _ => none
  value : ListNode → ListValue := fun _ => 0

namespace ESBList

def setNext (s : ESBList) (node : ListNode) (link : Option ListNode) : ESBList :=
  { s with next := Function.update s.next node link }

def setPrev (s : ESBList) (node : ListNode) (link : Option ListNode) : ESBList :=
  { s with prev := Function.update s.prev node link }

/-- `++_size` and `--_size` of a `UInt32`. -/
def resize (s : ESBList) (change : Int) : ESBList := { s with size := ((s.size + change) % 2 ^ 32).toNat }

/-- A node as the allocator gives it, with the fields that a push sets first. -/
def newNode (s : ESBList) (node : ListNode) (element : ListValue) : ESBList :=
  { s.setNext node none |>.setPrev node none with value := Function.update s.value node element }

/-- `answer` is what the allocator says, a node or an error. -/
def pushFront (s : ESBList) (element : Option ListValue) (answer : Except Error ListNode) : Error × ESBList :=
  match element with
  | none => (.nullPointer, s)
  | some element =>
      if s.size = 2 ^ 32 - 1 then (.overflow, s)
      else
        match answer with
        | .error error => (error, s)
        | .ok node =>
            let s := s.newNode node element
            match s.head with
            | none =>
                if s.tail ≠ none then (.assertFailed, s)
                else (.success, { s with head := some node, tail := some node }.resize 1)
            | some first =>
                (.success, { (s.setNext node s.head).setPrev first (some node) with head := some node }.resize 1)

def pushBack (s : ESBList) (element : Option ListValue) (answer : Except Error ListNode) : Error × ESBList :=
  match element with
  | none => (.nullPointer, s)
  | some element =>
      if s.size = 2 ^ 32 - 1 then (.overflow, s)
      else
        match answer with
        | .error error => (error, s)
        | .ok node =>
            let s := s.newNode node element
            match s.tail with
            | none =>
                if s.head ≠ none then (.assertFailed, s)
                else (.success, { s with head := some node, tail := some node }.resize 1)
            | some last =>
                (.success, { (s.setPrev node s.tail).setNext last (some node) with tail := some node }.resize 1)

/-- `answer` is what the allocator says to the node. -/
def popFront (s : ESBList) (answer : Error) : Error × ESBList :=
  match s.head with
  | none => (.success, s)
  | some node =>
      let s := { s with head := s.next node }
      let s := match s.head with
        | some first => s.setPrev first none
        | none => { s with tail := none }
      if answer = .success then (.success, s.resize (-1))
      else
        -- the node's position is restored
        let s := s.setNext node s.head
        let s := match s.head with
          | some first => s.setPrev first (some node)
          | none => s
        (answer, { s with head := some node })

def popBack (s : ESBList) (answer : Error) : Error × ESBList :=
  match s.tail with
  | none => (.success, s)
  | some node =>
      let s := { s with tail := s.prev node }
      let s := match s.tail with
        | some last => s.setNext last none
        | none => { s with head := none }
      if answer = .success then (.success, s.resize (-1))
      else
        let s := s.setPrev node s.tail
        let s := match s.tail with
          | some last => s.setNext last (some node)
          | none => s
        (answer, { s with tail := some node })

/-- The loop of `clear`; `answers` is what the allocator says to each node.  `none` where the links go
round. -/
def clearLoop (answers : ListNode → Error) : Nat → Option ListNode → ESBList → Option (Error × ESBList)
  | _, none, s =>
      let s := { s with head := none, tail := none }
      some (if s.size = 0 then .success else .assertFailed, s)
  | 0, some _, _ => none
  | fuel + 1, some current, s =>
      let next := s.next current
      if answers current ≠ .success then
        some (answers current, { s.setPrev current none with head := some current })
      else clearLoop answers fuel next (s.resize (-1))

def clear (s : ESBList) (answers : ListNode → Error) : Option (Error × ESBList) :=
  clearLoop answers s.size s.head s

def deleteNode (s : ESBList) (node : ListNode) (answer : Error) : Error × ESBList :=
  let s := match s.prev node with
    | some before =>
        let s := s.setNext before (s.next node)
        if s.next node = none then { s with tail := s.prev node } else s
    | none =>
        let s := { s with head := s.next node }
        match s.next node with
        | some behind => s.setPrev behind none
        | none => s
  let s := match s.next node with
    | some behind =>
        let s := s.setPrev behind (s.prev node)
        if s.prev node = none then { s with head := s.next node } else s
    | none =>
        let s := { s with tail := s.prev node }
        match s.prev node with
        | some before => s.setNext before none
        | none => s
  if answer = .success then (.success, s)
  else
    -- the node is restored in the list
    let s := match s.prev node with
      | some before => s.setNext before (some node)
      | none => { s with head := some node }
    let s := match s.next node with
      | some behind => s.setPrev behind (some node)
      | none => { s with tail := some node }
    (answer, s)

/-- The iterator is the node it points to; it points to none once that is freed. -/
def remove (s : ESBList) (iterator : Option ListNode) (answer : Error) : Error × Option ListNode × ESBList :=
  match iterator with
  | none => (.invalidIterator, none, s)
  | some node =>
      let (error, s) := s.deleteNode node answer
      if error = .success then (.success, none, s.resize (-1)) else (error, iterator, s)

/-! ## Well-formed lists -/

/-- The nodes that a walk from the head visits. -/
def nodes (s : ESBList) : List ListNode := DoublyLinked.walk s.next s.size s.head

/-- The list is well formed and has these nodes. -/
structure Holds (s : ESBList) (xs : List ListNode) : Prop where
  linked : DoublyLinked s.next s.prev s.head xs
  tail_eq : s.tail = xs.getLast?
  size_eq : s.size = xs.length
  size_lt : s.size < 2 ^ 32

section

variable {s : ESBList} {xs ys : List ListNode} {node : ListNode} {answer : Error}

theorem Holds.forwards (h : s.Holds xs) : s.nodes = xs := by
  rw [nodes, h.size_eq]
  exact h.linked.walk_eq

theorem Holds.backwards (h : s.Holds xs) : DoublyLinked.walk s.prev s.size s.tail = xs.reverse := by
  rw [h.size_eq, h.tail_eq, ← List.length_reverse]
  exact h.linked.reverse.walk_eq

theorem holds_empty : ({} : ESBList).Holds [] := ⟨.nil _ _, rfl, rfl, by decide⟩

/-- The list read from its other end. -/
def mirror (s : ESBList) : ESBList :=
  { s with head := s.tail, tail := s.head, next := s.prev, prev := s.next }

theorem Holds.mirror (h : s.Holds xs) : s.mirror.Holds xs.reverse where
  linked := by
    have linked := h.linked.reverse
    rwa [← h.tail_eq] at linked
  tail_eq := h.linked.head_eq.trans List.getLast?_reverse.symm
  size_eq := h.size_eq.trans List.length_reverse.symm
  size_lt := h.size_lt

theorem popBack_eq (s : ESBList) (answer : Error) :
    s.popBack answer = ((s.mirror.popFront answer).1, (s.mirror.popFront answer).2.mirror) := by
  obtain ⟨size, head, tail, next, prev, value⟩ := s
  cases tail with
  | none => rfl
  | some node =>
      unfold popBack popFront mirror
      dsimp only
      cases prev node <;> by_cases freed : answer = .success <;> simp only [freed, if_true, if_false] <;> rfl

theorem pushBack_eq (s : ESBList) (element : Option ListValue) (answer : Except Error ListNode) :
    s.pushBack element answer =
      ((s.mirror.pushFront element answer).1, (s.mirror.pushFront element answer).2.mirror) := by
  obtain ⟨size, head, tail, next, prev, value⟩ := s
  cases element with
  | none => rfl
  | some element =>
      unfold pushBack pushFront mirror
      dsimp only
      by_cases full : size = 2 ^ 32 - 1
      · rw [if_pos full, if_pos full]
      · rw [if_neg full, if_neg full]
        cases answer with
        | error error => rfl
        | ok node => cases tail <;> cases head <;> rfl

/-! ## Pushes -/

theorem pushFront_full (full : s.size = 2 ^ 32 - 1) (element : ListValue) (given : Except Error ListNode) :
    s.pushFront (some element) given = (.overflow, s) := by
  unfold pushFront
  exact if_pos full

theorem pushFront_none (room : s.size ≠ 2 ^ 32 - 1) (element : ListValue) (error : Error) :
    s.pushFront (some element) (.error error) = (error, s) := by
  unfold pushFront
  exact if_neg room

theorem grown (small : s.size < 2 ^ 32) (room : s.size ≠ 2 ^ 32 - 1) : (s.resize 1).size = s.size + 1 := by
  unfold resize
  dsimp only
  omega

theorem shrunk {n : Nat} (size : s.size = n + 1) (small : s.size < 2 ^ 32) : (s.resize (-1)).size = n := by
  unfold resize
  dsimp only
  omega

theorem Holds.pushFront (h : s.Holds xs) (room : s.size ≠ 2 ^ 32 - 1) (new : node ∉ xs) (element : ListValue) :
    ∃ s', s.pushFront (some element) (.ok node) = (.success, s') ∧ s'.Holds (node :: xs) ∧
      s'.value = Function.update s.value node element := by
  have size : (s.resize 1).size = xs.length + 1 := (grown h.size_lt room).trans (congrArg (· + 1) h.size_eq)
  have small : (s.resize 1).size < 2 ^ 32 := by
    have small := h.size_lt
    rw [grown h.size_lt room]
    omega
  unfold ESBList.pushFront
  dsimp only
  rw [if_neg room]
  cases xs with
  | nil =>
      have head : s.head = none := h.linked.head_eq
      have tail : s.tail = none := h.tail_eq
      simp only [newNode, setNext, setPrev, head, tail, ne_eq, not_true_eq_false, if_false]
      exact ⟨_, rfl, ⟨.single (Function.update_self ..) (Function.update_self ..), rfl, size, small⟩, rfl⟩
  | cons first rest =>
      have head : s.head = some first := h.linked.head_eq
      have other : first ≠ node := fun same => new (same ▸ List.mem_cons_self)
      simp only [newNode, setNext, setPrev, head]
      refine ⟨_, rfl, ⟨h.linked.push new ?_ ?_ ?_ ?_ ?_, h.tail_eq, size, small⟩, rfl⟩
      · rw [head]
        exact Function.update_self ..
      · exact (Function.update_of_ne other.symm ..).trans (Function.update_self ..)
      · rintro a isHead
        rw [head] at isHead
        cases isHead
        exact Function.update_self ..
      · intro a member
        have apart : a ≠ node := fun same => new (same ▸ member)
        exact (Function.update_of_ne apart ..).trans (Function.update_of_ne apart ..)
      · intro a member notHead
        have apart : a ≠ node := fun same => new (same ▸ member)
        have behind : a ≠ first := fun same => notHead (head.trans (congrArg some same.symm))
        exact (Function.update_of_ne behind ..).trans (Function.update_of_ne apart ..)

/-! ## Pops -/

theorem popFront_empty (h : s.Holds []) : s.popFront answer = (.success, s) := by
  have head : s.head = none := h.linked.head_eq
  unfold popFront
  rw [head]

theorem Holds.popFront (h : s.Holds (node :: xs)) :
    ∃ s', s.popFront .success = (.success, s') ∧ s'.Holds xs ∧ s'.value = s.value := by
  have size : (s.resize (-1)).size = xs.length := shrunk h.size_eq h.size_lt
  have small : (s.resize (-1)).size < 2 ^ 32 := by
    have less : s.size = xs.length + 1 := h.size_eq
    have small := h.size_lt
    omega
  have head : s.head = some node := h.linked.head_eq
  have behind : s.next node = xs.head? := h.linked.next_first
  unfold ESBList.popFront
  rw [head]
  dsimp only
  rw [behind]
  cases xs with
  | nil =>
      dsimp only [List.head?_nil]
      rw [if_pos rfl]
      exact ⟨_, rfl, ⟨.nil _ _, rfl, size, small⟩, rfl⟩
  | cons first rest =>
      dsimp only [List.head?_cons]
      rw [if_pos rfl]
      have linked : DoublyLinked s.next s.prev s.head ([node] ++ first :: rest) := h.linked
      refine ⟨_, rfl, ⟨linked.suffix (fun _ _ => rfl) (fun a _ other => ?_) fun a isFirst => ?_, h.tail_eq, size, small⟩, rfl⟩
      · have other : a ≠ first := fun same => other (congrArg some same.symm)
        exact Function.update_of_ne other ..
      · cases isFirst
        exact Function.update_self ..

theorem popFront_refused (h : s.Holds (node :: xs)) (more : xs ≠ []) (refused : answer ≠ .success) :
    s.popFront answer = (answer, s) := by
  obtain ⟨first, rest, rfl⟩ := List.exists_cons_of_ne_nil more
  have head : s.head = some node := h.linked.head_eq
  have behind : s.next node = some first := h.linked.next_first
  have before : s.prev first = some node := (List.isChain_cons_cons.1 h.linked.chain).1.2
  -- the links are back where they were
  have next : Function.update s.next node (some first) = s.next := by rw [← behind, Function.update_eq_self]
  have prev : Function.update s.prev first (some node) = s.prev := by rw [← before, Function.update_eq_self]
  unfold popFront setNext setPrev
  rw [head]
  dsimp only
  rw [behind]
  dsimp only
  rw [if_neg refused, Function.update_idem, next, prev, ← head]

/-- The list of one node has no tail after a failure. -/
theorem popFront_alone (h : s.Holds [node]) (refused : answer ≠ .success) :
    s.popFront answer = (answer, { s with tail := none }) := by
  have head : s.head = some node := h.linked.head_eq
  have behind : s.next node = none := h.linked.next_first
  unfold popFront setNext
  rw [head]
  dsimp only
  rw [behind]
  dsimp only
  rw [if_neg refused, ← behind, Function.update_eq_self, ← head]

/-! ## Removals -/

/-- The neighbour, if there is one, gets another link. -/
def relink (links : ListNode → Option ListNode) (neighbour link : Option ListNode) : ListNode → Option ListNode :=
  match neighbour with
  | none => links
  | some neighbour => Function.update links neighbour link

theorem relink_of_mem {links : ListNode → Option ListNode} {neighbour link : Option ListNode} {a : ListNode}
    (isNeighbour : a ∈ neighbour) : relink links neighbour link a = link := by
  cases isNeighbour
  exact Function.update_self ..

theorem relink_of_notMem {links : ListNode → Option ListNode} {neighbour link : Option ListNode} {a : ListNode}
    (other : a ∉ neighbour) : relink links neighbour link a = links a := by
  cases neighbour with
  | none => rfl
  | some b => exact Function.update_of_ne (fun same => other (congrArg some same.symm)) ..

theorem Holds.apart (h : s.Holds (xs ++ node :: ys)) :
    (∀ a, s.prev node = some a → node ≠ a) ∧ ∀ a, s.next node = some a → node ≠ a := by
  obtain ⟨before, behind⟩ := h.linked.neighbours
  obtain ⟨-, nodup, notFront⟩ := List.nodup_append.1 h.linked.nodup
  constructor
  · rintro a isBefore rfl
    exact notFront node (List.mem_of_getLast? (before.symm.trans isBefore)) node List.mem_cons_self rfl
  · rintro a isBehind rfl
    exact (List.nodup_cons.1 nodup).1 (List.mem_of_mem_head? (behind.symm.trans isBehind))

theorem deleteNode_freed (h : s.Holds (xs ++ node :: ys)) :
    s.deleteNode node .success = (.success,
      { s with
        head := if s.prev node = none then s.next node else s.head
        tail := if s.next node = none then s.prev node else s.tail
        next := relink s.next (s.prev node) (s.next node)
        prev := relink s.prev (s.next node) (s.prev node) }) := by
  obtain ⟨notBefore, notBehind⟩ := h.apart
  unfold deleteNode
  cases before : s.prev node with
  | none =>
      cases behind : s.next node with
      | none => simp [before, behind, relink]
      | some b => simp [before, behind, relink, setPrev, notBehind b behind]
  | some a =>
      cases behind : s.next node with
      | none => simp [before, behind, relink, setNext, notBefore a before]
      | some b => simp [before, behind, relink, setNext, setPrev, notBefore a before, notBehind b behind]

/-- Its neighbours are linked to the node, and an end without a neighbour is the node. -/
theorem Holds.linked_back (h : s.Holds (xs ++ node :: ys)) :
    (∀ a, s.prev node = some a → Function.update s.next a (some node) = s.next) ∧
      (∀ a, s.next node = some a → Function.update s.prev a (some node) = s.prev) ∧
      (s.prev node = none → s.head = some node) ∧ (s.next node = none → s.tail = some node) := by
  obtain ⟨before, behind⟩ := h.linked.neighbours
  obtain ⟨-, chain, toNode⟩ := List.isChain_append.1 h.linked.chain
  refine ⟨fun a isBefore => ?_, fun a isBehind => ?_, fun isFirst => ?_, fun isLast => ?_⟩
  · rw [← (toNode a (before.symm.trans isBefore) node rfl).1, Function.update_eq_self]
  · rw [← ((List.isChain_cons.1 chain).1 a (behind.symm.trans isBehind)).2, Function.update_eq_self]
  · have empty : xs = [] := List.getLast?_eq_none_iff.1 (before.symm.trans isFirst)
    rw [h.linked.head_eq, empty]
    rfl
  · have empty : ys = [] := List.head?_eq_none_iff.1 (behind.symm.trans isLast)
    rw [h.tail_eq, empty, List.getLast?_concat]

theorem deleteNode_refused (h : s.Holds (xs ++ node :: ys)) (refused : answer ≠ .success) :
    s.deleteNode node answer = (answer, s) := by
  obtain ⟨notBefore, notBehind⟩ := h.apart
  obtain ⟨forth, back, isFirst, isLast⟩ := h.linked_back
  obtain ⟨size, head, tail, next, prev, value⟩ := s
  dsimp only at notBefore notBehind forth back isFirst isLast
  unfold deleteNode
  cases before : prev node with
  | none =>
      cases behind : next node with
      | none => simp [before, behind, refused, isFirst before, isLast behind]
      | some b => simp [before, behind, setPrev, notBehind b behind, refused, isFirst before, back b behind]
  | some a =>
      cases behind : next node with
      | none => simp [before, behind, setNext, notBefore a before, refused, forth a before, isLast behind]
      | some b =>
          simp [before, behind, setNext, setPrev, notBefore a before, notBehind b behind, refused, forth a before,
            back b behind]

theorem Holds.remove (h : s.Holds (xs ++ node :: ys)) :
    ∃ s', s.remove (some node) .success = (.success, none, s') ∧ s'.Holds (xs ++ ys) ∧ s'.value = s.value := by
  have size : s.size = (xs ++ ys).length + 1 := by
    rw [h.size_eq, List.length_append, List.length_append, List.length_cons]
    omega
  have left := shrunk size h.size_lt
  have small : (s.resize (-1)).size < 2 ^ 32 := by
    have small := h.size_lt
    omega
  unfold ESBList.remove
  dsimp only
  rw [deleteNode_freed h]
  refine ⟨_, rfl, ⟨h.linked.remove (fun a => relink_of_mem) (fun a => relink_of_mem) (fun a _ => relink_of_notMem)
    fun a _ => relink_of_notMem, ?_, left, small⟩, rfl⟩
  obtain ⟨before, behind⟩ := h.linked.neighbours
  change (if s.next node = none then s.prev node else s.tail) = (xs ++ ys).getLast?
  rw [behind, before, h.tail_eq]
  cases ys with
  | nil => simp
  | cons y rest => simp

theorem remove_refused (h : s.Holds (xs ++ node :: ys)) (refused : answer ≠ .success) :
    s.remove (some node) answer = (answer, some node, s) := by
  unfold remove
  dsimp only
  rw [deleteNode_refused h refused]
  exact if_neg refused

/-! ## Clearing -/

/-- The loop takes the nodes up to the first that the allocator does not take. -/
theorem clearLoop_eq (answers : ListNode → Error) (size : s.size = xs.length) (small : s.size < 2 ^ 32)
    (chain : xs.IsChain fun a b => s.next a = some b) (last : ∀ a ∈ xs.getLast?, s.next a = none) :
    clearLoop answers xs.length xs.head? s = some (match xs.dropWhile fun a => answers a = .success with
      | [] => (.success, { s with size := 0, head := none, tail := none })
      | a :: rest => (answers a, { s.setPrev a none with size := rest.length + 1, head := some a })) := by
  induction xs generalizing s with
  | nil =>
      have empty : s.size = 0 := size
      simp [clearLoop, empty]
  | cons a rest ih =>
      rw [List.head?_cons, List.length_cons, clearLoop]
      by_cases freed : answers a = .success
      · have behind : s.next a = rest.head? := by
          cases rest with
          | nil => exact last a rfl
          | cons b more => exact (List.isChain_cons_cons.1 chain).1
        have left : (s.resize (-1)).size = rest.length := shrunk size small
        have small : (s.resize (-1)).size < 2 ^ 32 := by
          rw [List.length_cons] at size
          omega
        have later := ih left small chain.tail fun b isLast => last b (by rw [List.getLast?_cons, isLast]; rfl)
        rw [if_neg (not_not_intro freed), behind, later, List.dropWhile_cons_of_pos (by simpa using freed)]
        rfl
      · have unchanged : rest.length + 1 = s.size := size.symm
        rw [if_pos freed, List.dropWhile_cons_of_neg (by simpa using freed)]
        dsimp only
        rw [unchanged]
        rfl

theorem Holds.clear (h : s.Holds xs) (answers : ListNode → Error) :
    s.clear answers = some (match xs.dropWhile fun a => answers a = .success with
      | [] => (.success, { s with size := 0, head := none, tail := none })
      | a :: rest => (answers a, { s.setPrev a none with size := rest.length + 1, head := some a })) := by
  unfold ESBList.clear
  rw [h.size_eq, h.linked.head_eq]
  exact clearLoop_eq answers h.size_eq h.size_lt (h.linked.chain.imp fun _ _ linked => linked.1) h.linked.last

end

/-! ## Sequences of calls -/

/-- The calls, with what the allocator says in each. -/
inductive ListCall where
  | pushFront (element : Option ListValue) (answer : Except Error ListNode)
  | pushBack (element : Option ListValue) (answer : Except Error ListNode)
  | popFront (answer : Error)
  | popBack (answer : Error)
  | remove (iterator : Option ListNode) (answer : Error)
  | clear (answers : ListNode → Error)

def perform (s : ESBList) : ListCall → Option (Error × ESBList)
  | .pushFront element answer => some (s.pushFront element answer)
  | .pushBack element answer => some (s.pushBack element answer)
  | .popFront answer => some (s.popFront answer)
  | .popBack answer => some (s.popBack answer)
  | .remove iterator answer =>
      let (error, _, s) := s.remove iterator answer
      some (error, s)
  | .clear answers => s.clear answers

/-- A node and its element. -/
abbrev ListEntry := ListNode × ListValue

/-- A push of `element` puts its entry where `place` says. -/
def pushed (es : List ListEntry) (element : Option ListValue) (answer : Except Error ListNode)
    (place : ListEntry → List ListEntry) : Error × List ListEntry :=
  match element with
  | none => (.nullPointer, es)
  | some element =>
      if es.length = 2 ^ 32 - 1 then (.overflow, es)
      else
        match answer with
        | .error error => (error, es)
        | .ok node => (.success, place (node, element))

/-- A pop leaves `rest` if the allocator takes the node. -/
def popped (es rest : List ListEntry) (answer : Error) : Error × List ListEntry :=
  if es = [] then (.success, []) else if answer = .success then (.success, rest) else (answer, es)

/-- What the calls are for: an entry goes when the allocator takes its node, and no other does. -/
def serve (es : List ListEntry) : ListCall → Error × List ListEntry
  | .pushFront element answer => pushed es element answer (· :: es)
  | .pushBack element answer => pushed es element answer fun e => es ++ [e]
  | .popFront answer => popped es es.tail answer
  | .popBack answer => popped es es.dropLast answer
  | .remove none _ => (.invalidIterator, es)
  | .remove (some node) answer =>
      if answer = .success then (.success, es.filter fun e => e.1 ≠ node) else (answer, es)
  | .clear answers =>
      match es.dropWhile fun e => answers e.1 = .success with
      | [] => (.success, [])
      | e :: rest => (answers e.1, e :: rest)

/-- The list is well formed and has these entries. -/
structure Contains (s : ESBList) (es : List ListEntry) : Prop where
  holds : s.Holds (es.map Prod.fst)
  values : ∀ e ∈ es, s.value e.1 = e.2

/-- The allocator gives a node that is not in the list, and an iterator points to one that is. -/
def Legal (s : ESBList) : ListCall → Prop
  | .pushFront _ (.ok node) => node ∉ s.nodes
  | .pushBack _ (.ok node) => node ∉ s.nodes
  | .remove (some node) _ => node ∈ s.nodes
  | _ => True

/-- The allocator takes the node of a pop from a list of one node. -/
def Fits (s : ESBList) : ListCall → Prop
  | .popFront answer => s.size = 1 → answer = .success
  | .popBack answer => s.size = 1 → answer = .success
  | _ => True

instance (s : ESBList) : (call : ListCall) → Decidable (s.Legal call)
  | .pushFront _ (.ok node) => inferInstanceAs (Decidable (node ∉ s.nodes))
  | .pushBack _ (.ok node) => inferInstanceAs (Decidable (node ∉ s.nodes))
  | .remove (some node) _ => inferInstanceAs (Decidable (node ∈ s.nodes))
  | .pushFront _ (.error _) | .pushBack _ (.error _) | .popFront _ | .popBack _ | .remove none _ | .clear _ =>
      isTrue trivial

instance (s : ESBList) : (call : ListCall) → Decidable (s.Fits call)
  | .popFront answer => inferInstanceAs (Decidable (s.size = 1 → answer = .success))
  | .popBack answer => inferInstanceAs (Decidable (s.size = 1 → answer = .success))
  | .pushFront _ _ | .pushBack _ _ | .remove _ _ | .clear _ => isTrue trivial

variable {s : ESBList} {es : List ListEntry} {answer : Error}

theorem Contains.mirror (h : s.Contains es) : s.mirror.Contains es.reverse where
  holds := by
    rw [List.map_reverse]
    exact h.holds.mirror
  values e member := h.values e (List.mem_reverse.1 member)

theorem Contains.size_eq (h : s.Contains es) : s.size = es.length :=
  h.holds.size_eq.trans (List.length_map _)

theorem Contains.pushFront (h : s.Contains es) (element : Option ListValue) {given : Except Error ListNode}
    (new : ∀ node, given = .ok node → node ∉ es.map Prod.fst) :
    (s.pushFront element given).1 = (pushed es element given (· :: es)).1 ∧
      (s.pushFront element given).2.Contains (pushed es element given (· :: es)).2 := by
  cases element with
  | none => exact ⟨rfl, h⟩
  | some element =>
      unfold pushed
      dsimp only
      by_cases full : s.size = 2 ^ 32 - 1
      · rw [pushFront_full full, if_pos (h.size_eq.symm.trans full)]
        exact ⟨rfl, h⟩
      · rw [if_neg (h.size_eq ▸ full)]
        cases given with
        | error error =>
            rw [pushFront_none full]
            exact ⟨rfl, h⟩
        | ok node =>
            have new := new node rfl
            obtain ⟨s', done, holds, value⟩ := h.holds.pushFront full new element
            rw [done]
            refine ⟨rfl, holds, fun e member => ?_⟩
            rw [value]
            obtain rfl | member := List.mem_cons.1 member
            · exact Function.update_self ..
            · have other : e.1 ≠ node := fun same => new (same ▸ List.mem_map_of_mem member)
              exact (Function.update_of_ne other ..).trans (h.values e member)

theorem Contains.popFront (h : s.Contains es) (fits : s.size = 1 → answer = .success) :
    (s.popFront answer).1 = (popped es es.tail answer).1 ∧
      (s.popFront answer).2.Contains (popped es es.tail answer).2 := by
  cases es with
  | nil =>
      rw [popFront_empty h.holds]
      exact ⟨rfl, h⟩
  | cons e rest =>
      by_cases freed : answer = .success
      · obtain ⟨s', done, holds, value⟩ := h.holds.popFront
        rw [freed, done]
        exact ⟨rfl, holds, fun a member => by rw [value]; exact h.values a (.tail _ member)⟩
      · have more : rest.map Prod.fst ≠ [] := by
          intro none
          have alone : rest = [] := List.map_eq_nil_iff.1 none
          exact freed (fits (h.size_eq.trans (by rw [alone]; rfl)))
        rw [popFront_refused h.holds more freed, popped, if_neg (List.cons_ne_nil e rest), if_neg freed]
        exact ⟨rfl, h⟩

theorem pushed_reverse (es : List ListEntry) (element : Option ListValue) (given : Except Error ListNode) :
    pushed es element given (fun e => es ++ [e]) =
      ((pushed es.reverse element given (· :: es.reverse)).1,
        (pushed es.reverse element given (· :: es.reverse)).2.reverse) := by
  unfold pushed
  rw [List.length_reverse]
  cases element with
  | none => simp
  | some element =>
      dsimp only
      by_cases full : es.length = 2 ^ 32 - 1
      · rw [if_pos full, if_pos full, List.reverse_reverse]
      · rw [if_neg full, if_neg full]
        cases given <;> simp

theorem popped_reverse (es : List ListEntry) (answer : Error) :
    popped es es.dropLast answer =
      ((popped es.reverse es.reverse.tail answer).1, (popped es.reverse es.reverse.tail answer).2.reverse) := by
  unfold popped
  by_cases none : es = []
  · simp [none]
  · by_cases freed : answer = .success <;> simp [none, freed]

theorem Contains.pushBack (h : s.Contains es) (element : Option ListValue) {given : Except Error ListNode}
    (new : ∀ node, given = .ok node → node ∉ es.map Prod.fst) :
    (s.pushBack element given).1 = (pushed es element given fun e => es ++ [e]).1 ∧
      (s.pushBack element given).2.Contains (pushed es element given fun e => es ++ [e]).2 := by
  have new' : ∀ node, given = .ok node → node ∉ es.reverse.map Prod.fst := fun node isGiven member =>
    new node isGiven (by simpa using member)
  have front := h.mirror.pushFront element new'
  rw [pushBack_eq, pushed_reverse]
  exact ⟨front.1, front.2.mirror⟩

theorem Contains.popBack (h : s.Contains es) (fits : s.size = 1 → answer = .success) :
    (s.popBack answer).1 = (popped es es.dropLast answer).1 ∧
      (s.popBack answer).2.Contains (popped es es.dropLast answer).2 := by
  have front := h.mirror.popFront fits
  rw [popBack_eq, popped_reverse]
  exact ⟨front.1, front.2.mirror⟩

theorem Contains.remove (h : s.Contains es) {node : ListNode} (member : node ∈ es.map Prod.fst) (answer : Error) :
    (s.remove (some node) answer).1 = (serve es (.remove (some node) answer)).1 ∧
      (s.remove (some node) answer).2.2.Contains (serve es (.remove (some node) answer)).2 := by
  obtain ⟨xs, ys, split⟩ := List.append_of_mem member
  have holds := h.holds
  rw [split] at holds
  unfold serve
  dsimp only
  by_cases freed : answer = .success
  · obtain ⟨s', done, left, value⟩ := holds.remove
    rw [freed, done, if_pos rfl]
    refine ⟨rfl, ?_, fun e member => ?_⟩
    · obtain ⟨-, nodup, notFront⟩ := List.nodup_append.1 holds.linked.nodup
      have others : (es.filter fun e => e.1 ≠ node).map Prod.fst = xs ++ ys := by
        have front : xs.filter (fun a => a ≠ node) = xs :=
          List.filter_eq_self.2 fun a inFront => by simpa using notFront a inFront node List.mem_cons_self
        have behind : ys.filter (fun a => a ≠ node) = ys :=
          List.filter_eq_self.2 fun a inBack => by
            have other : a ≠ node := fun same => (List.nodup_cons.1 nodup).1 (same ▸ inBack)
            simpa using other
        have mapped := List.filter_map (f := Prod.fst) (p := fun a => decide (a ≠ node)) (l := es)
        rw [split, List.filter_append, List.filter_cons_of_neg (by simp), front, behind] at mapped
        exact mapped.symm
      exact others ▸ left
    · rw [value]
      exact h.values e (List.mem_filter.1 member).1
  · rw [remove_refused holds freed, if_neg freed]
    exact ⟨rfl, h⟩

theorem Contains.clear (h : s.Contains es) (answers : ListNode → Error) :
    ∃ s', s.clear answers = some ((serve es (.clear answers)).1, s') ∧
      s'.Contains (serve es (.clear answers)).2 := by
  have cleared := h.holds.clear answers
  have split := List.takeWhile_append_dropWhile (p := fun e : ListEntry => decide (answers e.1 = .success)) (l := es)
  rw [List.dropWhile_map] at cleared
  change s.clear answers = some (match List.map Prod.fst (es.dropWhile fun e => answers e.1 = .success) with
    | [] => (.success, { s with size := 0, head := none, tail := none })
    | a :: rest => (answers a, { s.setPrev a none with size := rest.length + 1, head := some a })) at cleared
  unfold serve
  dsimp only
  generalize es.dropWhile (fun e => answers e.1 = .success) = left at cleared split ⊢
  generalize es.takeWhile (fun e => answers e.1 = .success) = gone at split
  subst split
  cases left with
  | nil => exact ⟨_, cleared, ⟨.nil _ _, rfl, rfl, Nat.two_pow_pos 32⟩, nofun⟩
  | cons e rest =>
      refine ⟨_, cleared, ⟨?_, ?_, ?_, ?_⟩, fun a member => h.values a (List.mem_append_right _ member)⟩
      · have linked := h.holds.linked
        rw [List.map_append] at linked
        refine linked.suffix (fun _ _ => rfl) (fun a _ other => ?_) fun a isFirst => ?_
        · have other : a ≠ e.1 := fun same => other (congrArg some same.symm)
          exact Function.update_of_ne other ..
        · cases isFirst
          exact Function.update_self ..
      · have tail := h.holds.tail_eq
        rw [List.map_append, List.getLast?_append_of_ne_nil _ (by simp)] at tail
        exact tail
      · rw [List.map_cons, List.length_cons]
      · have small := h.holds.size_lt
        rw [h.size_eq, List.length_append, List.length_cons] at small
        change (rest.map Prod.fst).length + 1 < 2 ^ 32
        rw [List.length_map]
        omega

/-- A legal call that fits is answered as `serve` says, and leaves what it says. -/
theorem Contains.perform (h : s.Contains es) {call : ListCall} (legal : s.Legal call) (fits : s.Fits call) :
    ∃ s', s.perform call = some ((serve es call).1, s') ∧ s'.Contains (serve es call).2 := by
  have nodes := h.holds.forwards
  cases call with
  | pushFront element given =>
      have new : ∀ node, given = .ok node → node ∉ es.map Prod.fst := by
        rintro node rfl
        exact nodes ▸ legal
      have done := h.pushFront element new
      exact ⟨_, congrArg (fun error => some (error, _)) done.1, done.2⟩
  | pushBack element given =>
      have new : ∀ node, given = .ok node → node ∉ es.map Prod.fst := by
        rintro node rfl
        exact nodes ▸ legal
      have done := h.pushBack element new
      exact ⟨_, congrArg (fun error => some (error, _)) done.1, done.2⟩
  | popFront answer =>
      have done := h.popFront fits
      exact ⟨_, congrArg (fun error => some (error, _)) done.1, done.2⟩
  | popBack answer =>
      have done := h.popBack fits
      exact ⟨_, congrArg (fun error => some (error, _)) done.1, done.2⟩
  | remove iterator answer =>
      cases iterator with
      | none => exact ⟨s, rfl, h⟩
      | some node =>
          have member : node ∈ s.nodes := legal
          have done := h.remove (nodes ▸ member) answer
          exact ⟨_, congrArg (fun error => some (error, _)) done.1, done.2⟩
  | clear answers => exact h.clear answers

/-- A list of one node that fails to free it has only one end. -/
theorem Contains.alone (h : s.Contains es) (one : s.size = 1) (refused : answer ≠ .success) :
    (s.popFront answer).2.size = 1 ∧ (s.popFront answer).2.tail = none := by
  obtain ⟨e, rfl⟩ : ∃ e, es = [e] := List.length_eq_one_iff.1 (h.size_eq.symm.trans one)
  rw [popFront_alone h.holds refused]
  exact ⟨one, rfl⟩

theorem Contains.ends (h : s.Contains es) (one : s.size = 1) : s.head ≠ none ∧ s.tail ≠ none := by
  obtain ⟨e, rfl⟩ : ∃ e, es = [e] := List.length_eq_one_iff.1 (h.size_eq.symm.trans one)
  have head : s.head = some e.1 := h.holds.linked.head_eq
  have tail : s.tail = some e.1 := h.holds.tail_eq
  simp [head, tail]

theorem fits_iff {call : ListCall} (h : s.Contains es) (legal : s.Legal call) :
    s.Fits call ↔ ∃ error s' es', s.perform call = some (error, s') ∧ s'.Contains es' ∧ serve es call = (error, es') := by
  constructor
  · intro fits
    obtain ⟨s', done, contains⟩ := h.perform legal fits
    exact ⟨_, s', _, done, contains, rfl⟩
  · rintro ⟨error, s', es', done, contains, -⟩
    cases call with
    | popFront answer =>
        intro one
        by_contra refused
        obtain ⟨size, tail⟩ := h.alone one refused
        have left : (s.popFront answer).2 = s' := congrArg Prod.snd (Option.some.inj done)
        rw [left] at size tail
        exact (contains.ends size).2 tail
    | popBack answer =>
        intro one
        by_contra refused
        obtain ⟨size, tail⟩ := h.mirror.alone one refused
        have left : (s.popBack answer).2 = s' := congrArg Prod.snd (Option.some.inj done)
        rw [popBack_eq] at left
        subst left
        exact (contains.ends size).1 tail
    | _ => trivial

/-- **Failing deallocations**: after each call of a sequence the list is well formed, and has lost
just the entries whose nodes the allocator took, if and only if no pop fails on a list of one node. -/
theorem list_serves_iff (h : s.Contains es) {calls : List ListCall} (legal : AllFit perform Legal s calls) :
    ServesEach perform (fun es call error es' => serve es call = (error, es')) Contains s es calls ↔
      AllFit perform Fits s calls :=
  servesEach_iff @fits_iff h legal

theorem contains_empty : ({} : ESBList).Contains [] := ⟨holds_empty, nofun⟩

/-- Two elements; the allocator takes neither at first, and then the second node only. -/
theorem list_serves_two :
    ServesEach perform (fun es call error es' => serve es call = (error, es')) Contains {} []
      [.pushBack (some 5) (.ok 1), .pushFront (some 6) (.ok 2), .popFront .notOwner, .popFront .success,
        .remove (some 1) .notOwner] :=
  (list_serves_iff contains_empty (by decide)).mpr (by decide)

/-- The allocator does not take the only node: the list keeps it, and has no tail any more. -/
theorem only_node_loses_tail :
    ∃ s : ESBList, s.Contains [(1, 5)] ∧ (s.popFront .notOwner).1 = .notOwner ∧ (s.popFront .notOwner).2.size = 1 ∧
      (s.popFront .notOwner).2.head = some 1 ∧ (s.popFront .notOwner).2.tail = none ∧
      ¬ ∃ es, (s.popFront .notOwner).2.Contains es := by
  have new : ∀ node, (Except.ok 1 : Except Error ListNode) = .ok node → node ∉ ([] : List ListEntry).map Prod.fst := nofun
  have pushed := contains_empty.pushBack (some 5) new
  refine ⟨_, pushed.2, rfl, rfl, rfl, rfl, ?_⟩
  rintro ⟨es, contains⟩
  exact (contains.ends rfl).2 rfl

end ESBList

end Everscale
