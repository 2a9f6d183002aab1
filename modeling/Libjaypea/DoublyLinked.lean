import Mathlib.Data.List.Basic
import Mathlib.Logic.Function.Basic

/-!
# Doubly linked nodes in a heap

A heap maps addresses to nodes with a value and two links.  The nodes at a list
of addresses form a chain when each links to its neighbours on both sides; the
chain is then what is met by following either link, in the one order or in the
other.
-/

namespace Libjaypea

namespace DoublyLinked

variable {Address Value : Type*}

structure Node (Address Value : Type*) where
  value : Value
  prev : Address
  next : Address

abbrev Heap (Address Value : Type*) := Address → Option (Node Address Value)

section Links

variable [DecidableEq Address] (heap : Heap Address Value)

/-- The heap with another `prev` in a node, if there is that node. -/
def setPrev (address prev : Address) : Option (Heap Address Value) :=
  (heap address).map fun node => Function.update heap address (some { node with prev := prev })

/-- The heap with another `next` in a node, if there is that node. -/
def setNext (address next : Address) : Option (Heap Address Value) :=
  (heap address).map fun node => Function.update heap address (some { node with next := next })

end Links

/-- The address of a node and the value that is kept there. -/
abbrev Cell (Address Value : Type*) := Address × Value

/-- Where a chain begins, if what is behind it begins at `after`. -/
def first : List (Cell Address Value) → Address → Address
  | [], after => after
  | cell :: _, _ => cell.1

/-- Where a chain ends, if what is in front of it ends at `before`. -/
def last : Address → List (Cell Address Value) → Address
  | before, [] => before
  | _, cell :: rest => last cell.1 rest

/-- The cells are nodes of the heap that are linked with each other, and with
the addresses on both sides. -/
def Linked (heap : Heap Address Value) : Address → List (Cell Address Value) → Address → Prop
  | _, [], _ => True
  | before, cell :: rest, after =>
      heap cell.1 = some ⟨cell.2, before, first rest after⟩ ∧ Linked heap cell.1 rest after

/-- The cells that are met by following a link up to the null address. -/
inductive Follows (heap : Heap Address Value) (link : Node Address Value → Address)
    (null : Address) : Address → List (Cell Address Value) → Prop
  | null : Follows heap link null null []
  | node {address : Address} {node : Node Address Value} {cells : List (Cell Address Value)}
      (present : address ≠ null) (found : heap address = some node)
      (rest : Follows heap link null (link node) cells) :
      Follows heap link null address ((address, node.value) :: cells)

/-- A chain between two null links. -/
structure Chain (heap : Heap Address Value) (null : Address) (cells : List (Cell Address Value)) :
    Prop where
  linked : Linked heap null cells null
  distinct : (cells.map Prod.fst).Nodup
  present : null ∉ cells.map Prod.fst

section Ends

@[simp]
theorem first_append (front back : List (Cell Address Value)) (after : Address) :
    first (front ++ back) after = first front (first back after) := by
  cases front <;> rfl

@[simp]
theorem last_append (before : Address) (front back : List (Cell Address Value)) :
    last before (front ++ back) = last (last before front) back := by
  induction front generalizing before with
  | nil => rfl
  | cons cell front ih => exact ih cell.1

theorem last_eq_iff {null : Address} {cells : List (Cell Address Value)}
    (present : null ∉ cells.map Prod.fst) : last null cells = null ↔ cells = [] := by
  rcases List.eq_nil_or_concat cells with rfl | ⟨front, final, rfl⟩
  · simp [last]
  · simp only [List.concat_eq_append, List.map_append, List.map_cons, List.map_nil,
      List.mem_append, List.mem_singleton, not_or] at present
    simp [last, Ne.symm present.2]

end Ends

section Linked

variable {heap changed : Heap Address Value}

theorem linked_append {before after : Address} {front back : List (Cell Address Value)} :
    Linked heap before (front ++ back) after ↔
      Linked heap before front (first back after) ∧ Linked heap (last before front) back after := by
  induction front generalizing before with
  | nil => simp [Linked, last]
  | cons cell front ih =>
      simp only [List.cons_append, Linked, last, first_append, ih, and_assoc]

/-- A chain is still one in a heap that has the same nodes at its addresses. -/
theorem Linked.congr {before after : Address} {cells : List (Cell Address Value)}
    (linked : Linked heap before cells after)
    (agrees : ∀ address ∈ cells.map Prod.fst, changed address = heap address) :
    Linked changed before cells after := by
  induction cells generalizing before with
  | nil => trivial
  | cons cell rest ih =>
      rw [List.map_cons, List.forall_mem_cons] at agrees
      exact ⟨agrees.1.trans linked.1, ih linked.2 agrees.2⟩

theorem Linked.allocated {before after address : Address} {cells : List (Cell Address Value)}
    (linked : Linked heap before cells after) (member : address ∈ cells.map Prod.fst) :
    heap address ≠ none := by
  induction cells generalizing before with
  | nil => cases member
  | cons cell rest ih =>
      rcases List.mem_cons.mp member with rfl | later
      · rw [linked.1]
        exact Option.some_ne_none _
      · exact ih linked.2 later

/-- A change elsewhere. -/
theorem Linked.update [DecidableEq Address] {before after address : Address}
    {cells : List (Cell Address Value)} (linked : Linked heap before cells after)
    (elsewhere : address ∉ cells.map Prod.fst) (node : Option (Node Address Value)) :
    Linked (Function.update heap address node) before cells after := by
  apply linked.congr
  intro other member
  apply Function.update_of_ne
  rintro rfl
  exact elsewhere member

variable {null : Address}

/-- Following `next` meets the cells in their order. -/
theorem Linked.follows_next {before after : Address} {cells more : List (Cell Address Value)}
    (linked : Linked heap before cells after) (present : null ∉ cells.map Prod.fst)
    (further : Follows heap Node.next null after more) :
    Follows heap Node.next null (first cells after) (cells ++ more) := by
  induction cells generalizing before with
  | nil => exact further
  | cons cell rest ih =>
      rw [List.map_cons, List.mem_cons, not_or] at present
      exact .node (Ne.symm present.1) linked.1 (ih linked.2 present.2)

/-- Following `prev` meets them in the opposite order. -/
theorem Linked.follows_prev {before after : Address} {cells more : List (Cell Address Value)}
    (linked : Linked heap before cells after) (present : null ∉ cells.map Prod.fst)
    (further : Follows heap Node.prev null before more) :
    Follows heap Node.prev null (last before cells) (cells.reverse ++ more) := by
  induction cells generalizing before more with
  | nil => exact further
  | cons cell rest ih =>
      rw [List.map_cons, List.mem_cons, not_or] at present
      have here : Follows heap Node.prev null cell.1 (cell :: more) :=
        .node (Ne.symm present.1) linked.1 further
      rw [List.reverse_cons, List.append_assoc]
      exact ih linked.2 present.2 here

/-- Every link leads to one address. -/
theorem Follows.unique {link : Node Address Value → Address} {address : Address}
    {cells others : List (Cell Address Value)} (one : Follows heap link null address cells)
    (other : Follows heap link null address others) : cells = others := by
  induction one generalizing others with
  | null =>
      cases other with
      | null => rfl
      | node present _ _ => exact absurd rfl present
  | node present found _ ih =>
      cases other with
      | null => exact absurd rfl present
      | node _ again later =>
          cases found.symm.trans again
          rw [ih later]

end Linked

section Chain

variable {heap : Heap Address Value} {null : Address} {cells : List (Cell Address Value)}

theorem Chain.follows_next (chain : Chain heap null cells) :
    Follows heap Node.next null (first cells null) cells := by
  have whole := chain.linked.follows_next chain.present .null
  rwa [List.append_nil] at whole

theorem Chain.follows_prev (chain : Chain heap null cells) :
    Follows heap Node.prev null (last null cells) cells.reverse := by
  have whole := chain.linked.follows_prev chain.present .null
  rwa [List.append_nil] at whole

theorem chain_nil (heap : Heap Address Value) (null : Address) : Chain heap null [] :=
  ⟨trivial, List.nodup_nil, List.not_mem_nil⟩

/-- A node in front of a chain, which its first node is made to link back to. -/
theorem Chain.cons (chain : Chain heap null cells) {address : Address} (value : Value)
    (present : address ≠ null) (fresh : address ∉ cells.map Prod.fst)
    {changed : Heap Address Value}
    (added : changed address = some ⟨value, null, first cells null⟩)
    (back : Linked changed address cells null) :
    Chain changed null ((address, value) :: cells) := by
  refine ⟨⟨added, back⟩, ?_, ?_⟩
  · rw [List.map_cons, List.nodup_cons]
    exact ⟨fresh, chain.distinct⟩
  · rw [List.map_cons, List.mem_cons, not_or]
    exact ⟨Ne.symm present, chain.present⟩

variable [DecidableEq Address]

/-- The first node of a chain linked back to another address. -/
theorem Linked.relink_prev {before after : Address} {cell : Cell Address Value}
    {rest : List (Cell Address Value)} (linked : Linked heap before (cell :: rest) after)
    (distinct : ((cell :: rest).map Prod.fst).Nodup) (address : Address) :
    Linked (Function.update heap cell.1 (some ⟨cell.2, address, first rest after⟩)) address
      (cell :: rest) after := by
  rw [List.map_cons, List.nodup_cons] at distinct
  exact ⟨Function.update_self .., linked.2.update distinct.1 _⟩

/-- The last node of a chain linked on to another address. -/
theorem Linked.relink_next {before after : Address} {front : List (Cell Address Value)}
    {cell : Cell Address Value} (linked : Linked heap before (front ++ [cell]) after)
    (distinct : ((front ++ [cell]).map Prod.fst).Nodup) (address : Address) :
    Linked (Function.update heap cell.1 (some ⟨cell.2, last before front, address⟩)) before
      (front ++ [cell]) address := by
  rw [List.map_append, List.nodup_append] at distinct
  obtain ⟨start, -⟩ := linked_append.mp linked
  have elsewhere : cell.1 ∉ front.map Prod.fst := fun member =>
    distinct.2.2 cell.1 member cell.1 List.mem_cons_self rfl
  exact linked_append.mpr ⟨start.update elsewhere _, Function.update_self .., trivial⟩

/-- The first node, if there is one, is made to link back to an address. -/
theorem Chain.linkBack (chain : Chain heap null cells) (address : Address) :
    ∃ changed,
      (if first cells null ≠ null then setPrev heap (first cells null) address else some heap) =
        some changed ∧
      Linked changed address cells null ∧
      ∀ other, other ∉ cells.map Prod.fst → changed other = heap other := by
  cases cells with
  | nil => exact ⟨heap, if_neg fun differs => differs rfl, trivial, fun _ _ => rfl⟩
  | cons cell rest =>
      have present : cell.1 ≠ null := fun same => chain.present (same ▸ List.mem_cons_self)
      refine ⟨_, ?_, chain.linked.relink_prev chain.distinct address, ?_⟩
      · have found : heap cell.1 = some ⟨cell.2, null, first rest null⟩ := chain.linked.1
        rw [first, if_pos present, setPrev, found]
        rfl
      · intro other elsewhere
        apply Function.update_of_ne
        rintro rfl
        exact elsewhere List.mem_cons_self

/-- The chain without its last node, of which the one in front is made the end. -/
theorem Chain.dropLast {front : List (Cell Address Value)} {cell final : Cell Address Value}
    (chain : Chain heap null (front ++ [cell] ++ [final])) :
    ∃ changed, setNext heap cell.1 null = some changed ∧
      Chain (Function.update changed final.1 none) null (front ++ [cell]) ∧
      changed final.1 = some ⟨final.2, cell.1, null⟩ ∧
      ∀ other, other ∉ (front ++ [cell]).map Prod.fst → changed other = heap other := by
  obtain ⟨start, found, -⟩ := linked_append.mp chain.linked
  rw [last_append] at found
  have distinct := chain.distinct
  rw [List.map_append, List.nodup_append] at distinct
  obtain ⟨distinct, -, apart⟩ := distinct
  have elsewhere : final.1 ∉ (front ++ [cell]).map Prod.fst := fun member =>
    apart final.1 member final.1 List.mem_cons_self rfl
  have different : final.1 ≠ cell.1 := by
    intro same
    apply elsewhere
    simp [same]
  have here : heap cell.1 = some ⟨cell.2, last null front, final.1⟩ :=
    (linked_append.mp start).2.1
  refine ⟨_, ?_, ⟨(start.relink_next distinct null).update elsewhere none, distinct, ?_⟩, ?_, ?_⟩
  · rw [setNext, here]
    rfl
  · intro member
    apply chain.present
    rw [List.map_append]
    exact List.mem_append_left _ member
  · rw [Function.update_of_ne different]
    exact found
  · intro other outside
    apply Function.update_of_ne
    rintro rfl
    exact outside (by simp)

end Chain

end DoublyLinked

end Libjaypea
