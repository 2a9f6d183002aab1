import Libjaypea.CString
import Libjaypea.Fuelled
import Libjaypea.Transitions
import Mathlib.Logic.Function.Basic

/-!
# The stack

`Stack` keeps its values in singly linked nodes on the heap, the newest at the
head.  It behaves as a list does that is changed at its front only, wherever the
nodes are allocated, and it has no node that is not in the list.  An operation is
`none` where a pointer to no node would be followed.
-/

namespace Libjaypea

structure StackNode (T : Type) where
  value : T
  next : Nat

structure Stack (T : Type) where
  /-- The nodes of the stack on the heap. -/
  nodes : Nat → Option (StackNode T)
  head : Nat
  size : Int32

namespace Stack

open Fuelled Transitions

variable {T : Type}

def empty : Stack T :=
  ⟨fun _ => none, 0, 0⟩

/-- `newNode` is where `new` puts the node. -/
def push (stack : Stack T) (newValue : T) (newNode : Nat) : Stack T where
  nodes := Function.update stack.nodes newNode (some ⟨newValue, stack.head⟩)
  head := newNode
  size := stack.size + 1

def pop (stack : Stack T) : Option (Except Bytes T × Stack T) :=
  if stack.head = 0 then some (.error (bytes "Stack::pop"), stack)
  else
    (stack.nodes stack.head).map fun resultNode =>
      (.ok resultNode.value,
        ⟨Function.update stack.nodes stack.head none, resultNode.next, stack.size - 1⟩)

/-- The loop of `operator<<` from `nextNode` on; `write` prints one value. -/
def insertNodes (write : T → Bytes) (stack : Stack T) : Nat → Nat → Option Bytes
  | 0, _ => none
  | fuel + 1, nextNode =>
      if nextNode = 0 then some []
      else
        (stack.nodes nextNode).bind fun node =>
          (insertNodes write stack fuel node.next).map fun later =>
            write node.value ++ bytes ", " ++ later

/-- What `operator<<` prints. -/
def insert (write : T → Bytes) (stack : Stack T) (fuel : Nat) : Option Bytes :=
  (insertNodes write stack fuel stack.head).map fun values =>
    bytes "(" ++ bytes (toString stack.size.toInt) ++ bytes ") " ++ values

/-- The cells that are met from an address on. -/
inductive Listed (nodes : Nat → Option (StackNode T)) : Nat → List (Nat × T) → Prop
  | null : Listed nodes 0 []
  | node {address next : Nat} {value : T} {cells : List (Nat × T)} (present : address ≠ 0)
      (found : nodes address = some ⟨value, next⟩) (rest : Listed nodes next cells) :
      Listed nodes address ((address, value) :: cells)

/-- The stack is the list of the cells from its head on, and has no other nodes. -/
structure Holds (stack : Stack T) (cells : List (Nat × T)) : Prop where
  listed : Listed stack.nodes stack.head cells
  distinct : (cells.map Prod.fst).Nodup
  owned : ∀ address, stack.nodes address ≠ none ↔ address ∈ cells.map Prod.fst
  size : stack.size = Int32.ofNat cells.length

section Holds

variable {stack : Stack T} {cells : List (Nat × T)}

/-- A change elsewhere. -/
theorem Listed.update {nodes : Nat → Option (StackNode T)} {head address : Nat}
    (listed : Listed nodes head cells) (elsewhere : address ∉ cells.map Prod.fst)
    (node : Option (StackNode T)) : Listed (Function.update nodes address node) head cells := by
  induction listed with
  | null => exact .null
  | @node other next value cells present found _ ih =>
      rw [List.map_cons, List.mem_cons, not_or] at elsewhere
      apply Listed.node present _ (ih elsewhere.2)
      rw [Function.update_of_ne (Ne.symm elsewhere.1)]
      exact found

theorem empty_holds : (empty : Stack T).Holds [] :=
  ⟨.null, List.nodup_nil, fun _ => by simp [empty], rfl⟩

theorem Holds.push (holds : stack.Holds cells) (newValue : T) {newNode : Nat}
    (present : newNode ≠ 0) (fresh : stack.nodes newNode = none) :
    (stack.push newValue newNode).Holds ((newNode, newValue) :: cells) := by
  have elsewhere : newNode ∉ cells.map Prod.fst :=
    fun member => (holds.owned newNode).mpr member fresh
  refine ⟨?_, ?_, ?_, ?_⟩
  · exact .node present (Function.update_self ..) (holds.listed.update elsewhere _)
  · exact List.nodup_cons.mpr ⟨elsewhere, holds.distinct⟩
  · intro address
    rw [List.map_cons, List.mem_cons, ← holds.owned]
    by_cases here : address = newNode
    · subst here
      simp [Stack.push]
    · simp [Stack.push, here]
  · rw [Stack.push, holds.size, List.length_cons, Int32.ofNat_add]
    rfl

theorem Holds.pop_empty (holds : stack.Holds []) :
    stack.pop = some (.error (bytes "Stack::pop"), stack) := by
  have null : stack.head = 0 := by
    have listed := holds.listed
    generalize stack.head = head at listed
    cases listed
    rfl
  rw [pop, if_pos null]

/-- The newest value is returned, and its node deleted. -/
theorem Holds.pop {cell : Nat × T} (holds : stack.Holds (cell :: cells)) :
    ∃ next, stack.pop = some (.ok cell.2, next) ∧ next.Holds cells := by
  obtain ⟨address, value⟩ := cell
  have listed := holds.listed
  obtain ⟨apart, distinct⟩ := List.nodup_cons.mp holds.distinct
  have size := holds.size
  have owned := holds.owned
  obtain ⟨nodes, head, counted⟩ := stack
  cases listed with
  | @node _ next _ _ present found rest =>
      dsimp only at present found rest apart
      refine ⟨⟨Function.update nodes head none, next, counted - 1⟩, ?_,
        ⟨rest.update apart none, distinct, ?_, ?_⟩⟩
      · simp [Stack.pop, present, found]
      · intro other
        dsimp only at owned ⊢
        by_cases here : other = head
        · subst here
          simpa using apart
        · rw [Function.update_of_ne here, owned, List.map_cons, List.mem_cons]
          simp [here]
      · dsimp only at size ⊢
        rw [size, List.length_cons, Int32.ofNat_add]
        exact Int32.add_sub_cancel ..

theorem insertNodes_converges (write : T → Bytes) {nextNode : Nat}
    (listed : Listed stack.nodes nextNode cells) :
    Converges (fun fuel => insertNodes write stack fuel nextNode)
      (cells.flatMap fun cell => write cell.2 ++ bytes ", ") := by
  induction listed with
  | null => exact ⟨1, rfl⟩
  | @node address next value cells present found _ ih =>
      obtain ⟨fuel, later⟩ := ih
      refine ⟨fuel + 1, ?_⟩
      simp only at later
      simp only [insertNodes, if_neg present, found, Option.bind_some, later, Option.map_some,
        List.flatMap_cons]

theorem Holds.insert (write : T → Bytes) (holds : stack.Holds cells) :
    Converges (stack.insert write)
      (bytes "(" ++ bytes (toString stack.size.toInt) ++ bytes ") " ++
        cells.flatMap fun cell => write cell.2 ++ bytes ", ") := by
  obtain ⟨fuel, printed⟩ := insertNodes_converges write holds.listed
  refine ⟨fuel, ?_⟩
  simp only at printed
  rw [Stack.insert, printed, Option.map_some]

end Holds

/-! ## Sequences of calls -/

inductive Call (T : Type)
  /-- The value, and where its node is allocated. -/
  | push (value : T) (newNode : Nat)
  | pop

/-- A stack, with the results of `pop`. -/
structure Session (T : Type) where
  stack : Stack T
  results : List (Except Bytes T)

/-- What a stack is for: a list that is changed at its front. -/
structure Pile (T : Type) where
  values : List T
  results : List (Except Bytes T)

namespace Pile

def step (pile : Pile T) : Call T → Pile T
  | .push value _ => { pile with values := value :: pile.values }
  | .pop =>
      match pile.values with
      | [] => { pile with results := pile.results ++ [.error (bytes "Stack::pop")] }
      | value :: values => ⟨values, pile.results ++ [.ok value]⟩

def after (calls : List (Call T)) : Pile T :=
  calls.foldl step ⟨[], []⟩

end Pile

/-- Every value that is pushed is popped later, and nothing else is. -/
inductive Balanced : List (Call T) → Prop
  | nil : Balanced []
  | nest {value : T} {newNode : Nat} {inner later : List (Call T)} (inside : Balanced inner)
      (behind : Balanced later) : Balanced (.push value newNode :: inner ++ .pop :: later)

theorem Balanced.values_foldl {calls : List (Call T)} (balanced : Balanced calls)
    (pile : Pile T) : (calls.foldl Pile.step pile).values = pile.values := by
  induction balanced generalizing pile with
  | nil => rfl
  | @nest value newNode inner later _ _ insideIH behindIH =>
      have popped := insideIH (pile.step (.push value newNode))
      rw [List.cons_append, List.foldl_cons, List.foldl_append, List.foldl_cons, behindIH]
      generalize inner.foldl Pile.step (pile.step (.push value newNode)) = reached at popped
      obtain ⟨values, results⟩ := reached
      cases popped
      rfl

namespace Session

def start : Session T :=
  ⟨empty, []⟩

def step (session : Session T) : Call T → Option (Session T)
  | .push value newNode => some { session with stack := session.stack.push value newNode }
  | .pop =>
      session.stack.pop.map fun (result, stack) => ⟨stack, session.results ++ [result]⟩

/-- `new` gives an address at which there is no node yet. -/
def Fresh (session : Session T) : Call T → Prop
  | .push _ newNode => newNode ≠ 0 ∧ session.stack.nodes newNode = none
  | .pop => True

/-- The stack holds the values of the list in its cells. -/
structure Refines (session : Session T) (pile : Pile T) (cells : List (Nat × T)) : Prop where
  holds : session.stack.Holds cells
  values : cells.map Prod.snd = pile.values
  results : session.results = pile.results

theorem Refines.step {session : Session T} {pile : Pile T} {cells : List (Nat × T)}
    (refines : session.Refines pile cells) {call : Call T} (fresh : session.Fresh call) :
    ∃ next left, session.step call = some next ∧ next.Refines (pile.step call) left := by
  obtain ⟨values, results⟩ := pile
  cases call with
  | push value newNode =>
      refine ⟨_, _, rfl, refines.holds.push value fresh.1 fresh.2, ?_, refines.results⟩
      exact congrArg (value :: ·) refines.values
  | pop =>
      cases cells with
      | nil =>
          have thrown := refines.holds.pop_empty
          refine ⟨_, [], Option.map_eq_some_iff.mpr ⟨_, thrown, rfl⟩, refines.holds, ?_, ?_⟩
          · cases refines.values
            rfl
          · cases refines.values
            exact congrArg (· ++ [_]) refines.results
      | cons cell cells =>
          obtain ⟨stack, taken, holds⟩ := refines.holds.pop
          refine ⟨_, cells, Option.map_eq_some_iff.mpr ⟨_, taken, rfl⟩, holds, ?_, ?_⟩
          · cases refines.values
            rfl
          · cases refines.values
            exact congrArg (· ++ [_]) refines.results

theorem Refines.run {session last : Session T} {pile : Pile T} {cells : List (Nat × T)}
    (refines : session.Refines pile cells) {calls : List (Call T)}
    (run : Run Session.step Fresh session calls last) :
    ∃ left, last.Refines (calls.foldl Pile.step pile) left := by
  induction run generalizing pile cells with
  | nil _ => exact ⟨cells, refines⟩
  | cons fresh steps _ ih =>
      obtain ⟨next, left, taken, refined⟩ := refines.step fresh
      cases steps.symm.trans taken
      exact ih refined

theorem start_refines : (start : Session T).Refines (Pile.after []) [] :=
  ⟨empty_holds, rfl, rfl⟩

/-- What a stack does after the calls. -/
structure LastInFirstOut (calls : List (Call T)) (session : Session T) : Prop where
  results : session.results = (Pile.after calls).results
  /-- The nodes on the heap are those of the list, and no others. -/
  cells : ∃ cells, Listed session.stack.nodes session.stack.head cells ∧
    cells.map Prod.snd = (Pile.after calls).values ∧
    ∀ address, session.stack.nodes address ≠ none ↔ address ∈ cells.map Prod.fst
  /-- The size is an `int`. -/
  printed : ∀ write : T → Bytes, Converges (session.stack.insert write)
    (bytes "(" ++ bytes (toString (Int.bmod (Pile.after calls).values.length (2 ^ 32))) ++
      bytes ") " ++ (Pile.after calls).values.flatMap fun value => write value ++ bytes ", ")
  /-- Balanced calls leave the list as it was. -/
  balanced : ∀ earlier inner, calls = earlier ++ inner → Balanced inner →
    (Pile.after calls).values = (Pile.after earlier).values
  /-- A value comes back after everything that was pushed upon it. -/
  nested : ∀ earlier value newNode inner, calls = earlier ++ .push value newNode :: inner →
    Balanced inner → ∃ stack, session.stack.pop = some (.ok value, stack)
  /-- An empty stack throws and is not changed. -/
  empty : (Pile.after calls).values = [] →
    session.stack.pop = some (.error (bytes "Stack::pop"), session.stack)
  /-- No call follows a pointer to no node. -/
  usable : ∀ call, session.Fresh call → ∃ next, session.step call = some next

section LastInFirstOut

variable {session : Session T} {calls : List (Call T)} {cells : List (Nat × T)}

theorem Refines.printed (refines : session.Refines (Pile.after calls) cells)
    (write : T → Bytes) : Converges (session.stack.insert write)
      (bytes "(" ++ bytes (toString (Int.bmod (Pile.after calls).values.length (2 ^ 32))) ++
        bytes ") " ++ (Pile.after calls).values.flatMap fun value => write value ++ bytes ", ") := by
  have size : session.stack.size.toInt = Int.bmod (Pile.after calls).values.length (2 ^ 32) := by
    rw [refines.holds.size, Int32.toInt_ofNat', ← refines.values, List.length_map]
    rfl
  have printed := refines.holds.insert write
  rw [size] at printed
  rw [← refines.values, List.flatMap_map]
  rwa [← refines.values] at printed

theorem Refines.nested (refines : session.Refines (Pile.after calls) cells)
    {earlier inner : List (Call T)} {value : T} {newNode : Nat}
    (split : calls = earlier ++ .push value newNode :: inner) (balanced : Balanced inner) :
    ∃ stack, session.stack.pop = some (.ok value, stack) := by
  have top : (Pile.after calls).values = value :: (Pile.after earlier).values := by
    rw [split, Pile.after, List.foldl_append, List.foldl_cons, balanced.values_foldl]
    rfl
  have values := refines.values
  rw [top] at values
  cases cells with
  | nil => cases values
  | cons cell cells =>
      obtain ⟨stack, taken, -⟩ := refines.holds.pop
      rw [List.map_cons, List.cons.injEq] at values
      exact ⟨stack, by rw [taken, values.1]⟩

theorem Refines.lastInFirstOut (refines : session.Refines (Pile.after calls) cells) :
    session.LastInFirstOut calls where
  results := refines.results
  cells := ⟨cells, refines.holds.listed, refines.values, refines.holds.owned⟩
  printed := refines.printed
  balanced earlier _ split balanced := by
    rw [split, Pile.after, List.foldl_append]
    exact balanced.values_foldl (Pile.after earlier)
  nested _ _ _ _ split balanced := refines.nested split balanced
  empty none := by
    have values := refines.values
    rw [none, List.map_eq_nil_iff] at values
    have holds := refines.holds
    rw [values] at holds
    exact holds.pop_empty
  usable _ fresh := by
    obtain ⟨next, -, steps, -⟩ := refines.step fresh
    exact ⟨next, steps⟩

/-- A stack is the list that is changed at its front, over every sequence of calls. -/
theorem lastInFirstOut_of_run (run : Run step Fresh start calls session) :
    session.LastInFirstOut calls := by
  obtain ⟨_, refines⟩ := start_refines.run run
  exact refines.lastInFirstOut

theorem lastInFirstOut_reused :
    ∃ session : Session Int, session.results = [.error (bytes "Stack::pop"), .ok 12, .ok 13] ∧
      session.LastInFirstOut
        [.pop, .push 11 1, .push 12 2, .pop, .push 13 2, .pop] := by
  have run : ∃ session : Session Int,
      Run step Fresh start [.pop, .push 11 1, .push 12 2, .pop, .push 13 2, .pop] session ∧
        session.results = [.error (bytes "Stack::pop"), .ok 12, .ok 13] :=
    ⟨_, .cons trivial rfl (.cons ⟨by decide, rfl⟩ rfl (.cons ⟨by decide, rfl⟩ rfl
      (.cons trivial rfl (.cons ⟨by decide, rfl⟩ rfl (.cons trivial rfl (.nil _)))))), rfl⟩
  obtain ⟨session, run, results⟩ := run
  exact ⟨session, results, lastInFirstOut_of_run run⟩

end LastInFirstOut

end Session

end Stack

end Libjaypea
