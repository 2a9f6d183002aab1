import Libjaypea.CString
import Libjaypea.DoublyLinked
import Libjaypea.Fuelled
import Libjaypea.Transitions

/-!
# The queue

`Queue` keeps its values in doubly linked nodes on the heap.  A value is put in
at the head and taken out at the tail, so that a node links on to those that
were put in before it.  The null pointer is address zero; an operation is
`none` where a pointer to no node would be followed.
-/

namespace Libjaypea

open DoublyLinked

abbrev QueueNode (T : Type) := Node Nat T

structure Queue (T : Type) where
  /-- The nodes of the queue on the heap. -/
  nodes : Heap Nat T
  head : Nat
  tail : Nat
  size : Int32

namespace Queue

variable {T : Type}

def empty : Queue T :=
  ⟨fun _ => none, 0, 0, 0⟩

/-- `newNode` is where `new` puts the node. -/
def enqueue (queue : Queue T) (newValue : T) (newNode : Nat) : Option (Queue T) := do
  let nodes := Function.update queue.nodes newNode (some ⟨newValue, 0, 0⟩)
  let nodes ← setNext nodes newNode queue.head
  let node ← nodes newNode
  let nodes ← (if node.next ≠ 0 then setPrev nodes node.next newNode else some nodes)
  let tail := if queue.tail = 0 then newNode else queue.tail
  some ⟨nodes, newNode, tail, queue.size + 1⟩

/-- The branches of `dequeue` that take the node at the tail out of the list. -/
def unlinkTail (queue : Queue T) : Option (Queue T) := do
  let node ← queue.nodes queue.tail
  if node.prev = 0 then
    some { queue with head := 0, tail := 0 }
  else
    let nodes ← setNext queue.nodes node.prev 0
    let node ← nodes queue.tail
    some { queue with nodes := nodes, tail := node.prev }

def dequeue (queue : Queue T) : Option (Except Bytes T × Queue T) :=
  if queue.tail = 0 then
    some (.error (bytes "Queue::dequeue"), queue)
  else do
    let unlinked ← queue.unlinkTail
    let result ← unlinked.nodes queue.tail
    some (.ok result.value,
      { unlinked with
        nodes := Function.update unlinked.nodes queue.tail none
        size := unlinked.size - 1 })

/-- The loop of `operator<<` from `nextNode` on; `write` prints one value. -/
def insertNodes (write : T → Bytes) (queue : Queue T) : Nat → Nat → Option Bytes
  | 0, _ => none
  | fuel + 1, nextNode =>
      if nextNode = 0 then some []
      else do
        let node ← queue.nodes nextNode
        let later ← insertNodes write queue fuel node.next
        some (write node.value ++ bytes ", " ++ later)

/-- What `operator<<` prints. -/
def insert (write : T → Bytes) (queue : Queue T) (fuel : Nat) : Option Bytes :=
  (insertNodes write queue fuel queue.head).map fun values =>
    bytes "(" ++ bytes (toString queue.size.toInt) ++ bytes ") " ++ values

/-- The queue is the chain of the cells from its head to its tail, and has no
other nodes. -/
structure Holds (queue : Queue T) (cells : List (Cell Nat T)) : Prop where
  chain : Chain queue.nodes 0 cells
  head : queue.head = first cells 0
  tail : queue.tail = last 0 cells
  owned : ∀ address, queue.nodes address ≠ none → address ∈ cells.map Prod.fst

theorem empty_holds : (empty : Queue T).Holds [] :=
  ⟨chain_nil _ _, rfl, rfl, fun _ allocated => absurd rfl allocated⟩

theorem Holds.tail_eq_zero_iff {queue : Queue T} {cells : List (Cell Nat T)}
    (holds : queue.Holds cells) : queue.tail = 0 ↔ cells = [] := by
  rw [holds.tail]
  exact last_eq_iff holds.chain.present

theorem Holds.tail_append {queue : Queue T} {front : List (Cell Nat T)} {final : Cell Nat T}
    (holds : queue.Holds (front ++ [final])) : queue.tail = final.1 := by
  rw [holds.tail, last_append]
  rfl

theorem Holds.enqueue {queue : Queue T} {cells : List (Cell Nat T)} (holds : queue.Holds cells)
    (newValue : T) {newNode : Nat} (present : newNode ≠ 0) (fresh : queue.nodes newNode = none) :
    ∃ next, queue.enqueue newValue newNode = some next ∧
      next.Holds ((newNode, newValue) :: cells) ∧ next.size = queue.size + 1 := by
  have elsewhere : newNode ∉ cells.map Prod.fst := fun member =>
    holds.chain.linked.allocated member fresh
  let added := Function.update queue.nodes newNode (some ⟨newValue, 0, queue.head⟩)
  have created : setNext (Function.update queue.nodes newNode (some ⟨newValue, 0, 0⟩)) newNode
      queue.head = some added := by
    simp [setNext, added]
  have here : added newNode = some ⟨newValue, 0, queue.head⟩ := Function.update_self ..
  have chain : Chain added 0 cells :=
    ⟨holds.chain.linked.update elsewhere _, holds.chain.distinct, holds.chain.present⟩
  obtain ⟨nodes, changed, linked, kept⟩ := chain.linkBack newNode
  rw [← holds.head] at changed
  refine ⟨⟨nodes, newNode, if queue.tail = 0 then newNode else queue.tail, queue.size + 1⟩, ?_,
    ⟨?_, rfl, ?_, ?_⟩, rfl⟩
  · simp only [Queue.enqueue, created, here, changed, Option.bind_eq_bind, Option.bind_some]
  · apply chain.cons newValue present elsewhere _ linked
    rw [kept newNode elsewhere, here, holds.head]
  · -- The tail moves only where the queue was empty.
    cases cells with
    | nil => exact if_pos holds.tail
    | cons cell rest =>
        have occupied : queue.tail ≠ 0 := fun zero => by
          cases holds.tail_eq_zero_iff.mp zero
        exact (if_neg occupied).trans holds.tail
  · intro address allocated
    by_cases member : address ∈ cells.map Prod.fst
    · exact List.mem_cons_of_mem _ member
    · have unchanged : added address ≠ none := by
        rw [← kept address member]
        exact allocated
      by_cases same : address = newNode
      · rw [same]
        exact List.mem_cons_self
      · have old : added address = queue.nodes address := Function.update_of_ne same ..
        exact absurd (holds.owned address (old ▸ unchanged)) member

theorem Holds.dequeue_empty {queue : Queue T} (holds : queue.Holds []) :
    queue.dequeue = some (.error (bytes "Queue::dequeue"), queue) :=
  if_pos holds.tail

/-- The node at the tail is out of the chain, but still allocated. -/
theorem Holds.unlinkTail {queue : Queue T} {front : List (Cell Nat T)} {final : Cell Nat T}
    (holds : queue.Holds (front ++ [final])) :
    ∃ unlinked node, queue.unlinkTail = some unlinked ∧
      unlinked.nodes queue.tail = some node ∧ node.value = final.2 ∧
      unlinked.size = queue.size ∧ unlinked.head = first front 0 ∧
      unlinked.tail = last 0 front ∧
      Chain (Function.update unlinked.nodes queue.tail none) 0 front ∧
      ∀ other, other ∉ front.map Prod.fst → unlinked.nodes other = queue.nodes other := by
  have tail := holds.tail_append
  have found := (linked_append.mp holds.chain.linked).2.1
  rw [← tail] at found
  rcases List.eq_nil_or_concat front with rfl | ⟨front, cell, rfl⟩
  · refine ⟨{ queue with head := 0, tail := 0 }, _, ?_, found, rfl, rfl, rfl, rfl,
      chain_nil _ _, fun _ _ => rfl⟩
    simp only [Queue.unlinkTail, found, Option.bind_eq_bind, Option.bind_some]
    rfl
  · rw [List.concat_eq_append] at holds found ⊢
    obtain ⟨nodes, linkedOn, chain, same, kept⟩ := holds.chain.dropLast
    have present : cell.1 ≠ 0 := by
      intro zero
      apply holds.chain.present
      simp [zero]
    rw [last_append] at found
    rw [← tail] at same chain
    refine ⟨{ queue with nodes := nodes, tail := cell.1 }, _, ?_, same, rfl, rfl, ?_, ?_, chain,
      kept⟩
    · simp only [Queue.unlinkTail, found, last, linkedOn, same, if_neg present,
        Option.bind_eq_bind, Option.bind_some]
    · rw [first_append]
      exact holds.head.trans (by rw [first_append, first_append]; rfl)
    · rw [last_append]
      rfl

theorem Holds.dequeue {queue : Queue T} {front : List (Cell Nat T)} {final : Cell Nat T}
    (holds : queue.Holds (front ++ [final])) :
    ∃ next, queue.dequeue = some (.ok final.2, next) ∧ next.Holds front ∧
      next.size = queue.size - 1 := by
  obtain ⟨unlinked, node, taken, found, value, size, head, tail, chain, kept⟩ := holds.unlinkTail
  have occupied : queue.tail ≠ 0 := by
    rw [Ne, holds.tail_eq_zero_iff]
    exact List.append_ne_nil_of_right_ne_nil _ (List.cons_ne_nil _ _)
  refine ⟨{ unlinked with
      nodes := Function.update unlinked.nodes queue.tail none
      size := unlinked.size - 1 }, ?_, ⟨chain, head, tail, ?_⟩, ?_⟩
  · simp only [Queue.dequeue, if_neg occupied, taken, found, value, Option.bind_eq_bind,
      Option.bind_some]
  · intro address allocated
    by_contra member
    by_cases same : address = queue.tail
    · rw [same] at allocated
      exact allocated (Function.update_self ..)
    · have unchanged : queue.nodes address ≠ none := by
        rw [← kept address member, ← Function.update_of_ne same none unlinked.nodes]
        exact allocated
      have inside := holds.owned address unchanged
      rw [List.map_append, List.mem_append] at inside
      rcases inside with inside | last
      · exact member inside
      · exact same ((List.mem_singleton.mp last).trans holds.tail_append.symm)
  · rw [size]

/-- `operator<<` prints the values from the newest to the oldest. -/
theorem insertNodes_converges (write : T → Bytes) {queue : Queue T} {nextNode : Nat}
    {cells : List (Cell Nat T)} (follows : Follows queue.nodes Node.next 0 nextNode cells) :
    Fuelled.Converges (fun fuel => insertNodes write queue fuel nextNode)
      (cells.flatMap fun cell => write cell.2 ++ bytes ", ") := by
  induction follows with
  | null => exact ⟨1, rfl⟩
  | node present found _ ih =>
      obtain ⟨fuel, later⟩ := ih
      refine ⟨fuel + 1, ?_⟩
      simp only [insertNodes, if_neg present, found, later, Option.bind_eq_bind, Option.bind_some,
        List.flatMap_cons]

theorem Holds.insert (write : T → Bytes) {queue : Queue T} {cells : List (Cell Nat T)}
    (holds : queue.Holds cells) :
    Fuelled.Converges (queue.insert write)
      (bytes "(" ++ bytes (toString queue.size.toInt) ++ bytes ") " ++
        cells.flatMap fun cell => write cell.2 ++ bytes ", ") := by
  have follows := holds.chain.follows_next
  rw [← holds.head] at follows
  obtain ⟨fuel, values⟩ := insertNodes_converges write follows
  exact ⟨fuel, Option.map_eq_some_iff.mpr ⟨_, values, rfl⟩⟩

/-! ## Sequences of calls -/

inductive Call (T : Type)
  /-- The value, and where its node is allocated. -/
  | enqueue (value : T) (newNode : Nat)
  | dequeue

/-- A queue, with the values that were put in and the results of `dequeue`. -/
structure Session (T : Type) where
  queue : Queue T
  enqueued : List T
  results : List (Except Bytes T)

namespace Session

def start : Session T :=
  ⟨empty, [], []⟩

/-- What the successful calls of `dequeue` returned. -/
def returned (session : Session T) : List T :=
  session.results.filterMap Except.toOption

def step (session : Session T) : Call T → Option (Session T)
  | .enqueue value newNode =>
      (session.queue.enqueue value newNode).map fun queue =>
        { session with queue := queue, enqueued := session.enqueued ++ [value] }
  | .dequeue =>
      session.queue.dequeue.map fun (result, queue) =>
        { session with queue := queue, results := session.results ++ [result] }

/-- `new` gives an address at which there is no node yet. -/
def Fresh (session : Session T) : Call T → Prop
  | .enqueue _ newNode => newNode ≠ 0 ∧ session.queue.nodes newNode = none
  | .dequeue => True

/-- The cells hold what was put in and has not been returned, the newest first. -/
structure Keeps (session : Session T) (cells : List (Cell Nat T)) : Prop where
  holds : session.queue.Holds cells
  order : session.enqueued = session.returned ++ (cells.map Prod.snd).reverse
  size : session.queue.size = Int32.ofNat cells.length

theorem start_keeps : (start : Session T).Keeps [] :=
  ⟨empty_holds, rfl, rfl⟩

theorem Keeps.enqueue {session : Session T} {cells : List (Cell Nat T)}
    (keeps : session.Keeps cells) {value : T} {newNode : Nat}
    (fresh : session.Fresh (.enqueue value newNode)) :
    ∃ next, session.step (.enqueue value newNode) = some next ∧
      next.Keeps ((newNode, value) :: cells) := by
  obtain ⟨queue, added, holds, size⟩ := keeps.holds.enqueue value fresh.1 fresh.2
  refine ⟨_, Option.map_eq_some_iff.mpr ⟨queue, added, rfl⟩, ⟨holds, ?_, ?_⟩⟩
  · simp [keeps.order, returned]
  · rw [size, keeps.size, List.length_cons, Int32.ofNat_add]
    rfl

/-- An empty queue is left as it is. -/
theorem Keeps.dequeue_empty {session : Session T} (keeps : session.Keeps []) :
    ∃ next, session.step .dequeue = some next ∧ next.Keeps [] := by
  have thrown := keeps.holds.dequeue_empty
  refine ⟨_, Option.map_eq_some_iff.mpr ⟨_, thrown, rfl⟩, ⟨keeps.holds, ?_, keeps.size⟩⟩
  simp [keeps.order, returned, Except.toOption]

/-- The oldest value is returned. -/
theorem Keeps.dequeue {session : Session T} {front : List (Cell Nat T)} {final : Cell Nat T}
    (keeps : session.Keeps (front ++ [final])) :
    ∃ next, session.step .dequeue = some next ∧ next.Keeps front := by
  obtain ⟨queue, taken, holds, size⟩ := keeps.holds.dequeue
  refine ⟨_, Option.map_eq_some_iff.mpr ⟨_, taken, rfl⟩, ⟨holds, ?_, ?_⟩⟩
  · simp [keeps.order, returned, Except.toOption]
  · rw [size, keeps.size, List.length_append, List.length_singleton, Int32.ofNat_add]
    exact Int32.add_sub_cancel ..

theorem Keeps.step {session : Session T} {cells : List (Cell Nat T)}
    (keeps : session.Keeps cells) {call : Call T} (fresh : session.Fresh call) :
    ∃ next left, session.step call = some next ∧ next.Keeps left := by
  cases call with
  | enqueue value newNode =>
      obtain ⟨next, added, kept⟩ := keeps.enqueue fresh
      exact ⟨next, _, added, kept⟩
  | dequeue =>
      rcases List.eq_nil_or_concat cells with rfl | ⟨front, final, rfl⟩
      · obtain ⟨next, thrown, kept⟩ := keeps.dequeue_empty
        exact ⟨next, _, thrown, kept⟩
      · rw [List.concat_eq_append] at keeps
        obtain ⟨next, taken, kept⟩ := keeps.dequeue
        exact ⟨next, _, taken, kept⟩

theorem exists_keeps {calls : List (Call T)} {session : Session T}
    (run : Transitions.Run step Fresh start calls session) : ∃ cells, session.Keeps cells := by
  have preserved : ∀ (first : Session T) call next, (∃ cells, first.Keeps cells) →
      first.Fresh call → first.step call = some next → ∃ cells, next.Keeps cells := by
    rintro first call next ⟨cells, keeps⟩ fresh steps
    obtain ⟨other, left, taken, kept⟩ := keeps.step fresh
    cases steps.symm.trans taken
    exact ⟨left, kept⟩
  exact run.invariant preserved ⟨[], start_keeps⟩

/-- What a queue does, whatever was called before. -/
structure FirstInFirstOut (session : Session T) : Prop where
  /-- The values are returned in the order in which they were put in. -/
  inOrder : session.returned <+: session.enqueued
  /-- The size is the number of values that are waiting, as an `int`. -/
  counted : session.queue.size.toInt =
    Int.bmod (session.enqueued.length - session.returned.length) (2 ^ 32)
  uncut : session.enqueued.length < session.returned.length + 2 ^ 31 →
    session.queue.size.toInt = session.enqueued.length - session.returned.length
  /-- Both lists of nodes end in null, and one is the reverse of the other. -/
  reversed : ∃ cells,
    Follows session.queue.nodes Node.next 0 session.queue.head cells ∧
      Follows session.queue.nodes Node.prev 0 session.queue.tail cells.reverse ∧
      session.enqueued = session.returned ++ (cells.map Prod.snd).reverse
  /-- An empty queue throws and is not changed. -/
  empty : session.enqueued = session.returned →
    session.queue.dequeue = some (.error (bytes "Queue::dequeue"), session.queue)
  oldest : ∀ value later, session.enqueued = session.returned ++ value :: later →
    ∃ queue, session.queue.dequeue = some (.ok value, queue)
  /-- No call follows a pointer to no node. -/
  usable : ∀ call, session.Fresh call → ∃ next, session.step call = some next

theorem Keeps.inOrder {session : Session T} {cells : List (Cell Nat T)}
    (keeps : session.Keeps cells) : session.returned <+: session.enqueued :=
  ⟨_, keeps.order.symm⟩

theorem Keeps.length_cells {session : Session T} {cells : List (Cell Nat T)}
    (keeps : session.Keeps cells) :
    session.enqueued.length = session.returned.length + cells.length := by
  simp [keeps.order]

/-- The first of the values that are waiting is at the tail. -/
theorem Keeps.dequeue_oldest {session : Session T} {cells : List (Cell Nat T)}
    (keeps : session.Keeps cells) {value : T} {later : List T}
    (waiting : session.enqueued = session.returned ++ value :: later) :
    ∃ queue, session.queue.dequeue = some (.ok value, queue) := by
  have reversed : value :: later = (cells.map Prod.snd).reverse :=
    List.append_cancel_left (waiting.symm.trans keeps.order)
  rcases List.eq_nil_or_concat cells with rfl | ⟨front, final, rfl⟩
  · cases reversed
  · rw [List.concat_eq_append] at keeps reversed
    obtain ⟨queue, taken, -, -⟩ := keeps.holds.dequeue
    simp only [List.map_append, List.reverse_append, List.map_cons, List.map_nil,
      List.reverse_singleton, List.singleton_append, List.cons.injEq] at reversed
    rw [reversed.1]
    exact ⟨queue, taken⟩

theorem Keeps.eq_nil {session : Session T} {cells : List (Cell Nat T)}
    (keeps : session.Keeps cells) (all : session.enqueued = session.returned) : cells = [] := by
  have length := keeps.length_cells
  rw [all] at length
  apply List.length_eq_zero_iff.mp
  omega

theorem Keeps.firstInFirstOut {session : Session T} {cells : List (Cell Nat T)}
    (keeps : session.Keeps cells) : session.FirstInFirstOut where
  inOrder := keeps.inOrder
  counted := by
    have length := keeps.length_cells
    have difference : (session.enqueued.length - session.returned.length : Int) = cells.length := by
      omega
    rw [keeps.size, Int32.toInt_ofNat', difference]
    rfl
  uncut small := by
    have length := keeps.length_cells
    rw [keeps.size, Int32.toInt_ofNat_of_lt (by omega)]
    omega
  reversed := by
    have chain := keeps.holds.chain
    refine ⟨cells, ?_, ?_, keeps.order⟩
    · rw [keeps.holds.head]
      exact chain.follows_next
    · rw [keeps.holds.tail]
      exact chain.follows_prev
  empty all := by
    rw [keeps.eq_nil all] at keeps
    exact keeps.holds.dequeue_empty
  oldest _ _ waiting := keeps.dequeue_oldest waiting
  usable call fresh := by
    obtain ⟨next, -, steps, -⟩ := keeps.step fresh
    exact ⟨next, steps⟩

/-- A queue returns its values in order over every sequence of calls. -/
theorem firstInFirstOut_of_run {calls : List (Call T)} {session : Session T}
    (run : Transitions.Run step Fresh start calls session) : session.FirstInFirstOut := by
  obtain ⟨cells, keeps⟩ := exists_keeps run
  exact keeps.firstInFirstOut

/-- Values that are put in one after another. -/
theorem run_enqueues (value : T) (count : Nat) :
    ∃ session cells,
      Transitions.Run step Fresh start
        ((List.range count).map fun index => .enqueue value (index + 1)) session ∧
      session.Keeps cells ∧ cells.length = count ∧ session.returned = [] ∧
      ∀ address ∈ cells.map Prod.fst, address ≤ count := by
  induction count with
  | zero => exact ⟨start, [], .nil _, start_keeps, rfl, rfl, by simp⟩
  | succ count ih =>
      obtain ⟨session, cells, run, keeps, length, none, addresses⟩ := ih
      have fresh : session.Fresh (.enqueue value (count + 1)) := by
        refine ⟨Nat.succ_ne_zero count, ?_⟩
        by_contra allocated
        have small := addresses _ (keeps.holds.owned _ allocated)
        omega
      obtain ⟨next, added, kept⟩ := keeps.enqueue fresh
      obtain ⟨queue, -, rfl⟩ := Option.map_eq_some_iff.mp added
      refine ⟨_, _, ?_, kept, by rw [List.length_cons, length], none, ?_⟩
      · rw [List.range_succ, List.map_append]
        exact run.append (.single fresh added)
      · intro address member
        rcases List.mem_cons.mp member with rfl | old
        · exact Nat.le_refl _
        · exact Nat.le_succ_of_le (addresses address old)

theorem firstInFirstOut_reused :
    ∃ session : Session Int, session.returned = [11, 12] ∧ session.FirstInFirstOut := by
  have run : ∃ session : Session Int,
      Transitions.Run step Fresh start
        [.dequeue, .enqueue 11 1, .enqueue 12 2, .dequeue, .enqueue 13 1, .dequeue] session ∧
      session.returned = [11, 12] :=
    ⟨_, .cons trivial rfl (.cons ⟨by decide, rfl⟩ rfl (.cons ⟨by decide, rfl⟩ rfl
      (.cons trivial rfl (.cons ⟨by decide, rfl⟩ rfl (.cons trivial rfl (.nil _)))))), rfl⟩
  obtain ⟨session, run, returned⟩ := run
  exact ⟨session, returned, firstInFirstOut_of_run run⟩

/-- The size of a queue with two thousand million values is negative. -/
theorem size_wraps :
    ∃ session : Session Int,
      Transitions.Run step Fresh start
        ((List.range (2 ^ 31)).map fun index => .enqueue 11 (index + 1)) session ∧
      (session.enqueued.length - session.returned.length : Int) = 2 ^ 31 ∧
      session.queue.size.toInt = -2 ^ 31 := by
  obtain ⟨session, cells, run, keeps, length, none, -⟩ := run_enqueues (11 : Int) (2 ^ 31)
  refine ⟨session, run, ?_, ?_⟩
  · have whole := keeps.length_cells
    rw [length, none, List.length_nil, Nat.zero_add] at whole
    rw [whole, none]
    decide
  · rw [keeps.size, length, Int32.toInt_ofNat']
    decide

end Session

end Queue

end Libjaypea
