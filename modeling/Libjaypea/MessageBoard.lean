import Libjaypea.HttpDispatch
import Libjaypea.JsonRoundTrip
import Libjaypea.RecentEntries
import Libjaypea.Transitions

/-!
# The message board

The two routes `/message` of `libjaypea-api.cpp`: a post puts its message in
front of the others, of which the newest hundred are kept, and a get lists them
as a JSON text.
-/

namespace Libjaypea

namespace JsonObject

open Fuelled

/-- What `stringify` writes of a well-formed tree is parsed to the same tree,
whatever lies behind the text. -/
theorem parses_stringify {value : JsonObject} (wellFormed : value.WellFormed) (pretty : Bool)
    {memory : Memory} {str : Nat} (holds : memory.Holds str (stringify pretty 0 value)) :
    Converges (parse memory (new .notype) str)
      (value, value.finish str (stringify pretty 0 value).length) :=
  parses_builds (Renders.builds wellFormed (stringify_renders pretty 0 wellFormed)) holds

theorem wellFormedItems_ofString {texts : List Bytes} (clean : ∀ text ∈ texts, Clean text) :
    WellFormedItems (texts.map ofString) := by
  induction texts with
  | nil => exact trivial
  | cons text texts ih =>
      obtain ⟨here, later⟩ := List.forall_mem_cons.mp clean
      simp only [List.map_cons, WellFormedItems, ofString, WellFormed]
      exact ⟨⟨here, trivial, trivial⟩, ih later⟩

end JsonObject

namespace MessageBoard

open Fuelled Transitions

/-- The newest message comes first. -/
abbrev Messages := List Bytes

def posted : Bytes :=
  bytes "\x7b\"result\":\"Message posted.\"\x7d"

/-- `POST /message`: the answer and the messages after it.  Without a member
`message` a null pointer is followed. -/
def postMessage (messages : Messages) (json : JsonObject) : Option (Bytes × Messages) :=
  (KeyedList.get? json.objectValues (bytes "message")).map fun member =>
    (posted, Recent.push 100 messages member.stringValue)

/-- The object that `GET /message` makes. -/
def result (messages : Messages) : JsonObject :=
  (JsonObject.new .object).setMember (bytes "result")
    ⟨.array, [], [], messages.map JsonObject.ofString⟩

def getMessage (messages : Messages) : Bytes :=
  (result messages).stringify false 0

inductive Action
  | post (json : JsonObject)
  | get

/-- The messages, and the answer to the last request. -/
structure Board where
  messages : Messages
  answer : Bytes

def Board.empty : Board := ⟨[], []⟩

def step (board : Board) : Action → Option Board
  | .post json =>
      (postMessage board.messages json).map fun (answer, messages) => ⟨messages, answer⟩
  | .get => some { board with answer := getMessage board.messages }

/-- The text that a request posts, if any. -/
def Action.text : Action → Option Bytes
  | .post json => (KeyedList.get? json.objectValues (bytes "message")).map JsonObject.stringValue
  | .get => none

/-- The texts that were posted, in the order of the requests. -/
def texts (actions : List Action) : List Bytes :=
  actions.filterMap Action.text

section Runs

variable {board next last : Board} {action : Action} {actions : List Action}

/-- A request that posts a text puts it in front. -/
theorem messages_of_step {arrived : List Bytes} (steps : step board action = some next)
    (before : board.messages = arrived.reverse.take 100) :
    next.messages = (arrived ++ action.text.toList).reverse.take 100 := by
  cases action with
  | get =>
      cases steps
      rw [Action.text, Option.toList_none, List.append_nil]
      exact before
  | post json =>
      obtain ⟨⟨answer, messages⟩, posts, rfl⟩ := Option.map_eq_some_iff.mp steps
      obtain ⟨member, found, same⟩ := Option.map_eq_some_iff.mp posts
      cases same
      rw [Action.text, found, Option.map_some, Option.toList_some, ← Recent.push_reverse, before]

theorem messages_of_steps {arrived : List Bytes}
    (run : Run step anything board actions last)
    (before : board.messages = arrived.reverse.take 100) :
    last.messages = (arrived ++ texts actions).reverse.take 100 := by
  induction run generalizing arrived with
  | nil board =>
      rw [texts, List.filterMap_nil, List.append_nil]
      exact before
  | @cons first next last action actions _ steps _ ih =>
      rw [ih (messages_of_step steps before), List.append_assoc]
      congr 3
      rw [texts, texts, List.filterMap_cons]
      cases action.text <;> rfl

theorem result_wellFormed {messages : Messages} (clean : ∀ text ∈ messages, JsonObject.Clean text) :
    (result messages).WellFormed := by
  have items := JsonObject.wellFormedItems_ofString clean
  have key : JsonObject.Clean (bytes "result") := by decide +kernel
  simp only [result, JsonObject.setMember, JsonObject.new, JsonObject.WellFormed,
    JsonObject.WellFormedMembers, KeyedList.set]
  exact ⟨trivial, trivial, List.nodup_singleton _, key, ⟨trivial, trivial, items⟩, trivial⟩

/-- After any posts, a get is answered with a text that is parsed to the list of
the last hundred of them, the newest first. -/
theorem listed_of_run (run : Run step anything .empty actions board)
    (gets : step board .get = some last)
    (clean : ∀ text ∈ (texts actions).reverse.take 100, JsonObject.Clean text) {memory : Memory}
    {str : Nat} (holds : memory.Holds str last.answer) :
    Converges (JsonObject.parse memory (.new .notype) str)
      (result ((texts actions).reverse.take 100),
        (result ((texts actions).reverse.take 100)).finish str last.answer.length) := by
  have start : Board.empty.messages = ([] : List Bytes).reverse.take 100 := by
    rw [List.reverse_nil, List.take_nil]
    rfl
  have messages : board.messages = (texts actions).reverse.take 100 := messages_of_steps run start
  cases gets
  rw [← messages]
  rw [← messages] at clean
  exact JsonObject.parses_stringify (result_wellFormed clean) false holds

/-- A posted text, as a request body has it. -/
def postOf (text : Bytes) : Action :=
  .post ((JsonObject.new .object).setMember (bytes "message") (.ofString text))

theorem listed_of_run_two : ∃ board last,
    Run step anything .empty [postOf (bytes "a\"b"), postOf (bytes "c")] board ∧
    step board .get = some last ∧
    last.answer = bytes "\x7b\"result\":[\"c\",\"a\\\"b\"]\x7d" ∧
    Converges (JsonObject.parse (Memory.ofString (fun _ => 0) last.answer) (.new .notype) 1)
      (result [bytes "c", bytes "a\"b"], last.answer.length) := by
  have run : Run step anything .empty [postOf (bytes "a\"b"), postOf (bytes "c")]
      ⟨[bytes "c", bytes "a\"b"], posted⟩ := run_of_exec rfl
  refine ⟨_, _, run, rfl, by decide +kernel, ?_⟩
  have clean : ∀ text ∈ (texts [postOf (bytes "a\"b"), postOf (bytes "c")]).reverse.take 100,
      JsonObject.Clean text := by
    decide +kernel
  exact listed_of_run run rfl clean (Memory.holds_append.mp (Memory.ofString_holds _ _)).1

end Runs

end MessageBoard

end Libjaypea
