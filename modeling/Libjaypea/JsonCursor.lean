import Libjaypea.JsonParseRun

/-!
# The cursor of the JSON parser

The values that the cursor of a call of `JsonObject::parse` takes: at the head
of the loop, in its body, in the calls nested in it, and on return.  The run of
a call depends on the memory only where its cursor goes.
-/

namespace Libjaypea

namespace JsonObject

open Fuelled

/-- The loop of `parse`, entered in a state, or a call nested in it, sets its cursor to a value. -/
inductive Visits (memory : Memory) : ParseState → Nat → Prop
  | head (state : ParseState) : Visits memory state state.it
  /-- `return --it` at the terminator. -/
  | back {state : ParseState} (terminator : memory state.it = 0) :
      Visits memory state (state.it - 1)
  /-- Where the body of the loop leaves the cursor: an escape has moved it. -/
  | body {state after : ParseState} (inside : memory state.it ≠ 0)
      (action : parseAction memory state = .next after) : Visits memory state after.it
  | next {state after : ParseState} {cursor : Nat} (inside : memory state.it ≠ 0)
      (action : parseAction memory state = .next after)
      (later : Visits memory after.advance cursor) : Visits memory state cursor
  | done {state : ParseState} {this : JsonObject} {it : Nat} (inside : memory state.it ≠ 0)
      (action : parseAction memory state = .done this it) : Visits memory state it
  | call {state : ParseState} {resume : JsonObject → Nat → ParseState} {cursor : Nat}
      (inside : memory state.it ≠ 0) (action : parseAction memory state = .nested resume)
      (inner : Visits memory (.start (new .notype) state.it) cursor) :
      Visits memory state cursor
  /-- Where the caller leaves the cursor after `it = value->parse(it)`. -/
  | returned {state : ParseState} {resume : JsonObject → Nat → ParseState} {value : JsonObject}
      {it : Nat} (inside : memory state.it ≠ 0)
      (action : parseAction memory state = .nested resume)
      (inner : Parses memory (.start (new .notype) state.it) (value, it)) :
      Visits memory state (resume value it).it
  | resumed {state : ParseState} {resume : JsonObject → Nat → ParseState} {value : JsonObject}
      {it cursor : Nat} (inside : memory state.it ≠ 0)
      (action : parseAction memory state = .nested resume)
      (inner : Parses memory (.start (new .notype) state.it) (value, it))
      (later : Visits memory (resume value it).advance cursor) : Visits memory state cursor

section Collect

variable (state : ParseState) (byte : UInt8)

@[simp]
theorem ParseState.collect_it : (state.collect byte).it = state.it := by
  simp only [collect]
  split <;> rfl

@[simp]
theorem ParseState.collect_this : (state.collect byte).this = state.this := by
  simp only [collect]
  split <;> rfl

@[simp]
theorem ParseState.collect_objState : (state.collect byte).objState = state.objState := by
  simp only [collect]
  split <;> rfl

end Collect

section Agreement

variable {memory other : Memory} {state : ParseState}

/-- A backslash moves the cursor onto the byte behind it, whatever that is. -/
theorem exists_parseAction_backslash (backslash : memory state.it = ch '\\') :
    ∃ after, parseAction memory state = .next after ∧ after.it = state.it + 1 ∧
      after.this = state.this ∧ after.objState = state.objState := by
  by_cases dropped : memory (state.it + 1) ∈ bytes "nrt"
  · exact ⟨_, parseAction_escape_dropped state backslash rfl dropped, rfl, rfl, rfl⟩
  · exact ⟨_, parseAction_escape state backslash rfl dropped, by simp, by simp, by simp⟩

/-- A pass looks at the byte under the cursor, and at the next one behind a backslash. -/
theorem parseAction_agree (here : other state.it = memory state.it)
    (escaped : memory state.it = ch '\\' → other (state.it + 1) = memory (state.it + 1)) :
    parseAction other state = parseAction memory state := by
  by_cases backslash : memory state.it = ch '\\'
  · simp only [parseAction, here, escaped backslash]
  · simp only [parseAction, here, backslash, if_false]

theorem parseLoop_agree {fuel : Nat}
    (agree : ∀ cursor, Visits memory state cursor → other cursor = memory cursor) :
    parseLoop other fuel state = parseLoop memory fuel state := by
  induction fuel generalizing state with
  | zero => rfl
  | succ fuel ih =>
      have here : other state.it = memory state.it := agree _ (.head state)
      simp only [parseLoop_succ, here]
      by_cases terminator : memory state.it = 0
      · simp only [terminator, if_true]
      · have sameAction : parseAction other state = parseAction memory state := by
          apply parseAction_agree here
          intro backslash
          obtain ⟨after, action, cursor, -⟩ := exists_parseAction_backslash backslash
          exact cursor ▸ agree _ (.body terminator action)
        simp only [terminator, if_false, sameAction]
        cases action : parseAction memory state with
        | next after => exact ih fun cursor later => agree cursor (.next terminator action later)
        | done this it => rfl
        | nested resume =>
            have inner : parseLoop other fuel (.start (new .notype) state.it) =
                parseLoop memory fuel (.start (new .notype) state.it) :=
              ih fun cursor inside => agree cursor (.call terminator action inside)
            simp only [inner]
            apply Option.bind_congr
            intro result answer
            exact ih fun cursor later =>
              agree cursor (.resumed terminator action ⟨fuel, answer⟩ later)

end Agreement

end JsonObject

end Libjaypea
