import Libjaypea.JsonCursor
import Libjaypea.JsonRoundTrip
import Libjaypea.JsonScanner

/-!
# Termination of the JSON parser

A nested call that reaches the end of the text returns the position in front
of the terminator, and a caller that reads an array string or a member value
steps back once more, so the last byte of a truncated text may be read again.
Each loop is compared with the scanner.  There are two ways to go wrong on a
text whose value is still open at its end.  A quote that is read again is taken
for the start of another element, forever.  A backslash at the end, read there
or read again, moves the cursor behind the terminator.
-/

namespace Libjaypea

namespace JsonObject

open Fuelled

def ParseState.context (state : ParseState) : Context :=
  match state.this.type with
  | .notype => .blank
  | .string => .string
  | .array => .array
  | .object =>
      match state.objState with
      | .noState => .beforeKey
      | .getKey | .getValue => .key
      | .gotKey => .afterKey

@[simp]
theorem ParseState.type_context (state : ParseState) : state.context.type = state.this.type := by
  unfold ParseState.context
  cases state.this.type <;> cases state.objState <;> rfl

/-- Only objects leave the initial state, and `GETVALUE` is never assigned. -/
def ParseState.Regular (state : ParseState) : Prop :=
  state.objState = .noState ∨ (state.this.type = .object ∧ state.objState ≠ .getValue)

@[simp]
theorem ParseState.context_advance (state : ParseState) : state.advance.context = state.context :=
  rfl

/-- A loop of `parse` that has `rest` in front of it, up to the terminator at `stop`. -/
structure Reading (memory : Memory) (stop : Nat) (state : ParseState) (rest : Bytes) : Prop where
  positive : 0 < state.it
  cursor : state.it + rest.length = stop
  holds : memory.Holds state.it (rest ++ [0])
  nonzero : 0 ∉ rest
  regular : state.Regular

/-- The value is complete after `used`; the loop returns there. -/
def Closes (memory : Memory) (state : ParseState) (rest : Bytes) : Prop :=
  ∃ used later value, rest = used ++ later ∧ used ≠ [] ∧
    (∀ below, Context.SameEnd (state.context :: below) rest below later) ∧
    value.type ≠ .notype ∧
    (state.this.type ≠ .notype → value.type = state.this.type) ∧
    Parses memory state (value, value.finish state.it used.length)

/-- The value is still open at the terminator; the loop returns the position
in front of it unless a backslash hides the terminator or the loop is stuck. -/
structure Stays (memory : Memory) (stop : Nat) (state : ParseState) (rest : Bytes)
    (upper : List Context) (bottom : Context) : Prop where
  scans : Context.scan [state.context] rest = upper ++ [bottom]
  type : state.this.type ≠ .notype → bottom.type = state.this.type
  plain : bottom.Plain → upper = []
  atEnd : rest = [] → upper = []
  overruns : Overruns [state.context] rest → Visits memory state (stop + 1)
  stuck : Stuck (upper ++ [bottom]) rest → ∀ result, ¬ Parses memory state result
  free : ¬ Overruns [state.context] rest → ¬ Stuck (upper ++ [bottom]) rest →
    ∃ value, value.type = bottom.type ∧ Parses memory state (value, stop - 1)

def Outcome (memory : Memory) (stop : Nat) (state : ParseState) (rest : Bytes) : Prop :=
  Closes memory state rest ∨ ∃ upper bottom, Stays memory stop state rest upper bottom

/-- Where a caller leaves the cursor that a nested call returned. -/
def steppedBack (value : JsonObject) (it : Nat) : Nat :=
  if value.type = .object ∨ value.type = .array then it else it - 1

/-- The current byte begins a value nested in an object or array.  The call for
that value, which reads the byte once more, goes on as `child`. -/
structure Nests (memory : Memory) (state : ParseState) (byte : UInt8)
    (resume : JsonObject → Nat → ParseState) (child : ParseState) (parent : Context) : Prop where
  action : parseAction memory state = .nested resume
  opens : parseAction memory (.start (new .notype) state.it) = .next child
  cursor : child.it = state.it
  regular : child.Regular
  first : Context.blank.read byte = [child.context]
  read : state.context.read byte = [child.context, parent]
  holder : parent = .array ∨ parent = .beforeKey
  typed : parent = .array → child.this.type ≠ .notype
  same : state.this.type = parent.type
  context : ∀ value it, (resume value it).context = parent
  resumed : ∀ value it, (resume value it).Regular
  steps : ∀ {value it}, (child.this.type ≠ .notype → value.type = child.this.type) →
    (resume value it).it = steppedBack value it

/-- How one byte other than a backslash acts, next to how the scanner reads it. -/
inductive Reads (memory : Memory) (state : ParseState) (byte : UInt8) : Prop
  | next (after : ParseState) (action : parseAction memory state = .next after)
      (cursor : after.it = state.it) (regular : after.Regular)
      (type : state.this.type ≠ .notype → after.this.type = state.this.type)
      (read : state.context.read byte = [after.context])
  | done (value : JsonObject)
      (action : parseAction memory state = .done value (value.finish state.it 1))
      (type : value.type = state.this.type) (typed : value.type ≠ .notype)
      (read : state.context.read byte = [])
  | nested {resume : JsonObject → Nat → ParseState} {child : ParseState} {parent : Context}
      (nests : Nests memory state byte resume child parent)

section Reads

variable {memory : Memory} {value : Bytes} {members : List (Bytes × JsonObject)}
  {items : List JsonObject} {ss : Bytes} {it : Nat} {byte : UInt8}

theorem reads_blank (here : memory it = byte) (notBackslash : byte ≠ ch '\\') :
    Reads memory ⟨⟨.notype, value, members, items⟩, ss, .noState, it⟩ byte := by
  by_cases quote : byte = ch '"'
  · exact .next _ (parseAction_quote _ (here.trans quote)) rfl (Or.inl rfl) (by simp)
      (by simp [ParseState.context, Context.read, quote])
  by_cases openBrace : byte = ch '{'
  · exact .next _ (parseAction_openBrace _ (here.trans openBrace)) rfl (Or.inl rfl) (by simp)
      (by simp [ParseState.context, Context.read, openBrace, ch_eq_ch_iff])
  by_cases openBracket : byte = ch '['
  · exact .next _ (parseAction_openBracket _ (here.trans openBracket)) rfl (Or.inl rfl) (by simp)
      (by simp [ParseState.context, Context.read, openBracket, ch_eq_ch_iff])
  · refine .next ⟨⟨.notype, value, members, items⟩, ss, .noState, it⟩ ?_ rfl (Or.inl rfl) (by simp)
      (by simp [ParseState.context, Context.read, quote, openBrace, openBracket])
    simp [parseAction, here, notBackslash, quote, openBrace, openBracket,
      collect_of_not_collecting, ParseState.Collecting]

theorem reads_string (here : memory it = byte) (notBackslash : byte ≠ ch '\\') :
    Reads memory ⟨⟨.string, value, members, items⟩, ss, .noState, it⟩ byte := by
  by_cases quote : byte = ch '"'
  · exact .done ⟨.string, ss, members, items⟩ (parseAction_quote _ (here.trans quote)) rfl (by simp)
      (by simp [ParseState.context, Context.read, quote])
  · exact .next _ (parseAction_collecting _ here (Or.inl rfl) notBackslash quote) rfl (Or.inl rfl)
      (by simp) (by simp [ParseState.context, Context.read, quote])

theorem reads_beforeKey (here : memory it = byte) (notBackslash : byte ≠ ch '\\') :
    Reads memory ⟨⟨.object, value, members, items⟩, ss, .noState, it⟩ byte := by
  by_cases quote : byte = ch '"'
  · exact .next _ (parseAction_quote _ (here.trans quote)) rfl (Or.inr ⟨rfl, by simp⟩) (by simp)
      (by simp [ParseState.context, Context.read, quote])
  by_cases closeBrace : byte = ch '}'
  · exact .done ⟨.object, value, members, items⟩
      ((parseAction_closeBrace _ (here.trans closeBrace)).trans (by simp [finish])) rfl (by simp)
      (by simp [ParseState.context, Context.read, closeBrace, ch_eq_ch_iff])
  by_cases closeBracket : byte = ch ']'
  · exact .done ⟨.object, value, members, items⟩
      ((parseAction_closeBracket _ (here.trans closeBracket)).trans (by simp [finish])) rfl (by simp)
      (by simp [ParseState.context, Context.read, closeBracket, ch_eq_ch_iff])
  · refine .next ⟨⟨.object, value, members, items⟩, ss, .noState, it⟩ ?_ rfl (Or.inl rfl) (by simp)
      (by simp [ParseState.context, Context.read, quote, closeBrace, closeBracket])
    simp [parseAction, here, notBackslash, quote, closeBrace, closeBracket,
      collect_of_not_collecting, ParseState.Collecting]

theorem reads_key (here : memory it = byte) (notBackslash : byte ≠ ch '\\') :
    Reads memory ⟨⟨.object, value, members, items⟩, ss, .getKey, it⟩ byte := by
  by_cases quote : byte = ch '"'
  · exact .next _ (parseAction_quote _ (here.trans quote)) rfl (Or.inr ⟨rfl, by simp⟩) (by simp)
      (by simp [ParseState.context, Context.read, quote])
  · exact .next _ (parseAction_collecting _ here (Or.inr ⟨rfl, rfl⟩) notBackslash quote) rfl
      (Or.inr ⟨rfl, by simp⟩) (by simp) (by simp [ParseState.context, Context.read, quote])

/-- The value of a member of an object; the call reads the colon and goes on. -/
theorem nests_member (here : memory it = byte) (colon : byte = ch ':') :
    Nests memory ⟨⟨.object, value, members, items⟩, ss, .gotKey, it⟩ byte
      (fun child it => ParseState.setMember ⟨⟨.object, value, members, items⟩, ss, .gotKey, it⟩ child
        (if child.type ≠ .object ∧ child.type ≠ .array then it - 1 else it))
      (.start (new .notype) it) .beforeKey where
  action := parseAction_colon _ (here.trans colon)
  opens := (parseAction_colon (.start (new .notype) it) (here.trans colon)).trans (by
    rw [collect_of_not_collecting _ (by simp [ParseState.Collecting])]
    rfl)
  cursor := rfl
  regular := Or.inl rfl
  first := by simp [ParseState.context, Context.read, colon, ch_eq_ch_iff]
  read := by simp [ParseState.context, Context.read, colon]
  holder := Or.inr rfl
  typed := by simp
  same := rfl
  context _ _ := rfl
  resumed _ _ := Or.inl rfl
  steps _ := by simp [ParseState.setMember, steppedBack, ← not_or, ite_not]

/-- A string element of an array; the array steps back behind it. -/
theorem nests_element (here : memory it = byte) (quote : byte = ch '"') :
    Nests memory ⟨⟨.array, value, members, items⟩, ss, .noState, it⟩ byte
      (fun child last => ParseState.pushBack ⟨⟨.array, value, members, items⟩, ss, .noState, it⟩
        child (last - 1))
      (.start (new .string) it) .array where
  action := parseAction_quote _ (here.trans quote)
  opens := parseAction_quote (.start (new .notype) it) (here.trans quote)
  cursor := rfl
  regular := Or.inl rfl
  first := by simp [ParseState.context, Context.read, quote]
  read := by simp [ParseState.context, Context.read, quote]
  holder := Or.inl rfl
  typed := by simp
  same := rfl
  context _ _ := rfl
  resumed _ _ := Or.inl rfl
  steps type := by
    have string := type (by simp)
    simp [steppedBack, string]

/-- An object or array in an array. -/
theorem nests_container {type : JsonType} (here : memory it = byte)
    (bracket : byte = ch '{' ∧ type = .object ∨ byte = ch '[' ∧ type = .array) :
    Nests memory ⟨⟨.array, value, members, items⟩, ss, .noState, it⟩ byte
      (ParseState.pushBack ⟨⟨.array, value, members, items⟩, ss, .noState, it⟩)
      (.start (new type) it) .array where
  action := by
    rcases bracket with ⟨openBrace, -⟩ | ⟨openBracket, -⟩
    · exact parseAction_openBrace _ (here.trans openBrace)
    · exact parseAction_openBracket _ (here.trans openBracket)
  opens := by
    rcases bracket with ⟨openBrace, rfl⟩ | ⟨openBracket, rfl⟩
    · exact parseAction_openBrace (.start (new .notype) it) (here.trans openBrace)
    · exact parseAction_openBracket (.start (new .notype) it) (here.trans openBracket)
  cursor := rfl
  regular := Or.inl rfl
  first := by
    rcases bracket with ⟨rfl, rfl⟩ | ⟨rfl, rfl⟩ <;>
      simp [ParseState.context, ParseState.start, Context.read, ch_eq_ch_iff]
  read := by
    rcases bracket with ⟨rfl, rfl⟩ | ⟨rfl, rfl⟩ <;>
      simp [ParseState.context, ParseState.start, Context.read, ch_eq_ch_iff]
  holder := Or.inl rfl
  typed _ := by rcases bracket with ⟨-, rfl⟩ | ⟨-, rfl⟩ <;> simp
  same := rfl
  context _ _ := rfl
  resumed _ _ := Or.inl rfl
  steps sameType := by
    rcases bracket with ⟨-, rfl⟩ | ⟨-, rfl⟩
    · have object := sameType (by simp)
      simp [steppedBack, object]
    · have array := sameType (by simp)
      simp [steppedBack, array]

theorem reads_afterKey (here : memory it = byte) (notBackslash : byte ≠ ch '\\') :
    Reads memory ⟨⟨.object, value, members, items⟩, ss, .gotKey, it⟩ byte := by
  by_cases colon : byte = ch ':'
  · exact .nested (nests_member here colon)
  by_cases closeBracket : byte = ch ']'
  · exact .done ⟨.object, value, members, items⟩
      ((parseAction_closeBracket _ (here.trans closeBracket)).trans (by simp [finish])) rfl (by simp)
      (by simp [ParseState.context, Context.read, closeBracket, ch_eq_ch_iff])
  · refine .next ⟨⟨.object, value, members, items⟩, ss, .gotKey, it⟩ ?_ rfl
      (Or.inr ⟨rfl, by simp⟩) (by simp)
      (by simp [ParseState.context, Context.read, colon, closeBracket])
    simp [parseAction, here, notBackslash, colon, closeBracket,
      collect_of_not_collecting, ParseState.Collecting]

theorem reads_array (here : memory it = byte) (notBackslash : byte ≠ ch '\\') :
    Reads memory ⟨⟨.array, value, members, items⟩, ss, .noState, it⟩ byte := by
  by_cases quote : byte = ch '"'
  · exact .nested (nests_element here quote)
  by_cases openBrace : byte = ch '{'
  · exact .nested (nests_container here (Or.inl ⟨openBrace, rfl⟩))
  by_cases openBracket : byte = ch '['
  · exact .nested (nests_container here (Or.inr ⟨openBracket, rfl⟩))
  by_cases closeBrace : byte = ch '}'
  · exact .done ⟨.array, value, members, items⟩
      ((parseAction_closeBrace _ (here.trans closeBrace)).trans (by simp [finish])) rfl (by simp)
      (by simp [ParseState.context, Context.read, closeBrace, ch_eq_ch_iff])
  by_cases closeBracket : byte = ch ']'
  · exact .done ⟨.array, value, members, items⟩
      ((parseAction_closeBracket _ (here.trans closeBracket)).trans (by simp [finish])) rfl (by simp)
      (by simp [ParseState.context, Context.read, closeBracket, ch_eq_ch_iff])
  · refine .next ⟨⟨.array, value, members, items⟩, ss, .noState, it⟩ ?_ rfl (Or.inl rfl) (by simp)
      (by simp [ParseState.context, Context.read, quote, openBrace, openBracket, closeBrace,
        closeBracket])
    simp [parseAction, here, notBackslash, quote, openBrace, openBracket, closeBrace,
      closeBracket, collect_of_not_collecting, ParseState.Collecting]

end Reads

theorem reads {memory : Memory} {state : ParseState} {byte : UInt8}
    (here : memory state.it = byte) (notBackslash : byte ≠ ch '\\')
    (regular : state.Regular) : Reads memory state byte := by
  obtain ⟨⟨type, value, members, items⟩, ss, stage, it⟩ := state
  rcases regular with noState | ⟨object, notGetValue⟩
  · obtain rfl : stage = .noState := noState
    cases type with
    | notype => exact reads_blank here notBackslash
    | string => exact reads_string here notBackslash
    | object => exact reads_beforeKey here notBackslash
    | array => exact reads_array here notBackslash
  · obtain rfl : type = .object := object
    cases stage with
    | noState => exact reads_beforeKey here notBackslash
    | getKey => exact reads_key here notBackslash
    | gotKey => exact reads_afterKey here notBackslash
    | getValue => exact (notGetValue rfl).elim

section LastByte

variable {memory : Memory} {stop : Nat} {state : ParseState}

theorem parses_at_terminator (terminator : memory stop = 0) (atStop : state.it = stop) :
    Parses memory state (state.this, stop - 1) :=
  (parses_terminator (atStop ▸ terminator)).mpr (by rw [atStop])

theorem visits_backslash_last (positive : 0 < stop) (backslash : memory (stop - 1) = ch '\\')
    (atLast : state.it = stop - 1) : Visits memory state (stop + 1) := by
  rw [← atLast] at backslash
  obtain ⟨after, action, cursor, -⟩ := exists_parseAction_backslash backslash
  have behind : after.advance.it = stop + 1 := by
    rw [ParseState.advance_it, cursor]
    omega
  exact behind ▸ .next (by rw [backslash]; decide) action (.head after.advance)

/-- A holder that reads the last byte again, and finds no quote in an array and
no backslash, returns to that byte. -/
theorem parses_last (terminator : memory stop = 0) (positive : 0 < stop)
    (inside : memory (stop - 1) ≠ 0) (notBackslash : memory (stop - 1) ≠ ch '\\')
    (regular : state.Regular) (holder : state.context = .array ∨ state.context = .beforeKey)
    (notQuote : state.context = .array → memory (stop - 1) ≠ ch '"')
    (atLast : state.it = stop - 1) :
    ∃ value, value.type = state.this.type ∧ Parses memory state (value, stop - 1) := by
  rw [← atLast] at inside notBackslash notQuote
  have known : state.this.type ≠ .notype := by
    rw [← ParseState.type_context]
    rcases holder with array | beforeKey
    · simp [array, Context.type]
    · simp [beforeKey, Context.type]
  cases reads rfl notBackslash regular with
  | next after action cursor regular type read =>
      have atStop : after.advance.it = stop := by
        rw [ParseState.advance_it, cursor]
        omega
      exact ⟨_, type known, (parses_next inside action).mpr (parses_at_terminator terminator atStop)⟩
  | done value action type typed read =>
      have notString : value.type ≠ .string := by
        rw [type, ← ParseState.type_context]
        rcases holder with array | beforeKey
        · simp [array, Context.type]
        · simp [beforeKey, Context.type]
      have returns : value.finish state.it 1 = stop - 1 := by
        simp [finish, notString, atLast]
      exact ⟨value, type, (parses_done inside action).mpr (by rw [returns])⟩
  | @nested resume child parent nests =>
      have container : child.this.type = .object ∨ child.this.type = .array := by
        have read := nests.read
        rw [← ParseState.type_context]
        rcases holder with array | beforeKey
        · have quote := notQuote array
          rw [array] at read
          simp only [Context.read, quote, if_false] at read
          split_ifs at read with openBrace openBracket
          · exact Or.inl (by rw [← (List.cons.inj read).1]; rfl)
          · exact Or.inr (by rw [← (List.cons.inj read).1]; rfl)
          · simp at read
        · rw [beforeKey] at read
          simp only [Context.read] at read
          split_ifs at read <;> simp at read
      have childAtStop : child.advance.it = stop := by
        rw [ParseState.advance_it, nests.cursor]
        omega
      have inner : Parses memory (.start (new .notype) state.it) (child.this, stop - 1) :=
        (parses_next (by exact inside) nests.opens).mpr (parses_at_terminator terminator childAtStop)
      have atStop : (resume child.this (stop - 1)).advance.it = stop := by
        rw [ParseState.advance_it, nests.steps fun _ => rfl, steppedBack, if_pos container]
        omega
      refine ⟨_, ?_, (parses_nested_of inside nests.action inner).mpr
        (parses_at_terminator terminator atStop)⟩
      rw [ParseState.advance_this, nests.same, ← nests.context child.this (stop - 1),
        ParseState.type_context]

/-- An array that reads a quote as its last byte opens a string there, gets the
position of the quote back, and opens a string there again. -/
theorem not_parses_array_quote (terminator : memory stop = 0) (positive : 1 < stop)
    (quote : memory (stop - 1) = ch '"') {state : ParseState} (array : state.this.type = .array)
    (atLast : state.it = stop - 1) {result : JsonObject × Nat} :
    ¬ Parses memory state result := by
  rintro ⟨fuel, answer⟩
  induction fuel generalizing state with
  | zero => simp [parseLoop] at answer
  | succ fuel ih =>
      have here : memory state.it = ch '"' := atLast ▸ quote
      have action := parseAction_quote state here
      simp only [array] at action
      have inside : memory state.it ≠ 0 := by rw [here]; decide
      change parseLoop memory (fuel + 1) state = some result at answer
      rw [parseLoop_succ, if_neg inside, action] at answer
      obtain ⟨⟨value, it⟩, inner, outer⟩ := Option.bind_eq_some_iff.mp answer
      have opens : parseAction memory (.start (new .notype) state.it) =
          .next (.start (new .string) state.it) :=
        parseAction_quote (.start (new .notype) state.it) here
      have element : Parses memory (.start (new .notype) state.it) (new .string, stop - 1) := by
        refine (parses_next (by exact inside) opens).mpr (parses_at_terminator terminator ?_)
        simp only [ParseState.advance, ParseState.start, atLast]
        omega
      obtain ⟨rfl, rfl⟩ := Prod.mk.inj (Parses.unique element ⟨fuel, inner⟩)
      refine ih ?_ ?_ outer
      · exact array
      · simp only [ParseState.advance, ParseState.pushBack]
        omega

end LastByte

section Outcomes

variable {memory : Memory} {stop : Nat} {state after : ParseState} {consumed rest : Bytes}

theorem Reading.skip (consumed : Bytes) (reading : Reading memory stop state (consumed ++ rest))
    (cursor : after.it = state.it + consumed.length) (regular : after.Regular) :
    Reading memory stop after rest where
  positive := by
    have := reading.positive
    omega
  cursor := by
    have := reading.cursor
    simp only [List.length_append] at this
    omega
  holds := by
    have := reading.holds
    rw [List.append_assoc, Memory.holds_append] at this
    exact cursor ▸ this.2
  nonzero := fun member => reading.nonzero (List.mem_append_right _ member)
  regular := regular

/-- The outcome of a loop is that of the loop with some bytes consumed. -/
theorem Outcome.of_consumed (nonempty : consumed ≠ [])
    (cursor : after.it = state.it + consumed.length)
    (sameEnd : ∀ below, Context.SameEnd (state.context :: below) (consumed ++ rest)
      (after.context :: below) rest)
    (type : state.this.type ≠ .notype → after.this.type = state.this.type)
    (runs : ∀ result, Parses memory state result ↔ Parses memory after result)
    (visits : ∀ {cursor}, Visits memory after cursor → Visits memory state cursor)
    (outcome : Outcome memory stop after rest) :
    Outcome memory stop state (consumed ++ rest) := by
  rcases outcome with closes | ⟨upper, bottom, stays⟩
  · obtain ⟨used, later, value, rfl, usedNonempty, sameEndUsed, typed, sameType, parsed⟩ := closes
    refine Or.inl ⟨consumed ++ used, later, value, by simp, by simp [nonempty],
      fun below => (sameEnd below).trans (sameEndUsed below), typed, fun known => ?_, ?_⟩
    · exact (sameType (by rw [type known]; exact known)).trans (type known)
    · have finishEq : value.finish after.it used.length =
          value.finish state.it (consumed ++ used).length := by
        simp [finish, cursor, Nat.add_assoc]
      exact (runs _).mpr (finishEq ▸ parsed)
  · have scans : Context.scan [state.context] (consumed ++ rest) = upper ++ [bottom] :=
      (sameEnd []).1.trans stays.scans
    have stuckIff : Stuck (upper ++ [bottom]) (consumed ++ rest) ↔
        Stuck (upper ++ [bottom]) rest := by
      by_cases done : rest = []
      · simp [stays.atEnd done, not_stuck_singleton]
      · simp [Stuck, getLast?_consumed done]
    have overrunsIff : Overruns [state.context] (consumed ++ rest) ↔
        Overruns [after.context] rest := overruns_consumed_iff (sameEnd [])
    refine Or.inr ⟨upper, bottom, scans, fun known => ?_, stays.plain, by simp [nonempty],
      fun overruns => visits (stays.overruns (overrunsIff.mp overruns)),
      fun isStuck result parsed => ?_, fun inside notStuck => ?_⟩
    · exact (stays.type (by rw [type known]; exact known)).trans (type known)
    · exact stays.stuck (stuckIff.mp isStuck) result ((runs result).mp parsed)
    · obtain ⟨value, valueType, parsed⟩ :=
        stays.free (mt overrunsIff.mpr inside) (mt stuckIff.mpr notStuck)
      exact ⟨value, valueType, (runs _).mpr parsed⟩

end Outcomes

theorem outcome_nil {memory : Memory} {stop : Nat} {state : ParseState}
    (terminator : memory stop = 0) (reading : Reading memory stop state []) :
    Outcome memory stop state [] := by
  have atStop : state.it = stop := by simpa using reading.cursor
  refine Or.inr ⟨[], state.context, by simp, fun _ => by simp, fun _ => rfl, fun _ => rfl,
    fun overruns => (not_overruns_nil_text _ overruns).elim,
    fun stuck => (not_stuck_singleton _ _ stuck).elim, fun _ _ => ?_⟩
  exact ⟨_, by simp, parses_at_terminator terminator atStop⟩

section Bytes

variable {memory : Memory} {stop : Nat} {state : ParseState} {byte : UInt8} {tail : Bytes}

theorem Reading.here (reading : Reading memory stop state (byte :: tail)) :
    memory state.it = byte ∧ memory state.it ≠ 0 :=
  ⟨reading.holds.1, fun zero => reading.nonzero (by simp [← reading.holds.1, zero])⟩

theorem Reading.lastByte {rest : Bytes} (reading : Reading memory stop state rest)
    (nonempty : rest ≠ []) :
    rest.getLast? = some (memory (stop - 1)) ∧ memory (stop - 1) ≠ 0 := by
  obtain ⟨init, last, rfl⟩ := (List.eq_nil_or_concat rest).resolve_left nonempty
  have holds := reading.holds
  rw [List.concat_eq_append, List.append_assoc, Memory.holds_append] at holds
  have cursor := reading.cursor
  have position : state.it + init.length = stop - 1 := by
    simp only [List.length_concat] at cursor
    omega
  rw [position] at holds
  have value : memory (stop - 1) = last := holds.2.1
  exact ⟨by simp [value], fun zero => reading.nonzero (by simp [← value, zero])⟩

theorem Reading.one_lt_stop (reading : Reading memory stop state (byte :: tail)) : 1 < stop := by
  have positive := reading.positive
  have cursor := reading.cursor
  simp only [List.length_cons] at cursor
  omega

theorem Reading.exists_escape (reading : Reading memory stop state (byte :: tail))
    (backslash : byte = ch '\\') :
    ∃ after, parseAction memory state = .next after ∧ after.it = state.it + 1 ∧
      after.this = state.this ∧ after.context = state.context ∧ after.Regular := by
  obtain ⟨after, action, cursor, this, objState⟩ :=
    exists_parseAction_backslash (reading.here.1.trans backslash)
  refine ⟨after, action, cursor, this, ?_, ?_⟩
  · simp [ParseState.context, this, objState]
  · simpa [ParseState.Regular, this, objState] using reading.regular

theorem outcome_escape (reading : Reading memory stop state (byte :: tail))
    (backslash : byte = ch '\\')
    (recurse : ∀ {later after}, later.length ≤ tail.length →
      Reading memory stop after later → Outcome memory stop after later) :
    Outcome memory stop state (byte :: tail) := by
  obtain ⟨here, inside⟩ := reading.here
  cases tail with
  | nil =>
      have atLast : state.it = stop - 1 := by
        have cursor := reading.cursor
        simp only [List.length_singleton] at cursor
        omega
      have overruns : Overruns [state.context] [byte] :=
        Or.inl (by simp [Context.hidesNext, backslash])
      refine Or.inr ⟨[], state.context, by simp [Context.scan, backslash], fun _ => by simp,
        fun _ => rfl, fun _ => rfl, fun _ => ?_,
        fun stuck => (not_stuck_singleton _ _ stuck).elim, fun free => (free overruns).elim⟩
      exact visits_backslash_last (Nat.lt_of_succ_lt reading.one_lt_stop)
        (atLast ▸ here.trans backslash) atLast
  | cons escaped later =>
      obtain ⟨after, action, cursor, this, context, regular⟩ := reading.exists_escape backslash
      have advanced : after.advance.it = state.it + [byte, escaped].length := by
        simp [cursor]
      have split : byte :: escaped :: later = [byte, escaped] ++ later := rfl
      rw [split] at reading ⊢
      refine Outcome.of_consumed (by simp) advanced (fun below => ?_) (fun _ => ?_)
        (fun result => parses_next inside action) (fun visits => .next inside action visits)
        (recurse (by simp) (reading.skip [byte, escaped] advanced regular))
      · rw [ParseState.context_advance, context, backslash]
        exact Context.sameEnd_escape _ _ _ _
      · simp [this]

section Nested

variable {resume : JsonObject → Nat → ParseState} {child : ParseState} {parent : Context}
  {upper : List Context} {bottom : Context}

theorem Nests.visits_child (nests : Nests memory state byte resume child parent)
    (inside : memory state.it ≠ 0) {cursor : Nat} (visits : Visits memory child.advance cursor) :
    Visits memory state cursor :=
  .call inside nests.action (.next inside nests.opens visits)

theorem Nests.parses_child (nests : Nests memory state byte resume child parent)
    (inside : memory state.it ≠ 0) {result : JsonObject × Nat} :
    Parses memory (.start (new .notype) state.it) result ↔ Parses memory child.advance result :=
  parses_next (by exact inside) nests.opens

theorem Nests.parses_resumed (nests : Nests memory state byte resume child parent)
    (inside : memory state.it ≠ 0) {value : JsonObject} {it : Nat} {result : JsonObject × Nat}
    (parsed : Parses memory child.advance (value, it)) :
    Parses memory state result ↔ Parses memory (resume value it).advance result :=
  parses_nested_of inside nests.action ((nests.parses_child inside).mpr parsed)

theorem Nests.sameEnd (nests : Nests memory state byte resume child parent)
    (notBackslash : byte ≠ ch '\\') (below : List Context) (text : Bytes) :
    Context.SameEnd (state.context :: below) (byte :: text)
      (child.context :: parent :: below) text := by
  have read := Context.sameEnd_cons notBackslash state.context below text
  rwa [nests.read] at read

theorem Nests.overruns (nests : Nests memory state byte resume child parent)
    (notBackslash : byte ≠ ch '\\') (overruns : Overruns [child.context] tail) :
    Overruns [state.context] (byte :: tail) := by
  have sameEnd : Context.SameEnd [state.context] ([byte] ++ tail) [child.context, parent] tail :=
    nests.sameEnd notBackslash [] tail
  exact (overruns.below [parent]).of_sameEnd sameEnd

/-- A string step and the return position make up for each other: the loop of
the holder goes on behind the value. -/
theorem Nests.cursor_closed (nests : Nests memory state byte resume child parent)
    {value : JsonObject} {used : Bytes} (nonempty : used ≠ []) (typed : value.type ≠ .notype)
    (sameType : child.this.type ≠ .notype → value.type = child.this.type) :
    (resume value (value.finish child.advance.it used.length)).advance.it =
      state.it + (byte :: used).length := by
  have positive : 0 < used.length := List.length_pos_iff.mpr nonempty
  rw [ParseState.advance_it, nests.steps sameType, steppedBack, finish, ParseState.advance_it,
    nests.cursor, List.length_cons]
  cases type : value.type with
  | notype => exact (typed type).elim
  | string =>
      simp
      omega
  | object =>
      simp
      omega
  | array =>
      simp
      omega

theorem Nests.scan_opened (nests : Nests memory state byte resume child parent)
    (notBackslash : byte ≠ ch '\\') (stays : Stays memory stop child.advance tail upper bottom) :
    Context.scan [state.context] (byte :: tail) = upper ++ [bottom] ++ [parent] ∧
      Context.hidesNext [state.context] (byte :: tail) =
        Context.hidesNext [child.context] tail := by
  have scans : Context.scan [child.context] tail = upper ++ [bottom] := stays.scans
  have opened : Context.scan [child.context] tail ≠ [] := by simp [scans]
  obtain ⟨scanBelow, hidesBelow⟩ := Context.scan_append opened [parent]
  obtain ⟨sameScan, sameHides⟩ := nests.sameEnd notBackslash [] tail
  exact ⟨sameScan.trans (scanBelow.trans (by rw [scans])), sameHides.trans hidesBelow⟩

theorem Nests.cursor_container (nests : Nests memory state byte resume child parent)
    (oneLtStop : 1 < stop) (container : ¬ bottom.Plain)
    (stays : Stays memory stop child.advance tail upper bottom) {value : JsonObject}
    (type : value.type = bottom.type) : (resume value (stop - 1)).advance.it = stop := by
  have typed : value.type = .object ∨ value.type = .array := by
    rw [type]
    cases bottom <;> simp [Context.Plain, Context.type] at container ⊢
  rw [ParseState.advance_it, nests.steps fun known => type.trans (stays.type known), steppedBack,
    if_pos typed]
  omega

theorem Nests.cursor_plain (nests : Nests memory state byte resume child parent)
    (oneLtStop : 1 < stop) (plain : bottom.Plain)
    (stays : Stays memory stop child.advance tail upper bottom) {value : JsonObject}
    (type : value.type = bottom.type) : (resume value (stop - 1)).advance.it = stop - 1 := by
  have untyped : ¬ (value.type = .object ∨ value.type = .array) := by
    rw [type]
    rcases plain with rfl | rfl <;> simp [Context.type]
  rw [ParseState.advance_it, nests.steps fun known => type.trans (stays.type known), steppedBack,
    if_neg untyped]
  omega

theorem Nests.rereads_plain (nests : Nests memory state byte resume child parent)
    (notBackslash : byte ≠ ch '\\') (plain : bottom.Plain)
    (stays : Stays memory stop child.advance tail upper bottom) :
    Rereads (Context.scan [state.context] (byte :: tail)) := by
  rw [(nests.scan_opened notBackslash stays).1, stays.plain plain]
  exact ⟨by simp, by simpa [Context.Plain] using plain⟩

/-- An object or array that stays open leaves its holder at the terminator. -/
theorem Nests.stays_container (nests : Nests memory state byte resume child parent)
    (terminator : memory stop = 0) (reading : Reading memory stop state (byte :: tail))
    (notBackslash : byte ≠ ch '\\') (container : ¬ bottom.Plain)
    (stays : Stays memory stop child.advance tail upper bottom) :
    Stays memory stop state (byte :: tail) (upper ++ [bottom]) parent := by
  obtain ⟨here, inside⟩ := reading.here
  obtain ⟨scans, hides⟩ := nests.scan_opened notBackslash stays
  have overrunsChild (overruns : Overruns [state.context] (byte :: tail)) :
      Overruns [child.context] tail := by
    rcases overruns with hidden | ⟨last, rereads⟩
    · exact Or.inl (hides.symm.trans hidden)
    · rw [scans] at rereads
      cases upper with
      | nil => exact (container (by simpa [Context.Plain] using rereads.2)).elim
      | cons first others =>
          have nonempty : tail ≠ [] := fun done => by simpa using stays.atEnd done
          have sameLast : ([byte] ++ tail).getLast? = tail.getLast? := getLast?_consumed nonempty
          refine Or.inr ⟨sameLast.symm.trans last, ?_⟩
          rw [← ParseState.context_advance, stays.scans]
          exact ⟨by simp, rereads.2⟩
  refine ⟨scans, fun _ => nests.same.symm, fun plain => ?_, by simp, fun overruns => ?_,
    fun isStuck result parsed => ?_, fun free notStuck => ?_⟩
  · rcases nests.holder with rfl | rfl <;> simp [Context.Plain] at plain
  · exact nests.visits_child inside (stays.overruns (overrunsChild overruns))
  · obtain ⟨value, it, inner, -⟩ := (parses_nested inside nests.action).mp parsed
    have childStuck := stuck_child (fun string => container (Or.inl string)) stays.atEnd isStuck
    exact stays.stuck childStuck _ ((nests.parses_child inside).mp inner)
  · obtain ⟨value, type, parsed⟩ := stays.free (mt (nests.overruns notBackslash) free)
      fun stuck => notStuck (stuck.below [parent] [byte])
    have atStop := nests.cursor_container reading.one_lt_stop container stays type
    refine ⟨_, ?_, (nests.parses_resumed inside parsed).mpr
      (parses_at_terminator terminator atStop)⟩
    rw [ParseState.advance_this, ← nests.context value (stop - 1), ParseState.type_context]

/-- Behind a string or a value that has not begun, the holder reads the last byte again. -/
theorem Nests.stays_plain (nests : Nests memory state byte resume child parent)
    (terminator : memory stop = 0) (reading : Reading memory stop state (byte :: tail))
    (notBackslash : byte ≠ ch '\\') (plain : bottom.Plain)
    (stays : Stays memory stop child.advance tail upper bottom) :
    Stays memory stop state (byte :: tail) (upper ++ [bottom]) parent := by
  obtain ⟨here, inside⟩ := reading.here
  have oneLtStop := reading.one_lt_stop
  obtain ⟨sameLast, lastInside⟩ := reading.lastByte (List.cons_ne_nil _ _)
  obtain ⟨scans, hides⟩ := nests.scan_opened notBackslash stays
  obtain rfl : upper = [] := stays.plain plain
  have resumedAt {value : JsonObject} (type : value.type = bottom.type) :=
    nests.cursor_plain oneLtStop plain stays type
  have childFree (notHidden : Context.hidesNext [child.context] tail ≠ true) :
      ∃ value, value.type = bottom.type ∧ Parses memory child.advance (value, stop - 1) := by
    refine stays.free ?_ (not_stuck_singleton _ _)
    rintro (hidden | ⟨-, rereads⟩)
    · exact notHidden hidden
    · rw [stays.scans] at rereads
      exact not_rereads_singleton bottom rereads
  refine ⟨scans, fun _ => nests.same.symm, fun parentPlain => ?_, by simp, fun overruns => ?_,
    fun isStuck result parsed => ?_, fun free notStuck => ?_⟩
  · rcases nests.holder with rfl | rfl <;> simp [Context.Plain] at parentPlain
  · by_cases hidden : Context.hidesNext [child.context] tail = true
    · exact nests.visits_child inside (stays.overruns (Or.inl hidden))
    · have last := overruns.resolve_left (by rwa [hides])
      have backslash : memory (stop - 1) = ch '\\' :=
        Option.some.inj (sameLast.symm.trans last.1)
      obtain ⟨value, type, parsed⟩ := childFree hidden
      exact .resumed inside nests.action ((nests.parses_child inside).mpr parsed)
        (visits_backslash_last (by omega) backslash (resumedAt type))
  · obtain ⟨top, last⟩ := isStuck
    have quote : memory (stop - 1) = ch '"' := Option.some.inj (sameLast.symm.trans last)
    have notHidden : Context.hidesNext [child.context] tail ≠ true := by
      intro hidden
      have hiddenLast := Context.getLast?_of_hidesNext (hides.trans hidden)
      exact absurd (last.symm.trans hiddenLast) (by decide)
    obtain ⟨value, type, inner⟩ := childFree notHidden
    have array : (resume value (stop - 1)).advance.this.type = .array := by
      have parentArray : parent = .array := by simpa using And.right (by simpa using top)
      rw [← ParseState.type_context, ParseState.context_advance, nests.context, parentArray]
      rfl
    exact not_parses_array_quote terminator oneLtStop quote array (resumedAt type)
      ((nests.parses_resumed inside inner).mp parsed)
  · have notBackslashLast : memory (stop - 1) ≠ ch '\\' := fun backslash =>
      free (Or.inr ⟨sameLast.trans (by rw [backslash]),
        nests.rereads_plain notBackslash plain stays⟩)
    obtain ⟨value, type, inner⟩ := childFree fun hidden => free (Or.inl (hides.trans hidden))
    have context : (resume value (stop - 1)).advance.context = parent := nests.context _ _
    have notQuote (array : (resume value (stop - 1)).advance.context = .array) :
        memory (stop - 1) ≠ ch '"' := by
      intro quote
      have parentArray : parent = .array := context.symm.trans array
      have typed := nests.typed parentArray
      have string : bottom = .string := plain.resolve_right fun blank =>
        typed ((stays.type typed).symm.trans (by rw [blank]; rfl))
      exact notStuck ⟨by simp [string, parentArray], by rw [sameLast, quote]⟩
    have regular : (resume value (stop - 1)).advance.Regular := nests.resumed _ _
    obtain ⟨final, finalType, outer⟩ := parses_last terminator (by omega) lastInside
      notBackslashLast regular (context ▸ nests.holder) notQuote (resumedAt type)
    refine ⟨final, ?_, (nests.parses_resumed inside inner).mpr outer⟩
    rw [finalType, ← ParseState.type_context, context]

theorem Nests.reading_child (nests : Nests memory state byte resume child parent)
    (reading : Reading memory stop state (byte :: tail)) :
    Reading memory stop child.advance tail :=
  reading.skip [byte] (by simp [nests.cursor]) nests.regular

theorem outcome_nested (nests : Nests memory state byte resume child parent)
    (terminator : memory stop = 0) (reading : Reading memory stop state (byte :: tail))
    (notBackslash : byte ≠ ch '\\')
    (recurse : ∀ {later after}, later.length ≤ tail.length →
      Reading memory stop after later → Outcome memory stop after later) :
    Outcome memory stop state (byte :: tail) := by
  obtain ⟨here, inside⟩ := reading.here
  rcases recurse (Nat.le_refl _) (nests.reading_child reading) with closes | ⟨upper, bottom, stays⟩
  · obtain ⟨used, later, value, rfl, nonempty, sameEnd, typed, sameType, parsed⟩ := closes
    have context : (resume value (value.finish child.advance.it used.length)).advance.context =
        parent := nests.context _ _
    have advanced := nests.cursor_closed nonempty typed sameType
    refine Outcome.of_consumed (List.cons_ne_nil byte used) advanced (fun below => ?_) (fun _ => ?_)
      (fun result => nests.parses_resumed inside parsed)
      (fun visits => .resumed inside nests.action ((nests.parses_child inside).mpr parsed) visits)
      (recurse (by simp) (reading.skip (byte :: used) advanced (nests.resumed _ _)))
    · rw [context]
      exact (nests.sameEnd notBackslash below _).trans (sameEnd (parent :: below))
    · rw [← ParseState.type_context, context, nests.same]
  · by_cases plain : bottom.Plain
    · exact Or.inr ⟨_, _, nests.stays_plain terminator reading notBackslash plain stays⟩
    · exact Or.inr ⟨_, _, nests.stays_container terminator reading notBackslash plain stays⟩

end Nested

theorem outcome_reads (terminator : memory stop = 0)
    (reading : Reading memory stop state (byte :: tail)) (notBackslash : byte ≠ ch '\\')
    (recurse : ∀ {later after}, later.length ≤ tail.length →
      Reading memory stop after later → Outcome memory stop after later) :
    Outcome memory stop state (byte :: tail) := by
  obtain ⟨here, inside⟩ := reading.here
  cases reads here notBackslash reading.regular with
  | next after action cursor regular type read =>
      have advanced : after.advance.it = state.it + [byte].length := by
        simp [cursor]
      refine Outcome.of_consumed (List.cons_ne_nil byte []) advanced (fun below => ?_) type
        (fun result => parses_next inside action) (fun visits => .next inside action visits)
        (recurse (Nat.le_refl _) (reading.skip [byte] advanced regular))
      have sameEnd := Context.sameEnd_cons notBackslash state.context below tail
      rwa [read] at sameEnd
  | done value action type typed read =>
      refine Or.inl ⟨[byte], tail, value, rfl, by simp, fun below => ?_, typed, fun _ => type,
        (parses_done inside action).mpr rfl⟩
      have sameEnd := Context.sameEnd_cons notBackslash state.context below tail
      rwa [read] at sameEnd
  | nested nests => exact outcome_nested nests terminator reading notBackslash recurse

end Bytes

/-- Every loop either completes its value where the scanner does, or reaches
the terminator with the scanner's stack open. -/
theorem outcome {memory : Memory} {stop : Nat} (terminator : memory stop = 0) (length : Nat) :
    ∀ {rest : Bytes} {state : ParseState}, rest.length ≤ length →
      Reading memory stop state rest → Outcome memory stop state rest := by
  induction length with
  | zero =>
      intro rest state short reading
      obtain rfl : rest = [] := List.eq_nil_of_length_eq_zero (by omega)
      exact outcome_nil terminator reading
  | succ length ih =>
      intro rest state short reading
      cases rest with
      | nil => exact outcome_nil terminator reading
      | cons byte tail =>
          have recurse {later : Bytes} {after : ParseState} (shorter : later.length ≤ tail.length)
              (readingLater : Reading memory stop after later) :
              Outcome memory stop after later :=
            ih (by simp only [List.length_cons] at short; omega) readingLater
          by_cases backslash : byte = ch '\\'
          · exact outcome_escape reading backslash recurse
          · exact outcome_reads terminator reading backslash recurse

theorem reading_text {memory : Memory} {this : JsonObject} {str : Nat} {text : Bytes}
    (address : 0 < str) (holds : memory.Holds str (text ++ [0])) (nonzero : 0 ∉ text) :
    Reading memory (str + text.length) (.start this str) text :=
  ⟨address, rfl, holds, nonzero, Or.inl rfl⟩

/-- Whatever an object of no type holds, the parser fills it from the blank context on. -/
theorem parse_converges_iff_of_notype {memory : Memory} {this : JsonObject} {str : Nat}
    {text : Bytes} (blank : this.type = .notype) (address : 0 < str)
    (holds : memory.Holds str (text ++ [0])) (nonzero : 0 ∉ text)
    (notEscape : text.getLast? ≠ some (ch '\\')) :
    (∃ result, Converges (parse memory this str) result) ↔ ¬ BreaksOffAtQuote text := by
  have terminator : memory (str + text.length) = 0 :=
    (Memory.holds_append.mp holds).2.1
  have stack : (ParseState.start this str).context = .blank := by
    simp only [ParseState.context, ParseState.start_this, blank]
  rcases outcome terminator text.length (Nat.le_refl _) (reading_text address holds nonzero) with
    ⟨used, later, value, -, -, sameEnd, -, -, parsed⟩ | ⟨upper, bottom, stays⟩
  · have complete : Context.scan [.blank] text = [] := by
      rw [← stack, (sameEnd []).1]
      cases later <;> rfl
    refine ⟨fun _ breaks => ?_, fun _ => ⟨_, parsed⟩⟩
    simpa [complete] using breaks.1
  · have opened : Context.scan [.blank] text = upper ++ [bottom] := stack ▸ stays.scans
    have noOverrun : ¬ Overruns [(ParseState.start this str).context] text := fun overruns =>
      notEscape (getLast?_of_overruns overruns)
    refine ⟨fun ⟨result, parsed⟩ breaks => ?_, fun intact => ?_⟩
    · exact stays.stuck (opened ▸ breaks) result parsed
    · obtain ⟨value, -, parsed⟩ := stays.free noOverrun fun isStuck =>
        intact (show Stuck _ _ from opened ▸ isStuck)
      exact ⟨_, parsed⟩

/-- On a C string without a backslash at its end, the parser returns unless the
text breaks off right behind a quote in a string element of an array. -/
theorem parse_converges_iff (memory : Memory) (str : Nat) (text : Bytes) (address : 0 < str)
    (holds : memory.Holds str (text ++ [0])) (nonzero : 0 ∉ text)
    (notEscape : text.getLast? ≠ some (ch '\\')) :
    (∃ result, Converges (parse memory (new .notype) str) result) ↔ ¬ BreaksOffAtQuote text :=
  parse_converges_iff_of_notype (type_new .notype) address holds nonzero notEscape

theorem parse_converges_iff_truncated :
    (∃ result, Converges
        (parse (Memory.ofString (fun _ => 0) (bytes "\x7b\"a\":[\"b")) (new .notype) 1) result) ↔
      ¬ BreaksOffAtQuote (bytes "\x7b\"a\":[\"b") :=
  parse_converges_iff (Memory.ofString (fun _ => 0) (bytes "\x7b\"a\":[\"b")) 1
    (bytes "\x7b\"a\":[\"b") (by decide) (Memory.ofString_holds _ _) (by decide) (by decide)

/-- The two bytes `["` keep the parser busy forever. -/
theorem not_converges_openString :
    ¬ ∃ result, Converges
      (parse (Memory.ofString (fun _ => 0) (bytes "[\"")) (new .notype) 1) result := by
  rintro ⟨result, parsed⟩
  have opens : parseAction (Memory.ofString (fun _ => 0) (bytes "[\"")) (.start (new .notype) 1) =
      .next (.start (new .array) 1) := parseAction_openBracket _ rfl
  have array := (parses_next (by decide) opens).mp parsed
  have lastQuote : Memory.ofString (fun _ => 0) (bytes "[\"") (3 - 1) = ch '"' := rfl
  exact not_parses_array_quote rfl (by decide) lastQuote rfl rfl array

end JsonObject

end Libjaypea
