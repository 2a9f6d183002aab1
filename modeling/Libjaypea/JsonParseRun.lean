import Libjaypea.Fuelled
import Libjaypea.Json

/-!
# Runs of the JSON parser

The equations that describe a run of `JsonObject::parse` one byte at a time,
with the fuel of the model hidden behind `Parses`.
-/

namespace Libjaypea

namespace JsonObject

open Fuelled

section Cursor

variable (state : ParseState) (value : JsonObject) (it : Nat)

@[simp]
theorem type_new (type : JsonType) : (new type).type = type :=
  rfl

@[simp]
theorem ParseState.start_this : (start value it).this = value :=
  rfl

@[simp]
theorem ParseState.start_it : (start value it).it = it :=
  rfl

@[simp]
theorem ParseState.advance_this : state.advance.this = state.this :=
  rfl

@[simp]
theorem ParseState.advance_objState : state.advance.objState = state.objState :=
  rfl

@[simp]
theorem ParseState.advance_it : state.advance.it = state.it + 1 :=
  rfl

@[simp]
theorem ParseState.pushBack_it : (state.pushBack value it).it = it :=
  rfl

end Cursor

theorem parseLoop_succ (memory : Memory) (fuel : Nat) (state : ParseState) :
    parseLoop memory (fuel + 1) state =
      if memory state.it = 0 then some (state.this, state.it - 1)
      else
        match parseAction memory state with
        | .next after => parseLoop memory fuel after.advance
        | .done this it => some (this, it)
        | .nested resume =>
            (parseLoop memory fuel (.start (new .notype) state.it)).bind fun result =>
              parseLoop memory fuel (resume result.1 result.2).advance :=
  rfl

theorem parseLoop_stable (memory : Memory) (state : ParseState) :
    Stable fun fuel => parseLoop memory fuel state := by
  intro fuel
  induction fuel generalizing state with
  | zero => intro result answer; simp [parseLoop] at answer
  | succ fuel ih =>
      intro result answer
      simp only [parseLoop_succ memory (fuel + 1), parseLoop_succ memory fuel] at answer ⊢
      by_cases terminator : memory state.it = 0
      · simpa [terminator] using answer
      · simp only [terminator, if_false] at answer ⊢
        cases action : parseAction memory state with
        | next after =>
            simp only [action] at answer ⊢
            exact ih _ _ answer
        | done this it =>
            simp only [action] at answer ⊢
            exact answer
        | nested resume =>
            simp only [action] at answer ⊢
            obtain ⟨inner, innerEq, outerEq⟩ := Option.bind_eq_some_iff.mp answer
            exact Option.bind_eq_some_iff.mpr ⟨inner, ih _ _ innerEq, ih _ _ outerEq⟩

theorem parse_stable (memory : Memory) (this : JsonObject) (str : Nat) :
    Stable (parse memory this str) :=
  parseLoop_stable memory _

/-- The loop of `parse`, entered in `state`, ends with `result`. -/
def Parses (memory : Memory) (state : ParseState) (result : JsonObject × Nat) : Prop :=
  Converges (fun fuel => parseLoop memory fuel state) result

section Steps

variable {memory : Memory} {state : ParseState} {result : JsonObject × Nat}

theorem Parses.unique {other : JsonObject × Nat} (first : Parses memory state result)
    (second : Parses memory state other) : result = other :=
  (parseLoop_stable memory state).unique first second

theorem parses_terminator (terminator : memory state.it = 0) :
    Parses memory state result ↔ result = (state.this, state.it - 1) := by
  rw [Parses, converges_succ rfl fun fuel =>
    (by simp [parseLoop_succ, terminator] :
      parseLoop memory (fuel + 1) state = some (state.this, state.it - 1))]
  simp [Converges, eq_comm]

theorem parses_next {after : ParseState} (inside : memory state.it ≠ 0)
    (action : parseAction memory state = .next after) :
    Parses memory state result ↔ Parses memory after.advance result :=
  converges_succ rfl fun fuel => by simp [parseLoop_succ, inside, action]

theorem parses_done {this : JsonObject} {it : Nat} (inside : memory state.it ≠ 0)
    (action : parseAction memory state = .done this it) :
    Parses memory state result ↔ result = (this, it) := by
  rw [Parses, converges_succ rfl fun fuel =>
    (by simp [parseLoop_succ, inside, action] :
      parseLoop memory (fuel + 1) state = some (this, it))]
  simp [Converges, eq_comm]

theorem parses_nested {resume : JsonObject → Nat → ParseState}
    (inside : memory state.it ≠ 0) (action : parseAction memory state = .nested resume) :
    Parses memory state result ↔
      ∃ value it, Parses memory (.start (new .notype) state.it) (value, it) ∧
        Parses memory (resume value it).advance result := by
  have unfolded (fuel : Nat) : parseLoop memory (fuel + 1) state =
      (parseLoop memory fuel (.start (new .notype) state.it)).bind fun value =>
        parseLoop memory fuel (resume value.1 value.2).advance := by
    simp only [parseLoop_succ, inside, if_false, action]
  rw [Parses, converges_succ rfl unfolded,
    converges_bind (parseLoop_stable memory _)
      (fun value => parseLoop_stable memory (resume value.1 value.2).advance)]
  simp [Parses]

/-- A nested value whose parse is known is consumed in one step. -/
theorem parses_nested_of {resume : JsonObject → Nat → ParseState} {value : JsonObject} {it : Nat}
    (inside : memory state.it ≠ 0) (action : parseAction memory state = .nested resume)
    (inner : Parses memory (.start (new .notype) state.it) (value, it)) :
    Parses memory state result ↔ Parses memory (resume value it).advance result := by
  rw [parses_nested inside action]
  constructor
  · rintro ⟨otherValue, otherIt, otherInner, outer⟩
    obtain ⟨rfl, rfl⟩ := Prod.mk.inj (inner.unique otherInner)
    exact outer
  · intro outer
    exact ⟨value, it, inner, outer⟩

end Steps

/-- Bytes on which the parser acts outside of strings and keys. -/
def structural : Bytes :=
  bytes "\\\"\x7b\x7d[]:"

/-- The current byte is about to be appended to `ss`. -/
def ParseState.Collecting (state : ParseState) : Prop :=
  state.this.type = .string ∨ (state.this.type = .object ∧ state.objState = .getKey)

section Actions

variable {memory : Memory} (state : ParseState)

theorem collect_of_collecting (collecting : state.Collecting) (byte : UInt8) :
    state.collect byte = { state with ss := state.ss ++ [byte] } :=
  if_pos collecting

theorem collect_of_not_collecting (idle : ¬ state.Collecting) (byte : UInt8) :
    state.collect byte = state :=
  if_neg idle

theorem parseAction_ordinary {byte : UInt8} (here : memory state.it = byte)
    (ordinary : byte ∉ structural) :
    parseAction memory state = .next (state.collect byte) := by
  simp only [structural, bytes, String.reduceToList, List.map_cons, List.map_nil, List.mem_cons,
    List.not_mem_nil, or_false, not_or] at ordinary
  obtain ⟨backslash, quote, openBrace, closeBrace, openBracket, closeBracket, colon⟩ := ordinary
  simp [parseAction, here, backslash, quote, openBrace, closeBrace, openBracket, closeBracket,
    colon]

/-- Inside strings and keys only backslashes and quotes are special. -/
theorem parseAction_collecting {byte : UInt8} (here : memory state.it = byte)
    (collecting : state.Collecting) (notBackslash : byte ≠ ch '\\') (notQuote : byte ≠ ch '"') :
    parseAction memory state = .next { state with ss := state.ss ++ [byte] } := by
  have collects := collect_of_collecting state collecting byte
  rcases collecting with string | ⟨object, key⟩
  · simp [parseAction, here, notBackslash, notQuote, string, collects]
  · simp [parseAction, here, notBackslash, notQuote, object, key, collects]

theorem parseAction_escape {byte : UInt8} (here : memory state.it = ch '\\')
    (escaped : memory (state.it + 1) = byte) (kept : byte ∉ bytes "nrt") :
    parseAction memory state =
      .next (ParseState.collect { state with it := state.it + 1 } byte) := by
  simp only [bytes, String.reduceToList, List.map_cons, List.map_nil, List.mem_cons,
    List.not_mem_nil, or_false] at kept
  simp [parseAction, here, escaped, kept]

theorem parseAction_escape_dropped {byte : UInt8} (here : memory state.it = ch '\\')
    (escaped : memory (state.it + 1) = byte) (dropped : byte ∈ bytes "nrt") :
    parseAction memory state = .next { state with it := state.it + 1 } := by
  simp only [bytes, String.reduceToList, List.map_cons, List.map_nil, List.mem_cons,
    List.not_mem_nil, or_false] at dropped
  simp [parseAction, here, escaped, dropped]

theorem parseAction_quote (here : memory state.it = ch '"') :
    parseAction memory state =
      match state.this.type with
      | .notype => .next { state with this := { state.this with type := .string } }
      | .string => .done { state.this with stringValue := state.ss } (state.it + 1)
      | .object =>
          match state.objState with
          | .noState => .next { state with objState := .getKey }
          | .getKey => .next { state with objState := .gotKey }
          | _ => .next (state.collect (ch '"'))
      | .array => .nested fun value it => state.pushBack value (it - 1) := by
  rw [parseAction, here]
  rfl

theorem parseAction_openBrace (here : memory state.it = ch '{') :
    parseAction memory state =
      match state.this.type with
      | .notype => .next { state with this := { state.this with type := .object } }
      | .array => .nested fun value it => state.pushBack value it
      | _ => .next (state.collect (ch '{')) := by
  rw [parseAction, here]
  rfl

theorem parseAction_closeBrace (here : memory state.it = ch '}') :
    parseAction memory state =
      if state.this.type = .object ∧ state.objState = .noState then .done state.this state.it
      else if state.this.type = .array then .done state.this state.it
      else .next (state.collect (ch '}')) := by
  simp only [parseAction, here, ch_eq_ch_iff, Char.reduceToNat, Nat.reduceLT, Char.reduceEq,
    if_false, if_true]

theorem parseAction_openBracket (here : memory state.it = ch '[') :
    parseAction memory state =
      match state.this.type with
      | .notype => .next { state with this := { state.this with type := .array } }
      | .array => .nested fun value it => state.pushBack value it
      | _ => .next (state.collect (ch '[')) := by
  rw [parseAction, here]
  rfl

theorem parseAction_closeBracket (here : memory state.it = ch ']') :
    parseAction memory state =
      if state.this.type = .array then .done state.this state.it
      else if state.this.type = .object ∧ state.objState ≠ .getKey ∧
          state.objState ≠ .getValue then
        .done state.this state.it
      else .next (state.collect (ch ']')) := by
  simp only [parseAction, here, ch_eq_ch_iff, Char.reduceToNat, Nat.reduceLT, Char.reduceEq,
    if_false, if_true]

theorem parseAction_colon (here : memory state.it = ch ':') :
    parseAction memory state =
      if state.this.type = .object ∧ state.objState = .gotKey then
        .nested fun value it =>
          state.setMember value
            (if value.type ≠ .object ∧ value.type ≠ .array then it - 1 else it)
      else .next (state.collect (ch ':')) := by
  simp only [parseAction, here, ch_eq_ch_iff, Char.reduceToNat, Nat.reduceLT, Char.reduceEq,
    if_false, if_true]

end Actions

section Runs

variable {memory : Memory} (state : ParseState) {result : JsonObject × Nat}

/-- Bytes outside of strings and keys that have no meaning are skipped. -/
theorem parses_idle {text : Bytes} (idle : ¬ state.Collecting)
    (holds : memory.Holds state.it text)
    (ordinary : ∀ byte ∈ text, byte ≠ 0 ∧ byte ∉ structural) :
    Parses memory state result ↔
      Parses memory { state with it := state.it + text.length } result := by
  induction text generalizing state with
  | nil => rfl
  | cons byte rest ih =>
      obtain ⟨here, later⟩ := holds
      obtain ⟨nonzero, notStructural⟩ := ordinary byte (by simp)
      have action := parseAction_ordinary state here notStructural
      rw [collect_of_not_collecting state idle] at action
      rw [parses_next (by rw [here]; exact nonzero) action,
        ih state.advance idle later fun other member =>
          ordinary other (List.mem_cons_of_mem _ member)]
      have shift : state.it + 1 + rest.length = state.it + (rest.length + 1) := by omega
      simp [ParseState.advance, shift]

/-- Bytes that neither open a value nor escape the next byte. -/
def NoJson (text : Bytes) : Prop :=
  ∀ byte ∈ text, byte ≠ 0 ∧ byte ≠ ch '"' ∧ byte ≠ ch '{' ∧ byte ≠ ch '[' ∧ byte ≠ ch '\\'

/-- An object without a type skips everything that opens no value. -/
theorem parses_noJson {text : Bytes} (blank : state.this.type = .notype)
    (holds : memory.Holds state.it text) (noJson : NoJson text) :
    Parses memory state result ↔
      Parses memory { state with it := state.it + text.length } result := by
  induction text generalizing state with
  | nil => rfl
  | cons byte rest ih =>
      obtain ⟨here, later⟩ := holds
      obtain ⟨nonzero, quote, openBrace, openBracket, backslash⟩ := noJson byte (by simp)
      have idle : ¬ state.Collecting := by simp [ParseState.Collecting, blank]
      have action : parseAction memory state = .next state := by
        simp [parseAction, here, backslash, quote, openBrace, openBracket, blank,
          collect_of_not_collecting state idle]
      rw [parses_next (by rw [here]; exact nonzero) action,
        ih state.advance blank later fun other member =>
          noJson other (List.mem_cons_of_mem _ member)]
      have shift : state.it + 1 + rest.length = state.it + (rest.length + 1) := by omega
      simp [ParseState.advance, shift]

/-- The bytes that `escape` and `parse` agree on. -/
def Clean (value : Bytes) : Prop :=
  ∀ byte ∈ value, byte ≠ 0 ∧ byte ≠ ch '\n' ∧ byte ≠ ch '\r' ∧ byte ≠ ch '\t'

instance (value : Bytes) : Decidable (Clean value) :=
  inferInstanceAs (Decidable (∀ byte ∈ value, _ ∧ _))

/-- What the parser collects from the body of a string: an escaped byte is
taken as it is, but for `n`, `r` and `t`, which are dropped. -/
inductive Collects : Bytes → Bytes → Prop
  | nil : Collects [] []
  | plain {byte : UInt8} {text value : Bytes} (nonzero : byte ≠ 0) (quote : byte ≠ ch '"')
      (backslash : byte ≠ ch '\\') (rest : Collects text value) :
      Collects (byte :: text) (byte :: value)
  | kept {byte : UInt8} {text value : Bytes} (letter : byte ∉ bytes "nrt")
      (rest : Collects text value) : Collects (ch '\\' :: byte :: text) (byte :: value)
  | dropped {byte : UInt8} {text value : Bytes} (letter : byte ∈ bytes "nrt")
      (rest : Collects text value) : Collects (ch '\\' :: byte :: text) value

theorem Collects.append {text value more others : Bytes} (first : Collects text value)
    (second : Collects more others) : Collects (text ++ more) (value ++ others) := by
  induction first with
  | nil => exact second
  | plain nonzero quote backslash _ ih => exact .plain nonzero quote backslash ih
  | kept letter _ ih => exact .kept letter ih
  | dropped letter _ ih => exact .dropped letter ih

theorem collects_plain {text : Bytes}
    (plain : ∀ byte ∈ text, byte ≠ 0 ∧ byte ≠ ch '"' ∧ byte ≠ ch '\\') : Collects text text := by
  induction text with
  | nil => exact .nil
  | cons byte rest ih =>
      obtain ⟨⟨nonzero, quote, backslash⟩, later⟩ := List.forall_mem_cons.mp plain
      exact .plain nonzero quote backslash (ih later)

theorem collects_escapeByte {byte : UInt8} (nonzero : byte ≠ 0) (notLineFeed : byte ≠ ch '\n')
    (notReturn : byte ≠ ch '\r') (notTab : byte ≠ ch '\t') :
    Collects (escapeByte byte) [byte] := by
  simp only [escapeByte, notLineFeed, notReturn, notTab, if_false]
  by_cases quote : byte = ch '"'
  · subst quote
    exact .kept (by decide) .nil
  · by_cases backslash : byte = ch '\\'
    · subst backslash
      exact .kept (by decide) .nil
    · simp only [quote, backslash, if_false]
      exact .plain nonzero quote backslash .nil

theorem collects_escaped {value : Bytes} (clean : Clean value) :
    Collects (value.flatMap escapeByte) value := by
  induction value with
  | nil => exact .nil
  | cons byte rest ih =>
      obtain ⟨nonzero, notLineFeed, notReturn, notTab⟩ := clean byte (by simp)
      exact (collects_escapeByte nonzero notLineFeed notReturn notTab).append
        (ih fun other member => clean other (List.mem_cons_of_mem _ member))

theorem parses_collects {text value : Bytes} (collects : Collects text value)
    (collecting : state.Collecting) (holds : memory.Holds state.it text) :
    Parses memory state result ↔
      Parses memory
        { state with ss := state.ss ++ value, it := state.it + text.length } result := by
  induction collects generalizing state with
  | nil => simp
  | @plain byte text value nonzero quote backslash _ ih =>
      obtain ⟨here, later⟩ := holds
      rw [parses_next (by rw [here]; exact nonzero)
        (parseAction_collecting state here collecting backslash quote)]
      refine (ih (ParseState.advance { state with ss := state.ss ++ [byte] }) collecting
        later).trans ?_
      simp [ParseState.advance, Nat.add_assoc, Nat.add_comm 1]
  | @kept byte text value letter _ ih =>
      obtain ⟨here, escaped, later⟩ := holds
      rw [parses_next (by rw [here]; decide) (parseAction_escape state here escaped letter),
        collect_of_collecting { state with it := state.it + 1 } collecting]
      refine (ih (ParseState.advance
        { state with it := state.it + 1, ss := state.ss ++ [byte] }) collecting later).trans ?_
      have shift : state.it + 1 + 1 + text.length = state.it + (text.length + 1 + 1) := by omega
      simp [ParseState.advance, shift]
  | @dropped byte text value letter _ ih =>
      obtain ⟨here, escaped, later⟩ := holds
      rw [parses_next (by rw [here]; decide)
        (parseAction_escape_dropped state here escaped letter)]
      refine (ih (ParseState.advance { state with it := state.it + 1 }) collecting later).trans ?_
      have shift : state.it + 1 + 1 + text.length = state.it + (text.length + 1 + 1) := by omega
      simp [ParseState.advance, shift]

end Runs

end JsonObject

end Libjaypea
