import Libjaypea.HttpRequest
import Libjaypea.JsonParseRun

/-!
# Runs of the HTTP request parser

The main loop of `parse_http_request` one step at a time, and what it does on
a stretch of bytes that have no meaning in the state it is in.
-/

namespace Libjaypea

open Fuelled JsonObject

theorem JsonObject.storeValue_stable (stale : Memory) (this : JsonObject) (key value : Bytes) :
    Stable (this.storeValue stale key value) := by
  intro fuel result answer
  obtain ⟨parsed, parsedEq, equal⟩ := Option.map_eq_some_iff.mp answer
  have more := parseLoop_stable _ _ fuel parsed parsedEq
  exact Option.map_eq_some_iff.mpr ⟨parsed, more, equal⟩

/-- A value without JSON in it is stored as a string, like the value of a header. -/
theorem JsonObject.storeValue_noJson (stale : Memory) (this : JsonObject) (key : Bytes)
    {value : Bytes} (noJson : NoJson value) :
    Converges (this.storeValue stale key value) (this.storeString key value) := by
  have holds := Memory.holds_append.mp (Memory.ofString_holds stale value)
  have blank : Parses (Memory.ofString stale value)
      (.start { this.memberOrNew key with type := .notype } 1)
      ({ this.memberOrNew key with type := .notype }, 1 + value.length - 1) := by
    rw [parses_noJson (.start { this.memberOrNew key with type := .notype } 1) rfl holds.1 noJson]
    exact (parses_terminator holds.2.1).mpr rfl
  obtain ⟨fuel, parsed⟩ := blank
  have parsed : parse (Memory.ofString stale value)
      { this.memberOrNew key with type := .notype } 1 fuel = some _ := parsed
  exact ⟨fuel, by rw [storeValue, parsed]; rfl⟩

theorem JsonObject.storeValue_converges (stale : Memory) (members : List (Bytes × JsonObject))
    {key value : Bytes} (absent : key ∉ KeyedList.keys members) (noJson : NoJson value) :
    Converges (storeValue stale ⟨.object, [], members, []⟩ key value)
      ⟨.object, [], members ++ [(key, ofString value)], []⟩ := by
  have missing : memberOrNew ⟨.object, [], members, []⟩ key = new .notype := by
    simp [memberOrNew, KeyedList.get?_eq_none_iff.mpr absent]
  have stored := storeValue_noJson stale ⟨.object, [], members, []⟩ key noJson
  simp only [storeString, missing, KeyedList.set_of_notMem absent] at stored
  exact stored

namespace HttpParse

variable {memory : Memory} {heap : Nat → Memory}

theorem step_stable (memory : Memory) (heap : Nat → Memory) (parse : HttpParse) :
    Stable (parse.step memory heap) := by
  intro fuel after stepped
  unfold step at stepped ⊢
  cases action : parse.action memory with
  | next other =>
      simp only [action] at stepped ⊢
      exact stepped
  | store resume =>
      simp only [action] at stepped ⊢
      obtain ⟨requestObj, answer, equal⟩ := Option.map_eq_some_iff.mp stepped
      exact Option.map_eq_some_iff.mpr ⟨requestObj, storeValue_stable _ _ _ _ _ _ answer, equal⟩

theorem loop_stable (memory : Memory) (heap : Nat → Memory) (parse : HttpParse) :
    Stable fun fuel => loop memory heap fuel parse := by
  intro fuel
  induction fuel generalizing parse with
  | zero => intro result answer; simp [loop] at answer
  | succ fuel ih =>
      intro result answer
      simp only [loop] at answer ⊢
      split_ifs at answer ⊢ with terminator exits
      · exact answer
      · exact answer
      · obtain ⟨after, stepped, later⟩ := Option.bind_eq_some_iff.mp answer
        exact Option.bind_eq_some_iff.mpr
          ⟨after, step_stable memory heap parse fuel after stepped, ih _ _ later⟩

theorem formStep_stable (memory : Memory) (heap : Nat → Memory) (parse : HttpParse) :
    Stable (parse.formStep memory heap) := by
  intro fuel after stepped
  by_cases ampersand : memory parse.it = ch '&'
  · simp only [formStep, ampersand, if_true] at stepped ⊢
    obtain ⟨requestObj, stored, equal⟩ := Option.map_eq_some_iff.mp stepped
    exact Option.map_eq_some_iff.mpr ⟨requestObj, storeValue_stable _ _ _ _ _ _ stored, equal⟩
  · simp only [formStep, ampersand, if_false] at stepped ⊢
    exact stepped

theorem formLoop_stable (memory : Memory) (heap : Nat → Memory) (parse : HttpParse) :
    Stable fun fuel => formLoop memory heap fuel parse := by
  intro fuel
  induction fuel generalizing parse with
  | zero => intro result answer; simp [formLoop] at answer
  | succ fuel ih =>
      intro result answer
      simp only [formLoop] at answer ⊢
      split_ifs at answer ⊢ with terminator
      · exact answer
      · obtain ⟨after, stepped, later⟩ := Option.bind_eq_some_iff.mp answer
        exact Option.bind_eq_some_iff.mpr
          ⟨after, formStep_stable memory heap parse fuel after stepped, ih _ _ later⟩

theorem parseForm_stable (memory : Memory) (heap : Nat → Memory) (requestObj : JsonObject)
    (it : Nat) : Stable (parseForm memory heap requestObj it) := by
  apply Stable.bind (formLoop_stable memory heap _)
  intro parse
  by_cases value : parse.state = 2
  · simp only [value, if_true]
    exact storeValue_stable _ _ _ _
  · simp only [value, if_false]
    exact stable_const _

theorem parseBody_stable (memory : Memory) (heap : Nat → Memory) (parse : HttpParse) :
    Stable (parse.parseBody memory heap) := by
  intro fuel result answer
  simp only [parseBody] at answer ⊢
  split_ifs at answer ⊢
  · obtain ⟨parsed, parsedEq, equal⟩ := Option.map_eq_some_iff.mp answer
    exact Option.map_eq_some_iff.mpr
      ⟨parsed, parseLoop_stable _ _ fuel parsed parsedEq, equal⟩
  · obtain ⟨requestObj, formEq, equal⟩ := Option.map_eq_some_iff.mp answer
    exact Option.map_eq_some_iff.mpr
      ⟨requestObj, parseForm_stable _ _ _ _ fuel requestObj formEq, equal⟩
  · exact answer

/-- The main loop, entered in `parse`, ends in `result`. -/
def Runs (memory : Memory) (heap : Nat → Memory) (parse result : HttpParse) : Prop :=
  Converges (fun fuel => loop memory heap fuel parse) result

/-- The loop passes from `parse` to `after`. -/
def Reaches (memory : Memory) (heap : Nat → Memory) (parse after : HttpParse) : Prop :=
  ∀ result, Runs memory heap parse result ↔ Runs memory heap after result

theorem Reaches.refl (parse : HttpParse) : Reaches memory heap parse parse :=
  fun _ => Iff.rfl

theorem Reaches.trans {first second third : HttpParse} (start : Reaches memory heap first second)
    (later : Reaches memory heap second third) : Reaches memory heap first third :=
  fun result => (start result).trans (later result)

theorem reaches_of_step {parse after : HttpParse} (inside : memory parse.it ≠ 0)
    (continues : parse.exitHttpParse = false) (stepped : Converges (parse.step memory heap) after) :
    Reaches memory heap parse after.advance := by
  intro result
  have unfolded (fuel : Nat) : loop memory heap (fuel + 1) parse =
      (parse.step memory heap fuel).bind fun after => loop memory heap fuel after.advance := by
    simp [loop, inside, continues]
  rw [Runs, converges_succ rfl unfolded,
    converges_bind (step_stable memory heap parse)
      fun after => loop_stable memory heap after.advance]
  constructor
  · rintro ⟨other, otherStepped, later⟩
    rw [(step_stable memory heap parse).unique stepped otherStepped]
    exact later
  · intro later
    exact ⟨after, stepped, later⟩

theorem reaches_of_next {parse after : HttpParse} (inside : memory parse.it ≠ 0)
    (continues : parse.exitHttpParse = false) (action : parse.action memory = .next after) :
    Reaches memory heap parse after.advance :=
  reaches_of_step inside continues ⟨0, by simp only [step, action]⟩

theorem reaches_of_store {parse : HttpParse} {resume : JsonObject → HttpParse}
    {requestObj : JsonObject} (inside : memory parse.it ≠ 0)
    (continues : parse.exitHttpParse = false) (action : parse.action memory = .store resume)
    (stored : Converges
      (parse.requestObj.storeValue (heap parse.it) parse.newKey parse.newValue) requestObj) :
    Reaches memory heap parse (resume requestObj).advance := by
  obtain ⟨fuel, answer⟩ := stored
  exact reaches_of_step inside continues ⟨fuel, by simp only [step, action, answer, Option.map_some]⟩

theorem runs_exit {parse result : HttpParse} (exits : parse.exitHttpParse = true) :
    Runs memory heap parse result ↔ result = parse := by
  have unfolded (fuel : Nat) : loop memory heap (fuel + 1) parse = some parse := by
    simp [loop, exits]
  rw [Runs, converges_succ rfl unfolded]
  simp [Converges, eq_comm]

section Bytes

variable {requestObj : JsonObject} {it : Nat} {key value : Bytes}

theorem reaches_byte {after : JsonObject} {state stateAfter itAfter : Nat}
    {keyAfter valueAfter : Bytes} {exits : Bool} {byte : UInt8} (here : memory it = byte)
    (nonzero : byte ≠ 0)
    (action : (⟨requestObj, it, false, state, key, value⟩ : HttpParse).action memory =
      .next ⟨after, itAfter, exits, stateAfter, keyAfter, valueAfter⟩) :
    Reaches memory heap ⟨requestObj, it, false, state, key, value⟩
      ⟨after, itAfter + 1, exits, stateAfter, keyAfter, valueAfter⟩ :=
  reaches_of_next (by rw [← here] at nonzero; exact nonzero) rfl action

theorem reaches_space_route (here : memory it = ch ' ') (nonempty : value ≠ []) :
    Reaches memory heap ⟨requestObj, it, false, 1, key, value⟩
      ⟨requestObj.setStringValue (bytes "route") value, it + 1, false, 4, key, []⟩ :=
  reaches_byte here (by decide) (by simp [action, here, nonempty])

theorem reaches_space_value (here : memory it = ch ' ') {stored : JsonObject}
    (stores : Converges (requestObj.storeValue (heap it) key value) stored) :
    Reaches memory heap ⟨requestObj, it, false, 3, key, value⟩
      ⟨stored, it + 1, false, 4, key, []⟩ := by
  have stored : (⟨requestObj, it, false, 3, key, value⟩ : HttpParse).action memory =
      .store fun requestObj => ⟨requestObj, it, false, 4, key, []⟩ := by
    simp [action, here]
  exact reaches_of_store (by change memory it ≠ 0; rw [here]; decide) rfl stored stores

theorem reaches_question (here : memory it = ch '?') :
    Reaches memory heap ⟨requestObj, it, false, 1, key, value⟩
      ⟨requestObj.setStringValue (bytes "route") value, it + 1, false, 2, [], value⟩ :=
  reaches_byte here (by decide) (by simp [action, here, ch_eq_ch_iff])

theorem reaches_equals (here : memory it = ch '=') :
    Reaches memory heap ⟨requestObj, it, false, 2, key, value⟩
      ⟨requestObj, it + 1, false, 3, key, []⟩ :=
  reaches_byte here (by decide) (by simp [action, here, ch_eq_ch_iff])

theorem reaches_ampersand (here : memory it = ch '&') {stored : JsonObject}
    (stores : Converges (requestObj.storeValue (heap it) key value) stored) :
    Reaches memory heap ⟨requestObj, it, false, 3, key, value⟩
      ⟨stored, it + 1, false, 2, [], value⟩ := by
  have stored : (⟨requestObj, it, false, 3, key, value⟩ : HttpParse).action memory =
      .store fun requestObj => ⟨requestObj, it, false, 2, [], value⟩ := by
    simp [action, here, ch_eq_ch_iff]
  exact reaches_of_store (by change memory it ≠ 0; rw [here]; decide) rfl stored stores

theorem reaches_lineFeed_protocol (here : memory it = ch '\n') :
    Reaches memory heap ⟨requestObj, it, false, 4, key, value⟩
      ⟨requestObj.setStringValue (bytes "protocol") value, it + 1, false, 5, [], value⟩ :=
  reaches_byte here (by decide) (by simp [action, here, ch_eq_ch_iff])

theorem reaches_colon (here : memory it = ch ':') :
    Reaches memory heap ⟨requestObj, it, false, 5, key, value⟩
      ⟨requestObj, it + 1 + 1, false, 6, key, []⟩ :=
  reaches_byte here (by decide) (by simp [action, here, ch_eq_ch_iff])

theorem reaches_lineFeed_header (here : memory it = ch '\n') :
    Reaches memory heap ⟨requestObj, it, false, 6, key, value⟩
      ⟨requestObj.storeString key value, it + 1, false, 5, [], value⟩ :=
  reaches_byte here (by decide) (by simp [action, here, ch_eq_ch_iff])

theorem reaches_lineFeed_blank (here : memory it = ch '\n') :
    Reaches memory heap ⟨requestObj, it, false, 5, key, value⟩
      ⟨requestObj, it + 1, true, 8, key, value⟩ :=
  reaches_byte here (by decide) (by simp [action, collect, here, ch_eq_ch_iff])

/-- Values drop carriage returns. -/
theorem reaches_carriage_value (here : memory it = ch '\r') {state : Nat}
    (reads : state = 4 ∨ state = 6) :
    Reaches memory heap ⟨requestObj, it, false, state, key, value⟩
      ⟨requestObj, it + 1, false, state, key, value⟩ := by
  apply reaches_byte here (by decide)
  rcases reads with rfl | rfl <;> simp [action, collect, appendValue, here, ch_eq_ch_iff]

/-- Keys keep carriage returns. -/
theorem reaches_carriage_key (here : memory it = ch '\r') :
    Reaches memory heap ⟨requestObj, it, false, 5, key, value⟩
      ⟨requestObj, it + 1, false, 5, key ++ [ch '\r'], value⟩ :=
  reaches_byte here (by decide) (by simp [action, collect, here, ch_eq_ch_iff])

end Bytes

/-- Bytes of the head that no state treats as an escape or a line end. -/
def Plain (byte : UInt8) : Prop :=
  byte ≠ 0 ∧ byte ≠ ch '\n' ∧ byte ≠ ch '\r' ∧ byte ≠ ch '%'

instance (byte : UInt8) : Decidable (Plain byte) :=
  inferInstanceAs (Decidable (_ ∧ _))

/-- The bytes a state appends to `new_value`. -/
def PartOfValue (state : Nat) (byte : UInt8) : Prop :=
  Plain byte ∧
    (state = 1 ∧ byte ≠ ch ' ' ∧ byte ≠ ch '?' ∨
      state = 3 ∧ byte ≠ ch ' ' ∧ byte ≠ ch '&' ∧ byte ≠ ch '+' ∨
      state = 4 ∨ state = 6)

/-- The bytes a state appends to `new_key`. -/
def PartOfKey (state : Nat) (byte : UInt8) : Prop :=
  Plain byte ∧ (state = 2 ∧ byte ≠ ch ' ' ∧ byte ≠ ch '=' ∨ state = 5 ∧ byte ≠ ch ':')

theorem action_value {parse : HttpParse} {byte : UInt8} (here : memory parse.it = byte)
    (part : PartOfValue parse.state byte) :
    parse.action memory = .next { parse with newValue := parse.newValue ++ [byte] } := by
  obtain ⟨⟨nonzero, lineFeed, carriage, percent⟩, part⟩ := part
  rcases part with ⟨state, space, mark⟩ | ⟨state, space, ampersand, plus⟩ | state | state
  · simp [action, collect, appendValue, here, state, space, mark, lineFeed, carriage, percent]
  · simp [action, collect, appendValue, here, state, space, ampersand, plus, lineFeed, carriage,
      percent]
  · simp [action, collect, appendValue, here, state, lineFeed, carriage, percent]
  · simp [action, collect, appendValue, here, state, lineFeed, carriage, percent]

theorem action_key {parse : HttpParse} {byte : UInt8} (here : memory parse.it = byte)
    (part : PartOfKey parse.state byte) :
    parse.action memory = .next { parse with newKey := parse.newKey ++ [byte] } := by
  obtain ⟨⟨nonzero, lineFeed, carriage, percent⟩, part⟩ := part
  rcases part with ⟨state, space, equals⟩ | ⟨state, colon⟩
  · simp [action, collect, here, state, space, equals, lineFeed]
  · simp [action, collect, here, state, colon, lineFeed]

/-- A stretch of bytes that a family of states, indexed by what has been read, takes one by one. -/
theorem reaches_text {start : Nat} (family : Bytes → HttpParse)
    (cursor : ∀ done, (family done).it = start + done.length)
    (continues : ∀ done, (family done).exitHttpParse = false) {part : UInt8 → Prop}
    (nonzero : ∀ byte, part byte → byte ≠ 0)
    (steps : ∀ done byte, part byte → memory (family done).it = byte →
      ∃ after, (family done).action memory = .next after ∧ after.advance = family (done ++ [byte]))
    (done : Bytes) {text : Bytes} (parts : ∀ byte ∈ text, part byte)
    (holds : memory.Holds (start + done.length) text) :
    Reaches memory heap (family done) (family (done ++ text)) := by
  induction text generalizing done with
  | nil =>
      rw [List.append_nil]
      exact Reaches.refl _
  | cons byte rest ih =>
      obtain ⟨here, later⟩ := holds
      rw [← cursor] at here
      have isPart := parts byte (by simp)
      obtain ⟨after, action, advanced⟩ := steps done byte isPart here
      have first : Reaches memory heap (family done) after.advance :=
        reaches_of_next (by rw [here]; exact nonzero byte isPart) (continues done) action
      rw [advanced] at first
      have second := ih (done ++ [byte]) (fun other member => parts other (by simp [member]))
        (by simpa [Nat.add_assoc] using later)
      simpa using first.trans second

section Stretches

variable {requestObj : JsonObject} {it state : Nat} {key value : Bytes}

theorem reaches_value (text : Bytes) (parts : ∀ byte ∈ text, PartOfValue state byte)
    (holds : memory.Holds it text) :
    Reaches memory heap ⟨requestObj, it, false, state, key, value⟩
      ⟨requestObj, it + text.length, false, state, key, value ++ text⟩ := by
  have stretch : Reaches memory heap _ _ := reaches_text
    (fun done => ⟨requestObj, it + done.length, false, state, key, value ++ done⟩)
    (fun _ => rfl) (fun _ => rfl) (fun byte part => part.1.1)
    (fun done byte part here => ⟨_, action_value here part, by simp [advance, Nat.add_assoc]⟩)
    [] parts holds
  simpa using stretch

theorem reaches_key (text : Bytes) (parts : ∀ byte ∈ text, PartOfKey state byte)
    (holds : memory.Holds it text) :
    Reaches memory heap ⟨requestObj, it, false, state, key, value⟩
      ⟨requestObj, it + text.length, false, state, key ++ text, value⟩ := by
  have stretch : Reaches memory heap _ _ := reaches_text
    (fun done => ⟨requestObj, it + done.length, false, state, key ++ done, value⟩)
    (fun _ => rfl) (fun _ => rfl) (fun byte part => part.1.1)
    (fun done byte part here => ⟨_, action_key here part, by simp [advance, Nat.add_assoc]⟩)
    [] parts holds
  simpa using stretch

end Stretches

end HttpParse

theorem parseHttpRequest_stable (memory : Memory) (heap : Nat → Memory) (request : Nat)
    (requestObj : JsonObject) : Stable (parseHttpRequest memory heap request requestObj) := by
  unfold parseHttpRequest
  cases HttpParse.httpStart memory request with
  | none => exact (parseLoop_stable memory _).map _
  | some start =>
      exact (HttpParse.loop_stable memory heap _).bind (HttpParse.parseBody_stable memory heap)

end Libjaypea
