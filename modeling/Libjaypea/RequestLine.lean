import Libjaypea.HttpRequestHead
import Libjaypea.JsonCursor
import Mathlib.Data.List.TakeWhile

/-!
# The request line and the names in a request

The method and the route are members of the object that is filled with the
query, the headers and the body as well, so a request that names one of them
again replaces it.  Every other request keeps what its first line says.
-/

namespace Libjaypea

open JsonObject

namespace JsonObject

/-- Members under other keys are the same. -/
def SameBut (keys : List Bytes) (before after : JsonObject) : Prop :=
  ∀ key ∉ keys,
    KeyedList.get? after.objectValues key = KeyedList.get? before.objectValues key

section SameBut

variable {before middle after : JsonObject} {first second : List Bytes}

theorem SameBut.of_objectValues (same : after.objectValues = before.objectValues) :
    SameBut [] before after := by
  intro key _
  rw [same]

theorem SameBut.trans (start : SameBut first before middle)
    (later : SameBut second middle after) : SameBut (first ++ second) before after := by
  intro key unnamed
  rw [List.mem_append, not_or] at unnamed
  exact (later key unnamed.2).trans (start key unnamed.1)

theorem SameBut.of_set {key : Bytes} {value : JsonObject}
    (sets : after.objectValues = KeyedList.set before.objectValues key value) :
    SameBut [key] before after := by
  intro other unnamed
  rw [sets, KeyedList.get?_set_of_ne _ (Ne.symm (List.ne_of_not_mem_cons unnamed))]

theorem SameBut.getStr {key : Bytes} (same : SameBut first before after)
    (unnamed : key ∉ first) : after.getStr key = before.getStr key := by
  rw [JsonObject.getStr, JsonObject.getStr, same key unnamed]

theorem SameBut.hasObj {key : Bytes} (same : SameBut first before after)
    (unnamed : key ∉ first) (type : JsonType) : after.hasObj key type = before.hasObj key type := by
  rw [JsonObject.hasObj, JsonObject.hasObj, same key unnamed]

theorem sameBut_setStringValue (before : JsonObject) (key value : Bytes) :
    SameBut [key] before (before.setStringValue key value) := by
  unfold setStringValue
  split
  · intro other _
    rfl
  · exact .of_set rfl

theorem sameBut_storeString (before : JsonObject) (key value : Bytes) :
    SameBut [key] before (before.storeString key value) :=
  .of_set rfl

theorem sameBut_storeValue {stale : Memory} {key value : Bytes} {fuel : Nat}
    (stores : before.storeValue stale key value fuel = some after) :
    SameBut [key] before after := by
  obtain ⟨result, -, rfl⟩ := Option.map_eq_some_iff.mp stores
  exact .of_set rfl

end SameBut

section Sets

variable {memory : Memory} {state : ParseState}

/-- The key of the member that a pass through `parse` sets, if it sets one. -/
def keySet (memory : Memory) (state : ParseState) : List Bytes :=
  if memory state.it = ch ':' ∧ state.this.type = .object ∧ state.objState = .gotKey then
    [state.ss]
  else []

/-- The keys of the members that `parse` sets in its own object. -/
def namesSet (memory : Memory) : Nat → ParseState → Option (List Bytes)
  | 0, _ => none
  | fuel + 1, state =>
      if memory state.it = 0 then some []
      else
        match parseAction memory state with
        | .next after => namesSet memory fuel after.advance
        | .done _ _ => some []
        | .nested resume =>
            (parseLoop memory fuel (.start (new .notype) state.it)).bind fun result =>
              (namesSet memory fuel (resume result.1 result.2).advance).map fun names =>
                keySet memory state ++ names

/-- What a pass does to the members of the object. -/
inductive Effect (memory : Memory) (state : ParseState) : ParseAction → Prop
  | next {after : ParseState} (same : after.this.objectValues = state.this.objectValues) :
      Effect memory state (.next after)
  | done {this : JsonObject} {it : Nat} (same : this.objectValues = state.this.objectValues) :
      Effect memory state (.done this it)
  | nested {resume : JsonObject → Nat → ParseState}
      (same : ∀ value it, SameBut (keySet memory state) state.this (resume value it).this) :
      Effect memory state (.nested resume)

theorem effect (memory : Memory) (state : ParseState) :
    Effect memory state (parseAction memory state) := by
  have collects : ∀ byte, Effect memory state (.next (state.collect byte)) := by
    intro byte
    exact .next (by rw [ParseState.collect_this])
  have elements : ∀ resume : JsonObject → Nat → ParseState,
      (∀ value it, (resume value it).this.objectValues = state.this.objectValues) →
      Effect memory state (.nested resume) := by
    intro resume same
    exact .nested fun value it key _ => by rw [same]
  unfold parseAction
  dsimp only
  refine iteInduction (motive := Effect memory state) (fun backslash => ?_) fun _ => ?_
  · split
    · exact .next rfl
    · exact .next (by rw [ParseState.collect_this])
  refine iteInduction (motive := Effect memory state) (fun quote => ?_) fun _ => ?_
  · split
    · exact .next rfl
    · exact .done rfl
    · split
      · exact .next rfl
      · exact .next rfl
      · exact collects _
    · exact elements _ fun value it => rfl
  refine iteInduction (motive := Effect memory state) (fun openBrace => ?_) fun _ => ?_
  · split
    · exact .next rfl
    · exact elements _ fun value it => rfl
    · exact collects _
  refine iteInduction (motive := Effect memory state) (fun closeBrace => ?_) fun _ => ?_
  · split_ifs
    · exact .done rfl
    · exact .done rfl
    · exact collects _
  refine iteInduction (motive := Effect memory state) (fun openBracket => ?_) fun _ => ?_
  · split
    · exact .next rfl
    · exact elements _ fun value it => rfl
    · exact collects _
  refine iteInduction (motive := Effect memory state) (fun closeBracket => ?_) fun _ => ?_
  · split_ifs
    · exact .done rfl
    · exact .done rfl
    · exact collects _
  refine iteInduction (motive := Effect memory state) (fun colon => ?_) fun _ => collects _
  refine iteInduction (motive := Effect memory state) (fun gotKey => ?_) fun _ => collects _
  refine .nested fun value it => ?_
  rw [keySet, if_pos ⟨colon, gotKey⟩]
  exact .of_set rfl

/-- Members that `parse` does not set stay as they were. -/
theorem parseLoop_keeps {fuel : Nat} {object : JsonObject} {last : Nat}
    (runs : parseLoop memory fuel state = some (object, last)) :
    ∃ names, namesSet memory fuel state = some names ∧ SameBut names state.this object := by
  induction fuel generalizing state with
  | zero => cases runs
  | succ fuel ih =>
      rw [parseLoop_succ] at runs
      rw [namesSet]
      by_cases terminator : memory state.it = 0
      · rw [if_pos terminator] at runs ⊢
        cases runs
        exact ⟨[], rfl, .of_objectValues rfl⟩
      rw [if_neg terminator] at runs ⊢
      have effects := effect memory state
      cases action : parseAction memory state with
      | next after =>
          rw [action] at runs effects
          obtain ⟨names, named, kept⟩ := ih runs
          cases effects with
          | next same => exact ⟨names, named, .trans (.of_objectValues same) kept⟩
      | done this it =>
          rw [action] at runs effects
          cases runs
          cases effects with
          | done same => exact ⟨[], rfl, .of_objectValues same⟩
      | nested resume =>
          rw [action] at runs effects
          obtain ⟨inner, nested, later⟩ := Option.bind_eq_some_iff.mp runs
          obtain ⟨names, named, kept⟩ := ih later
          cases effects with
          | nested same =>
              refine ⟨keySet memory state ++ names, ?_, .trans (same inner.1 inner.2) kept⟩
              simp only [nested, Option.bind_some, named, Option.map_some]

end Sets

end JsonObject

namespace HttpParse

variable {memory : Memory} {heap : Nat → Memory} {parse last : HttpParse} {fuel : Nat}

section Head

/-- The name under which a pass stores something, the route apart. -/
def nameStored (memory : Memory) (parse : HttpParse) : List Bytes :=
  if (memory parse.it = ch ' ' ∨ memory parse.it = ch '&') ∧ parse.state = 3 ∨
      memory parse.it = ch '\n' ∧ parse.state = 6 then
    [parse.newKey]
  else if memory parse.it = ch '\n' ∧ parse.state = 4 then [bytes "protocol"]
  else []

/-- The names that the main loop stores, which are those of the query values
and of the headers, and the protocol. -/
def namesStored (memory : Memory) (heap : Nat → Memory) : Nat → HttpParse → Option (List Bytes)
  | 0, _ => none
  | fuel + 1, parse =>
      if memory parse.it = 0 then some []
      else if parse.exitHttpParse then some []
      else
        (parse.step memory heap fuel).bind fun after =>
          (namesStored memory heap fuel after.advance).map fun names =>
            nameStored memory parse ++ names

/-- What a pass behind the path does to the members of the object. -/
inductive HeadEffect (memory : Memory) (parse : HttpParse) : HttpAction → Prop
  | next {after : HttpParse} (behind : 2 ≤ after.state)
      (same : SameBut (nameStored memory parse) parse.requestObj after.requestObj) :
      HeadEffect memory parse (.next after)
  | store {resume : JsonObject → HttpParse} (names : nameStored memory parse = [parse.newKey])
      (behind : ∀ requestObj, 2 ≤ (resume requestObj).state)
      (object : ∀ requestObj, (resume requestObj).requestObj = requestObj) :
      HeadEffect memory parse (.store resume)

theorem HeadEffect.same {after : HttpParse} (behind : 2 ≤ after.state)
    (same : after.requestObj = parse.requestObj) : HeadEffect memory parse (.next after) :=
  .next behind fun key _ => by rw [same]

theorem appendValue_frame (memory : Memory) (parse : HttpParse) :
    (parse.appendValue memory).requestObj = parse.requestObj ∧
      (parse.appendValue memory).state = parse.state ∧
        (parse.appendValue memory).exitHttpParse = parse.exitHttpParse := by
  unfold appendValue
  dsimp only
  split_ifs <;> exact ⟨rfl, rfl, rfl⟩

theorem collect_frame (memory : Memory) (parse : HttpParse) :
    (parse.collect memory).requestObj = parse.requestObj ∧
      parse.state ≤ (parse.collect memory).state := by
  have appended := appendValue_frame memory parse
  unfold collect
  dsimp only
  split_ifs
  · exact ⟨rfl, Nat.le_refl _⟩
  · exact ⟨appended.1, Nat.le_of_eq appended.2.1.symm⟩
  · exact ⟨appended.1, Nat.le_of_eq appended.2.1.symm⟩
  · exact ⟨rfl, Nat.le_refl _⟩
  all_goals exact ⟨rfl, by dsimp only; omega⟩

theorem headEffect (memory : Memory) (parse : HttpParse) (behind : 2 ≤ parse.state) :
    HeadEffect memory parse (parse.action memory) := by
  have collects : ∀ changed : HttpParse, changed.requestObj = parse.requestObj →
      2 ≤ changed.state → HeadEffect memory parse (.next (changed.collect memory)) := by
    intro changed same later
    obtain ⟨object, state⟩ := collect_frame memory changed
    exact .same (Nat.le_trans later state) (object.trans same)
  unfold action
  dsimp only
  refine iteInduction (motive := HeadEffect memory parse) (fun route => ?_) fun _ => ?_
  · omega
  refine iteInduction (motive := HeadEffect memory parse) (fun noValue => ?_) fun _ => ?_
  · exact .same (Nat.le_add_left 2 2) rfl
  refine iteInduction (motive := HeadEffect memory parse) (fun value => ?_) fun _ => ?_
  · exact .store (if_pos (.inl ⟨.inl value.1, value.2⟩)) (fun _ => Nat.le_add_left 2 2) fun _ => rfl
  refine iteInduction (motive := HeadEffect memory parse) (fun question => ?_) fun _ => ?_
  · omega
  refine iteInduction (motive := HeadEffect memory parse) (fun equals => ?_) fun _ => ?_
  · exact .same (Nat.le_add_left 2 1) rfl
  refine iteInduction (motive := HeadEffect memory parse) (fun pair => ?_) fun _ => ?_
  · exact .store (if_pos (.inl ⟨.inr pair.1, pair.2⟩)) (fun _ => Nat.le_refl 2) fun _ => rfl
  refine iteInduction (motive := HeadEffect memory parse) (fun protocol => ?_) fun _ => ?_
  · refine .next (Nat.le_add_left 2 3) ?_
    have names : nameStored memory parse = [bytes "protocol"] := by
      simp [nameStored, protocol.1, protocol.2, ch_eq_ch_iff]
    rw [names]
    exact sameBut_setStringValue _ _ _
  refine iteInduction (motive := HeadEffect memory parse) (fun blank => ?_) fun _ => ?_
  · exact collects _ rfl (Nat.le_add_left 2 5)
  refine iteInduction (motive := HeadEffect memory parse) (fun header => ?_) fun _ => ?_
  · refine .next (Nat.le_add_left 2 3) ?_
    rw [nameStored, if_pos (.inr header)]
    exact sameBut_storeString _ _ _
  refine iteInduction (motive := HeadEffect memory parse) (fun colon => ?_) fun _ => ?_
  · exact .same (Nat.le_add_left 2 4) rfl
  · exact collects _ rfl behind

/-- Behind the path a pass keeps the members that it does not store. -/
theorem step_keeps {after : HttpParse} (behind : 2 ≤ parse.state)
    (stepped : parse.step memory heap fuel = some after) :
    2 ≤ after.state ∧ SameBut (nameStored memory parse) parse.requestObj after.requestObj := by
  have effects := headEffect memory parse behind
  unfold step at stepped
  cases action : parse.action memory with
  | next other =>
      rw [action] at stepped effects
      cases stepped
      cases effects with
      | next later same => exact ⟨later, same⟩
  | store resume =>
      rw [action] at stepped effects
      obtain ⟨requestObj, stores, rfl⟩ := Option.map_eq_some_iff.mp stepped
      cases effects with
      | store single later object =>
          rw [single, object]
          exact ⟨later requestObj, sameBut_storeValue stores⟩

/-- Behind the path a member stays as it was unless its name is stored. -/
theorem loop_keeps (behind : 2 ≤ parse.state) (runs : loop memory heap fuel parse = some last) :
    ∃ names, namesStored memory heap fuel parse = some names ∧
      SameBut names parse.requestObj last.requestObj := by
  induction fuel generalizing parse with
  | zero => cases runs
  | succ fuel ih =>
      rw [loop] at runs
      rw [namesStored]
      by_cases terminator : memory parse.it = 0
      · rw [if_pos terminator] at runs ⊢
        cases runs
        exact ⟨[], rfl, .of_objectValues rfl⟩
      rw [if_neg terminator] at runs ⊢
      by_cases exits : parse.exitHttpParse = true
      · rw [if_pos exits] at runs ⊢
        cases runs
        exact ⟨[], rfl, .of_objectValues rfl⟩
      rw [if_neg exits] at runs ⊢
      obtain ⟨after, stepped, later⟩ := Option.bind_eq_some_iff.mp runs
      obtain ⟨behindAfter, same⟩ := step_keeps behind stepped
      have advanced : 2 ≤ after.advance.state := behindAfter
      obtain ⟨names, named, kept⟩ := ih advanced later
      refine ⟨nameStored memory parse ++ names, ?_, same.trans kept⟩
      simp only [stepped, Option.bind_some, named, Option.map_some]

end Head

section Path

/-- What the main loop makes of the bytes of a path: two escapes are known, every
other percent sign and every carriage return is dropped. -/
def decodePath : Bytes → Bytes
  | first :: second :: third :: rest =>
      if first = ch '%' ∧ second = ch '2' ∧ third = ch '6' then ch '"' :: decodePath rest
      else if first = ch '%' ∧ second = ch '0' ∧ third = ch 'A' then ch '\n' :: decodePath rest
      else if first = ch '%' ∨ first = ch '\r' then decodePath (second :: third :: rest)
      else first :: decodePath (second :: third :: rest)
  | text => text.filter fun byte => byte ≠ ch '%' ∧ byte ≠ ch '\r'

theorem decodePath_quote (rest : Bytes) :
    decodePath (ch '%' :: ch '2' :: ch '6' :: rest) = ch '"' :: decodePath rest := by
  rw [decodePath, if_pos ⟨rfl, rfl, rfl⟩]

theorem decodePath_lineFeed (rest : Bytes) :
    decodePath (ch '%' :: ch '0' :: ch 'A' :: rest) = ch '\n' :: decodePath rest := by
  rw [decodePath, if_neg (by decide), if_pos ⟨rfl, rfl, rfl⟩]

theorem decodePath_percent {rest : Bytes} (quote : ¬[ch '2', ch '6'] <+: rest)
    (lineFeed : ¬[ch '0', ch 'A'] <+: rest) : decodePath (ch '%' :: rest) = decodePath rest := by
  match rest with
  | [] => rfl
  | [byte] => simp [decodePath]
  | second :: third :: rest =>
      simp only [List.cons_prefix_cons, List.nil_prefix, and_true, eq_comm] at quote lineFeed
      simp [decodePath, quote, lineFeed]

theorem decodePath_carriage (rest : Bytes) : decodePath (ch '\r' :: rest) = decodePath rest := by
  match rest with
  | [] => rfl
  | [byte] => simp [decodePath]
  | second :: third :: rest => simp [decodePath, ch_eq_ch_iff]

theorem decodePath_cons {byte : UInt8} (percent : byte ≠ ch '%') (carriage : byte ≠ ch '\r')
    (rest : Bytes) : decodePath (byte :: rest) = byte :: decodePath rest := by
  match rest with
  | [] => simp [decodePath, percent, carriage]
  | [other] => simp [decodePath, List.filter_cons, percent, carriage]
  | second :: third :: rest => simp [decodePath, percent, carriage]

theorem decodePath_eq_self {path : Bytes}
    (plain : ∀ byte ∈ path, byte ≠ ch '%' ∧ byte ≠ ch '\r') : decodePath path = path := by
  induction path with
  | nil => rfl
  | cons byte rest ih =>
      obtain ⟨⟨percent, carriage⟩, later⟩ := List.forall_mem_cons.mp plain
      rw [decodePath_cons percent carriage, ih later]

/-- The bytes that end no path. -/
def InPath (byte : UInt8) : Prop :=
  byte ≠ 0 ∧ byte ≠ ch ' ' ∧ byte ≠ ch '?'

theorem inPath_of_escape {byte : UInt8} (escapes : byte ∈ bytes "260A") : InPath byte := by
  simp only [bytes, String.reduceToList, List.map_cons, List.map_nil, List.mem_cons,
    List.not_mem_nil, or_false] at escapes
  rcases escapes with rfl | rfl | rfl | rfl <;>
    exact ⟨by decide, by decide, by decide⟩

/-- Two bytes that lie in front of the end of a text are its first two. -/
theorem two_of_holds {it : Nat} {text : Bytes} {ends first second : UInt8}
    (holds : memory.Holds it (text ++ [ends])) (firstHere : memory it = first)
    (secondHere : memory (it + 1) = second) (firstInside : first ≠ ends)
    (secondInside : second ≠ ends) : ∃ rest, text = first :: second :: rest := by
  subst firstHere secondHere
  match text with
  | [] => exact absurd holds.1 firstInside
  | [byte] => exact absurd holds.2.1 secondInside
  | byte :: other :: rest => exact ⟨rest, by rw [holds.1, holds.2.1]⟩

theorem prefix_of_two {it : Nat} {text : Bytes} {ends first second : UInt8}
    (holds : memory.Holds it (text ++ [ends])) (two : [first, second] <+: text) :
    memory it = first ∧ memory (it + 1) = second := by
  obtain ⟨rest, rfl⟩ := two
  exact ⟨holds.1, holds.2.1⟩

/-- What a pass does when it appends to the value: an escape takes two more bytes. -/
inductive Appends (memory : Memory) (parse : HttpParse) (byte : UInt8) (tail : Bytes) : Prop
  | escape {first second decoded : UInt8} {later : Bytes} (percent : byte = ch '%')
      (split : tail = first :: second :: later)
      (known : first ∈ bytes "260A" ∧ second ∈ bytes "260A") (result : decoded ∈ bytes "\"\n")
      (decodes : ∀ rest,
        decodePath (ch '%' :: first :: second :: rest) = decoded :: decodePath rest)
      (appended : parse.appendValue memory =
        { parse with it := parse.it + 2, newValue := parse.newValue ++ [decoded] })
  | percent (percent : byte = ch '%') (quote : ¬[ch '2', ch '6'] <+: tail)
      (lineFeed : ¬[ch '0', ch 'A'] <+: tail) (appended : parse.appendValue memory = parse)
  | carriage (carriage : byte = ch '\r') (appended : parse.appendValue memory = parse)
  | plain (percent : byte ≠ ch '%') (carriage : byte ≠ ch '\r')
      (appended : parse.appendValue memory = { parse with newValue := parse.newValue ++ [byte] })

/-- In front of an end that no escape holds, a pass appends what the bytes stand for. -/
theorem appends {byte ends : UInt8} {tail : Bytes}
    (holds : memory.Holds parse.it (byte :: (tail ++ [ends]))) (outside : ends ∉ bytes "260A") :
    Appends memory parse byte tail := by
  obtain ⟨here, tailHolds⟩ := holds
  have inside (literal : UInt8) (escapes : literal ∈ bytes "260A") : literal ≠ ends := by
    rintro rfl
    exact outside escapes
  by_cases percent : byte = ch '%'
  · subst percent
    by_cases quote : memory (parse.it + 1) = ch '2' ∧ memory (parse.it + 2) = ch '6'
    · obtain ⟨later, split⟩ :=
        two_of_holds tailHolds quote.1 quote.2 (inside _ (by decide)) (inside _ (by decide))
      exact .escape rfl split (by decide) (by decide) decodePath_quote
        (by simp only [appendValue, here, if_true, if_pos quote])
    by_cases lineFeed : memory (parse.it + 1) = ch '0' ∧ memory (parse.it + 2) = ch 'A'
    · obtain ⟨later, split⟩ :=
        two_of_holds tailHolds lineFeed.1 lineFeed.2 (inside _ (by decide)) (inside _ (by decide))
      exact .escape rfl split (by decide) (by decide) decodePath_lineFeed
        (by simp only [appendValue, here, if_true, if_neg quote, if_pos lineFeed])
    · exact .percent rfl (fun two => quote (prefix_of_two tailHolds two))
        (fun two => lineFeed (prefix_of_two tailHolds two))
        (by simp only [appendValue, here, if_true, if_neg quote, if_neg lineFeed])
  · by_cases carriage : byte = ch '\r'
    · subst carriage
      exact .carriage rfl (by simp [appendValue, here, ch_eq_ch_iff])
    · exact .plain percent carriage (by simp [appendValue, here, percent, carriage])

/-- The loop stands inside the path, in front of `text` and the byte that ends it. -/
structure AtPath (memory : Memory) (text : Bytes) (ends : UInt8) (parse : HttpParse) : Prop where
  state : parse.state = 1
  continues : parse.exitHttpParse = false
  value : parse.newValue ≠ []
  inside : ∀ byte ∈ text, InPath byte
  outside : ¬InPath ends
  holds : memory.Holds parse.it (text ++ [ends])

theorem AtPath.action {byte ends : UInt8} {rest : Bytes}
    (atPath : AtPath memory (byte :: rest) ends parse) :
    parse.action memory = .next (parse.appendValue memory) := by
  obtain ⟨nonzero, space, question⟩ := atPath.inside byte List.mem_cons_self
  have here : memory parse.it = byte := atPath.holds.1
  simp [HttpParse.action, collect, atPath.state, here, space, question]

/-- One pass takes a byte of the path, or an escape, and decodes it. -/
theorem AtPath.step {byte ends : UInt8} {rest : Bytes}
    (atPath : AtPath memory (byte :: rest) ends parse) :
    ∃ later, AtPath memory later ends (parse.appendValue memory).advance ∧
      (parse.appendValue memory).newValue ++ decodePath later =
        parse.newValue ++ decodePath (byte :: rest) := by
  have restHolds : memory.Holds (parse.it + 1) (rest ++ [ends]) := atPath.holds.2
  have insideRest : ∀ other ∈ rest, InPath other :=
    fun other member => atPath.inside other (List.mem_cons_of_mem _ member)
  have appended := appends atPath.holds fun escapes => atPath.outside (inPath_of_escape escapes)
  rcases appended with ⟨rfl, rfl, -, -, decodes, appended⟩ | ⟨rfl, quote, lineFeed, appended⟩ |
    ⟨rfl, appended⟩ | ⟨percent, carriage, appended⟩ <;> rw [appended]
  · rename_i later
    refine ⟨later, ⟨atPath.state, atPath.continues, by simp [advance], fun other member => ?_,
      atPath.outside, restHolds.2.2⟩, ?_⟩
    · exact insideRest other (by simp [member])
    · rw [decodes, List.append_assoc, List.singleton_append]
  · refine ⟨rest, ⟨atPath.state, atPath.continues, atPath.value, insideRest, atPath.outside,
      restHolds⟩, ?_⟩
    rw [decodePath_percent quote lineFeed]
  · refine ⟨rest, ⟨atPath.state, atPath.continues, atPath.value, insideRest, atPath.outside,
      restHolds⟩, ?_⟩
    rw [decodePath_carriage]
  · refine ⟨rest, ⟨atPath.state, atPath.continues, by simp [advance], insideRest, atPath.outside,
      restHolds⟩, ?_⟩
    rw [decodePath_cons percent carriage, List.append_assoc, List.singleton_append]

theorem AtPath.leave {ends : UInt8} (atPath : AtPath memory [] ends parse) (nonzero : ends ≠ 0) :
    ∃ after, parse.action memory = .next after ∧ 2 ≤ after.state ∧
      after.requestObj = parse.requestObj.setStringValue (bytes "route") parse.newValue := by
  have here : memory parse.it = ends := atPath.holds.1
  have state := atPath.state
  have value := atPath.value
  have separates : ends = ch ' ' ∨ ends = ch '?' := by
    have outside := atPath.outside
    unfold InPath at outside
    tauto
  rcases separates with rfl | rfl
  · refine ⟨{ parse with
      requestObj := parse.requestObj.setStringValue (bytes "route") parse.newValue
      state := 4
      newValue := [] }, ?_, Nat.le_add_left 2 2, rfl⟩
    simp [HttpParse.action, here, state, value]
  · refine ⟨{ parse with
      requestObj := parse.requestObj.setStringValue (bytes "route") parse.newValue
      newKey := []
      state := 2 }, ?_, Nat.le_refl 2, rfl⟩
    simp [HttpParse.action, here, state, ch_eq_ch_iff]

/-- The object when the path has been read. -/
def routed (ends : UInt8) (requestObj : JsonObject) (route : Bytes) : JsonObject :=
  if ends = 0 then requestObj else requestObj.setStringValue (bytes "route") route

theorem AtPath.unnamed {text : Bytes} {ends : UInt8} (atPath : AtPath memory text ends parse) :
    nameStored memory parse = [] := by
  simp [nameStored, atPath.state]

/-- At the end of the path the route is set, unless the text ends there. -/
theorem AtPath.end_keeps {ends : UInt8} (atPath : AtPath memory [] ends parse)
    (runs : loop memory heap fuel parse = some last) :
    ∃ names, namesStored memory heap fuel parse = some names ∧
      SameBut names (routed ends parse.requestObj parse.newValue) last.requestObj := by
  have here : memory parse.it = ends := atPath.holds.1
  have continues : ¬parse.exitHttpParse = true := by
    simp [atPath.continues]
  cases fuel with
  | zero => cases runs
  | succ fuel =>
      rw [loop, here] at runs
      rw [namesStored, here, atPath.unnamed, routed]
      by_cases terminator : ends = 0
      · rw [if_pos terminator] at runs ⊢
        cases runs
        rw [if_pos terminator]
        exact ⟨[], rfl, .of_objectValues rfl⟩
      · rw [if_neg terminator, if_neg continues] at runs ⊢
        rw [if_neg terminator]
        obtain ⟨after, action, behind, object⟩ := atPath.leave terminator
        have stepped : parse.step memory heap fuel = some after := by
          simp only [HttpParse.step, action]
        rw [stepped, Option.bind_some] at runs ⊢
        have advanced : 2 ≤ after.advance.state := behind
        obtain ⟨names, named, kept⟩ := loop_keeps advanced runs
        have left : after.advance.requestObj = _ := object
        rw [left] at kept
        exact ⟨names, by rw [named]; rfl, kept⟩

/-- Only what is stored under other names is added to what the path leaves. -/
theorem path_keeps {text : Bytes} {ends : UInt8} (atPath : AtPath memory text ends parse)
    (runs : loop memory heap fuel parse = some last) :
    ∃ names, namesStored memory heap fuel parse = some names ∧
      SameBut names (routed ends parse.requestObj (parse.newValue ++ decodePath text))
        last.requestObj := by
  induction fuel generalizing parse text with
  | zero => cases runs
  | succ fuel ih =>
      cases text with
      | nil => simpa [decodePath] using atPath.end_keeps runs
      | cons byte rest =>
          have here : memory parse.it = byte := atPath.holds.1
          have nonzero : memory parse.it ≠ 0 := by
            rw [here]
            exact (atPath.inside byte List.mem_cons_self).1
          have continues : ¬parse.exitHttpParse = true := by
            simp [atPath.continues]
          have stepped : parse.step memory heap fuel = some (parse.appendValue memory) := by
            simp only [HttpParse.step, atPath.action]
          rw [loop, if_neg nonzero, if_neg continues, stepped, Option.bind_some] at runs
          rw [namesStored, if_neg nonzero, if_neg continues, stepped, Option.bind_some,
            atPath.unnamed]
          obtain ⟨later, atLater, decoded⟩ := atPath.step
          obtain ⟨names, named, kept⟩ := ih atLater runs
          have object : (parse.appendValue memory).advance.requestObj = parse.requestObj :=
            (appendValue_frame memory parse).1
          have value : (parse.appendValue memory).advance.newValue ++ decodePath later = _ :=
            decoded
          rw [object, value] at kept
          exact ⟨names, by rw [named]; rfl, kept⟩

end Path

section Body

/-- The name that a pass over a form stores, if it stores one. -/
def formNameStored (memory : Memory) (parse : HttpParse) : List Bytes :=
  if memory parse.it = ch '&' then [parse.newKey] else []

/-- The names that the loop over a form stores. -/
def formNamesStored (memory : Memory) (heap : Nat → Memory) :
    Nat → HttpParse → Option (List Bytes)
  | 0, _ => none
  | fuel + 1, parse =>
      if memory parse.it = 0 then some []
      else
        (parse.formStep memory heap fuel).bind fun after =>
          (formNamesStored memory heap fuel after.advance).map fun names =>
            formNameStored memory parse ++ names

/-- The names of the pairs of a form, the last one included. -/
def namesInForm (memory : Memory) (heap : Nat → Memory) (requestObj : JsonObject) (it : Nat)
    (fuel : Nat) : Option (List Bytes) :=
  let first : HttpParse := ⟨requestObj, it, false, 1, [], []⟩
  (formLoop memory heap fuel first).bind fun last =>
    (formNamesStored memory heap fuel first).map fun names =>
      names ++ if last.state = 2 then [last.newKey] else []

/-- The names of the members that a body sets. -/
def namesInBody (memory : Memory) (heap : Nat → Memory) (parse : HttpParse) (fuel : Nat) :
    Option (List Bytes) :=
  let isString := parse.requestObj.hasObj (bytes "Content-Type") .string
  let contentType := parse.requestObj.getStr (bytes "Content-Type")
  if isString ∧ contentType = some (bytes "application/json") then
    namesSet memory fuel (.start parse.requestObj parse.it)
  else if isString ∧ contentType = some (bytes "application/x-www-form-urlencoded") then
    namesInForm memory heap parse.requestObj parse.it fuel
  else some []

theorem formStep_keeps {after : HttpParse}
    (stepped : parse.formStep memory heap fuel = some after) :
    SameBut (formNameStored memory parse) parse.requestObj after.requestObj := by
  unfold formStep at stepped
  dsimp only at stepped
  rw [formNameStored]
  split_ifs at stepped ⊢ with ampersand equals key value
  · obtain ⟨requestObj, stores, rfl⟩ := Option.map_eq_some_iff.mp stepped
    exact sameBut_storeValue stores
  all_goals
    cases stepped
    exact .of_objectValues rfl

theorem formLoop_keeps (runs : formLoop memory heap fuel parse = some last) :
    ∃ names, formNamesStored memory heap fuel parse = some names ∧
      SameBut names parse.requestObj last.requestObj := by
  induction fuel generalizing parse with
  | zero => cases runs
  | succ fuel ih =>
      rw [formLoop] at runs
      rw [formNamesStored]
      by_cases terminator : memory parse.it = 0
      · rw [if_pos terminator] at runs ⊢
        cases runs
        exact ⟨[], rfl, .of_objectValues rfl⟩
      rw [if_neg terminator] at runs ⊢
      obtain ⟨after, stepped, later⟩ := Option.bind_eq_some_iff.mp runs
      obtain ⟨names, named, kept⟩ := ih later
      refine ⟨formNameStored memory parse ++ names, ?_, (formStep_keeps stepped).trans kept⟩
      simp only [stepped, Option.bind_some, named, Option.map_some]

theorem parseForm_keeps {requestObj after : JsonObject} {it : Nat}
    (runs : parseForm memory heap requestObj it fuel = some after) :
    ∃ names, namesInForm memory heap requestObj it fuel = some names ∧
      SameBut names requestObj after := by
  obtain ⟨last, loops, ends⟩ := Option.bind_eq_some_iff.mp runs
  obtain ⟨names, named, kept⟩ := formLoop_keeps loops
  refine ⟨names ++ if last.state = 2 then [last.newKey] else [], ?_, kept.trans ?_⟩
  · simp only [namesInForm, loops, Option.bind_some, named, Option.map_some]
  · by_cases value : last.state = 2
    · rw [if_pos value] at ends ⊢
      exact sameBut_storeValue ends
    · rw [if_neg value] at ends ⊢
      cases ends
      exact .of_objectValues rfl

theorem parseBody_keeps {kind : RequestResult} {after : JsonObject}
    (runs : parse.parseBody memory heap fuel = some (kind, after)) :
    ∃ names, parse.namesInBody memory heap fuel = some names ∧
      SameBut names parse.requestObj after := by
  unfold parseBody at runs
  unfold namesInBody
  dsimp only at runs ⊢
  split_ifs at runs ⊢ with json form
  · obtain ⟨result, parses, equal⟩ := Option.map_eq_some_iff.mp runs
    cases equal
    exact parseLoop_keeps parses
  · obtain ⟨result, parses, equal⟩ := Option.map_eq_some_iff.mp runs
    cases equal
    exact parseForm_keeps parses
  · cases runs
    exact ⟨[], rfl, .of_objectValues rfl⟩

end Body

section Request

open HttpHead

/-- The main loop behind the slash of a request with the given method. -/
def start (method : Bytes) (it : Nat) : HttpParse :=
  ⟨requestObject method [] (bytes "JPON") [], it, false, 1, [], [ch '/']⟩

/-- The names of everything that is stored from `parse` on: the query, the
protocol, the headers and the body. -/
def namesIn (memory : Memory) (heap : Nat → Memory) (parse : HttpParse) (fuel : Nat) :
    Option (List Bytes) :=
  (loop memory heap fuel parse).bind fun last =>
    (namesStored memory heap fuel parse).bind fun head =>
      (last.namesInBody memory heap fuel).map fun body => head ++ body

/-- The path of a request, behind its first slash. -/
def pathOf (text : Bytes) : Bytes :=
  text.takeWhile fun byte => byte ≠ ch ' ' ∧ byte ≠ ch '?'

/-- The route of a request with the given text behind the slash: there is none
unless the path ends. -/
def routeOf (text : Bytes) : Bytes :=
  if pathOf text = text then [] else ch '/' :: decodePath (pathOf text)

theorem exists_end {text : Bytes} (nonzero : 0 ∉ text) :
    ∃ ends tail, text ++ [0] = pathOf text ++ ends :: tail ∧ ¬InPath ends ∧
      (ends = 0 ↔ pathOf text = text) := by
  have whole : pathOf text ++ text.dropWhile (fun byte => byte ≠ ch ' ' ∧ byte ≠ ch '?') = text :=
    List.takeWhile_append_dropWhile
  cases after : text.dropWhile (fun byte => byte ≠ ch ' ' ∧ byte ≠ ch '?') with
  | nil =>
      rw [after, List.append_nil] at whole
      exact ⟨0, [], by rw [whole], by simp [InPath], by simp [whole]⟩
  | cons ends tail =>
      rw [after] at whole
      have separates : ¬(ends ≠ ch ' ' ∧ ends ≠ ch '?') := by
        have first := List.head?_dropWhile_not
          (fun byte => decide (byte ≠ ch ' ' ∧ byte ≠ ch '?')) text
        rw [after] at first
        simpa using first
      have member : ends ∈ text := by
        rw [← whole]
        simp
      have endsNonzero : ends ≠ 0 := by
        rintro rfl
        exact nonzero member
      refine ⟨ends, tail ++ [0], ?_, fun inside => separates inside.2, ?_⟩
      · conv_lhs => rw [← whole]
        simp
      · constructor
        · intro zero
          exact absurd zero endsNonzero
        · intro all
          rw [all] at whole
          simp at whole

theorem atPath_start (method : Bytes) {text tail : Bytes} {it : Nat} {ends : UInt8}
    (nonzero : 0 ∉ text) (holds : memory.Holds it (text ++ [0]))
    (splits : text ++ [0] = pathOf text ++ ends :: tail) (outside : ¬InPath ends) :
    AtPath memory (pathOf text) ends (start method it) := by
  refine ⟨rfl, rfl, List.cons_ne_nil _ _, fun byte member => ?_, outside, ?_⟩
  · have separates : byte ≠ ch ' ' ∧ byte ≠ ch '?' := by
      simpa using List.mem_takeWhile_imp member
    refine ⟨?_, separates⟩
    rintro rfl
    exact nonzero ((List.takeWhile_prefix _).subset member)
  · rw [splits] at holds
    obtain ⟨pathHolds, endHolds⟩ := Memory.holds_append.mp holds
    exact Memory.holds_append.mpr ⟨pathHolds, endHolds.1, trivial⟩

theorem routed_start (method : Bytes) {text : Bytes} {it : Nat} {ends : UInt8}
    (zero : ends = 0 ↔ pathOf text = text) :
    routed ends (start method it).requestObj ((start method it).newValue ++ decodePath (pathOf text)) =
      requestObject method (routeOf text) (bytes "JPON") [] := by
  unfold routed routeOf
  by_cases unended : pathOf text = text
  · rw [if_pos (zero.mpr unended), if_pos unended]
    rfl
  · rw [if_neg (fun isZero => unended (zero.mp isZero)), if_neg unended]
    rfl

/-- A request with a known method starts the main loop behind its first slash. -/
theorem parseHttpRequest_start {method text : Bytes} {request : Nat} (known : method ∈ methods)
    (holds : memory.Holds request (method ++ (ch ' ' :: ch '/' :: text))) (fuel : Nat) :
    parseHttpRequest memory heap request (new .object) fuel =
      (loop memory heap fuel (start method (request + method.length + 2))).bind fun parse =>
        parse.parseBody memory heap fuel := by
  simp only [parseHttpRequest, httpStart_of_holds known holds]
  rfl

end Request

end HttpParse

open HttpParse HttpHead

section Line

variable {memory : Memory} {heap : Nat → Memory} {method text : Bytes} {request fuel : Nat}
  {kind : RequestResult} {object : JsonObject} (known : method ∈ methods) (nonzero : 0 ∉ text)
  (holds : memory.Holds request (method ++ (ch ' ' :: ch '/' :: (text ++ [0]))))
  (runs : parseHttpRequest memory heap request (new .object) fuel = some (kind, object))

include known nonzero holds runs

/-- A member that nothing is stored under is left as the first line has set it. -/
theorem keeps_requestLine :
    ∃ names, namesIn memory heap (start method (request + method.length + 2)) fuel = some names ∧
      (bytes "method" ∉ names →
        object.hasObj (bytes "method") .string = true ∧
          object.getStr (bytes "method") = some method) ∧
      (bytes "route" ∉ names →
        object.hasObj (bytes "route") .string = true ∧
          object.getStr (bytes "route") = some (routeOf text)) := by
  rw [parseHttpRequest_start known holds] at runs
  obtain ⟨last, loops, body⟩ := Option.bind_eq_some_iff.mp runs
  obtain ⟨ends, tail, splits, outside, zero⟩ := exists_end nonzero
  obtain ⟨-, -, -, textHolds⟩ := Memory.holds_append.mp holds
  have begins := atPath_start method nonzero textHolds splits outside
  obtain ⟨headNames, headNamed, headKept⟩ := path_keeps begins loops
  obtain ⟨bodyNames, bodyNamed, bodyKept⟩ := parseBody_keeps body
  rw [routed_start method zero] at headKept
  have kept := headKept.trans bodyKept
  refine ⟨headNames ++ bodyNames, ?_, fun unnamed => ⟨?_, ?_⟩, fun unnamed => ⟨?_, ?_⟩⟩
  · simp only [namesIn, loops, Option.bind_some, headNamed, bodyNamed, Option.map_some]
  · rw [kept.hasObj unnamed]
    rfl
  · rw [kept.getStr unnamed]
    rfl
  · rw [kept.hasObj unnamed]
    rfl
  · rw [kept.getStr unnamed]
    rfl

/-- The first line decides the method and the route of a request that stores
nothing under these names. -/
theorem requestLine_of_unnamed :
    ∃ names, namesIn memory heap (start method (request + method.length + 2)) fuel = some names ∧
      (bytes "method" ∉ names →
        object.hasObj (bytes "method") .string = true ∧
          object.getStr (bytes "method") = some method) ∧
      (bytes "route" ∉ names → pathOf text ≠ text →
        (∀ byte ∈ pathOf text, byte ≠ ch '%' ∧ byte ≠ ch '\r') →
        object.hasObj (bytes "route") .string = true ∧
          object.getStr (bytes "route") = some (ch '/' :: pathOf text)) := by
  obtain ⟨names, named, keepsMethod, keepsRoute⟩ := keeps_requestLine known nonzero holds runs
  refine ⟨names, named, keepsMethod, fun unnamed ended plain => ?_⟩
  have route := keepsRoute unnamed
  rwa [routeOf, if_neg ended, decodePath_eq_self plain] at route

end Line

namespace Sample

/-- A request in memory, given what stands behind `GET /`. -/
def getRequest (text : Bytes) : Memory :=
  Memory.ofString (fun _ => 0) (bytes "GET" ++ (ch ' ' :: ch '/' :: text))

/-- The method and the route that the request is parsed to. -/
def lineOf (text : Bytes) : Option (Option Bytes × Option Bytes) :=
  (parseHttpRequest (getRequest text) (fun _ _ => 0) 1 (new .object) 60).map fun result =>
    (result.2.getStr (bytes "method"), result.2.getStr (bytes "route"))

def oneHeader : Bytes :=
  bytes "a/b HTTP/1.1\r\nHost: x\r\n\r\n"

theorem named_oneHeader :
    namesIn (getRequest oneHeader) (fun _ _ => 0) (start (bytes "GET") 6) 40 =
      some [bytes "protocol", bytes "Host"] := by
  decide +kernel

end Sample

theorem requestLine_of_unnamed_oneHeader :
    ∃ kind object, parseHttpRequest (Sample.getRequest Sample.oneHeader) (fun _ _ => 0) 1
        (new .object) 40 = some (kind, object) ∧
      object.getStr (bytes "method") = some (bytes "GET") ∧
      object.getStr (bytes "route") = some (bytes "/a/b") := by
  have holds := Memory.ofString_holds (fun _ => 0)
    (bytes "GET" ++ (ch ' ' :: ch '/' :: Sample.oneHeader))
  rw [List.append_assoc, List.cons_append, List.cons_append] at holds
  have parses : (parseHttpRequest (Sample.getRequest Sample.oneHeader) (fun _ _ => 0) 1
      (new .object) 40).isSome = true := by
    decide +kernel
  obtain ⟨⟨kind, object⟩, runs⟩ := Option.isSome_iff_exists.mp parses
  obtain ⟨names, named, method, route⟩ :=
    requestLine_of_unnamed (by decide) (by decide) holds runs
  have found := Sample.named_oneHeader.symm.trans named
  cases found
  exact ⟨kind, object, runs, (method (by decide)).2,
    (route (by decide) (by decide) (by decide +kernel)).2⟩

/-- A query value and a header replace the route and the method. -/
theorem exists_line_replaced :
    Sample.lineOf (bytes "a?route=/b HTTP/1.1\r\nmethod: PUT\r\n\r\n") =
        some (some (bytes "PUT"), some (bytes "/b")) ∧
      pathOf (bytes "a?route=/b HTTP/1.1\r\nmethod: PUT\r\n\r\n") = bytes "a" := by
  decide +kernel

end Libjaypea
