import Libjaypea.JsonParseRun
import Libjaypea.StandardJson

/-!
# Parsing what was written

A text renders an object when it writes its members in iteration order and its
items in array order, with any white space around the tokens and every string
written by `escape`.  `parse` rebuilds the object from every such text, and
`stringify` produces such texts.
-/

namespace Libjaypea

namespace JsonObject

open Fuelled
open StandardJson (isSpace Whitespace whitespace_nil)

mutual

/-- A tree of strings, objects and arrays: every node holds what its type
calls for, object keys are distinct, and strings survive `escape`. -/
def WellFormed : JsonObject → Prop
  | ⟨.notype, _, _, _⟩ => False
  | ⟨.string, value, members, items⟩ => Clean value ∧ members = [] ∧ items = []
  | ⟨.object, value, members, items⟩ =>
      value = [] ∧ items = [] ∧ (KeyedList.keys members).Nodup ∧ WellFormedMembers members
  | ⟨.array, value, members, items⟩ => value = [] ∧ members = [] ∧ WellFormedItems items

def WellFormedMembers : List (Bytes × JsonObject) → Prop
  | [] => True
  | (key, value) :: rest => Clean key ∧ value.WellFormed ∧ WellFormedMembers rest

def WellFormedItems : List JsonObject → Prop
  | [] => True
  | item :: rest => item.WellFormed ∧ WellFormedItems rest

end

mutual

/-- `text` writes the object, without white space around it. -/
def Renders : JsonObject → Bytes → Prop
  | ⟨.notype, _, _, _⟩, _ => False
  | ⟨.string, value, _, _⟩, text => text = escape value
  | ⟨.object, _, members, _⟩, text =>
      ∃ body, RendersMembers members body ∧ text = ch '{' :: (body ++ [ch '}'])
  | ⟨.array, _, _, items⟩, text =>
      ∃ body, RendersItems items body ∧ text = ch '[' :: (body ++ [ch ']'])

def RendersMembers : List (Bytes × JsonObject) → Bytes → Prop
  | [], body => Whitespace body
  | (key, value) :: rest, body =>
      ∃ before afterKey beforeValue valueText afterValue tail,
        Whitespace before ∧ Whitespace afterKey ∧ Whitespace beforeValue ∧ Whitespace afterValue ∧
        value.Renders valueText ∧
        (rest = [] ∧ tail = [] ∨
          rest ≠ [] ∧ ∃ more, RendersMembers rest more ∧ tail = ch ',' :: more) ∧
        body = before ++ (escape key ++ (afterKey ++ (ch ':' ::
          (beforeValue ++ (valueText ++ (afterValue ++ tail))))))

def RendersItems : List JsonObject → Bytes → Prop
  | [], body => Whitespace body
  | item :: rest, body =>
      ∃ before itemText afterItem tail,
        Whitespace before ∧ Whitespace afterItem ∧ item.Renders itemText ∧
        (rest = [] ∧ tail = [] ∨
          rest ≠ [] ∧ ∃ more, RendersItems rest more ∧ tail = ch ',' :: more) ∧
        body = before ++ (itemText ++ (afterItem ++ tail))

end

/-- A string literal with this body. -/
def quoted (body : Bytes) : Bytes :=
  ch '"' :: body ++ [ch '"']

mutual

/-- `parse` builds the tree from `text`: its strings may be escaped in any way
that the parser collects to their values. -/
def Builds : JsonObject → Bytes → Prop
  | ⟨.notype, _, _, _⟩, _ => False
  | ⟨.string, value, members, items⟩, text =>
      members = [] ∧ items = [] ∧ ∃ body, Collects body value ∧ text = quoted body
  | ⟨.object, value, members, items⟩, text =>
      value = [] ∧ items = [] ∧ (KeyedList.keys members).Nodup ∧
        ∃ body, BuildsMembers members body ∧ text = ch '{' :: (body ++ [ch '}'])
  | ⟨.array, value, members, items⟩, text =>
      value = [] ∧ members = [] ∧
        ∃ body, BuildsItems items body ∧ text = ch '[' :: (body ++ [ch ']'])

def BuildsMembers : List (Bytes × JsonObject) → Bytes → Prop
  | [], body => Whitespace body
  | (key, value) :: rest, body =>
      ∃ before keyBody afterKey beforeValue valueText afterValue tail,
        Whitespace before ∧ Collects keyBody key ∧ Whitespace afterKey ∧ Whitespace beforeValue ∧
        Whitespace afterValue ∧ value.Builds valueText ∧
        (rest = [] ∧ tail = [] ∨
          rest ≠ [] ∧ ∃ more, BuildsMembers rest more ∧ tail = ch ',' :: more) ∧
        body = before ++ (quoted keyBody ++ (afterKey ++ (ch ':' ::
          (beforeValue ++ (valueText ++ (afterValue ++ tail))))))

def BuildsItems : List JsonObject → Bytes → Prop
  | [], body => Whitespace body
  | item :: rest, body =>
      ∃ before itemText afterItem tail,
        Whitespace before ∧ Whitespace afterItem ∧ item.Builds itemText ∧
        (rest = [] ∧ tail = [] ∨
          rest ≠ [] ∧ ∃ more, BuildsItems rest more ∧ tail = ch ',' :: more) ∧
        body = before ++ (itemText ++ (afterItem ++ tail))

end

mutual

theorem Renders.builds : ∀ {value : JsonObject} {text : Bytes},
    value.WellFormed → value.Renders text → value.Builds text
  | ⟨.notype, _, _, _⟩, _, wellFormed, _ => by simp [WellFormed] at wellFormed
  | ⟨.string, value, members, items⟩, text, wellFormed, renders => by
      simp only [WellFormed] at wellFormed
      simp only [Renders] at renders
      exact ⟨wellFormed.2.1, wellFormed.2.2, _, collects_escaped wellFormed.1, renders⟩
  | ⟨.object, value, members, items⟩, text, wellFormed, renders => by
      simp only [WellFormed] at wellFormed
      obtain ⟨value, items, distinct, wellFormed⟩ := wellFormed
      simp only [Renders] at renders
      obtain ⟨body, renders, same⟩ := renders
      exact ⟨value, items, distinct, body, rendersMembers_builds wellFormed renders, same⟩
  | ⟨.array, value, members, items⟩, text, wellFormed, renders => by
      simp only [WellFormed] at wellFormed
      obtain ⟨value, members, wellFormed⟩ := wellFormed
      simp only [Renders] at renders
      obtain ⟨body, renders, same⟩ := renders
      exact ⟨value, members, body, rendersItems_builds wellFormed renders, same⟩

theorem rendersMembers_builds : ∀ {members : List (Bytes × JsonObject)} {body : Bytes},
    WellFormedMembers members → RendersMembers members body → BuildsMembers members body
  | [], _, _, renders => renders
  | (key, value) :: rest, body, wellFormed, renders => by
      simp only [WellFormedMembers] at wellFormed
      obtain ⟨clean, valueWellFormed, restWellFormed⟩ := wellFormed
      simp only [RendersMembers] at renders
      obtain ⟨before, afterKey, beforeValue, valueText, afterValue, tail, beforeSpaces,
        afterKeySpaces, beforeValueSpaces, afterValueSpaces, valueRenders, ending, same⟩ := renders
      refine ⟨before, _, afterKey, beforeValue, valueText, afterValue, tail, beforeSpaces,
        collects_escaped clean, afterKeySpaces, beforeValueSpaces, afterValueSpaces,
        Renders.builds valueWellFormed valueRenders, ?_, same⟩
      rcases ending with last | ⟨more, text, textRenders, tail⟩
      · exact .inl last
      · exact .inr ⟨more, text, rendersMembers_builds restWellFormed textRenders, tail⟩

theorem rendersItems_builds : ∀ {items : List JsonObject} {body : Bytes},
    WellFormedItems items → RendersItems items body → BuildsItems items body
  | [], _, _, renders => renders
  | item :: rest, body, wellFormed, renders => by
      simp only [WellFormedItems] at wellFormed
      simp only [RendersItems] at renders
      obtain ⟨before, itemText, afterItem, tail, beforeSpaces, afterItemSpaces, itemRenders,
        ending, same⟩ := renders
      refine ⟨before, itemText, afterItem, tail, beforeSpaces, afterItemSpaces,
        Renders.builds wellFormed.1 itemRenders, ?_, same⟩
      rcases ending with last | ⟨more, text, textRenders, tail⟩
      · exact .inl last
      · exact .inr ⟨more, text, rendersItems_builds wellFormed.2 textRenders, tail⟩

end

mutual

/-- The same tree: equal up to the iteration order of the maps in it. -/
def Same : JsonObject → JsonObject → Prop
  | ⟨type, value, members, items⟩, other =>
      other.type = type ∧ other.stringValue = value ∧
        (KeyedList.keys other.objectValues).Perm (KeyedList.keys members) ∧
        SameMembers members other.objectValues ∧ SameItems items other.arrayValues

def SameMembers : List (Bytes × JsonObject) → List (Bytes × JsonObject) → Prop
  | [], _ => True
  | (key, value) :: rest, others =>
      (∃ other, (key, other) ∈ others ∧ value.Same other) ∧ SameMembers rest others

def SameItems : List JsonObject → List JsonObject → Prop
  | [], others => others = []
  | item :: rest, others =>
      ∃ other tail, others = other :: tail ∧ item.Same other ∧ SameItems rest tail

end

/-- `text` writes the tree `value`, its keys in any order, after any white space. -/
def Writes (value : JsonObject) (text : Bytes) : Prop :=
  ∃ ordered before core, value.Same ordered ∧ Whitespace before ∧ ordered.Renders core ∧
    text = before ++ core

/-- Where `parse` leaves the cursor after a value of `length` bytes at `it`:
behind a string, on the closing bracket of an object or array. -/
def finish (value : JsonObject) (it length : Nat) : Nat :=
  if value.type = .string then it + length else it + length - 1

section Tokens

variable {memory : Memory} {result : JsonObject × Nat}

theorem ordinary_of_isSpace {byte : UInt8} (space : isSpace byte) :
    byte ≠ 0 ∧ byte ∉ structural := by
  rcases StandardJson.eq_of_isSpace space with rfl | rfl | rfl | rfl <;> decide

theorem parses_iff_of_cursor {this : JsonObject} {ss : Bytes} {objState : JsonObjectState}
    {it other : Nat} (equal : it = other) :
    Parses memory ⟨this, ss, objState, it⟩ result ↔
      Parses memory ⟨this, ss, objState, other⟩ result := by
  rw [equal]

theorem parses_spaces (state : ParseState) {text : Bytes} (idle : ¬ state.Collecting)
    (spaces : Whitespace text) (holds : memory.Holds state.it text) :
    Parses memory state result ↔
      Parses memory { state with it := state.it + text.length } result :=
  parses_idle state idle holds fun byte member => ordinary_of_isSpace (spaces byte member)

theorem parses_comma (state : ParseState) (idle : ¬ state.Collecting)
    (here : memory state.it = ch ',') :
    Parses memory state result ↔ Parses memory state.advance result := by
  have holds : memory.Holds state.it [ch ','] := ⟨here, trivial⟩
  refine parses_idle state idle holds fun byte member => ?_
  rw [List.mem_singleton.mp member]
  decide

/-- A string literal read by a fresh object. -/
theorem parses_string {body value : Bytes} (collects : Collects body value) {it : Nat}
    (holds : memory.Holds it (quoted body)) :
    Parses memory (.start (new .notype) it) (ofString value, it + (quoted body).length) := by
  simp only [quoted, List.cons_append, Memory.holds_cons, Memory.holds_append,
    Memory.holds_nil, and_true] at holds
  obtain ⟨opening, inside, closing⟩ := holds
  have opens : parseAction memory (.start (new .notype) it) =
      .next (.start (new .string) it) :=
    parseAction_quote (.start (new .notype) it) opening
  rw [parses_next (by change memory it ≠ 0; rw [opening]; decide) opens]
  rw [parses_collects (ParseState.start (new .string) it).advance collects (Or.inl rfl) inside]
  have closes := parseAction_quote
    ⟨new .string, value, .noState, it + 1 + body.length⟩ closing
  refine (parses_done ?_ closes).mpr ?_
  · change memory (it + 1 + _) ≠ 0
    rw [closing]
    decide
  · simp [quoted, ofString, new]
    omega

/-- An object key, from its opening to its closing quote. -/
theorem parses_key {stringValue : Bytes} {members : List (Bytes × JsonObject)}
    {items : List JsonObject} {body key : Bytes} (collects : Collects body key) {it : Nat}
    (holds : memory.Holds it (quoted body)) :
    Parses memory ⟨⟨.object, stringValue, members, items⟩, [], .noState, it⟩ result ↔
      Parses memory
        ⟨⟨.object, stringValue, members, items⟩, key, .gotKey, it + (quoted body).length⟩
        result := by
  simp only [quoted, List.cons_append, Memory.holds_cons, Memory.holds_append,
    Memory.holds_nil, and_true] at holds
  obtain ⟨opening, inside, closing⟩ := holds
  have opens := parseAction_quote
    ⟨⟨.object, stringValue, members, items⟩, [], .noState, it⟩ opening
  rw [parses_next (by change memory it ≠ 0; rw [opening]; decide) opens,
    parses_collects _ collects (Or.inr ⟨rfl, rfl⟩) inside]
  have closes := parseAction_quote
    ⟨⟨.object, stringValue, members, items⟩, key, .getKey, it + 1 + body.length⟩ closing
  refine (parses_next (by change memory (it + 1 + _) ≠ 0; rw [closing]; decide) closes).trans ?_
  have shift : it + 1 + body.length + 1 = it + (quoted body).length := by
    simp [quoted]
    omega
  simp only [ParseState.advance, shift]

/-- A member value is parsed from the colon in front of it. -/
theorem parses_of_colon {it : Nat} {before text : Bytes} {value : JsonObject × Nat}
    (spaces : Whitespace before) (colon : memory it = ch ':')
    (holds : memory.Holds (it + 1) (before ++ text))
    (inner : Parses memory (.start (new .notype) (it + 1 + before.length)) value) :
    Parses memory (.start (new .notype) it) value := by
  have idle (position : Nat) : ¬ (ParseState.start (new .notype) position).Collecting := by
    simp [ParseState.Collecting, ParseState.start, new]
  have skips : parseAction memory (.start (new .notype) it) = .next (.start (new .notype) it) := by
    rw [parseAction_colon (.start (new .notype) it) colon,
      collect_of_not_collecting _ (idle it)]
    rfl
  rw [parses_next (by change memory it ≠ 0; rw [colon]; decide) skips]
  rw [Memory.holds_append] at holds
  exact (parses_spaces (.start (new .notype) (it + 1)) (idle _) spaces holds.1).mpr inner

/-- The cursor after a nested value, once the caller has stepped over it. -/
theorem member_cursor (value : JsonObject) (it : Nat) {length : Nat} (positive : 0 < length)
    (typed : value.type ≠ .notype) :
    (if value.type ≠ .object ∧ value.type ≠ .array then value.finish it length - 1
      else value.finish it length) + 1 = it + length := by
  cases kind : value.type <;> simp [finish, kind] at typed ⊢ <;> omega

end Tokens

theorem builds_cases {value : JsonObject} {text : Bytes} (builds : value.Builds text) :
    value.type = .string ∧ (∃ rest, text = ch '"' :: rest) ∨
      value.type = .object ∧ (∃ rest, text = ch '{' :: rest) ∨
      value.type = .array ∧ (∃ rest, text = ch '[' :: rest) := by
  obtain ⟨type, stringValue, members, items⟩ := value
  cases type with
  | notype => simp [Builds] at builds
  | string =>
      simp only [Builds] at builds
      obtain ⟨-, -, body, -, equal⟩ := builds
      exact Or.inl ⟨rfl, _, by rw [equal, quoted, List.cons_append]⟩
  | object =>
      simp only [Builds] at builds
      obtain ⟨-, -, -, body, -, equal⟩ := builds
      exact Or.inr (Or.inl ⟨rfl, _, equal⟩)
  | array =>
      simp only [Builds] at builds
      obtain ⟨-, -, body, -, equal⟩ := builds
      exact Or.inr (Or.inr ⟨rfl, _, equal⟩)

section Containers

variable {memory : Memory} {result : JsonObject × Nat}

theorem parses_item {stringValue : Bytes} {members : List (Bytes × JsonObject)}
    {items : List JsonObject} {value : JsonObject} {text : Bytes} {it : Nat}
    (builds : value.Builds text) (holds : memory.Holds it text)
    (inner : Parses memory (.start (new .notype) it) (value, value.finish it text.length)) :
    Parses memory ⟨⟨.array, stringValue, members, items⟩, [], .noState, it⟩ result ↔
      Parses memory
        ⟨⟨.array, stringValue, members, items ++ [value]⟩, [], .noState, it + text.length⟩
        result := by
  let state : ParseState := ⟨⟨.array, stringValue, members, items⟩, [], .noState, it⟩
  rcases builds_cases builds with ⟨type, rest, rfl⟩ | ⟨type, rest, rfl⟩ | ⟨type, rest, rfl⟩
  · have here : memory it = ch '"' := holds.1
    have action := parseAction_quote state here
    rw [parses_nested_of (by change memory it ≠ 0; rw [here]; decide) action inner]
    simp [state, ParseState.pushBack, ParseState.advance, finish, type, Nat.add_assoc]
  · have here : memory it = ch '{' := holds.1
    have action := parseAction_openBrace state here
    rw [parses_nested_of (by change memory it ≠ 0; rw [here]; decide) action inner]
    simp [state, ParseState.pushBack, ParseState.advance, finish, type, Nat.add_assoc]
  · have here : memory it = ch '[' := holds.1
    have action := parseAction_openBracket state here
    rw [parses_nested_of (by change memory it ≠ 0; rw [here]; decide) action inner]
    simp [state, ParseState.pushBack, ParseState.advance, finish, type, Nat.add_assoc]

/-- One member, from the quote of its key to the end of its value. -/
theorem parses_member {stringValue : Bytes} {members : List (Bytes × JsonObject)}
    {items : List JsonObject} {value : JsonObject} {keyBody key : Bytes}
    (collects : Collects keyBody key) {afterKey beforeValue valueText : Bytes}
    (spaces : Whitespace afterKey) (spacesBefore : Whitespace beforeValue)
    (builds : value.Builds valueText) {it : Nat}
    (holds : memory.Holds it
      (quoted keyBody ++ (afterKey ++ (ch ':' :: (beforeValue ++ valueText)))))
    (inner : ∀ {position}, memory.Holds position valueText →
      Parses memory (.start (new .notype) position)
        (value, value.finish position valueText.length)) :
    Parses memory ⟨⟨.object, stringValue, members, items⟩, [], .noState, it⟩ result ↔
      Parses memory
        ⟨⟨.object, stringValue, KeyedList.set members key value, items⟩, [], .noState,
          it + (quoted keyBody ++ (afterKey ++ (ch ':' :: (beforeValue ++ valueText)))).length⟩
        result := by
  rw [Memory.holds_append, Memory.holds_append] at holds
  obtain ⟨keyHolds, afterKeyHolds, colon, valueHolds⟩ := holds
  rw [parses_key collects keyHolds,
    parses_spaces _ (by simp [ParseState.Collecting]) spaces afterKeyHolds]
  have action := parseAction_colon
    ⟨⟨.object, stringValue, members, items⟩, key, .gotKey,
      it + (quoted keyBody).length + afterKey.length⟩ colon
  simp only [and_self, if_true] at action
  have parsed := parses_of_colon spacesBefore colon valueHolds
    (inner (Memory.holds_append.mp valueHolds).2)
  refine (parses_nested_of (by change memory (_ + _) ≠ 0; rw [colon]; decide) action parsed).trans
    ?_
  have typed : value.type ≠ .notype ∧ 0 < valueText.length := by
    rcases builds_cases builds with ⟨type, rest, rfl⟩ | ⟨type, rest, rfl⟩ | ⟨type, rest, rfl⟩ <;>
      simp [type]
  simp only [ParseState.setMember, ParseState.advance, member_cursor value _ typed.2 typed.1]
  have cursor : it + (quoted keyBody).length + afterKey.length + 1 + beforeValue.length +
      valueText.length =
        it + (quoted keyBody ++ (afterKey ++ (ch ':' :: (beforeValue ++ valueText)))).length := by
    simp only [List.length_append, List.length_cons]
    omega
  rw [cursor]

/-- What follows a value inside a container, in front of the closing bracket. -/
theorem parses_separator {state : ParseState} {afterValue tail : Bytes}
    (idle : ¬ state.Collecting) (spaces : Whitespace afterValue)
    (holds : memory.Holds state.it (afterValue ++ (ch ',' :: tail))) :
    Parses memory state result ↔
      Parses memory { state with it := state.it + afterValue.length + 1 } result := by
  rw [Memory.holds_append] at holds
  rw [parses_spaces state idle spaces holds.1]
  exact parses_comma { state with it := state.it + afterValue.length } idle holds.2.1

mutual

theorem parses_builds : ∀ {value : JsonObject} {text : Bytes} {it : Nat},
    value.Builds text → memory.Holds it text →
      Parses memory (.start (new .notype) it) (value, value.finish it text.length)
  | ⟨.notype, _, _, _⟩, _, _, builds, _ => by simp [Builds] at builds
  | ⟨.string, value, members, items⟩, text, it, builds, holds => by
      simp only [Builds] at builds
      obtain ⟨rfl, rfl, body, collects, rfl⟩ := builds
      exact parses_string collects holds
  | ⟨.object, value, members, items⟩, text, it, builds, holds => by
      simp only [Builds] at builds
      obtain ⟨rfl, rfl, distinct, body, builds, rfl⟩ := builds
      rw [Memory.holds_cons, Memory.holds_append] at holds
      obtain ⟨opening, bodyHolds, closing, -⟩ := holds
      have opens := parseAction_openBrace (.start (new .notype) it) opening
      rw [parses_next (by change memory it ≠ 0; rw [opening]; decide) opens]
      refine (parses_members builds bodyHolds).mpr ?_
      have closes := parseAction_closeBrace
        ⟨⟨.object, [], members, []⟩, [], .noState, it + 1 + body.length⟩ closing
      rw [KeyedList.setAll_of_disjoint (by simpa [new, ParseState.start] using distinct)]
      refine (parses_done (by change memory (_ + _) ≠ 0; rw [closing]; decide) closes).mpr ?_
      simp [finish]
      omega
  | ⟨.array, value, members, items⟩, text, it, builds, holds => by
      simp only [Builds] at builds
      obtain ⟨rfl, rfl, body, builds, rfl⟩ := builds
      rw [Memory.holds_cons, Memory.holds_append] at holds
      obtain ⟨opening, bodyHolds, closing, -⟩ := holds
      have opens := parseAction_openBracket (.start (new .notype) it) opening
      rw [parses_next (by change memory it ≠ 0; rw [opening]; decide) opens]
      refine (parses_items builds bodyHolds).mpr ?_
      have closes := parseAction_closeBracket
        ⟨⟨.array, [], [], items⟩, [], .noState, it + 1 + body.length⟩ closing
      refine (parses_done (by change memory (_ + _) ≠ 0; rw [closing]; decide) closes).mpr ?_
      simp [finish]
      omega

theorem parses_members : ∀ {updates : List (Bytes × JsonObject)} {stringValue : Bytes}
    {members : List (Bytes × JsonObject)} {items : List JsonObject}
    {body : Bytes} {it : Nat} {result : JsonObject × Nat},
      BuildsMembers updates body → memory.Holds it body →
      (Parses memory ⟨⟨.object, stringValue, members, items⟩, [], .noState, it⟩ result ↔
        Parses memory
          ⟨⟨.object, stringValue, KeyedList.setAll members updates, items⟩, [], .noState,
            it + body.length⟩ result)
  | [], _, _, _, _, _, _, builds, holds =>
      parses_spaces _ (by simp [ParseState.Collecting]) builds holds
  | (key, value) :: rest, _, _, _, body, it, result, builds, holds => by
      simp only [BuildsMembers] at builds
      obtain ⟨before, keyBody, afterKey, beforeValue, valueText, afterValue, tail, beforeSpaces,
        collects, afterKeySpaces, beforeValueSpaces, afterValueSpaces, valueBuilds, ending,
        rfl⟩ := builds
      have grouped : before ++ (quoted keyBody ++ (afterKey ++ (ch ':' :: (beforeValue ++
          (valueText ++ (afterValue ++ tail)))))) =
            before ++ ((quoted keyBody ++ (afterKey ++ (ch ':' :: (beforeValue ++ valueText)))) ++
              (afterValue ++ tail)) := by
        simp
      rw [grouped] at holds ⊢
      obtain ⟨beforeHolds, holds⟩ := Memory.holds_append.mp holds
      obtain ⟨memberHolds, holds⟩ := Memory.holds_append.mp holds
      obtain ⟨afterHolds, tailHolds⟩ := Memory.holds_append.mp holds
      rw [parses_spaces _ (by simp [ParseState.Collecting]) beforeSpaces beforeHolds,
        parses_member collects afterKeySpaces beforeValueSpaces valueBuilds memberHolds
          (parses_builds valueBuilds)]
      rcases ending with ⟨rfl, rfl⟩ | ⟨-, more, moreBuilds, rfl⟩
      · rw [parses_spaces _ (by simp [ParseState.Collecting]) afterValueSpaces afterHolds]
        exact parses_iff_of_cursor (by simp; omega)
      · rw [parses_separator (by simp [ParseState.Collecting]) afterValueSpaces
            (Memory.holds_append.mpr ⟨afterHolds, tailHolds⟩),
          parses_members moreBuilds tailHolds.2]
        exact parses_iff_of_cursor (by simp; omega)

theorem parses_items : ∀ {more : List JsonObject} {stringValue : Bytes}
    {members : List (Bytes × JsonObject)} {items : List JsonObject}
    {body : Bytes} {it : Nat} {result : JsonObject × Nat},
      BuildsItems more body → memory.Holds it body →
      (Parses memory ⟨⟨.array, stringValue, members, items⟩, [], .noState, it⟩ result ↔
        Parses memory
          ⟨⟨.array, stringValue, members, items ++ more⟩, [], .noState, it + body.length⟩ result)
  | [], _, _, _, _, _, _, builds, holds => by
      rw [parses_spaces _ (by simp [ParseState.Collecting]) builds holds]
      simp
  | item :: rest, _, _, _, body, it, result, builds, holds => by
      simp only [BuildsItems] at builds
      obtain ⟨before, itemText, afterItem, tail, beforeSpaces, afterItemSpaces, itemBuilds,
        ending, rfl⟩ := builds
      rw [Memory.holds_append, Memory.holds_append, Memory.holds_append] at holds
      obtain ⟨beforeHolds, itemHolds, afterHolds, tailHolds⟩ := holds
      rw [parses_spaces _ (by simp [ParseState.Collecting]) beforeSpaces beforeHolds,
        parses_item itemBuilds itemHolds (parses_builds itemBuilds itemHolds)]
      rcases ending with ⟨rfl, rfl⟩ | ⟨-, more, moreBuilds, rfl⟩
      · rw [parses_spaces _ (by simp [ParseState.Collecting]) afterItemSpaces afterHolds]
        simp [Nat.add_assoc]
      · rw [parses_separator (by simp [ParseState.Collecting]) afterItemSpaces
            (Memory.holds_append.mpr ⟨afterHolds, tailHolds⟩),
          parses_items moreBuilds tailHolds.2, List.append_assoc]
        exact parses_iff_of_cursor (by simp; omega)

end

end Containers

theorem wellFormedMembers_iff {members : List (Bytes × JsonObject)} :
    WellFormedMembers members ↔
      ∀ member ∈ members, Clean member.1 ∧ member.2.WellFormed := by
  induction members with
  | nil => simp [WellFormedMembers]
  | cons member rest ih => simp [WellFormedMembers, ih, and_assoc]

mutual

/-- Reordering the members of its objects keeps a tree well formed. -/
theorem WellFormed.of_same : ∀ {value ordered : JsonObject},
    value.WellFormed → value.Same ordered → ordered.WellFormed
  | ⟨.notype, _, _, _⟩, _, wellFormed, _ => by simp [WellFormed] at wellFormed
  | ⟨.string, value, members, items⟩, ⟨_, _, _, _⟩, wellFormed, same => by
      simp only [WellFormed] at wellFormed
      obtain ⟨clean, rfl, rfl⟩ := wellFormed
      simp only [Same, SameItems, KeyedList.keys, List.map_nil, List.perm_nil,
        List.map_eq_nil_iff] at same
      obtain ⟨rfl, rfl, rfl, -, rfl⟩ := same
      simpa [WellFormed] using clean
  | ⟨.object, value, members, items⟩, ⟨_, _, others, _⟩, wellFormed, same => by
      simp only [WellFormed] at wellFormed
      obtain ⟨rfl, rfl, distinct, membersWellFormed⟩ := wellFormed
      simp only [Same, SameItems] at same
      obtain ⟨rfl, rfl, keysPerm, sameMembers, rfl⟩ := same
      have othersDistinct : (KeyedList.keys others).Nodup := keysPerm.nodup_iff.mpr distinct
      have kept := wellFormedMembers_of_same membersWellFormed sameMembers
      simp only [WellFormed, true_and]
      refine ⟨othersDistinct, wellFormedMembers_iff.mpr fun member present => ?_⟩
      obtain ⟨key, other⟩ := member
      have keyPresent : key ∈ KeyedList.keys members :=
        keysPerm.mem_iff.mp (List.mem_map_of_mem present)
      obtain ⟨⟨_, child⟩, childPresent, rfl⟩ := List.mem_map.mp keyPresent
      obtain ⟨found, foundPresent, clean, foundWellFormed⟩ := kept _ childPresent
      have unique : found = other := Option.some.inj
        ((KeyedList.get?_of_mem othersDistinct foundPresent).symm.trans
          (KeyedList.get?_of_mem othersDistinct present))
      exact ⟨clean, unique ▸ foundWellFormed⟩
  | ⟨.array, value, members, items⟩, ⟨_, _, _, _⟩, wellFormed, same => by
      simp only [WellFormed] at wellFormed
      obtain ⟨rfl, rfl, itemsWellFormed⟩ := wellFormed
      simp only [Same, KeyedList.keys, List.map_nil, List.perm_nil,
        List.map_eq_nil_iff] at same
      obtain ⟨rfl, rfl, rfl, -, sameItems⟩ := same
      simpa [WellFormed] using wellFormedItems_of_same itemsWellFormed sameItems

theorem wellFormedMembers_of_same : ∀ {members others : List (Bytes × JsonObject)},
    WellFormedMembers members → SameMembers members others →
      ∀ member ∈ members, ∃ other, (member.1, other) ∈ others ∧ Clean member.1 ∧ other.WellFormed
  | [], _, _, _ => by simp
  | (key, value) :: rest, others, wellFormed, same => by
      simp only [WellFormedMembers] at wellFormed
      obtain ⟨clean, valueWellFormed, restWellFormed⟩ := wellFormed
      simp only [SameMembers] at same
      obtain ⟨⟨other, present, sameValue⟩, sameRest⟩ := same
      intro member mem
      rcases List.mem_cons.mp mem with rfl | later
      · exact ⟨other, present, clean, WellFormed.of_same valueWellFormed sameValue⟩
      · exact wellFormedMembers_of_same restWellFormed sameRest member later

theorem wellFormedItems_of_same : ∀ {items others : List JsonObject},
    WellFormedItems items → SameItems items others → WellFormedItems others
  | [], _, _, same => by
      simp only [SameItems] at same
      simp [same, WellFormedItems]
  | item :: rest, _, wellFormed, same => by
      simp only [WellFormedItems] at wellFormed
      simp only [SameItems] at same
      obtain ⟨other, tail, rfl, sameItem, sameRest⟩ := same
      simp only [WellFormedItems]
      exact ⟨WellFormed.of_same wellFormed.1 sameItem,
        wellFormedItems_of_same wellFormed.2 sameRest⟩

end

theorem whitespace_indent (pretty : Bool) (depth : Nat) : Whitespace (indent pretty depth) := by
  intro byte member
  cases pretty with
  | false => cases member
  | true =>
      rw [List.eq_of_mem_replicate member]
      rfl

theorem whitespace_lineBreak (pretty : Bool) : Whitespace (lineBreak pretty) := by
  intro byte member
  cases pretty with
  | false => cases member
  | true =>
      rw [List.mem_singleton.mp member]
      rfl

mutual

theorem stringify_renders (pretty : Bool) : ∀ {value : JsonObject} (depth : Nat),
    value.WellFormed → value.Renders (stringify pretty depth value)
  | ⟨.notype, _, _, _⟩, _, wellFormed => by simp [WellFormed] at wellFormed
  | ⟨.string, value, _, _⟩, _, _ => by simp [Renders, stringify]
  | ⟨.object, _, members, _⟩, depth, wellFormed => by
      simp only [WellFormed] at wellFormed
      simp only [Renders, stringify]
      refine ⟨_, stringifyMembers_renders pretty (if pretty then depth + 1 else depth)
        (whitespace_lineBreak pretty) (whitespace_indent pretty depth) wellFormed.2.2.2, ?_⟩
      simp
  | ⟨.array, _, _, items⟩, depth, wellFormed => by
      simp only [WellFormed] at wellFormed
      simp only [Renders, stringify]
      refine ⟨_, stringifyItems_renders pretty (if pretty then depth + 1 else depth)
        (whitespace_lineBreak pretty) (whitespace_indent pretty depth) wellFormed.2.2, ?_⟩
      simp

theorem stringifyMembers_renders (pretty : Bool) :
    ∀ {members : List (Bytes × JsonObject)} {before after : Bytes} (depth : Nat),
      Whitespace before → Whitespace after → WellFormedMembers members →
        RendersMembers members (before ++ stringifyMembers pretty depth members ++ after)
  | [], before, after, _, beforeSpaces, afterSpaces, _ => by
      simpa [RendersMembers, stringifyMembers] using beforeSpaces.append afterSpaces
  | (key, value) :: rest, before, after, depth, beforeSpaces, afterSpaces, wellFormed => by
      simp only [WellFormedMembers] at wellFormed
      have valueRenders := stringify_renders pretty depth wellFormed.2.1
      have indented := beforeSpaces.append (whitespace_indent pretty depth)
      simp only [RendersMembers, stringifyMembers]
      cases rest with
      | nil =>
          refine ⟨_, [], [], _, lineBreak pretty ++ after, [], indented, whitespace_nil, whitespace_nil,
            (whitespace_lineBreak pretty).append afterSpaces, valueRenders,
            Or.inl ⟨rfl, rfl⟩, ?_⟩
          simp [stringifyMembers]
      | cons next rest =>
          refine ⟨_, [], [], _, [], _, indented, whitespace_nil, whitespace_nil, whitespace_nil, valueRenders,
            Or.inr ⟨by simp, _, stringifyMembers_renders pretty depth
              (whitespace_lineBreak pretty) afterSpaces wellFormed.2.2, rfl⟩, ?_⟩
          simp

theorem stringifyItems_renders (pretty : Bool) :
    ∀ {items : List JsonObject} {before after : Bytes} (depth : Nat),
      Whitespace before → Whitespace after → WellFormedItems items →
        RendersItems items (before ++ stringifyItems pretty depth items ++ after)
  | [], before, after, _, beforeSpaces, afterSpaces, _ => by
      simpa [RendersItems, stringifyItems] using beforeSpaces.append afterSpaces
  | item :: rest, before, after, depth, beforeSpaces, afterSpaces, wellFormed => by
      simp only [WellFormedItems] at wellFormed
      have itemRenders := stringify_renders pretty depth wellFormed.1
      have indented := beforeSpaces.append (whitespace_indent pretty depth)
      simp only [RendersItems, stringifyItems]
      cases rest with
      | nil =>
          refine ⟨_, _, lineBreak pretty ++ after, [], indented,
            (whitespace_lineBreak pretty).append afterSpaces, itemRenders,
            Or.inl ⟨rfl, rfl⟩, ?_⟩
          simp [stringifyItems]
      | cons next rest =>
          refine ⟨_, _, [], _, indented, whitespace_nil, itemRenders,
            Or.inr ⟨by simp, _, stringifyItems_renders pretty depth
              (whitespace_lineBreak pretty) afterSpaces wellFormed.2, rfl⟩, ?_⟩
          simp

end

section Tree

variable {value : JsonObject} (wellFormed : value.WellFormed)

include wellFormed

/-- A fresh object rebuilds a well-formed tree from a text that writes it. -/
theorem parse_of_writes {text following : Bytes} {memory : Memory} {str : Nat}
    (writes : value.Writes text) (holds : memory.Holds str (text ++ following)) :
    ∃ built, value.Same built ∧
      Converges (parse memory (new .notype) str) (built, value.finish str text.length) := by
  obtain ⟨ordered, before, core, same, spaces, renders, rfl⟩ := writes
  have sameType : ordered.type = value.type := by
    obtain ⟨_, _, _, _⟩ := value
    simp only [Same] at same
    exact same.1
  obtain ⟨textHolds, -⟩ := Memory.holds_append.mp holds
  obtain ⟨beforeHolds, coreHolds⟩ := Memory.holds_append.mp textHolds
  have parsed := parses_builds (Renders.builds (wellFormed.of_same same) renders) coreHolds
  have skipped := (parses_spaces (.start (new .notype) str)
    (by simp [ParseState.Collecting, ParseState.start, new]) spaces beforeHolds).mpr parsed
  have cursor : ordered.finish (str + before.length) core.length =
      value.finish str (before ++ core).length := by
    simp [finish, sameType, Nat.add_assoc]
  exact ⟨ordered, same, cursor ▸ skipped⟩

theorem writes_stringify {ordered : JsonObject} (same : value.Same ordered) (pretty : Bool) :
    value.Writes (stringify pretty 0 ordered) :=
  ⟨ordered, [], _, same, whitespace_nil, stringify_renders pretty 0 (wellFormed.of_same same), rfl⟩

end Tree

/-- A fresh object rebuilds every well-formed tree from every text that writes
it, whatever follows the text, and `stringify` writes it in both layouts. -/
theorem parse_writes (value : JsonObject) (wellFormed : value.WellFormed) :
    (∀ {text following : Bytes} {memory : Memory} {str : Nat},
      value.Writes text → memory.Holds str (text ++ following) →
        ∃ built, value.Same built ∧
          Converges (parse memory (new .notype) str)
            (built, value.finish str text.length)) ∧
    ∀ {ordered : JsonObject}, value.Same ordered →
      ∀ pretty, value.Writes (stringify pretty 0 ordered) :=
  ⟨parse_of_writes wellFormed, writes_stringify wellFormed⟩

def sampleTree : JsonObject :=
  ⟨.object, [], [(bytes "a\"", ⟨.array, [], [], [ofString (bytes "[:\x7d"), new .object]⟩)], []⟩

theorem sampleTree_wellFormed : sampleTree.WellFormed := by
  simp only [sampleTree, ofString, new, WellFormed, WellFormedMembers, WellFormedItems, Clean]
  decide +kernel

theorem parse_writes_sampleTree :
    ∃ built, sampleTree.Same built ∧
      Converges
        (parse (Memory.ofString (fun _ => 0) (stringify true 0 sampleTree)) (new .notype) 1)
        (built, 32) := by
  have same : sampleTree.Same sampleTree := by
    simp [sampleTree, ofString, new, Same, SameMembers, SameItems]
  obtain ⟨rebuilds, writes⟩ := parse_writes sampleTree sampleTree_wellFormed
  have cursor : sampleTree.finish 1 (stringify true 0 sampleTree).length = 32 := by decide
  exact cursor ▸ rebuilds (writes same true) (Memory.ofString_holds _ _)

end JsonObject

end Libjaypea
