import Libjaypea.JsonGrammar
import Libjaypea.TokenTrip

/-!
# When an emitted text is JSON

`stringify` sets every bracket, comma and colon where the grammar wants it, in
both layouts.  Only the strings may break the grammar: `escape` passes control
characters on as they are, but for line feeds, returns and tabs.
-/

namespace Libjaypea

namespace JsonObject

open StandardJson Token

mutual

/-- The strings that `stringify` writes: the keys and the values of a tree. -/
def emitted : JsonObject → List Bytes
  | ⟨.notype, _, _, _⟩ => []
  | ⟨.string, stringValue, _, _⟩ => [stringValue]
  | ⟨.object, _, objectValues, _⟩ => emittedMembers objectValues
  | ⟨.array, _, _, arrayValues⟩ => emittedItems arrayValues

def emittedMembers : List (Bytes × JsonObject) → List Bytes
  | [] => []
  | (key, value) :: rest => key :: (emitted value ++ emittedMembers rest)

def emittedItems : List JsonObject → List Bytes
  | [] => []
  | item :: rest => emitted item ++ emittedItems rest

end

/-- A string that `escape` writes in standard form: its only control characters
are the three that have an escape. -/
def Escapable (text : Bytes) : Prop :=
  ∀ byte ∈ text, 32 ≤ byte ∨ dropped byte = true

instance (text : Bytes) : Decidable (Escapable text) :=
  List.decidableBAll _ text

section Grammar

theorem stringText_escape {text : Bytes} (escapable : Escapable text) : StringText (escape text) :=
  ⟨text.flatMap escapeByte, characters_of_encodes (encodes_escaped escapable), rfl⟩

/-- A list of members or elements between white space. -/
def Laid (list : Bytes → Prop) (text : Bytes) : Prop :=
  ∃ before body after, Whitespace before ∧ list body ∧ Whitespace after ∧
    text = before ++ (body ++ after)

variable (pretty : Bool)

theorem structural_lineBreak (byte : UInt8) :
    Structural byte (byte :: lineBreak pretty) :=
  structural_of_spaces whitespace_nil (whitespace_lineBreak pretty)

theorem structural_indent (depth : Nat) (byte : UInt8) {after : Bytes}
    (afters : Whitespace after) : Structural byte (after ++ (indent pretty depth ++ [byte])) := by
  rw [← List.append_assoc]
  exact structural_of_spaces (afters.append (whitespace_indent pretty depth)) whitespace_nil

mutual

theorem stringify_value : ∀ {value : JsonObject} (depth : Nat),
    (∀ text ∈ value.emitted, Escapable text) → Value (stringify pretty depth value)
  | ⟨.notype, _, _, _⟩, _, _ => .string ⟨[], .nil, rfl⟩
  | ⟨.string, stringValue, _, _⟩, _, escapable =>
      .string (stringText_escape (escapable stringValue List.mem_cons_self))
  | ⟨.object, _, objectValues, _⟩, depth, escapable => by
      rcases stringifyMembers_value (if pretty then depth + 1 else depth) escapable with
        rfl | ⟨more, before, body, after, befores, members, afters, written⟩
      · have derived : Value _ := .emptyObject (structural_lineBreak pretty _)
          (structural_indent pretty depth _ whitespace_nil)
        simpa [stringify, stringifyMembers] using derived
      · have opens := (structural_lineBreak pretty (ch '{')).spaced whitespace_nil befores
        have derived : Value _ := .object opens members (structural_indent pretty depth _ afters)
        simpa [stringify, written] using derived
  | ⟨.array, _, _, arrayValues⟩, depth, escapable => by
      rcases stringifyItems_value (if pretty then depth + 1 else depth) escapable with
        rfl | ⟨more, before, body, after, befores, elements, afters, written⟩
      · have derived : Value _ := .emptyArray (structural_lineBreak pretty _)
          (structural_indent pretty depth _ whitespace_nil)
        simpa [stringify, stringifyItems] using derived
      · have opens := (structural_lineBreak pretty (ch '[')).spaced whitespace_nil befores
        have derived : Value _ := .array opens elements (structural_indent pretty depth _ afters)
        simpa [stringify, written] using derived

theorem stringifyMembers_value : ∀ {members : List (Bytes × JsonObject)} (depth : Nat),
    (∀ text ∈ emittedMembers members, Escapable text) → members = [] ∨
      members.isEmpty = false ∧ Laid Members (stringifyMembers pretty depth members)
  | [], _, _ => .inl rfl
  | (key, value) :: rest, depth, escapable => by
      have name := stringText_escape (escapable key List.mem_cons_self)
      have colon : Structural (ch ':') [ch ':'] :=
        structural_of_spaces whitespace_nil whitespace_nil
      have read : Value (stringify pretty depth value) := stringify_value depth fun text member =>
        escapable text (List.mem_cons_of_mem _ (List.mem_append_left _ member))
      have rests : ∀ text ∈ emittedMembers rest, Escapable text := fun text member =>
        escapable text (List.mem_cons_of_mem _ (List.mem_append_right _ member))
      refine .inr ⟨rfl, ?_⟩
      rcases stringifyMembers_value depth rests with
        rfl | ⟨more, before, body, after, befores, members, afters, written⟩
      · refine ⟨indent pretty depth, _, lineBreak pretty, whitespace_indent pretty depth,
          .last name colon read, whitespace_lineBreak pretty, ?_⟩
        simp [stringifyMembers]
      · have comma := (structural_lineBreak pretty (ch ',')).spaced whitespace_nil befores
        refine ⟨indent pretty depth, _, after, whitespace_indent pretty depth,
          .more name colon read comma members, afters, ?_⟩
        simp [stringifyMembers, more, written]

theorem stringifyItems_value : ∀ {items : List JsonObject} (depth : Nat),
    (∀ text ∈ emittedItems items, Escapable text) → items = [] ∨
      items.isEmpty = false ∧ Laid Elements (stringifyItems pretty depth items)
  | [], _, _ => .inl rfl
  | item :: rest, depth, escapable => by
      have read : Value (stringify pretty depth item) := stringify_value depth fun text member =>
        escapable text (List.mem_append_left _ member)
      have rests : ∀ text ∈ emittedItems rest, Escapable text := fun text member =>
        escapable text (List.mem_append_right _ member)
      refine .inr ⟨rfl, ?_⟩
      rcases stringifyItems_value depth rests with
        rfl | ⟨more, before, body, after, befores, elements, afters, written⟩
      · refine ⟨indent pretty depth, _, lineBreak pretty, whitespace_indent pretty depth,
          .last read, whitespace_lineBreak pretty, ?_⟩
        simp [stringifyItems]
      · have comma := (structural_lineBreak pretty (ch ',')).spaced whitespace_nil befores
        refine ⟨indent pretty depth, _, after, whitespace_indent pretty depth,
          .more read comma elements, afters, ?_⟩
        simp [stringifyItems, more, written]

end

end Grammar

section Bytes

theorem mem_escape {byte : UInt8} {text : Bytes} (raw : escapeByte byte = [byte])
    (member : byte ∈ text) : byte ∈ escape text := by
  have written : byte ∈ text.flatMap escapeByte :=
    List.mem_flatMap.mpr ⟨byte, member, raw ▸ List.mem_singleton_self byte⟩
  rw [escape]
  exact List.mem_append_left _ (List.mem_cons_of_mem _ written)

variable (pretty : Bool) {byte : UInt8} {text : Bytes}

mutual

/-- A byte without an escape shows in the text wherever it is emitted. -/
theorem mem_stringify (raw : escapeByte byte = [byte]) (present : byte ∈ text) :
    ∀ {value : JsonObject} (depth : Nat),
      text ∈ value.emitted → byte ∈ stringify pretty depth value
  | ⟨.notype, _, _, _⟩, _, member => by cases member
  | ⟨.string, stringValue, _, _⟩, _, member => by
      obtain rfl := List.mem_singleton.mp member
      exact mem_escape raw present
  | ⟨.object, _, objectValues, _⟩, depth, member => by
      have inside := mem_stringifyMembers raw present (if pretty then depth + 1 else depth) member
      simp [stringify, inside]
  | ⟨.array, _, _, arrayValues⟩, depth, member => by
      have inside := mem_stringifyItems raw present (if pretty then depth + 1 else depth) member
      simp [stringify, inside]

theorem mem_stringifyMembers (raw : escapeByte byte = [byte]) (present : byte ∈ text) :
    ∀ {members : List (Bytes × JsonObject)} (depth : Nat),
      text ∈ emittedMembers members → byte ∈ stringifyMembers pretty depth members
  | [], _, member => by cases member
  | (key, value) :: rest, depth, member => by
      rcases List.mem_cons.mp member with rfl | member
      · have inside := mem_escape raw present
        simp [stringifyMembers, inside]
      · rcases List.mem_append.mp member with here | later
        · have inside := mem_stringify raw present depth here
          simp [stringifyMembers, inside]
        · have inside := mem_stringifyMembers raw present depth later
          simp [stringifyMembers, inside]

theorem mem_stringifyItems (raw : escapeByte byte = [byte]) (present : byte ∈ text) :
    ∀ {items : List JsonObject} (depth : Nat),
      text ∈ emittedItems items → byte ∈ stringifyItems pretty depth items
  | [], _, member => by cases member
  | item :: rest, depth, member => by
      rcases List.mem_append.mp member with here | later
      · have inside := mem_stringify raw present depth here
        simp [stringifyItems, inside]
      · have inside := mem_stringifyItems raw present depth later
        simp [stringifyItems, inside]

end

end Bytes

theorem escapeByte_of_control {byte : UInt8} (control : byte < 32)
    (keeps : dropped byte = false) : escapeByte byte = [byte] := by
  rcases escapeByte_cases byte with ⟨plain, -⟩ | ⟨letter, escapes, -⟩
  · exact plain
  · have all : ∀ entry ∈ escapeLetters, 32 ≤ entry.2 ∨ dropped entry.2 = true :=
      forall_mem_of_all (by decide)
    rcases all _ escapes with visible | drops
    · exact absurd control (UInt8.not_lt.mpr visible)
    · rw [keeps] at drops
      cases drops

/-- A control character may stand in a text only if it has an escape. -/
theorem escapable_of_shown {byte : UInt8} (shown : Shown byte) :
    32 ≤ byte ∨ dropped byte = true := by
  rcases shown with visible | space
  · exact .inl visible
  · rcases of_decide_eq_true space with rfl | rfl | rfl | rfl <;> decide

/-- The text of a tree is JSON exactly when `escape` writes each of its strings
in standard form. -/
theorem text_stringify_iff (pretty : Bool) (depth : Nat) (value : JsonObject) :
    Text (stringify pretty depth value) ↔ ∀ text ∈ value.emitted, Escapable text := by
  constructor
  · intro derived text member byte present
    by_contra unescaped
    obtain ⟨control, keeps⟩ := not_or.mp unescaped
    have raw := escapeByte_of_control (UInt8.not_le.mp control) (Bool.eq_false_iff.mpr keeps)
    have written := mem_stringify pretty raw present depth member
    exact unescaped (escapable_of_shown (derived.shown _ written))
  · intro escapable
    exact ⟨[], _, [], whitespace_nil, stringify_value pretty depth escapable, whitespace_nil,
      by simp⟩

/-- A form feed in a message. -/
theorem not_text_formFeed :
    stringify false 0 ⟨.object, [], [(bytes "a", ofString [12])], []⟩ =
        bytes "\x7b\"a\":\"" ++ 12 :: bytes "\"\x7d" ∧
      ¬ Text (stringify false 0 ⟨.object, [], [(bytes "a", ofString [12])], []⟩) := by
  have written : stringify false 0 ⟨.object, [], [(bytes "a", ofString [12])], []⟩ =
      bytes "\x7b\"a\":\"" ++ 12 :: bytes "\"\x7d" := by
    decide
  refine ⟨written, fun derived => ?_⟩
  rw [written] at derived
  have shown : Shown 12 := derived.shown 12 (by decide)
  rcases shown with visible | space
  · exact absurd visible (by decide)
  · exact absurd space (by decide)

end JsonObject

end Libjaypea
