import Libjaypea.Json

/-!
# What a text tells apart

Two objects have the same text exactly when they print the same tree: the same
members in the same order, where a value without a type prints as an empty
string.
-/

namespace Libjaypea

namespace JsonObject

mutual

/-- The tree that `stringify` shows. -/
def printed : JsonObject → JsonObject
  | ⟨.notype, _, _, _⟩ => ofString []
  | ⟨.string, value, _, _⟩ => ofString value
  | ⟨.object, _, members, _⟩ => ⟨.object, [], printedMembers members, []⟩
  | ⟨.array, _, _, items⟩ => ⟨.array, [], [], printedItems items⟩

def printedMembers : List (Bytes × JsonObject) → List (Bytes × JsonObject)
  | [] => []
  | (key, value) :: rest => (key, value.printed) :: printedMembers rest

def printedItems : List JsonObject → List JsonObject
  | [] => []
  | item :: rest => item.printed :: printedItems rest

end

section Escape

/-- The letters that `escape` writes behind a backslash, and what they stand for. -/
def escapeLetters : List (UInt8 × UInt8) :=
  [(ch 'n', ch '\n'), (ch 'r', ch '\r'), (ch 't', ch '\t'), (ch '"', ch '"'), (ch '\\', ch '\\')]

theorem escapeByte_cases (byte : UInt8) :
    (escapeByte byte = [byte] ∧ ∀ entry ∈ escapeLetters, byte ≠ entry.2) ∨
      ∃ letter, (letter, byte) ∈ escapeLetters ∧ escapeByte byte = [ch '\\', letter] := by
  by_cases special : ∃ entry ∈ escapeLetters, byte = entry.2
  · obtain ⟨⟨letter, _⟩, member, rfl⟩ := special
    have written : ∀ entry ∈ escapeLetters, escapeByte entry.2 = [ch '\\', entry.1] :=
      forall_mem_of_all (by decide)
    exact .inr ⟨letter, member, written _ member⟩
  · left
    simp only [not_exists, not_and] at special
    refine ⟨?_, special⟩
    simp only [escapeLetters, List.forall_mem_cons] at special
    obtain ⟨lineFeed, carriageReturn, tab, quote, backslash, -⟩ := special
    simp only [escapeByte, lineFeed, carriageReturn, tab, quote, backslash, if_false]

theorem deescape_letter {letter byte : UInt8} (escapes : (letter, byte) ∈ escapeLetters)
    (rest : Bytes) : deescape (ch '\\' :: letter :: rest) = byte :: deescape rest := by
  simp only [escapeLetters, List.mem_cons, Prod.mk.injEq, List.not_mem_nil, or_false] at escapes
  rcases escapes with ⟨rfl, rfl⟩ | ⟨rfl, rfl⟩ | ⟨rfl, rfl⟩ | ⟨rfl, rfl⟩ | ⟨rfl, rfl⟩ <;>
    simp [deescape, ch_eq_ch_iff]

theorem deescape_plain {byte : UInt8} (plain : byte ≠ ch '\\') (rest : Bytes) :
    deescape (byte :: rest) = byte :: deescape rest := by
  cases rest with
  | nil => rfl
  | cons following rest => simp [deescape, plain]

theorem deescape_escapeByte (byte : UInt8) (rest : Bytes) :
    deescape (escapeByte byte ++ rest) = byte :: deescape rest := by
  rcases escapeByte_cases byte with ⟨plain, others⟩ | ⟨letter, escapes, written⟩
  · rw [plain]
    exact deescape_plain (others (ch '\\', ch '\\') (by decide)) rest
  · rw [written]
    exact deescape_letter escapes rest

theorem escapeByte_append {first second : UInt8} {rest others : Bytes}
    (same : escapeByte first ++ rest = escapeByte second ++ others) :
    first = second ∧ rest = others := by
  have equal : escapeByte first = escapeByte second ∧ rest = others := by
    have backslash : (ch '\\', ch '\\') ∈ escapeLetters := by decide
    rcases escapeByte_cases first with ⟨one, plain⟩ | ⟨letter, -, one⟩ <;>
      rcases escapeByte_cases second with ⟨two, plain'⟩ | ⟨letter', -, two⟩ <;>
      rw [one, two] at same ⊢
    · simpa using same
    · simp at same
      exact absurd same.1 (plain _ backslash)
    · simp at same
      exact absurd same.1.symm (plain' _ backslash)
    · simpa [and_assoc] using same
  have letters := congrArg (fun text => deescape (text ++ [])) equal.1
  simp only [deescape_escapeByte] at letters
  exact ⟨(List.cons.inj letters).1, equal.2⟩

theorem escapeByte_ne_quote (byte : UInt8) (rest others : Bytes) :
    escapeByte byte ++ rest ≠ ch '"' :: others := by
  have different : ch '\\' ≠ ch '"' := by decide
  rcases escapeByte_cases byte with ⟨plain, others⟩ | ⟨letter, -, escaped⟩
  · have quote : byte ≠ ch '"' := others (ch '"', ch '"') (by decide)
    rw [plain]
    simp [quote]
  · rw [escaped]
    simp [different]

/-- The closing quote ends the text of a string. -/
theorem escape_append {first second rest others : Bytes}
    (same : escape first ++ rest = escape second ++ others) : first = second ∧ rest = others := by
  have bodies : first.flatMap escapeByte ++ ch '"' :: rest =
      second.flatMap escapeByte ++ ch '"' :: others := by
    simpa [escape] using same
  clear same
  induction first generalizing second with
  | nil =>
      cases second with
      | nil => exact ⟨rfl, by simpa using bodies⟩
      | cons byte second =>
          rw [List.flatMap_cons, List.append_assoc] at bodies
          exact absurd bodies.symm (escapeByte_ne_quote byte _ _)
  | cons byte first ih =>
      cases second with
      | nil =>
          rw [List.flatMap_cons, List.append_assoc] at bodies
          exact absurd bodies (escapeByte_ne_quote byte _ _)
      | cons other second =>
          rw [List.flatMap_cons, List.flatMap_cons, List.append_assoc, List.append_assoc] at bodies
          obtain ⟨rfl, later⟩ := escapeByte_append bodies
          obtain ⟨rfl, behind⟩ := ih later
          exact ⟨rfl, behind⟩

end Escape

section Text

/-- What follows the first members or items of a list. -/
def behind (closing : UInt8) (empty : Bool) (more rest : Bytes) : Bytes :=
  if empty then closing :: rest else ch ',' :: (more ++ closing :: rest)

theorem text_object (value : Bytes) (members : List (Bytes × JsonObject))
    (items : List JsonObject) :
    stringify false 0 ⟨.object, value, members, items⟩ =
      ch '{' :: (stringifyMembers false 0 members ++ [ch '\x7d']) := by
  simp [stringify, lineBreak, indent]

theorem text_array (value : Bytes) (members : List (Bytes × JsonObject)) (items : List JsonObject) :
    stringify false 0 ⟨.array, value, members, items⟩ =
      ch '[' :: (stringifyItems false 0 items ++ [ch ']']) := by
  simp [stringify, lineBreak, indent]

theorem text_members (key : Bytes) (value : JsonObject) (more : List (Bytes × JsonObject))
    (closing : UInt8) (rest : Bytes) :
    stringifyMembers false 0 ((key, value) :: more) ++ closing :: rest =
      escape key ++ (ch ':' :: (stringify false 0 value ++
        behind closing more.isEmpty (stringifyMembers false 0 more) rest)) := by
  cases more <;> simp [stringifyMembers, lineBreak, indent, behind]

theorem text_items (item : JsonObject) (more : List JsonObject) (closing : UInt8) (rest : Bytes) :
    stringifyItems false 0 (item :: more) ++ closing :: rest =
      stringify false 0 item ++
        behind closing more.isEmpty (stringifyItems false 0 more) rest := by
  cases more <;> simp [stringifyItems, lineBreak, indent, behind]

/-- How the text of an object begins. -/
def lead (value : JsonObject) : UInt8 :=
  match value.type with
  | .object => ch '{'
  | .array => ch '['
  | _ => ch '"'

theorem exists_text (value : JsonObject) :
    ∃ rest, stringify false 0 value = value.lead :: rest := by
  rcases value with ⟨_ | _ | _ | _, value, members, items⟩
  · exact ⟨_, rfl⟩
  · exact ⟨_, rfl⟩
  · exact ⟨_, text_object ..⟩
  · exact ⟨_, text_array ..⟩

theorem lead_eq {first second : JsonObject} {rest others : Bytes}
    (same : stringify false 0 first ++ rest = stringify false 0 second ++ others) :
    first.lead = second.lead := by
  obtain ⟨more, text⟩ := exists_text first
  obtain ⟨more', text'⟩ := exists_text second
  rw [text, text'] at same
  exact (List.cons.inj same).1

/-- Strings and values without a type are written as strings. -/
theorem exists_escape {value : JsonObject} (leaf : value.lead = ch '"') :
    ∃ text, stringify false 0 value = escape text ∧ value.printed = ofString text := by
  rcases value with ⟨_ | _ | _ | _, value, members, items⟩
  · exact ⟨[], rfl, rfl⟩
  · exact ⟨value, rfl, rfl⟩
  · exact absurd (show ch '{' = ch '"' from leaf) (by decide)
  · exact absurd (show ch '[' = ch '"' from leaf) (by decide)

theorem printed_of_leaf {first second : JsonObject} {rest others : Bytes}
    (leaf : first.lead = ch '"')
    (same : stringify false 0 first ++ rest = stringify false 0 second ++ others) :
    first.printed = second.printed ∧ rest = others := by
  obtain ⟨text, one, printed⟩ := exists_escape leaf
  obtain ⟨text', two, printed'⟩ := exists_escape ((lead_eq same).symm.trans leaf)
  rw [one, two] at same
  obtain ⟨rfl, behind⟩ := escape_append same
  exact ⟨printed.trans printed'.symm, behind⟩

theorem exists_object {value : JsonObject} (object : value.lead = ch '{') :
    ∃ text members items, value = ⟨.object, text, members, items⟩ := by
  rcases value with ⟨_ | _ | _ | _, value, members, items⟩
  · exact absurd (show ch '"' = ch '{' from object) (by decide)
  · exact absurd (show ch '"' = ch '{' from object) (by decide)
  · exact ⟨_, _, _, rfl⟩
  · exact absurd (show ch '[' = ch '{' from object) (by decide)

theorem exists_array {value : JsonObject} (array : value.lead = ch '[') :
    ∃ text members items, value = ⟨.array, text, members, items⟩ := by
  rcases value with ⟨_ | _ | _ | _, value, members, items⟩
  · exact absurd (show ch '"' = ch '[' from array) (by decide)
  · exact absurd (show ch '"' = ch '[' from array) (by decide)
  · exact absurd (show ch '{' = ch '[' from array) (by decide)
  · exact ⟨_, _, _, rfl⟩

theorem behind_inj {closing : UInt8} (different : closing ≠ ch ',') {empty empty' : Bool}
    {more more' rest others : Bytes}
    (same : behind closing empty more rest = behind closing empty' more' others) :
    (empty = true ∧ empty' = true ∧ rest = others) ∨
      (empty = false ∧ empty' = false ∧ more ++ closing :: rest = more' ++ closing :: others) := by
  unfold behind at same
  cases empty <;> cases empty' <;> simp [different, Ne.symm different] at same ⊢
  · exact same
  · exact same

theorem item_ne_closing (item : JsonObject) (rest others : Bytes) :
    stringify false 0 item ++ rest ≠ ch ']' :: others := by
  obtain ⟨more, text⟩ := exists_text item
  rw [text]
  intro same
  have starts := (List.cons.inj same).1
  unfold lead at starts
  split at starts <;> exact absurd starts (by decide)

mutual

/-- The text of an object ends where it does, and shows what it prints. -/
theorem printed_of_text : ∀ {first second : JsonObject} {rest others : Bytes},
    stringify false 0 first ++ rest = stringify false 0 second ++ others →
      first.printed = second.printed ∧ rest = others
  | ⟨.notype, _, _, _⟩, _, _, _, same => printed_of_leaf rfl same
  | ⟨.string, _, _, _⟩, _, _, _, same => printed_of_leaf rfl same
  | ⟨.object, _, members, _⟩, second, _, _, same => by
      obtain ⟨value, members', items, rfl⟩ := exists_object (lead_eq same).symm
      rw [text_object, text_object] at same
      simp only [List.cons_append, List.append_assoc, List.nil_append, List.cons.injEq,
        true_and] at same
      obtain ⟨printed, behind⟩ := printed_of_members same
      exact ⟨by rw [JsonObject.printed, JsonObject.printed, printed], behind⟩
  | ⟨.array, _, _, items⟩, second, _, _, same => by
      obtain ⟨value, members, items', rfl⟩ := exists_array (lead_eq same).symm
      rw [text_array, text_array] at same
      simp only [List.cons_append, List.append_assoc, List.nil_append, List.cons.injEq,
        true_and] at same
      obtain ⟨printed, behind⟩ := printed_of_items same
      exact ⟨by rw [JsonObject.printed, JsonObject.printed, printed], behind⟩

theorem printed_of_members : ∀ {members others : List (Bytes × JsonObject)} {rest tail : Bytes},
    stringifyMembers false 0 members ++ ch '}' :: rest =
        stringifyMembers false 0 others ++ ch '}' :: tail →
      printedMembers members = printedMembers others ∧ rest = tail
  | [], [], _, _, same => ⟨rfl, (List.cons.inj same).2⟩
  | [], (key, value) :: more, _, _, same => by
      rw [text_members] at same
      exact absurd (List.cons.inj same).1 (by decide)
  | (key, value) :: more, [], _, _, same => by
      rw [text_members] at same
      exact absurd (List.cons.inj same).1 (by decide)
  | (key, value) :: more, (key', value') :: more', _, _, same => by
      rw [text_members, text_members] at same
      obtain ⟨rfl, afterKey⟩ := escape_append same
      obtain ⟨printed, afterValue⟩ := printed_of_text (List.cons.inj afterKey).2
      have different : ch '}' ≠ ch ',' := by decide
      rcases behind_inj different afterValue with ⟨empty, empty', behind⟩ | ⟨-, -, later⟩
      · rw [List.isEmpty_iff.mp empty, List.isEmpty_iff.mp empty']
        exact ⟨by simp [printedMembers, printed], behind⟩
      · obtain ⟨others, behind⟩ := printed_of_members later
        exact ⟨by rw [printedMembers, printedMembers, printed, others], behind⟩

theorem printed_of_items : ∀ {items others : List JsonObject} {rest tail : Bytes},
    stringifyItems false 0 items ++ ch ']' :: rest =
        stringifyItems false 0 others ++ ch ']' :: tail →
      printedItems items = printedItems others ∧ rest = tail
  | [], [], _, _, same => ⟨rfl, (List.cons.inj same).2⟩
  | [], item :: more, _, _, same => by
      rw [text_items] at same
      exact absurd same.symm (item_ne_closing item _ _)
  | item :: more, [], _, _, same => by
      rw [text_items] at same
      exact absurd same (item_ne_closing item _ _)
  | item :: more, item' :: more', _, _, same => by
      rw [text_items, text_items] at same
      obtain ⟨printed, afterItem⟩ := printed_of_text same
      have different : ch ']' ≠ ch ',' := by decide
      rcases behind_inj different afterItem with ⟨empty, empty', behind⟩ | ⟨-, -, later⟩
      · rw [List.isEmpty_iff.mp empty, List.isEmpty_iff.mp empty']
        exact ⟨by simp [printedItems, printed], behind⟩
      · obtain ⟨others, behind⟩ := printed_of_items later
        exact ⟨by rw [printedItems, printedItems, printed, others], behind⟩

end

mutual

theorem stringify_printed : ∀ value : JsonObject,
    stringify false 0 value.printed = stringify false 0 value
  | ⟨.notype, _, _, _⟩ => rfl
  | ⟨.string, _, _, _⟩ => rfl
  | ⟨.object, _, members, _⟩ => by
      rw [printed, text_object, text_object, stringifyMembers_printed members]
  | ⟨.array, _, _, items⟩ => by
      rw [printed, text_array, text_array, stringifyItems_printed items]

theorem stringifyMembers_printed : ∀ members : List (Bytes × JsonObject),
    stringifyMembers false 0 (printedMembers members) = stringifyMembers false 0 members
  | [] => rfl
  | (key, value) :: more => by
      have later := stringifyMembers_printed more
      have empty : (printedMembers more).isEmpty = more.isEmpty := by cases more <;> rfl
      rw [printedMembers, stringifyMembers, stringifyMembers, stringify_printed value, later, empty]

theorem stringifyItems_printed : ∀ items : List JsonObject,
    stringifyItems false 0 (printedItems items) = stringifyItems false 0 items
  | [] => rfl
  | item :: more => by
      have later := stringifyItems_printed more
      have empty : (printedItems more).isEmpty = more.isEmpty := by cases more <;> rfl
      rw [printedItems, stringifyItems, stringifyItems, stringify_printed item, later, empty]

end

/-- Equal texts show the same tree. -/
theorem stringify_eq_iff {first second : JsonObject} :
    stringify false 0 first = stringify false 0 second ↔ first.printed = second.printed := by
  constructor
  · intro same
    have padded : stringify false 0 first ++ [] = stringify false 0 second ++ [] := by
      rw [same]
    exact (printed_of_text padded).1
  · intro same
    rw [← stringify_printed first, same, stringify_printed second]

end Text

end JsonObject

end Libjaypea
