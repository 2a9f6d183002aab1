import Libjaypea.StandardJson

/-!
# The grammar of standard JSON

The grammar of RFC 8259 for texts of bytes, with every byte from 0x80 on allowed
inside a string.  No text of the grammar has a control character other than
white space anywhere.
-/

namespace Libjaypea

namespace StandardJson

/-- A structural character, with white space around it. -/
def Structural (byte : UInt8) (text : Bytes) : Prop :=
  ∃ before after, Whitespace before ∧ Whitespace after ∧ text = before ++ byte :: after

def isDigit (byte : UInt8) : Bool :=
  ch '0' ≤ byte ∧ byte ≤ ch '9'

def isHexDigit (byte : UInt8) : Bool :=
  isDigit byte ∨ (ch 'A' ≤ byte ∧ byte ≤ ch 'F') ∨ (ch 'a' ≤ byte ∧ byte ≤ ch 'f')

def Digits (text : Bytes) : Prop :=
  text ≠ [] ∧ ∀ byte ∈ text, isDigit byte

/-- `[ minus ] int [ frac ] [ exp ]` -/
def Number (text : Bytes) : Prop :=
  ∃ minus int frac exp, text = minus ++ (int ++ (frac ++ exp)) ∧
    (minus = [] ∨ minus = [ch '-']) ∧
    (int = [ch '0'] ∨ Digits int ∧ int.head? ≠ some (ch '0')) ∧
    (frac = [] ∨ ∃ digits, Digits digits ∧ frac = ch '.' :: digits) ∧
    (exp = [] ∨ ∃ letter sign digits, (letter = ch 'e' ∨ letter = ch 'E') ∧
      (sign = [] ∨ sign = [ch '-'] ∨ sign = [ch '+']) ∧ Digits digits ∧
        exp = letter :: (sign ++ digits))

/-- The characters between the quotation marks of a string. -/
inductive Characters : Bytes → Prop
  | nil : Characters []
  | unescaped {byte : UInt8} {text : Bytes} (printable : 32 ≤ byte) (quote : byte ≠ ch '"')
      (backslash : byte ≠ ch '\\') (rest : Characters text) : Characters (byte :: text)
  | short {letter : UInt8} {text : Bytes} (escape : letter ∈ shortEscapes.map Prod.fst)
      (rest : Characters text) : Characters (ch '\\' :: letter :: text)
  | unicode {digits text : Bytes} (four : digits.length = 4)
      (hexadecimal : ∀ byte ∈ digits, isHexDigit byte) (rest : Characters text) :
      Characters (ch '\\' :: ch 'u' :: (digits ++ text))

def StringText (text : Bytes) : Prop :=
  ∃ characters, Characters characters ∧ text = ch '"' :: characters ++ [ch '"']

mutual

inductive Value : Bytes → Prop
  | literal {text : Bytes} (name : text ∈ [bytes "false", bytes "null", bytes "true"]) : Value text
  | number {text : Bytes} (number : Number text) : Value text
  | string {text : Bytes} (string : StringText text) : Value text
  | emptyObject {opening closing : Bytes} (opens : Structural (ch '{') opening)
      (closes : Structural (ch '}') closing) : Value (opening ++ closing)
  | object {opening body closing : Bytes} (opens : Structural (ch '{') opening)
      (members : Members body) (closes : Structural (ch '}') closing) :
      Value (opening ++ (body ++ closing))
  | emptyArray {opening closing : Bytes} (opens : Structural (ch '[') opening)
      (closes : Structural (ch ']') closing) : Value (opening ++ closing)
  | array {opening body closing : Bytes} (opens : Structural (ch '[') opening)
      (elements : Elements body) (closes : Structural (ch ']') closing) :
      Value (opening ++ (body ++ closing))

inductive Members : Bytes → Prop
  | last {key colon value : Bytes} (name : StringText key) (separates : Structural (ch ':') colon)
      (read : Value value) : Members (key ++ (colon ++ value))
  | more {key colon value comma rest : Bytes} (name : StringText key)
      (separates : Structural (ch ':') colon) (read : Value value)
      (continues : Structural (ch ',') comma) (later : Members rest) :
      Members (key ++ (colon ++ (value ++ (comma ++ rest))))

inductive Elements : Bytes → Prop
  | last {value : Bytes} (read : Value value) : Elements value
  | more {value comma rest : Bytes} (read : Value value) (continues : Structural (ch ',') comma)
      (later : Elements rest) : Elements (value ++ (comma ++ rest))

end

/-- `JSON-text` -/
def Text (text : Bytes) : Prop :=
  ∃ before value after, Whitespace before ∧ Value value ∧ Whitespace after ∧
    text = before ++ (value ++ after)

section Whitespace

variable {first second : Bytes}

theorem structural_of_spaces {byte : UInt8} (before : Whitespace first)
    (after : Whitespace second) : Structural byte (first ++ byte :: second) :=
  ⟨first, second, before, after, rfl⟩

/-- White space in front of a structural character belongs to it. -/
theorem Structural.spaced {byte : UInt8} {text : Bytes} (structural : Structural byte text)
    (before : Whitespace first) (after : Whitespace second) :
    Structural byte (first ++ (text ++ second)) := by
  obtain ⟨front, back, fronts, backs, rfl⟩ := structural
  exact ⟨first ++ front, back ++ second, before.append fronts, backs.append after, by simp⟩

end Whitespace

/-! ## What no text of the grammar has -/

/-- A byte that may stand in a text: white space, or not a control character. -/
def Shown (byte : UInt8) : Prop :=
  32 ≤ byte ∨ isSpace byte

def AllShown (text : Bytes) : Prop :=
  ∀ byte ∈ text, Shown byte

section Shown

variable {first second text : Bytes}

theorem AllShown.append (front : AllShown first) (back : AllShown second) :
    AllShown (first ++ second) :=
  fun byte member => (List.mem_append.mp member).elim (front byte) (back byte)

theorem allShown_cons {byte : UInt8} (head : 32 ≤ byte) (tail : AllShown text) :
    AllShown (byte :: text) :=
  List.forall_mem_cons.mpr ⟨.inl head, tail⟩

theorem allShown_nil : AllShown [] := by
  simp [AllShown]

theorem allShown_of_printable (printable : ∀ byte ∈ text, 32 ≤ byte) : AllShown text :=
  fun byte member => .inl (printable byte member)

theorem Whitespace.shown (spaces : Whitespace text) : AllShown text :=
  fun byte member => .inr (spaces byte member)

theorem Structural.shown {byte : UInt8} (structural : Structural byte text)
    (printable : 32 ≤ byte) : AllShown text := by
  obtain ⟨before, after, befores, afters, rfl⟩ := structural
  exact befores.shown.append (allShown_cons printable afters.shown)

theorem printable_of_isDigit {byte : UInt8} (digit : isDigit byte) : 32 ≤ byte :=
  UInt8.le_trans (by decide) (of_decide_eq_true digit).1

theorem Digits.shown (digits : Digits text) : AllShown text :=
  allShown_of_printable fun byte member => printable_of_isDigit (digits.2 byte member)

theorem printable_of_isHexDigit {byte : UInt8} (digit : isHexDigit byte) : 32 ≤ byte := by
  rcases of_decide_eq_true digit with decimal | ⟨upper, -⟩ | ⟨lower, -⟩
  · exact printable_of_isDigit decimal
  · exact UInt8.le_trans (by decide) upper
  · exact UInt8.le_trans (by decide) lower

theorem Number.shown (number : Number text) : AllShown text := by
  obtain ⟨minus, int, frac, exp, rfl, minuses, ints, fracs, exps⟩ := number
  have signShown : ∀ sign ∈ [[], [ch '-'], [ch '+']], AllShown sign := by
    simp only [List.forall_mem_cons, List.not_mem_nil, false_implies, implies_true, and_true]
    exact ⟨allShown_nil, allShown_cons (by decide) allShown_nil,
      allShown_cons (by decide) allShown_nil⟩
  have minusShown : AllShown minus := by
    rcases minuses with rfl | rfl <;> exact signShown _ (by simp)
  have intShown : AllShown int := by
    rcases ints with rfl | ⟨digits, -⟩
    · exact allShown_cons (by decide) allShown_nil
    · exact digits.shown
  have fracShown : AllShown frac := by
    rcases fracs with rfl | ⟨digits, shown, rfl⟩
    · exact allShown_nil
    · exact allShown_cons (by decide) shown.shown
  have expShown : AllShown exp := by
    rcases exps with rfl | ⟨letter, sign, digits, letters, signs, shown, rfl⟩
    · exact allShown_nil
    · have letterShown : 32 ≤ letter := by
        rcases letters with rfl | rfl <;> decide
      exact allShown_cons letterShown ((signShown _ (by simpa using signs)).append shown.shown)
  exact minusShown.append (intShown.append (fracShown.append expShown))

theorem Characters.shown (characters : Characters text) : AllShown text := by
  induction characters with
  | nil => exact allShown_nil
  | unescaped printable _ _ _ ih => exact allShown_cons printable ih
  | short escape _ ih =>
      have letters : ∀ letter ∈ shortEscapes.map Prod.fst, 32 ≤ letter :=
        forall_mem_of_all (by decide)
      exact allShown_cons (by decide) (allShown_cons (letters _ escape) ih)
  | unicode _ hexadecimal _ ih =>
      have digitsShown := allShown_of_printable fun byte member =>
        printable_of_isHexDigit (hexadecimal byte member)
      exact allShown_cons (by decide) (allShown_cons (by decide) (digitsShown.append ih))

theorem StringText.shown (string : StringText text) : AllShown text := by
  obtain ⟨characters, read, rfl⟩ := string
  exact (allShown_cons (by decide) read.shown).append (allShown_cons (by decide) allShown_nil)

mutual

theorem Value.shown : ∀ {text : Bytes}, Value text → AllShown text
  | _, .literal name => by
      have names : ∀ text ∈ [bytes "false", bytes "null", bytes "true"],
          text.all (32 ≤ ·) = true :=
        forall_mem_of_all (by decide)
      exact allShown_of_printable fun byte member =>
        of_decide_eq_true (List.all_eq_true.mp (names _ name) byte member)
  | _, .number number => number.shown
  | _, .string string => string.shown
  | _, .emptyObject opens closes => (opens.shown (by decide)).append (closes.shown (by decide))
  | _, .object opens members closes =>
      (opens.shown (by decide)).append (members.shown.append (closes.shown (by decide)))
  | _, .emptyArray opens closes => (opens.shown (by decide)).append (closes.shown (by decide))
  | _, .array opens elements closes =>
      (opens.shown (by decide)).append (elements.shown.append (closes.shown (by decide)))

theorem Members.shown : ∀ {text : Bytes}, Members text → AllShown text
  | _, .last name separates read =>
      name.shown.append ((separates.shown (by decide)).append read.shown)
  | _, .more name separates read continues later =>
      name.shown.append ((separates.shown (by decide)).append
        (read.shown.append ((continues.shown (by decide)).append later.shown)))

theorem Elements.shown : ∀ {text : Bytes}, Elements text → AllShown text
  | _, .last read => read.shown
  | _, .more read continues later =>
      read.shown.append ((continues.shown (by decide)).append later.shown)

end

theorem Text.shown (derived : Text text) : AllShown text := by
  obtain ⟨before, value, after, befores, read, afters, rfl⟩ := derived
  exact befores.shown.append (read.shown.append afters.shown)

end Shown

/-- The bodies that a writer may write are strings of the grammar. -/
theorem characters_of_encodes {value text : Bytes} (encodes : Encodes value text) :
    Characters text := by
  induction encodes with
  | nil => exact .nil
  | plain printable quote backslash _ ih => exact .unescaped printable quote backslash ih
  | short escape _ ih => exact .short (List.mem_map_of_mem escape) ih

end StandardJson

end Libjaypea
