import Libjaypea.CString

/-!
# Strings of standard JSON

What a standard parser reads from a string, and from an object whose members
are strings, and the texts that a standard writer may write for a string.  A
`\u` escape denotes some bytes of its four digits.
-/

namespace Libjaypea

namespace StandardJson

/-- The letters of the short escapes and the bytes that they stand for. -/
def shortEscapes : List (UInt8 × UInt8) :=
  [(ch '"', ch '"'), (ch '\\', ch '\\'), (ch '/', ch '/'), (ch 'b', 8), (ch 'f', 12),
    (ch 'n', ch '\n'), (ch 'r', ch '\r'), (ch 't', ch '\t')]

def isSpace (byte : UInt8) : Bool :=
  byte = ch ' ' ∨ byte = ch '\t' ∨ byte = ch '\r' ∨ byte = ch '\n'

theorem eq_of_isSpace {byte : UInt8} (space : isSpace byte) :
    byte = ch ' ' ∨ byte = ch '\t' ∨ byte = ch '\r' ∨ byte = ch '\n' :=
  of_decide_eq_true space

def Whitespace (text : Bytes) : Prop :=
  ∀ byte ∈ text, isSpace byte

theorem whitespace_nil : Whitespace [] := by
  simp [Whitespace]

theorem Whitespace.append {first second : Bytes} (before : Whitespace first)
    (after : Whitespace second) : Whitespace (first ++ second) :=
  fun byte member => (List.mem_append.mp member).elim (before byte) (after byte)

def skipSpaces (text : Bytes) : Bytes :=
  text.dropWhile isSpace

section Reading

variable (unicode : UInt8 → UInt8 → UInt8 → UInt8 → Bytes)

/-- The value of a string, and what follows it, from behind its opening quote. -/
def readString : Bytes → Option (Bytes × Bytes)
  | [] => none
  | byte :: rest =>
      if byte = ch '"' then some ([], rest)
      else if byte = ch '\\' then
        match rest with
        | [] => none
        | letter :: after =>
            match shortEscapes.find? (·.1 = letter) with
            | some escape => (readString after).map fun read => (escape.2 :: read.1, read.2)
            | none =>
                match after with
                | first :: second :: third :: fourth :: behind =>
                    if letter = ch 'u' then
                      (readString behind).map fun read =>
                        (unicode first second third fourth ++ read.1, read.2)
                    else none
                | _ => none
      else if byte < 32 then none
      else (readString rest).map fun read => (byte :: read.1, read.2)

/-- A string behind white space. -/
def readLiteral (text : Bytes) : Option (Bytes × Bytes) :=
  match skipSpaces text with
  | byte :: rest => if byte = ch '"' then readString unicode rest else none
  | [] => none

/-- The members of an object, and what follows it. -/
def readMembers : Nat → Bytes → Option (List (Bytes × Bytes) × Bytes)
  | 0, _ => none
  | fuel + 1, text =>
      (readLiteral unicode text).bind fun key =>
        match skipSpaces key.2 with
        | byte :: afterColon =>
            if byte = ch ':' then
              (readLiteral unicode afterColon).bind fun value =>
                match skipSpaces value.2 with
                | byte :: rest =>
                    if byte = ch '}' then some ([(key.1, value.1)], rest)
                    else if byte = ch ',' then
                      (readMembers fuel rest).map fun read =>
                        ((key.1, value.1) :: read.1, read.2)
                    else none
                | [] => none
            else none
        | [] => none

/-- An object whose members are strings. -/
def readObject (text : Bytes) : Option (List (Bytes × Bytes)) :=
  match skipSpaces text with
  | byte :: inside =>
      if byte = ch '{' then
        match skipSpaces inside with
        | byte :: rest =>
            if byte = ch '}' then if skipSpaces rest = [] then some [] else none
            else (readMembers unicode inside.length inside).bind fun read =>
              if skipSpaces read.2 = [] then some read.1 else none
        | [] => none
      else none
  | [] => none

end Reading

/-- The bodies of the strings that a writer may write for a value. -/
inductive Encodes : Bytes → Bytes → Prop
  | nil : Encodes [] []
  | plain {byte : UInt8} {value text : Bytes} (printable : 32 ≤ byte) (quote : byte ≠ ch '"')
      (backslash : byte ≠ ch '\\') (rest : Encodes value text) :
      Encodes (byte :: value) (byte :: text)
  | short {letter byte : UInt8} {value text : Bytes} (escape : (letter, byte) ∈ shortEscapes)
      (rest : Encodes value text) : Encodes (byte :: value) (ch '\\' :: letter :: text)

section Rules

variable {unicode : UInt8 → UInt8 → UInt8 → UInt8 → Bytes} {text rest value : Bytes}

theorem readString_quote : readString unicode (ch '"' :: rest) = some ([], rest) := by
  rw [readString.eq_def]
  exact if_pos rfl

theorem readString_plain {byte : UInt8} (printable : 32 ≤ byte) (quote : byte ≠ ch '"')
    (backslash : byte ≠ ch '\\') :
    readString unicode (byte :: rest) =
      (readString unicode rest).map fun read => (byte :: read.1, read.2) := by
  have visible : ¬ byte < 32 := UInt8.not_lt.mpr printable
  rw [readString.eq_def]
  simp only [quote, backslash, visible, if_false]

theorem readString_short {letter byte : UInt8} (escape : (letter, byte) ∈ shortEscapes) :
    readString unicode (ch '\\' :: letter :: rest) =
      (readString unicode rest).map fun read => (byte :: read.1, read.2) := by
  have found : ∀ entry ∈ shortEscapes, shortEscapes.find? (·.1 = entry.1) = some entry :=
    forall_mem_of_all (by decide)
  have quote : ch '\\' ≠ ch '"' := by decide
  rw [readString.eq_def]
  simp only [quote, if_false, if_true, found _ escape]

/-- What was encoded is read back. -/
theorem readString_of_encodes (encodes : Encodes value text) :
    readString unicode (text ++ ch '"' :: rest) = some (value, rest) := by
  induction encodes with
  | nil => exact readString_quote
  | plain printable quote backslash _ ih =>
      rw [List.cons_append, readString_plain printable quote backslash, ih]
      rfl
  | short escape _ ih =>
      rw [List.cons_append, List.cons_append, readString_short escape, ih]
      rfl

theorem Encodes.append {other more : Bytes} (first : Encodes value text)
    (second : Encodes other more) : Encodes (value ++ other) (text ++ more) := by
  induction first with
  | nil => exact second
  | plain printable quote backslash _ ih => exact .plain printable quote backslash ih
  | short escape _ ih => exact .short escape ih

theorem skipSpaces_of_not {byte : UInt8} (visible : isSpace byte = false) :
    skipSpaces (byte :: rest) = byte :: rest := by
  rw [skipSpaces, List.dropWhile_cons, visible]
  rfl

theorem readLiteral_of_encodes (encodes : Encodes value text) :
    readLiteral unicode (ch '"' :: (text ++ ch '"' :: rest)) = some (value, rest) := by
  rw [readLiteral, skipSpaces_of_not (by decide)]
  simp only [if_true]
  exact readString_of_encodes encodes

/-- An object with one member, without white space. -/
theorem readObject_singleton {key keyText : Bytes} (keyEncodes : Encodes key keyText)
    (encodes : Encodes value text) :
    readObject unicode (ch '{' :: ch '"' :: (keyText ++ ch '"' :: ch ':' :: ch '"' ::
      (text ++ [ch '"', ch '}']))) = some [(key, value)] := by
  have first : ch '"' ≠ ch '}' := by decide
  rw [readObject, skipSpaces_of_not (by decide)]
  simp only [if_true]
  rw [skipSpaces_of_not (by decide)]
  simp only [first, if_false, List.length_cons]
  rw [readMembers, readLiteral_of_encodes keyEncodes, Option.bind_some,
    skipSpaces_of_not (by decide)]
  simp only [if_true]
  rw [readLiteral_of_encodes encodes, Option.bind_some, skipSpaces_of_not (by decide)]
  simp [skipSpaces]

end Rules

end StandardJson

end Libjaypea
