import Libjaypea.CString
import Libjaypea.KeyedList

/-!
# The JSON object and its parser

`JsonObject` as the program declares it, with `parse`, `escape`, `deescape`,
`stringify` and the typed accessors.  `parse` is one loop over a cursor which
calls itself for every nested value.  A pass through the body of the loop is
classified by `parseAction`; `parseLoop` iterates it.
-/

namespace Libjaypea

inductive JsonType
  | notype
  | string
  | object
  | array
  deriving DecidableEq, Repr

/-- The source also declares `GOTVALUE`, which no code mentions. -/
inductive JsonObjectState
  | noState
  | getKey
  | gotKey
  | getValue
  deriving DecidableEq, Repr

/-- Children are owned, so a pointer to one is modelled by the child itself. -/
structure JsonObject where
  type : JsonType
  stringValue : Bytes
  objectValues : List (Bytes × JsonObject)
  arrayValues : List JsonObject

namespace JsonObject

def typeString : JsonType → Bytes
  | .notype => bytes "No Json"
  | .string => bytes "String"
  | .object => bytes "Object"
  | .array => bytes "Array"

def new (type : JsonType) : JsonObject :=
  ⟨type, [], [], []⟩

def ofString (stringValue : Bytes) : JsonObject :=
  ⟨.string, stringValue, [], []⟩

/-- The local variables of a call of `parse`, with the object it fills. -/
structure ParseState where
  this : JsonObject
  ss : Bytes
  objState : JsonObjectState
  it : Nat

namespace ParseState

def start (this : JsonObject) (str : Nat) : ParseState :=
  ⟨this, [], .noState, str⟩

/-- The end of the loop body: strings and keys collect the current byte. -/
def collect (state : ParseState) (byte : UInt8) : ParseState :=
  if state.this.type = .string ∨ (state.this.type = .object ∧ state.objState = .getKey) then
    { state with ss := state.ss ++ [byte] }
  else state

/-- The increment of the loop. -/
def advance (state : ParseState) : ParseState :=
  { state with it := state.it + 1 }

/-- `arrayValues.push_back(value)`, with the cursor set to `it`. -/
def pushBack (state : ParseState) (value : JsonObject) (it : Nat) : ParseState :=
  { state with
    this := { state.this with arrayValues := state.this.arrayValues ++ [value] }
    it := it }

/-- `objectValues[ss.str()] = value`, after which the next key is awaited. -/
def setMember (state : ParseState) (value : JsonObject) (it : Nat) : ParseState :=
  { this := { state.this with
      objectValues := KeyedList.set state.this.objectValues state.ss value }
    ss := []
    objState := .noState
    it := it }

end ParseState

/-- What one pass through the body of the loop in `parse` does. -/
inductive ParseAction
  /-- The body ends or continues, and the loop increments the cursor. -/
  | next (state : ParseState)
  /-- `return it`. -/
  | done (this : JsonObject) (it : Nat)
  /-- `value = new JsonObject(); it = value->parse(it);` and the statements that follow. -/
  | nested (resume : JsonObject → Nat → ParseState)

def parseAction (memory : Memory) (state : ParseState) : ParseAction :=
  let this := state.this
  let it := state.it
  let byte := memory it
  if byte = ch '\\' then
    let escaped := { state with it := it + 1 }
    if memory (it + 1) = ch 'n' ∨ memory (it + 1) = ch 'r' ∨ memory (it + 1) = ch 't' then
      .next escaped
    else .next (escaped.collect (memory (it + 1)))
  else if byte = ch '"' then
    match this.type with
    | .notype => .next { state with this := { this with type := .string } }
    | .string => .done { this with stringValue := state.ss } (it + 1)
    | .object =>
        match state.objState with
        | .noState => .next { state with objState := .getKey }
        | .getKey => .next { state with objState := .gotKey }
        | _ => .next (state.collect byte)
    | .array => .nested fun value it => state.pushBack value (it - 1)
  else if byte = ch '{' then
    match this.type with
    | .notype => .next { state with this := { this with type := .object } }
    | .array => .nested fun value it => state.pushBack value it
    | _ => .next (state.collect byte)
  else if byte = ch '}' then
    if this.type = .object ∧ state.objState = .noState then .done this it
    else if this.type = .array then .done this it
    else .next (state.collect byte)
  else if byte = ch '[' then
    match this.type with
    | .notype => .next { state with this := { this with type := .array } }
    | .array => .nested fun value it => state.pushBack value it
    | _ => .next (state.collect byte)
  else if byte = ch ']' then
    if this.type = .array then .done this it
    else if this.type = .object ∧ state.objState ≠ .getKey ∧ state.objState ≠ .getValue then
      .done this it
    else .next (state.collect byte)
  else if byte = ch ':' then
    if this.type = .object ∧ state.objState = .gotKey then
      .nested fun value it =>
        state.setMember value
          (if value.type ≠ .object ∧ value.type ≠ .array then it - 1 else it)
    else .next (state.collect byte)
  else .next (state.collect byte)

def parseLoop (memory : Memory) : Nat → ParseState → Option (JsonObject × Nat)
  | 0, _ => none
  | fuel + 1, state =>
      if memory state.it = 0 then some (state.this, state.it - 1)
      else
        match parseAction memory state with
        | .next after => parseLoop memory fuel after.advance
        | .done this it => some (this, it)
        | .nested resume =>
            (parseLoop memory fuel (.start (new .notype) state.it)).bind fun result =>
              parseLoop memory fuel (resume result.1 result.2).advance

/-- `JsonObject::parse`: the filled object and the returned cursor. -/
def parse (memory : Memory) (this : JsonObject) (str : Nat) (fuel : Nat) :
    Option (JsonObject × Nat) :=
  parseLoop memory fuel (.start this str)

def escapeByte (byte : UInt8) : Bytes :=
  if byte = ch '\n' then bytes "\\n"
  else if byte = ch '\r' then bytes "\\r"
  else if byte = ch '\t' then bytes "\\t"
  else if byte = ch '"' then bytes "\\\""
  else if byte = ch '\\' then bytes "\\\\"
  else [byte]

def escape (value : Bytes) : Bytes :=
  ch '"' :: value.flatMap escapeByte ++ [ch '"']

/-- Reading one past the end of a `std::string` gives its terminator, which
begins no escape, so a trailing backslash is kept. -/
def deescape : Bytes → Bytes
  | [] => []
  | [byte] => [byte]
  | byte :: following :: rest =>
      if byte = ch '\\' ∧ following = ch 'n' then ch '\n' :: deescape rest
      else if byte = ch '\\' ∧ following = ch 'r' then ch '\r' :: deescape rest
      else if byte = ch '\\' ∧ following = ch 't' then ch '\t' :: deescape rest
      else if byte = ch '\\' ∧ following = ch '"' then ch '"' :: deescape rest
      else if byte = ch '\\' ∧ following = ch '\\' then ch '\\' :: deescape rest
      else byte :: deescape (following :: rest)

def indent (pretty : Bool) (depth : Nat) : Bytes :=
  if pretty then List.replicate depth (ch '\t') else []

def lineBreak (pretty : Bool) : Bytes :=
  if pretty then [ch '\n'] else []

mutual

def stringify (pretty : Bool) (depth : Nat) : JsonObject → Bytes
  | ⟨.notype, _, _, _⟩ => bytes "\"\""
  | ⟨.string, stringValue, _, _⟩ => escape stringValue
  | ⟨.object, _, objectValues, _⟩ =>
      ch '{' :: lineBreak pretty ++
        stringifyMembers pretty (if pretty then depth + 1 else depth) objectValues ++
        indent pretty depth ++ [ch '}']
  | ⟨.array, _, _, arrayValues⟩ =>
      ch '[' :: lineBreak pretty ++
        stringifyItems pretty (if pretty then depth + 1 else depth) arrayValues ++
        indent pretty depth ++ [ch ']']

/-- The loop over `objectValues`, in iteration order. -/
def stringifyMembers (pretty : Bool) (depth : Nat) : List (Bytes × JsonObject) → Bytes
  | [] => []
  | (key, value) :: rest =>
      indent pretty depth ++ escape key ++ [ch ':'] ++ stringify pretty depth value ++
        (if rest.isEmpty then [] else [ch ',']) ++ lineBreak pretty ++
        stringifyMembers pretty depth rest

/-- The loop over `arrayValues`. -/
def stringifyItems (pretty : Bool) (depth : Nat) : List JsonObject → Bytes
  | [] => []
  | item :: rest =>
      indent pretty depth ++ stringify pretty depth item ++
        (if rest.isEmpty then [] else [ch ',']) ++ lineBreak pretty ++
        stringifyItems pretty depth rest

end

def hasObj (this : JsonObject) (key : Bytes) (type : JsonType) : Bool :=
  match KeyedList.get? this.objectValues key with
  | none => false
  | some child => child.type = type

/-- `none` stands for `throw new std::exception()`: the thrown value is a pointer. -/
def getStr (this : JsonObject) (key : Bytes) : Option Bytes :=
  (KeyedList.get? this.objectValues key).map stringValue

end JsonObject

end Libjaypea
