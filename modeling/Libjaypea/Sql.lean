import Libjaypea.CString
import Libjaypea.KeyedList

/-!
# SQL over one table

Statements are lists of tokens, so that a literal is one token whatever it
holds, and text that is spliced into a statement is read like any other text.
A statement is parsed and executed on the rows of one table; one that fails
changes nothing.
-/

namespace Libjaypea

namespace Sql

inductive Keyword
  | select | from_ | where_ | and_ | or_ | is_ | null | order | by_ | desc | as_
  | update | set | insert | into | values | returning
  deriving DecidableEq, Repr

inductive Token
  | keyword (keyword : Keyword)
  | name (text : Bytes)
  | symbol (byte : UInt8)
  | literal (value : Bytes)
  deriving DecidableEq, Repr

section Lexer

def keywords : List (Bytes × Keyword) :=
  [(bytes "SELECT", .select), (bytes "FROM", .from_), (bytes "WHERE", .where_),
    (bytes "AND", .and_), (bytes "OR", .or_), (bytes "IS", .is_), (bytes "NULL", .null),
    (bytes "ORDER", .order), (bytes "BY", .by_), (bytes "DESC", .desc), (bytes "AS", .as_),
    (bytes "UPDATE", .update), (bytes "SET", .set), (bytes "INSERT", .insert),
    (bytes "INTO", .into), (bytes "VALUES", .values), (bytes "RETURNING", .returning)]

def upper (byte : UInt8) : UInt8 :=
  if ch 'a' ≤ byte ∧ byte ≤ ch 'z' then byte - 32 else byte

def lower (byte : UInt8) : UInt8 :=
  if ch 'A' ≤ byte ∧ byte ≤ ch 'Z' then byte + 32 else byte

/-- Names that are not quoted are folded to lower case. -/
def word (text : Bytes) : Token :=
  match KeyedList.get? keywords (text.map upper) with
  | some keyword => .keyword keyword
  | none => .name (text.map lower)

def isWordByte (byte : UInt8) : Bool :=
  (ch 'a' ≤ byte && byte ≤ ch 'z') || (ch 'A' ≤ byte && byte ≤ ch 'Z') ||
    (ch '0' ≤ byte && byte ≤ ch '9') || byte == ch '_'

def isSpace (byte : UInt8) : Bool :=
  byte == ch ' ' || byte == 9 || byte == 10 || byte == 13

/-- The quote of a literal. -/
def quoteByte : UInt8 := 39

/-- What the lexer is reading. -/
inductive Reading
  | text (pending : Bytes)
  | quoted (value : Bytes)
  /-- A quote that ends the literal or is the first half of a doubled one. -/
  | closing (value : Bytes)

def flush (pending : Bytes) : List Token :=
  if pending = [] then [] else [word pending]

def readText (pending : Bytes) (byte : UInt8) : Reading × List Token :=
  if isWordByte byte then (.text (pending ++ [byte]), [])
  else if isSpace byte then (.text [], flush pending)
  else if byte = quoteByte then (.quoted [], flush pending)
  else (.text [], flush pending ++ [.symbol byte])

def Reading.next : Reading → UInt8 → Reading × List Token
  | .text pending, byte => readText pending byte
  | .quoted value, byte =>
      if byte = quoteByte then (.closing value, []) else (.quoted (value ++ [byte]), [])
  | .closing value, byte =>
      if byte = quoteByte then (.quoted (value ++ [byte]), [])
      else ((readText [] byte).1, .literal value :: (readText [] byte).2)

/-- The end of the text; a literal that is not closed leaves its quote. -/
def Reading.finish : Reading → List Token
  | .text pending => flush pending
  | .quoted _ => [.symbol quoteByte]
  | .closing value => [.literal value]

def lexFrom : Reading → Bytes → List Token
  | reading, [] => reading.finish
  | reading, byte :: rest => (reading.next byte).2 ++ lexFrom (reading.next byte).1 rest

def lex (text : Bytes) : List Token :=
  lexFrom (.text []) text

/-- The text is one identifier. -/
structure Identifier (text : Bytes) : Prop where
  nonempty : text ≠ []
  plain : ∀ byte ∈ text, isWordByte byte = true
  folded : text.map lower = text
  unreserved : KeyedList.get? keywords (text.map upper) = none

theorem identifier_iff {text : Bytes} : Identifier text ↔
    text ≠ [] ∧ text.all isWordByte = true ∧ text.map lower = text ∧
      KeyedList.get? keywords (text.map upper) = none :=
  ⟨fun identifier => ⟨identifier.nonempty, List.all_eq_true.mpr identifier.plain,
    identifier.folded, identifier.unreserved⟩, fun ⟨nonempty, plain, folded, unreserved⟩ =>
    ⟨nonempty, List.all_eq_true.mp plain, folded, unreserved⟩⟩

instance (text : Bytes) : Decidable (Identifier text) :=
  decidable_of_iff _ identifier_iff.symm

theorem lexFrom_word (pending text : Bytes) (plain : ∀ byte ∈ text, isWordByte byte = true) :
    lexFrom (.text pending) text = flush (pending ++ text) := by
  induction text generalizing pending with
  | nil => simp [lexFrom, Reading.finish]
  | cons byte rest ih =>
      obtain ⟨head, tail⟩ := List.forall_mem_cons.mp plain
      simp only [lexFrom, Reading.next, readText, head, if_true, List.nil_append]
      rw [ih _ tail, List.append_assoc, List.singleton_append]

theorem lex_identifier {text : Bytes} (identifier : Identifier text) : lex text = [.name text] := by
  rw [lex, lexFrom_word [] text identifier.plain, List.nil_append, flush,
    if_neg identifier.nonempty, word, identifier.unreserved, identifier.folded]

end Lexer

/-- A value that a statement writes. -/
inductive Operand
  | null
  | literal (value : Bytes)
  /-- A call such as `now()`. -/
  | constant (function : Bytes)
  | call (function value : Bytes)
  deriving DecidableEq

inductive Atom
  | equals (column value : Bytes)
  | isNull (column : Bytes)
  deriving DecidableEq

/-- A disjunction of conjunctions: `AND` binds closer than `OR`. -/
abbrev Condition := List (List Atom)

inductive Item
  | column (name : Bytes)
  | computed (function column label : Bytes)
  deriving DecidableEq

inductive Statement
  /-- `none` selects every column; the rows may be ordered by a column, largest first. -/
  | select (items : Option (List Item)) (table : Bytes) (condition : Condition)
      (descending : Option Bytes)
  | update (table : Bytes) (assignments : List (Bytes × Operand)) (condition : Condition)
      (returning : Option Bytes)
  | insert (table : Bytes) (columns : List Bytes) (values : List Operand)
      (returning : Option Bytes)
  deriving DecidableEq

section Parser

/-- The tokens before and behind a keyword. -/
def splitAt (keyword : Keyword) : List Token → Option (List Token × List Token)
  | [] => none
  | token :: rest =>
      if token = .keyword keyword then some ([], rest)
      else (splitAt keyword rest).map fun parts => (token :: parts.1, parts.2)

/-- The tokens between the separators. -/
def pieces (separator : Token) : List Token → List (List Token)
  | [] => [[]]
  | token :: rest =>
      if token = separator then [] :: pieces separator rest
      else
        match pieces separator rest with
        | [] => [[token]]
        | piece :: others => (token :: piece) :: others

def comma : Token := .symbol (ch ',')
def opening : Token := .symbol (ch '(')
def closed : Token := .symbol (ch ')')
def semicolon : Token := .symbol (ch ';')

def parseAtom : List Token → Option Atom
  | [.name column, .symbol 61, .literal value] => some (.equals column value)
  | [.name column, .keyword .is_, .keyword .null] => some (.isNull column)
  | _ => none

def parseCondition (tokens : List Token) : Option Condition :=
  (pieces (.keyword .or_) tokens).mapM fun conjunction =>
    (pieces (.keyword .and_) conjunction).mapM parseAtom

def parseItem : List Token → Option Item
  | [.name column] => some (.column column)
  | [.name function, .symbol 40, .name column, .symbol 41, .keyword .as_, .name label] =>
      some (.computed function column label)
  | _ => none

/-- A list of columns may be empty. -/
def parseItems (tokens : List Token) : Option (Option (List Item)) :=
  if tokens = [.symbol (ch '*')] then some none
  else if tokens = [] then some (some [])
  else ((pieces comma tokens).mapM parseItem).map some

def parseOperand : List Token → Option Operand
  | [.keyword .null] => some .null
  | [.literal value] => some (.literal value)
  | [.name function, .symbol 40, .symbol 41] => some (.constant function)
  | [.name function, .symbol 40, .literal value, .symbol 41] => some (.call function value)
  | _ => none

def parseAssignment : List Token → Option (Bytes × Operand)
  | .name column :: .symbol 61 :: operand => (parseOperand operand).map (column, ·)
  | _ => none

/-- The table, and the condition on its rows if there is one. -/
def parseRows : List Token → Option (Bytes × Condition)
  | [.name table] => some (table, [[]])
  | .name table :: .keyword .where_ :: tokens => (parseCondition tokens).map (table, ·)
  | _ => none

def parseSelect (tokens : List Token) : Option Statement :=
  (splitAt .from_ tokens).bind fun parts =>
    (parseItems parts.1).bind fun items =>
      match splitAt .order parts.2 with
      | none => (parseRows parts.2).map fun rows => .select items rows.1 rows.2 none
      | some (rows, [.keyword .by_, .name column, .keyword .desc]) =>
          (parseRows rows).map fun rows => .select items rows.1 rows.2 (some column)
      | some _ => none

/-- The column that a statement returns, behind its last part. -/
def parseReturning (tokens : List Token) : Option (List Token × Option Bytes) :=
  match splitAt .returning tokens with
  | none => some (tokens, none)
  | some (before, [.name column]) => some (before, some column)
  | some _ => none

def parseUpdate : List Token → Option Statement
  | .name table :: .keyword .set :: tokens =>
      (splitAt .where_ tokens).bind fun parts =>
        ((pieces comma parts.1).mapM parseAssignment).bind fun assignments =>
          (parseReturning parts.2).bind fun (condition, returning) =>
            (parseCondition condition).map fun condition =>
              .update table assignments condition returning
  | _ => none

def parseName : List Token → Option Bytes
  | [.name column] => some column
  | _ => none

/-- The tokens between an opening and a closing parenthesis. -/
def parenthesised : List Token → Option (List Token)
  | .symbol 40 :: tokens => if tokens.getLast? = some closed then some tokens.dropLast else none
  | _ => none

def parseInsert : List Token → Option Statement
  | .name table :: tokens =>
      (splitAt .values tokens).bind fun parts =>
        (parenthesised parts.1).bind fun columns =>
          ((pieces comma columns).mapM parseName).bind fun columns =>
            (parseReturning parts.2).bind fun (values, returning) =>
              (parenthesised values).bind fun values =>
                ((pieces comma values).mapM parseOperand).map fun values =>
                  .insert table columns values returning
  | _ => none

def withoutSemicolon (tokens : List Token) : List Token :=
  if tokens.getLast? = some semicolon then tokens.dropLast else tokens

def parse (tokens : List Token) : Option Statement :=
  match withoutSemicolon tokens with
  | .keyword .select :: tokens => parseSelect tokens
  | .keyword .update :: tokens => parseUpdate tokens
  | .keyword .insert :: .keyword .into :: tokens => parseInsert tokens
  | _ => none

theorem splitAt_of_notMem {keyword : Keyword} {before : List Token}
    (absent : .keyword keyword ∉ before) (after : List Token) :
    splitAt keyword (before ++ .keyword keyword :: after) = some (before, after) := by
  induction before with
  | nil => simp [splitAt]
  | cons token rest ih =>
      obtain ⟨head, tail⟩ := not_or.mp (List.mem_cons.not.mp absent)
      simp [splitAt, Ne.symm head, ih tail]

theorem pieces_of_notMem {separator : Token} {piece : List Token} (absent : separator ∉ piece) :
    pieces separator piece = [piece] := by
  induction piece with
  | nil => rfl
  | cons token rest ih =>
      obtain ⟨head, tail⟩ := not_or.mp (List.mem_cons.not.mp absent)
      simp [pieces, Ne.symm head, ih tail]

theorem pieces_append {separator : Token} {piece : List Token} (absent : separator ∉ piece)
    (rest : List Token) :
    pieces separator (piece ++ separator :: rest) = piece :: pieces separator rest := by
  induction piece with
  | nil => simp [pieces]
  | cons token tokens ih =>
      obtain ⟨head, tail⟩ := not_or.mp (List.mem_cons.not.mp absent)
      simp [pieces, Ne.symm head, ih tail]

end Parser

/-- A row keeps its identity when its cells change; a cell without a value is `NULL`. -/
structure Row where
  identity : Nat
  cell : Bytes → Option Bytes

/-- A row of a result, with the identity of the row that it was made of. -/
structure Record where
  identity : Nat
  fields : List (Bytes × Option Bytes)

/-- What the server brings to the execution of a statement on a table. -/
structure Server where
  table : Bytes
  columns : List Bytes
  /-- The value of a literal in a column, `none` when it does not have its type. -/
  cast : Bytes → Bytes → Option Bytes
  /-- The order of the values of a column. -/
  precedes : Bytes → Bytes → Bytes → Bool
  /-- The value of a function without arguments, such as `now()`. -/
  constant : Bytes → Option Bytes
  /-- The value of a function of a literal. -/
  call : Bytes → Bytes → Option Bytes
  /-- The value of a function of a selected value. -/
  computed : Bytes → Bytes → Bytes
  /-- The cells of a new row that a statement does not give. -/
  defaults : Bytes → Option Bytes
  /-- The constraints of the table. -/
  accepts : List Row → Bool

section Execution

variable (server : Server)

def Atom.column : Atom → Bytes
  | .equals column _ => column
  | .isNull column => column

/-- The columns are there and the literals have their types. -/
def Atom.checked : Atom → Bool
  | .equals column value => server.columns.contains column && (server.cast column value).isSome
  | .isNull column => server.columns.contains column

def Atom.holds (row : Row) : Atom → Bool
  | .equals column value => (row.cell column).isSome && row.cell column == server.cast column value
  | .isNull column => (row.cell column).isNone

def Condition.checked (condition : Condition) : Bool :=
  condition.all fun conjunction => conjunction.all (Atom.checked server)

def Condition.holds (condition : Condition) (row : Row) : Bool :=
  condition.any fun conjunction => conjunction.all (Atom.holds server row)

def Item.checked : Item → Bool
  | .column name => server.columns.contains name
  | .computed _ name _ => server.columns.contains name

def Item.field (row : Row) : Item → Bytes × Option Bytes
  | .column name => (name, row.cell name)
  | .computed function name label => (label, (row.cell name).map (server.computed function))

def Row.record (row : Row) : Option (List Item) → Record
  | none => ⟨row.identity, server.columns.map fun column => (column, row.cell column)⟩
  | some items => ⟨row.identity, items.map (Item.field server row)⟩

/-- The order of `ORDER BY column DESC`, where `NULL` comes first. -/
def comesFirst (column : Bytes) (first second : Row) : Bool :=
  match first.cell column, second.cell column with
  | none, _ => true
  | some _, none => false
  | some value, some other => server.precedes column other value

def ordered (descending : Option Bytes) (rows : List Row) : List Row :=
  match descending with
  | none => rows
  | some column => rows.mergeSort (comesFirst server column)

/-- The cell that an operand makes, `none` when it fails. -/
def Operand.value (column : Bytes) : Operand → Option (Option Bytes)
  | .null => some none
  | .literal value => (server.cast column value).map some
  | .constant function => (server.constant function).map some
  | .call function value => (server.call function value).map some

/-- The cells that the assignments write; `none` when one fails. -/
def assign (assignments : List (Bytes × Operand)) : Option (List (Bytes × Option Bytes)) :=
  if assignments.all (server.columns.contains ·.1) ∧ (assignments.map (·.1)).Nodup then
    assignments.mapM fun assignment =>
      (assignment.2.value server assignment.1).map (assignment.1, ·)
  else none

def Row.write (row : Row) (cells : List (Bytes × Option Bytes)) : Row :=
  { row with cell := fun column => (KeyedList.get? cells column).getD (row.cell column) }

def Row.returned (row : Row) (column : Bytes) : Record :=
  ⟨row.identity, [(column, row.cell column)]⟩

/-- The identity of a row that is added. -/
def newIdentity (rows : List Row) : Nat :=
  rows.foldr (fun row next => max (row.identity + 1) next) 0

/-- The records that are selected; `none` when the statement fails. -/
def select (rows : List Row) (items : Option (List Item)) (table : Bytes) (condition : Condition)
    (descending : Option Bytes) : Option (List Record) :=
  if table = server.table ∧ (∀ item ∈ items.getD [], Item.checked server item) ∧
      condition.checked server ∧ (∀ column ∈ descending, column ∈ server.columns) then
    some ((ordered server descending (rows.filter (condition.holds server))).map
      (Row.record server · items))
  else none

/-- The records that are returned, and the rows afterwards. -/
def update (rows : List Row) (table : Bytes) (assignments : List (Bytes × Operand))
    (condition : Condition) (returning : Option Bytes) : Option (List Record × List Row) :=
  if table = server.table ∧ condition.checked server ∧
      (∀ column ∈ returning, column ∈ server.columns) then
    (assign server assignments).bind fun cells =>
      let written := rows.map fun row => if condition.holds server row then row.write cells else row
      if server.accepts written then
        some (returning.elim [] fun column =>
          (rows.filter (condition.holds server)).map fun row => (row.write cells).returned column,
          written)
      else none
  else none

def insert (rows : List Row) (table : Bytes) (columns : List Bytes) (values : List Operand)
    (returning : Option Bytes) : Option (List Record × List Row) :=
  if table = server.table ∧ columns.length = values.length ∧
      (∀ column ∈ returning, column ∈ server.columns) then
    (assign server (columns.zip values)).bind fun cells =>
      let row := Row.write ⟨newIdentity rows, server.defaults⟩ cells
      if server.accepts (rows ++ [row]) then
        some (returning.elim [] fun column => [row.returned column], rows ++ [row])
      else none
  else none

/-- The records that a statement returns, and the rows that it leaves. -/
def execute (rows : List Row) : Statement → Option (List Record × List Row)
  | .select items table condition descending =>
      (select server rows items table condition descending).map (·, rows)
  | .update table assignments condition returning =>
      update server rows table assignments condition returning
  | .insert table columns values returning => insert server rows table columns values returning

/-- `exec` of the text of a statement. -/
def exec (rows : List Row) (tokens : List Token) : Option (List Record × List Row) :=
  (parse tokens).bind (execute server rows)

end Execution

section Rows

variable {server : Server} {rows after : List Row} {records : List Record}

theorem lt_newIdentity {row : Row} (member : row ∈ rows) : row.identity < newIdentity rows := by
  induction rows with
  | nil => cases member
  | cons first rest ih =>
      rw [newIdentity, List.foldr_cons]
      rcases List.mem_cons.mp member with rfl | later
      · omega
      · have below := ih later
        rw [newIdentity] at below
        omega

theorem exec_eq_some {tokens : List Token} {statement : Statement}
    (parses : parse tokens = some statement) :
    exec server rows tokens = execute server rows statement := by
  rw [exec, parses, Option.bind_some]

/-- The rows that a selection is made of. -/
theorem exists_row_of_select {items : Option (List Item)} {table : Bytes} {condition : Condition}
    {descending : Option Bytes}
    (selects : select server rows items table condition descending = some records) {record : Record}
    (member : record ∈ records) :
    ∃ row ∈ rows, record = row.record server items ∧ condition.holds server row = true := by
  unfold select at selects
  split at selects
  · cases selects
    obtain ⟨row, found, rfl⟩ := List.mem_map.mp member
    have selected : row ∈ rows.filter (condition.holds server) := by
      cases descending with
      | none => exact found
      | some column => exact List.mem_mergeSort.mp found
    obtain ⟨present, holds⟩ := List.mem_filter.mp selected
    exact ⟨row, present, rfl, holds⟩
  · cases selects

theorem mem_select {items : Option (List Item)} {table : Bytes} {condition : Condition}
    {descending : Option Bytes}
    (selects : select server rows items table condition descending = some records) {record : Record}
    (member : record ∈ records) :
    ∃ row ∈ rows, row.identity = record.identity ∧ condition.holds server row = true := by
  obtain ⟨row, present, rfl, holds⟩ := exists_row_of_select selects member
  refine ⟨row, present, ?_, holds⟩
  cases items <;> rfl

end Rows

section Pairs

variable {server : Server} {pairs : List (Row × Row)} {condition : Condition}
  {descending : Option Bytes}

/-- Rows that are paired stay paired when they are ordered alike. -/
theorem ordered_pairs
    (order : ∀ column ∈ descending, ∀ pair ∈ pairs, ∀ other ∈ pairs,
      comesFirst server column pair.1 other.1 = comesFirst server column pair.2 other.2) :
    ∃ sorted : List (Row × Row), (∀ pair ∈ sorted, pair ∈ pairs) ∧
      ordered server descending (pairs.map Prod.fst) = sorted.map Prod.fst ∧
      ordered server descending (pairs.map Prod.snd) = sorted.map Prod.snd := by
  cases descending with
  | none => exact ⟨pairs, fun _ member => member, rfl, rfl⟩
  | some column =>
      refine ⟨pairs.mergeSort fun pair other => comesFirst server column pair.1 other.1,
        fun pair member => List.mem_mergeSort.mp member, ?_, ?_⟩
      · rw [ordered, List.map_mergeSort]
        exact fun _ _ _ _ => rfl
      · rw [ordered, List.map_mergeSort]
        exact order column rfl

theorem ordered_perm (server : Server) (descending : Option Bytes) (rows : List Row) :
    (ordered server descending rows).Perm rows := by
  cases descending with
  | none => exact List.Perm.refl rows
  | some column => exact List.mergeSort_perm rows _

/-- Whether a selection fails does not depend on the rows. -/
theorem select_both (rows others : List Row) (items : Option (List Item)) (table : Bytes)
    (condition : Condition) (descending : Option Bytes) :
    (select server rows items table condition descending = none ∧
        select server others items table condition descending = none) ∨
      ∃ kept kept' : List Row, kept.Perm (rows.filter (condition.holds server)) ∧
        kept'.Perm (others.filter (condition.holds server)) ∧
        select server rows items table condition descending =
          some (kept.map fun row => row.record server items) ∧
        select server others items table condition descending =
          some (kept'.map fun row => row.record server items) := by
  unfold select
  split
  · exact .inr ⟨_, _, ordered_perm .., ordered_perm .., rfl, rfl⟩
  · exact .inl ⟨rfl, rfl⟩

/-- Two tables whose rows agree on the condition and on the order of a
selection select rows that belong together. -/
theorem select_pairs (items : Option (List Item)) (table : Bytes)
    (holds : ∀ pair ∈ pairs, condition.holds server pair.1 = condition.holds server pair.2)
    (order : ∀ column ∈ descending, ∀ pair ∈ pairs, ∀ other ∈ pairs,
      comesFirst server column pair.1 other.1 = comesFirst server column pair.2 other.2) :
    (select server (pairs.map Prod.fst) items table condition descending = none ∧
        select server (pairs.map Prod.snd) items table condition descending = none) ∨
      ∃ kept : List (Row × Row),
        (∀ pair ∈ kept, pair ∈ pairs ∧ condition.holds server pair.1 = true) ∧
        select server (pairs.map Prod.fst) items table condition descending =
          some (kept.map fun pair => pair.1.record server items) ∧
        select server (pairs.map Prod.snd) items table condition descending =
          some (kept.map fun pair => pair.2.record server items) := by
  unfold select
  split
  · right
    have second : (pairs.map Prod.snd).filter (condition.holds server) =
        (pairs.filter (condition.holds server ·.1)).map Prod.snd := by
      rw [List.filter_map]
      exact congrArg _ (List.filter_congr fun pair member => (holds pair member).symm)
    have first : (pairs.map Prod.fst).filter (condition.holds server) =
        (pairs.filter (condition.holds server ·.1)).map Prod.fst := by
      rw [List.filter_map]
      rfl
    have keptOrder : ∀ column ∈ descending, ∀ pair ∈ pairs.filter (condition.holds server ·.1),
        ∀ other ∈ pairs.filter (condition.holds server ·.1),
          comesFirst server column pair.1 other.1 = comesFirst server column pair.2 other.2 :=
      fun column member pair selected other otherSelected => order column member pair
        (List.mem_filter.mp selected).1 other (List.mem_filter.mp otherSelected).1
    obtain ⟨kept, selected, firstEq, secondEq⟩ := ordered_pairs keptOrder
    refine ⟨kept, fun pair member => by simpa using List.mem_filter.mp (selected pair member), ?_, ?_⟩
    · rw [first, firstEq, List.map_map]
      rfl
    · rw [second, secondEq, List.map_map]
      rfl
  · exact .inl ⟨rfl, rfl⟩

end Pairs

end Sql

end Libjaypea
