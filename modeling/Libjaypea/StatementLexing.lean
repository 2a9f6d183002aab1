import Libjaypea.InsertStatement

/-!
# Reading the statements

The texts of the statements are read as the tokens that the model of the
database executes, when the names are identifiers and `txn.quote` writes one
literal.
-/

namespace Libjaypea

namespace Sql

section Reading

/-- What is being read behind a text. -/
def Reading.after : Reading → Bytes → Reading
  | reading, [] => reading
  | reading, byte :: rest => (reading.next byte).1.after rest

/-- The tokens that end within a text. -/
def Reading.produced : Reading → Bytes → List Token
  | _, [] => []
  | reading, byte :: rest => (reading.next byte).2 ++ (reading.next byte).1.produced rest

theorem lexFrom_append (reading : Reading) (first second : Bytes) :
    lexFrom reading (first ++ second) =
      reading.produced first ++ lexFrom (reading.after first) second := by
  induction first generalizing reading with
  | nil => rfl
  | cons byte first ih =>
      rw [List.cons_append, lexFrom, ih, Reading.produced, Reading.after, List.append_assoc]

/-- A word or a literal has ended in front of the text. -/
def Bounded (text : Bytes) : Prop :=
  ∀ byte ∈ text.head?, isWordByte byte = false ∧ byte ≠ quoteByte

theorem Bounded.append {text : Bytes} (bounded : Bounded text) (nonempty : text ≠ [])
    (rest : Bytes) : Bounded (text ++ rest) := by
  intro byte first
  rw [List.head?_append_of_ne_nil _ nonempty] at first
  exact bounded byte first

theorem lexFrom_pending {rest : Bytes} (bounded : Bounded rest) (pending : Bytes) :
    lexFrom (.text pending) rest = flush pending ++ lex rest := by
  cases rest with
  | nil => simp [lex, lexFrom, Reading.finish, flush]
  | cons byte rest =>
      obtain ⟨noWord, noQuote⟩ := bounded byte rfl
      by_cases space : isSpace byte = true <;>
        simp [lex, lexFrom, Reading.next, readText, noWord, noQuote, space, flush]

theorem lexFrom_closing {rest : Bytes} (bounded : Bounded rest) (value : Bytes) :
    lexFrom (.closing value) rest = .literal value :: lex rest := by
  cases rest with
  | nil => simp [lex, lexFrom, Reading.finish, flush]
  | cons byte rest =>
      obtain ⟨-, noQuote⟩ := bounded byte rfl
      simp [lex, lexFrom, Reading.next, noQuote]

end Reading

section Pieces

/-- The text is read on its own, whatever follows it. -/
def Closes (text : Bytes) (tokens : List Token) : Prop :=
  ∀ rest, lex (text ++ rest) = tokens ++ lex rest

/-- The text is read on its own, whatever follows it once it has ended. -/
def Ends (text : Bytes) (tokens : List Token) : Prop :=
  ∀ rest, Bounded rest → lex (text ++ rest) = tokens ++ lex rest

variable {first second : Bytes} {tokens others : List Token}

theorem Closes.ends (closes : Closes first tokens) : Ends first tokens :=
  fun rest _ => closes rest

theorem Closes.append_ends (closes : Closes first tokens) (ends : Ends second others) :
    Ends (first ++ second) (tokens ++ others) := by
  intro rest bounded
  rw [List.append_assoc, closes, ends rest bounded, List.append_assoc]

theorem Ends.append_closes (ends : Ends first tokens) (closes : Closes second others)
    (bounded : Bounded second) (nonempty : second ≠ []) :
    Closes (first ++ second) (tokens ++ others) := by
  intro rest
  rw [List.append_assoc, ends _ (bounded.append nonempty rest), closes, List.append_assoc]

theorem Ends.append_ends (ends : Ends first tokens) (more : Ends second others)
    (bounded : Bounded second) (nonempty : second ≠ []) :
    Ends (first ++ second) (tokens ++ others) := by
  intro rest behind
  rw [List.append_assoc, ends _ (bounded.append nonempty rest), more rest behind,
    List.append_assoc]

theorem Ends.lex (ends : Ends first tokens) : lex first = tokens := by
  have read := ends [] (by simp [Bounded])
  simpa [Sql.lex, lexFrom, Reading.finish, flush] using read

theorem ends_nil : Ends [] [] :=
  fun _ _ => rfl

theorem Ends.append_if (ends : Ends first tokens) (more : Ends second others)
    (bounded : Bounded second) (nonempty : second ≠ []) (condition : Bool) :
    Ends (first ++ if condition then second else [])
      (tokens ++ if condition then others else []) := by
  cases condition with
  | true => exact ends.append_ends more bounded nonempty
  | false => simpa using ends

/-- The tokens of a text that ends outside of a literal. -/
theorem lex_of_after {pending : Bytes} (settled : (Reading.text []).after first = .text pending) :
    lex first = (Reading.text []).produced first ++ flush pending := by
  have whole := lexFrom_append (.text []) first []
  rwa [List.append_nil, settled] at whole

theorem ends_of_after {pending : Bytes} (settled : (Reading.text []).after first = .text pending) :
    Ends first (lex first) := by
  intro rest bounded
  rw [lex_of_after settled, lex, lexFrom_append, settled, lexFrom_pending bounded,
    List.append_assoc]

theorem closes_of_after (settled : (Reading.text []).after first = .text []) :
    Closes first (lex first) := by
  intro rest
  rw [lex_of_after settled, lex, lexFrom_append, settled, flush, if_pos rfl, List.append_nil]
  rfl

theorem after_word (pending : Bytes) {text : Bytes}
    (plain : ∀ byte ∈ text, isWordByte byte = true) :
    (Reading.text pending).after text = .text (pending ++ text) := by
  induction text generalizing pending with
  | nil => simp [Reading.after]
  | cons byte text ih =>
      obtain ⟨head, tail⟩ := List.forall_mem_cons.mp plain
      simp only [Reading.after, Reading.next, readText, head, if_true]
      rw [ih _ tail, List.append_assoc, List.singleton_append]

theorem ends_identifier {name : Bytes} (identifier : Identifier name) : Ends name (lex name) :=
  ends_of_after (after_word [] identifier.plain)

/-- `txn.quote` writes one literal. -/
def SingleLiteral (txnQuote : Bytes → Bytes) : Prop :=
  ∀ value, Ends (txnQuote value) [.literal value]

end Pieces

end Sql

namespace PgSqlModel

open Sql

/-- A piece of a statement that begins and ends outside of words and literals. -/
structure Piece (text : String) : Prop where
  closes : Closes (bytes text) (sql text)
  bounded : Bounded (bytes text)
  nonempty : bytes text ≠ []

theorem piece_of_after {text : String} (settled : (Reading.text []).after (bytes text) = .text [])
    {byte : UInt8} {rest : Bytes} (starts : bytes text = byte :: rest)
    (bounded : isWordByte byte = false ∧ byte ≠ quoteByte) : Piece text := by
  refine ⟨closes_of_after settled, ?_, by simp [starts]⟩
  rw [starts]
  intro first same
  cases same
  exact bounded

variable {text : String} {front : Bytes} {tokens others : List Token}

theorem Piece.behind (piece : Piece text) (ends : Ends front tokens) :
    Closes (front ++ bytes text) (tokens ++ sql text) :=
  ends.append_closes piece.closes piece.bounded piece.nonempty

section Pieces

theorem piece_from : Piece " FROM " := piece_of_after rfl rfl (by decide)

theorem piece_where : Piece " WHERE " := piece_of_after rfl rfl (by decide)

theorem piece_equals : Piece " = " := piece_of_after rfl rfl (by decide)

theorem piece_comma : Piece ", " := piece_of_after rfl rfl (by decide)

theorem piece_created : Piece " ORDER BY created DESC;" := piece_of_after rfl rfl (by decide)

theorem piece_set : Piece " SET " := piece_of_after rfl rfl (by decide)

theorem piece_whereId : Piece " WHERE id = " := piece_of_after rfl rfl (by decide)

theorem piece_returning : Piece " RETURNING id;" := piece_of_after rfl rfl (by decide)

theorem piece_opening : Piece " (" := piece_of_after rfl rfl (by decide)

theorem piece_values : Piece ") VALUES (" := piece_of_after rfl rfl (by decide)

theorem piece_returningId : Piece ") RETURNING id;" := piece_of_after rfl rfl (by decide)

theorem piece_end : Piece ");" := piece_of_after rfl rfl (by decide)

theorem piece_closed : Piece ")" := piece_of_after rfl rfl (by decide)

theorem bounded_deleted : Bounded (bytes " AND deleted IS NULL") := by
  intro byte first
  cases first
  decide

end Pieces

/-- What one entry writes is read on its own, so the list is. -/
theorem ends_commas {α : Type*} {list : List α} {write : α → Bytes} {read : α → List Token}
    (each : ∀ entry ∈ list, Ends (write entry) (read entry)) :
    Ends (commas (list.map write)) (listed (list.map read)) := by
  induction list with
  | nil => exact ends_nil
  | cons entry list ih =>
      obtain ⟨head, tail⟩ := List.forall_mem_cons.mp each
      cases list with
      | nil => simpa [commas, listed] using head
      | cons next list =>
          have later := ih tail
          have texts : commas ((entry :: next :: list).map write) =
              write entry ++ bytes ", " ++ commas ((next :: list).map write) :=
            commas_cons (by simp) _
          have tokens : listed ((entry :: next :: list).map read) =
              read entry ++ sql ", " ++ listed ((next :: list).map read) :=
            List.intercalate_cons_cons
          rw [texts, tokens]
          exact (piece_comma.behind head).append_ends later

theorem ends_columnText {column : Column} (identifier : Identifier column.name) :
    Ends (columnText column) (itemText column) := by
  unfold columnText itemText
  split
  · exact @ends_of_after _ (bytes "location") rfl
  · exact ends_identifier identifier

theorem ends_colListText {cols : List Column}
    (identifiers : ∀ column ∈ cols, Identifier column.name) :
    Ends (colListText cols) (colList cols) := by
  induction cols with
  | nil => exact ends_nil
  | cons column cols ih =>
      obtain ⟨identifier, others⟩ := List.forall_mem_cons.mp identifiers
      have later := ih others
      have here := ends_columnText identifier
      rw [colListText, colList_cons, ← sql_comma]
      cases column.hidden with
      | true => simpa using later
      | false =>
          cases cols with
          | nil => simpa [colListText, colList] using here
          | cons next cols => simpa using (piece_comma.behind here).append_ends later

variable {txnQuote : Bytes → Bytes} {model : PgSqlModel} {server : Server} {rows : List Row}

theorem lex_whereSql (single : SingleLiteral txnQuote) (declared : model.Declared)
    {key value text : Bytes} (written : whereSql txnQuote model key value = .ok text) :
    lex text = model.whereText key value := by
  unfold whereSql at written
  split at written
  · cases written
  · rename_i known
    have identifier := declared.identifier (by simpa using known)
    have select : Closes (bytes "SELECT ") (sql "SELECT ") := closes_of_after rfl
    have deleted : Ends (bytes " AND deleted IS NULL") (sql " AND deleted IS NULL") :=
      @ends_of_after _ (bytes "NULL") rfl
    have created := piece_created.closes.ends
    have front := piece_equals.behind ((piece_where.behind ((piece_from.behind
      (select.append_ends (ends_colListText declared.columns))).append_ends
        (ends_identifier declared.table))).append_ends (ends_identifier identifier))
    have whole := ((front.append_ends (single value)).append_if deleted bounded_deleted
      (by decide) (model.hasColumn (bytes "deleted"))).append_if created piece_created.bounded
        piece_created.nonempty (model.hasColumn (bytes "created"))
    cases written
    simpa only [whereText, quote, List.append_assoc] using whole.lex

theorem ends_setClause (single : SingleLiteral txnQuote) (declared : model.Declared)
    {values : List (Bytes × JsonObject)}
    (known : ∀ entry ∈ values, model.hasColumn entry.1 = true) :
    Ends ((if model.hasColumn (bytes "modified") then bytes "modified = now(), " else []) ++
        commas (values.map fun entry => entry.1 ++ bytes " = " ++ txnQuote entry.2.stringValue))
      ((if model.hasColumn (bytes "modified") then sql "modified = now(), " else []) ++
        listed (values.map fun entry => lex entry.1 ++ sql " = " ++
          quote entry.2.stringValue)) := by
  have entries : Ends (commas (values.map fun entry =>
      entry.1 ++ bytes " = " ++ txnQuote entry.2.stringValue))
      (listed (values.map fun entry => lex entry.1 ++ sql " = " ++
        quote entry.2.stringValue)) := by
    apply ends_commas
    intro entry member
    have name := ends_identifier (declared.identifier (known entry member))
    exact (piece_equals.behind name).append_ends (single _)
  have modified : Closes (bytes "modified = now(), ") (sql "modified = now(), ") :=
    closes_of_after rfl
  cases model.hasColumn (bytes "modified") with
  | true => exact modified.append_ends entries
  | false => exact entries

theorem lex_update (single : SingleLiteral txnQuote) (declared : model.Declared) (id : Bytes)
    {values : List (Bytes × JsonObject)}
    (known : ∀ entry ∈ values, model.hasColumn entry.1 = true) :
    ∃ text, updateSql txnQuote model id values = .ok text ∧
      lex text = model.updateText id values := by
  have update : Closes (bytes "UPDATE ") (sql "UPDATE ") := closes_of_after rfl
  have table := update.append_ends (ends_identifier declared.table)
  have clause := (piece_set.behind table).append_ends (ends_setClause single declared known)
  have whole := piece_returning.behind ((piece_whereId.behind clause).append_ends (single id))
  refine ⟨_, by rw [updateSql, setClause_of_known known]; rfl, ?_⟩
  simpa only [updateText, quote, List.append_assoc] using whole.ends.lex

/-- The location, as text and as tokens. -/
theorem locate_cases (single : SingleLiteral txnQuote) (values : List (Bytes × JsonObject)) :
    (model.locate values = none ∧
        locateText txnQuote model values = .error (bytes "Missing location information.")) ∨
      ∃ tokens text entries, model.locate values = some (tokens, entries) ∧
        locateText txnQuote model values = .ok (text, entries) ∧ Ends text tokens := by
  have call : Closes (bytes "ST_GeographyFromText(") (sql "ST_GeographyFromText(") :=
    closes_of_after rfl
  cases has : model.hasColumn (bytes "location") with
  | false =>
      exact .inr ⟨[], [], values, by simp [locate, has], by simp [locateText, has], ends_nil⟩
  | true =>
      cases east : KeyedList.get? values (bytes "longitude") with
      | none => exact .inl ⟨by simp [locate, has, east], by simp [locateText, has, east]⟩
      | some longitude =>
          cases north : KeyedList.get? values (bytes "latitude") with
          | none =>
              exact .inl ⟨by simp [locate, has, east, north],
                by simp [locateText, has, east, north]⟩
          | some latitude =>
              have point := single (bytes "POINT(" ++ longitude.stringValue ++ bytes " " ++
                latitude.stringValue ++ bytes ")")
              refine .inr ⟨_, _, _, by simp only [locate, has, east, north, if_true]; rfl,
                by simp only [locateText, has, east, north, if_true]; rfl, ?_⟩
              exact (piece_closed.behind (call.append_ends point)).ends

theorem lex_insert (single : SingleLiteral txnQuote) (declared : model.Declared)
    {location : Bytes} {tokens : List Token} (place : Ends location tokens)
    {entries : List (Bytes × JsonObject)}
    (known : ∀ entry ∈ entries, model.hasColumn entry.1 = true) :
    lex (insertionText model (entries.map Prod.fst) (entries.map fun entry =>
      if entry.1 = bytes "location" then location else txnQuote entry.2.stringValue)) =
        model.insertText tokens entries := by
  have insert : Closes (bytes "INSERT INTO ") (sql "INSERT INTO ") := closes_of_after rfl
  have columns : Ends (commas (entries.map Prod.fst)) (listed (entries.map fun entry =>
      lex entry.1)) :=
    ends_commas fun entry member => ends_identifier (declared.identifier (known entry member))
  have written : Ends (commas (entries.map fun entry =>
      if entry.1 = bytes "location" then location else txnQuote entry.2.stringValue))
      (listed (entries.map fun entry =>
        if entry.1 = bytes "location" then tokens else quote entry.2.stringValue)) := by
    apply ends_commas
    intro entry _
    split
    · exact place
    · exact single _
  have front := (piece_values.behind ((piece_opening.behind (insert.append_ends
    (ends_identifier declared.table))).append_ends columns)).append_ends written
  rw [insertionText, insertText]
  cases model.hasColumn (bytes "id") with
  | true =>
      simpa only [if_true, List.append_assoc] using (piece_returningId.behind front).ends.lex
  | false =>
      simpa only [Bool.false_eq_true, if_false, List.append_assoc] using
        (piece_end.behind front).ends.lex

theorem lexFrom_doubled (pending value rest : Bytes) :
    lexFrom (.quoted pending) ((value.flatMap fun byte =>
        if byte = quoteByte then [byte, byte] else [byte]) ++ quoteByte :: rest) =
      lexFrom (.closing (pending ++ value)) rest := by
  induction value generalizing pending with
  | nil => simp [lexFrom, Reading.next]
  | cons byte value ih =>
      have later := ih (pending ++ [byte])
      rw [List.append_assoc, List.singleton_append] at later
      by_cases quoted : byte = quoteByte
      · subst quoted
        simpa [lexFrom, Reading.next] using later
      · simpa [lexFrom, Reading.next, quoted] using later

theorem singleLiteral_doubled : SingleLiteral doubled := by
  intro value rest bounded
  have opening : lex (doubled value ++ rest) = lexFrom (.quoted [])
      ((value.flatMap fun byte => if byte = quoteByte then [byte, byte] else [byte]) ++
        quoteByte :: rest) := by
    simp [doubled, lex, lexFrom, Reading.next, readText, flush, show isWordByte quoteByte = false
      by decide, show isSpace quoteByte = false by decide]
  rw [opening, lexFrom_doubled, List.nil_append, lexFrom_closing bounded]
  rfl

section Refinement

/-- `Where` executes the text that it writes, or returns the error. -/
theorem where_eq_exec (single : SingleLiteral txnQuote) (declared : model.Declared)
    (key value : Bytes) :
    model.where_ server rows key value =
      match whereSql txnQuote model key value with
      | .error message => error message
      | .ok text => ((query server rows (lex text)).bind model.resultToJson).getD badData := by
  cases written : whereSql txnQuote model key value with
  | error message =>
      unfold whereSql at written
      split at written
      · rename_i unknown
        cases written
        rw [where_, if_pos unknown]
      · cases written
  | ok text =>
      have read := lex_whereSql single declared written
      have known : ¬ (!model.hasColumn key) = true := by
        intro unknown
        rw [whereSql, if_pos unknown] at written
        cases written
      rw [where_, if_neg known]
      simp only [read]

theorem update_eq_exec (single : SingleLiteral txnQuote) (declared : model.Declared) (id : Bytes)
    (values : List (Bytes × JsonObject)) :
    model.update server rows id values =
      match updateSql txnQuote model id values with
      | .error message => (error message, rows)
      | .ok text => change server rows (lex text) := by
  rcases known_or_unknown model values with known | unknown
  · obtain ⟨text, written, read⟩ := lex_update single declared id known
    have allowed : ¬ values.any (!model.hasColumn ·.1) = true := by simpa using known
    rw [written, update, if_neg allowed]
    simp only [read]
  · have rejected : values.any (!model.hasColumn ·.1) = true := by simpa using unknown
    rw [update, if_pos rejected, updateSql, setClause, writeEntries_of_unknown unknown]
    rfl

theorem insert_eq_exec (single : SingleLiteral txnQuote) (declared : model.Declared)
    (values : List (Bytes × JsonObject)) :
    model.insert server rows values =
      match insertSql txnQuote model id values with
      | .error message => (some (error message), rows)
      | .ok text =>
          if model.hasColumn (bytes "id") then
            (some (change server rows (lex text)).1, (change server rows (lex text)).2)
          else (Sql.exec server rows (lex text)).elim (some badData, rows) fun result =>
            (none, result.2) := by
  rcases @locate_cases txnQuote model single values with
    ⟨missing, failed⟩ | ⟨tokens, location, entries, located, read, place⟩
  · rw [insert, missing, insertSql, failed]
    rfl
  · rcases known_or_unknown model entries with known | unknown
    · have allowed : ¬ entries.any (!model.hasColumn ·.1) = true := by simpa using known
      have written : insertSql txnQuote model id values = .ok (insertionText model
          (entries.map Prod.fst) (entries.map fun entry =>
            if entry.1 = bytes "location" then location else txnQuote entry.2.stringValue)) := by
        rw [insertSql, read]
        simp only [bind, Except.bind, id, writeEntries_of_known known]
        rfl
      rw [insert, located, written]
      simp only [if_neg allowed, lex_insert single declared place known]
      split
      · rfl
      · cases Sql.exec server rows (model.insertText tokens entries) <;> rfl
    · have rejected : entries.any (!model.hasColumn ·.1) = true := by simpa using unknown
      have written : insertSql txnQuote model id values = .error (bytes "Bad key.") := by
        rw [insertSql, read]
        simp only [bind, Except.bind, id, writeEntries_of_unknown unknown]
      rw [insert, located, written]
      simp only [if_pos rejected]

end Refinement

end PgSqlModel

end Libjaypea
