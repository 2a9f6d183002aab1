import Libjaypea.PgSqlStatements

/-!
# The texts of the statements

The statements of `Where`, `Insert` and `Update` as the bytes that the source
writes, for any function that `txn.quote` may be and any order in which a map
may be iterated.  Each loop sets its own commas.
-/

namespace Libjaypea

namespace PgSqlModel

/-- The texts, with commas between them. -/
def commas (texts : List Bytes) : Bytes :=
  (bytes ", ").intercalate texts

/-- A loop over `values`: each key is checked and an entry is written, with a
comma behind it when there is a next one. -/
def writeEntries (model : PgSqlModel) (write : Bytes × JsonObject → Bytes) :
    List (Bytes × JsonObject) → Except Bytes Bytes
  | [] => .ok []
  | entry :: rest =>
      if !model.hasColumn entry.1 then .error (bytes "Bad key.")
      else
        (writeEntries model write rest).map fun later =>
          write entry ++ (if rest ≠ [] then bytes ", " else []) ++ later

def columnText (column : Column) : Bytes :=
  if column.name = bytes "location" then bytes "ST_AsGeoJSON(location) as location"
  else column.name

/-- `col_list` in `Where`. -/
def colListText : List Column → Bytes
  | [] => []
  | column :: cols =>
      (if column.hidden then []
      else columnText column ++ if cols ≠ [] then bytes ", " else []) ++
        colListText cols

section Statements

variable (txnQuote : Bytes → Bytes) (model : PgSqlModel)

/-- The text that `Where` executes, or the error that it returns before. -/
def whereSql (key value : Bytes) : Except Bytes Bytes :=
  if !model.hasColumn key then .error (bytes "Bad key.")
  else
    let check := if model.hasColumn (bytes "deleted") then bytes " AND deleted IS NULL" else []
    let check := check ++
      if model.hasColumn (bytes "created") then bytes " ORDER BY created DESC;" else []
    .ok (bytes "SELECT " ++ colListText model.cols ++ bytes " FROM " ++ model.table ++
      bytes " WHERE " ++ key ++ bytes " = " ++ txnQuote value ++ check)

/-- What `Update` writes between `SET` and `WHERE`. -/
def setClause (values : List (Bytes × JsonObject)) : Except Bytes Bytes :=
  let modified := if model.hasColumn (bytes "modified") then bytes "modified = now(), " else []
  (writeEntries model (fun entry => entry.1 ++ bytes " = " ++ txnQuote entry.2.stringValue)
    values).map (modified ++ ·)

/-- The text that `Update` executes, or the error that it returns before. -/
def updateSql (id : Bytes) (values : List (Bytes × JsonObject)) : Except Bytes Bytes :=
  (setClause txnQuote model values).map fun clause =>
    bytes "UPDATE " ++ model.table ++ bytes " SET " ++ clause ++ bytes " WHERE id = " ++
      txnQuote id ++ bytes " RETURNING id;"

/-- The text of the location, and the values with a placeholder for it. -/
def locateText (values : List (Bytes × JsonObject)) :
    Except Bytes (Bytes × List (Bytes × JsonObject)) :=
  if model.hasColumn (bytes "location") then
    match KeyedList.get? values (bytes "longitude"), KeyedList.get? values (bytes "latitude") with
    | some longitude, some latitude =>
        let location := bytes "ST_GeographyFromText(" ++
          txnQuote (bytes "POINT(" ++ longitude.stringValue ++ bytes " " ++ latitude.stringValue ++
            bytes ")") ++ bytes ")"
        let values := KeyedList.erase (KeyedList.erase values (bytes "longitude")) (bytes "latitude")
        .ok (location, KeyedList.set values (bytes "location") (.ofString (bytes "placeholder")))
    | _, _ => .error (bytes "Missing location information.")
  else .ok ([], values)

/-- The text that `Insert` executes, or the error that it returns before.
`iterate` is the order in which a map is iterated. -/
def insertSql (iterate : List (Bytes × JsonObject) → List (Bytes × JsonObject))
    (values : List (Bytes × JsonObject)) : Except Bytes Bytes := do
  let (location, values) ← locateText txnQuote model values
  let columns ← writeEntries model Prod.fst (iterate values)
  let written ← writeEntries model (fun entry =>
    if entry.1 = bytes "location" then location else txnQuote entry.2.stringValue) (iterate values)
  return bytes "INSERT INTO " ++ model.table ++ bytes " (" ++ columns ++ bytes ") VALUES (" ++
    written ++ if model.hasColumn (bytes "id") then bytes ") RETURNING id;" else bytes ");"

end Statements

section Lists

theorem commas_cons {texts : List Bytes} (more : texts ≠ []) (first : Bytes) :
    commas (first :: texts) = first ++ bytes ", " ++ commas texts := by
  obtain ⟨second, others, rfl⟩ := List.exists_cons_of_ne_nil more
  exact List.intercalate_cons_cons

variable {model : PgSqlModel} {write : Bytes × JsonObject → Bytes}
  {values : List (Bytes × JsonObject)}

/-- The keys are columns of the model, or one of them is not. -/
theorem known_or_unknown (model : PgSqlModel) (values : List (Bytes × JsonObject)) :
    (∀ entry ∈ values, model.hasColumn entry.1 = true) ∨
      ∃ entry ∈ values, model.hasColumn entry.1 = false := by
  by_cases known : ∀ entry ∈ values, model.hasColumn entry.1 = true
  · exact .inl known
  · right
    simpa using known

/-- The loop sets the commas of a list. -/
theorem writeEntries_of_known (known : ∀ entry ∈ values, model.hasColumn entry.1 = true) :
    writeEntries model write values = .ok (commas (values.map write)) := by
  induction values with
  | nil => rfl
  | cons entry values ih =>
      obtain ⟨here, later⟩ := List.forall_mem_cons.mp known
      simp only [writeEntries, here, ih later, Bool.not_true, Bool.false_eq_true, if_false]
      cases values with
      | nil => simp [commas, Except.map]
      | cons next values =>
          have listed : commas ((entry :: next :: values).map write) =
              write entry ++ bytes ", " ++ commas ((next :: values).map write) :=
            commas_cons (by simp) _
          simp only [Except.map, listed, ne_eq, reduceCtorEq, not_false_eq_true, if_true]

theorem writeEntries_of_unknown (unknown : ∃ entry ∈ values, model.hasColumn entry.1 = false) :
    writeEntries model write values = .error (bytes "Bad key.") := by
  induction values with
  | nil => simp at unknown
  | cons entry values ih =>
      cases has : model.hasColumn entry.1 with
      | false => simp [writeEntries, has]
      | true =>
          have later : ∃ entry ∈ values, model.hasColumn entry.1 = false := by
            simpa [has] using unknown
          simp [writeEntries, has, ih later, Except.map]

theorem dangling_cons_of_hidden {column : Column} (hidden : column.hidden = true)
    (cols : List Column) : Dangling (column :: cols) ↔ Dangling cols := by
  have same : shown (column :: cols) = shown cols := List.filter_cons_of_neg (by simp [hidden])
  cases cols with
  | nil => simp [Dangling, shown]
  | cons next cols => rw [Dangling, Dangling, same, List.getLast?_cons_cons]

theorem dangling_cons_of_visible {column : Column} (visible : column.hidden = false)
    (cols : List Column) :
    Dangling (column :: cols) ↔ cols ≠ [] ∧ (shown cols = [] ∨ Dangling cols) := by
  have more : shown (column :: cols) ≠ [] := by simp [shown, visible]
  cases cols with
  | nil => simp [Dangling, visible]
  | cons next cols =>
      rw [Dangling, List.getLast?_cons_cons]
      simp only [more, not_false_eq_true, true_and, ne_eq, reduceCtorEq]
      by_cases none : shown (next :: cols) = []
      · have hidden : ∀ other ∈ next :: cols, other.hidden = true := by
          simpa [shown] using none
        simp only [none, true_or, iff_true]
        exact ⟨_, List.getLast?_eq_some_getLast (by simp), hidden _ (List.getLast_mem _)⟩
      · simp [Dangling, none]

/-- The loop leaves a comma behind the last visible column when a hidden one follows. -/
theorem colListText_eq (cols : List Column) :
    colListText cols = commas ((shown cols).map columnText) ++
      if Dangling cols then bytes ", " else [] := by
  induction cols with
  | nil => rfl
  | cons column cols ih =>
      cases hidden : column.hidden with
      | true =>
          have same : shown (column :: cols) = shown cols :=
            List.filter_cons_of_neg (by simp [hidden])
          simp only [colListText, hidden, if_true, List.nil_append, same, ih,
            dangling_cons_of_hidden hidden]
      | false =>
          have first : shown (column :: cols) = column :: shown cols :=
            List.filter_cons_of_pos (by simp [hidden])
          simp only [colListText, hidden, Bool.false_eq_true, if_false, first, ih,
            dangling_cons_of_visible hidden, List.map_cons]
          by_cases none : shown cols = []
          · have clean : ¬ Dangling cols := fun dangling => dangling.1 none
            simp [none, clean, commas]
          · have more : cols ≠ [] := by
              rintro rfl
              exact none rfl
            rw [commas_cons (by simpa using none)]
            simp [none, more]

theorem append_comma_ne (text : Bytes) : text ++ bytes ", " ≠ text := by
  have comma : bytes ", " ≠ [] := by decide
  exact fun same => comma (List.append_right_eq_self.mp same)

theorem dangling_iff_of_shown {cols : List Column} (visible : shown cols ≠ []) :
    Dangling cols ↔ ∃ column ∈ cols.getLast?, column.hidden = true := by
  rw [Dangling]
  exact and_iff_right visible

end Lists

section WellFormed

variable (txnQuote : Bytes → Bytes) (model : PgSqlModel) (values : List (Bytes × JsonObject))

/-- The assignments that `Update` is to write. -/
def assignments : List Bytes :=
  (if model.hasColumn (bytes "modified") then [bytes "modified = now()"] else []) ++
    values.map fun entry => entry.1 ++ bytes " = " ++ txnQuote entry.2.stringValue

/-- `Where` selects the visible columns in order, with single commas between
them, and `Update` writes a list of assignments, or fails before it executes. -/
structure WellSeparated : Prop where
  projection : colListText model.cols = commas ((shown model.cols).map columnText)
  update : setClause txnQuote model values = .error (bytes "Bad key.") ∨
    assignments txnQuote model values ≠ [] ∧
      setClause txnQuote model values = .ok (commas (assignments txnQuote model values))

variable {txnQuote model values}

theorem projection_iff (visible : shown model.cols ≠ []) :
    colListText model.cols = commas ((shown model.cols).map columnText) ↔
      ¬ ∃ column ∈ model.cols.getLast?, column.hidden = true := by
  rw [colListText_eq, ← dangling_iff_of_shown visible]
  by_cases dangling : Dangling model.cols
  · simp only [dangling, if_true, not_true_eq_false, iff_false]
    exact append_comma_ne _
  · simp [dangling]

theorem setClause_of_known (known : ∀ entry ∈ values, model.hasColumn entry.1 = true) :
    setClause txnQuote model values =
      .ok ((if model.hasColumn (bytes "modified") then bytes "modified = now(), " else []) ++
        commas (values.map fun entry =>
          entry.1 ++ bytes " = " ++ txnQuote entry.2.stringValue)) := by
  rw [setClause, writeEntries_of_known known]
  rfl

/-- The comma behind `now()` is in its place only in front of an entry. -/
theorem setClause_of_ne_nil (known : ∀ entry ∈ values, model.hasColumn entry.1 = true)
    (more : values ≠ []) :
    setClause txnQuote model values = .ok (commas (assignments txnQuote model values)) := by
  rw [setClause_of_known known, assignments]
  split
  · rw [List.singleton_append, commas_cons (by simpa using more)]
    rfl
  · rfl

theorem setClause_nil :
    setClause txnQuote model [] =
      .ok (commas (assignments txnQuote model []) ++
        if model.hasColumn (bytes "modified") then bytes ", " else []) := by
  rw [setClause_of_known (by simp), assignments]
  split <;> rfl

theorem setClause_nil_iff :
    setClause txnQuote model [] = .ok (commas (assignments txnQuote model [])) ↔
      model.hasColumn (bytes "modified") = false := by
  rw [setClause_nil]
  cases model.hasColumn (bytes "modified") with
  | true => simpa using append_comma_ne (commas (assignments txnQuote model []))
  | false => simp

theorem assignments_eq_nil_iff :
    assignments txnQuote model values = [] ↔
      model.hasColumn (bytes "modified") = false ∧ values = [] := by
  rw [assignments]
  cases model.hasColumn (bytes "modified") <;> simp

theorem setClause_iff :
    (setClause txnQuote model values = .error (bytes "Bad key.") ∨
        setClause txnQuote model values = .ok (commas (assignments txnQuote model values))) ↔
      values ≠ [] ∨ model.hasColumn (bytes "modified") = false := by
  constructor
  · intro written
    by_cases empty : values = []
    · subst empty
      rcases written with failed | written
      · rw [setClause_nil] at failed
        cases failed
      · exact .inr (setClause_nil_iff.mp written)
    · exact .inl empty
  · intro condition
    rcases known_or_unknown model values with known | unknown
    · right
      by_cases empty : values = []
      · subst empty
        exact setClause_nil_iff.mpr (condition.resolve_left fun more => more rfl)
      · exact setClause_of_ne_nil known empty
    · left
      rw [setClause, writeEntries_of_unknown unknown]
      rfl

/-- Both lists are well formed exactly when the last column is visible and there
is a value to write.  An empty clause, which is no list of assignments, has no
comma when the model does not know when a row was modified. -/
theorem wellSeparated_iff (visible : shown model.cols ≠ []) :
    (WellSeparated txnQuote model values ↔
      (¬ ∃ column ∈ model.cols.getLast?, column.hidden = true) ∧ values ≠ []) ∧
    ((setClause txnQuote model values = .error (bytes "Bad key.") ∨
        setClause txnQuote model values = .ok (commas (assignments txnQuote model values))) ↔
      values ≠ [] ∨ model.hasColumn (bytes "modified") = false) := by
  have update : (setClause txnQuote model values = .error (bytes "Bad key.") ∨
      assignments txnQuote model values ≠ [] ∧
        setClause txnQuote model values = .ok (commas (assignments txnQuote model values))) ↔
      values ≠ [] := by
    constructor
    · intro written
      have either := setClause_iff.mp (written.imp id And.right)
      rcases written with failed | ⟨some, -⟩
      · rintro rfl
        rw [setClause_nil] at failed
        cases failed
      · exact either.elim id fun plain none => some (assignments_eq_nil_iff.mpr ⟨plain, none⟩)
    · intro more
      exact (setClause_iff.mpr (.inl more)).imp id fun written =>
        ⟨fun none => more (assignments_eq_nil_iff.mp none).2, written⟩
  refine ⟨?_, setClause_iff⟩
  rw [← update, ← projection_iff visible]
  exact ⟨fun ⟨projection, update⟩ => ⟨projection, update⟩,
    fun ⟨projection, update⟩ => ⟨projection, update⟩⟩

theorem wellSeparated_users :
    WellSeparated id users [(bytes "email", .ofString (bytes "a@b")), (bytes "id", .new .array)] :=
  (wellSeparated_iff (by decide)).1.mpr ⟨by decide, by simp⟩

/-- An update without values, and a table whose last column is hidden. -/
theorem not_wellSeparated :
    (setClause id users [] = .ok (bytes "modified = now(), ") ∧ ¬ WellSeparated id users []) ∧
      colListText [⟨bytes "id", colAuto⟩, ⟨bytes "secret", colHidden⟩] = bytes "id, " := by
  have clause : setClause id users [] = .ok (bytes "modified = now(), ") := by decide
  refine ⟨⟨clause, fun wellSeparated => ?_⟩, by decide⟩
  have listed : commas (assignments id users []) = bytes "modified = now()" := by decide
  rcases wellSeparated.update with failed | ⟨-, written⟩
  · rw [clause] at failed
    cases failed
  · rw [clause, listed] at written
    exact absurd (Except.ok.inj written) (by decide)

end WellFormed

end PgSqlModel

end Libjaypea
