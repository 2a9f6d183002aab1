import Libjaypea.HiddenColumns

/-!
# What shows hidden columns

The answers of `Where` for the remaining keys and the answers of a login,
compared on tables that differ only in hidden columns.
-/

namespace Libjaypea

open Sql

namespace PgSqlModel

variable {model : PgSqlModel}

section Members

variable {row : Record} {out : JsonObject}

theorem rowMembers_keeps {cols : List Column} {json : JsonObject}
    (shows : rowMembers row cols json = some out) {name value : Bytes}
    (has : field row name = some (some value))
    (present : KeyedList.get? json.objectValues name = some (.ofString value)) :
    KeyedList.get? out.objectValues name = some (.ofString value) := by
  induction cols generalizing json with
  | nil =>
      cases shows
      exact present
  | cons column cols ih =>
      unfold rowMembers at shows
      split at shows
      · exact ih shows present
      · split at shows
        · cases shows
        · exact ih shows present
        · rename_i other found
          refine ih shows ?_
          by_cases same : column.name = name
          · rw [same] at found
            cases has.symm.trans found
            rw [JsonObject.setMember, same, KeyedList.get?_set_self]
          · exact (KeyedList.get?_set_of_ne _ same _).trans present

/-- A visible column is shown. -/
theorem get?_rowMembers {cols : List Column} {json : JsonObject}
    (shows : rowMembers row cols json = some out) {column : Column} (member : column ∈ cols)
    (visible : column.hidden = false) {value : Bytes}
    (has : field row column.name = some (some value)) :
    KeyedList.get? out.objectValues column.name = some (.ofString value) := by
  induction cols generalizing json with
  | nil => cases member
  | cons first cols ih =>
      unfold rowMembers at shows
      rcases List.mem_cons.mp member with rfl | later
      · simp only [visible, Bool.false_eq_true, if_false, has] at shows
        exact rowMembers_keeps shows has (KeyedList.get?_set_self ..)
      · split at shows
        · exact ih shows later
        · split at shows
          · cases shows
          · exact ih shows later
          · exact ih shows later

theorem exists_rowMembers {cols : List Column} (json : JsonObject)
    (fields : ∀ column ∈ cols, column.hidden = false → (field row column.name).isSome) :
    ∃ out, rowMembers row cols json = some out := by
  induction cols generalizing json with
  | nil => exact ⟨json, rfl⟩
  | cons column cols ih =>
      obtain ⟨head, tail⟩ := List.forall_mem_cons.mp fields
      unfold rowMembers
      split
      · exact ih json tail
      · rename_i visible
        obtain ⟨cell, found⟩ := Option.isSome_iff_exists.mp (head (by simpa using visible))
        rw [found]
        cases cell with
        | none => exact ih json tail
        | some value => exact ih _ tail

end Members

section Where

/-- A server of a table with the columns of the model, all of them texts. -/
def plain (model : PgSqlModel) : Server where
  table := model.table
  columns := model.cols.map Column.name
  cast _ value := some value
  precedes _ value other := value.length ≤ other.length
  constant _ := none
  call _ _ := none
  computed _ value := value
  defaults _ := none
  accepts _ := true

theorem mem_plain {name : Bytes} (has : model.hasColumn name = true) :
    name ∈ (plain model).columns := by
  obtain ⟨column, member, rfl⟩ := exists_of_hasColumn has
  exact List.mem_map_of_mem member

/-- The rows that `Where` selects, in their order. -/
def selected (model : PgSqlModel) (key value : Bytes) (rows : List Row) : List Row :=
  ordered (plain model) model.byCreated
    (rows.filter (Condition.holds (plain model) [.equals key value :: model.notDeleted]))

theorem select_plain {key : Bytes} (has : model.hasColumn key = true) (value : Bytes)
    (rows : List Row) :
    select (plain model) rows (some ((shown model.cols).map item)) model.table
        [.equals key value :: model.notDeleted] model.byCreated =
      some ((selected model key value rows).map fun row =>
        row.record (plain model) (some ((shown model.cols).map item))) := by
  have items : ∀ selected ∈ (some ((shown model.cols).map item)).getD [],
      Item.checked (plain model) selected = true := by
    intro selected member
    obtain ⟨column, present, rfl⟩ := List.mem_map.mp member
    have column_mem := mem_plain (hasColumn_of_mem (List.mem_filter.mp present).1 rfl)
    unfold item
    split
    · rename_i location
      rw [location] at column_mem
      simpa [Item.checked] using column_mem
    · simpa [Item.checked] using column_mem
  have condition : Condition.checked (plain model) [.equals key value :: model.notDeleted] := by
    have equals : (plain model).columns.contains key && ((plain model).cast key value).isSome := by
      simpa [plain] using mem_plain has
    have deleted : model.notDeleted.all (Atom.checked (plain model)) := by
      unfold notDeleted
      split
      · rename_i present
        simpa [Atom.checked] using mem_plain present
      · rfl
    simp only [Condition.checked, List.all_cons, List.all_nil, Bool.and_true, Atom.checked, equals,
      deleted]
  have order : ∀ column ∈ model.byCreated, column ∈ (plain model).columns := by
    intro column member
    unfold byCreated at member
    split at member
    · cases member
      exact mem_plain ‹_›
    · cases member
  rw [select, if_pos ⟨rfl, items, condition, order⟩, selected]

/-- What a row shows under the name of a visible column. -/
theorem field_record_items (row : Row) {column : Column} (member : column ∈ model.cols)
    (visible : column.hidden = false) :
    field (row.record (plain model) (some ((shown model.cols).map item))) column.name =
      some (row.cell column.name) := by
  have items : (shown model.cols).map (fun column => (item column).field (plain model) row) =
      ((shown model.cols).map Column.name).map fun name => (name, row.cell name) := by
    rw [List.map_map]
    apply List.map_congr_left
    intro column _
    unfold item
    split
    · rename_i location
      simp [Item.field, plain, location]
    · rfl
  have shows : column.name ∈ (shown model.cols).map Column.name :=
    List.mem_map_of_mem (List.mem_filter.mpr ⟨member, by simpa using visible⟩)
  rw [field, Row.record, List.map_map]
  change KeyedList.get? ((shown model.cols).map _) _ = _
  rw [show (Item.field (plain model) row ∘ item) =
    fun column => (item column).field (plain model) row from rfl, items, KeyedList.get?_map_key]
  simp [shows]

/-- What `Where` answers for the rows that it selects. -/
theorem where_plain (declared : model.Declared) (complete : ¬ Dangling model.cols) {key : Bytes}
    (has : model.hasColumn key = true) (value : Bytes) (rows : List Row) :
    ∃ objects : List JsonObject,
      model.where_ (plain model) rows key value =
        { JsonObject.new .array with arrayValues := objects } ∧
      objects.length = (selected model key value rows).length ∧
      ∀ row ∈ (selected model key value rows).head?, ∀ column ∈ model.cols,
        column.hidden = false → ∀ shown ∈ row.cell column.name, ∃ object ∈ objects.head?,
          KeyedList.get? object.objectValues column.name = some (.ofString shown) := by
  have objects : ∀ kept : List Row, ∃ objects : List JsonObject,
      (kept.map fun row => row.record (plain model) (some ((shown model.cols).map item))).mapM
        model.rowToJson = some objects ∧ objects.length = kept.length ∧
      ∀ row ∈ kept.head?, ∃ object ∈ objects.head?,
        model.rowToJson (row.record (plain model) (some ((shown model.cols).map item))) =
          some object := by
    intro kept
    induction kept with
    | nil => exact ⟨[], rfl, rfl, by simp⟩
    | cons row kept ih =>
        obtain ⟨objects, converts, length, -⟩ := ih
        have fields : ∀ column ∈ model.cols, column.hidden = false →
            (field (row.record (plain model) (some ((shown model.cols).map item)))
              column.name).isSome := by
          intro column member visible
          rw [field_record_items row member visible, Option.isSome_some]
        obtain ⟨object, shows⟩ := exists_rowMembers (.new .object) fields
        have first : model.rowToJson
            (row.record (plain model) (some ((shown model.cols).map item))) = some object := shows
        exact ⟨object :: objects, by simp [first, converts], by simp [length], by simp [first]⟩
  obtain ⟨objects, converts, length, first⟩ := objects (selected model key value rows)
  refine ⟨objects, ?_, length, ?_⟩
  · rw [where_eq declared has, if_neg complete, select_plain has, Option.bind_some,
      resultToJson, converts]
    rfl
  · intro row member column present visible value found
    obtain ⟨object, head, shows⟩ := first row member
    refine ⟨object, head, get?_rowMembers shows present visible ?_⟩
    rw [field_record_items row present visible, found]

theorem alike_of_cells {first second : Row} (identity : first.identity = second.identity)
    (cells : ∀ name, ¬ model.Secret name → first.cell name = second.cell name)
    (deleted : first.cell (bytes "deleted") = second.cell (bytes "deleted")) :
    model.Alike first second :=
  ⟨identity, cells, fun _ => by rw [deleted]⟩

/-- A row that has nothing but a value in one column. -/
def keyRow (key text : Bytes) : Row :=
  ⟨0, fun name => if name = key then some text else none⟩

theorem alike_keyRow {key : Bytes} (secret : model.Secret key) (kept : key ≠ bytes "deleted")
    (text other : Bytes) : model.Alike (keyRow key text) (keyRow key other) := by
  refine alike_of_cells rfl (fun name visible => ?_) ?_
  · have different : name ≠ key := fun same => visible (same ▸ secret)
    simp [keyRow, different]
  · simp [keyRow, Ne.symm kept]

/-- A hidden key selects the row whose hidden value it names. -/
theorem where_ne_of_secret (declared : model.Declared) (complete : ¬ Dangling model.cols)
    {key : Bytes} (secret : model.Secret key) (kept : key ≠ bytes "deleted") {value other : Bytes}
    (differ : other ≠ value) :
    model.where_ (plain model) [keyRow key value] key value ≠
      model.where_ (plain model) [keyRow key other] key value := by
  obtain ⟨⟨column, member, named⟩, -⟩ := secret
  have has := hasColumn_of_mem member named
  have found : Condition.holds (plain model) [.equals key value :: model.notDeleted]
      (keyRow key value) = true :=
    holds_iff.mpr ⟨⟨by simp [keyRow], by simp [keyRow, plain]⟩, fun _ => if_neg (Ne.symm kept)⟩
  have missed : Condition.holds (plain model) [.equals key value :: model.notDeleted]
      (keyRow key other) = false := by
    rw [Bool.eq_false_iff]
    intro holds
    exact differ (by simpa [keyRow, plain] using (holds_iff.mp holds).1.2)
  obtain ⟨one, first, oneLength, -⟩ := where_plain declared complete has value [keyRow key value]
  obtain ⟨zero, second, zeroLength, -⟩ := where_plain declared complete has value [keyRow key other]
  rw [first, second]
  intro same
  have lists : one = zero := congrArg JsonObject.arrayValues same
  rw [selected, (ordered_perm ..).length_eq] at oneLength zeroLength
  simp [lists, zeroLength, found, missed] at oneLength

/-- Two rows whose hidden order decides which comes first. -/
def orderedRow (key value column text created : Bytes) (identity : Nat) : Row :=
  ⟨identity, fun name =>
    if name = key then some value else if name = column then some text
    else if name = bytes "created" then some created else none⟩

theorem ordered_two {server : Server} {column : Bytes} {first second : Row} :
    (ordered server (some column) [first, second]).head? =
      if comesFirst server column first second then some first else some second := by
  rw [ordered]
  cases comes : comesFirst server column first second <;>
    simp [List.mergeSort, List.MergeSort.Internal.splitInTwo, comes]

/-- A hidden `created` decides which of two rows is shown first. -/
theorem exists_where_ne_of_created (declared : model.Declared) (complete : ¬ Dangling model.cols)
    {key : Bytes} (has : model.hasColumn key = true) (visible : ¬ model.Secret key)
    (kept : key ≠ bytes "deleted") (created : model.Secret (bytes "created")) {column : Column}
    (member : column ∈ shown model.cols) (other : column.name ≠ key)
    (remains : column.name ≠ bytes "deleted") (value : Bytes) :
    ∃ (server : Server) (rows others : List Row), List.Forall₂ model.Alike rows others ∧
      model.where_ server rows key value ≠ model.where_ server others key value := by
  obtain ⟨present, shows⟩ := List.mem_filter.mp member
  have columnVisible : column.hidden = false := by simpa using shows
  have createdOther : column.name ≠ bytes "created" :=
    fun same => not_secret present columnVisible (same ▸ created)
  have keyOther : key ≠ bytes "created" := fun same => visible (same ▸ created)
  have different : bytes "deleted" ≠ bytes "created" := by decide
  let row := orderedRow key value column.name
  have alike : ∀ text first second identity,
      model.Alike (row text first identity) (row text second identity) := by
    intro text first second identity
    refine alike_of_cells rfl (fun name hidden => ?_) ?_
    · have named : name ≠ bytes "created" := fun same => hidden (same ▸ created)
      simp [row, orderedRow, named]
    · simp [row, orderedRow, different]
  have holds : ∀ text created identity, Condition.holds (plain model)
      [.equals key value :: model.notDeleted] (row text created identity) = true := by
    intro text created identity
    refine holds_iff.mpr ⟨⟨by simp [row, orderedRow], by simp [row, orderedRow, plain]⟩, fun _ => ?_⟩
    simp [row, orderedRow, Ne.symm kept, Ne.symm remains, different]
  have first : ∀ one two : Bytes,
      ∃ objects : List JsonObject,
        model.where_ (plain model) [row [65] one 0, row [66] two 1] key value =
          { JsonObject.new .array with arrayValues := objects } ∧
        ∃ object ∈ objects.head?, KeyedList.get? object.objectValues column.name =
          some (.ofString (if two.length ≤ one.length then [65] else [66])) := by
    intro one two
    obtain ⟨objects, answer, -, shown⟩ := where_plain declared complete has value
      [row [65] one 0, row [66] two 1]
    refine ⟨objects, answer, ?_⟩
    have order : model.byCreated = some (bytes "created") := by
      obtain ⟨⟨column, member, named⟩, -⟩ := created
      rw [byCreated, if_pos (hasColumn_of_mem member named)]
    have head : (selected model key value [row [65] one 0, row [66] two 1]).head? =
        some (if two.length ≤ one.length then row [65] one 0 else row [66] two 1) := by
      have comes : comesFirst (plain model) (bytes "created") (row [65] one 0) (row [66] two 1) =
          decide (two.length ≤ one.length) := by
        simp [comesFirst, row, orderedRow, Ne.symm keyOther, Ne.symm createdOther, plain]
      rw [selected, List.filter_eq_self.mpr (by simp [holds]), order, ordered_two, comes]
      by_cases later : two.length ≤ one.length <;> simp [later]
    refine shown _ head column present columnVisible _ ?_
    split <;> simp [row, orderedRow, other]
  obtain ⟨objects, answer, object, head, shown⟩ := first [1] []
  obtain ⟨objects', answer', object', head', shown'⟩ := first [] [1]
  refine ⟨plain model, [row [65] [1] 0, row [66] [] 1], [row [65] [] 0, row [66] [1] 1],
    .cons (alike ..) (.cons (alike ..) .nil), ?_⟩
  rw [answer, answer']
  intro same
  have lists : objects = objects' := congrArg JsonObject.arrayValues same
  rw [lists] at head
  cases (Option.mem_unique head head')
  have texts := shown.symm.trans shown'
  simp [JsonObject.ofString] at texts

theorem where_congr_iff (declared : model.Declared) (key value : Bytes) :
    (∀ (server : Server) (rows others : List Row), List.Forall₂ model.Alike rows others →
        model.where_ server rows key value = model.where_ server others key value) ↔
      WhereSafe model key := by
  constructor
  · intro same
    have safe : ¬ ∃ (server : Server) (rows others : List Row),
        List.Forall₂ model.Alike rows others ∧
          model.where_ server rows key value ≠ model.where_ server others key value := by
      rintro ⟨server, rows, others, alike, different⟩
      exact different (same server rows others alike)
    by_contra unsafeKey
    simp only [WhereSafe, not_or, not_and_or, not_forall, not_not] at unsafeKey
    obtain ⟨known, complete, kept, leaks⟩ := unsafeKey
    have has : model.hasColumn key = true := by simpa using known
    by_cases secret : model.Secret key
    · have differ : value ++ [0] ≠ value := by simp
      exact safe ⟨_, _, _, .cons (alike_keyRow secret kept value (value ++ [0])) .nil,
        where_ne_of_secret declared complete secret kept differ⟩
    · obtain ⟨created, column, member, other, remains⟩ := leaks.resolve_left secret
      exact safe (exists_where_ne_of_created declared complete has secret kept created member other
        remains value)
  · exact fun safe server rows others alike => where_congr declared safe alike value

end Where

section Access

variable {server : Server} {rows others : List Row}

/-- The password of the row that a login finds. -/
def stored (model : PgSqlModel) (server : Server) (rows : List Row) (key value : Bytes) :
    Option (Option Bytes) :=
  (query server rows (model.accessText key value)).bind fun res =>
    res.head?.bind (field · (bytes "password"))

theorem badPassword_ne : error (bytes "Bad data.") ≠ error (bytes "Bad password.") := by
  intro same
  have texts : bytes "Bad data." = bytes "Bad password." := by
    simpa [error, JsonObject.setMember, JsonObject.new, KeyedList.set, JsonObject.ofString]
      using same
  revert texts
  decide

/-- The answer to a login that finds a row with a password, and shows `shown`. -/
def answer (shown : JsonObject) (password : Bytes) : Option Bytes → JsonObject
  | none => error (bytes "Bad data.")
  | some stored => if stored = password then shown else error (bytes "Bad password.")

theorem answer_congr_iff {shown : JsonObject} {password : Bytes} {first second : Option Bytes}
    (matched : first = some password ↔ second = some password) :
    answer shown password first = answer shown password second ↔
      (first = none ↔ second = none) := by
  have refused : ∀ cell, cell ≠ some password →
      answer shown password cell =
        if cell = none then error (bytes "Bad data.") else error (bytes "Bad password.") := by
    intro cell wrong
    cases cell with
    | none => rfl
    | some stored => simpa [answer] using fun same => absurd (congrArg some same) wrong
  by_cases same : first = some password
  · rw [same, matched.mp same]
    simp
  · rw [refused first same, refused second (matched.not.mp same)]
    by_cases firstNone : first = none <;> by_cases secondNone : second = none <;>
      simp [firstNone, secondNone, badPassword_ne, badPassword_ne.symm]

theorem login_record (server : Server) (row : Row) (password : Bytes) (res : List Record) :
    (model.login password (row.record server none :: res)).getD (error (bytes "Bad data.")) =
      if bytes "password" ∈ server.columns then
        answer ((model.rowToJson (row.record server none)).getD (error (bytes "Bad data.")))
          password (row.cell (bytes "password"))
      else error (bytes "Bad data.") := by
  rw [login, field_record_none]
  split
  · cases row.cell (bytes "password") with
    | none => rfl
    | some stored =>
        simp only [Option.bind_some, answer]
        split <;> rfl
  · rfl

/-- Whether a password matches decides what a login answers, unless the row has
no password. -/
theorem access_congr_iff (declared : model.Declared) {key : Bytes} (identifier : Identifier key)
    (visible : ¬ model.Secret key) (alike : List.Forall₂ model.Alike rows others)
    (value password : Bytes)
    (matched : model.stored server rows key value = some (some password) ↔
      model.stored server others key value = some (some password)) :
    model.access server rows key value password = model.access server others key value password ↔
      (model.stored server rows key value = some none ↔
        model.stored server others key value = some none) := by
  have parses := parse_accessText declared identifier value
  unfold stored at matched ⊢
  rw [access, access]
  rw [query_eq_select parses, query_eq_select parses] at matched ⊢
  have holds : ∀ first second, model.Alike first second →
      Condition.holds server [.equals key value :: model.notDeleted] first =
        Condition.holds server [.equals key value :: model.notDeleted] second :=
    fun first second alike => alike.holds_key visible value
  rcases selectAll_alike alike holds with ⟨first, second⟩ | ⟨kept, same, first, second⟩
  · simp [first, second]
  · rw [first, second] at matched ⊢
    cases kept with
    | nil => simp
    | cons pair kept =>
        have shown := rowToJson_congr ((same pair List.mem_cons_self).record_none server)
        simp only [Option.bind_some, List.map_cons, List.head?_cons] at matched ⊢
        rw [login_record, login_record, shown]
        rw [field_record_none, field_record_none] at matched ⊢
        by_cases present : bytes "password" ∈ server.columns
        · simp only [present, if_true, Option.some.injEq] at matched ⊢
          exact answer_congr_iff matched
        · simp [present]

end Access

/-- Which answers tables that differ only in hidden columns have in common. -/
theorem hidden_columns (declared : model.Declared) :
    (∀ (server : Server) (rows others : List Row), List.Forall₂ model.Alike rows others →
      model.all server rows = model.all server others) ∧
    (∀ res other : List Record, List.Forall₂ model.SameShown res other →
      model.resultToJson res = model.resultToJson other) ∧
    (∀ key value : Bytes,
      (∀ (server : Server) (rows others : List Row), List.Forall₂ model.Alike rows others →
        model.where_ server rows key value = model.where_ server others key value) ↔
          WhereSafe model key) ∧
    ∀ (server : Server) (rows others : List Row), List.Forall₂ model.Alike rows others →
      ∀ column ∈ model.cols, column.hidden = false → ∀ value password : Bytes,
        (model.stored server rows column.name value = some (some password) ↔
          model.stored server others column.name value = some (some password)) →
        (model.access server rows column.name value password =
            model.access server others column.name value password ↔
          (model.stored server rows column.name value = some none ↔
            model.stored server others column.name value = some none)) := by
  refine ⟨fun server rows others alike => all_congr declared alike,
    fun res other same => resultToJson_congr same, where_congr_iff declared, ?_⟩
  intro server rows others alike column member visible value password matched
  exact access_congr_iff declared (declared.columns column member) (not_secret member visible)
    alike value password matched

instance (model : PgSqlModel) (name : Bytes) : Decidable (model.Secret name) :=
  inferInstanceAs (Decidable ((∃ column ∈ model.cols, column.name = name) ∧
    ∀ column ∈ model.cols, column.name = name → column.hidden = true))

/-- A caller can try out passwords with `Where`. -/
theorem exists_hidden_leak :
    users.Declared ∧
      List.Forall₂ users.Alike [keyRow (bytes "password") (bytes "secret")]
        [keyRow (bytes "password") (bytes "other")] ∧
      users.where_ (plain users) [keyRow (bytes "password") (bytes "secret")] (bytes "password")
          (bytes "secret") ≠
        users.where_ (plain users) [keyRow (bytes "password") (bytes "other")] (bytes "password")
          (bytes "secret") := by
  have secret : users.Secret (bytes "password") := by decide +kernel
  have kept : bytes "password" ≠ bytes "deleted" := by decide
  exact ⟨users_declared, .cons (alike_keyRow secret kept _ _) .nil,
    where_ne_of_secret users_declared (by decide +kernel) secret kept (by decide)⟩

/-- Two users who differ in their passwords. -/
def ada (password : Bytes) : Row :=
  ⟨0, fun name => if name = bytes "username" then some (bytes "ada")
    else if name = bytes "password" then some password else none⟩

theorem hidden_columns_users :
    users.all (plain users) [ada (bytes "secret")] = users.all (plain users) [ada (bytes "other")] ∧
      users.where_ (plain users) [ada (bytes "secret")] (bytes "username") (bytes "ada") =
        users.where_ (plain users) [ada (bytes "other")] (bytes "username") (bytes "ada") ∧
      users.access (plain users) [ada (bytes "secret")] (bytes "username") (bytes "ada")
          (bytes "guess") =
        users.access (plain users) [ada (bytes "other")] (bytes "username") (bytes "ada")
          (bytes "guess") := by
  obtain ⟨all, -, where_, access⟩ := hidden_columns users_declared
  have alike : List.Forall₂ users.Alike [ada (bytes "secret")] [ada (bytes "other")] := by
    have secret : users.Secret (bytes "password") := by decide +kernel
    refine .cons (alike_of_cells rfl (fun name visible => ?_) rfl) .nil
    have different : name ≠ bytes "password" := fun same => visible (same ▸ secret)
    simp [ada, different]
  have safe : WhereSafe users (bytes "username") :=
    .inr (.inr (.inr ⟨by decide +kernel, fun created => absurd created (by decide +kernel)⟩))
  refine ⟨all _ _ _ alike, (where_ _ _).mpr safe _ _ _ alike, ?_⟩
  exact (access _ _ _ alike ⟨bytes "username", 0⟩ (by decide +kernel) (by decide) _ _
    (by decide +kernel)).mpr (by decide +kernel)

end PgSqlModel

end Libjaypea
