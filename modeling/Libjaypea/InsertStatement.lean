import Libjaypea.StatementTexts

/-!
# The statement of an insertion

`Insert` writes its columns and its values in two loops over one map.  The lists
line up whatever the map holds and in whichever order it is iterated, and what
was supplied reaches the text only as the name of a column or within a quote.
-/

namespace Libjaypea

namespace PgSqlModel

/-- What is written for a column: the quoted value that was supplied for it, or
the point that was supplied for the location. -/
def Supplies (txnQuote : Bytes → Bytes) (values : List (Bytes × JsonObject))
    (column text : Bytes) : Prop :=
  if column = bytes "location" then
    ∃ longitude latitude, KeyedList.get? values (bytes "longitude") = some longitude ∧
      KeyedList.get? values (bytes "latitude") = some latitude ∧
      text = bytes "ST_GeographyFromText(" ++
        txnQuote (bytes "POINT(" ++ longitude.stringValue ++ bytes " " ++ latitude.stringValue ++
          bytes ")") ++ bytes ")"
  else ∃ value, KeyedList.get? values column = some value ∧ text = txnQuote value.stringValue

/-- The columns of an insertion and what is written for them. -/
structure Aligned (txnQuote : Bytes → Bytes) (model : PgSqlModel)
    (values : List (Bytes × JsonObject)) (columns written : List Bytes) : Prop where
  distinct : columns.Nodup
  known : ∀ column ∈ columns, model.hasColumn column = true
  supplied : List.Forall₂ (Supplies txnQuote values) columns written
  complete : ∀ key ∈ KeyedList.keys values, key ∈ columns ∨
    model.hasColumn (bytes "location") = true ∧ (key = bytes "longitude" ∨ key = bytes "latitude")

/-- The text of an insertion. -/
def insertionText (model : PgSqlModel) (columns written : List Bytes) : Bytes :=
  bytes "INSERT INTO " ++ model.table ++ bytes " (" ++ commas columns ++ bytes ") VALUES (" ++
    commas written ++ if model.hasColumn (bytes "id") then bytes ") RETURNING id;" else bytes ");"

/-- `Insert` needs both coordinates for a model with a location. -/
def Unlocated (model : PgSqlModel) (values : List (Bytes × JsonObject)) : Prop :=
  model.hasColumn (bytes "location") = true ∧
    (KeyedList.get? values (bytes "longitude") = none ∨
      KeyedList.get? values (bytes "latitude") = none)

variable {txnQuote : Bytes → Bytes} {model : PgSqlModel} {values : List (Bytes × JsonObject)}

section Locating

/-- The map that the loops iterate. -/
structure Located (txnQuote : Bytes → Bytes) (model : PgSqlModel)
    (values entries : List (Bytes × JsonObject)) (location : Bytes) : Prop where
  distinct : (KeyedList.keys entries).Nodup
  supplied : ∀ entry ∈ entries, model.hasColumn entry.1 = true →
    Supplies txnQuote values entry.1
      (if entry.1 = bytes "location" then location else txnQuote entry.2.stringValue)
  origin : ∀ key ∈ KeyedList.keys entries, model.hasColumn key = false →
    key ∈ KeyedList.keys values
  complete : ∀ key ∈ KeyedList.keys values, key ∈ KeyedList.keys entries ∨
    model.hasColumn (bytes "location") = true ∧ (key = bytes "longitude" ∨ key = bytes "latitude")

/-- The map with a placeholder in the place of the coordinates. -/
def withPlaceholder (values : List (Bytes × JsonObject)) : List (Bytes × JsonObject) :=
  KeyedList.set (KeyedList.erase (KeyedList.erase values (bytes "longitude")) (bytes "latitude"))
    (bytes "location") (.ofString (bytes "placeholder"))

theorem get?_withPlaceholder {key : Bytes} (notLocation : key ≠ bytes "location") :
    KeyedList.get? (withPlaceholder values) key =
      if key = bytes "longitude" ∨ key = bytes "latitude" then none
      else KeyedList.get? values key := by
  rw [withPlaceholder, KeyedList.get?_set_of_ne _ (Ne.symm notLocation), KeyedList.get?_erase,
    KeyedList.get?_erase]
  by_cases latitude : key = bytes "latitude"
  · simp [latitude]
  · by_cases longitude : key = bytes "longitude"
    · simp [longitude]
    · simp [latitude, longitude, Ne.symm latitude, Ne.symm longitude]

theorem mem_keys_withPlaceholder (key : Bytes) :
    key ∈ KeyedList.keys (withPlaceholder values) ↔ key = bytes "location" ∨
      (key ∈ KeyedList.keys values ∧ key ≠ bytes "longitude" ∧ key ≠ bytes "latitude") := by
  by_cases location : key = bytes "location"
  · simp [withPlaceholder, KeyedList.mem_keys_set, location]
  · rw [KeyedList.mem_keys_iff, get?_withPlaceholder location, KeyedList.mem_keys_iff]
    by_cases coordinate : key = bytes "longitude" ∨ key = bytes "latitude"
    · rw [if_pos coordinate]
      rcases coordinate with rfl | rfl <;> simp [location]
    · obtain ⟨longitude, latitude⟩ := not_or.mp coordinate
      rw [if_neg coordinate]
      simp [location, longitude, latitude]

theorem located_withPlaceholder (distinct : (KeyedList.keys values).Nodup)
    (has : model.hasColumn (bytes "location") = true) {longitude latitude : JsonObject}
    (east : KeyedList.get? values (bytes "longitude") = some longitude)
    (north : KeyedList.get? values (bytes "latitude") = some latitude) :
    Located txnQuote model values (withPlaceholder values)
      (bytes "ST_GeographyFromText(" ++
        txnQuote (bytes "POINT(" ++ longitude.stringValue ++ bytes " " ++ latitude.stringValue ++
          bytes ")") ++ bytes ")") := by
  have kept : (KeyedList.keys (withPlaceholder values)).Nodup :=
    KeyedList.nodup_keys_set (((KeyedList.keys_erase_sublist _ _).trans
      (KeyedList.keys_erase_sublist _ _)).nodup distinct) _ _
  refine ⟨kept, ?_, ?_, ?_⟩
  · intro entry member _
    rw [Supplies]
    by_cases location : entry.1 = bytes "location"
    · rw [if_pos location, if_pos location]
      exact ⟨longitude, latitude, east, north, rfl⟩
    · rw [if_neg location, if_neg location]
      have found := KeyedList.get?_of_mem kept member
      rw [get?_withPlaceholder location] at found
      split at found
      · cases found
      · exact ⟨entry.2, found, rfl⟩
  · intro key member unknown
    rcases (mem_keys_withPlaceholder key).mp member with rfl | ⟨present, -⟩
    · rw [has] at unknown
      cases unknown
    · exact present
  · intro key member
    rw [mem_keys_withPlaceholder]
    by_cases coordinate : key = bytes "longitude" ∨ key = bytes "latitude"
    · exact .inr ⟨has, coordinate⟩
    · exact .inl (.inr ⟨member, not_or.mp coordinate⟩)

theorem locateText_cases (distinct : (KeyedList.keys values).Nodup) :
    (locateText txnQuote model values = .error (bytes "Missing location information.") ∧
        Unlocated model values) ∨
      ∃ location entries, locateText txnQuote model values = .ok (location, entries) ∧
        Located txnQuote model values entries location := by
  cases has : model.hasColumn (bytes "location") with
  | false =>
      refine .inr ⟨[], values, by simp [locateText, has], distinct, ?_, fun _ member _ => member,
        fun _ member => .inl member⟩
      intro entry member known
      have other : entry.1 ≠ bytes "location" := by
        intro same
        rw [same, has] at known
        cases known
      rw [Supplies, if_neg other, if_neg other]
      exact ⟨entry.2, KeyedList.get?_of_mem distinct member, rfl⟩
  | true =>
      cases longitude : KeyedList.get? values (bytes "longitude") with
      | none => exact .inl ⟨by simp [locateText, has, longitude], has, .inl longitude⟩
      | some east =>
          cases latitude : KeyedList.get? values (bytes "latitude") with
          | none =>
              exact .inl ⟨by simp [locateText, has, longitude, latitude], has, .inr latitude⟩
          | some north =>
              exact .inr ⟨_, _, by simp [locateText, has, longitude, latitude, withPlaceholder],
                located_withPlaceholder distinct has longitude latitude⟩

end Locating

/-- An insertion fails before anything is executed, for want of a location or
for a key that is no column, or executes one statement whose lists line up. -/
theorem insertSql_cases {iterate : List (Bytes × JsonObject) → List (Bytes × JsonObject)}
    (order : ∀ entries, (iterate entries).Perm entries)
    (distinct : (KeyedList.keys values).Nodup) :
    (insertSql txnQuote model iterate values = .error (bytes "Missing location information.") ∧
        Unlocated model values) ∨
      (insertSql txnQuote model iterate values = .error (bytes "Bad key.") ∧
        ∃ key ∈ KeyedList.keys values, model.hasColumn key = false) ∨
      ∃ columns written, Aligned txnQuote model values columns written ∧
        insertSql txnQuote model iterate values = .ok (insertionText model columns written) := by
  rcases @locateText_cases txnQuote model values distinct with
    ⟨failed, unlocated⟩ | ⟨location, entries, read, located⟩
  · exact .inl ⟨by rw [insertSql, failed]; rfl, unlocated⟩
  · right
    have iterated : ∀ entry, entry ∈ iterate entries ↔ entry ∈ entries :=
      fun _ => (order entries).mem_iff
    have keys : ∀ key, key ∈ KeyedList.keys (iterate entries) ↔ key ∈ KeyedList.keys entries :=
      fun _ => ((order entries).map Prod.fst).mem_iff
    rcases known_or_unknown model (iterate entries) with known | unknown
    · refine .inr ⟨KeyedList.keys (iterate entries), (iterate entries).map fun entry =>
        if entry.1 = bytes "location" then location else txnQuote entry.2.stringValue,
        ⟨?_, ?_, ?_, ?_⟩, ?_⟩
      · exact ((order entries).map Prod.fst).nodup_iff.mpr located.distinct
      · intro column member
        obtain ⟨entry, present, rfl⟩ := List.mem_map.mp member
        exact known entry present
      · rw [KeyedList.keys, List.forall₂_map_left_iff, List.forall₂_map_right_iff,
          List.forall₂_same]
        exact fun entry member =>
          located.supplied entry ((iterated entry).mp member) (known entry member)
      · exact fun key member => (located.complete key member).imp (keys key).mpr id
      · rw [insertSql, read]
        simp only [bind, Except.bind, writeEntries_of_known known]
        rfl
    · refine .inl ⟨?_, ?_⟩
      · rw [insertSql, read]
        simp only [bind, Except.bind, writeEntries_of_unknown unknown]
      · obtain ⟨entry, member, absent⟩ := unknown
        exact ⟨entry.1, located.origin _ (List.mem_map_of_mem ((iterated entry).mp member)) absent,
          absent⟩

/-- What a server may write for a literal: quotes around it, and its own doubled. -/
def doubled (value : Bytes) : Bytes :=
  Sql.quoteByte :: (value.flatMap fun byte =>
    if byte = Sql.quoteByte then [byte, byte] else [byte]) ++ [Sql.quoteByte]

def samplePoint : List (Bytes × JsonObject) :=
  [(bytes "longitude", .ofString (bytes "8.5")), (bytes "label", .ofString (bytes "it's")),
    (bytes "latitude", .ofString (bytes "47.4")), (bytes "owner_id", .ofString (bytes "7"))]

def samplePointText : Bytes :=
  bytes "INSERT INTO poi (location, owner_id, label) VALUES " ++
    bytes "(ST_GeographyFromText('POINT(8.5 47.4)'), '7', 'it''s') RETURNING id;"

theorem insertSql_samplePoint :
    insertSql doubled poi List.reverse samplePoint = .ok samplePointText ∧
      ∃ columns written, Aligned doubled poi samplePoint columns written ∧
        samplePointText = insertionText poi columns written := by
  have text : insertSql doubled poi List.reverse samplePoint = .ok samplePointText := by
    decide +kernel
  have cases := @insertSql_cases doubled poi samplePoint List.reverse List.reverse_perm (by decide)
  rw [text] at cases
  rcases cases with ⟨failed, -⟩ | ⟨failed, -⟩ | ⟨columns, written, aligned, same⟩
  · cases failed
  · cases failed
  · exact ⟨text, columns, written, aligned, Except.ok.inj same⟩

end PgSqlModel

end Libjaypea
