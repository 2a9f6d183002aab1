import Libjaypea.KeyedList

/-!
# Tables with the same keys

A program that keeps one record in several maps writes and erases its key in all
of them.  `emplace` adds a key that is new and leaves a present one alone.
-/

namespace Libjaypea

namespace KeyedList

variable {κ α β : Type*} [DecidableEq κ]

/-- A key that is present keeps its value. -/
def emplace (entries : KeyedList κ α) (key : κ) (value : α) : KeyedList κ α :=
  if entries.contains key then entries else entries.set key value

theorem exists_get?_of_mem_keys {entries : KeyedList κ α} {wanted : κ}
    (member : wanted ∈ entries.keys) : ∃ value, entries.get? wanted = some value := by
  apply Option.ne_none_iff_exists'.mp
  intro absent
  exact get?_eq_none_iff.mp absent member

theorem get?_erase_eq_some_iff {entries : KeyedList κ α} {unwanted wanted : κ} {value : α} :
    (entries.erase unwanted).get? wanted = some value ↔
      unwanted ≠ wanted ∧ entries.get? wanted = some value := by
  rw [get?_erase]
  by_cases removed : unwanted = wanted
  · simp [removed]
  · simp [removed]

theorem mem_keys_erase {entries : KeyedList κ α} {unwanted wanted : κ} :
    wanted ∈ (entries.erase unwanted).keys ↔ wanted ≠ unwanted ∧ wanted ∈ entries.keys := by
  rw [← not_iff_not, ← get?_eq_none_iff, get?_erase]
  by_cases removed : unwanted = wanted
  · simp [removed]
  · simp [removed, Ne.symm removed, get?_eq_none_iff]

theorem emplace_of_notMem {entries : KeyedList κ α} {written : κ}
    (absent : written ∉ entries.keys) (new : α) :
    entries.emplace written new = entries.set written new := by
  rw [emplace, if_neg]
  rwa [contains_iff]

theorem emplace_of_mem {entries : KeyedList κ α} {written : κ}
    (present : written ∈ entries.keys) (new : α) : entries.emplace written new = entries := by
  rw [emplace, if_pos (contains_iff.mpr present)]

theorem mem_keys_emplace {entries : KeyedList κ α} {written wanted : κ} {new : α} :
    wanted ∈ (entries.emplace written new).keys ↔ wanted = written ∨ wanted ∈ entries.keys := by
  by_cases present : written ∈ entries.keys
  · rw [emplace_of_mem present]
    constructor
    · exact Or.inr
    · rintro (rfl | member) <;> assumption
  · rw [emplace_of_notMem present, mem_keys_set]

/-- What lies under a key after `emplace`. -/
theorem get?_emplace (entries : KeyedList κ α) (written wanted : κ) (new : α) :
    (entries.emplace written new).get? wanted =
      (entries.get? wanted).or (if written = wanted then some new else none) := by
  by_cases present : written ∈ entries.keys
  · rw [emplace_of_mem present]
    split
    · rename_i same
      obtain ⟨value, found⟩ := exists_get?_of_mem_keys (same ▸ present)
      simp [found]
    · simp
  · rw [emplace_of_notMem present, get?_set]
    split
    · rename_i same
      simp [get?_eq_none_iff.mpr (same ▸ present)]
    · simp

theorem nodup_keys_erase {entries : KeyedList κ α} (distinct : entries.keys.Nodup)
    (unwanted : κ) : (entries.erase unwanted).keys.Nodup :=
  (keys_erase_sublist entries unwanted).nodup distinct

/-- Two maps hold entries for the same keys. -/
def SameKeys (entries : KeyedList κ α) (others : KeyedList κ β) : Prop :=
  ∀ key, key ∈ entries.keys ↔ key ∈ others.keys

namespace SameKeys

variable {entries : KeyedList κ α} {others : KeyedList κ β}

omit [DecidableEq κ] in
theorem symm (same : SameKeys entries others) : SameKeys others entries :=
  fun key => (same key).symm

theorem erase (same : SameKeys entries others) (unwanted : κ) :
    SameKeys (entries.erase unwanted) (others.erase unwanted) := by
  intro key
  rw [mem_keys_erase, mem_keys_erase, same key]

theorem set (same : SameKeys entries others) (written : κ) (new : α) (other : β) :
    SameKeys (entries.set written new) (others.set written other) := by
  intro key
  rw [mem_keys_set, mem_keys_set, same key]

theorem emplace_set (same : SameKeys entries others) (written : κ) (new : α) (other : β) :
    SameKeys (entries.emplace written new) (others.set written other) := by
  intro key
  rw [mem_keys_emplace, mem_keys_set, same key]

/-- A key that is there already may be written in one of them. -/
theorem set_left (same : SameKeys entries others) {written : κ}
    (present : written ∈ others.keys) (new : α) : SameKeys (entries.set written new) others := by
  intro key
  rw [mem_keys_set, same key]
  constructor
  · rintro (rfl | member) <;> assumption
  · exact Or.inr

theorem set_right (same : SameKeys entries others) {written : κ}
    (present : written ∈ others.keys) (new : β) : SameKeys entries (others.set written new) := by
  apply symm
  exact same.symm.set_left ((same written).mpr present) new

theorem exists_get? (same : SameKeys entries others) {key : κ} (present : key ∈ others.keys) :
    ∃ value, entries.get? key = some value :=
  exists_get?_of_mem_keys ((same key).mpr present)

end SameKeys

end KeyedList

end Libjaypea
