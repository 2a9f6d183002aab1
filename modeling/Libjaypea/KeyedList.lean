import Mathlib.Data.List.Basic
import Mathlib.Data.List.Nodup

/-!
# Keyed lists

A finite map with distinct keys and an unspecified iteration order, kept as a
list of entries in the order in which an iterator meets them.  Writing to a
present key keeps its place; a new key may be taken to come last, because no
statement built on this file depends on the order.
-/

namespace Libjaypea

abbrev KeyedList (κ α : Type*) := List (κ × α)

namespace KeyedList

variable {κ α : Type*} [DecidableEq κ]

def get? : KeyedList κ α → κ → Option α
  | [], _ => none
  | (key, value) :: rest, wanted => if key = wanted then some value else get? rest wanted

def set : KeyedList κ α → κ → α → KeyedList κ α
  | [], wanted, new => [(wanted, new)]
  | (key, value) :: rest, wanted, new =>
      if key = wanted then (key, new) :: rest else (key, value) :: set rest wanted new

def erase : KeyedList κ α → κ → KeyedList κ α
  | [], _ => []
  | (key, value) :: rest, unwanted =>
      if key = unwanted then erase rest unwanted else (key, value) :: erase rest unwanted

def contains (entries : KeyedList κ α) (wanted : κ) : Bool :=
  (entries.get? wanted).isSome

def keys (entries : KeyedList κ α) : List κ :=
  entries.map Prod.fst

@[simp]
theorem get?_nil (wanted : κ) : get? ([] : KeyedList κ α) wanted = none :=
  rfl

theorem get?_cons (key wanted : κ) (value : α) (rest : KeyedList κ α) :
    get? ((key, value) :: rest) wanted =
      if key = wanted then some value else get? rest wanted :=
  rfl

omit [DecidableEq κ] in
@[simp]
theorem keys_cons (entry : κ × α) (rest : KeyedList κ α) :
    keys (entry :: rest) = entry.1 :: keys rest :=
  rfl

theorem get?_eq_none_iff {entries : KeyedList κ α} {wanted : κ} :
    entries.get? wanted = none ↔ wanted ∉ entries.keys := by
  induction entries with
  | nil => simp [keys]
  | cons entry rest ih =>
      obtain ⟨key, value⟩ := entry
      by_cases equal : key = wanted
      · simp [get?_cons, equal]
      · simp [get?_cons, equal, ih, Ne.symm equal]

theorem mem_keys_iff {entries : KeyedList κ α} {wanted : κ} :
    wanted ∈ entries.keys ↔ entries.get? wanted ≠ none := by
  rw [Ne, get?_eq_none_iff, not_not]

theorem mem_keys_of_get? {entries : KeyedList κ α} {wanted : κ} {value : α}
    (found : entries.get? wanted = some value) : wanted ∈ entries.keys := by
  rw [mem_keys_iff, found]
  exact Option.some_ne_none value

theorem contains_iff {entries : KeyedList κ α} {wanted : κ} :
    entries.contains wanted = true ↔ wanted ∈ entries.keys := by
  rw [contains, ← not_iff_not, ← get?_eq_none_iff]
  simp

theorem get?_map {β : Type*} (entries : KeyedList κ α) (change : α → β) (wanted : κ) :
    get? (entries.map fun entry => (entry.1, change entry.2)) wanted =
      (entries.get? wanted).map change := by
  induction entries with
  | nil => rfl
  | cons entry rest ih =>
      obtain ⟨key, value⟩ := entry
      rw [List.map_cons, get?_cons, get?_cons, ih]
      split <;> rfl

/-- The entries that a function gives to some keys. -/
theorem get?_map_key (keys : List κ) (value : κ → α) (wanted : κ) :
    get? (keys.map fun key => (key, value key)) wanted =
      if wanted ∈ keys then some (value wanted) else none := by
  induction keys with
  | nil => rfl
  | cons key rest ih =>
      rw [List.map_cons, get?_cons]
      by_cases same : key = wanted
      · simp [same]
      · simp [same, ih, Ne.symm same]

theorem mem_of_get? {entries : KeyedList κ α} {wanted : κ} {value : α}
    (found : entries.get? wanted = some value) : (wanted, value) ∈ entries := by
  induction entries with
  | nil => cases found
  | cons entry rest ih =>
      obtain ⟨key, other⟩ := entry
      rw [get?_cons] at found
      split at found
      · rename_i equal
        cases found
        subst equal
        exact List.mem_cons_self
      · exact List.mem_cons_of_mem _ (ih found)

theorem get?_of_mem {entries : KeyedList κ α} (distinct : entries.keys.Nodup)
    {wanted : κ} {value : α} (member : (wanted, value) ∈ entries) :
    entries.get? wanted = some value := by
  induction entries with
  | nil => simp at member
  | cons entry rest ih =>
      obtain ⟨key, other⟩ := entry
      simp only [keys_cons, List.nodup_cons] at distinct
      rcases List.mem_cons.mp member with equal | later
      · cases equal
        simp [get?_cons]
      · have different : key ≠ wanted := by
          rintro rfl
          exact distinct.1 (List.mem_map_of_mem later)
        simp [get?_cons, different, ih distinct.2 later]

@[simp]
theorem get?_set_self (entries : KeyedList κ α) (wanted : κ) (new : α) :
    (entries.set wanted new).get? wanted = some new := by
  induction entries with
  | nil => simp [set, get?_cons]
  | cons entry rest ih =>
      obtain ⟨key, value⟩ := entry
      by_cases equal : key = wanted <;> simp [set, get?_cons, equal, ih]

theorem get?_set_of_ne (entries : KeyedList κ α) {written wanted : κ}
    (different : written ≠ wanted) (new : α) :
    (entries.set written new).get? wanted = entries.get? wanted := by
  induction entries with
  | nil => simp [set, get?_cons, different]
  | cons entry rest ih =>
      obtain ⟨key, value⟩ := entry
      by_cases equal : key = written
      · simp [set, get?_cons, equal, different]
      · simp [set, get?_cons, equal, ih]

theorem get?_set (entries : KeyedList κ α) (written wanted : κ) (new : α) :
    (entries.set written new).get? wanted =
      if written = wanted then some new else entries.get? wanted := by
  by_cases equal : written = wanted
  · subst equal
    simp
  · simp [get?_set_of_ne _ equal, equal]

/-- A new key goes to the end. -/
theorem set_of_notMem {entries : KeyedList κ α} {wanted : κ}
    (absent : wanted ∉ entries.keys) (new : α) :
    entries.set wanted new = entries ++ [(wanted, new)] := by
  induction entries with
  | nil => rfl
  | cons entry rest ih =>
      obtain ⟨key, value⟩ := entry
      simp only [keys_cons, List.mem_cons, not_or] at absent
      simp [set, Ne.symm absent.1, ih absent.2]

theorem keys_set (entries : KeyedList κ α) (written : κ) (new : α) :
    (entries.set written new).keys =
      if written ∈ entries.keys then entries.keys else entries.keys ++ [written] := by
  induction entries with
  | nil => simp [set, keys]
  | cons entry rest ih =>
      obtain ⟨key, value⟩ := entry
      by_cases equal : key = written
      · simp [set, equal]
      · simp only [set, equal, if_false, keys_cons, ih, List.mem_cons, Ne.symm equal, false_or]
        split <;> rfl

theorem mem_keys_set {entries : KeyedList κ α} {written wanted : κ} {new : α} :
    wanted ∈ (entries.set written new).keys ↔ wanted = written ∨ wanted ∈ entries.keys := by
  rw [keys_set]
  split
  · constructor
    · exact Or.inr
    · rintro (rfl | member) <;> assumption
  · simp [or_comm]

theorem get?_erase (entries : KeyedList κ α) (unwanted wanted : κ) :
    (entries.erase unwanted).get? wanted =
      if unwanted = wanted then none else entries.get? wanted := by
  induction entries with
  | nil => simp [erase]
  | cons entry rest ih =>
      obtain ⟨key, value⟩ := entry
      by_cases removed : key = unwanted
      · subst removed
        simp only [erase, if_true, ih, get?_cons]
        split <;> rfl
      · simp only [erase, removed, if_false, get?_cons, ih]
        by_cases here : key = wanted
        · simp [here, Ne.symm (fun equal => removed (here.trans equal) : wanted ≠ unwanted)]
        · simp [here]

theorem get?_append (first second : KeyedList κ α) (wanted : κ) :
    get? (first ++ second) wanted = (first.get? wanted).or (second.get? wanted) := by
  induction first with
  | nil => rfl
  | cons entry rest ih =>
      obtain ⟨key, value⟩ := entry
      rw [List.cons_append, get?_cons, get?_cons, ih]
      split <;> rfl

/-- The order of distinct keys does not matter. -/
theorem get?_of_perm {entries others : KeyedList κ α} (distinct : entries.keys.Nodup)
    (perm : entries.Perm others) (wanted : κ) : entries.get? wanted = others.get? wanted := by
  have otherDistinct : others.keys.Nodup := (perm.map Prod.fst).nodup_iff.mp distinct
  cases found : entries.get? wanted with
  | none =>
      have absent := get?_eq_none_iff.mp found
      exact (get?_eq_none_iff.mpr fun member =>
        absent ((perm.map Prod.fst).mem_iff.mpr member)).symm
  | some value =>
      exact (get?_of_mem otherDistinct (perm.mem_iff.mp (mem_of_get? found))).symm

theorem nodup_keys_set {entries : KeyedList κ α} (distinct : entries.keys.Nodup)
    (written : κ) (new : α) : (entries.set written new).keys.Nodup := by
  rw [keys_set]
  split
  · exact distinct
  · rename_i absent
    exact List.nodup_append.mpr ⟨distinct, by simp, by
      rintro first member second rfl_member rfl
      simp only [List.mem_singleton] at rfl_member
      exact absent (rfl_member ▸ member)⟩

theorem erase_of_notMem {entries : KeyedList κ α} {unwanted : κ}
    (absent : unwanted ∉ entries.keys) : entries.erase unwanted = entries := by
  induction entries with
  | nil => rfl
  | cons entry rest ih =>
      obtain ⟨key, value⟩ := entry
      simp only [keys_cons, List.mem_cons, not_or] at absent
      simp [erase, Ne.symm absent.1, ih absent.2]

theorem keys_erase_sublist (entries : KeyedList κ α) (unwanted : κ) :
    (entries.erase unwanted).keys.Sublist entries.keys := by
  induction entries with
  | nil => exact List.Sublist.refl _
  | cons entry rest ih =>
      obtain ⟨key, value⟩ := entry
      by_cases removed : key = unwanted
      · simp only [erase, removed, if_true]
        exact ih.cons _
      · simp only [erase, removed, if_false]
        exact ih.cons_cons _

section Inverse

variable {ι : Type*} [DecidableEq ι] {forward : KeyedList κ ι} {backward : KeyedList ι κ}
  {key : κ} {value : ι}

/-- Two maps that undo each other. -/
def Inverse (forward : KeyedList κ ι) (backward : KeyedList ι κ) : Prop :=
  ∀ key value, forward.get? key = some value ↔ backward.get? value = some key

theorem Inverse.erase (inverse : Inverse forward backward)
    (found : forward.get? key = some value) :
    Inverse (forward.erase key) (backward.erase value) := by
  intro other image
  have back := (inverse key value).mp found
  rw [get?_erase, get?_erase]
  by_cases same : key = other
  · subst same
    rw [if_pos rfl]
    by_cases sameImage : value = image
    · rw [if_pos sameImage]
      simp
    · rw [if_neg sameImage, ← inverse, found]
      simp [sameImage]
  · rw [if_neg same, inverse]
    by_cases sameImage : value = image
    · subst sameImage
      rw [if_pos rfl, back]
      simp [same]
    · rw [if_neg sameImage]

/-- A key and a value that are both new may be added. -/
theorem Inverse.set (inverse : Inverse forward backward) (newKey : forward.get? key = none)
    (newValue : backward.get? value = none) :
    Inverse (forward.set key value) (backward.set value key) := by
  intro other image
  rw [get?_set, get?_set]
  by_cases same : key = other
  · subst same
    rw [if_pos rfl]
    by_cases sameImage : value = image
    · simp [sameImage]
    · rw [if_neg sameImage, ← inverse, newKey]
      simp [sameImage]
  · rw [if_neg same, inverse]
    by_cases sameImage : value = image
    · subst sameImage
      rw [if_pos rfl, newValue]
      simp [same]
    · rw [if_neg sameImage]

end Inverse

section Total

variable (measure : α → Nat)

/-- The sum of a measure over the values. -/
def total (entries : KeyedList κ α) : Nat :=
  entries.foldr (fun entry sum => measure entry.2 + sum) 0

omit [DecidableEq κ] in
@[simp]
theorem total_cons (entry : κ × α) (rest : KeyedList κ α) :
    total measure (entry :: rest) = measure entry.2 + total measure rest :=
  rfl

theorem total_set_of_notMem {entries : KeyedList κ α} {wanted : κ}
    (absent : wanted ∉ entries.keys) (new : α) :
    total measure (entries.set wanted new) = total measure entries + measure new := by
  rw [set_of_notMem absent]
  clear absent
  induction entries with
  | nil => exact (Nat.zero_add _).symm
  | cons entry rest ih =>
      rw [List.cons_append, total_cons, total_cons, ih, Nat.add_assoc]

/-- Erasing a key takes its value out of the sum. -/
theorem total_erase {entries : KeyedList κ α} (distinct : entries.keys.Nodup) {unwanted : κ}
    {value : α} (found : entries.get? unwanted = some value) :
    total measure (entries.erase unwanted) + measure value = total measure entries := by
  induction entries with
  | nil => cases found
  | cons entry rest ih =>
      obtain ⟨key, other⟩ := entry
      simp only [keys_cons, List.nodup_cons] at distinct
      by_cases removed : key = unwanted
      · subst removed
        simp only [get?_cons, if_true, Option.some.injEq] at found
        subst found
        simp only [erase, if_true, erase_of_notMem distinct.1, total_cons]
        omega
      · simp only [get?_cons, removed, if_false] at found
        have later := ih distinct.2 found
        simp only [erase, removed, if_false, total_cons]
        omega

end Total

/-- Write every entry of a second map, in its iteration order. -/
def setAll (entries updates : KeyedList κ α) : KeyedList κ α :=
  updates.foldl (fun current update => current.set update.1 update.2) entries

@[simp]
theorem setAll_nil (entries : KeyedList κ α) : entries.setAll [] = entries :=
  rfl

@[simp]
theorem setAll_cons (entries : KeyedList κ α) (update : κ × α) (updates : KeyedList κ α) :
    entries.setAll (update :: updates) = (entries.set update.1 update.2).setAll updates :=
  rfl

/-- Distinct updates win over the entries that were there. -/
theorem get?_setAll {entries updates : KeyedList κ α} (distinct : updates.keys.Nodup)
    (wanted : κ) :
    (entries.setAll updates).get? wanted = (updates.get? wanted).or (entries.get? wanted) := by
  induction updates generalizing entries with
  | nil => rfl
  | cons update updates ih =>
      obtain ⟨key, value⟩ := update
      simp only [keys_cons, List.nodup_cons] at distinct
      rw [setAll_cons, ih distinct.2, get?_set, get?_cons]
      by_cases equal : key = wanted
      · subst equal
        simp [get?_eq_none_iff.mpr distinct.1]
      · simp [equal]

/-- The order in which distinct updates are written does not matter. -/
theorem get?_setAll_of_perm {entries updates ordered : KeyedList κ α}
    (distinct : updates.keys.Nodup) (order : updates.Perm ordered) (wanted : κ) :
    (entries.setAll ordered).get? wanted = (updates.get? wanted).or (entries.get? wanted) := by
  have orderedDistinct : ordered.keys.Nodup := (order.map Prod.fst).nodup_iff.mp distinct
  rw [get?_setAll orderedDistinct, get?_of_perm distinct order]

/-- Writing new, distinct keys appends the entries. -/
theorem setAll_of_disjoint {entries updates : KeyedList κ α}
    (distinct : (entries ++ updates).keys.Nodup) :
    entries.setAll updates = entries ++ updates := by
  induction updates generalizing entries with
  | nil => simp
  | cons update updates ih =>
      have absent : update.1 ∉ entries.keys := by
        intro member
        simp only [keys, List.map_append, List.map_cons, List.nodup_append] at distinct
        exact distinct.2.2 _ member _ (by simp) rfl
      have moved : entries ++ update :: updates = entries ++ [update] ++ updates := by simp
      rw [setAll_cons, set_of_notMem absent, moved, ih (by rwa [moved] at distinct)]

end KeyedList

end Libjaypea
