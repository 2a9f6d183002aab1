import Libjaypea.KeyedList
import Mathlib.Data.List.Induction

/-!
# The newest write of a key

A history is a list of requests, the oldest first, of which some write a value
under a key.  A table tracks the history when it holds, under each key, what
was written there last.
-/

namespace Libjaypea

variable {Request κ α : Type*}

/-- What holds of every request after those before it holds so when one is added. -/
theorem forall_split_append {Holds : List Request → Request → Prop} {history : List Request}
    {request : Request}
    (holds : ∀ before middle after, history = before ++ middle :: after → Holds before middle)
    (last : Holds history request) (before : List Request) (middle : Request)
    (after : List Request) (split : history ++ [request] = before ++ middle :: after) :
    Holds before middle := by
  cases after using List.reverseRecOn with
  | nil =>
      obtain ⟨rfl, same⟩ := List.append_inj' split rfl
      cases same
      exact last
  | append_singleton after final =>
      rw [← List.cons_append, ← List.append_assoc] at split
      obtain ⟨earlier, _⟩ := List.append_inj' split rfl
      exact holds before middle after earlier

/-- The last request that writes the key writes this value. -/
def Newest (Writes : Request → κ → α → Prop) (history : List Request) (key : κ) (value : α) :
    Prop :=
  ∃ before request after, history = before ++ request :: after ∧ Writes request key value ∧
    ∀ later ∈ after, ∀ other, ¬ Writes later key other

variable {Writes : Request → κ → α → Prop} {history : List Request} {request : Request}
  {key : κ} {value : α}

theorem not_newest_nil : ¬ Newest Writes [] key value := by
  rintro ⟨before, request, after, split, _⟩
  simp at split

theorem newest_append_of_writes (writes : Writes request key value) :
    Newest Writes (history ++ [request]) key value :=
  ⟨history, request, [], rfl, writes, fun _ member => absurd member List.not_mem_nil⟩

/-- Either the last request writes the key, or the requests before it tell. -/
theorem newest_append_iff : Newest Writes (history ++ [request]) key value ↔
    Writes request key value ∨
      (∀ other, ¬ Writes request key other) ∧ Newest Writes history key value := by
  constructor
  · rintro ⟨before, writer, after, split, writes, last⟩
    cases after using List.reverseRecOn with
    | nil =>
        obtain ⟨_, same⟩ := List.append_inj' split rfl
        cases same
        exact .inl writes
    | append_singleton after final =>
        rw [← List.cons_append, ← List.append_assoc] at split
        obtain ⟨earlier, same⟩ := List.append_inj' split rfl
        cases same
        right
        constructor
        · apply last
          exact List.mem_append_right _ (List.mem_singleton_self _)
        · refine ⟨before, writer, after, earlier, writes, ?_⟩
          intro later member
          exact last later (List.mem_append_left _ member)
  · rintro (writes | ⟨silent, before, writer, after, rfl, writes, last⟩)
    · exact newest_append_of_writes writes
    · refine ⟨before, writer, after ++ [request], by simp, writes, ?_⟩
      intro later member
      rcases List.mem_append.mp member with earlier | final
      · exact last later earlier
      · cases List.mem_singleton.mp final
        exact silent

/-- The table holds the newest value of every key. -/
def Tracks [DecidableEq κ] (Writes : Request → κ → α → Prop) (history : List Request)
    (table : KeyedList κ α) : Prop :=
  ∀ key value, table.get? key = some value ↔ Newest Writes history key value

section Tracks

variable [DecidableEq κ] {table : KeyedList κ α}

theorem tracks_nil : Tracks Writes [] ([] : KeyedList κ α) := by
  intro key value
  rw [KeyedList.get?_nil]
  exact iff_of_false (by simp) not_newest_nil

theorem Tracks.silent (tracks : Tracks Writes history table)
    (silent : ∀ key value, ¬ Writes request key value) :
    Tracks Writes (history ++ [request]) table := by
  intro key value
  rw [tracks key value, newest_append_iff]
  constructor
  · exact fun newest => .inr ⟨silent key, newest⟩
  · rintro (writes | ⟨_, newest⟩)
    · exact absurd writes (silent key value)
    · exact newest

/-- A request that writes one key is carried out by `set`. -/
theorem Tracks.set (tracks : Tracks Writes history table)
    (only : ∀ other changed, Writes request other changed ↔ other = key ∧ changed = value) :
    Tracks Writes (history ++ [request]) (table.set key value) := by
  intro wanted found
  rw [newest_append_iff, only, KeyedList.get?_set]
  by_cases here : key = wanted
  · subst here
    rw [if_pos rfl, Option.some_inj]
    constructor
    · rintro rfl
      exact .inl ⟨rfl, rfl⟩
    · rintro (⟨_, same⟩ | ⟨silent, _⟩)
      · exact same.symm
      · exact absurd ((only key value).mpr ⟨rfl, rfl⟩) (silent value)
  · rw [if_neg here, tracks wanted found]
    constructor
    · intro newest
      refine .inr ⟨fun other writes => ?_, newest⟩
      exact here ((only wanted other).mp writes).1.symm
    · rintro (⟨same, _⟩ | ⟨_, newest⟩)
      · exact absurd same.symm here
      · exact newest

theorem Tracks.get?_eq_none (tracks : Tracks Writes history table)
    (never : ∀ value, ¬ Newest Writes history key value) : table.get? key = none := by
  apply Option.eq_none_iff_forall_ne_some.mpr
  intro value found
  exact never value ((tracks key value).mp found)

end Tracks

end Libjaypea
