import Mathlib.Data.List.Basic

/-!
# A bounded list, the newest entry first

An entry is put in front, and the last one is dropped when there are too many.
-/

namespace Libjaypea

namespace Recent

variable {α : Type*}

/-- `push_front`, and `pop_back` beyond the limit. -/
def push (limit : Nat) (entries : List α) (entry : α) : List α :=
  let longer := entry :: entries
  if longer.length > limit then longer.dropLast else longer

/-- Only the newest entries are ever seen. -/
theorem push_take (limit : Nat) (older : List α) (entry : α) :
    push limit (older.take limit) entry = (entry :: older).take limit := by
  rw [push]
  split
  · rename_i long
    rw [List.length_cons, List.length_take] at long
    have full : limit ≤ older.length := by omega
    rw [List.dropLast_eq_take, List.length_cons, List.length_take_of_le full, Nat.add_sub_cancel]
    cases limit with
    | zero => rfl
    | succ limit =>
        rw [List.take_succ_cons, List.take_succ_cons, List.take_take,
          Nat.min_eq_left (Nat.le_succ limit)]
  · rename_i short
    rw [List.length_cons, List.length_take] at short
    have few : (entry :: older).length ≤ limit := by
      rw [List.length_cons]
      omega
    rw [List.take_of_length_le few, List.take_of_length_le (Nat.le_of_succ_le few)]

/-- One entry more in the order of arrival. -/
theorem push_reverse (limit : Nat) (arrived : List α) (entry : α) :
    push limit (arrived.reverse.take limit) entry = (arrived ++ [entry]).reverse.take limit := by
  rw [push_take, List.reverse_append, List.reverse_singleton, List.singleton_append]

theorem head?_push {limit : Nat} (positive : 0 < limit) (entries : List α) (entry : α) :
    (push limit entries entry).head? = some entry := by
  rw [push]
  split
  · rename_i long
    have others : entries ≠ [] := by
      rintro rfl
      rw [List.length_singleton] at long
      omega
    rw [List.dropLast_cons_of_ne_nil others]
    rfl
  · rfl

end Recent

end Libjaypea
