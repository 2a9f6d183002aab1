import Mathlib.Data.List.Basic

/-!
# Chunks of a list

A list cut into chunks of a given size; the last chunk is shorter, and is
empty when the size divides the length.
-/

namespace Libjaypea

namespace Chunks

variable {α : Type*} {limit : Nat}

def chunks (limit : Nat) (data : List α) : List (List α) :=
  if _ : 0 < limit ∧ limit ≤ data.length then
    data.take limit :: chunks limit (data.drop limit)
  else [data]
termination_by data.length
decreasing_by
  rw [List.length_drop]
  omega

theorem chunks_of_lt {data : List α} (short : data.length < limit) :
    chunks limit data = [data] := by
  rw [chunks, dif_neg]
  omega

theorem chunks_of_le (positive : 0 < limit) {data : List α} (long : limit ≤ data.length) :
    chunks limit data = data.take limit :: chunks limit (data.drop limit) := by
  rw [chunks, dif_pos ⟨positive, long⟩]

/-- Induction on the number of chunks. -/
theorem chunk_induction (positive : 0 < limit) {motive : List α → Prop}
    (last : ∀ data, data.length < limit → motive data)
    (more : ∀ data, limit ≤ data.length → motive (data.drop limit) → motive data)
    (data : List α) : motive data := by
  induction length : data.length using Nat.strongRecOn generalizing data with
  | ind size ih =>
      by_cases short : data.length < limit
      · exact last data short
      · apply more data (by omega)
        apply ih (data.drop limit).length _ _ rfl
        rw [List.length_drop]
        omega

theorem flatten_chunks (positive : 0 < limit) (data : List α) :
    (chunks limit data).flatten = data := by
  induction data using chunk_induction positive with
  | last data short => rw [chunks_of_lt short, List.flatten_singleton]
  | more data long ih =>
      rw [chunks_of_le positive long, List.flatten_cons, ih, List.take_append_drop]

theorem length_le_of_mem_chunks (positive : 0 < limit) {data chunk : List α}
    (member : chunk ∈ chunks limit data) : chunk.length ≤ limit := by
  induction data using chunk_induction positive with
  | last data short =>
      rw [chunks_of_lt short, List.mem_singleton] at member
      rw [member]
      exact Nat.le_of_lt short
  | more data long ih =>
      rw [chunks_of_le positive long] at member
      rcases List.mem_cons.mp member with rfl | later
      · exact List.length_take_le limit data
      · exact ih later

end Chunks

end Libjaypea
