import Mathlib.Algebra.Order.Group.Defs
import Mathlib.Data.List.Induction

/-!
# Calls that keep a distance

A limiter admits a call when the last call that it admitted lies at least a
minimum back.  Over calls at times that do not go back, any two admitted calls
are that far apart.
-/

namespace Libjaypea

namespace Spacing

variable {Time : Type*} [AddCommGroup Time] [LinearOrder Time]

/-- The limiter admits a call at this time. -/
def due (minimum : Time) (last : Option Time) (now : Time) : Bool :=
  match last with
  | none => true
  | some last => !decide (now - last < minimum)

/-- The last admitted call of a sequence. -/
def lastCall (minimum : Time) (times : List Time) : Option Time :=
  times.foldl (fun last now => if due minimum last now then some now else last) none

variable {minimum : Time}

@[simp]
theorem lastCall_nil : lastCall minimum [] = none :=
  rfl

theorem lastCall_snoc (times : List Time) (now : Time) :
    lastCall minimum (times ++ [now]) =
      if due minimum (lastCall minimum times) now then some now else lastCall minimum times := by
  rw [lastCall, List.foldl_append]
  rfl

theorem due_eq_false_iff {last : Option Time} {now : Time} :
    due minimum last now = false ↔ ∃ before, last = some before ∧ now - before < minimum := by
  cases last <;> simp [due]

/-- The last admitted call was admitted. -/
theorem admitted_of_lastCall {times : List Time} {last : Time}
    (called : lastCall minimum times = some last) :
    ∃ earlier later, times = earlier ++ last :: later ∧
      due minimum (lastCall minimum earlier) last = true := by
  induction times using List.reverseRecOn with
  | nil => cases called
  | append_singleton times now ih =>
      rw [lastCall_snoc] at called
      split at called
      · rename_i admitted
        cases called
        exact ⟨times, [], rfl, admitted⟩
      · obtain ⟨earlier, later, rfl, admitted⟩ := ih called
        exact ⟨earlier, later ++ [now], by simp, admitted⟩

/-- The last admitted call does not lie before one that was admitted. -/
theorem le_lastCall {earlier later : List Time} {admitted : Time}
    (ordered : (admitted :: later).Pairwise (· ≤ ·))
    (due : due minimum (lastCall minimum earlier) admitted = true) :
    ∃ last, lastCall minimum (earlier ++ admitted :: later) = some last ∧ admitted ≤ last := by
  induction later using List.reverseRecOn with
  | nil =>
      refine ⟨admitted, ?_, le_refl _⟩
      rw [lastCall_snoc, if_pos due]
  | append_singleton later now ih =>
      rw [← List.cons_append, List.pairwise_append] at ordered
      obtain ⟨last, called, after⟩ := ih ordered.1
      have regrouped : earlier ++ admitted :: (later ++ [now]) =
          (earlier ++ admitted :: later) ++ [now] := by simp
      rw [regrouped, lastCall_snoc, called]
      split
      · exact ⟨now, rfl, ordered.2.2 admitted List.mem_cons_self now (List.mem_singleton.mpr rfl)⟩
      · exact ⟨last, rfl, after⟩

/-- Two admitted calls are at least the minimum apart. -/
theorem spaced [IsOrderedAddMonoid Time] {earlier between : List Time} {first second : Time}
    (ordered : (first :: between).Pairwise (· ≤ ·))
    (firstDue : due minimum (lastCall minimum earlier) first = true)
    (secondDue : due minimum (lastCall minimum (earlier ++ first :: between)) second = true) :
    minimum ≤ second - first := by
  obtain ⟨last, called, after⟩ := le_lastCall ordered firstDue
  rw [called, due, Bool.not_eq_true', decide_eq_false_iff_not, not_lt] at secondDue
  calc
    minimum ≤ second - last := secondDue
    _ ≤ second - first := sub_le_sub_left after second

end Spacing

end Libjaypea
