import Mathlib.Data.List.Infix
import Mathlib.Data.List.Basic

/-!
# Replacing a pattern in a list

The occurrences of a pattern are replaced from left to right; what is put in
is not searched again.  That no occurrence begins in a part of a list is a
recursive condition, so that lists are searched part by part.
-/

namespace Libjaypea

namespace Replacement

variable {α : Type*}

/-- No occurrence of the pattern begins in `front` when `back` follows it. -/
def Free (pattern : List α) : List α → List α → Prop
  | [], _ => True
  | first :: front, back => ¬ pattern <+: first :: (front ++ back) ∧ Free pattern front back

/-- The list with every occurrence of the pattern replaced. -/
def replaced [DecidableEq α] (pattern replacement : List α) : List α → List α
  | [] => []
  | first :: rest =>
      if pattern ≠ [] ∧ pattern <+: first :: rest then
        replacement ++ replaced pattern replacement ((first :: rest).drop pattern.length)
      else first :: replaced pattern replacement rest
termination_by source => source.length
decreasing_by
  · rename_i found
    have positive := List.length_pos_iff.mpr found.1
    rw [List.length_drop, List.length_cons]
    omega
  · exact Nat.lt_succ_self _

section Free

variable {pattern : List α}

@[simp]
theorem free_nil (back : List α) : Free pattern [] back :=
  trivial

theorem free_cons {first : α} {front back : List α} :
    Free pattern (first :: front) back ↔
      ¬ pattern <+: first :: (front ++ back) ∧ Free pattern front back :=
  Iff.rfl

theorem free_append {first second back : List α} :
    Free pattern (first ++ second) back ↔
      Free pattern first (second ++ back) ∧ Free pattern second back := by
  induction first with
  | nil => simp
  | cons head tail ih =>
      rw [List.cons_append, free_cons, free_cons, ih, List.append_assoc, and_assoc]

/-- An element that the pattern does not begin with. -/
theorem not_prefix_cons {start first : α} {rest : List α} (different : first ≠ start)
    (tail : List α) : ¬ start :: tail <+: first :: rest := by
  intro found
  exact different (List.cons_prefix_cons.mp found).1.symm

theorem free_of_notMem {start : α} {tail front : List α} (absent : start ∉ front)
    (back : List α) : Free (start :: tail) front back := by
  induction front with
  | nil => trivial
  | cons first front ih =>
      rw [List.mem_cons, not_or] at absent
      exact ⟨not_prefix_cons (Ne.symm absent.1) tail, ih absent.2⟩

/-- A prefix of two parts lies in the first or reaches into the second. -/
theorem prefix_append_cases {first second : List α} (found : pattern <+: first ++ second) :
    pattern <+: first ∨ ∃ rest, rest ≠ [] ∧ pattern = first ++ rest ∧ rest <+: second := by
  obtain ⟨back, equal⟩ := found
  rcases List.append_eq_append_iff.mp equal with ⟨rest, rfl, -⟩ | ⟨rest, rfl, rfl⟩
  · exact .inl (List.prefix_append pattern rest)
  · by_cases nothing : rest = []
    · rw [nothing, List.append_nil]
      exact .inl (List.prefix_refl first)
    · exact .inr ⟨rest, nothing, rfl, List.prefix_append rest back⟩

/-- A longer pattern begins nowhere else. -/
theorem Free.lengthen {start front back : List α} (free : Free start front back)
    (longer : start <+: pattern) : Free pattern front back := by
  induction front with
  | nil => trivial
  | cons first front ih => exact ⟨fun found => free.1 (longer.trans found), ih free.2⟩

theorem free_iff_absent (nonempty : pattern ≠ []) {list : List α} :
    Free pattern list [] ↔ ¬ pattern <:+: list := by
  induction list with
  | nil =>
      rw [List.infix_nil]
      exact iff_of_true trivial nonempty
  | cons first rest ih =>
      rw [free_cons, ih, List.append_nil, List.infix_cons_iff, not_or]

/-- The occurrences of a pattern are behind the part that is free of it. -/
theorem Free.length_le {front back before behind : List α} (free : Free pattern front back)
    (equal : front ++ back = before ++ (pattern ++ behind)) : front.length ≤ before.length := by
  induction front generalizing before with
  | nil => exact Nat.zero_le _
  | cons first front ih =>
      cases before with
      | nil => exact absurd ⟨behind, equal.symm⟩ free.1
      | cons other before => exact Nat.succ_le_succ (ih free.2 (List.cons.inj equal).2)

theorem Free.of_append {front back behind : List α} (free : Free pattern front (back ++ behind)) :
    Free pattern front back := by
  induction front with
  | nil => trivial
  | cons first front ih =>
      refine ⟨fun found => free.1 (found.trans ?_), ih free.2⟩
      rw [← List.append_assoc]
      exact List.prefix_append (first :: (front ++ back)) behind

/-- An occurrence reaches no further than the pattern is long. -/
theorem Free.append {front back : List α} (free : Free pattern front back)
    (long : pattern.length ≤ back.length + 1) (behind : List α) :
    Free pattern front (back ++ behind) := by
  induction front with
  | nil => trivial
  | cons first front ih =>
      refine ⟨fun found => free.1 ?_, ih free.2⟩
      rw [← List.append_assoc, ← List.cons_append] at found
      apply List.prefix_of_prefix_length_le found (List.prefix_append _ behind)
      rw [List.length_cons, List.length_append]
      omega

/-- An occurrence does not reach an element that the pattern does not have. -/
theorem free_before_foreign {foreign : α} (absent : foreign ∉ pattern) {front : List α}
    (outside : ¬ pattern <:+: front) (back : List α) : Free pattern front (foreign :: back) := by
  induction front with
  | nil => trivial
  | cons first front ih =>
      rw [List.infix_cons_iff, not_or] at outside
      refine ⟨fun found => ?_, ih outside.2⟩
      rw [← List.cons_append] at found
      rcases prefix_append_cases found with inside | ⟨part, reaches, rfl, beyond⟩
      · exact outside.1 inside
      · obtain ⟨other, rest, rfl⟩ := List.exists_cons_of_ne_nil reaches
        have same : other = foreign := (List.cons_prefix_cons.mp beyond).1
        exact absent (same ▸ List.mem_append_right (first :: front) List.mem_cons_self)

/-- An occurrence that begins later is still one. -/
theorem Free.absent {front back : List α} (nonempty : pattern ≠ [])
    (free : Free pattern front back) : ¬ pattern <:+: front := by
  rw [← free_iff_absent nonempty]
  induction front with
  | nil => trivial
  | cons first front ih =>
      refine ⟨fun found => free.1 ?_, ih free.2⟩
      rw [List.append_nil] at found
      exact found.trans (List.prefix_append (first :: front) back)

end Free

section Replaced

variable [DecidableEq α] {pattern : List α} (replacement : List α)

theorem replaced_nil : replaced pattern replacement [] = [] := by
  rw [replaced]

theorem replaced_append_of_free {front back : List α} (free : Free pattern front back) :
    replaced pattern replacement (front ++ back) =
      front ++ replaced pattern replacement back := by
  induction front with
  | nil => rfl
  | cons first front ih =>
      rw [List.cons_append, replaced, if_neg fun found => free.1 found.2, ih free.2,
        List.cons_append]

theorem replaced_of_free {list : List α} (free : Free pattern list []) :
    replaced pattern replacement list = list := by
  have whole := replaced_append_of_free replacement free
  rwa [replaced_nil, List.append_nil] at whole

theorem replaced_append_pattern (nonempty : pattern ≠ []) (back : List α) :
    replaced pattern replacement (pattern ++ back) =
      replacement ++ replaced pattern replacement back := by
  cases pattern with
  | nil => exact absurd rfl nonempty
  | cons first rest =>
      have found : first :: rest ≠ [] ∧ first :: rest <+: first :: (rest ++ back) :=
        ⟨nonempty, List.prefix_append (first :: rest) back⟩
      rw [List.cons_append, replaced, if_pos found]
      congr 2
      exact @List.drop_left α (first :: rest) back

/-- Removing a pattern makes nothing longer. -/
theorem length_removed_le (pattern list : List α) :
    (replaced pattern [] list).length ≤ list.length := by
  induction length : list.length using Nat.strongRecOn generalizing list with
  | ind size ih =>
      cases list with
      | nil =>
          rw [replaced_nil]
          exact Nat.zero_le size
      | cons first rest =>
          rw [List.length_cons] at length
          rw [replaced]
          split
          · rename_i found
            have positive := List.length_pos_iff.mpr found.1
            have dropped : ((first :: rest).drop pattern.length).length < size := by
              rw [List.length_drop, List.length_cons]
              omega
            have shorter := ih _ dropped _ rfl
            rw [List.nil_append]
            omega
          · have shorter := ih rest.length (by omega) rest rfl
            rw [List.length_cons]
            omega

/-- Removing a pattern that occurs makes the list shorter. -/
theorem length_removed_lt (nonempty : pattern ≠ []) {front back : List α}
    (free : Free pattern front (pattern ++ back)) :
    (replaced pattern [] (front ++ (pattern ++ back))).length <
      (front ++ (pattern ++ back)).length := by
  have positive := List.length_pos_iff.mpr nonempty
  have shorter := length_removed_le pattern back
  rw [replaced_append_of_free [] free, replaced_append_pattern [] nonempty, List.nil_append]
  simp only [List.length_append]
  omega

end Replaced

/-! ## The pieces between the occurrences -/

/-- A list is cut at the leftmost occurrence of the pattern, and so is what lies
behind that occurrence. -/
inductive Cut (pattern : List α) : List α → List (List α) → Prop
  | last {list : List α} (absent : ¬ pattern <:+: list) : Cut pattern list [list]
  | next {piece back : List α} {pieces : List (List α)}
      (leftmost : Free pattern piece (pattern ++ back)) (later : Cut pattern back pieces) :
      Cut pattern (piece ++ (pattern ++ back)) (piece :: pieces)

section Cut

variable {pattern list : List α} {pieces others : List (List α)}

theorem exists_leftmost (occurs : pattern <:+: list) :
    ∃ piece back, list = piece ++ (pattern ++ back) ∧ Free pattern piece (pattern ++ back) := by
  induction list with
  | nil =>
      rw [List.infix_nil] at occurs
      exact ⟨[], [], by rw [occurs]; rfl, trivial⟩
  | cons first rest ih =>
      by_cases here : pattern <+: first :: rest
      · obtain ⟨back, equal⟩ := here
        exact ⟨[], back, equal.symm, trivial⟩
      · have later : pattern <:+: rest := (List.infix_cons_iff.mp occurs).resolve_left here
        obtain ⟨piece, back, rfl, free⟩ := ih later
        exact ⟨first :: piece, back, rfl, here, free⟩

theorem exists_cut (nonempty : pattern ≠ []) (list : List α) : ∃ pieces, Cut pattern list pieces := by
  induction length : list.length using Nat.strongRecOn generalizing list with
  | ind size ih =>
      by_cases occurs : pattern <:+: list
      · obtain ⟨piece, back, rfl, leftmost⟩ := exists_leftmost occurs
        have positive := List.length_pos_iff.mpr nonempty
        simp only [List.length_append] at length
        obtain ⟨pieces, later⟩ := ih back.length (by omega) back rfl
        exact ⟨piece :: pieces, .next leftmost later⟩
      · exact ⟨[list], .last occurs⟩

theorem Cut.ne_nil (cut : Cut pattern list pieces) : pieces ≠ [] := by
  cases cut <;> exact List.cons_ne_nil _ _

theorem Cut.unique (one : Cut pattern list pieces) (other : Cut pattern list others) :
    pieces = others := by
  induction one generalizing others with
  | @last whole absent =>
      cases other with
      | last => rfl
      | @next piece back =>
          exact absurd ⟨piece, back, List.append_assoc piece pattern back⟩ absent
  | @next piece back pieces leftmost later ih =>
      generalize equal : piece ++ (pattern ++ back) = whole at other
      cases other with
      | last absent =>
          exact absurd ⟨piece, back, by rw [List.append_assoc, equal]⟩ absent
      | @next start behind rest leftmostOther laterOther =>
          have length : piece.length = start.length :=
            Nat.le_antisymm (leftmost.length_le equal) (leftmostOther.length_le equal.symm)
          obtain ⟨rfl, same⟩ := List.append_inj equal length
          rw [List.append_cancel_left same] at ih
          rw [ih laterOther]

/-- The pieces are joined by the pattern. -/
theorem Cut.join (cut : Cut pattern list pieces) : pattern.intercalate pieces = list := by
  induction cut with
  | last => exact List.intercalate_singleton
  | next _ later ih => rw [List.intercalate_cons_of_ne_nil later.ne_nil, ih, List.append_assoc]

theorem Cut.replaced [DecidableEq α] (cut : Cut pattern list pieces) (nonempty : pattern ≠ [])
    (replacement : List α) :
    Replacement.replaced pattern replacement list = replacement.intercalate pieces := by
  induction cut with
  | last absent =>
      rw [replaced_of_free replacement ((free_iff_absent nonempty).mpr absent),
        List.intercalate_singleton]
  | next leftmost later ih =>
      rw [replaced_append_of_free replacement leftmost, replaced_append_pattern replacement nonempty,
        ih, List.intercalate_cons_of_ne_nil later.ne_nil, List.append_assoc]

end Cut

end Replacement

end Libjaypea
