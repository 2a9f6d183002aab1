import Libjaypea.Replacement

/-!
# What is left when a pattern is removed

The occurrences of a pattern that begins with an element it has once do not
overlap, and all of them are removed.  What is left can have the pattern again:
it does exactly when copies of the pattern had been put between its elements.
-/

namespace Libjaypea

namespace Replacement

variable {α : Type*}

/-- The text is the letters with copies of the pattern put between them. -/
inductive Padded (pattern : List α) : List α → List α → Prop
  | nil : Padded pattern [] []
  | cons {letters text : List α} (letter : α) (rest : Padded pattern letters text) :
      Padded pattern (letter :: letters) (letter :: text)
  | copy {letters text : List α} (rest : Padded pattern letters text) :
      Padded pattern letters (pattern ++ text)

/-- A part of the list is the pattern, from its first element to its last, with
at least one copy of the whole pattern between them. -/
def Splintered (first : α) (middle : List α) (last : α) (list : List α) : Prop :=
  ∃ front between back, list = front ++ first :: (between ++ last :: back) ∧
    Padded (first :: (middle ++ [last])) middle between ∧ between ≠ middle

/-- How often the pattern occurs. -/
def occurrences [DecidableEq α] (pattern list : List α) : Nat :=
  list.tails.countP fun tail => pattern <+: tail

section Padded

variable {pattern letters others text : List α}

theorem Padded.append {otherText : List α} (front : Padded pattern letters text)
    (back : Padded pattern others otherText) :
    Padded pattern (letters ++ others) (text ++ otherText) := by
  induction front with
  | nil => exact back
  | cons letter _ ih => exact .cons letter ih
  | copy _ ih =>
      rw [List.append_assoc]
      exact .copy ih

theorem Padded.split (padded : Padded pattern (letters ++ others) text) :
    ∃ front back, text = front ++ back ∧ Padded pattern letters front ∧
      Padded pattern others back := by
  generalize whole : letters ++ others = all at padded
  induction padded generalizing letters with
  | nil =>
      obtain ⟨rfl, rfl⟩ := List.append_eq_nil_iff.mp whole
      exact ⟨[], [], rfl, .nil, .nil⟩
  | @cons rest text letter padded ih =>
      cases letters with
      | nil =>
          rw [List.nil_append] at whole
          exact ⟨[], letter :: text, rfl, .nil, whole ▸ .cons letter padded⟩
      | cons head letters =>
          obtain ⟨rfl, later⟩ := List.cons.inj whole
          obtain ⟨front, back, rfl, first, second⟩ := ih later
          exact ⟨head :: front, back, rfl, .cons head first, second⟩
  | copy _ ih =>
      obtain ⟨front, back, rfl, first, second⟩ := ih whole
      exact ⟨pattern ++ front, back, (List.append_assoc ..).symm, .copy first, second⟩

/-- In front of a letter there are only copies of the pattern. -/
theorem Padded.uncons {letter : α} (padded : Padded pattern (letter :: letters) text) :
    ∃ before after, text = before ++ letter :: after ∧ Padded pattern [] before ∧
      Padded pattern letters after := by
  generalize whole : letter :: letters = all at padded
  induction padded with
  | nil => cases whole
  | @cons rest text other padded ih =>
      obtain ⟨rfl, rfl⟩ := List.cons.inj whole
      exact ⟨[], text, rfl, .nil, padded⟩
  | copy _ ih =>
      obtain ⟨before, after, rfl, copies, later⟩ := ih whole
      exact ⟨pattern ++ before, after, (List.append_assoc ..).symm, .copy copies, later⟩

theorem Splintered.append {first last : α} {middle list : List α}
    (splintered : Splintered first middle last list) (start : List α) :
    Splintered first middle last (start ++ list) := by
  obtain ⟨front, between, back, rfl, padded, more⟩ := splintered
  exact ⟨start ++ front, between, back, (List.append_assoc ..).symm, padded, more⟩

variable {first : α} {rest : List α}

/-- An occurrence that reaches to a place where the pattern can begin would have
its first element twice. -/
theorem not_prefix_append_first (once : first ∉ rest) {letter : α} {front : List α}
    (other : ¬ first :: rest <+: letter :: front) (back : List α) :
    ¬ first :: rest <+: letter :: (front ++ first :: back) := by
  intro found
  rcases prefix_append_cases (List.cons_append ▸ found) with inside | ⟨part, reaches, equal, beyond⟩
  · exact other inside
  · obtain ⟨start, later, rfl⟩ := List.exists_cons_of_ne_nil reaches
    have same : start = first := (List.cons_prefix_cons.mp beyond).1
    rw [List.cons_append, same] at equal
    apply once
    rw [(List.cons.inj equal).2]
    exact List.mem_append_right front List.mem_cons_self

/-- A text that begins with the letters has no copy in front of the last of them. -/
theorem Padded.eq_of_found {letters between : List α} {last : α}
    (padded : Padded (first :: rest) letters between) (outside : first ∉ letters)
    (differs : last ≠ first) {back : List α}
    (found : letters ++ [last] <+: between ++ last :: back) : between = letters := by
  induction padded with
  | nil => rfl
  | cons letter _ ih =>
      rw [List.mem_cons, not_or] at outside
      rw [List.cons_append, List.cons_append, List.cons_prefix_cons] at found
      rw [ih outside.2 found.2]
  | @copy letters text _ ih =>
      cases letters with
      | nil => exact absurd (List.cons_prefix_cons.mp found).1 differs
      | cons letter letters =>
          rw [List.mem_cons, not_or] at outside
          exact absurd (List.cons_prefix_cons.mp found).1 (Ne.symm outside.1)

end Padded

/-- A list is empty, begins with an occurrence of the pattern, or has a first
element where none begins. -/
@[elab_as_elim]
theorem occurrence_induction {first : α} {rest : List α} {motive : List α → Prop} (nil : motive [])
    (found : ∀ after, motive after → motive (first :: rest ++ after))
    (other : ∀ letter list, ¬ first :: rest <+: letter :: list → motive list →
      motive (letter :: list))
    (list : List α) : motive list := by
  induction length : list.length using Nat.strongRecOn generalizing list with
  | ind size ih =>
      cases list with
      | nil => exact nil
      | cons letter list =>
          by_cases begins : first :: rest <+: letter :: list
          · obtain ⟨after, equal⟩ := begins
            rw [← equal] at length ⊢
            simp only [List.length_append, List.length_cons] at length
            exact found after (ih after.length (by omega) after rfl)
          · rw [List.length_cons] at length
            exact other letter list begins (ih list.length (by omega) list rfl)

section Removed

variable [DecidableEq α]

variable {first : α} {rest : List α}

/-- Where an element of the pattern stands that is not its first, none begins. -/
theorem replaced_cons_of_ne {letter : α} (differs : letter ≠ first) (replacement list : List α) :
    replaced (first :: rest) replacement (letter :: list) =
      letter :: replaced (first :: rest) replacement list := by
  rw [replaced, if_neg fun found => not_prefix_cons differs rest found.2]

theorem replaced_cons_of_absent {list : List α} {letter : α}
    (other : ¬ first :: rest <+: letter :: list) (replacement : List α) :
    replaced (first :: rest) replacement (letter :: list) =
      letter :: replaced (first :: rest) replacement list := by
  rw [replaced, if_neg fun found => other found.2]

/-- What is removed are copies of the pattern. -/
theorem padded_removed (first : α) (rest list : List α) :
    Padded (first :: rest) (replaced (first :: rest) [] list) list := by
  induction list using @occurrence_induction _ first rest with
  | nil =>
      rw [replaced_nil]
      exact .nil
  | found after ih =>
      rw [replaced_append_pattern [] (List.cons_ne_nil first rest), List.nil_append]
      exact .copy ih
  | other letter list absent ih =>
      rw [replaced_cons_of_absent absent]
      exact .cons letter ih

theorem replaced_append_first (once : first ∉ rest) (replacement front back : List α) :
    replaced (first :: rest) replacement (front ++ first :: back) =
      replaced (first :: rest) replacement front ++
        replaced (first :: rest) replacement (first :: back) := by
  have nonempty := List.cons_ne_nil first rest
  induction front using @occurrence_induction _ first rest with
  | nil =>
      rw [replaced_nil]
      rfl
  | found after ih =>
      rw [List.append_assoc, replaced_append_pattern replacement nonempty, ih,
        replaced_append_pattern replacement nonempty, List.append_assoc]
  | other letter front absent ih =>
      rw [List.cons_append,
        replaced_cons_of_absent (not_prefix_append_first once absent back) replacement, ih,
        replaced_cons_of_absent absent replacement, List.cons_append]

/-- Behind the first letters of a padded text, its copies are removed. -/
theorem Padded.removed {letters between : List α} {last : α}
    (padded : Padded (first :: rest) letters between) (outside : first ∉ letters)
    (differs : last ≠ first) (back : List α) :
    replaced (first :: rest) [] (between ++ last :: back) =
      letters ++ last :: replaced (first :: rest) [] back := by
  induction padded with
  | nil => exact replaced_cons_of_ne differs [] back
  | cons letter _ ih =>
      rw [List.mem_cons, not_or] at outside
      rw [List.cons_append, replaced_cons_of_ne (Ne.symm outside.1), ih outside.2, List.cons_append]
  | copy _ ih =>
      rw [List.append_assoc, replaced_append_pattern [] (List.cons_ne_nil first rest), ih outside,
        List.nil_append]

variable {middle : List α} {last : α}

theorem Splintered.infix_removed (once : first ∉ middle ++ [last]) {list : List α}
    (splintered : Splintered first middle last list) :
    first :: (middle ++ [last]) <:+: replaced (first :: (middle ++ [last])) [] list := by
  obtain ⟨front, between, back, rfl, padded, more⟩ := splintered
  rw [List.mem_append, List.mem_singleton, not_or] at once
  have differs : last ≠ first := Ne.symm once.2
  have absent : ¬ first :: (middle ++ [last]) <+: first :: (between ++ last :: back) := by
    intro found
    exact more (padded.eq_of_found once.1 differs (List.cons_prefix_cons.mp found).2)
  refine ⟨replaced (first :: (middle ++ [last])) [] front,
    replaced (first :: (middle ++ [last])) [] back, ?_⟩
  rw [replaced_append_first (by simp [once.1, once.2]), replaced_cons_of_absent absent,
    padded.removed once.1 differs]
  simp

theorem splintered_of_infix_removed {list : List α}
    (left : first :: (middle ++ [last]) <:+: replaced (first :: (middle ++ [last])) [] list) :
    Splintered first middle last list := by
  induction list using @occurrence_induction _ first (middle ++ [last]) with
  | nil =>
      rw [replaced_nil, List.infix_nil] at left
      cases left
  | found after ih =>
      rw [replaced_append_pattern [] (List.cons_ne_nil _ _), List.nil_append] at left
      exact (ih left).append _
  | other letter list absent ih =>
      rw [replaced_cons_of_absent absent, List.infix_cons_iff] at left
      rcases left with begins | later
      · obtain ⟨rfl, ⟨after, equal⟩⟩ := List.cons_prefix_cons.mp begins
        have padded := padded_removed first (middle ++ [last]) list
        rw [← equal, List.append_assoc] at padded
        obtain ⟨front, others, rfl, letters, further⟩ := padded.split
        obtain ⟨copies, back, rfl, between, -⟩ := further.uncons
        have whole := letters.append between
        rw [List.append_nil] at whole
        refine ⟨[], front ++ copies, back, by simp, whole, ?_⟩
        rintro rfl
        apply absent
        refine ⟨back, ?_⟩
        simp
      · exact (ih later).append [letter]

/-- The pattern is left exactly when a part of the list is the pattern with
copies of it inside. -/
theorem infix_removed_iff (once : first ∉ middle ++ [last]) (list : List α) :
    first :: (middle ++ [last]) <:+: replaced (first :: (middle ++ [last])) [] list ↔
      Splintered first middle last list :=
  ⟨splintered_of_infix_removed, Splintered.infix_removed once⟩

theorem occurrences_cons (pattern : List α) (letter : α) (list : List α) :
    occurrences pattern (letter :: list) =
      (if pattern <+: letter :: list then 1 else 0) + occurrences pattern list := by
  simp [occurrences, List.countP_cons, Nat.add_comm]

/-- Where the first element does not stand, no occurrence begins. -/
theorem occurrences_append {front : List α} (outside : first ∉ front) (back : List α) :
    occurrences (first :: rest) (front ++ back) = occurrences (first :: rest) back := by
  induction front with
  | nil => rfl
  | cons letter front ih =>
      rw [List.mem_cons, not_or] at outside
      rw [List.cons_append, occurrences_cons, if_neg (not_prefix_cons (Ne.symm outside.1) rest),
        ih outside.2, Nat.zero_add]

/-- Every occurrence is removed. -/
theorem length_removed (once : first ∉ rest) (list : List α) :
    (replaced (first :: rest) [] list).length +
        (first :: rest).length * occurrences (first :: rest) list = list.length := by
  induction list using @occurrence_induction _ first rest with
  | nil =>
      rw [replaced_nil]
      rfl
  | found after ih =>
      have here : first :: rest <+: first :: (rest ++ after) :=
        List.prefix_append (first :: rest) after
      have counted : occurrences (first :: rest) (first :: rest ++ after) =
          1 + occurrences (first :: rest) after := by
        rw [List.cons_append, occurrences_cons, if_pos here, occurrences_append once]
      rw [replaced_append_pattern [] (List.cons_ne_nil first rest), List.nil_append, counted,
        Nat.mul_add, Nat.mul_one, List.length_append]
      omega
  | other letter list absent ih =>
      rw [replaced_cons_of_absent absent, occurrences_cons, if_neg absent, Nat.zero_add]
      simp only [List.length_cons] at ih ⊢
      omega

end Removed

end Replacement

end Libjaypea
