import Mathlib.Data.List.Infix

/-!
# Lexical paths

A path is a list of symbols.  A separator splits it into names; a walk along
the names starts at the working directory, or at the root when the path begins
with the separator.  Empty names and single dots stay, two dots go up.
-/

namespace Libjaypea

namespace LexicalPath

variable {α : Type*} [DecidableEq α] (separator dot : α)

/-- A place is given by the names that lead to it from the root. -/
def descend (place : List (List α)) (name : List α) : List (List α) :=
  if name = [] ∨ name = [dot] then place
  else if name = [dot, dot] then place.dropLast
  else place ++ [name]

def walk (place : List (List α)) (names : List (List α)) : List (List α) :=
  names.foldl (descend dot) place

/-- Where a path begins. -/
def origin (directory : List (List α)) (path : List α) : List (List α) :=
  if path.head? = some separator then [] else directory

/-- The place of a path that is used in a working directory. -/
def locate (working : List (List α)) (path : List α) : List (List α) :=
  walk dot (origin separator working path) (path.splitOn separator)

/-- The directory itself or something below it. -/
def Inside (working : List (List α)) (directory path : List α) : Prop :=
  locate separator dot working directory <+: locate separator dot working path

instance (working : List (List α)) (directory path : List α) :
    Decidable (Inside separator dot working directory path) :=
  inferInstanceAs (Decidable (_ <+: _))

/-- No name goes up. -/
def Climbless (path : List α) : Prop :=
  ∀ name ∈ path.splitOn separator, name ≠ [dot, dot]

variable {separator dot}

section Walks

variable {place : List (List α)}

theorem walk_append (first second : List (List α)) :
    walk dot place (first ++ second) = walk dot (walk dot place first) second :=
  List.foldl_append

theorem walk_cons (name : List α) (names : List (List α)) :
    walk dot place (name :: names) = walk dot (descend dot place name) names :=
  rfl

theorem descend_of_named {name : List α} (nonempty : name ≠ []) (notDot : name ≠ [dot])
    (notDots : name ≠ [dot, dot]) : descend dot place name = place ++ [name] := by
  unfold descend
  rw [if_neg, if_neg notDots]
  rintro (empty | single)
  · exact nonempty empty
  · exact notDot single

theorem prefix_descend {name : List α} (climbless : name ≠ [dot, dot]) :
    place <+: descend dot place name := by
  unfold descend
  rw [if_neg climbless]
  split
  · exact List.prefix_rfl
  · exact List.prefix_append place [name]

/-- Without two dots a walk stays below its start. -/
theorem prefix_walk {names : List (List α)} (climbless : ∀ name ∈ names, name ≠ [dot, dot]) :
    place <+: walk dot place names := by
  induction names generalizing place with
  | nil => exact List.prefix_rfl
  | cons name names ih =>
      have first : place <+: descend dot place name :=
        prefix_descend (climbless name List.mem_cons_self)
      exact first.trans (ih fun other member => climbless other (List.mem_cons_of_mem _ member))

end Walks

section Names

variable {directory path : List α}

/-- The first name begins a path, the others are stretches of it. -/
theorem exists_splitOn (separator : α) (path : List α) :
    ∃ first later, path.splitOn separator = first :: later ∧ first <+: path ∧
      ∀ name ∈ later, name <:+: path := by
  induction path with
  | nil => exact ⟨[], [], rfl, List.nil_prefix, fun name member => absurd member List.not_mem_nil⟩
  | cons symbol rest ih =>
      obtain ⟨first, later, splits, begins, stretches⟩ := ih
      rw [List.splitOn_cons_eq_if_modifyHead, splits]
      split
      · refine ⟨[], first :: later, rfl, List.nil_prefix, ?_⟩
        intro name member
        rcases List.mem_cons.mp member with rfl | member
        · exact List.infix_cons begins.isInfix
        · exact List.infix_cons (stretches name member)
      · refine ⟨symbol :: first, later, rfl, ?_, ?_⟩
        · obtain ⟨after, rfl⟩ := begins
          exact ⟨after, rfl⟩
        · intro name member
          exact List.infix_cons (stretches name member)

/-- A name is a stretch of its path. -/
theorem infix_of_mem_splitOn {name : List α} (member : name ∈ path.splitOn separator) :
    name <:+: path := by
  obtain ⟨first, later, splits, begins, stretches⟩ := exists_splitOn separator path
  rw [splits] at member
  rcases List.mem_cons.mp member with rfl | member
  · exact begins.isInfix
  · exact stretches name member

theorem climbless_of_not_infix (apart : ¬ [dot, dot] <:+: path) : Climbless separator dot path := by
  rintro name member rfl
  exact apart (infix_of_mem_splitOn member)

theorem splitOn_separator_cons (path : List α) :
    (separator :: path).splitOn separator = [] :: path.splitOn separator := by
  simp [List.splitOn_cons_eq_if_modifyHead]

theorem origin_append (working : List (List α)) (nonempty : directory ≠ []) (path : List α) :
    origin separator working (directory ++ path) = origin separator working directory := by
  cases directory with
  | nil => exact absurd rfl nonempty
  | cons first rest => rfl

/-- The names behind a separator are walked from the place in front of it. -/
theorem locate_append_separator (working : List (List α)) (nonempty : directory ≠ [])
    (path : List α) :
    locate separator dot working (directory ++ separator :: path) =
      walk dot (locate separator dot working directory) (path.splitOn separator) := by
  unfold locate
  rw [origin_append working nonempty, List.splitOn_append_cons_self, walk_append]

/-- A separator at the end of a directory changes nothing. -/
theorem locate_append_of_getLast? (working : List (List α))
    (ends : directory.getLast? = some separator) (path : List α) :
    locate separator dot working (directory ++ path) =
      walk dot (locate separator dot working directory) (path.splitOn separator) := by
  obtain ⟨front, rfl⟩ := List.getLast?_eq_some_iff.mp ends
  have shift : front ++ [separator] ++ path = front ++ separator :: path := by
    simp
  have same : origin separator working (front ++ separator :: path) =
      origin separator working (front ++ [separator]) := by
    rw [← shift]
    exact origin_append working (by simp) path
  unfold locate
  rw [shift, same, List.splitOn_append_cons_self, List.splitOn_append_cons_self, walk_append,
    walk_append]
  rfl

/-- A climbless path that is set apart from the directory leads below it. -/
theorem inside_append (working : List (List α)) (nonempty : directory ≠ [])
    (climbless : Climbless separator dot path)
    (apart : path = [] ∨ path.head? = some separator ∨ directory.getLast? = some separator) :
    Inside separator dot working directory (directory ++ path) := by
  unfold Inside
  rcases apart with rfl | begins | ends
  · rw [List.append_nil]
  · obtain ⟨rest, rfl⟩ := List.head?_eq_some_iff.mp begins
    rw [locate_append_separator working nonempty]
    apply prefix_walk
    intro name member
    apply climbless name
    rw [splitOn_separator_cons]
    exact List.mem_cons_of_mem _ member
  · rw [locate_append_of_getLast? working ends]
    exact prefix_walk climbless

/-- Below an inside path everything climbless is inside. -/
theorem Inside.append_separator {working : List (List α)} {first second : List α}
    (inside : Inside separator dot working directory first) (nonempty : first ≠ [])
    (climbless : Climbless separator dot second) :
    Inside separator dot working directory (first ++ separator :: second) := by
  unfold Inside at inside ⊢
  rw [locate_append_separator working nonempty]
  exact inside.trans (prefix_walk climbless)

/-- The last name of a path, and the names in front of it, which whatever
follows the path leaves alone. -/
theorem exists_lastName (separator : α) (directory : List α) :
    ∃ (names : List (List α)) (last : List α), separator ∉ last ∧ last <:+ directory ∧
      (last = [] → directory = [] ∨ directory.getLast? = some separator) ∧
        ∀ path, (directory ++ path).splitOn separator =
          names ++ (last ++ path).splitOn separator := by
  induction directory using List.reverseRecOn with
  | nil => exact ⟨[], [], List.not_mem_nil, List.nil_suffix, fun _ => .inl rfl, fun _ => rfl⟩
  | append_singleton front symbol ih =>
      by_cases separates : symbol = separator
      · subst separates
        refine ⟨front.splitOn symbol, [], List.not_mem_nil, List.nil_suffix,
          fun _ => .inr (by simp), fun path => ?_⟩
        rw [List.append_assoc, List.singleton_append, List.splitOn_append_cons_self,
          List.nil_append]
      · obtain ⟨names, last, notMem, suffix, -, splits⟩ := ih
        refine ⟨names, last ++ [symbol], ?_, ?_, ?_, fun path => ?_⟩
        · simp [notMem, Ne.symm separates]
        · obtain ⟨before, rfl⟩ := suffix
          exact ⟨before, by simp⟩
        · intro empty
          simp at empty
        · rw [List.append_assoc, splits, List.append_assoc]

/-- The first name of a path grows when a name without separators is put in
front of it; the others stay. -/
theorem exists_firstName {last : List α} (notMem : separator ∉ last) (path : List α) :
    ∃ first later, path.splitOn separator = first :: later ∧
      (last ++ path).splitOn separator = (last ++ first) :: later := by
  obtain ⟨first, later, splits, -, -⟩ := exists_splitOn separator path
  refine ⟨first, later, splits, ?_⟩
  induction last with
  | nil => exact splits
  | cons symbol last ih =>
      simp only [List.mem_cons, not_or] at notMem
      rw [List.cons_append, List.splitOn_cons_eq_if_modifyHead, ih notMem.2]
      simp [Ne.symm notMem.1]

theorem firstName_ne_nil {first : List α} {later : List (List α)} (present : path ≠ [])
    (begins : path.head? ≠ some separator) (splits : path.splitOn separator = first :: later) :
    first ≠ [] := by
  rintro rfl
  cases path with
  | nil => exact present rfl
  | cons symbol rest =>
      have differs : symbol ≠ separator := by
        rintro rfl
        exact begins rfl
      obtain ⟨head, tail, names, -, -⟩ := exists_splitOn separator rest
      simp [List.splitOn_cons_eq_if_modifyHead, differs, names] at splits

/-- Two names glued together are a name, unless the first is a single dot. -/
theorem descend_glued {place : List (List α)} {last first : List α} (lastPresent : last ≠ [])
    (firstPresent : first ≠ []) (notDot : last.getLast? ≠ some dot) :
    descend dot place (last ++ first) = place ++ [last ++ first] := by
  cases last with
  | nil => exact absurd rfl lastPresent
  | cons symbol last =>
      apply descend_of_named
      · exact List.cons_ne_nil _ _
      · intro equal
        obtain ⟨-, empty⟩ := List.cons_eq_cons.mp equal
        exact firstPresent (List.append_eq_nil_iff.mp empty).2
      · intro equal
        obtain ⟨rfl, single⟩ := List.cons_eq_cons.mp equal
        cases last with
        | nil => exact notDot rfl
        | cons other last =>
            obtain ⟨-, empty⟩ := List.cons_eq_cons.mp single
            exact firstPresent (List.append_eq_nil_iff.mp empty).2

/-- A path that is glued to the last name of a directory leads beside it. -/
theorem not_inside_append (working : List (List α)) (nonempty : directory ≠ [])
    (notDot : directory.getLast? ≠ some dot) (climbless : Climbless separator dot path)
    (glued : path ≠ [] ∧ path.head? ≠ some separator ∧ directory.getLast? ≠ some separator) :
    ¬ Inside separator dot working directory (directory ++ path) := by
  obtain ⟨present, begins, ends⟩ := glued
  obtain ⟨names, last, notMem, ⟨front, suffix⟩, empty, splits⟩ := exists_lastName separator directory
  have lastPresent : last ≠ [] := by
    intro none
    rcases empty none with isEmpty | separated
    · exact nonempty isEmpty
    · exact ends separated
  have lastNotDot : last.getLast? ≠ some dot := by
    rw [← suffix, List.getLast?_append_of_ne_nil _ lastPresent] at notDot
    exact notDot
  obtain ⟨first, later, pathSplits, gluedSplits⟩ := exists_firstName notMem path
  have firstPresent := firstName_ne_nil present begins pathSplits
  have directoryPlace : locate separator dot working directory =
      walk dot (origin separator working directory) names ++ [last] := by
    have whole := splits []
    rw [List.append_nil, List.append_nil, List.splitOn_eq_singleton notMem] at whole
    unfold locate
    rw [whole, walk_append, walk_cons, descend_of_named lastPresent]
    · rfl
    · rintro rfl
      exact lastNotDot rfl
    · rintro rfl
      exact lastNotDot rfl
  have pathPlace : walk dot (origin separator working directory) names ++ [last ++ first] <+:
      locate separator dot working (directory ++ path) := by
    unfold locate
    rw [origin_append working nonempty, splits, gluedSplits, walk_append, walk_cons,
      descend_glued lastPresent firstPresent lastNotDot]
    apply prefix_walk
    intro name member
    apply climbless name
    rw [pathSplits]
    exact List.mem_cons_of_mem _ member
  intro inside
  unfold Inside at inside
  rw [directoryPlace] at inside
  -- Two beginnings of one place that have the same length are equal.
  have same := (List.prefix_of_prefix_length_le inside pathPlace (by simp)).eq_of_length (by simp)
  have glue : last = last ++ first := by
    simpa using same
  exact firstPresent (List.append_right_eq_self.mp glue.symm)

/-- Exactly the paths that are set apart stay in the directory. -/
theorem inside_append_iff (working : List (List α)) (nonempty : directory ≠ [])
    (notDot : directory.getLast? ≠ some dot) (climbless : Climbless separator dot path) :
    Inside separator dot working directory (directory ++ path) ↔
      path = [] ∨ path.head? = some separator ∨ directory.getLast? = some separator := by
  constructor
  · intro inside
    by_contra glued
    push Not at glued
    exact not_inside_append working nonempty notDot climbless glued inside
  · exact inside_append working nonempty climbless

end Names

end LexicalPath

end Libjaypea
