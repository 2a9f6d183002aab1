import Libjaypea.TemplateTermination

/-!
# Pages with placeholders

A page is a text followed by placeholders with a text behind each.  The texts
are arbitrary, the names have no braces.  An occurrence of a placeholder that
is searched for lies inside one of the texts or is one of the placeholders.
-/

namespace Libjaypea

open Replacement

namespace Template

open HttpApi (opening closing opening_eq closing_eq opening_ne_nil closing_ne_nil)

/-- Without braces. -/
def Plain (name : Bytes) : Prop :=
  ch '\x7b' ∉ name ∧ ch '\x7d' ∉ name

/-- A placeholder and the text behind it. -/
structure Hole where
  name : Bytes
  plain : Plain name
  behind : Bytes

def placeholder (name : Bytes) : Bytes :=
  opening ++ name ++ closing

theorem placeholder_ne_nil (name : Bytes) : placeholder name ≠ [] :=
  HttpApi.placeholder_ne_nil name

/-- The placeholders as they are written. -/
def written (holes : List Hole) : Bytes :=
  holes.flatMap fun hole => placeholder hole.name ++ hole.behind

/-- The placeholders replaced by their values, or by nothing. -/
def shown (values : Bytes → Option Bytes) (holes : List Hole) : Bytes :=
  holes.flatMap fun hole => (values hole.name).getD [] ++ hole.behind

/-- Every placeholder of the name becomes text: the text in front, and the
placeholders that are left. -/
def fill (name value : Bytes) : List Hole → Bytes × List Hole
  | [] => ([], [])
  | hole :: holes =>
      let rest := fill name value holes
      if hole.name = name then (value ++ hole.behind ++ rest.1, rest.2)
      else ([], { hole with behind := hole.behind ++ rest.1 } :: rest.2)

@[simp]
theorem written_nil : written [] = [] :=
  rfl

@[simp]
theorem written_cons (hole : Hole) (holes : List Hole) :
    written (hole :: holes) = placeholder hole.name ++ (hole.behind ++ written holes) := by
  simp [written]

@[simp]
theorem shown_nil (values : Bytes → Option Bytes) : shown values [] = [] :=
  rfl

@[simp]
theorem shown_cons (values : Bytes → Option Bytes) (hole : Hole) (holes : List Hole) :
    shown values (hole :: holes) =
      (values hole.name).getD [] ++ (hole.behind ++ shown values holes) := by
  simp [shown]

section Fill

variable {values : Bytes → Option Bytes} {name value : Bytes}

theorem fill_cons_of_eq {hole : Hole} (named : hole.name = name) (holes : List Hole) :
    fill name value (hole :: holes) =
      (value ++ hole.behind ++ (fill name value holes).1, (fill name value holes).2) :=
  if_pos named

theorem fill_cons_of_ne {hole : Hole} (named : hole.name ≠ name) (holes : List Hole) :
    fill name value (hole :: holes) =
      ([], { hole with behind := hole.behind ++ (fill name value holes).1 } ::
        (fill name value holes).2) :=
  if_neg named

/-- What is shown does not depend on when a placeholder is filled. -/
theorem shown_fill (known : values name = some value) (holes : List Hole) :
    (fill name value holes).1 ++ shown values (fill name value holes).2 = shown values holes := by
  induction holes with
  | nil => rfl
  | cons hole holes ih =>
      by_cases named : hole.name = name
      · rw [fill_cons_of_eq named, shown_cons, named, known, ← ih]
        simp only [Option.getD_some, List.append_assoc]
      · rw [fill_cons_of_ne named, shown_cons, shown_cons, ← ih]
        simp only [List.nil_append, List.append_assoc]

/-- No placeholder of the name is left, and no new one appears. -/
theorem name_of_mem_fill {holes : List Hole} {hole : Hole}
    (member : hole ∈ (fill name value holes).2) :
    hole.name ≠ name ∧ ∃ before ∈ holes, hole.name = before.name := by
  induction holes with
  | nil => cases member
  | cons first holes ih =>
      by_cases named : first.name = name
      · rw [fill_cons_of_eq named] at member
        obtain ⟨different, before, inside, same⟩ := ih member
        exact ⟨different, before, List.mem_cons_of_mem first inside, same⟩
      · rw [fill_cons_of_ne named] at member
        rcases List.mem_cons.mp member with rfl | later
        · exact ⟨named, first, List.mem_cons_self, rfl⟩
        · obtain ⟨different, before, inside, same⟩ := ih later
          exact ⟨different, before, List.mem_cons_of_mem first inside, same⟩

theorem length_fill_le (holes : List Hole) : (fill name value holes).2.length ≤ holes.length := by
  induction holes with
  | nil => exact Nat.le_refl 0
  | cons hole holes ih =>
      by_cases named : hole.name = name
      · rw [fill_cons_of_eq named]
        exact Nat.le_succ_of_le ih
      · rw [fill_cons_of_ne named]
        exact Nat.succ_le_succ ih

end Fill

section Occurrences

/-- An opening has opening braces only. -/
theorem getElem?_of_prefix_opening {part back : Bytes} (found : part <+: opening ++ back)
    {index : Nat} (few : index < 3) {byte : UInt8} (here : part[index]? = some byte) :
    byte = ch '\x7b' := by
  obtain ⟨rest, equal⟩ := found
  have inside : index < part.length := (List.getElem?_eq_some_iff.mp here).1
  have same := congrArg (fun text : Bytes => text[index]?) equal
  rw [List.getElem?_append_left inside, here, opening_eq,
    List.getElem?_append_left (by rw [List.length_replicate]; exact few),
    List.getElem?_replicate_of_lt few] at same
  exact Option.some.inj same

theorem opening_prefix_getElem? {text : Bytes} (found : opening <+: text) {index : Nat}
    (few : index < 3) : text[index]? = some (ch '\x7b') := by
  obtain ⟨rest, rfl⟩ := found
  rw [opening_eq, List.getElem?_append_left (by rw [List.length_replicate]; exact few),
    List.getElem?_replicate_of_lt few]

/-- A text in which fewer than three braces open. -/
theorem free_opening {count : Nat} (few : count < 3) {tail : Bytes} (closes : tail ≠ [])
    (plain : ch '\x7b' ∉ tail) (back : Bytes) :
    Free opening (List.replicate count (ch '\x7b') ++ tail) back := by
  obtain ⟨byte, rest, rfl⟩ := List.exists_cons_of_ne_nil closes
  induction count with
  | zero => exact free_of_notMem plain back
  | succ count ih =>
      rw [List.replicate_succ, List.cons_append]
      refine ⟨fun found => plain ?_, ih (by omega)⟩
      have brace := opening_prefix_getElem? found few
      rw [← List.cons_append, ← List.cons_append, ← List.replicate_succ, List.append_assoc,
        List.getElem?_append_right (by simp)] at brace
      simp only [List.length_replicate, Nat.sub_self, List.cons_append, List.getElem?_cons_zero,
        Option.some.injEq] at brace
      rw [brace]
      exact List.mem_cons_self

variable {tail : Bytes}

/-- A pattern does not overlap with an opening behind its own. -/
theorem not_overlaps_opening (closes : tail ≠ []) (plain : ch '\x7b' ∉ tail) {front part : Bytes}
    (begins : front ≠ []) (equal : opening ++ tail = front ++ part) (reaches : part ≠ [])
    (back : Bytes) : ¬ part <+: opening ++ back := by
  intro found
  rcases List.append_eq_append_iff.mp equal with ⟨more, rfl, rfl⟩ | ⟨more, split, rfl⟩
  · obtain ⟨byte, rest, rfl⟩ := List.exists_cons_of_ne_nil reaches
    have brace := getElem?_of_prefix_opening found (by decide : 0 < 3) rfl
    exact plain (brace ▸ List.mem_append_right more List.mem_cons_self)
  · obtain ⟨byte, rest, rfl⟩ := List.exists_cons_of_ne_nil closes
    have positive := List.length_pos_iff.mpr begins
    have lengths := congrArg List.length split
    rw [opening_eq, List.length_replicate, List.length_append] at lengths
    have here : (more ++ byte :: rest)[more.length]? = some byte := by
      rw [List.getElem?_append_right (Nat.le_refl _), Nat.sub_self, List.getElem?_cons_zero]
    have brace := getElem?_of_prefix_opening found (by omega : more.length < 3) here
    exact plain (brace ▸ List.mem_cons_self)

/-- An occurrence that begins in a text does not reach the opening behind it. -/
theorem free_before_opening (closes : tail ≠ []) (plain : ch '\x7b' ∉ tail) {text : Bytes}
    (absent : ¬ opening ++ tail <:+: text) (back : Bytes) :
    Free (opening ++ tail) text (opening ++ back) := by
  induction text with
  | nil => trivial
  | cons first text ih =>
      rw [List.infix_cons_iff, not_or] at absent
      refine ⟨fun found => ?_, ih absent.2⟩
      rw [← List.cons_append] at found
      rcases prefix_append_cases found with inside | ⟨part, reaches, equal, beyond⟩
      · exact absent.1 inside
      · exact not_overlaps_opening closes plain (List.cons_ne_nil first text) equal reaches back
          beyond

/-- Names without closing braces are told apart by what closes them. -/
theorem eq_of_prefix_closed {first second : Bytes} (firstPlain : ch '\x7d' ∉ first)
    (secondPlain : ch '\x7d' ∉ second) {back : Bytes}
    (found : first ++ closing <+: second ++ (closing ++ back)) : first = second := by
  induction first generalizing second with
  | nil =>
      cases second with
      | nil => rfl
      | cons byte second =>
          have here : ch '\x7d' = byte := (List.cons_prefix_cons.mp found).1
          exact absurd (here ▸ List.mem_cons_self) secondPlain
  | cons byte first ih =>
      cases second with
      | nil =>
          have here : byte = ch '\x7d' := (List.cons_prefix_cons.mp found).1
          exact absurd (here ▸ List.mem_cons_self) firstPlain
      | cons other second =>
          rw [List.mem_cons, not_or] at firstPlain secondPlain
          obtain ⟨rfl, later⟩ := List.cons_prefix_cons.mp found
          rw [ih firstPlain.2 secondPlain.2 later]

/-- In a placeholder an occurrence begins at its start only. -/
theorem free_placeholder {pattern name back : Bytes} (plain : Plain name)
    (begins : opening <+: pattern) (absent : ¬ pattern <+: placeholder name ++ back) :
    Free pattern (placeholder name) back := by
  have closes : name ++ closing ≠ [] :=
    fun nothing => closing_ne_nil (List.append_eq_nil_iff.mp nothing).2
  have noBrace : ch '\x7b' ∉ name ++ closing := by
    rw [List.mem_append, not_or]
    exact ⟨plain.1, by decide⟩
  have shape : placeholder name =
      ch '\x7b' :: (List.replicate 2 (ch '\x7b') ++ (name ++ closing)) := by
    rw [placeholder, opening_eq, List.append_assoc]
    rfl
  have inner := (free_opening (by decide : 2 < 3) closes noBrace back).lengthen begins
  rw [shape] at absent ⊢
  exact ⟨absent, inner⟩

theorem placeholder_eq (name : Bytes) : placeholder name = opening ++ (name ++ closing) :=
  List.append_assoc opening name closing

theorem opening_prefix_placeholder (name : Bytes) : opening <+: placeholder name := by
  rw [placeholder_eq]
  exact List.prefix_append opening (name ++ closing)

/-- Different names give different placeholders. -/
theorem not_prefix_placeholder {first second : Bytes} (firstPlain : Plain first)
    (secondPlain : Plain second) (different : first ≠ second) (back : Bytes) :
    ¬ placeholder first <+: placeholder second ++ back := by
  rw [placeholder_eq, placeholder_eq, List.append_assoc, List.append_assoc,
    List.prefix_append_right_inj]
  exact fun found => different (eq_of_prefix_closed firstPlain.2 secondPlain.2 found)

/-- An occurrence of a placeholder that begins in a text lies inside it. -/
theorem free_text {name : Bytes} (plain : Plain name) {text : Bytes}
    (absent : ¬ placeholder name <:+: text) (holes : List Hole) :
    Free (placeholder name) text (written holes) := by
  cases holes with
  | nil => exact (free_iff_absent (placeholder_ne_nil name)).mpr absent
  | cons hole holes =>
      have closes : name ++ closing ≠ [] :=
        fun nothing => closing_ne_nil (List.append_eq_nil_iff.mp nothing).2
      have noBrace : ch '\x7b' ∉ name ++ closing := by
        rw [List.mem_append, not_or]
        exact ⟨plain.1, by decide⟩
      rw [placeholder_eq] at absent ⊢
      rw [written_cons, placeholder_eq, List.append_assoc]
      exact free_before_opening closes noBrace absent _

end Occurrences

/-- When no text contains the placeholder, replacing it fills the page. -/
theorem replaced_written {name : Bytes} (plain : Plain name) (value : Bytes) {holes : List Hole}
    (absent : ∀ hole ∈ holes, ¬ placeholder name <:+: hole.behind) :
    replaced (placeholder name) value (written holes) =
      (fill name value holes).1 ++ written (fill name value holes).2 := by
  induction holes with
  | nil => exact replaced_nil value
  | cons hole holes ih =>
      obtain ⟨here, later⟩ := List.forall_mem_cons.mp absent
      rw [written_cons]
      by_cases named : hole.name = name
      · rw [fill_cons_of_eq named, named, replaced_append_pattern value (placeholder_ne_nil name),
          replaced_append_of_free value (free_text plain here holes), ih later]
        simp only [List.append_assoc]
      · have different := not_prefix_placeholder plain hole.plain (Ne.symm named)
          (hole.behind ++ written holes)
        have elsewhere := free_placeholder hole.plain (opening_prefix_placeholder name) different
        rw [fill_cons_of_ne named, replaced_append_of_free value elsewhere,
          replaced_append_of_free value (free_text plain here holes), ih later, written_cons]
        simp only [List.nil_append, List.append_assoc]

/-- The same for a page with a text in front. -/
theorem replaced_page {name : Bytes} (plain : Plain name) (value : Bytes) {first : Bytes}
    {holes : List Hole} (absentFirst : ¬ placeholder name <:+: first)
    (absent : ∀ hole ∈ holes, ¬ placeholder name <:+: hole.behind) :
    replaced (placeholder name) value (first ++ written holes) =
      first ++ (fill name value holes).1 ++ written (fill name value holes).2 := by
  rw [replaced_append_of_free value (free_text plain absentFirst holes),
    replaced_written plain value absent, List.append_assoc]

/-- The texts of a page whose placeholders are removed. -/
abbrev texts (holes : List Hole) : Bytes :=
  shown (fun _ => none) holes

section Removal

variable {stem : Bytes}

theorem count_placeholder {name : Bytes} (plain : Plain name) :
    (placeholder name).count (ch '\x7d') = 3 := by
  rw [placeholder, List.count_append, List.count_append, List.count_eq_zero_of_not_mem plain.2]
  rfl

/-- What ends with its only closing and reaches into a placeholder ends with it. -/
theorem eq_placeholder_of_reaches (only : Free closing stem closing) {name front part back : Bytes}
    (plain : Plain name) (equal : stem ++ closing = front ++ part) (reaches : part ≠ [])
    (found : part <+: placeholder name ++ back) : part = placeholder name := by
  rcases prefix_append_cases found with ⟨rest, inside⟩ | ⟨more, goesOn, rfl, -⟩
  · have counts := congrArg (List.count (ch '\x7d')) inside
    rw [List.count_append, count_placeholder plain] at counts
    rcases List.append_eq_append_iff.mp equal with ⟨between, -, short⟩ | ⟨between, -, rfl⟩
    · exfalso
      obtain ⟨byte, others, rfl⟩ := List.exists_cons_of_ne_nil reaches
      have brace : byte = ch '\x7b' := by
        rw [placeholder_eq] at inside
        exact (List.cons.inj inside).1
      have member : byte ∈ closing := by
        rw [short]
        exact List.mem_append_right between List.mem_cons_self
      rw [brace] at member
      revert member
      decide
    · rw [List.count_append] at counts
      have three : closing.count (ch '\x7d') = 3 := rfl
      have none : rest.count (ch '\x7d') = 0 := by omega
      by_cases nothing : rest = []
      · rw [← inside, nothing, List.append_nil]
      · exfalso
        have ends : (between ++ closing ++ rest).getLast? = some (ch '\x7d') := by
          rw [inside, placeholder, List.getLast?_append]
          rfl
        rw [List.getLast?_append_of_ne_nil _ nothing] at ends
        exact List.count_eq_zero.mp none (List.mem_of_getLast? ends)
  · exfalso
    have same : stem ++ closing = front ++ (opening ++ name) ++ (closing ++ more) := by
      rw [equal, placeholder]
      simp only [List.append_assoc]
    have bound := only.length_le same
    have lengths := congrArg List.length equal
    have positive := List.length_pos_iff.mpr goesOn
    simp only [placeholder, List.length_append] at lengths bound
    omega

/-- Removing such a text from a page leaves a page with no more text. -/
theorem exists_page_of_removed (begins : opening <+: stem ++ closing)
    (only : Free closing stem closing) (first : Bytes) (holes : List Hole) :
    ∃ after left, replaced (stem ++ closing) [] (first ++ written holes) = after ++ written left ∧
      (after ++ texts left).length ≤ (first ++ texts holes).length := by
  have nonempty : stem ++ closing ≠ [] :=
    fun nothing => closing_ne_nil (List.append_eq_nil_iff.mp nothing).2
  induction length : (first ++ written holes).length using Nat.strongRecOn
    generalizing first holes with
  | ind size ih =>
      by_cases found : stem ++ closing <+: first ++ written holes
      · rcases prefix_append_cases found with ⟨behind, rfl⟩ | ⟨part, reaches, equal, beyond⟩
        · have positive := List.length_pos_iff.mpr nonempty
          simp only [List.length_append] at length positive
          obtain ⟨after, left, removes, shorter⟩ := ih (behind ++ written holes).length
            (by rw [List.length_append]; omega) behind holes rfl
          refine ⟨after, left, ?_, ?_⟩
          · rw [List.append_assoc, replaced_append_pattern [] nonempty, List.nil_append, removes]
          · simp only [List.length_append] at shorter ⊢
            omega
        · cases holes with
          | nil => exact absurd (List.prefix_nil.mp beyond) reaches
          | cons hole holes =>
              rw [written_cons] at beyond length ⊢
              have whole := eq_placeholder_of_reaches only hole.plain equal reaches beyond
              have positive := List.length_pos_iff.mpr reaches
              rw [whole] at equal positive
              simp only [List.length_append] at length
              obtain ⟨after, left, removes, shorter⟩ := ih (hole.behind ++ written holes).length
                (by rw [List.length_append]; omega) hole.behind holes rfl
              refine ⟨after, left, ?_, ?_⟩
              · rw [← List.append_assoc, ← equal, replaced_append_pattern [] nonempty,
                  List.nil_append, removes]
              · simp only [texts, shown_cons, Option.getD_none, List.nil_append,
                  List.length_append] at shorter ⊢
                omega
      · cases first with
        | cons byte first =>
            simp only [List.cons_append, List.length_cons] at length
            obtain ⟨after, left, removes, shorter⟩ := ih (first ++ written holes).length
              (by omega) first holes rfl
            refine ⟨byte :: after, left, ?_, ?_⟩
            · rw [List.cons_append, replaced, if_neg fun here => found here.2, removes,
                List.cons_append]
            · simp only [List.cons_append, List.length_cons] at shorter ⊢
              omega
        | nil =>
            cases holes with
            | nil => exact ⟨[], [], replaced_nil [], Nat.le_refl _⟩
            | cons hole holes =>
                rw [List.nil_append, written_cons] at found length ⊢
                have elsewhere := free_placeholder hole.plain begins found
                have positive := List.length_pos_iff.mpr (placeholder_ne_nil hole.name)
                rw [List.length_append] at length
                obtain ⟨after, left, removes, shorter⟩ := ih
                  (hole.behind ++ written holes).length (by omega) hole.behind holes rfl
                refine ⟨[], { hole with behind := after } :: left, ?_, ?_⟩
                · rw [replaced_append_of_free [] elsewhere, removes, written_cons]
                  rfl
                · simpa only [texts, shown_cons, Option.getD_none, List.nil_append] using shorter

end Removal

end Template

end Libjaypea
