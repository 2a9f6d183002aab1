import Mathlib.Data.List.Chain

/-!
# The runs of an element in a list

A list is cut into the maximal runs of one element and the other elements, each
on its own.
-/

namespace Libjaypea

namespace Runs

variable {α : Type*} {element : α}

/-- The maximal runs of an element, and every other element on its own. -/
structure Pieces (element : α) (list : List α) (pieces : List (List α)) : Prop where
  whole : pieces.flatten = list
  piece : ∀ piece ∈ pieces,
    (∃ count, piece = List.replicate (count + 1) element) ∨
      ∃ other, other ≠ element ∧ piece = [other]
  maximal : pieces.IsChain fun first second => element ∉ first ∨ element ∉ second

theorem pieces_nil (element : α) : Pieces element [] [] :=
  ⟨rfl, List.forall_mem_nil _, .nil⟩

theorem Pieces.tail {list piece : List α} {pieces : List (List α)}
    (cut : Pieces element list (piece :: pieces)) : Pieces element pieces.flatten pieces :=
  ⟨rfl, (List.forall_mem_cons.mp cut.piece).2, cut.maximal.tail⟩

/-- What follows a run does not go on with its element. -/
theorem Pieces.head?_ne {list : List α} {pieces : List (List α)} {count : Nat}
    (cut : Pieces element list (List.replicate (count + 1) element :: pieces)) :
    pieces.flatten.head? ≠ some element := by
  cases pieces with
  | nil =>
      intro begins
      cases begins
  | cons next later =>
      have apart : element ∉ next := by
        rcases (List.isChain_cons_cons.mp cut.maximal).1 with outside | outside
        · exact absurd (by simp) outside
        · exact outside
      rcases cut.tail.piece next List.mem_cons_self with ⟨more, rfl⟩ | ⟨other, differs, rfl⟩
      · exact absurd (by simp) apart
      · intro begins
        exact differs (Option.some.inj begins)

theorem Pieces.cons_other {list : List α} {pieces : List (List α)}
    (cut : Pieces element list pieces) {other : α} (differs : other ≠ element) :
    Pieces element (other :: list) ([other] :: pieces) := by
  refine ⟨?_, List.forall_mem_cons.mpr ⟨.inr ⟨other, differs, rfl⟩, cut.piece⟩, ?_⟩
  · rw [List.flatten_cons, cut.whole]
    rfl
  · refine List.isChain_cons.mpr ⟨fun next _ => .inl ?_, cut.maximal⟩
    simpa using Ne.symm differs

/-- The element makes a run longer or begins one. -/
theorem Pieces.exists_cons_element {list : List α} {pieces : List (List α)}
    (cut : Pieces element list pieces) : ∃ longer, Pieces element (element :: list) longer := by
  cases pieces with
  | nil =>
      refine ⟨[[element]], ?_, ?_, .singleton _⟩
      · rw [← cut.whole]
        rfl
      · exact List.forall_mem_singleton.mpr (.inl ⟨0, rfl⟩)
  | cons next later =>
      have whole := cut.whole
      rw [List.flatten_cons] at whole
      obtain ⟨here, others⟩ := List.forall_mem_cons.mp cut.piece
      rcases here with ⟨count, rfl⟩ | ⟨other, differs, rfl⟩
      · refine ⟨List.replicate (count + 1 + 1) element :: later, ?_, ?_, ?_⟩
        · rw [← whole]
          rfl
        · exact List.forall_mem_cons.mpr ⟨.inl ⟨count + 1, rfl⟩, others⟩
        · obtain ⟨apart, chain⟩ := List.isChain_cons.mp cut.maximal
          refine List.isChain_cons.mpr ⟨fun next first => ?_, chain⟩
          simpa using apart next first
      · refine ⟨[element] :: [other] :: later, ?_, ?_, ?_⟩
        · rw [← whole]
          rfl
        · exact List.forall_mem_cons.mpr ⟨.inl ⟨0, rfl⟩, cut.piece⟩
        · exact .cons_cons (.inr (by simpa using Ne.symm differs)) cut.maximal

theorem exists_pieces (element : α) (list : List α) : ∃ pieces, Pieces element list pieces := by
  induction list with
  | nil => exact ⟨[], pieces_nil element⟩
  | cons first rest ih =>
      obtain ⟨pieces, cut⟩ := ih
      by_cases same : first = element
      · rw [same]
        exact cut.exists_cons_element
      · exact ⟨_, cut.cons_other same⟩

end Runs

end Libjaypea
