import Libjaypea.FileServing
import Libjaypea.StringSearch
import Mathlib.Logic.Relation

/-!
# Whether the rendering of a template ends

The substitution always ends.  A round of the clean-up removes the text from
the first opening to the end of the first closing, or everything behind the
opening when the closing comes first.  Every round makes the text shorter
unless the closing ends where the opening begins: then the parameter is empty
and `replace_all` does not return.
-/

namespace Libjaypea

open Fuelled Replacement Util

namespace HttpApi

def opening : Bytes :=
  bytes "\x7b\x7b\x7b"

def closing : Bytes :=
  bytes "\x7d\x7d\x7d"

theorem opening_eq : opening = List.replicate 3 (ch '\x7b') :=
  rfl

theorem closing_eq : closing = List.replicate 3 (ch '\x7d') :=
  rfl

theorem opening_ne_nil : opening ≠ [] := by
  decide

theorem closing_ne_nil : closing ≠ [] := by
  decide

/-- The first closing ends where the first opening begins. -/
def Stuck (body : Bytes) : Prop :=
  ∃ index, find closing body = some index ∧ find opening body = some (index + 3)

/-- What a round of the clean-up removes. -/
def nextParameter (body : Bytes) : Option Bytes :=
  match find opening body, find closing body with
  | some parameterStart, some parameterEnd =>
      some (if parameterStart ≤ parameterEnd then
        (body.drop parameterStart).take (parameterEnd - parameterStart + 3)
      else body.drop parameterStart)
  | _, _ => none

/-- One round of the clean-up. -/
def Round (body next : Bytes) : Prop :=
  ¬ Stuck body ∧ ∃ parameter, nextParameter body = some parameter ∧
    next = replaced parameter [] body

section Braces

variable {body : Bytes}

theorem getElem?_of_find {pattern : Bytes} {index : Nat} (found : find pattern body = some index)
    {offset : Nat} (inside : offset < pattern.length) :
    body[index + offset]? = pattern[offset]? := by
  obtain ⟨front, back, rfl, rfl, -⟩ := exists_of_find_eq_some found
  rw [List.getElem?_append_right (Nat.le_add_right _ _), Nat.add_sub_cancel_left,
    List.getElem?_append_left inside]

theorem index_le_of_find {pattern : Bytes} {index : Nat} (found : find pattern body = some index) :
    index + pattern.length ≤ body.length := by
  obtain ⟨front, back, rfl, rfl, -⟩ := exists_of_find_eq_some found
  simp only [List.length_append]
  omega

/-- An opening and a closing do not overlap. -/
theorem apart_of_find {parameterStart parameterEnd : Nat}
    (starts : find opening body = some parameterStart)
    (ends : find closing body = some parameterEnd) :
    parameterStart + 3 ≤ parameterEnd ∨ parameterEnd + 3 ≤ parameterStart := by
  by_contra overlap
  have openings : ∀ offset < 3, body[parameterStart + offset]? = some (ch '\x7b') := by
    intro offset inside
    rw [getElem?_of_find starts inside, opening_eq, List.getElem?_replicate_of_lt inside]
  have closings : ∀ offset < 3, body[parameterEnd + offset]? = some (ch '\x7d') := by
    intro offset inside
    rw [getElem?_of_find ends inside, closing_eq, List.getElem?_replicate_of_lt inside]
  have different : some (ch '\x7b') ≠ some (ch '\x7d') := by decide
  apply different
  by_cases before : parameterStart ≤ parameterEnd
  · have here := openings (parameterEnd - parameterStart) (by omega)
    have same : parameterStart + (parameterEnd - parameterStart) = parameterEnd + 0 := by omega
    rw [same, closings 0 (by decide)] at here
    exact here.symm
  · have here := closings (parameterStart - parameterEnd) (by omega)
    have same : parameterEnd + (parameterStart - parameterEnd) = parameterStart + 0 := by omega
    rw [same, openings 0 (by decide)] at here
    exact here

/-- The unsigned length gives the text of the parameter. -/
theorem parameter_eq (short : body.length < 2 ^ 63) {parameterStart parameterEnd : Nat}
    (starts : find opening body = some parameterStart)
    (ends : find closing body = some parameterEnd) (moves : parameterEnd + 3 ≠ parameterStart) :
    (body.drop parameterStart).take
        ((parameterEnd + 2 ^ 64 - parameterStart + 3) % 2 ^ 64) =
      if parameterStart ≤ parameterEnd then
        (body.drop parameterStart).take (parameterEnd - parameterStart + 3)
      else body.drop parameterStart := by
  have apart := apart_of_find starts ends
  have startBound := index_le_of_find starts
  have endBound := index_le_of_find ends
  by_cases before : parameterStart ≤ parameterEnd
  · have length : (parameterEnd + 2 ^ 64 - parameterStart + 3) % 2 ^ 64 =
        parameterEnd - parameterStart + 3 := by omega
    rw [if_pos before, length]
  · rw [if_neg before]
    apply List.take_of_length_le
    rw [List.length_drop]
    omega

/-- At a stuck text the length is zero. -/
theorem parameter_eq_nil {parameterEnd : Nat} :
    (body.drop (parameterEnd + 3)).take
      ((parameterEnd + 2 ^ 64 - (parameterEnd + 3) + 3) % 2 ^ 64) = [] := by
  have length : (parameterEnd + 2 ^ 64 - (parameterEnd + 3) + 3) % 2 ^ 64 = 0 := by omega
  rw [length, List.take_zero]

theorem exists_find_of_nextParameter {parameter : Bytes}
    (next : nextParameter body = some parameter) :
    ∃ parameterStart parameterEnd, find opening body = some parameterStart ∧
      find closing body = some parameterEnd ∧
      (if parameterStart ≤ parameterEnd then
        (body.drop parameterStart).take (parameterEnd - parameterStart + 3)
      else body.drop parameterStart) = parameter := by
  unfold nextParameter at next
  cases starts : find opening body with
  | none => simp [starts] at next
  | some parameterStart =>
      cases ends : find closing body with
      | none => simp [starts, ends] at next
      | some parameterEnd =>
          simp only [starts, ends, Option.some.injEq] at next
          exact ⟨parameterStart, parameterEnd, rfl, rfl, next⟩

/-- A parameter begins with the first opening of the text. -/
theorem exists_of_nextParameter {parameter : Bytes} (next : nextParameter body = some parameter) :
    ∃ front back, body = front ++ (parameter ++ back) ∧
      Free opening front (parameter ++ back) ∧ opening <+: parameter := by
  obtain ⟨parameterStart, parameterEnd, starts, ends, next⟩ := exists_find_of_nextParameter next
  have apart := apart_of_find starts ends
  obtain ⟨front, behind, rfl, rfl, free⟩ := exists_of_find_eq_some starts
  rw [List.drop_left] at next
  by_cases before : front.length ≤ parameterEnd
  · rw [if_pos before] at next
    refine ⟨front, (opening ++ behind).drop (parameterEnd - front.length + 3), ?_, ?_, ?_⟩
    · rw [← next, List.take_append_drop]
    · rwa [← next, List.take_append_drop]
    · rw [← next]
      apply List.prefix_take_iff.mpr
      refine ⟨List.prefix_append opening behind, ?_⟩
      rw [opening_eq, List.length_replicate]
      omega
  · rw [if_neg before] at next
    rw [← next]
    exact ⟨front, [], by rw [List.append_nil], by rwa [List.append_nil],
      List.prefix_append opening behind⟩

theorem ne_nil_of_nextParameter {parameter : Bytes} (next : nextParameter body = some parameter) :
    parameter ≠ [] := by
  obtain ⟨-, -, -, -, begins⟩ := exists_of_nextParameter next
  rintro rfl
  exact opening_ne_nil (List.prefix_nil.mp begins)

/-- A round removes at least one parameter. -/
theorem Round.shorter {next : Bytes} (round : Round body next) : next.length < body.length := by
  obtain ⟨-, parameter, found, rfl⟩ := round
  obtain ⟨front, back, equal, free, begins⟩ := exists_of_nextParameter found
  rw [equal]
  exact length_removed_lt (ne_nil_of_nextParameter found) (free.lengthen begins)

theorem Stuck.nextParameter_ne_none (stuck : Stuck body) : nextParameter body ≠ none := by
  obtain ⟨index, ends, starts⟩ := stuck
  unfold nextParameter
  rw [ends, starts]
  exact Option.some_ne_none _

end Braces

section CleanUp

variable {body page : Bytes}

theorem cleanUp_of_none (nothing : nextParameter body = none) (fuel : Nat) :
    cleanUp (fuel + 1) body = some body := by
  rw [cleanUp_succ]
  unfold nextParameter opening closing at nothing
  split
  · rename_i starts ends
    simp [starts, ends] at nothing
  · rfl

theorem cleanUp_of_stuck (stuck : Stuck body) (fuel : Nat) : cleanUp fuel body = none := by
  obtain ⟨index, ends, starts⟩ := stuck
  unfold opening at starts
  unfold closing at ends
  cases fuel with
  | zero => rfl
  | succ fuel =>
      rw [cleanUp_succ, starts, ends]
      dsimp only
      rw [parameter_eq_nil, replaceAll_nil]
      rfl

theorem cleanUp_of_some (short : body.length < 2 ^ 63) (moves : ¬ Stuck body) {parameter : Bytes}
    (next : nextParameter body = some parameter) (fuel : Nat) :
    cleanUp (fuel + 1) body =
      (replaceAll body parameter [] fuel).bind fun body => cleanUp fuel body := by
  obtain ⟨parameterStart, parameterEnd, starts, ends, next⟩ := exists_find_of_nextParameter next
  have apart : parameterEnd + 3 ≠ parameterStart := by
    rintro rfl
    exact moves ⟨parameterEnd, ends, starts⟩
  rw [← next, ← parameter_eq short starts ends apart]
  unfold opening at starts
  unfold closing at ends
  rw [cleanUp_succ, starts, ends]

/-- The clean-up of a text is that of the text after its first round. -/
theorem converges_cleanUp_round (short : body.length < 2 ^ 63) {next : Bytes}
    (round : Round body next) :
    Converges (fun fuel => cleanUp fuel body) page ↔
      Converges (fun fuel => cleanUp fuel next) page := by
  obtain ⟨moves, parameter, found, rfl⟩ := round
  have removes := replaceAll_converges (ne_nil_of_nextParameter found) body []
  have stable := replaceAll_stable body parameter []
  have zero : cleanUp 0 body = none := rfl
  rw [converges_succ zero (cleanUp_of_some short moves found)]
  rw [converges_bind stable cleanUp_stable]
  constructor
  · rintro ⟨other, replaces, later⟩
    rwa [stable.unique removes replaces]
  · intro later
    exact ⟨_, removes, later⟩

end CleanUp

/-- No round of the clean-up starts from a stuck text. -/
def NeverStuck (body : Bytes) : Prop :=
  ∀ later, Relation.ReflTransGen Round body later → ¬ Stuck later

theorem Round.unique {body first second : Bytes} (one : Round body first)
    (other : Round body second) : first = second := by
  obtain ⟨-, parameter, found, rfl⟩ := one
  obtain ⟨-, again, foundAgain, rfl⟩ := other
  rw [found, Option.some.injEq] at foundAgain
  rw [foundAgain]

theorem neverStuck_round {body next : Bytes} (round : Round body next) :
    NeverStuck body ↔ NeverStuck next := by
  constructor
  · intro never later reaches
    exact never later (.head round reaches)
  · intro never later reaches
    rcases Relation.ReflTransGen.cases_head reaches with rfl | ⟨other, first, rest⟩
    · exact round.1
    · rw [round.unique first] at never
      exact never later rest

/-- The clean-up ends exactly when it never comes to a stuck text. -/
theorem cleanUp_converges_iff {body : Bytes} (short : body.length < 2 ^ 63) :
    (∃ page, Converges (fun fuel => cleanUp fuel body) page) ↔ NeverStuck body := by
  induction length : body.length using Nat.strongRecOn generalizing body with
  | ind size ih =>
      by_cases stuck : Stuck body
      · apply iff_of_false
        · rintro ⟨page, fuel, answer⟩
          exact absurd (answer.symm.trans (cleanUp_of_stuck stuck fuel)) (Option.some_ne_none page)
        · exact fun never => never body .refl stuck
      · cases next : nextParameter body with
        | none =>
            apply iff_of_true ⟨body, 1, cleanUp_of_none next 0⟩
            intro later reaches
            rcases Relation.ReflTransGen.cases_head reaches with rfl | ⟨other, first, -⟩
            · exact stuck
            · obtain ⟨-, parameter, found, -⟩ := first
              rw [next] at found
              cases found
        | some parameter =>
            have round : Round body (replaced parameter [] body) := ⟨stuck, parameter, next, rfl⟩
            have shorter := round.shorter
            simp only [converges_cleanUp_round short round]
            rw [neverStuck_round round]
            exact ih _ (by omega) (by omega) rfl

/-- One parameter after the other, in the order of the map. -/
def substituted (parameters : List (Bytes × Bytes)) (body : Bytes) : Bytes :=
  parameters.foldl (fun body parameter => replaced (opening ++ parameter.1 ++ closing) parameter.2 body)
    body

theorem placeholder_ne_nil (name : Bytes) : opening ++ name ++ closing ≠ [] := by
  intro nothing
  exact closing_ne_nil (List.append_eq_nil_iff.mp nothing).2

/-- The substitution always ends. -/
theorem substitute_converges (parameters : List (Bytes × Bytes)) (body : Bytes) :
    Converges (substitute parameters body) (substituted parameters body) := by
  induction parameters generalizing body with
  | nil => exact ⟨0, rfl⟩
  | cons parameter rest ih =>
      have replaces := replaceAll_converges (placeholder_ne_nil parameter.1) body parameter.2
      exact (converges_bind (replaceAll_stable body _ _) (substitute_stable rest)).mpr
        ⟨_, replaces, ih _⟩

theorem converges_templatize_iff (parameters : List (Bytes × Bytes)) (body page : Bytes) :
    Converges (templatize parameters body) page ↔
      Converges (fun fuel => cleanUp fuel (substituted parameters body)) page := by
  have substitutes := substitute_converges parameters body
  have stable := substitute_stable parameters body
  refine (converges_bind stable cleanUp_stable).trans ?_
  constructor
  · rintro ⟨other, others, cleans⟩
    rwa [stable.unique substitutes others]
  · intro cleans
    exact ⟨_, substitutes, cleans⟩

/-- The substitution ends, and with a result that a string can hold the
rendering ends exactly when no round of the clean-up is stuck. -/
theorem templatize_terminates_iff (parameters : List (Bytes × Bytes)) (content : Bytes) :
    Converges (substitute parameters content) (substituted parameters content) ∧
      ((substituted parameters content).length < 2 ^ 63 →
        ((∃ page, Converges (templatize parameters content) page) ↔
          NeverStuck (substituted parameters content))) := by
  refine ⟨substitute_converges parameters content, fun short => ?_⟩
  simp only [converges_templatize_iff]
  exact cleanUp_converges_iff short

theorem templatize_terminates_iff_greeting :
    (∃ page, Converges (templatize [(bytes "name", bytes "you")]
        (bytes "hi " ++ opening ++ bytes "name" ++ closing)) page) ↔
      NeverStuck (substituted [(bytes "name", bytes "you")]
        (bytes "hi " ++ opening ++ bytes "name" ++ closing)) :=
  (templatize_terminates_iff _ _).2 (by decide +kernel)

/-- A page of six braces, with the closing ones first, is never rendered. -/
theorem not_templatize_terminates :
    ¬ ∀ (parameters : List (Bytes × Bytes)) (content : Bytes), content.length < bufferLimit →
      ∃ page, Converges (templatize parameters content) page := by
  intro terminates
  obtain ⟨page, converges⟩ := terminates [] (closing ++ opening) (by decide)
  obtain ⟨fuel, answer⟩ := (converges_templatize_iff _ _ _).mp converges
  have stuck : Stuck (closing ++ opening) := ⟨0, by decide, by decide⟩
  exact absurd (answer.symm.trans (cleanUp_of_stuck stuck fuel)) (Option.some_ne_none page)

end HttpApi

end Libjaypea
