import Libjaypea.Replacement
import Libjaypea.Util

/-!
# Search and replacement in a string

`find` gives the first occurrence, and `replace_all` replaces every occurrence
of a pattern from left to right.  It ends for every pattern but the empty one.
-/

namespace Libjaypea

namespace Util

open Fuelled Replacement

section Find

variable {pattern : Bytes}

theorem find_cons (byte : UInt8) (rest : Bytes) :
    find pattern (byte :: rest) =
      if pattern <+: byte :: rest then some 0 else (find pattern rest).map (· + 1) := by
  simp only [find, List.isPrefixOf_iff_prefix]

/-- The occurrence behind a part in which none begins. -/
theorem find_append_pattern {front back : Bytes} (free : Free pattern front (pattern ++ back)) :
    find pattern (front ++ (pattern ++ back)) = some front.length := by
  induction front with
  | nil =>
      cases pattern with
      | nil => cases back <;> simp [find]
      | cons first rest =>
          have here : first :: rest <+: first :: (rest ++ back) :=
            List.prefix_append (first :: rest) back
          rw [List.nil_append, List.cons_append, find_cons, if_pos here]
          rfl
  | cons first front ih =>
      rw [List.cons_append, find_cons, if_neg free.1, ih free.2]
      rfl

theorem exists_of_find_eq_some {text : Bytes} {index : Nat}
    (found : find pattern text = some index) :
    ∃ front back, text = front ++ (pattern ++ back) ∧ front.length = index ∧
      Free pattern front (pattern ++ back) := by
  induction text generalizing index with
  | nil =>
      unfold find at found
      rw [Option.ite_none_right_eq_some] at found
      obtain ⟨rfl, equal⟩ := found
      cases equal
      exact ⟨[], [], rfl, rfl, trivial⟩
  | cons first rest ih =>
      rw [find_cons] at found
      split at found
      · rename_i here
        obtain ⟨back, equal⟩ := here
        cases found
        exact ⟨[], back, equal.symm, rfl, trivial⟩
      · rename_i here
        obtain ⟨later, foundLater, rfl⟩ := Option.map_eq_some_iff.mp found
        obtain ⟨front, back, rfl, rfl, free⟩ := ih foundLater
        exact ⟨first :: front, back, rfl, rfl, here, free⟩

theorem find_eq_none_iff {text : Bytes} :
    find pattern text = none ↔ ¬ pattern <:+: text := by
  constructor
  · rintro absent ⟨front, back, rfl⟩
    induction front with
    | nil =>
        have here : find pattern (pattern ++ back) = some 0 :=
          @find_append_pattern pattern [] back trivial
        rw [List.nil_append, here] at absent
        cases absent
    | cons first front ih =>
        rw [List.cons_append, List.cons_append, find_cons] at absent
        split at absent
        · cases absent
        · exact ih (Option.map_eq_none_iff.mp absent)
  · intro absent
    by_contra found
    obtain ⟨index, found⟩ := Option.ne_none_iff_exists'.mp found
    obtain ⟨front, back, rfl, -, -⟩ := exists_of_find_eq_some found
    exact absent ⟨front, back, List.append_assoc front pattern back⟩

end Find

section ReplaceAll

variable {pattern : Bytes}

theorem findFrom_append (done rest : Bytes) :
    findFrom (done ++ rest) pattern done.length =
      (find pattern rest).map (done.length + ·) := by
  rw [findFrom, if_pos (by simp), List.drop_left]

/-- The loop leaves what it has done, and replaces in the rest. -/
theorem replaceAllFrom_converges (nonempty : pattern ≠ []) (replacement done rest : Bytes) :
    Converges
      (fun fuel => replaceAllFrom pattern replacement fuel (done ++ rest) done.length)
      (done ++ replaced pattern replacement rest) := by
  induction length : rest.length using Nat.strongRecOn generalizing done rest with
  | ind size ih =>
      cases found : find pattern rest with
      | none =>
          have free := (free_iff_absent nonempty).mpr (find_eq_none_iff.mp found)
          rw [replaced_of_free replacement free]
          refine ⟨1, ?_⟩
          simp only [replaceAllFrom, findFrom_append, found, Option.map_none]
      | some index =>
          obtain ⟨front, back, rfl, rfl, free⟩ := exists_of_find_eq_some found
          have positive := List.length_pos_iff.mpr nonempty
          simp only [List.length_append] at length
          obtain ⟨fuel, later⟩ := ih back.length (by omega) (done ++ front ++ replacement) back rfl
          refine ⟨fuel + 1, ?_⟩
          have before : (done ++ (front ++ (pattern ++ back))).take (done.length + front.length) =
              done ++ front := by
            rw [← List.append_assoc, ← List.length_append, List.take_left]
          have behind : (done ++ (front ++ (pattern ++ back))).drop
              (done.length + front.length + pattern.length) = back := by
            rw [← List.append_assoc, ← List.append_assoc, ← List.length_append,
              ← List.length_append, List.drop_left]
          have position : done.length + front.length + replacement.length =
              (done ++ front ++ replacement).length := by
            rw [List.length_append, List.length_append]
          simp only [replaceAllFrom, findFrom_append, found, Option.map_some, before, behind,
            position, later]
          rw [replaced_append_of_free replacement free,
            replaced_append_pattern replacement nonempty]
          simp only [List.append_assoc]

theorem replaceAll_converges (nonempty : pattern ≠ []) (source replacement : Bytes) :
    Converges (replaceAll source pattern replacement)
      (replaced pattern replacement source) :=
  replaceAllFrom_converges nonempty replacement [] source

/-- `replace_all` cuts the source at the leftmost occurrences, which it can be in
one way only, and joins the pieces with the replacement. -/
theorem replaceAll_leftmost (nonempty : pattern ≠ []) (source replacement : Bytes) :
    ∃ pieces, Cut pattern source pieces ∧ pattern.intercalate pieces = source ∧
      (∀ others, Cut pattern source others → others = pieces) ∧
      ∀ result, Converges (replaceAll source pattern replacement) result ↔
        result = replacement.intercalate pieces := by
  obtain ⟨pieces, cut⟩ := exists_cut nonempty source
  have converges := replaceAll_converges nonempty source replacement
  rw [cut.replaced nonempty] at converges
  refine ⟨pieces, cut, cut.join, fun others other => other.unique cut, fun result => ?_⟩
  constructor
  · intro answer
    exact (replaceAll_stable source pattern replacement).unique answer converges
  · rintro rfl
    exact converges

/-- The replacement contains the pattern, and the text around it makes more. -/
theorem replaceAll_leftmost_growing :
    Converges (replaceAll (bytes "aaabaa") (bytes "aa") (bytes "baaa")) (bytes "baaaabbaaa") := by
  have cut : Cut (bytes "aa") (bytes "aaabaa") [[], bytes "ab", []] :=
    @Cut.next _ _ [] (bytes "abaa") _ trivial
      (@Cut.next _ _ (bytes "ab") [] _ ⟨by decide, by decide, trivial⟩ (.last (by decide)))
  obtain ⟨pieces, -, -, only, result⟩ :=
    replaceAll_leftmost (show bytes "aa" ≠ [] by decide) (bytes "aaabaa") (bytes "baaa")
  rw [result, ← only _ cut]
  decide

/-- The empty pattern is found wherever the search begins. -/
theorem replaceAllFrom_nil (replacement source : Bytes) {position : Nat}
    (inside : position ≤ source.length) (fuel : Nat) :
    replaceAllFrom [] replacement fuel source position = none := by
  induction fuel generalizing source position with
  | zero => rfl
  | succ fuel ih =>
      have here : find [] (source.drop position) = some 0 := by
        cases source.drop position <;> rfl
      have found : findFrom source [] position = some position := by
        rw [findFrom, if_pos inside, here]
        rfl
      simp only [replaceAllFrom, found]
      apply ih
      simp only [List.length_append, List.length_take, List.length_drop]
      omega

theorem replaceAll_nil (source replacement : Bytes) (fuel : Nat) :
    replaceAll source [] replacement fuel = none :=
  replaceAllFrom_nil replacement source (Nat.zero_le _) fuel

end ReplaceAll

end Util

end Libjaypea
