import Libjaypea.HttpApi
import Libjaypea.Runs

/-!
# The route without its double dots

`respond_http` appends the route to the public directory, but drops a dot in
front of another one.  What it appends is the route with each maximal run of
dots made a single dot.
-/

namespace Libjaypea

namespace HttpApi

open Runs

/-- What the loop appends, index by index.  An empty route has no index, so that
the unsigned length less one does not wrap where it is read. -/
def appended (route : Bytes) : Bytes :=
  (List.range route.length).filterMap fun i =>
    if i < route.length - 1 ∧ route[i]? = some (ch '.') ∧ route[i + 1]? = some (ch '.') then none
    else route[i]?

theorem appended_cons_cons (byte following : UInt8) (rest : Bytes) :
    appended (byte :: following :: rest) =
      (if byte = ch '.' ∧ following = ch '.' then [] else [byte]) ++
        appended (following :: rest) := by
  have later : (List.range (following :: rest).length).filterMap
      ((fun i =>
        if i < (byte :: following :: rest).length - 1 ∧
            (byte :: following :: rest)[i]? = some (ch '.') ∧
            (byte :: following :: rest)[i + 1]? = some (ch '.') then none
        else (byte :: following :: rest)[i]?) ∘ Nat.succ) = appended (following :: rest) := by
    apply List.filterMap_congr
    intro i _
    have bound : i + 1 < (byte :: following :: rest).length - 1 ↔
        i < (following :: rest).length - 1 := by
      simp only [List.length_cons]
      omega
    simp only [Function.comp_apply, Nat.succ_eq_add_one, bound, List.getElem?_cons_succ]
  rw [appended, List.length_cons, List.range_succ_eq_map, List.filterMap_cons, List.filterMap_map,
    ← later]
  by_cases dots : byte = ch '.' ∧ following = ch '.'
  · simp [dots]
  · simp [dots]

theorem appended_eq_cleanRoute (route : Bytes) : appended route = cleanRoute route := by
  induction route using cleanRoute.induct with
  | case1 => rfl
  | case2 byte => rfl
  | case3 byte following rest dots ih =>
      rw [appended_cons_cons, if_pos dots, ih, cleanRoute, if_pos dots]
      rfl
  | case4 byte following rest apart ih =>
      rw [appended_cons_cons, if_neg apart, ih, cleanRoute, if_neg apart]
      rfl

theorem head?_cleanRoute (route : Bytes) : (cleanRoute route).head? = route.head? := by
  induction route using cleanRoute.induct with
  | case1 => rfl
  | case2 byte => rfl
  | case3 byte following rest dots ih =>
      rw [cleanRoute, if_pos dots, ih, dots.1, dots.2]
      rfl
  | case4 byte following rest apart ih =>
      rw [cleanRoute, if_neg apart]
      rfl

theorem not_infix_cleanRoute (route : Bytes) : ¬ [ch '.', ch '.'] <:+: cleanRoute route := by
  induction route using cleanRoute.induct with
  | case1 => decide
  | case2 byte =>
      intro inside
      have short := inside.length_le
      simp [cleanRoute] at short
  | case3 byte following rest dots ih =>
      rw [cleanRoute, if_pos dots]
      exact ih
  | case4 byte following rest apart ih =>
      rw [cleanRoute, if_neg apart, List.infix_cons_iff]
      rintro (begins | later)
      · obtain ⟨after, equal⟩ := begins
        obtain ⟨first, second⟩ := List.cons_eq_cons.mp equal
        have next := head?_cleanRoute (following :: rest)
        rw [← second] at next
        exact apart ⟨first.symm, (Option.some.inj next).symm⟩
      · exact ih later

/-- A route that has no double dot is kept. -/
theorem cleanRoute_of_not_infix {route : Bytes} (single : ¬ [ch '.', ch '.'] <:+: route) :
    cleanRoute route = route := by
  induction route using cleanRoute.induct with
  | case1 => rfl
  | case2 byte => rfl
  | case3 byte following rest dots ih =>
      rw [dots.1, dots.2] at single
      exact absurd ⟨[], rest, rfl⟩ single
  | case4 byte following rest apart ih =>
      have later := ih fun inside => single (List.infix_cons inside)
      rw [cleanRoute, if_neg apart, later]

/-- A byte that is not followed by its like is kept. -/
theorem cleanRoute_cons_of_head?_ne {byte : UInt8} {back : Bytes}
    (apart : byte = ch '.' → back.head? ≠ some (ch '.')) :
    cleanRoute (byte :: back) = byte :: cleanRoute back := by
  cases back with
  | nil => rfl
  | cons following rest =>
      have single : ¬ (byte = ch '.' ∧ following = ch '.') := by
        rintro ⟨dot, rfl⟩
        exact apart dot rfl
      rw [cleanRoute, if_neg single]

theorem cleanRoute_run {back : Bytes} (ends : back.head? ≠ some (ch '.')) (count : Nat) :
    cleanRoute (List.replicate (count + 1) (ch '.') ++ back) = ch '.' :: cleanRoute back := by
  induction count with
  | zero => exact cleanRoute_cons_of_head?_ne fun _ => ends
  | succ count ih =>
      rw [List.replicate_succ, List.replicate_succ, List.cons_append, List.cons_append, cleanRoute,
        if_pos ⟨rfl, rfl⟩, ← List.cons_append, ← List.replicate_succ, ih]

/-- Of every piece the first byte is left. -/
theorem cleanRoute_pieces {route : Bytes} {pieces : List Bytes}
    (cut : Pieces (ch '.') route pieces) :
    cleanRoute route = pieces.flatMap (List.take 1) := by
  induction pieces generalizing route with
  | nil =>
      rw [← cut.whole]
      rfl
  | cons piece pieces ih =>
      rw [← cut.whole, List.flatten_cons, List.flatMap_cons, ← ih cut.tail]
      rcases cut.piece piece List.mem_cons_self with ⟨count, rfl⟩ | ⟨other, differs, rfl⟩
      · exact cleanRoute_run cut.head?_ne count
      · exact cleanRoute_cons_of_head?_ne fun dot => absurd dot differs

/-- The route is cut into its maximal runs of dots and its other bytes, of each
run one dot is appended, and every other byte as it is. -/
theorem cleanRoute_collapses (route : Bytes) :
    (∃ pieces, Pieces (ch '.') route pieces) ∧
      (∀ pieces, Pieces (ch '.') route pieces →
        appended route = pieces.flatMap (List.take 1)) ∧
      ¬ bytes ".." <:+: appended route ∧
      appended (appended route) = appended route := by
  refine ⟨exists_pieces _ route, fun pieces cut => ?_, ?_, ?_⟩
  · rw [appended_eq_cleanRoute, cleanRoute_pieces cut]
  · rw [appended_eq_cleanRoute]
    exact not_infix_cleanRoute route
  · rw [appended_eq_cleanRoute, appended_eq_cleanRoute]
    exact cleanRoute_of_not_infix (not_infix_cleanRoute route)

end HttpApi

end Libjaypea
