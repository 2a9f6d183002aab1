import Mathlib.Logic.Basic

/-!
# Fuelled computations

A loop or a recursion that need not end is modelled by a function of a fuel
argument which answers `none` when the fuel runs out.  This file says what it
means for such a computation to converge, and proves that an answer does not
depend on the amount of fuel once every stage of the computation is stable.
-/

namespace Libjaypea

namespace Fuelled

variable {α β : Type*}

/-- Some amount of fuel suffices to produce `value`. -/
def Converges (run : Nat → Option α) (value : α) : Prop :=
  ∃ fuel, run fuel = some value

/-- More fuel never changes an answer. -/
def Stable (run : Nat → Option α) : Prop :=
  ∀ fuel value, run fuel = some value → run (fuel + 1) = some value

theorem Stable.of_le {run : Nat → Option α} (stable : Stable run)
    {fuel more : Nat} (le : fuel ≤ more) {value : α}
    (answer : run fuel = some value) : run more = some value := by
  induction le with
  | refl => exact answer
  | step _ ih => exact stable _ _ ih

theorem Stable.unique {run : Nat → Option α} (stable : Stable run)
    {first second : α} (firstConverges : Converges run first)
    (secondConverges : Converges run second) : first = second := by
  obtain ⟨firstFuel, firstEq⟩ := firstConverges
  obtain ⟨secondFuel, secondEq⟩ := secondConverges
  have firstLarge := stable.of_le (Nat.le_max_left firstFuel secondFuel) firstEq
  have secondLarge := stable.of_le (Nat.le_max_right firstFuel secondFuel) secondEq
  exact Option.some.inj (firstLarge.symm.trans secondLarge)

theorem stable_const (answer : Option α) : Stable fun _ => answer :=
  fun _ _ equal => equal

theorem Stable.bind {run : Nat → Option α} {next : α → Nat → Option β}
    (runStable : Stable run) (nextStable : ∀ value, Stable (next value)) :
    Stable fun fuel => (run fuel).bind fun value => next value fuel := by
  intro fuel answer equal
  obtain ⟨value, runEq, nextEq⟩ := Option.bind_eq_some_iff.mp equal
  exact Option.bind_eq_some_iff.mpr
    ⟨value, runStable _ _ runEq, nextStable value _ _ nextEq⟩

theorem Stable.map {run : Nat → Option α} (stable : Stable run) (change : α → β) :
    Stable fun fuel => (run fuel).map change := by
  intro fuel answer equal
  obtain ⟨value, runEq, rfl⟩ := Option.map_eq_some_iff.mp equal
  exact Option.map_eq_some_iff.mpr ⟨value, stable fuel value runEq, rfl⟩

/-- A sequential composition converges exactly when both stages do. -/
theorem converges_bind {run : Nat → Option α} {next : α → Nat → Option β}
    (runStable : Stable run) (nextStable : ∀ value, Stable (next value))
    {answer : β} :
    Converges (fun fuel => (run fuel).bind fun value => next value fuel) answer ↔
      ∃ value, Converges run value ∧ Converges (next value) answer := by
  constructor
  · rintro ⟨fuel, equal⟩
    obtain ⟨value, runEq, nextEq⟩ := Option.bind_eq_some_iff.mp equal
    exact ⟨value, ⟨fuel, runEq⟩, ⟨fuel, nextEq⟩⟩
  · rintro ⟨value, ⟨runFuel, runEq⟩, ⟨nextFuel, nextEq⟩⟩
    refine ⟨max runFuel nextFuel, Option.bind_eq_some_iff.mpr ⟨value, ?_, ?_⟩⟩
    · exact runStable.of_le (Nat.le_max_left _ _) runEq
    · exact (nextStable value).of_le (Nat.le_max_right _ _) nextEq

theorem converges_map {run : Nat → Option α} {change : α → β} {answer : β} :
    Converges (fun fuel => (run fuel).map change) answer ↔
      ∃ value, Converges run value ∧ answer = change value := by
  simp only [Converges, Option.map_eq_some_iff]
  constructor
  · rintro ⟨fuel, value, equal, rfl⟩
    exact ⟨value, ⟨fuel, equal⟩, rfl⟩
  · rintro ⟨value, ⟨fuel, equal⟩, rfl⟩
    exact ⟨fuel, value, equal, rfl⟩

theorem converges_const {value answer : α} :
    Converges (fun _ => some value) answer ↔ answer = value := by
  simp [Converges, eq_comm]

/-- Spending one unit of fuel up front does not change what is computed. -/
theorem converges_succ {run : Nat → Option α} {next : Nat → Option α}
    (zero : run 0 = none) (succ : ∀ fuel, run (fuel + 1) = next fuel) {value : α} :
    Converges run value ↔ Converges next value := by
  constructor
  · rintro ⟨fuel, equal⟩
    cases fuel with
    | zero => simp [zero] at equal
    | succ fuel => exact ⟨fuel, by rw [← succ]; exact equal⟩
  · rintro ⟨fuel, equal⟩
    exact ⟨fuel + 1, by rw [succ]; exact equal⟩

end Fuelled

end Libjaypea
