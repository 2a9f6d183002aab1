import Libjaypea.Util

/-!
# Comparison of C strings

`strict_compare_inequal` compares as many bytes as its count says.  The default
count is negative, so that nothing is compared and no two strings are inequal;
with a count of zero any two strings are.
-/

namespace Libjaypea

namespace Util

open Fuelled

/-- The count of a call that gives none. -/
def defaultCount : Int :=
  -1

/-- The bytes are at the pointer, with a terminator behind them. -/
abbrev At (memory : Memory) (text : Bytes) : Prop :=
  memory.Holds 0 (text ++ [0])

/-- The memory that holds a string at its start. -/
theorem exists_at (text : Bytes) : ∃ memory : Memory, At memory text := by
  refine ⟨fun address => (text ++ [0])[address]?.getD 0, (Memory.holds_iff 0).mpr ?_⟩
  intro index bound
  rw [Nat.zero_add, List.getElem?_eq_getElem bound]
  rfl

/-- What the comparison is for, whatever lies behind the terminators: with a count
up to the first of them it finds whether so many bytes differ, and without one
whether the strings do. -/
def Compares (a b : Bytes) : Prop :=
  ∀ first second, At first a → At second b →
    (∀ n : Int, 0 < n → n ≤ min a.length b.length + 1 →
      Converges (strictCompareInequal first second n)
        (decide ((a ++ [0]).take n.toNat ≠ (b ++ [0]).take n.toNat))) ∧
    Converges (strictCompareInequal first second defaultCount) (decide (a ≠ b))

variable {first second : Memory} {a b : Bytes}

/-- No byte is compared. -/
theorem strictCompareInequal_default (first second : Memory) (fuel : Nat) :
    strictCompareInequal first second defaultCount fuel = some false :=
  rfl

/-- The first bytes at a pointer are those of the string. -/
theorem At.map_range (holds : At first a) {n : Nat} (inside : n ≤ (a ++ [0]).length) :
    (List.range n).map first = (a ++ [0]).take n := by
  have agrees := (Memory.holds_iff 0).mp holds
  apply List.ext_getElem
  · rw [List.length_map, List.length_range, List.length_take, Nat.min_eq_left inside]
  · intro i bound _
    rw [List.length_map, List.length_range] at bound
    have byte := agrees i (Nat.lt_of_lt_of_le bound inside)
    rw [Nat.zero_add] at byte
    rw [List.getElem_map, List.getElem_range, List.getElem_take, byte]

theorem strictCompareInequal_of_pos (firstHolds : At first a) (secondHolds : At second b) {n : Int}
    (positive : 0 < n) (short : n ≤ min a.length b.length + 1) (fuel : Nat) :
    strictCompareInequal first second n fuel =
      some (decide ((a ++ [0]).take n.toNat ≠ (b ++ [0]).take n.toNat)) := by
  have firstLong : n.toNat ≤ (a ++ [0]).length := by
    rw [List.length_append, List.length_singleton]
    omega
  have secondLong : n.toNat ≤ (b ++ [0]).length := by
    rw [List.length_append, List.length_singleton]
    omega
  rw [strictCompareInequal, if_pos (by omega), Option.some_inj, Bool.eq_iff_iff, decide_eq_true_iff,
    ← firstHolds.map_range firstLong, ← secondHolds.map_range secondLong, Ne, List.map_inj_left]
  simp

/-- Without a bound the loop ends at a terminator at the latest, and answers
that the strings are inequal whether they are or not. -/
theorem strictCompareUnbounded_converges (i : Nat) (firstHolds : first.Holds i (a ++ [0]))
    (secondHolds : second.Holds i (b ++ [0])) :
    Converges (fun fuel => strictCompareUnbounded first second fuel i) true := by
  induction a generalizing b i with
  | nil =>
      have zero : first i = 0 := firstHolds.1
      exact ⟨1, by simp [strictCompareUnbounded, zero, charToInt]⟩
  | cons byte a ih =>
      cases b with
      | nil =>
          have zero : second i = 0 := secondHolds.1
          exact ⟨1, by simp [strictCompareUnbounded, zero, charToInt]⟩
      | cons other b =>
          obtain ⟨fuel, later⟩ := ih (i + 1) firstHolds.2 secondHolds.2
          refine ⟨fuel + 1, ?_⟩
          simp only [strictCompareUnbounded, later, ite_self]

theorem strictCompareInequal_zero (firstHolds : At first a) (secondHolds : At second b) :
    Converges (strictCompareInequal first second 0) true :=
  strictCompareUnbounded_converges 0 firstHolds secondHolds

theorem Compares.eq (compares : Compares a b) : a = b := by
  obtain ⟨first, firstHolds⟩ := exists_at a
  obtain ⟨second, secondHolds⟩ := exists_at b
  obtain ⟨fuel, answer⟩ := (compares first second firstHolds secondHolds).2
  rw [strictCompareInequal_default, Option.some_inj] at answer
  simpa using answer.symm

/-- The default count compares only equal strings rightly. -/
theorem compares_iff (a b : Bytes) : Compares a b ↔ a = b := by
  constructor
  · exact Compares.eq
  · rintro rfl first second firstHolds secondHolds
    constructor
    · intro n positive short
      exact ⟨0, strictCompareInequal_of_pos firstHolds secondHolds positive short 0⟩
    · refine ⟨0, ?_⟩
      rw [strictCompareInequal_default, decide_eq_false fun differs => differs rfl]

theorem not_compares_letters : ¬ Compares (bytes "a") (bytes "b") := by
  intro compares
  exact absurd compares.eq (by decide)

/-- What the test of the JSON parser prints of an object and of what is read
back from it. -/
def verification (objectMemory verifyMemory : Memory) (objectString verifyString : Bytes)
    (fuel : Nat) : Option Bytes :=
  (strictCompareInequal objectMemory verifyMemory defaultCount fuel).map fun inequal =>
    if inequal then bytes "Verification Failure...\n"
    else if objectString.length ≠ verifyString.length then
      bytes "Verification Failure CHECK LENGTH...\n"
    else bytes "Verification Success!\n"

/-- The test is content with any text of the same length. -/
theorem verification_succeeds_iff (objectMemory verifyMemory : Memory)
    (objectString verifyString : Bytes) (fuel : Nat) :
    verification objectMemory verifyMemory objectString verifyString fuel =
        some (bytes "Verification Success!\n") ↔
      objectString.length = verifyString.length := by
  rw [verification, strictCompareInequal_default, Option.map_some, Option.some_inj]
  by_cases same : objectString.length = verifyString.length
  · simp [same]
  · have other : bytes "Verification Failure CHECK LENGTH...\n" ≠
        bytes "Verification Success!\n" := by decide
    simp [same, other]

end Util

end Libjaypea
