import Mathlib.Algebra.Group.Int.Defs
import Mathlib.Algebra.Group.Nat.Defs
import Mathlib.Data.List.Basic

/-!
# Bytes, C strings and memory

A C string is a region of memory that ends at its first zero byte.  Memory is
modelled as a total function from addresses to bytes, so that code which walks
past the terminator reads whatever happens to lie there; address zero is the
null pointer.
-/

namespace Libjaypea

/-- The contents of a `std::string`: any bytes, zero included. -/
abbrev Bytes := List UInt8

/-- A C character literal. -/
def ch (character : Char) : UInt8 :=
  character.toUInt8

/-- A C string literal without its terminator. -/
def bytes (literal : String) : Bytes :=
  literal.toList.map ch

theorem ch_eq_ch_iff {first second : Char} (firstSmall : first.toNat < 256)
    (secondSmall : second.toNat < 256) : ch first = ch second ↔ first = second := by
  constructor
  · intro equal
    have values := congrArg UInt8.toNat equal
    simp only [ch, Char.toUInt8, UInt32.toNat_toUInt8] at values
    change first.toNat % 256 = second.toNat % 256 at values
    rw [Nat.mod_eq_of_lt firstSmall, Nat.mod_eq_of_lt secondSmall] at values
    exact Char.toNat_inj.mp values
  · rintro rfl
    rfl

/-- A statement about the elements of a list is decided by its elements alone. -/
theorem forall_mem_of_all {α : Type*} {holds : α → Prop} [DecidablePred holds] {list : List α}
    (all : list.all (fun element => decide (holds element)) = true) :
    ∀ element ∈ list, holds element :=
  fun element member => of_decide_eq_true (List.all_eq_true.mp all element member)

/-- A statement about every byte is one about 256 numbers. -/
theorem forall_byte {holds : UInt8 → Prop}
    (numbers : ∀ number < 256, holds (UInt8.ofNat number)) (byte : UInt8) : holds byte := by
  have here := numbers byte.toNat byte.toNat_lt
  rwa [UInt8.ofNat_toNat] at here

/-- What `c_str()` passes on: the bytes in front of the first zero. -/
def cString (text : Bytes) : Bytes :=
  text.takeWhile (· ≠ 0)

@[simp]
theorem cString_nil : cString [] = [] :=
  rfl

theorem cString_cons (byte : UInt8) (text : Bytes) :
    cString (byte :: text) = if byte = 0 then [] else byte :: cString text := by
  by_cases zero : byte = 0 <;> simp [cString, zero]

theorem cString_append {front : Bytes} (clean : 0 ∉ front) (text : Bytes) :
    cString (front ++ text) = front ++ cString text := by
  induction front with
  | nil => rfl
  | cons byte front ih =>
      simp only [List.mem_cons, not_or] at clean
      rw [List.cons_append, cString_cons, if_neg (Ne.symm clean.1), ih clean.2, List.cons_append]

theorem cString_of_noZero {text : Bytes} (noZero : 0 ∉ text) : cString text = text := by
  simpa using cString_append noZero []

/-- Nothing passes behind a zero. -/
theorem cString_append_of_mem {text : Bytes} (zero : 0 ∈ text) (behind : Bytes) :
    cString (text ++ behind) = cString text := by
  induction text with
  | nil => cases zero
  | cons byte text ih =>
      rw [List.cons_append, cString_cons, cString_cons]
      by_cases here : byte = 0
      · rw [if_pos here, if_pos here]
      · rw [if_neg here, if_neg here, ih ((List.mem_cons.mp zero).resolve_left (Ne.symm here))]

abbrev Memory := Nat → UInt8

namespace Memory

/-- The bytes of `text` lie in memory from `address` on. -/
def Holds (memory : Memory) (address : Nat) : Bytes → Prop
  | [] => True
  | byte :: rest => memory address = byte ∧ Holds memory (address + 1) rest

@[simp]
theorem holds_nil (memory : Memory) (address : Nat) : memory.Holds address [] :=
  trivial

@[simp]
theorem holds_cons (memory : Memory) (address : Nat) (byte : UInt8) (rest : Bytes) :
    memory.Holds address (byte :: rest) ↔
      memory address = byte ∧ memory.Holds (address + 1) rest :=
  Iff.rfl

theorem holds_append {memory : Memory} {address : Nat} {first second : Bytes} :
    memory.Holds address (first ++ second) ↔
      memory.Holds address first ∧ memory.Holds (address + first.length) second := by
  induction first generalizing address with
  | nil => simp
  | cons byte rest ih =>
      have shift : address + 1 + rest.length = address + (rest.length + 1) := by omega
      simp [ih, shift, and_assoc]

/-- Memory that holds a string and its terminator at address one, and the
bytes of `stale` everywhere behind it.  This is where `c_str()` points. -/
def ofString (stale : Memory) (text : Bytes) : Memory :=
  fun address => (0 :: text ++ [0])[address]?.getD (stale address)

theorem holds_iff {memory : Memory} {text : Bytes} (start : Nat) :
    memory.Holds start text ↔
      ∀ index, (bound : index < text.length) → memory (start + index) = text[index] := by
  induction text generalizing start with
  | nil => simp
  | cons byte rest ih =>
      rw [holds_cons, ih (start + 1)]
      constructor
      · rintro ⟨here, later⟩ index bound
        cases index with
        | zero => exact here
        | succ index =>
            have agrees := later index (Nat.lt_of_succ_lt_succ bound)
            have shift : start + 1 + index = start + (index + 1) := by omega
            rwa [shift] at agrees
      · intro agrees
        refine ⟨agrees 0 (Nat.zero_lt_succ _), fun index bound => ?_⟩
        have shift : start + 1 + index = start + (index + 1) := by omega
        rw [shift]
        exact agrees (index + 1) (Nat.succ_lt_succ bound)

theorem ofString_holds (stale : Memory) (text : Bytes) :
    (ofString stale text).Holds 1 (text ++ [0]) := by
  rw [holds_iff]
  intro index bound
  have inside : 1 + index < (0 :: text ++ [0]).length := by
    simp only [List.length_append, List.length_cons, List.length_nil] at bound ⊢
    omega
  simp only [ofString, List.getElem?_eq_getElem inside, Option.getD_some]
  simp [Nat.add_comm 1 index]

end Memory

end Libjaypea
