import Libjaypea.TokenTrip

/-!
# The two decoders of escaped strings

`escape` writes five bytes as a backslash and a letter.  `deescape` reads all
five back.  `parse` takes the byte behind a backslash as it is and skips the
letters of the other three, so that line feeds, returns and tabs get lost.
-/

namespace Libjaypea

open Fuelled JsonObject Token

namespace EscapeTrip

/-- `parse` and `deescape` both return the string that was escaped. -/
structure Inverted (memory : Memory) (str : Nat) (value : Bytes) : Prop where
  parsed : ∃ it, Converges (parse memory (new .notype) str) (ofString value, it)
  deescaped : deescape (escape value).tail.dropLast = value
  agree : ∀ built it, Converges (parse memory (new .notype) str) (built, it) →
    built.type = .string ∧ built.stringValue = deescape (escape value).tail.dropLast

theorem collects_escapeByte_kept {byte : UInt8} (nonzero : byte ≠ 0) :
    Collects (escapeByte byte) (kept [byte]) := by
  rcases escapeByte_cases byte with ⟨plain, others⟩ | ⟨letter, escapes, written⟩
  · have visible : dropped byte = false := by
      rw [Bool.eq_false_iff]
      intro drops
      have member : byte ∈ escapeLetters.map Prod.snd := by
        rcases of_decide_eq_true drops with rfl | rfl | rfl <;> decide
      obtain ⟨entry, present, same⟩ := List.mem_map.mp member
      exact others entry present same.symm
    rw [plain, kept, List.filter_cons_of_pos (by simp [visible])]
    exact .plain nonzero (others (ch '"', ch '"') (by decide))
      (others (ch '\\', ch '\\') (by decide)) .nil
  · have letters : ∀ entry ∈ escapeLetters,
        (entry.1 ∉ bytes "nrt" ∧ kept [entry.2] = [entry.1]) ∨
          (entry.1 ∈ bytes "nrt" ∧ kept [entry.2] = []) :=
      forall_mem_of_all (by decide)
    rw [written]
    rcases letters _ escapes with ⟨keeps, same⟩ | ⟨drops, same⟩
    · rw [same]
      exact .kept keeps .nil
    · rw [same]
      exact .dropped drops .nil

/-- What `parse` collects from an escaped string. -/
theorem collects_flatMap_escapeByte {value : Bytes} (noZero : 0 ∉ value) :
    Collects (value.flatMap escapeByte) (kept value) := by
  induction value with
  | nil => exact .nil
  | cons byte value ih =>
      obtain ⟨head, tail⟩ := not_or.mp (List.mem_cons.not.mp noZero)
      have split : kept (byte :: value) = kept [byte] ++ kept value :=
        List.filter_append [byte] value
      rw [List.flatMap_cons, split]
      exact (collects_escapeByte_kept (Ne.symm head)).append (ih tail)

theorem parse_escape {memory : Memory} {str : Nat} {value : Bytes} (noZero : 0 ∉ value)
    (holds : memory.Holds str (escape value)) :
    Converges (parse memory (new .notype) str)
      (ofString (kept value), str + (escape value).length) :=
  parses_string (collects_flatMap_escapeByte noZero) holds

theorem tail_dropLast_escape (value : Bytes) :
    (escape value).tail.dropLast = value.flatMap escapeByte :=
  List.dropLast_concat

theorem deescape_escape_unquoted (value : Bytes) :
    deescape (escape value).tail.dropLast = value := by
  have read := deescape_flatMap value []
  rwa [List.append_nil, deescape, List.append_nil, ← tail_dropLast_escape] at read

theorem kept_eq_self_iff {value : Bytes} :
    kept value = value ↔ ∀ byte ∈ value, dropped byte = false := by
  rw [kept, List.filter_eq_self]
  exact forall₂_congr fun byte _ => by simp

/-- Both decoders invert `escape` exactly on the strings without line feeds,
returns and tabs. -/
theorem inverted_iff {memory : Memory} {str : Nat} {value : Bytes} (noZero : 0 ∉ value)
    (holds : memory.Holds str (escape value)) :
    Inverted memory str value ↔ ∀ byte ∈ value, dropped byte = false := by
  have parsed := parse_escape noZero holds
  have unquoted := deescape_escape_unquoted value
  rw [← kept_eq_self_iff]
  constructor
  · intro inverted
    obtain ⟨it, other⟩ := inverted.parsed
    have same := (Parses.unique parsed other : _ = (ofString value, it))
    exact congrArg (fun result => result.1.stringValue) same
  · intro same
    rw [same] at parsed
    refine ⟨⟨_, parsed⟩, unquoted, fun built it other => ?_⟩
    obtain ⟨rfl, -⟩ := Prod.mk.inj (Parses.unique parsed other)
    exact ⟨rfl, unquoted.symm⟩

theorem inverted_backslashes :
    Inverted (Memory.ofString (fun _ => 0) (escape (bytes "a\\n\"\\\\"))) 1 (bytes "a\\n\"\\\\") :=
  (inverted_iff (by decide) (Memory.holds_append.mp (Memory.ofString_holds _ _)).1).mpr
    (forall_mem_of_all (by decide))

/-- A line feed is lost in `parse` only. -/
theorem not_inverted_lineFeed :
    ¬ Inverted (Memory.ofString (fun _ => 0) (escape (bytes "a\n"))) 1 (bytes "a\n") ∧
      Converges (parse (Memory.ofString (fun _ => 0) (escape (bytes "a\n"))) (new .notype) 1)
        (ofString (bytes "a"), 6) ∧
      deescape (escape (bytes "a\n")).tail.dropLast = bytes "a\n" := by
  have holds := (Memory.holds_append.mp
    (Memory.ofString_holds (fun _ => 0) (escape (bytes "a\n")))).1
  have parsed := @parse_escape _ _ (bytes "a\n") (by decide) holds
  refine ⟨fun inverted => ?_, parsed, deescape_escape_unquoted _⟩
  obtain ⟨it, other⟩ := inverted.parsed
  have same : kept (bytes "a\n") = bytes "a\n" :=
    congrArg (fun result => result.1.stringValue) (Parses.unique parsed other)
  exact absurd same (by decide)

end EscapeTrip

end Libjaypea
