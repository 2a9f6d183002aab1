import Libjaypea.HeadPasses
import Libjaypea.PercentEncoding

/-!
# Percent-encoded request targets

A client writes a path or the value of a query parameter percent-encoded.  The
main loop of `parse_http_request` knows two of the codes, one of them as the
code of another byte, and takes the digits of all others as they are.
-/

namespace Libjaypea

open Fuelled JsonObject HttpHead HttpParse

/-- The bytes that a URL may hold without a code. -/
def unreserved (byte : UInt8) : Bool :=
  alphanumeric byte ∨ byte = ch '-' ∨ byte = ch '.' ∨ byte = ch '_' ∨ byte = ch '~'

def encodeTarget (text : Bytes) : Bytes :=
  percentEncode unreserved text

/-- What the parser takes a byte for that has been encoded. -/
def takenAs (byte : UInt8) : Bytes :=
  if unreserved byte ∨ byte = ch '\n' then [byte]
  else if byte = ch '&' then [ch '"']
  else [upperHex (byte.toNat / 16), upperHex (byte.toNat % 16)]

/-- Bytes that the parser takes for what they are. -/
def Survives (text : Bytes) : Prop :=
  ∀ byte ∈ text, unreserved byte ∨ byte = ch '\n'

instance (text : Bytes) : Decidable (Survives text) :=
  List.decidableBAll _ text

section Encoding

variable {text : Bytes} {byte written : UInt8}

theorem unreserved_of_alphanumeric (plain : alphanumeric byte) : unreserved byte := by
  simp [unreserved, plain]

theorem ne_of_unreserved {other : UInt8} (plain : unreserved byte)
    (special : unreserved other = false) : byte ≠ other := by
  rintro rfl
  rw [special] at plain
  cases plain

theorem mem_encodeTarget (member : written ∈ encodeTarget text) :
    unreserved written ∨ written = ch '%' := by
  rcases mem_percentEncode member with kept | percent | digit
  · exact .inl kept
  · exact .inr percent
  · exact .inl (unreserved_of_alphanumeric digit)

/-- No byte of an encoded text ends a part or the request. -/
theorem ne_of_mem_encodeTarget {other : UInt8} (special : unreserved other = false)
    (percent : other ≠ ch '%') (member : written ∈ encodeTarget text) : written ≠ other := by
  rcases mem_encodeTarget member with plain | rfl
  · exact ne_of_unreserved plain special
  · exact percent.symm

theorem inside_encodeTarget {part : HeadPart} (value : part.ReadsValue) (text : Bytes) :
    part.Inside (encodeTarget text) := by
  have special : ∀ delimiter ∈ part.delimiters,
      unreserved delimiter = false ∧ delimiter ≠ ch '%' := by
    cases part with
    | queryKey => exact absurd rfl value.1
    | headerKey => exact absurd rfl value.2
    | route | queryValue | protocol | headerValue => exact forall_mem_of_all (by decide)
  intro written member ends
  obtain ⟨reserved, percent⟩ := special written ends
  exact ne_of_mem_encodeTarget reserved percent member rfl

theorem zero_notMem_encodeTarget (text : Bytes) : 0 ∉ encodeTarget text :=
  fun member => ne_of_mem_encodeTarget (by decide) (by decide) member rfl

theorem percentByte_lineFeed : percentByte (ch '\n') = bytes "%0A" := by
  decide

theorem percentByte_ampersand : percentByte (ch '&') = bytes "%26" := by
  decide

/-- Two digits name one byte. -/
theorem known_digits : ∀ byte : UInt8,
    (upperHex (byte.toNat / 16) = ch '2' ∧ upperHex (byte.toNat % 16) = ch '6' → byte = ch '&') ∧
      (upperHex (byte.toNat / 16) = ch '0' ∧ upperHex (byte.toNat % 16) = ch 'A' →
        byte = ch '\n') :=
  forall_byte (by decide +kernel)

/-- An unknown code loses its percent sign. -/
theorem decode_digits (part : HeadPart) (lineFeed : byte ≠ ch '\n') (ampersand : byte ≠ ch '&')
    (rest : Bytes) :
    part.decode (percentByte byte ++ rest) =
      [upperHex (byte.toNat / 16), upperHex (byte.toNat % 16)] ++ part.decode rest := by
  have plain (digit : UInt8)
      (member : digit ∈ [upperHex (byte.toNat / 16), upperHex (byte.toNat % 16)]) (rest : Bytes) :
      part.decode (digit :: rest) = digit :: part.decode rest := by
    have letter := alphanumeric_of_mem_digits member
    exact HeadPart.decode_cons (ne_of_alphanumeric letter (by decide))
      (ne_of_alphanumeric letter (by decide)) (fun _ => ne_of_alphanumeric letter (by decide)) rest
  have noPrefix {first second : UInt8}
      (other : ¬ (upperHex (byte.toNat / 16) = first ∧ upperHex (byte.toNat % 16) = second)) :
      ¬ [first, second] <+:
        upperHex (byte.toNat / 16) :: upperHex (byte.toNat % 16) :: rest := by
    intro two
    simp only [List.cons_prefix_cons, List.nil_prefix, and_true] at two
    exact other ⟨two.1.symm, two.2.symm⟩
  obtain ⟨isAmpersand, isLineFeed⟩ := known_digits byte
  calc
    part.decode (percentByte byte ++ rest) =
        part.decode (upperHex (byte.toNat / 16) :: upperHex (byte.toNat % 16) :: rest) :=
      part.decode_percent (noPrefix fun digits => ampersand (isAmpersand digits))
        (noPrefix fun digits => lineFeed (isLineFeed digits))
    _ = _ := by rw [plain _ (by simp), plain _ (by simp), List.cons_append, List.singleton_append]

theorem decode_code (part : HeadPart) (byte : UInt8) (rest : Bytes) :
    part.decode ((if unreserved byte then [byte] else percentByte byte) ++ rest) =
      takenAs byte ++ part.decode rest := by
  by_cases kept : unreserved byte
  · rw [if_pos kept, takenAs, if_pos (.inl kept)]
    exact HeadPart.decode_cons (ne_of_unreserved kept (by decide))
      (ne_of_unreserved kept (by decide)) (fun _ => ne_of_unreserved kept (by decide)) rest
  rw [if_neg kept]
  by_cases lineFeed : byte = ch '\n'
  · subst lineFeed
    rw [takenAs, if_pos (.inr rfl), percentByte_lineFeed]
    exact part.decode_escape (by decide) decodePath_lineFeed rest
  by_cases ampersand : byte = ch '&'
  · subst ampersand
    rw [percentByte_ampersand]
    exact part.decode_escape (by decide) decodePath_quote rest
  · rw [decode_digits part lineFeed ampersand, takenAs, if_neg (not_or.mpr ⟨kept, lineFeed⟩),
      if_neg ampersand]

/-- The parser takes every byte of an encoded text on its own. -/
theorem decode_encodeTarget (part : HeadPart) (text : Bytes) :
    part.decode (encodeTarget text) = text.flatMap takenAs := by
  induction text with
  | nil => exact part.decode_nil
  | cons byte rest ih =>
      rw [encodeTarget, percentEncode_cons, decode_code, List.flatMap_cons, ← ih]
      rfl

theorem takenAs_of_survives (survives : unreserved byte ∨ byte = ch '\n') :
    takenAs byte = [byte] :=
  if_pos survives

/-- An ampersand is never read. -/
theorem ampersand_notMem_takenAs (byte : UInt8) : ch '&' ∉ takenAs byte := by
  unfold takenAs
  split_ifs with survives ampersand
  · rintro member
    rw [← List.mem_singleton.mp member] at survives
    revert survives
    decide
  · decide
  · intro member
    exact ne_of_alphanumeric (alphanumeric_of_mem_digits member) (by decide) rfl

/-- Any other byte that does not survive is read as two bytes. -/
theorem length_takenAs (ampersand : byte ≠ ch '&') :
    1 ≤ (takenAs byte).length ∧
      (¬ (unreserved byte ∨ byte = ch '\n') → (takenAs byte).length = 2) := by
  unfold takenAs
  by_cases survives : unreserved byte ∨ byte = ch '\n'
  · rw [if_pos survives]
    exact ⟨Nat.le_refl 1, fun lost => absurd survives lost⟩
  · rw [if_neg survives, if_neg ampersand]
    exact ⟨Nat.le_succ 1, fun _ => rfl⟩

theorem length_flatMap_takenAs (noAmpersand : ch '&' ∉ text) :
    text.length ≤ (text.flatMap takenAs).length ∧
      (¬ Survives text → text.length < (text.flatMap takenAs).length) := by
  induction text with
  | nil => exact ⟨Nat.le_refl 0, fun lost => absurd (List.forall_mem_nil _) lost⟩
  | cons byte rest ih =>
      obtain ⟨positive, two⟩ := length_takenAs (List.ne_of_not_mem_cons noAmpersand).symm
      obtain ⟨atLeast, longer⟩ := ih (List.not_mem_of_not_mem_cons noAmpersand)
      rw [List.flatMap_cons, List.length_append, List.length_cons]
      refine ⟨by omega, fun lost => ?_⟩
      by_cases survives : unreserved byte ∨ byte = ch '\n'
      · have lostLater : ¬ Survives rest := fun later =>
          lost (List.forall_mem_cons.mpr ⟨survives, later⟩)
        have strict := longer lostLater
        omega
      · have isTwo := two survives
        omega

theorem flatMap_takenAs_eq_iff : text.flatMap takenAs = text ↔ Survives text := by
  constructor
  · intro same
    have noAmpersand : ch '&' ∉ text := by
      rw [← same]
      intro member
      obtain ⟨byte, -, member⟩ := List.mem_flatMap.mp member
      exact ampersand_notMem_takenAs byte member
    by_contra lost
    have longer := (length_flatMap_takenAs noAmpersand).2 lost
    rw [same] at longer
    exact Nat.lt_irrefl _ longer
  · intro survives
    calc
      text.flatMap takenAs = text.flatMap fun byte => [byte] :=
        List.flatMap_congr fun byte member => takenAs_of_survives (survives byte member)
      _ = text := List.flatMap_singleton' text

end Encoding

end Libjaypea
