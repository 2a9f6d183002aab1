import Libjaypea.Util

/-!
# Decoding URL text piece by piece

The variable that `sscanf` fills is declared in front of the loop of
`url_decode`.  An escape that is no number leaves it as the escape in front of
it did, or not initialised.  A text can be decoded in two pieces exactly when
the first escape of each is a number.
-/

namespace Libjaypea

namespace Util

/-- The text does not end inside an escape: each is followed by two more bytes. -/
inductive Complete : Bytes → Prop
  | nil : Complete []
  | plain {byte : UInt8} {rest : Bytes} (differs : byte ≠ ch '%') (complete : Complete rest) :
      Complete (byte :: rest)
  | escape {first second : UInt8} {rest : Bytes} (complete : Complete rest) :
      Complete (ch '%' :: first :: second :: rest)

/-- The first escape, if there is one, is a number. -/
def Settled (text : Bytes) : Prop :=
  ∀ front rest, text = front ++ ch '%' :: rest → ch '%' ∉ front → (scanHex (rest.take 2)).isSome

/-- Every escape is a number. -/
def Numbers (text : Bytes) : Prop :=
  ∀ front rest, text = front ++ ch '%' :: rest → Complete front → (scanHex (rest.take 2)).isSome

/-- The pieces are decoded as they are in the whole text, whatever the variable
holds at first. -/
def Local (a b : Bytes) : Prop :=
  ∀ ii first second, urlDecode ii (a ++ b) = urlDecode first a ++ urlDecode second b

section Steps

theorem urlDecode_cons {byte : UInt8} (differs : byte ≠ ch '%') (ii : UInt8) (rest : Bytes) :
    urlDecode ii (byte :: rest) = (if byte = ch '+' then ch ' ' else byte) :: urlDecode ii rest := by
  rw [urlDecode, if_pos differs]

theorem urlDecode_escape (ii first second : UInt8) (rest : Bytes) :
    urlDecode ii (ch '%' :: first :: second :: rest) =
      (scanHex [first, second]).getD ii :: urlDecode ((scanHex [first, second]).getD ii) rest := by
  rw [urlDecode, if_neg fun differs => differs rfl]
  rfl

/-- What the variable holds is the byte that the first escape is decoded to. -/
theorem exists_urlDecode_escape (rest : Bytes) :
    ∃ later : UInt8 → Bytes, ∀ ii, urlDecode ii (ch '%' :: rest) =
      (scanHex (rest.take 2)).getD ii :: later ((scanHex (rest.take 2)).getD ii) := by
  match rest with
  | [] => exact ⟨fun _ => [], fun ii => by rw [urlDecode, if_neg fun differs => differs rfl]⟩
  | [_] => exact ⟨fun _ => [], fun ii => by rw [urlDecode, if_neg fun differs => differs rfl]⟩
  | first :: second :: rest =>
      exact ⟨fun ii => urlDecode ii rest, fun ii => urlDecode_escape ii first second rest⟩

theorem settled_nil : Settled [] := by
  intro front rest equal
  exact absurd equal (by simp)

theorem settled_cons {byte : UInt8} (differs : byte ≠ ch '%') {rest : Bytes} :
    Settled (byte :: rest) ↔ Settled rest := by
  constructor
  · rintro settled front later rfl outside
    apply settled (byte :: front) later rfl
    rw [List.mem_cons, not_or]
    exact ⟨Ne.symm differs, outside⟩
  · intro settled front later equal outside
    cases front with
    | nil => exact absurd (List.cons.inj equal).1 differs
    | cons other front =>
        exact settled front later (List.cons.inj equal).2
          fun member => outside (List.mem_cons_of_mem _ member)

theorem settled_escape {rest : Bytes} :
    Settled (ch '%' :: rest) ↔ (scanHex (rest.take 2)).isSome := by
  constructor
  · intro settled
    exact settled [] rest rfl List.not_mem_nil
  · intro number front later equal outside
    cases front with
    | nil => rwa [← (List.cons.inj equal).2]
    | cons other front =>
        rw [← (List.cons.inj equal).1] at outside
        exact absurd List.mem_cons_self outside

end Steps

/-- The first value of the variable matters exactly when the first escape is no
number. -/
theorem urlDecode_constant_iff (text : Bytes) :
    (∀ first second, urlDecode first text = urlDecode second text) ↔ Settled text := by
  induction text with
  | nil => exact iff_of_true (fun _ _ => rfl) settled_nil
  | cons byte rest ih =>
      by_cases escape : byte = ch '%'
      · subst escape
        rw [settled_escape]
        obtain ⟨later, decodes⟩ := exists_urlDecode_escape rest
        constructor
        · intro constant
          by_contra noNumber
          rw [Option.not_isSome_iff_eq_none] at noNumber
          have same := constant 0 1
          rw [decodes, decodes, noNumber] at same
          exact absurd (List.cons.inj same).1 (by decide)
        · intro number first second
          obtain ⟨value, found⟩ := Option.isSome_iff_exists.mp number
          rw [decodes, decodes, found]
          rfl
      · rw [settled_cons escape, ← ih]
        simp only [urlDecode_cons escape, List.cons.injEq, true_and]

/-- Behind a complete text the decoder goes on with another value of the
variable. -/
theorem Complete.exists_urlDecode_append {a : Bytes} (complete : Complete a) (ii : UInt8) :
    ∃ later, ∀ b, urlDecode ii (a ++ b) = urlDecode ii a ++ urlDecode later b := by
  induction complete generalizing ii with
  | nil => exact ⟨ii, fun _ => rfl⟩
  | plain differs _ ih =>
      obtain ⟨later, decodes⟩ := ih ii
      refine ⟨later, fun b => ?_⟩
      rw [List.cons_append, urlDecode_cons differs, urlDecode_cons differs, decodes,
        List.cons_append]
  | @escape first second _ _ ih =>
      obtain ⟨later, decodes⟩ := ih ((scanHex [first, second]).getD ii)
      refine ⟨later, fun b => ?_⟩
      rw [List.cons_append, List.cons_append, List.cons_append, urlDecode_escape, urlDecode_escape,
        decodes, List.cons_append]

theorem Complete.local_iff {a : Bytes} (complete : Complete a) (b : Bytes) :
    Local a b ↔ Settled a ∧ Settled b := by
  rw [← urlDecode_constant_iff, ← urlDecode_constant_iff]
  constructor
  · intro pieces
    constructor
    · intro first second
      have same := (pieces 0 first 0).symm.trans (pieces 0 second 0)
      exact List.append_cancel_right same
    · intro first second
      have same := (pieces 0 0 first).symm.trans (pieces 0 0 second)
      exact List.append_cancel_left same
  · rintro ⟨front, back⟩ ii first second
    obtain ⟨later, decodes⟩ := complete.exists_urlDecode_append ii
    rw [decodes, front ii first, back later second]

theorem complete_of_notMem {text : Bytes} (outside : ch '%' ∉ text) : Complete text := by
  induction text with
  | nil => exact .nil
  | cons byte rest ih =>
      rw [List.mem_cons, not_or] at outside
      exact .plain (Ne.symm outside.1) (ih outside.2)

theorem Complete.append {a b : Bytes} (front : Complete a) (back : Complete b) :
    Complete (a ++ b) := by
  induction front with
  | nil => exact back
  | plain differs _ ih => exact .plain differs ih
  | escape _ ih => exact .escape ih

theorem Numbers.settled {front back : Bytes} (numbers : Numbers (front ++ back))
    (complete : Complete front) : Settled back := by
  rintro plain rest rfl outside
  apply numbers (front ++ plain) rest
  · rw [List.append_assoc]
  · exact complete.append (complete_of_notMem outside)

theorem Complete.settled {a b : Bytes} (complete : Complete a) (settled : Settled (a ++ b)) :
    Settled a := by
  induction complete with
  | nil => exact settled_nil
  | plain differs _ ih =>
      rw [List.cons_append, settled_cons differs] at settled
      exact (settled_cons differs).mpr (ih settled)
  | @escape first second rest =>
      have number := (@settled_escape (first :: second :: (rest ++ b))).mp settled
      exact settled_escape.mpr number

/-- A text can be decoded in pieces wherever it is cut exactly when all its
escapes are numbers. -/
theorem local_everywhere_iff (text : Bytes) :
    (∀ a b, a ++ b = text → Complete a → Local a b) ↔ Numbers text := by
  constructor
  · rintro pieces front rest rfl complete
    have settled := (complete.local_iff _).mp (pieces front _ rfl complete)
    exact settled_escape.mp settled.2
  · rintro numbers a b rfl complete
    refine (complete.local_iff b).mpr ⟨?_, numbers.settled complete⟩
    exact complete.settled (@Numbers.settled [] _ numbers .nil)

/-- When two pieces of a text are decoded as the whole is, and when that is so
wherever the text is cut. -/
theorem urlDecode_local_iff (a b : Bytes) (complete : Complete a) :
    (Local a b ↔ Settled a ∧ Settled b) ∧
      ((∀ front back, front ++ back = a ++ b → Complete front → Local front back) ↔
        Numbers (a ++ b)) :=
  ⟨complete.local_iff b, local_everywhere_iff (a ++ b)⟩

theorem urlDecode_local_letters : Local (bytes "%41") (bytes "%42%zz") := by
  have letters : Settled (bytes "%41") ∧ Settled (bytes "%42%zz") :=
    ⟨settled_escape.mpr (by decide), settled_escape.mpr (by decide)⟩
  exact (urlDecode_local_iff (bytes "%41") (bytes "%42%zz") (.escape .nil)).1.mpr letters

/-- An escape that is no number is decoded to what the one in front of it was. -/
theorem urlDecode_not_local :
    Complete (bytes "%41") ∧
      urlDecode 0 (bytes "%41" ++ bytes "%zz") ≠
        urlDecode 0 (bytes "%41") ++ urlDecode 0 (bytes "%zz") :=
  ⟨.escape .nil, by decide⟩

end Util

end Libjaypea
