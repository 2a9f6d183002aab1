import Libjaypea.Json

/-!
# A scanner for JSON texts

A scanner which never looks back keeps the stack of values that are open in a
text.  It tells how the parser ends: which value breaks off at the end of the
text, and whether the last byte of the text is a backslash that hides whatever
lies behind it.
-/

namespace Libjaypea

namespace JsonObject

/-- What the innermost open value is waiting for. -/
inductive Context
  | blank
  | string
  | beforeKey
  | key
  | afterKey
  | array
  deriving DecidableEq, Repr

namespace Context

def type : Context → JsonType
  | .blank => .notype
  | .string => .string
  | .beforeKey | .key | .afterKey => .object
  | .array => .array

/-- A string, or a value that has not begun: behind it a caller steps back. -/
def Plain (context : Context) : Prop :=
  context = .string ∨ context = .blank

/-- The contexts that replace the innermost one when it reads a byte other than
a backslash: none when the value is complete, two when a value opens inside. -/
def read : Context → UInt8 → List Context
  | .blank, byte =>
      if byte = ch '"' then [.string]
      else if byte = ch '{' then [.beforeKey]
      else if byte = ch '[' then [.array]
      else [.blank]
  | .string, byte => if byte = ch '"' then [] else [.string]
  | .beforeKey, byte =>
      if byte = ch '"' then [.key]
      else if byte = ch '}' ∨ byte = ch ']' then []
      else [.beforeKey]
  | .key, byte => if byte = ch '"' then [.afterKey] else [.key]
  | .afterKey, byte =>
      if byte = ch ':' then [.blank, .beforeKey]
      else if byte = ch ']' then []
      else [.afterKey]
  | .array, byte =>
      if byte = ch '"' then [.string, .array]
      else if byte = ch '{' then [.beforeKey, .array]
      else if byte = ch '[' then [.array, .array]
      else if byte = ch '}' ∨ byte = ch ']' then []
      else [.array]

/-- The open values after a text, innermost first; a backslash hides the next byte. -/
def scan : List Context → Bytes → List Context
  | [], _ => []
  | stack, [] => stack
  | context :: below, [byte] =>
      if byte = ch '\\' then context :: below else context.read byte ++ below
  | context :: below, byte :: following :: rest =>
      if byte = ch '\\' then scan (context :: below) rest
      else scan (context.read byte ++ below) (following :: rest)

/-- A value is open at the end of the text, and the last byte is a backslash
that hides whatever lies behind the text. -/
def hidesNext : List Context → Bytes → Bool
  | [], _ => false
  | _, [] => false
  | _ :: _, [byte] => byte = ch '\\'
  | context :: below, byte :: following :: rest =>
      if byte = ch '\\' then hidesNext (context :: below) rest
      else hidesNext (context.read byte ++ below) (following :: rest)

@[simp]
theorem scan_nil_text (stack : List Context) : scan stack [] = stack := by
  cases stack <;> rfl

@[simp]
theorem hidesNext_nil_text (stack : List Context) : hidesNext stack [] = false := by
  cases stack <;> rfl

/-- The scanner comes to the same end from both. -/
def SameEnd (stack : List Context) (text : Bytes) (others : List Context) (rest : Bytes) : Prop :=
  scan stack text = scan others rest ∧ hidesNext stack text = hidesNext others rest

theorem SameEnd.trans {first second third : List Context} {text rest later : Bytes}
    (left : SameEnd first text second rest) (right : SameEnd second rest third later) :
    SameEnd first text third later :=
  ⟨left.1.trans right.1, left.2.trans right.2⟩

theorem sameEnd_escape (context : Context) (below : List Context) (escaped : UInt8)
    (rest : Bytes) :
    SameEnd (context :: below) (ch '\\' :: escaped :: rest) (context :: below) rest := by
  simp [SameEnd, scan, hidesNext]

theorem sameEnd_cons {byte : UInt8} (notBackslash : byte ≠ ch '\\') (context : Context)
    (below : List Context) (rest : Bytes) :
    SameEnd (context :: below) (byte :: rest) (context.read byte ++ below) rest := by
  cases rest <;> simp [SameEnd, scan, hidesNext, notBackslash]

theorem getLast?_of_hidesNext {stack : List Context} {text : Bytes}
    (hides : hidesNext stack text = true) : text.getLast? = some (ch '\\') := by
  fun_induction hidesNext stack text with
  | case1 => simp at hides
  | case2 => simp at hides
  | case3 context below byte => simpa using hides
  | case4 context below following rest ih =>
      cases rest with
      | nil => simp at hides
      | cons byte rest => simpa using ih hides
  | case5 context below byte following rest notBackslash ih => simpa using ih hides

/-- What lies below the open values does not matter to them. -/
theorem scan_append {stack : List Context} {text : Bytes} (opened : scan stack text ≠ [])
    (below : List Context) :
    scan (stack ++ below) text = scan stack text ++ below ∧
      hidesNext (stack ++ below) text = hidesNext stack text := by
  fun_induction scan stack text with
  | case1 => exact (opened rfl).elim
  | case2 stack => simp
  | case3 context under => simp [scan, hidesNext]
  | case4 context under byte notBackslash => simp [scan, hidesNext, notBackslash]
  | case5 context under following rest ih => simpa [scan, hidesNext] using ih opened
  | case6 context under byte following rest notBackslash ih =>
      simpa [scan, hidesNext, notBackslash] using ih opened

theorem scan_ne_nil_of_hidesNext {stack : List Context} {text : Bytes}
    (hides : hidesNext stack text = true) : scan stack text ≠ [] := by
  fun_induction hidesNext stack text with
  | case1 => simp at hides
  | case2 => simp at hides
  | case3 context below byte =>
      have backslash : byte = ch '\\' := by simpa using hides
      simp [scan, backslash]
  | case4 context below following rest ih => simpa [scan] using ih hides
  | case5 context below byte following rest notBackslash ih =>
      simpa [scan, notBackslash] using ih hides

end Context

/-- An open string element of an array whose last byte so far is a quote. -/
def Stuck (stack : List Context) (text : Bytes) : Prop :=
  stack.take 2 = [.string, .array] ∧ text.getLast? = some (ch '"')

/-- The innermost value is a string, or has not begun, and another one holds it;
the loop of the holder reads the last byte of the text again. -/
def Rereads (stack : List Context) : Prop :=
  2 ≤ stack.length ∧ (stack.head? = some .string ∨ stack.head? = some .blank)

/-- From this stack on, the text ends in a backslash that is read for an escape:
when it is reached, or when it is read again. -/
def Overruns (stack : List Context) (text : Bytes) : Prop :=
  Context.hidesNext stack text = true ∨
    (text.getLast? = some (ch '\\') ∧ Rereads (Context.scan stack text))

instance (stack : List Context) : Decidable (Rereads stack) :=
  inferInstanceAs (Decidable (_ ∧ (_ ∨ _)))

instance (stack : List Context) (text : Bytes) : Decidable (Overruns stack text) :=
  inferInstanceAs (Decidable (_ ∨ (_ ∧ _)))

/-- Two backslashes: the first one hides the second, which the array reads again. -/
example : Overruns [.array] (bytes "\"\\\\") := by
  decide

/-- The text breaks off inside a string element of an array, right behind the
quote that opens the element or behind an escaped quote in it. -/
def BreaksOffAtQuote (text : Bytes) : Prop :=
  Stuck (Context.scan [.blank] text) text

instance (text : Bytes) : Decidable (BreaksOffAtQuote text) :=
  inferInstanceAs (Decidable (_ ∧ _))

section Ends

variable {consumed rest : Bytes} {byte : UInt8} {tail : Bytes}

theorem getLast?_consumed (nonempty : rest ≠ []) :
    (consumed ++ rest).getLast? = rest.getLast? := by
  rw [List.getLast?_append]
  cases equal : rest.getLast? with
  | none => exact (nonempty (List.getLast?_eq_none_iff.mp equal)).elim
  | some byte => rfl

theorem not_stuck_singleton (context : Context) (text : Bytes) : ¬ Stuck [context] text := by
  simp [Stuck]

theorem not_rereads_singleton (context : Context) : ¬ Rereads [context] := by
  simp [Rereads]

theorem not_overruns_nil_text (context : Context) : ¬ Overruns [context] [] := by
  simp [Overruns]

theorem not_overruns_closed {stack : List Context} {text later : Bytes}
    (closed : Context.SameEnd stack text [] later) : ¬ Overruns stack text := by
  rintro (hides | ⟨-, rereads⟩)
  · rw [closed.2] at hides
    cases later <;> simp [Context.hidesNext] at hides
  · rw [closed.1] at rereads
    cases later <;> simp [Context.scan, Rereads] at rereads

theorem getLast?_of_overruns {stack : List Context} {text : Bytes}
    (overruns : Overruns stack text) : text.getLast? = some (ch '\\') := by
  rcases overruns with hides | ⟨last, -⟩
  · exact Context.getLast?_of_hidesNext hides
  · exact last

/-- What overruns the text from some byte on overruns it from an earlier byte on. -/
theorem Overruns.of_sameEnd {stack others : List Context} (overruns : Overruns others rest)
    (sameEnd : Context.SameEnd stack (consumed ++ rest) others rest) :
    Overruns stack (consumed ++ rest) := by
  rcases overruns with hides | ⟨last, rereads⟩
  · exact Or.inl (sameEnd.2.trans hides)
  · refine Or.inr ⟨?_, sameEnd.1 ▸ rereads⟩
    rw [getLast?_consumed, last]
    rintro rfl
    simp at last

theorem overruns_consumed_iff {stack : List Context} {context : Context}
    (sameEnd : Context.SameEnd stack (consumed ++ rest) [context] rest) :
    Overruns stack (consumed ++ rest) ↔ Overruns [context] rest := by
  refine ⟨fun overruns => ?_, fun overruns => overruns.of_sameEnd sameEnd⟩
  rcases overruns with hides | ⟨last, rereads⟩
  · exact Or.inl (sameEnd.2.symm.trans hides)
  · rw [sameEnd.1] at rereads
    by_cases done : rest = []
    · rw [done, Context.scan_nil_text] at rereads
      exact (not_rereads_singleton context rereads).elim
    · exact Or.inr ⟨getLast?_consumed done ▸ last, rereads⟩

theorem Rereads.below {stack : List Context} (rereads : Rereads stack) (under : List Context) :
    Rereads (stack ++ under) := by
  obtain ⟨long, top⟩ := rereads
  constructor
  · rw [List.length_append]
    omega
  · cases stack with
    | nil => simp at long
    | cons first others => exact top

theorem Overruns.below {stack : List Context} (overruns : Overruns stack rest)
    (under : List Context) : Overruns (stack ++ under) rest := by
  rcases overruns with hides | ⟨last, rereads⟩
  · have opened := Context.scan_ne_nil_of_hidesNext hides
    exact Or.inl ((Context.scan_append opened under).2.trans hides)
  · have opened : Context.scan stack rest ≠ [] := by
      intro closed
      simp [closed, Rereads] at rereads
    exact Or.inr ⟨last, (Context.scan_append opened under).1 ▸ rereads.below under⟩

theorem Stuck.below {stack : List Context} {text : Bytes} (stuck : Stuck stack text)
    (under : List Context) (before : Bytes) : Stuck (stack ++ under) (before ++ text) := by
  obtain ⟨top, last⟩ := stuck
  constructor
  · match stack, top with
    | first :: second :: deeper, top => simpa using top
  · rw [getLast?_consumed, last]
    rintro rfl
    simp at last

theorem stuck_child {upper : List Context} {bottom parent : Context} (notString : bottom ≠ .string)
    (atEnd : tail = [] → upper = []) (stuck : Stuck (upper ++ [bottom] ++ [parent]) (byte :: tail)) :
    Stuck (upper ++ [bottom]) tail := by
  obtain ⟨top, last⟩ := stuck
  cases upper with
  | nil => exact (notString (by simpa using And.left (by simpa using top))).elim
  | cons first upper =>
      have nonempty : tail ≠ [] := fun done => by simpa using atEnd done
      have sameLast : ([byte] ++ tail).getLast? = tail.getLast? := getLast?_consumed nonempty
      refine ⟨?_, sameLast.symm.trans last⟩
      cases upper <;> simpa using top

end Ends

end JsonObject

end Libjaypea
