import Libjaypea.JsonTermination

/-!
# Bounds of the JSON parser

The cursor of the parser and of its nested calls passes the terminator of the
text exactly when the text ends in a backslash that is read for an escape.  On
every other text the bytes behind the terminator are never looked at, so that
they have no influence on the result.
-/

namespace Libjaypea

namespace JsonObject

open Fuelled

section Steps

variable {memory : Memory} {stop : Nat} {state after : ParseState} {byte : UInt8} {tail : Bytes}

theorem Reading.exists_cons {rest : Bytes} (terminator : memory stop = 0)
    (reading : Reading memory stop state rest) (inside : memory state.it ≠ 0) :
    ∃ byte tail, rest = byte :: tail := by
  cases rest with
  | nil =>
      have atStop : state.it = stop := by simpa using reading.cursor
      exact (inside (atStop ▸ terminator)).elim
  | cons byte tail => exact ⟨byte, tail, rfl⟩

theorem Reading.cursor_lt (reading : Reading memory stop state (byte :: tail)) :
    state.it < stop := by
  have cursor := reading.cursor
  simp only [List.length_cons] at cursor
  omega

theorem Reading.cursor_le_of_advance {later : Bytes}
    (reading : Reading memory stop after.advance later) : after.it ≤ stop := by
  have cursor := reading.cursor
  rw [ParseState.advance_it] at cursor
  omega

theorem not_backslash_of_action {action : ParseAction} (here : memory state.it = byte)
    (same : parseAction memory state = action) (notNext : ∀ after, action ≠ .next after) :
    byte ≠ ch '\\' := by
  intro backslash
  obtain ⟨after, next, -⟩ := exists_parseAction_backslash (here.trans backslash)
  exact notNext after (same.symm.trans next)

theorem Reading.next (reading : Reading memory stop state (byte :: tail))
    (safe : ¬ Overruns [state.context] (byte :: tail))
    (action : parseAction memory state = .next after) :
    after.it ≤ stop ∧ ∃ later, Reading memory stop after.advance later ∧
      ¬ Overruns [after.context] later := by
  obtain ⟨here, inside⟩ := reading.here
  have before := reading.cursor_lt
  by_cases backslash : byte = ch '\\'
  · obtain ⟨other, otherAction, cursor, -, context, regular⟩ := reading.exists_escape backslash
    obtain rfl : other = after := by simpa [otherAction] using action
    refine ⟨by omega, ?_⟩
    cases tail with
    | nil => exact (safe (Or.inl (by simp [Context.hidesNext, backslash]))).elim
    | cons escaped later =>
        have split : byte :: escaped :: later = [byte, escaped] ++ later := rfl
        rw [split] at reading safe
        refine ⟨later, reading.skip _ (by simp [cursor]) regular, fun overruns => safe ?_⟩
        rw [context] at overruns
        apply overruns.of_sameEnd
        rw [backslash]
        exact Context.sameEnd_escape _ _ _ _
  · cases reads here backslash reading.regular with
    | next other otherAction cursor regular type read =>
        obtain rfl : other = after := by simpa [otherAction] using action
        refine ⟨by omega, tail, reading.skip [byte] (by simp [cursor]) regular,
          fun overruns => safe ?_⟩
        have sameEnd : Context.SameEnd [state.context] ([byte] ++ tail) [other.context] tail := by
          have consumed := Context.sameEnd_cons backslash state.context [] tail
          rwa [read] at consumed
        exact overruns.of_sameEnd sameEnd
    | done value otherAction => simp [otherAction] at action
    | nested nests => simp [nests.action] at action

theorem Reading.done (reading : Reading memory stop state (byte :: tail)) {this : JsonObject}
    {it : Nat} (action : parseAction memory state = .done this it) : it ≤ stop := by
  obtain ⟨here, inside⟩ := reading.here
  have before := reading.cursor_lt
  have notBackslash := not_backslash_of_action here action (by simp)
  cases reads here notBackslash reading.regular with
  | next other otherAction => simp [otherAction] at action
  | done value otherAction =>
      rw [otherAction] at action
      obtain ⟨rfl, rfl⟩ := ParseAction.done.inj action
      simp only [finish]
      split <;> omega
  | nested nests => simp [nests.action] at action

/-- The call for a nested value starts on the byte that its caller is on. -/
theorem Reading.call (reading : Reading memory stop state (byte :: tail))
    (safe : ¬ Overruns [state.context] (byte :: tail)) {resume : JsonObject → Nat → ParseState}
    (action : parseAction memory state = .nested resume) :
    Reading memory stop (.start (new .notype) state.it) (byte :: tail) ∧
      ¬ Overruns [(ParseState.start (new .notype) state.it).context] (byte :: tail) := by
  obtain ⟨here, inside⟩ := reading.here
  have notBackslash := not_backslash_of_action here action (by simp)
  refine ⟨⟨reading.positive, reading.cursor, reading.holds, reading.nonzero, Or.inl rfl⟩,
    fun overruns => safe ?_⟩
  cases reads here notBackslash reading.regular with
  | next other otherAction => simp [otherAction] at action
  | done value otherAction => simp [otherAction] at action
  | @nested other child parent nests =>
      apply nests.overruns notBackslash
      have sameEnd : Context.SameEnd [.blank] ([byte] ++ tail) [child.context] tail := by
        have consumed := Context.sameEnd_cons notBackslash .blank [] tail
        rwa [nests.first] at consumed
      exact (overruns_consumed_iff sameEnd).mp overruns

/-- Wherever a nested call returns, its caller goes on inside the text. -/
theorem Reading.resumed (terminator : memory stop = 0)
    (reading : Reading memory stop state (byte :: tail))
    (safe : ¬ Overruns [state.context] (byte :: tail)) {resume : JsonObject → Nat → ParseState}
    {value : JsonObject} {it : Nat} (action : parseAction memory state = .nested resume)
    (inner : Parses memory (.start (new .notype) state.it) (value, it)) :
    (resume value it).it ≤ stop ∧ ∃ later, Reading memory stop (resume value it).advance later ∧
      ¬ Overruns [(resume value it).context] later := by
  obtain ⟨here, inside⟩ := reading.here
  have oneLtStop := reading.one_lt_stop
  have notBackslash := not_backslash_of_action here action (by simp)
  cases reads here notBackslash reading.regular with
  | next other otherAction => simp [otherAction] at action
  | done other otherAction => simp [otherAction] at action
  | @nested other child parent nests =>
      obtain rfl : other = resume := by simpa [nests.action] using action
      have parsed := (nests.parses_child inside).mp inner
      have context : (other value it).context = parent := nests.context value it
      rcases outcome terminator tail.length (Nat.le_refl _) (nests.reading_child reading) with
        closes | ⟨upper, bottom, stays⟩
      · obtain ⟨used, later, known, rfl, nonempty, sameEnd, typed, sameType, known⟩ := closes
        obtain ⟨rfl, rfl⟩ := Prod.mk.inj (known.unique parsed)
        have advanced := nests.cursor_closed nonempty typed sameType
        have readingLater := reading.skip (byte :: used) advanced (nests.resumed _ _)
        refine ⟨readingLater.cursor_le_of_advance, later, readingLater, fun overruns => safe ?_⟩
        rw [context] at overruns
        have wholeEnd : Context.SameEnd [state.context] ((byte :: used) ++ later) [parent] later :=
          (nests.sameEnd notBackslash [] _).trans (sameEnd [parent])
        exact overruns.of_sameEnd wholeEnd
      · have childSafe := mt (nests.overruns notBackslash) safe
        obtain ⟨known, type, childParsed⟩ := stays.free childSafe fun stuck =>
          stays.stuck stuck _ parsed
        obtain ⟨rfl, rfl⟩ := Prod.mk.inj (childParsed.unique parsed)
        have regular := nests.resumed known (stop - 1)
        by_cases plain : bottom.Plain
        · have cursor := nests.cursor_plain oneLtStop plain stays type
          obtain ⟨init, last, split⟩ :=
            (List.eq_nil_or_concat (byte :: tail)).resolve_left (List.cons_ne_nil _ _)
          rw [List.concat_eq_append] at split
          have rereads := nests.rereads_plain notBackslash plain stays
          rw [split] at reading safe rereads
          have initial : state.it + init.length = stop - 1 := by
            have whole := reading.cursor
            rw [List.length_append, List.length_singleton] at whole
            omega
          have readingLater := reading.skip init (cursor.trans initial.symm) regular
          refine ⟨readingLater.cursor_le_of_advance, [last], readingLater, fun overruns => ?_⟩
          have backslash : last = ch '\\' := by simpa using getLast?_of_overruns overruns
          exact safe (Or.inr ⟨by simp [backslash], rereads⟩)
        · have cursor := nests.cursor_container oneLtStop plain stays type
          rw [← List.append_nil (byte :: tail)] at reading
          have whole := reading.cursor
          rw [List.append_nil] at whole
          have readingLater := reading.skip (byte :: tail) (cursor.trans whole.symm) regular
          exact ⟨readingLater.cursor_le_of_advance, [], readingLater, not_overruns_nil_text _⟩

end Steps

/-- The cursor of a safe call and of its nested calls stays inside the text. -/
theorem visits_le {memory : Memory} {stop : Nat} (terminator : memory stop = 0)
    {state : ParseState} {cursor : Nat} (visits : Visits memory state cursor) {rest : Bytes}
    (reading : Reading memory stop state rest) (safe : ¬ Overruns [state.context] rest) :
    cursor ≤ stop := by
  induction visits generalizing rest with
  | head state =>
      have whole := reading.cursor
      omega
  | back =>
      have whole := reading.cursor
      omega
  | body inside action =>
      obtain ⟨byte, tail, rfl⟩ := reading.exists_cons terminator inside
      exact (reading.next safe action).1
  | next inside action _ ih =>
      obtain ⟨byte, tail, rfl⟩ := reading.exists_cons terminator inside
      obtain ⟨-, later, readingLater, safeLater⟩ := reading.next safe action
      exact ih readingLater safeLater
  | done inside action =>
      obtain ⟨byte, tail, rfl⟩ := reading.exists_cons terminator inside
      exact reading.done action
  | call inside action _ ih =>
      obtain ⟨byte, tail, rfl⟩ := reading.exists_cons terminator inside
      obtain ⟨readingCall, safeCall⟩ := reading.call safe action
      exact ih readingCall safeCall
  | returned inside action inner =>
      obtain ⟨byte, tail, rfl⟩ := reading.exists_cons terminator inside
      exact (reading.resumed terminator safe action inner).1
  | resumed inside action inner _ ih =>
      obtain ⟨byte, tail, rfl⟩ := reading.exists_cons terminator inside
      obtain ⟨-, later, readingLater, safeLater⟩ := reading.resumed terminator safe action inner
      exact ih readingLater safeLater

/-- The call leaves the text nowhere, and no memory that has the same bytes up
to the terminator makes it answer differently. -/
def StaysInside (memory : Memory) (this : JsonObject) (str : Nat) (text : Bytes) : Prop :=
  (∀ cursor, Visits memory (.start this str) cursor → cursor ≤ str + text.length) ∧
    ∀ other : Memory, (∀ address ≤ str + text.length, other address = memory address) →
      ∀ result, Converges (parse other this str) result ↔ Converges (parse memory this str) result

/-- Whether a call of `parse` stays inside its text depends on the type of the
object it fills and on how the text ends. -/
theorem staysInside_iff (memory : Memory) (this : JsonObject) (str : Nat) (text : Bytes)
    (address : 0 < str) (holds : memory.Holds str (text ++ [0])) (nonzero : 0 ∉ text) :
    StaysInside memory this str text ↔
      ¬ Overruns [(ParseState.start this str).context] text := by
  have terminator : memory (str + text.length) = 0 :=
    (Memory.holds_append.mp holds).2.1
  have reading : Reading memory (str + text.length) (.start this str) text :=
    reading_text address holds nonzero
  constructor
  · rintro ⟨bounded, -⟩ overruns
    rcases outcome terminator text.length (Nat.le_refl _) reading with
      ⟨used, later, value, -, -, sameEnd, -⟩ | ⟨upper, bottom, stays⟩
    · exact (not_overruns_closed (sameEnd []) overruns).elim
    · have outside := bounded _ (stays.overruns overruns)
      omega
  · intro safe
    have bounded cursor (visits : Visits memory (.start this str) cursor) :
        cursor ≤ str + text.length :=
      visits_le terminator visits reading safe
    refine ⟨bounded, fun other agree result => ?_⟩
    have sameRun (fuel : Nat) : parse other this str fuel = parse memory this str fuel :=
      parseLoop_agree fun cursor visits => agree cursor (bounded cursor visits)
    simp only [Converges, sameRun]

theorem staysInside_truncated :
    StaysInside (Memory.ofString (fun _ => 0) (bytes "\x7b\"a\\\\\":\"b")) (new .notype) 1
      (bytes "\x7b\"a\\\\\":\"b") :=
  (staysInside_iff (Memory.ofString (fun _ => 0) (bytes "\x7b\"a\\\\\":\"b")) (new .notype) 1
    (bytes "\x7b\"a\\\\\":\"b") (by decide) (Memory.ofString_holds _ _) (by decide)).mpr (by decide)

/-- A quote and a backslash: the cursor steps over the terminator, and the bytes
behind it decide what the string is and where the parser stops. -/
theorem parse_leaves_text :
    ¬ StaysInside (Memory.ofString (fun _ => 0) (bytes "\"\\")) (new .notype) 1
        (bytes "\"\\") ∧
      parse (Memory.ofString (fun _ => 0) (bytes "\"\\")) (new .notype) 1 4 =
        some (new .string, 3) ∧
      parse (Memory.ofString (fun _ => ch '"') (bytes "\"\\")) (new .notype) 1 4 =
        some (ofString [0], 5) := by
  refine ⟨?_, rfl, rfl⟩
  rintro ⟨bounded, -⟩
  have opens : parseAction (Memory.ofString (fun _ => 0) (bytes "\"\\")) (.start (new .notype) 1) =
      .next (.start (new .string) 1) := parseAction_quote _ rfl
  have visits : Visits (Memory.ofString (fun _ => 0) (bytes "\"\\")) (.start (new .notype) 1) 4 :=
    .next (by decide) opens (visits_backslash_last (by decide : 0 < 3) rfl rfl)
  exact absurd (bounded 4 visits) (by decide)

end JsonObject

end Libjaypea
