import Libjaypea.HeadParts
import Libjaypea.JsonBounds

/-!
# Passes over a request head

One pass of the main loop of `parse_http_request` over a text without
backslashes.  It takes a byte or an escape into the part that it is in, opens
the next part, ends the loop, or does not return from the value of a query; on a
colon that ends the text it moves the cursor onto the terminator.
-/

namespace Libjaypea

open Fuelled JsonObject

/-- No terminator and no backslash. -/
def Unescaped (text : Bytes) : Prop :=
  ∀ byte ∈ text, byte ≠ 0 ∧ byte ≠ ch '\\'

instance (text : Bytes) : Decidable (Unescaped text) :=
  List.decidableBAll _ text

section Unescaped

variable {first second text : Bytes}

theorem unescaped_append : Unescaped (first ++ second) ↔ Unescaped first ∧ Unescaped second :=
  List.forall_mem_append

theorem unescaped_nil : Unescaped [] :=
  List.forall_mem_nil _

theorem unescaped_singleton {byte : UInt8} :
    Unescaped [byte] ↔ byte ≠ 0 ∧ byte ≠ ch '\\' :=
  List.forall_mem_singleton

theorem Unescaped.nonzero (unescaped : Unescaped text) : 0 ∉ text :=
  fun member => (unescaped 0 member).1 rfl

theorem Unescaped.notEscape (unescaped : Unescaped text) : text.getLast? ≠ some (ch '\\') :=
  fun last => (unescaped _ (List.mem_of_getLast? last)).2 rfl

end Unescaped

/-- The cursor has `rest` in front of it, up to the terminator at `stop`. -/
structure InFront (memory : Memory) (stop it : Nat) (rest : Bytes) : Prop where
  positive : 0 < it
  cursor : it + rest.length = stop
  holds : memory.Holds it (rest ++ [0])
  unescaped : Unescaped rest

namespace InFront

variable {memory other : Memory} {stop it : Nat} {rest taken later tail : Bytes} {byte : UInt8}

theorem skip (front : InFront memory stop it (taken ++ later)) :
    InFront memory stop (it + taken.length) later where
  positive := Nat.add_pos_left front.positive _
  cursor := by
    have cursor := front.cursor
    rw [List.length_append] at cursor
    omega
  holds := by
    have holds := front.holds
    rw [List.append_assoc] at holds
    exact (Memory.holds_append.mp holds).2
  unescaped := (unescaped_append.mp front.unescaped).2

theorem le_stop (front : InFront memory stop it rest) : it ≤ stop := by
  have cursor := front.cursor
  omega

theorem lt_stop (front : InFront memory stop it (byte :: tail)) : it < stop := by
  have cursor := front.cursor
  simp only [List.length_cons] at cursor
  omega

theorem terminator (front : InFront memory stop it rest) : memory stop = 0 := by
  have zero := (Memory.holds_append.mp front.holds).2.1
  rwa [front.cursor] at zero

theorem here (front : InFront memory stop it (byte :: tail)) : memory it = byte :=
  front.holds.1

theorem inside (front : InFront memory stop it (byte :: tail)) : memory it ≠ 0 := by
  rw [front.here]
  exact (front.unescaped byte List.mem_cons_self).1

theorem exists_cons (front : InFront memory stop it rest) (inside : memory it ≠ 0) :
    ∃ byte tail, rest = byte :: tail := by
  cases rest with
  | nil => exact (inside front.holds.1).elim
  | cons byte tail => exact ⟨byte, tail, rfl⟩

/-- The bytes up to the terminator decide what is in front of the cursor. -/
theorem agree (front : InFront memory stop it rest)
    (same : ∀ address ≤ stop, other address = memory address) : InFront other stop it rest where
  positive := front.positive
  cursor := front.cursor
  holds := by
    have holds := (Memory.holds_iff it).mp front.holds
    refine (Memory.holds_iff it).mpr fun index bound => ?_
    rw [← holds index bound, same]
    have cursor := front.cursor
    rw [List.length_append, List.length_singleton] at bound
    omega
  unescaped := front.unescaped

/-- The JSON parser stays inside a text without backslashes, whatever it fills. -/
theorem visits_le (front : InFront memory stop it rest) {this : JsonObject} {cursor : Nat}
    (visits : Visits memory (.start this it) cursor) : cursor ≤ stop := by
  have safe : ¬ Overruns [(ParseState.start this it).context] rest := fun overruns =>
    front.unescaped.notEscape (getLast?_of_overruns overruns)
  have reading : Reading memory stop (.start this it) rest :=
    ⟨front.positive, front.cursor, front.holds, front.unescaped.nonzero, Or.inl rfl⟩
  exact JsonObject.visits_le front.terminator visits reading safe

theorem parse_agree (front : InFront memory stop it rest)
    (same : ∀ address ≤ stop, other address = memory address) (this : JsonObject) :
    JsonObject.parse other this it = JsonObject.parse memory this it := by
  funext fuel
  exact parseLoop_agree fun cursor visits => same cursor (front.visits_le visits)

end InFront

namespace JsonObject

variable {this : JsonObject} {key value : Bytes}

/-- What lies behind the terminator of the value has no influence on the member. -/
theorem storeValue_agree (unescaped : Unescaped value) (stale other : Memory) :
    this.storeValue other key value = this.storeValue stale key value := by
  have front : InFront (Memory.ofString stale value) (1 + value.length) 1 value :=
    ⟨Nat.zero_lt_one, rfl, Memory.ofString_holds stale value, unescaped⟩
  have same (address : Nat) (bounded : address ≤ 1 + value.length) :
      Memory.ofString other value address = Memory.ofString stale value address := by
    have inside : address < (0 :: value ++ [0]).length := by
      simp only [List.length_append, List.length_cons, List.length_nil]
      omega
    simp only [Memory.ofString, List.getElem?_eq_getElem inside, Option.getD_some]
  funext fuel
  rw [storeValue, storeValue, front.parse_agree same]

/-- A value is stored unless it breaks off right behind a quote in a string element of an array. -/
theorem storeValue_returns_iff (unescaped : Unescaped value) (stale : Memory) :
    (∃ after, Converges (this.storeValue stale key value) after) ↔ ¬ BreaksOffAtQuote value := by
  have returns : (∃ result, Converges (parse (Memory.ofString stale value)
      { this.memberOrNew key with type := .notype } 1) result) ↔ ¬ BreaksOffAtQuote value :=
    parse_converges_iff_of_notype rfl Nat.zero_lt_one (Memory.ofString_holds stale value)
      unescaped.nonzero unescaped.notEscape
  rw [← returns]
  constructor
  · rintro ⟨after, stored⟩
    obtain ⟨result, parsed, -⟩ := converges_map.mp stored
    exact ⟨result, parsed⟩
  · rintro ⟨result, parsed⟩
    exact ⟨_, converges_map.mpr ⟨result, parsed, rfl⟩⟩

end JsonObject

section Values

variable {rest text : Bytes} {byte : UInt8}

/-- What a text holds in front of the byte that ends the value of a query. -/
def valueOf (text : Bytes) : Bytes :=
  text.takeWhile fun byte => byte ∉ HeadPart.queryValue.delimiters

theorem valueOf_append {taken : Bytes} (inside : HeadPart.queryValue.Inside taken) :
    valueOf (taken ++ rest) = taken ++ valueOf rest := by
  refine List.takeWhile_append_of_pos fun byte member => ?_
  simpa using inside byte member

theorem valueOf_delimiter (ends : byte ∈ HeadPart.queryValue.delimiters) :
    valueOf (byte :: rest) = [] := by
  simp [valueOf, ends]

theorem valueOf_startsWith (text : Bytes) : valueOf text <+: text :=
  List.takeWhile_prefix _

/-- The escapes of a path are those of a value. -/
theorem decodeValue_escape {first second decoded : UInt8}
    (known : first ∈ bytes "260A" ∧ second ∈ bytes "260A")
    (decodes : ∀ rest,
      HttpParse.decodePath (ch '%' :: first :: second :: rest) =
        decoded :: HttpParse.decodePath rest) (rest : Bytes) :
    decodeValue (ch '%' :: first :: second :: rest) = decoded :: decodeValue rest := by
  have noPlus : ∀ byte ∈ bytes "260A", byte ≠ ch '+' := forall_mem_of_all (by decide)
  rw [decodeValue, List.map_cons, List.map_cons, List.map_cons, if_neg (by decide),
    if_neg (noPlus first known.1), if_neg (noPlus second known.2), decodes]
  rfl

theorem decodeValue_carriage (rest : Bytes) :
    decodeValue (ch '\r' :: rest) = decodeValue rest :=
  HttpParse.decodePath_carriage _

theorem decodeValue_plus (rest : Bytes) :
    decodeValue (ch '+' :: rest) = ch ' ' :: decodeValue rest :=
  HttpParse.decodePath_cons (by decide) (by decide) _

theorem decodeValue_cons (percent : byte ≠ ch '%') (carriage : byte ≠ ch '\r')
    (plus : byte ≠ ch '+') (rest : Bytes) :
    decodeValue (byte :: rest) = byte :: decodeValue rest := by
  rw [decodeValue, List.map_cons, if_neg plus]
  exact HttpParse.decodePath_cons percent carriage _

/-- Pluses make no escape. -/
theorem prefix_of_plus {first second : UInt8} (firstSpace : first ≠ ch ' ')
    (secondSpace : second ≠ ch ' ')
    (two : [first, second] <+:
      text.map fun byte => if byte = ch '+' then ch ' ' else byte) : [first, second] <+: text := by
  have kept {byte other : UInt8} (space : other ≠ ch ' ')
      (same : other = if byte = ch '+' then ch ' ' else byte) : other = byte := by
    split_ifs at same
    · exact absurd same space
    · exact same
  match text with
  | [] => simp at two
  | [byte] => simp at two
  | byte :: next :: rest =>
      simp only [List.map_cons, List.cons_prefix_cons, List.nil_prefix, and_true] at two ⊢
      exact ⟨kept firstSpace two.1, kept secondSpace two.2⟩

theorem decodeValue_percent (quote : ¬ [ch '2', ch '6'] <+: rest)
    (lineFeed : ¬ [ch '0', ch 'A'] <+: rest) :
    decodeValue (ch '%' :: rest) = decodeValue rest :=
  HttpParse.decodePath_percent (fun two => quote (prefix_of_plus (by decide) (by decide) two))
    fun two => lineFeed (prefix_of_plus (by decide) (by decide) two)

end Values

namespace HttpParse

variable {memory other : Memory} {heap : Nat → Memory} {stop : Nat} {part : HeadPart}
  {done taken later tail : Bytes} {parse after : HttpParse} {byte : UInt8}

/-- The loop is in a part of the head: it has taken `done` into the part, and
`rest` is in front of it. -/
structure InHead (memory : Memory) (stop : Nat) (part : HeadPart) (done rest : Bytes)
    (parse : HttpParse) : Prop where
  front : InFront memory stop parse.it rest
  state : parse.state = part.state
  continues : parse.exitHttpParse = false
  inside : part.Inside done
  unescaped : Unescaped parse.newValue
  route : part = .route → parse.newValue ≠ []
  decoded : part = .queryValue →
    parse.newValue ++ decodeValue (valueOf rest) = decodeValue (done ++ valueOf rest)

/-- Bytes taken into the part, when the value has what they stand for appended. -/
theorem InHead.take (inHead : InHead memory stop part done (taken ++ later) parse)
    (cursor : after.it = parse.it + taken.length) (state : after.state = parse.state)
    (exits : after.exitHttpParse = parse.exitHttpParse) (inside : part.Inside taken)
    {more : Bytes} (value : after.newValue = parse.newValue ++ more) (unescaped : Unescaped more)
    (decoded : part = .queryValue →
      more ++ decodeValue (valueOf later) = decodeValue (taken ++ valueOf later)) :
    InHead memory stop part (done ++ taken) later after where
  front := cursor ▸ inHead.front.skip
  state := state.trans inHead.state
  continues := exits.trans inHead.continues
  inside := List.forall_mem_append.mpr ⟨inHead.inside, inside⟩
  unescaped := value ▸ unescaped_append.mpr ⟨inHead.unescaped, unescaped⟩
  route := fun isRoute => by
    rw [value]
    exact List.append_ne_nil_of_left_ne_nil (inHead.route isRoute) more
  decoded := fun isValue => by
    subst isValue
    have before := inHead.decoded rfl
    rw [valueOf_append inside] at before
    rw [value, List.append_assoc, decoded rfl, before, List.append_assoc]

/-- No escape holds the byte that ends a part. -/
theorem inside_escapes (part : HeadPart) : part.Inside (bytes "260A") := by
  cases part <;> decide

/-- The value of the part grows by what a byte or an escape stands for. -/
theorem InHead.takes_value (inHead : InHead memory stop part done (byte :: tail) parse)
    (inside : byte ∉ part.delimiters)
    (noPlus : part = .queryValue → byte ≠ ch '+') :
    ∃ taken later, byte :: tail = taken ++ later ∧ taken ≠ [] ∧
      InHead memory stop part (done ++ taken) later (parse.appendValue memory).advance := by
  have insideByte : part.Inside [byte] := by
    simpa [HeadPart.Inside] using inside
  have unescapedByte := inHead.front.unescaped byte List.mem_cons_self
  rcases appends inHead.front.holds (by decide) with
    ⟨rfl, rfl, known, result, decodes, appended⟩ | ⟨rfl, quote, lineFeed, appended⟩ |
      ⟨rfl, appended⟩ | ⟨percent, carriage, appended⟩
  · rename_i first second decoded later
    have insideTaken : part.Inside [ch '%', first, second] := by
      intro other member
      simp only [List.mem_cons, List.not_mem_nil, or_false] at member
      rcases member with rfl | rfl | rfl
      · exact inside
      · exact inside_escapes part other known.1
      · exact inside_escapes part other known.2
    have unescaped : ∀ byte ∈ bytes "\"\n", byte ≠ 0 ∧ byte ≠ ch '\\' :=
      forall_mem_of_all (by decide)
    refine ⟨[ch '%', first, second], later, rfl, List.cons_ne_nil _ _, ?_⟩
    rw [appended]
    refine inHead.take rfl rfl rfl insideTaken (by rfl)
      (unescaped_singleton.mpr (unescaped decoded result)) fun _ => ?_
    exact (decodeValue_escape known decodes _).symm
  · refine ⟨[ch '%'], tail, rfl, List.cons_ne_nil _ _, ?_⟩
    rw [appended]
    refine inHead.take rfl rfl rfl insideByte (by simp [advance]) unescaped_nil fun _ => ?_
    exact (decodeValue_percent (fun two => quote (two.trans (valueOf_startsWith tail)))
      fun two => lineFeed (two.trans (valueOf_startsWith tail))).symm
  · refine ⟨[ch '\r'], tail, rfl, List.cons_ne_nil _ _, ?_⟩
    rw [appended]
    refine inHead.take rfl rfl rfl insideByte (by simp [advance]) unescaped_nil fun _ => ?_
    exact (decodeValue_carriage _).symm
  · refine ⟨[byte], tail, rfl, List.cons_ne_nil _ _, ?_⟩
    rw [appended]
    have inFront : InHead memory stop part done ([byte] ++ tail) parse := inHead
    refine inFront.take rfl rfl rfl insideByte (by rfl)
      (unescaped_singleton.mpr unescapedByte) fun isValue => ?_
    exact (decodeValue_cons percent carriage (noPlus isValue) _).symm

/-- A byte that ends no part is taken into the part, with the escape that it may begin. -/
theorem InHead.collects (inHead : InHead memory stop part done (byte :: tail) parse)
    (inside : byte ∉ part.delimiters) :
    ∃ taken later, byte :: tail = taken ++ later ∧ taken ≠ [] ∧
      InHead memory stop part (done ++ taken) later (parse.collect memory).advance := by
  have here := inHead.front.here
  have state := inHead.state
  have insideByte : part.Inside [byte] := by
    simpa [HeadPart.Inside] using inside
  have inFront : InHead memory stop part done ([byte] ++ tail) parse := inHead
  have key (isKey : part.state = 2 ∨ part.state = 5) (notValue : part ≠ .queryValue) :
      InHead memory stop part (done ++ [byte]) tail (parse.collect memory).advance := by
    have collected : parse.collect memory = { parse with newKey := parse.newKey ++ [byte] } := by
      rw [← state] at isKey
      rcases isKey with isKey | isKey <;> simp [collect, isKey, here]
    rw [collected]
    exact inFront.take rfl rfl rfl insideByte (by simp [advance]) unescaped_nil fun isValue =>
      absurd isValue notValue
  cases part with
  | queryKey => exact ⟨[byte], tail, rfl, List.cons_ne_nil _ _, key (.inl rfl) (by simp)⟩
  | headerKey => exact ⟨[byte], tail, rfl, List.cons_ne_nil _ _, key (.inr rfl) (by simp)⟩
  | queryValue =>
      by_cases plus : byte = ch '+'
      · subst plus
        refine ⟨[ch '+'], tail, rfl, List.cons_ne_nil _ _, ?_⟩
        have collected : parse.collect memory =
            { parse with newValue := parse.newValue ++ [ch ' '] } := by
          simp [collect, state, here, HeadPart.state]
        rw [collected]
        exact inFront.take rfl rfl rfl insideByte (by rfl) (unescaped_singleton.mpr (by decide))
          fun _ => (decodeValue_plus _).symm
      · have collected : parse.collect memory = parse.appendValue memory := by
          simp [collect, state, here, HeadPart.state, plus]
        rw [collected]
        exact inHead.takes_value inside fun _ => plus
  | route | protocol | headerValue =>
      have collected : parse.collect memory = parse.appendValue memory := by
        simp [collect, state, HeadPart.state]
      rw [collected]
      exact inHead.takes_value inside (by simp)

/-- The part behind a delimiter, which nothing has been taken into. -/
theorem InHead.opens {next : HeadPart} (inHead : InHead memory stop part done (byte :: tail) parse)
    (ends : part.next byte = some next) (cursor : after.it = parse.it)
    (state : after.state = next.state) (exits : after.exitHttpParse = parse.exitHttpParse)
    (unescaped : Unescaped after.newValue) (fresh : next = .queryValue → after.newValue = []) :
    InHead memory stop next [] tail after.advance where
  front := by
    have front : InFront memory stop parse.it ([byte] ++ tail) := inHead.front
    change InFront memory stop (after.it + 1) tail
    rw [cursor]
    exact front.skip
  state := state
  continues := exits.trans inHead.continues
  inside := List.forall_mem_nil _
  unescaped := unescaped
  route := fun isRoute => by
    subst isRoute
    exact absurd ends (HeadPart.next_ne_route part byte)
  decoded := fun isValue => by
    change after.newValue ++ decodeValue (valueOf tail) = decodeValue (valueOf tail)
    rw [fresh isValue, List.nil_append]

/-- A delimiter outside the value of a query stores what has been read, and
opens the next part. -/
theorem action_delimiter {next : HeadPart} (here : memory parse.it = byte)
    (state : parse.state = part.state) (nonempty : part = .route → parse.newValue ≠ [])
    (ends : part.next byte = some next) (notValue : part ≠ .queryValue) :
    ∃ requestObj key value, parse.action memory =
        .next ⟨requestObj, parse.it, parse.exitHttpParse, next.state, key, value⟩ ∧
      (value = [] ∨ value = parse.newValue) ∧ (next = .queryValue → value = []) := by
  cases part with
  | queryValue => exact absurd rfl notValue
  | headerKey => cases ends
  | route =>
      have nonempty := nonempty rfl
      simp only [HeadPart.next] at ends
      split_ifs at ends with space question
      · subst space
        cases ends
        refine ⟨parse.requestObj.setStringValue (bytes "route") parse.newValue, parse.newKey, [],
          ?_, .inl rfl, fun _ => rfl⟩
        simp [action, here, state, HeadPart.state, nonempty]
      · subst question
        cases ends
        refine ⟨parse.requestObj.setStringValue (bytes "route") parse.newValue, [], parse.newValue,
          ?_, .inr rfl, by simp⟩
        simp [action, here, state, HeadPart.state, ch_eq_ch_iff]
  | queryKey =>
      simp only [HeadPart.next] at ends
      split_ifs at ends with space equals
      · subst space
        cases ends
        refine ⟨parse.requestObj, parse.newKey, parse.newValue, ?_, .inr rfl, by simp⟩
        simp [action, here, state, HeadPart.state]
      · subst equals
        cases ends
        refine ⟨parse.requestObj, parse.newKey, [], ?_, .inl rfl, fun _ => rfl⟩
        simp [action, here, state, HeadPart.state, ch_eq_ch_iff]
  | protocol =>
      simp only [HeadPart.next] at ends
      split_ifs at ends with lineFeed
      subst lineFeed
      cases ends
      refine ⟨parse.requestObj.setStringValue (bytes "protocol") parse.newValue, [], parse.newValue,
        ?_, .inr rfl, by simp⟩
      simp [action, here, state, HeadPart.state, ch_eq_ch_iff]
  | headerValue =>
      simp only [HeadPart.next] at ends
      split_ifs at ends with lineFeed
      subst lineFeed
      cases ends
      refine ⟨parse.requestObj.storeString parse.newKey parse.newValue, [], parse.newValue, ?_,
        .inr rfl, by simp⟩
      simp [action, here, state, HeadPart.state, ch_eq_ch_iff]

/-- A delimiter behind the value of a query has the value parsed first. -/
theorem action_queryValue {next : HeadPart} (here : memory parse.it = byte)
    (state : parse.state = 3) (ends : HeadPart.queryValue.next byte = some next) :
    ∃ key value, parse.action memory =
        .store (fun requestObj =>
          ⟨requestObj, parse.it, parse.exitHttpParse, next.state, key, value⟩) ∧
      (value = [] ∨ value = parse.newValue) ∧ (next = .queryValue → value = []) := by
  simp only [HeadPart.next] at ends
  split_ifs at ends with space ampersand
  · subst space
    cases ends
    refine ⟨parse.newKey, [], ?_, .inl rfl, fun _ => rfl⟩
    simp [action, here, state, HeadPart.state]
  · subst ampersand
    cases ends
    refine ⟨[], parse.newValue, ?_, .inr rfl, by simp⟩
    simp [action, here, state, HeadPart.state, ch_eq_ch_iff]

/-- A byte inside a part goes to the second `switch`, whatever follows it. -/
theorem action_inside (here : memory parse.it = byte) (state : parse.state = part.state)
    (inside : byte ∉ part.delimiters) : parse.action memory = .next (parse.collect memory) := by
  cases part <;>
    simp only [HeadPart.delimiters, bytes, String.reduceToList, List.map_cons, List.map_nil,
      List.mem_cons, List.not_mem_nil, or_false, not_or] at inside <;>
    simp [action, here, state, HeadPart.state, inside]

theorem step_of_action {after : HttpParse} (action : parse.action memory = .next after) :
    Converges (parse.step memory heap) after :=
  ⟨0, by simp only [step, action]⟩

/-- What one pass makes of a text in front of it, as far as the text breaks off
behind the colon of a header. -/
inductive Pass (memory : Memory) (heap : Nat → Memory) (stop : Nat) (part : HeadPart)
    (done tail : Bytes) (byte : UInt8) (parse : HttpParse) : Prop
  | goes {next : HeadPart} {taken later : Bytes} {after : HttpParse}
      (stepped : Converges (parse.step memory heap) after) (shorter : later.length ≤ tail.length)
      (inHead : InHead memory stop next taken later after.advance)
      (same : BreaksOff part (done ++ byte :: tail) ↔ BreaksOff next (taken ++ later))
  | exits {later : Bytes} {after : HttpParse} (stepped : Converges (parse.step memory heap) after)
      (exits : after.exitHttpParse = true) (front : InFront memory stop after.advance.it later)
      (whole : ¬ BreaksOff part (done ++ byte :: tail))
  | hangs (never : ∀ after, ¬ Converges (parse.step memory heap) after)
      (whole : ¬ BreaksOff part (done ++ byte :: tail))
  | leaves {after : HttpParse} (stepped : Converges (parse.step memory heap) after)
      (cursor : after.it = stop) (breaks : BreaksOff part (done ++ byte :: tail))

theorem InHead.pass_delimiter {next : HeadPart}
    (inHead : InHead memory stop part done (byte :: tail) parse)
    (ends : part.next byte = some next) (notValue : part ≠ .queryValue) :
    Pass memory heap stop part done tail byte parse := by
  obtain ⟨requestObj, key, value, action, kept, fresh⟩ :=
    action_delimiter inHead.front.here inHead.state inHead.route ends notValue
  have unescaped : Unescaped value := by
    rcases kept with rfl | rfl
    · exact unescaped_nil
    · exact inHead.unescaped
  refine .goes (step_of_action action) (Nat.le_refl _)
    (inHead.opens ends rfl rfl rfl unescaped fresh) ?_
  rw [BreaksOff.next_iff inHead.inside ends]
  exact and_iff_right fun isValue => absurd isValue notValue

theorem InHead.pass_value {next : HeadPart}
    (inHead : InHead memory stop .queryValue done (byte :: tail) parse)
    (ends : HeadPart.queryValue.next byte = some next) :
    Pass memory heap stop .queryValue done tail byte parse := by
  obtain ⟨key, value, action, kept, fresh⟩ :=
    action_queryValue inHead.front.here inHead.state ends
  have unescaped : Unescaped value := by
    rcases kept with rfl | rfl
    · exact unescaped_nil
    · exact inHead.unescaped
  have decoded : parse.newValue = decodeValue done := by
    have decoded := inHead.decoded rfl
    rw [valueOf_delimiter (HeadPart.mem_delimiters_of_next ends), List.append_nil] at decoded
    exact (List.append_nil _).symm.trans decoded
  have stepped (after : HttpParse) : Converges (parse.step memory heap) after ↔
      ∃ requestObj, Converges
          (parse.requestObj.storeValue (heap parse.it) parse.newKey parse.newValue) requestObj ∧
        after = ⟨requestObj, parse.it, parse.exitHttpParse, next.state, key, value⟩ := by
    have unfolded : parse.step memory heap = fun fuel =>
        (parse.requestObj.storeValue (heap parse.it) parse.newKey parse.newValue fuel).map
          fun requestObj =>
            (⟨requestObj, parse.it, parse.exitHttpParse, next.state, key, value⟩ : HttpParse) := by
      funext fuel
      simp only [step, action]
    rw [unfolded, converges_map]
  have returns : (∃ after, Converges (parse.requestObj.storeValue _ parse.newKey _) after) ↔ _ :=
    storeValue_returns_iff inHead.unescaped (heap parse.it)
  have same : BreaksOff .queryValue (done ++ byte :: tail) ↔ _ :=
    BreaksOff.next_iff inHead.inside ends
  rw [← decoded] at same
  by_cases quote : BreaksOffAtQuote parse.newValue
  · refine .hangs (fun after converges => ?_) fun breaks => (same.mp breaks).1 rfl quote
    obtain ⟨requestObj, stored, -⟩ := (stepped after).mp converges
    exact returns.mp ⟨requestObj, stored⟩ quote
  · obtain ⟨requestObj, stored⟩ := returns.mpr quote
    refine .goes ((stepped _).mpr ⟨requestObj, stored, rfl⟩) (Nat.le_refl _)
      (inHead.opens ends rfl rfl rfl unescaped fresh) ?_
    rw [same]
    exact and_iff_right fun _ => quote

/-- A colon opens the value of a header behind the byte that follows it. -/
theorem InHead.pass_colon (inHead : InHead memory stop .headerKey done (ch ':' :: tail) parse) :
    Pass memory heap stop .headerKey done tail (ch ':') parse := by
  have action : parse.action memory =
      .next { parse with it := parse.it + 1, newValue := [], state := 6 } := by
    simp [action, inHead.front.here, inHead.state, HeadPart.state, ch_eq_ch_iff]
  have cursor := inHead.front.cursor
  cases tail with
  | nil => exact .leaves (step_of_action action) cursor (.colon inHead.inside)
  | cons skipped tail =>
      have front : InFront memory stop parse.it ([ch ':', skipped] ++ tail) := inHead.front
      have inValue : InHead memory stop .headerValue [] tail
          { parse with it := parse.it + 1 + 1, newValue := [], state := 6 } :=
        ⟨front.skip, rfl, inHead.continues, List.forall_mem_nil _, unescaped_nil, by simp, by simp⟩
      exact .goes (step_of_action action) (Nat.le_succ _) inValue
        (BreaksOff.header_iff inHead.inside)

theorem InHead.pass_blank (inHead : InHead memory stop .headerKey done (ch '\n' :: tail) parse) :
    Pass memory heap stop .headerKey done tail (ch '\n') parse := by
  have action : parse.action memory =
      .next { parse with state := 8, exitHttpParse := true } := by
    simp [action, collect, inHead.front.here, inHead.state, HeadPart.state, ch_eq_ch_iff]
  have front : InFront memory stop parse.it ([ch '\n'] ++ tail) := inHead.front
  exact .exits (step_of_action action) rfl front.skip (BreaksOff.not_blank inHead.inside)

theorem InHead.pass (heap : Nat → Memory)
    (inHead : InHead memory stop part done (byte :: tail) parse) :
    Pass memory heap stop part done tail byte parse := by
  by_cases inside : byte ∈ part.delimiters
  · by_cases isKey : part = .headerKey
    · subst isKey
      rcases (by simpa [HeadPart.delimiters, bytes] using inside : byte = ch ':' ∨ byte = ch '\n')
        with rfl | rfl
      · exact inHead.pass_colon
      · exact inHead.pass_blank
    obtain ⟨next, ends⟩ := HeadPart.exists_next isKey inside
    by_cases isValue : part = .queryValue
    · subst isValue
      exact inHead.pass_value ends
    · exact inHead.pass_delimiter ends isValue
  · obtain ⟨taken, later, split, nonempty, inHeadLater⟩ := inHead.collects inside
    have goes := action_inside inHead.front.here inHead.state inside
    refine .goes (step_of_action goes) ?_ inHeadLater ?_
    · have lengths := congrArg List.length split
      rw [List.length_append, List.length_cons] at lengths
      have positive := List.length_pos_of_ne_nil nonempty
      omega
    · rw [split, List.append_assoc]

end HttpParse

end Libjaypea
