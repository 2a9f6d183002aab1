import Libjaypea.HeadReading

/-!
# Stretches of a request head

The main loop of `parse_http_request` over a whole part of the head, whatever
lies behind that part.  A stretch of passes is an equation between two runs of
the loop, and it keeps account of the names that are stored on the way.
-/

namespace Libjaypea

open Fuelled JsonObject

namespace HttpParse

variable {memory : Memory} {heap : Nat → Memory} {parse middle after : HttpParse}
  {names more : List Bytes}

theorem namesStored_stable (memory : Memory) (heap : Nat → Memory) (parse : HttpParse) :
    Stable fun fuel => namesStored memory heap fuel parse := by
  intro fuel
  induction fuel generalizing parse with
  | zero => intro names answer; cases answer
  | succ fuel ih =>
      intro names answer
      simp only [namesStored] at answer ⊢
      split_ifs at answer ⊢ with terminator exits
      · exact answer
      · exact answer
      · obtain ⟨after, stepped, later⟩ := Option.bind_eq_some_iff.mp answer
        obtain ⟨others, named, together⟩ := Option.map_eq_some_iff.mp later
        refine Option.bind_eq_some_iff.mpr
          ⟨after, step_stable memory heap parse fuel after stepped, ?_⟩
        exact Option.map_eq_some_iff.mpr ⟨others, ih _ _ named, together⟩

theorem exists_namesStored {fuel : Nat} {last : HttpParse}
    (runs : loop memory heap fuel parse = some last) :
    ∃ names, namesStored memory heap fuel parse = some names := by
  induction fuel generalizing parse with
  | zero => cases runs
  | succ fuel ih =>
      simp only [loop] at runs
      simp only [namesStored]
      split_ifs at runs ⊢ with terminator exits
      · exact ⟨[], rfl⟩
      · exact ⟨[], rfl⟩
      · obtain ⟨after, stepped, later⟩ := Option.bind_eq_some_iff.mp runs
        obtain ⟨names, named⟩ := ih later
        exact ⟨nameStored memory parse ++ names, by
          rw [stepped, Option.bind_some, named, Option.map_some]⟩

/-- After a number of passes the loop is in `after`, and has stored under the names. -/
def Passes (memory : Memory) (heap : Nat → Memory) (parse after : HttpParse)
    (names : List Bytes) : Prop :=
  ∃ least count, ∀ fuel, least ≤ fuel →
    loop memory heap (fuel + count) parse = loop memory heap fuel after ∧
      namesStored memory heap (fuel + count) parse =
        (namesStored memory heap fuel after).map fun later => names ++ later

theorem Passes.refl (memory : Memory) (heap : Nat → Memory) (parse : HttpParse) :
    Passes memory heap parse parse [] :=
  ⟨0, 0, fun _ _ => ⟨rfl, by simp⟩⟩

theorem Passes.trans (first : Passes memory heap parse middle names)
    (second : Passes memory heap middle after more) :
    Passes memory heap parse after (names ++ more) := by
  obtain ⟨firstLeast, firstCount, firstRuns⟩ := first
  obtain ⟨secondLeast, secondCount, secondRuns⟩ := second
  refine ⟨max firstLeast secondLeast, secondCount + firstCount, fun fuel enough => ?_⟩
  obtain ⟨firstLoop, firstNames⟩ := firstRuns (fuel + secondCount) (by omega)
  obtain ⟨secondLoop, secondNames⟩ := secondRuns fuel (by omega)
  rw [← Nat.add_assoc]
  refine ⟨firstLoop.trans secondLoop, ?_⟩
  rw [firstNames, secondNames, Option.map_map]
  simp [Function.comp_def]

theorem passes_of_step (inside : memory parse.it ≠ 0) (continues : parse.exitHttpParse = false)
    (stepped : Converges (parse.step memory heap) after) :
    Passes memory heap parse after.advance (nameStored memory parse) := by
  obtain ⟨least, answer⟩ := stepped
  refine ⟨least, 1, fun fuel enough => ?_⟩
  have stepped := (step_stable memory heap parse).of_le enough answer
  simp [loop, namesStored, inside, continues, stepped]

theorem passes_of_next (inside : memory parse.it ≠ 0) (continues : parse.exitHttpParse = false)
    (action : parse.action memory = .next after) :
    Passes memory heap parse after.advance (nameStored memory parse) :=
  passes_of_step inside continues (step_of_action action)

/-- What the loop does behind a stretch it does in front of it. -/
theorem Passes.reaches (passes : Passes memory heap parse after names) :
    Reaches memory heap parse after := by
  obtain ⟨least, count, runs⟩ := passes
  intro result
  constructor
  · rintro ⟨fuel, answer⟩
    have enough : fuel ≤ max fuel least + count := by omega
    have longer := (loop_stable memory heap parse).of_le enough answer
    exact ⟨max fuel least, (runs _ (Nat.le_max_right _ _)).1.symm.trans longer⟩
  · rintro ⟨fuel, answer⟩
    have longer := (loop_stable memory heap after).of_le (Nat.le_max_left fuel least) answer
    exact ⟨max fuel least + count, (runs _ (Nat.le_max_right _ _)).1.trans longer⟩

/-- A run of the loop goes on behind a stretch, and what it stores there is left. -/
theorem Passes.split {fuel : Nat} {last : HttpParse} {all : List Bytes}
    (passes : Passes memory heap parse after names) (runs : loop memory heap fuel parse = some last)
    (named : namesStored memory heap fuel parse = some all) :
    ∃ fuelLeft later, loop memory heap fuelLeft after = some last ∧
      namesStored memory heap fuelLeft after = some later ∧ all = names ++ later := by
  obtain ⟨least, count, equations⟩ := passes
  obtain ⟨loops, stores⟩ := equations (max fuel least) (Nat.le_max_right _ _)
  have enough : fuel ≤ max fuel least + count := by omega
  have runsLonger := (loop_stable memory heap parse).of_le enough runs
  have namedLonger := (namesStored_stable memory heap parse).of_le enough named
  obtain ⟨later, left, together⟩ := Option.map_eq_some_iff.mp (stores.symm.trans namedLonger)
  exact ⟨max fuel least, later, loops.symm.trans runsLonger, left, together.symm⟩

end HttpParse

namespace HeadPart

variable {part : HeadPart} {byte : UInt8} {rest : Bytes}

/-- The parts that go into `new_value`. -/
def ReadsValue (part : HeadPart) : Prop :=
  part ≠ .queryKey ∧ part ≠ .headerKey

instance (part : HeadPart) : Decidable part.ReadsValue :=
  inferInstanceAs (Decidable (_ ∧ _))

/-- What the bytes of a part that goes into `new_value` stand for. -/
def decode : HeadPart → Bytes → Bytes
  | queryValue => decodeValue
  | _ => HttpParse.decodePath

theorem decode_nil (part : HeadPart) : part.decode [] = [] := by
  cases part <;> rfl

theorem decode_escape {first second decoded : UInt8} (part : HeadPart)
    (known : first ∈ bytes "260A" ∧ second ∈ bytes "260A")
    (decodes : ∀ rest, HttpParse.decodePath (ch '%' :: first :: second :: rest) =
      decoded :: HttpParse.decodePath rest) (rest : Bytes) :
    part.decode (ch '%' :: first :: second :: rest) = decoded :: part.decode rest := by
  cases part with
  | queryValue => exact decodeValue_escape known decodes rest
  | route | queryKey | protocol | headerKey | headerValue => exact decodes rest

theorem decode_percent (part : HeadPart) (quote : ¬ [ch '2', ch '6'] <+: rest)
    (lineFeed : ¬ [ch '0', ch 'A'] <+: rest) :
    part.decode (ch '%' :: rest) = part.decode rest := by
  cases part with
  | queryValue => exact decodeValue_percent quote lineFeed
  | route | queryKey | protocol | headerKey | headerValue =>
      exact HttpParse.decodePath_percent quote lineFeed

theorem decode_carriage (part : HeadPart) (rest : Bytes) :
    part.decode (ch '\r' :: rest) = part.decode rest := by
  cases part with
  | queryValue => exact decodeValue_carriage rest
  | route | queryKey | protocol | headerKey | headerValue =>
      exact HttpParse.decodePath_carriage rest

theorem decode_cons (percent : byte ≠ ch '%') (carriage : byte ≠ ch '\r')
    (plus : part = .queryValue → byte ≠ ch '+') (rest : Bytes) :
    part.decode (byte :: rest) = byte :: part.decode rest := by
  cases part with
  | queryValue => exact decodeValue_cons percent carriage (plus rfl) rest
  | route | queryKey | protocol | headerKey | headerValue =>
      exact HttpParse.decodePath_cons percent carriage rest

end HeadPart

namespace HttpParse

variable {memory : Memory} {heap : Nat → Memory} {parse : HttpParse} {part : HeadPart}
  {text rest : Bytes} {byte ends : UInt8}

theorem nameStored_inside (here : memory parse.it = byte) (state : parse.state = part.state)
    (inside : byte ∉ part.delimiters) : nameStored memory parse = [] := by
  cases part <;>
    simp only [HeadPart.delimiters, bytes, String.reduceToList, List.map_cons, List.map_nil,
      List.mem_cons, List.not_mem_nil, or_false, not_or] at inside <;>
    simp [nameStored, here, state, HeadPart.state, inside]

/-- The loop is in a part of the head, in front of `text` and the byte that ends it. -/
structure AtPart (memory : Memory) (part : HeadPart) (text : Bytes) (ends : UInt8)
    (parse : HttpParse) : Prop where
  state : parse.state = part.state
  continues : parse.exitHttpParse = false
  inside : part.Inside text
  nonzero : 0 ∉ text
  outside : ends ∉ bytes "260A"
  holds : memory.Holds parse.it (text ++ [ends])

/-- What a pass over a value reads, and what it appends. -/
structure Reads (memory : Memory) (part : HeadPart) (text : Bytes) (parse : HttpParse)
    (taken later added : Bytes) : Prop where
  split : text = taken ++ later
  nonempty : taken ≠ []
  decodes : part.decode text = added ++ part.decode later
  action : ∃ after, parse.action memory = .next after ∧
    after.advance =
      { parse with it := parse.it + taken.length, newValue := parse.newValue ++ added }

theorem AtPart.reads (atPart : AtPart memory part (byte :: rest) ends parse)
    (reads : part.ReadsValue) :
    ∃ taken later added, Reads memory part (byte :: rest) parse taken later added := by
  have here : memory parse.it = byte := atPart.holds.1
  have goes := action_inside here atPart.state (atPart.inside byte List.mem_cons_self)
  by_cases plus : part = .queryValue ∧ byte = ch '+'
  · obtain ⟨rfl, rfl⟩ := plus
    have collected : parse.collect memory =
        { parse with newValue := parse.newValue ++ [ch ' '] } := by
      simp [collect, atPart.state, here, HeadPart.state]
    exact ⟨[ch '+'], rest, [ch ' '], rfl, List.cons_ne_nil _ _, decodeValue_plus rest, _, goes,
      by rw [collected]; rfl⟩
  · have noPlus (isValue : part = .queryValue) : byte ≠ ch '+' := fun same => plus ⟨isValue, same⟩
    have collected : parse.collect memory = parse.appendValue memory := by
      cases part with
      | queryKey => exact absurd rfl reads.1
      | headerKey => exact absurd rfl reads.2
      | queryValue => simp [collect, atPart.state, here, HeadPart.state, noPlus]
      | route | protocol | headerValue => simp [collect, atPart.state, HeadPart.state]
    rw [collected] at goes
    rcases appends atPart.holds atPart.outside with
      ⟨rfl, rfl, known, -, decodes, appended⟩ | ⟨rfl, quote, lineFeed, appended⟩ |
        ⟨rfl, appended⟩ | ⟨percent, carriage, appended⟩
    · rename_i first second decoded later
      exact ⟨[ch '%', first, second], later, [decoded], rfl, List.cons_ne_nil _ _,
        part.decode_escape known decodes later, _, goes, by rw [appended]; rfl⟩
    · exact ⟨[ch '%'], rest, [], rfl, List.cons_ne_nil _ _, part.decode_percent quote lineFeed, _,
        goes, by rw [appended, List.append_nil]; rfl⟩
    · exact ⟨[ch '\r'], rest, [], rfl, List.cons_ne_nil _ _, part.decode_carriage rest, _,
        goes, by rw [appended, List.append_nil]; rfl⟩
    · exact ⟨[byte], rest, [byte], rfl, List.cons_ne_nil _ _,
        HeadPart.decode_cons percent carriage noPlus rest, _, goes, by rw [appended]; rfl⟩

/-- A part is taken whole: what its bytes stand for is appended to the value. -/
theorem AtPart.passes (atPart : AtPart memory part text ends parse) (reads : part.ReadsValue) :
    Passes memory heap parse
      { parse with
        it := parse.it + text.length
        newValue := parse.newValue ++ part.decode text } [] := by
  induction length : text.length using Nat.strong_induction_on generalizing text parse with
  | _ length ih =>
      subst length
      cases text with
      | nil =>
          rw [part.decode_nil, List.append_nil]
          exact Passes.refl memory heap parse
      | cons byte rest =>
          have here : memory parse.it = byte := atPart.holds.1
          have inside := atPart.inside byte List.mem_cons_self
          have nonzero : memory parse.it ≠ 0 := by
            rw [here]
            rintro rfl
            exact atPart.nonzero List.mem_cons_self
          obtain ⟨taken, later, added, split, nonempty, decodes, after, action, advanced⟩ :=
            atPart.reads reads
          have first : Passes memory heap parse after.advance (nameStored memory parse) :=
            passes_of_next nonzero atPart.continues action
          rw [nameStored_inside here atPart.state inside, advanced] at first
          obtain ⟨state, continues, inside, nonzero, outside, holds⟩ := atPart
          rw [split] at inside nonzero holds
          rw [List.append_assoc] at holds
          have positive := List.length_pos_of_ne_nil nonempty
          have lengths := congrArg List.length split
          rw [List.length_append] at lengths
          have atLater : AtPart memory part later ends
              { parse with
                it := parse.it + taken.length
                newValue := parse.newValue ++ added } :=
            ⟨state, continues, (List.forall_mem_append.mp inside).2,
              fun member => nonzero (List.mem_append_right _ member), outside,
              (Memory.holds_append.mp holds).2⟩
          have whole := first.trans (ih later.length (by omega) atLater rfl)
          simp only [List.append_assoc, Nat.add_assoc, ← decodes, ← lengths] at whole
          exact whole

/-- A key is taken whole: its bytes are appended as they are. -/
theorem AtPart.passes_key (atPart : AtPart memory .queryKey text ends parse) :
    Passes memory heap parse
      { parse with it := parse.it + text.length, newKey := parse.newKey ++ text } [] := by
  induction text generalizing parse with
  | nil =>
      rw [List.append_nil]
      exact Passes.refl memory heap parse
  | cons byte rest ih =>
      obtain ⟨state, continues, inside, nonzero, outside, here, holds⟩ := atPart
      have insideByte := inside byte List.mem_cons_self
      have notEnd : memory parse.it ≠ 0 := by
        rw [here]
        rintro rfl
        exact nonzero List.mem_cons_self
      have collected : parse.collect memory = { parse with newKey := parse.newKey ++ [byte] } := by
        simp [collect, state, here, HeadPart.state]
      have goes := action_inside here state insideByte
      rw [collected] at goes
      have first : Passes memory heap parse _ (nameStored memory parse) :=
        passes_of_next notEnd continues goes
      rw [nameStored_inside here state insideByte] at first
      have atRest : AtPart memory .queryKey rest ends
          (advance { parse with newKey := parse.newKey ++ [byte] }) :=
        ⟨state, continues, (List.forall_mem_cons.mp inside).2,
          fun member => nonzero (List.mem_cons_of_mem _ member), outside, holds⟩
      have whole := first.trans (ih atRest)
      simp only [advance, List.append_assoc, List.singleton_append, List.append_nil] at whole
      rw [List.length_cons, Nat.add_comm rest.length, ← Nat.add_assoc]
      exact whole

section Delimiters

variable {requestObj stored : JsonObject} {it : Nat} {key value : Bytes}

theorem passes_space_route (here : memory it = ch ' ') (nonempty : value ≠ []) :
    Passes memory heap ⟨requestObj, it, false, 1, key, value⟩
      ⟨requestObj.setStringValue (bytes "route") value, it + 1, false, 4, key, []⟩ [] := by
  have passes : Passes memory heap ⟨requestObj, it, false, 1, key, value⟩ _ _ :=
    passes_of_next (by simp only [here]; decide) rfl (by simp [action, here, nonempty]; rfl)
  simpa [nameStored, advance] using passes

theorem passes_question (here : memory it = ch '?') :
    Passes memory heap ⟨requestObj, it, false, 1, key, value⟩
      ⟨requestObj.setStringValue (bytes "route") value, it + 1, false, 2, [], value⟩ [] := by
  have passes : Passes memory heap ⟨requestObj, it, false, 1, key, value⟩ _ _ :=
    passes_of_next (by simp only [here]; decide) rfl (by simp [action, here, ch_eq_ch_iff]; rfl)
  simpa [nameStored, advance] using passes

theorem passes_equals (here : memory it = ch '=') :
    Passes memory heap ⟨requestObj, it, false, 2, key, value⟩
      ⟨requestObj, it + 1, false, 3, key, []⟩ [] := by
  have passes : Passes memory heap ⟨requestObj, it, false, 2, key, value⟩ _ _ :=
    passes_of_next (by simp only [here]; decide) rfl (by simp [action, here, ch_eq_ch_iff]; rfl)
  simpa [nameStored, advance] using passes

/-- The state behind the value of a query, when the value has been stored. -/
def behindValue (ends : UInt8) (stored : JsonObject) (it : Nat) (key value : Bytes) : HttpParse :=
  if ends = ch ' ' then ⟨stored, it + 1, false, 4, key, []⟩
  else ⟨stored, it + 1, false, 2, [], value⟩

theorem action_value_end (requestObj : JsonObject) (key value : Bytes) (here : memory it = ends)
    (isEnd : ends = ch ' ' ∨ ends = ch '&') :
    ∃ resume, (⟨requestObj, it, false, 3, key, value⟩ : HttpParse).action memory = .store resume ∧
      ∀ stored, (resume stored).advance = behindValue ends stored it key value := by
  rcases isEnd with rfl | rfl
  · exact ⟨fun requestObj => ⟨requestObj, it, false, 4, key, []⟩, by simp [action, here],
      fun stored => rfl⟩
  · exact ⟨fun requestObj => ⟨requestObj, it, false, 2, [], value⟩,
      by simp [action, here, ch_eq_ch_iff], fun stored => rfl⟩

/-- The value of a query is stored under its key. -/
theorem passes_value_end (here : memory it = ends) (isEnd : ends = ch ' ' ∨ ends = ch '&')
    (stores : Converges (requestObj.storeValue (heap it) key value) stored) :
    Passes memory heap ⟨requestObj, it, false, 3, key, value⟩
      (behindValue ends stored it key value) [key] := by
  obtain ⟨resume, action, advanced⟩ := action_value_end requestObj key value here isEnd
  have notEnd : memory it ≠ 0 := by
    rw [here]
    rcases isEnd with rfl | rfl <;> decide
  have named : nameStored memory ⟨requestObj, it, false, 3, key, value⟩ = [key] := by
    simp only [nameStored, here, isEnd, true_and, true_or, if_true]
  rw [← advanced, ← named]
  obtain ⟨fuel, answer⟩ := stores
  exact passes_of_step notEnd rfl ⟨fuel, by simp only [step, action, answer, Option.map_some]⟩

/-- A run that goes past the value of a query has stored it. -/
theorem exists_stored {fuel : Nat} {last : HttpParse} (here : memory it = ends)
    (isEnd : ends = ch ' ' ∨ ends = ch '&')
    (runs : loop memory heap fuel ⟨requestObj, it, false, 3, key, value⟩ = some last) :
    ∃ stored, Converges (requestObj.storeValue (heap it) key value) stored := by
  obtain ⟨resume, action, -⟩ := action_value_end requestObj key value here isEnd
  have notEnd : memory it ≠ 0 := by
    rw [here]
    rcases isEnd with rfl | rfl <;> decide
  cases fuel with
  | zero => cases runs
  | succ fuel =>
      simp only [loop, notEnd, if_false, step, action, Bool.false_eq_true] at runs
      obtain ⟨after, stepped, -⟩ := Option.bind_eq_some_iff.mp runs
      obtain ⟨stored, answer, -⟩ := Option.map_eq_some_iff.mp stepped
      exact ⟨stored, fuel, answer⟩

end Delimiters

end HttpParse

end Libjaypea
