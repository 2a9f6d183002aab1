import Libjaypea.HeadReading

/-!
# Bounds of the HTTP request parser

The packet buffer is used again for every request, so behind the terminator of
a request there are bytes of earlier ones.  On a request without backslashes the
parser looks at them exactly when the request breaks off right behind the colon
of a header: the byte that it steps over there is the terminator.
-/

namespace Libjaypea

open Fuelled JsonObject

namespace HttpParse

/-- A loop of `parse_http_request`, entered in a state, sets its cursor to a value. -/
inductive LoopVisits (memory : Memory) (step : HttpParse → Nat → Option HttpParse) :
    HttpParse → Nat → Prop
  | head (parse : HttpParse) : LoopVisits memory step parse parse.it
  /-- Where the body of the loop leaves the cursor. -/
  | body {parse after : HttpParse} (inside : memory parse.it ≠ 0)
      (continues : parse.exitHttpParse = false) (stepped : Converges (step parse) after) :
      LoopVisits memory step parse after.it
  | next {parse after : HttpParse} {cursor : Nat} (inside : memory parse.it ≠ 0)
      (continues : parse.exitHttpParse = false) (stepped : Converges (step parse) after)
      (later : LoopVisits memory step after.advance cursor) : LoopVisits memory step parse cursor

/-- The object with the members that every request has. -/
def received (requestObj : JsonObject) : JsonObject :=
  { requestObj with
    objectValues :=
      KeyedList.set
        (KeyedList.set
          (KeyedList.set requestObj.objectValues (bytes "method") (ofString (bytes "GET")))
          (bytes "route") (new .string))
        (bytes "protocol") (ofString (bytes "JPON")) }

/-- The main loop behind the slash of a request that fills a given object. -/
def entered (requestObj : JsonObject) (method : Bytes) (it : Nat) : HttpParse :=
  ⟨(received requestObj).setStringValue (bytes "method") method, it, false, 1, [], [ch '/']⟩

/-- The loop over a form. -/
def enteredForm (requestObj : JsonObject) (it : Nat) : HttpParse :=
  ⟨requestObj, it, false, 1, [], []⟩

/-- The request says that its body is of the given type. -/
def HasContentType (requestObj : JsonObject) (contentType : Bytes) : Prop :=
  requestObj.hasObj (bytes "Content-Type") .string = true ∧
    requestObj.getStr (bytes "Content-Type") = some contentType

/-- The values of the cursor of `parse_http_request`, and of the parser that it
hands its cursor to. -/
inductive RequestVisits (memory : Memory) (heap : Nat → Memory) (request : Nat)
    (requestObj : JsonObject) : Nat → Prop
  | start : RequestVisits memory heap request requestObj request
  | pure {cursor : Nat} (noMethod : httpStart memory request = none)
      (visits : Visits memory (.start (received requestObj) request) cursor) :
      RequestVisits memory heap request requestObj cursor
  | head {method : Bytes} {it cursor : Nat} (starts : httpStart memory request = some (method, it))
      (visits : LoopVisits memory (step memory heap) (entered requestObj method it) cursor) :
      RequestVisits memory heap request requestObj cursor
  | json {method : Bytes} {it cursor : Nat} {last : HttpParse}
      (starts : httpStart memory request = some (method, it))
      (runs : Runs memory heap (entered requestObj method it) last)
      (json : HasContentType last.requestObj (bytes "application/json"))
      (visits : Visits memory (.start last.requestObj last.it) cursor) :
      RequestVisits memory heap request requestObj cursor
  | form {method : Bytes} {it cursor : Nat} {last : HttpParse}
      (starts : httpStart memory request = some (method, it))
      (runs : Runs memory heap (entered requestObj method it) last)
      (form : HasContentType last.requestObj (bytes "application/x-www-form-urlencoded"))
      (visits : LoopVisits memory (formStep memory heap) (enteredForm last.requestObj last.it)
        cursor) :
      RequestVisits memory heap request requestObj cursor

/-- The parser leaves the request nowhere, and no memory that has the same bytes
up to the terminator makes it return another result or fill another object. -/
def RequestStaysInside (memory : Memory) (heap : Nat → Memory) (request : Nat)
    (requestObj : JsonObject) (text : Bytes) : Prop :=
  (∀ cursor, RequestVisits memory heap request requestObj cursor →
      cursor ≤ request + text.length) ∧
    ∀ (other : Memory) (otherHeap : Nat → Memory),
      (∀ address ≤ request + text.length, other address = memory address) →
        ∀ result, Converges (parseHttpRequest other otherHeap request requestObj) result ↔
          Converges (parseHttpRequest memory heap request requestObj) result

section Loops

variable {memory other : Memory} {heap otherHeap : Nat → Memory} {stop : Nat}
  {parse after last : HttpParse} {fuel : Nat}

/-- What every pass of a loop preserves bounds the cursor of the loop. -/
theorem LoopVisits.le {step : HttpParse → Nat → Option HttpParse} {holds : HttpParse → Prop}
    (bounded : ∀ parse, holds parse → parse.it ≤ stop)
    (preserved : ∀ parse after, holds parse → memory parse.it ≠ 0 →
      parse.exitHttpParse = false → Converges (step parse) after →
        after.it ≤ stop ∧ holds after.advance)
    {cursor : Nat} (visits : LoopVisits memory step parse cursor) (begins : holds parse) :
    cursor ≤ stop := by
  induction visits with
  | head parse => exact bounded parse begins
  | body inside continues stepped => exact (preserved _ _ begins inside continues stepped).1
  | next inside continues stepped _ ih =>
      exact ih (preserved _ _ begins inside continues stepped).2

/-- The main loop is in a head that does not break off, or it has come to its end. -/
def Safe (memory : Memory) (stop : Nat) (parse : HttpParse) : Prop :=
  (∃ part done rest, InHead memory stop part done rest parse ∧ ¬ BreaksOff part (done ++ rest)) ∨
    parse.exitHttpParse = true ∧ ∃ rest, InFront memory stop parse.it rest

theorem Safe.exists_front (safe : Safe memory stop parse) :
    ∃ rest, InFront memory stop parse.it rest := by
  rcases safe with ⟨part, done, rest, inHead, -⟩ | ⟨-, front⟩
  · exact ⟨rest, inHead.front⟩
  · exact front

theorem Safe.le_stop (safe : Safe memory stop parse) : parse.it ≤ stop := by
  obtain ⟨rest, front⟩ := safe.exists_front
  exact front.le_stop

/-- A pass keeps the loop inside the text. -/
theorem Safe.step (safe : Safe memory stop parse) (inside : memory parse.it ≠ 0)
    (continues : parse.exitHttpParse = false) (stepped : Converges (parse.step memory heap) after) :
    after.it ≤ stop ∧ Safe memory stop after.advance := by
  have bounded (safe : Safe memory stop after.advance) : after.it ≤ stop :=
    Nat.le_of_succ_le safe.le_stop
  rcases safe with ⟨part, done, rest, inHead, whole⟩ | ⟨exits, -⟩
  · obtain ⟨byte, tail, rfl⟩ := inHead.front.exists_cons inside
    have unique {changed : HttpParse} (other : Converges (parse.step memory heap) changed) :
        after = changed := (step_stable memory heap parse).unique stepped other
    cases inHead.pass heap with
    | goes other shorter inHeadLater same =>
        obtain rfl := unique other
        have later : Safe memory stop after.advance :=
          .inl ⟨_, _, _, inHeadLater, fun breaks => whole (same.mpr breaks)⟩
        exact ⟨bounded later, later⟩
    | exits other exits front whole =>
        obtain rfl := unique other
        have later : Safe memory stop after.advance := .inr ⟨exits, _, front⟩
        exact ⟨bounded later, later⟩
    | hangs never => exact absurd stepped (never after)
    | leaves other cursor breaks => exact absurd breaks whole
  · exact absurd exits (by simp [continues])

theorem Safe.visits_le (safe : Safe memory stop parse) {cursor : Nat}
    (visits : LoopVisits memory (HttpParse.step memory heap) parse cursor) : cursor ≤ stop :=
  visits.le (fun _ safe => safe.le_stop)
    (fun _ _ safe inside continues stepped => safe.step inside continues stepped) safe

/-- Where the loop ends, the body is in front of the cursor. -/
theorem Safe.loop (safe : Safe memory stop parse)
    (runs : HttpParse.loop memory heap fuel parse = some last) : Safe memory stop last := by
  induction fuel generalizing parse with
  | zero => cases runs
  | succ fuel ih =>
      rw [HttpParse.loop] at runs
      split_ifs at runs with terminator exits
      · cases runs
        exact safe
      · cases runs
        exact safe
      · obtain ⟨after, stepped, later⟩ := Option.bind_eq_some_iff.mp runs
        exact ih (safe.step terminator (by simpa using exits) ⟨fuel, stepped⟩).2 later

/-- On a text that breaks off behind the colon of a header the cursor passes the terminator. -/
theorem InHead.visits_behind {part : HeadPart} {done rest : Bytes} (heap : Nat → Memory)
    (inHead : InHead memory stop part done rest parse) (breaks : BreaksOff part (done ++ rest)) :
    LoopVisits memory (HttpParse.step memory heap) parse (stop + 1) := by
  induction length : rest.length using Nat.strongRecOn generalizing part done rest parse with
  | ind length ih =>
      cases rest with
      | nil =>
          rw [List.append_nil] at breaks
          exact absurd breaks (BreaksOff.not_inside inHead.inside)
      | cons byte tail =>
          have inside := inHead.front.inside
          cases inHead.pass heap with
          | goes stepped shorter inHeadLater same =>
              refine .next inside inHead.continues stepped ?_
              exact ih _ (by simp only [List.length_cons] at length; omega) inHeadLater
                (same.mp breaks) rfl
          | exits _ _ _ whole => exact absurd breaks whole
          | hangs _ whole => exact absurd breaks whole
          | @leaves after stepped cursor _ =>
              have behind : after.advance.it = stop + 1 := congrArg (· + 1) cursor
              exact .next inside inHead.continues stepped (behind ▸ .head after.advance)

section Agreement

variable (same : ∀ address ≤ stop, other address = memory address)
include same

/-- A byte that is no escape hides what stands behind it. -/
theorem appendValue_agree {rest : Bytes} (front : InFront memory stop parse.it rest)
    (inside : memory parse.it ≠ 0) :
    parse.appendValue other = parse.appendValue memory := by
  obtain ⟨byte, tail, rfl⟩ := front.exists_cons inside
  have here : other parse.it = memory parse.it := same _ front.le_stop
  have next : other (parse.it + 1) = memory (parse.it + 1) := same _ front.lt_stop
  cases tail with
  | nil =>
      have zero : memory (parse.it + 1) = 0 := front.holds.2.1
      have notQuote : (0 : UInt8) ≠ ch '2' := by decide
      have notLineFeed : (0 : UInt8) ≠ ch '0' := by decide
      simp only [appendValue, here, next, zero, notQuote, notLineFeed, false_and, if_false]
  | cons second tail =>
      have cursor := front.cursor
      simp only [List.length_cons] at cursor
      have second : other (parse.it + 2) = memory (parse.it + 2) := same _ (by omega)
      simp only [appendValue, here, next, second]

theorem collect_agree {rest : Bytes} (front : InFront memory stop parse.it rest)
    (inside : memory parse.it ≠ 0) : parse.collect other = parse.collect memory := by
  have here : other parse.it = memory parse.it := same _ front.le_stop
  simp only [collect, here, appendValue_agree same front inside]

/-- What a pass does is decided by the bytes up to the terminator. -/
theorem action_agree {rest : Bytes} (front : InFront memory stop parse.it rest)
    (inside : memory parse.it ≠ 0) : parse.action other = parse.action memory := by
  have here : other parse.it = memory parse.it := same _ front.le_stop
  have collected := collect_agree same front inside
  have blank : ({ parse with state := 7 } : HttpParse).collect other =
      ({ parse with state := 7 } : HttpParse).collect memory := collect_agree same front inside
  simp only [action, here, collected, blank]

theorem Safe.step_agree (safe : Safe memory stop parse) (inside : memory parse.it ≠ 0)
    (continues : parse.exitHttpParse = false) :
    parse.step other otherHeap = parse.step memory heap := by
  obtain ⟨part, done, rest, inHead, -⟩ | ⟨exits, -⟩ := safe
  · have unescaped := inHead.unescaped
    funext fuel
    simp only [HttpParse.step, action_agree same inHead.front inside,
      storeValue_agree unescaped (heap parse.it) (otherHeap parse.it)]
  · exact absurd exits (by simp [continues])

theorem Safe.loop_agree (safe : Safe memory stop parse) :
    HttpParse.loop other otherHeap fuel parse = HttpParse.loop memory heap fuel parse := by
  induction fuel generalizing parse with
  | zero => rfl
  | succ fuel ih =>
      have here : other parse.it = memory parse.it := same _ safe.le_stop
      simp only [HttpParse.loop, here]
      split_ifs with terminator exits
      · rfl
      · rfl
      · have continues : parse.exitHttpParse = false := by simpa using exits
        have stepped : parse.step other otherHeap = parse.step memory heap :=
          safe.step_agree same terminator continues
        rw [stepped]
        apply Option.bind_congr
        intro after answer
        exact ih (safe.step terminator continues ⟨fuel, answer⟩).2

end Agreement

end Loops

section Form

variable {memory other : Memory} {heap otherHeap : Nat → Memory} {stop : Nat}
  {parse after last : HttpParse} {fuel : Nat}

/-- The loop over a form has a text without backslashes in front of it, and read
what it has read of a value from such a text. -/
structure InForm (memory : Memory) (stop : Nat) (parse : HttpParse) : Prop where
  exists_front : ∃ rest, InFront memory stop parse.it rest
  unescaped : Unescaped parse.newValue

theorem InForm.le_stop (inForm : InForm memory stop parse) : parse.it ≤ stop := by
  obtain ⟨rest, front⟩ := inForm.exists_front
  exact front.le_stop

/-- A pass over a form takes one byte. -/
theorem InForm.step (inForm : InForm memory stop parse) (inside : memory parse.it ≠ 0)
    (stepped : parse.formStep memory heap fuel = some after) :
    after.it ≤ stop ∧ InForm memory stop after.advance := by
  obtain ⟨rest, front⟩ := inForm.exists_front
  obtain ⟨byte, tail, rfl⟩ := front.exists_cons inside
  have frontByte : InFront memory stop parse.it ([byte] ++ tail) := front
  have frontTail : InFront memory stop (parse.it + 1) tail := frontByte.skip
  have here := front.here
  have longer : Unescaped (parse.newValue ++ [byte]) :=
    unescaped_append.mpr ⟨inForm.unescaped,
      unescaped_singleton.mpr (front.unescaped byte List.mem_cons_self)⟩
  have took (cursor : after.it = parse.it) (unescaped : Unescaped after.newValue) :
      after.it ≤ stop ∧ InForm memory stop after.advance := by
    refine ⟨cursor ▸ front.le_stop, ⟨tail, ?_⟩, unescaped⟩
    change InFront memory stop (after.it + 1) tail
    rw [cursor]
    exact frontTail
  simp only [formStep, here] at stepped
  split_ifs at stepped with ampersand equals key value
  · obtain ⟨requestObj, -, rfl⟩ := Option.map_eq_some_iff.mp stepped
    exact took rfl unescaped_nil
  · cases stepped
    exact took rfl inForm.unescaped
  · cases stepped
    exact took rfl inForm.unescaped
  · cases stepped
    exact took rfl longer
  · cases stepped
    exact took rfl inForm.unescaped

theorem InForm.visits_le (inForm : InForm memory stop parse) {cursor : Nat}
    (visits : LoopVisits memory (formStep memory heap) parse cursor) : cursor ≤ stop :=
  visits.le (fun _ inForm => inForm.le_stop)
    (fun _ _ inForm inside _ ⟨_, stepped⟩ => inForm.step inside stepped) inForm

theorem InForm.loop (inForm : InForm memory stop parse)
    (runs : formLoop memory heap fuel parse = some last) : InForm memory stop last := by
  induction fuel generalizing parse with
  | zero => cases runs
  | succ fuel ih =>
      rw [formLoop] at runs
      split_ifs at runs with terminator
      · cases runs
        exact inForm
      · obtain ⟨after, stepped, later⟩ := Option.bind_eq_some_iff.mp runs
        exact ih (inForm.step terminator stepped).2 later

section Agreement

variable (same : ∀ address ≤ stop, other address = memory address)
include same

theorem InForm.loop_agree (inForm : InForm memory stop parse) :
    formLoop other otherHeap fuel parse = formLoop memory heap fuel parse := by
  induction fuel generalizing parse with
  | zero => rfl
  | succ fuel ih =>
      have here : other parse.it = memory parse.it := same _ inForm.le_stop
      have stepped : parse.formStep other otherHeap fuel = parse.formStep memory heap fuel := by
        simp only [formStep, here,
          storeValue_agree inForm.unescaped (heap parse.it) (otherHeap parse.it)]
      simp only [formLoop, here, stepped]
      split_ifs with terminator
      · rfl
      · apply Option.bind_congr
        intro after answer
        exact ih (inForm.step terminator answer).2

end Agreement

end Form

section Body

variable {memory other : Memory} {heap otherHeap : Nat → Memory} {stop it : Nat} {rest : Bytes}
  {requestObj : JsonObject}

theorem inForm_enteredForm (front : InFront memory stop it rest) :
    InForm memory stop (enteredForm requestObj it) :=
  ⟨⟨rest, front⟩, unescaped_nil⟩

section Agreement

variable (same : ∀ address ≤ stop, other address = memory address)
include same

theorem parseForm_agree (front : InFront memory stop it rest) :
    parseForm other otherHeap requestObj it = parseForm memory heap requestObj it := by
  have inForm : InForm memory stop (enteredForm requestObj it) := inForm_enteredForm front
  funext fuel
  have loops : formLoop other otherHeap fuel ⟨requestObj, it, false, 1, [], []⟩ =
      formLoop memory heap fuel ⟨requestObj, it, false, 1, [], []⟩ := inForm.loop_agree same
  rw [parseForm, parseForm, loops]
  apply Option.bind_congr
  intro last runs
  have unescaped := (inForm.loop runs).unescaped
  rw [storeValue_agree unescaped (heap last.it) (otherHeap last.it)]

theorem parseBody_agree {parse : HttpParse} (front : InFront memory stop parse.it rest) :
    parse.parseBody other otherHeap = parse.parseBody memory heap := by
  have form : parseForm other otherHeap parse.requestObj parse.it =
      parseForm memory heap parse.requestObj parse.it :=
    parseForm_agree same front
  funext fuel
  simp only [parseBody, front.parse_agree same, form]

end Agreement

end Body

section Start

variable {memory other : Memory} {heap otherHeap : Nat → Memory} {request it : Nat}
  {text literal method : Bytes}

theorem holds_iff_startsWith (holds : memory.Holds request (text ++ [0])) (nonzero : 0 ∉ literal) :
    memory.Holds request literal ↔ literal <+: text := by
  constructor
  · intro literalHolds
    induction literal generalizing request text with
    | nil => exact List.nil_prefix
    | cons byte literal ih =>
        obtain ⟨byteHere, laterHere⟩ := literalHolds
        cases text with
        | nil =>
            have zero : memory request = 0 := holds.1
            exact absurd (by simp [← byteHere, zero]) nonzero
        | cons first text =>
            have firstHere : memory request = first := holds.1
            rw [← firstHere, byteHere, List.cons_prefix_cons]
            have nonzeroLater : 0 ∉ literal :=
              fun member => nonzero (List.mem_cons_of_mem _ member)
            exact ⟨rfl, ih holds.2 nonzeroLater laterHere⟩
  · rintro ⟨rest, rfl⟩
    rw [List.append_assoc] at holds
    exact (Memory.holds_append.mp holds).1

/-- Where the main loop starts is decided by the text of the request. -/
theorem httpStart_agree (holds : memory.Holds request (text ++ [0]))
    (otherHolds : other.Holds request (text ++ [0])) :
    httpStart other request = httpStart memory request := by
  have starts (literal : Bytes) (nonempty : literal ≠ []) (nonzero : 0 ∉ literal) :
      requestStartsWith other request literal = requestStartsWith memory request literal := by
    rw [Bool.eq_iff_iff, requestStartsWith_iff _ nonempty, requestStartsWith_iff _ nonempty,
      holds_iff_startsWith holds nonzero, holds_iff_startsWith otherHolds nonzero]
  simp only [httpStart, starts (bytes "GET /") (by decide) (by decide),
    starts (bytes "HEAD /") (by decide) (by decide),
    starts (bytes "POST /") (by decide) (by decide),
    starts (bytes "DELETE /") (by decide) (by decide),
    starts (bytes "PUT /") (by decide) (by decide)]

theorem httpStart_eq_some (holds : memory.Holds request (text ++ [0]))
    (starts : httpStart memory request = some (method, it)) :
    method ∈ HttpHead.methods ∧ it = request + method.length + 2 ∧
      ∃ rest, text = method ++ (ch ' ' :: ch '/' :: rest) := by
  have split (known : Bytes) (member : known ∈ HttpHead.methods)
      (starts : requestStartsWith memory request (known ++ [ch ' ', ch '/']) = true) :
      known ∈ HttpHead.methods ∧ ∃ rest, text = known ++ (ch ' ' :: ch '/' :: rest) := by
    have nonzero : ∀ known ∈ HttpHead.methods, 0 ∉ known ++ [ch ' ', ch '/'] := by
      decide
    obtain ⟨rest, rfl⟩ := (holds_iff_startsWith holds (nonzero known member)).mp
      ((requestStartsWith_iff _ (by simp)).mp starts)
    exact ⟨member, rest, by simp⟩
  simp only [httpStart] at starts
  split_ifs at starts with get head post delete put
  · cases starts
    obtain ⟨known, rest⟩ := split (bytes "GET") (by decide) get
    exact ⟨known, rfl, rest⟩
  · cases starts
    obtain ⟨known, rest⟩ := split (bytes "HEAD") (by decide) head
    exact ⟨known, rfl, rest⟩
  · cases starts
    obtain ⟨known, rest⟩ := split (bytes "POST") (by decide) post
    exact ⟨known, rfl, rest⟩
  · cases starts
    obtain ⟨known, rest⟩ := split (bytes "DELETE") (by decide) delete
    exact ⟨known, rfl, rest⟩
  · cases starts
    obtain ⟨known, rest⟩ := split (bytes "PUT") (by decide) put
    exact ⟨known, rfl, rest⟩

end Start

section Request

variable {memory : Memory} {heap : Nat → Memory} {request it : Nat} {requestObj : JsonObject}
  {text rest method : Bytes}

/-- Behind the slash the main loop is in the route. -/
theorem inHead_entered (front : InFront memory (request + text.length) it rest) :
    InHead memory (request + text.length) .route [] rest (entered requestObj method it) where
  front := front
  state := rfl
  continues := rfl
  inside := List.forall_mem_nil _
  unescaped := unescaped_singleton.mpr (by decide)
  route := fun _ => List.cons_ne_nil _ _
  decoded := by simp

theorem parseHttpRequest_pure (noMethod : httpStart memory request = none) :
    parseHttpRequest memory heap request requestObj = fun fuel =>
      (JsonObject.parse memory (received requestObj) request fuel).map fun result =>
        (.api, result.1) := by
  funext fuel
  simp only [parseHttpRequest, noMethod]
  rfl

theorem parseHttpRequest_entered (starts : httpStart memory request = some (method, it)) :
    parseHttpRequest memory heap request requestObj = fun fuel =>
      (loop memory heap fuel (entered requestObj method it)).bind fun parse =>
        parse.parseBody memory heap fuel := by
  funext fuel
  simp only [parseHttpRequest, starts]
  rfl

theorem front_behind_slash {stop : Nat}
    (front : InFront memory stop request (method ++ (ch ' ' :: ch '/' :: rest))) :
    InFront memory stop (request + method.length + 2) rest := by
  have grouped : method ++ (ch ' ' :: ch '/' :: rest) = (method ++ [ch ' ', ch '/']) ++ rest := by
    simp
  rw [grouped] at front
  have skipped := front.skip
  rwa [List.length_append, ← Nat.add_assoc] at skipped

/-- A request that breaks off behind the colon of a header is left behind its terminator. -/
theorem requestVisits_behind (front : InFront memory (request + text.length) request text)
    (breaks : BreaksOffAtColon text) :
    RequestVisits memory heap request requestObj (request + text.length + 1) := by
  obtain ⟨method, known, rest, split, breaks⟩ := breaks
  have holds := front.holds
  rw [split, List.append_assoc] at holds
  have starts := httpStart_of_holds known holds
  have frontRest : InFront memory (request + text.length) (request + method.length + 2) rest :=
    front_behind_slash (split ▸ front)
  exact .head starts ((inHead_entered frontRest).visits_behind heap breaks)

/-- The main loop of a request that does not break off so begins safely. -/
theorem safe_entered (front : InFront memory (request + text.length) request text)
    (whole : ¬ BreaksOffAtColon text) (starts : httpStart memory request = some (method, it)) :
    Safe memory (request + text.length) (entered requestObj method it) := by
  obtain ⟨known, rfl, rest, split⟩ := httpStart_eq_some front.holds starts
  have frontRest : InFront memory (request + text.length) (request + method.length + 2) rest :=
    front_behind_slash (split ▸ front)
  refine .inl ⟨_, _, _, inHead_entered frontRest, fun breaks => ?_⟩
  exact whole ⟨method, known, rest, split, breaks⟩

/-- The cursor stays in front of the terminator on a request that does not break off so. -/
theorem requestVisits_le (front : InFront memory (request + text.length) request text)
    (whole : ¬ BreaksOffAtColon text) {cursor : Nat}
    (visits : RequestVisits memory heap request requestObj cursor) :
    cursor ≤ request + text.length := by
  cases visits with
  | start => exact Nat.le_add_right _ _
  | pure _ visits => exact front.visits_le visits
  | head starts visits => exact (safe_entered front whole starts).visits_le visits
  | json starts runs _ visits =>
      obtain ⟨fuel, runs⟩ := runs
      obtain ⟨later, frontLater⟩ := ((safe_entered front whole starts).loop runs).exists_front
      exact frontLater.visits_le visits
  | form starts runs _ visits =>
      obtain ⟨fuel, runs⟩ := runs
      obtain ⟨later, frontLater⟩ := ((safe_entered front whole starts).loop runs).exists_front
      exact (inForm_enteredForm frontLater).visits_le visits

theorem parseHttpRequest_agree {other : Memory} {otherHeap : Nat → Memory}
    (front : InFront memory (request + text.length) request text)
    (whole : ¬ BreaksOffAtColon text)
    (same : ∀ address ≤ request + text.length, other address = memory address) :
    parseHttpRequest other otherHeap request requestObj =
      parseHttpRequest memory heap request requestObj := by
  have start := httpStart_agree front.holds (front.agree same).holds
  cases starts : httpStart memory request with
  | none =>
      rw [parseHttpRequest_pure starts, parseHttpRequest_pure (start.trans starts),
        front.parse_agree same]
  | some found =>
      obtain ⟨method, it⟩ := found
      have safe : Safe memory (request + text.length) (entered requestObj method it) :=
        safe_entered front whole starts
      rw [parseHttpRequest_entered starts, parseHttpRequest_entered (start.trans starts)]
      funext fuel
      rw [safe.loop_agree same]
      apply Option.bind_congr
      intro last runs
      obtain ⟨later, frontLater⟩ := (safe.loop runs).exists_front
      rw [parseBody_agree same frontLater]

end Request

end HttpParse

open HttpParse

/-- On a request without backslashes the parser stays inside the request unless
the request breaks off right behind the colon of a header. -/
theorem requestStaysInside_iff (memory : Memory) (heap : Nat → Memory) (request : Nat)
    (requestObj : JsonObject) (text : Bytes) (address : 0 < request)
    (holds : memory.Holds request (text ++ [0])) (nonzero : 0 ∉ text)
    (noBackslash : ch '\\' ∉ text) :
    RequestStaysInside memory heap request requestObj text ↔ ¬ BreaksOffAtColon text := by
  have unescaped : Unescaped text := by
    intro byte member
    refine ⟨?_, ?_⟩
    · rintro rfl
      exact nonzero member
    · rintro rfl
      exact noBackslash member
  have front : InFront memory (request + text.length) request text :=
    ⟨address, rfl, holds, unescaped⟩
  constructor
  · rintro ⟨bounded, -⟩ breaks
    have outside := bounded _ (requestVisits_behind front breaks)
    omega
  · intro whole
    refine ⟨fun cursor visits => requestVisits_le front whole visits, ?_⟩
    intro other otherHeap same result
    have agrees : parseHttpRequest other otherHeap request requestObj =
        parseHttpRequest memory heap request requestObj :=
      parseHttpRequest_agree front whole same
    rw [agrees]

namespace Sample

/-- A request, and a shorter one that is received into the same buffer. -/
def earlierRequest : Bytes :=
  bytes "GET / HTTP/1.1\nHost: secret\n\n"

def brokenRequest : Bytes :=
  bytes "GET / HTTP/1.1\nA:"

def reusedBuffer (text : Bytes) : Memory :=
  Memory.ofString (Memory.ofString (fun _ => 0) earlierRequest) text

/-- The header that a text in a buffer is parsed to. -/
def headerA (memory : Memory) : Option (Option Bytes) :=
  (parseHttpRequest memory (fun _ _ => 0) 1 (new .object) 40).map fun result =>
    result.2.getStr (bytes "A")

theorem breaksOff_brokenRequest : BreaksOffAtColon brokenRequest := by
  have key : BreaksOff .headerKey (bytes "A:") := @BreaksOff.colon (bytes "A") (by decide)
  have protocol : BreaksOff .protocol (bytes "HTTP/1.1\nA:") :=
    @BreaksOff.next .protocol .headerKey (bytes "HTTP/1.1") (bytes "A:") (ch '\n') (by decide) rfl
      (by simp) key
  have route : BreaksOff .route (bytes " HTTP/1.1\nA:") :=
    @BreaksOff.next .route .protocol [] (bytes "HTTP/1.1\nA:") (ch ' ') (by decide) rfl (by simp)
      protocol
  exact ⟨bytes "GET", by decide, bytes " HTTP/1.1\nA:", rfl, route⟩

end Sample

theorem requestStaysInside_complete :
    RequestStaysInside (Sample.reusedBuffer (bytes "GET / HTTP/1.1\nA: b\n\n")) (fun _ _ => 0) 1
      (new .object) (bytes "GET / HTTP/1.1\nA: b\n\n") := by
  have decided := requestStaysInside_iff
    (Sample.reusedBuffer (bytes "GET / HTTP/1.1\nA: b\n\n")) (fun _ _ => 0) 1 (new .object)
    (bytes "GET / HTTP/1.1\nA: b\n\n") (by decide) (Memory.ofString_holds _ _) (by decide)
    (by decide)
  refine decided.mpr fun breaks => ?_
  have last := breaks.getLast?_eq
  exact absurd last (by decide)

/-- A request that ends behind the colon of a header is parsed on into what an
earlier request has left in the buffer. -/
theorem not_requestStaysInside :
    ¬ RequestStaysInside (Sample.reusedBuffer Sample.brokenRequest) (fun _ _ => 0) 1 (new .object)
        Sample.brokenRequest ∧
      Sample.headerA (Memory.ofString (fun _ => 0) Sample.brokenRequest) = some none ∧
      Sample.headerA (Sample.reusedBuffer Sample.brokenRequest) =
        some (some (bytes "t: secret")) := by
  refine ⟨?_, by decide +kernel, by decide +kernel⟩
  rintro ⟨bounded, -⟩
  have front : InFront (Sample.reusedBuffer Sample.brokenRequest)
      (1 + Sample.brokenRequest.length) 1 Sample.brokenRequest :=
    ⟨Nat.zero_lt_one, rfl, Memory.ofString_holds _ _, by decide⟩
  have outside := bounded _ (requestVisits_behind front Sample.breaksOff_brokenRequest)
  omega

end Libjaypea
