import Libjaypea.FileServing

/-!
# Whether served files are closed

The descriptors that a call has open are followed through its events.  A call
that opens a file closes it again exactly when no read and no send fails while
the file is open: these failures make the functions return at once.
-/

namespace Libjaypea

namespace Event

/-- A read or a send that fails. -/
def Fails : Event → Prop
  | .read _ none => True
  | .responded _ true => True
  | .sent _ true => True
  | _ => False

instance : DecidablePred Fails
  | .read _ none => isTrue trivial
  | .read _ (some _) => isFalse id
  | .responded _ true => isTrue trivial
  | .responded _ false => isFalse id
  | .sent _ true => isTrue trivial
  | .sent _ false => isFalse id
  | .lstat _ => isFalse id
  | .opened _ _ => isFalse id
  | .closed _ => isFalse id

/-- The descriptors that are open after an event; `none` when one was closed
that was not open. -/
def hold (descriptors : Option (List Int)) : Event → Option (List Int)
  | .opened _ fd => if fd < 0 then descriptors else descriptors.map (fd :: ·)
  | .closed fd =>
      descriptors.bind fun descriptors =>
        if fd ∈ descriptors then some (descriptors.erase fd) else none
  | _ => descriptors

end Event

/-- The descriptors that are open after the events; `some []` means that every
descriptor that was opened has been closed once. -/
def held (events : List Event) : Option (List Int) :=
  events.foldl Event.hold (some [])

/-- No read and no send fails while a descriptor is open. -/
def Undisturbed (events : List Event) : Prop :=
  ∀ before event later, events = before ++ event :: later → event.Fails → held before = some []

theorem held_concat (events : List Event) (event : Event) :
    held (events ++ [event]) = Event.hold (held events) event := by
  simp [held]

theorem undisturbed_nil : Undisturbed [] := by
  intro before event later split
  simp at split

theorem undisturbed_of_succeeds {events : List Event} (succeeds : ∀ event ∈ events, ¬ event.Fails) :
    Undisturbed events := by
  intro before event later split fails
  have member : event ∈ events := split ▸ List.mem_append_right before List.mem_cons_self
  exact absurd fails (succeeds event member)

theorem undisturbed_concat {events : List Event} {event : Event} :
    Undisturbed (events ++ [event]) ↔
      Undisturbed events ∧ (event.Fails → held events = some []) := by
  constructor
  · intro undisturbed
    constructor
    · intro before other later split
      apply undisturbed before other (later ++ [event])
      rw [split, List.append_assoc, List.cons_append]
    · exact undisturbed events event [] rfl
  · rintro ⟨undisturbed, last⟩ before other later split
    rcases List.eq_nil_or_concat later with rfl | ⟨init, final, rfl⟩
    · obtain ⟨rfl, equal⟩ := List.append_inj' split rfl
      cases equal
      exact last
    · rw [List.concat_eq_append, ← List.cons_append, ← List.append_assoc] at split
      exact undisturbed before other init (List.append_inj' split rfl).1

namespace World

variable {σ : Type} {system : System σ}

/-- No descriptor is open, and none was disturbed. -/
structure Tidy (world : World σ) : Prop where
  closed : held world.events = some []
  undisturbed : Undisturbed world.events

/-- The descriptor is the only one that is open, and none was disturbed. -/
structure Holds (world : World σ) (fd : Int) : Prop where
  only : held world.events = some [fd]
  undisturbed : Undisturbed world.events

/-- Everything is closed exactly when nothing was disturbed. -/
def Accounts (world : World σ) : Prop :=
  held world.events = some [] ↔ Undisturbed world.events

theorem Tidy.accounts {world : World σ} (tidy : world.Tidy) : world.Accounts :=
  iff_of_true tidy.closed tidy.undisturbed

section Calls

variable (system) {world : World σ}

theorem Tidy.lstat (tidy : world.Tidy) (path : Bytes) : (world.lstat system path).2.Tidy where
  closed := (held_concat _ _).trans tidy.closed
  undisturbed := undisturbed_concat.mpr ⟨tidy.undisturbed, fun fails => fails.elim⟩

/-- Sending a response disturbs nothing when no descriptor is open. -/
theorem Tidy.respond (tidy : world.Tidy) (fd : Int) (response : HttpResponse) :
    (HttpApi.respond system world fd response).2.Tidy where
  closed := (held_concat _ _).trans tidy.closed
  undisturbed := undisturbed_concat.mpr ⟨tidy.undisturbed, fun _ => tidy.closed⟩

theorem Tidy.send (tidy : world.Tidy) (fd : Int) (data : Bytes) :
    (world.send system fd data).2.Tidy where
  closed := (held_concat _ _).trans tidy.closed
  undisturbed := undisturbed_concat.mpr ⟨tidy.undisturbed, fun _ => tidy.closed⟩

theorem Tidy.openFile (tidy : world.Tidy) (path : Bytes) :
    if (world.openFile system path).1 < 0 then (world.openFile system path).2.Tidy
    else (world.openFile system path).2.Holds (world.openFile system path).1 := by
  have opens : held (world.openFile system path).2.events =
      if (world.openFile system path).1 < 0 then some []
      else some [(world.openFile system path).1] := by
    refine (held_concat _ _).trans ?_
    rw [tidy.closed]
    rfl
  have undisturbed : Undisturbed (world.openFile system path).2.events :=
    undisturbed_concat.mpr ⟨tidy.undisturbed, fun fails => fails.elim⟩
  split_ifs at opens ⊢
  · exact ⟨opens, undisturbed⟩
  · exact ⟨opens, undisturbed⟩

theorem Holds.close {fd : Int} (holds : world.Holds fd) : (world.close system fd).2.Tidy where
  closed := by
    refine (held_concat _ _).trans ?_
    rw [holds.only]
    simp [Event.hold]
  undisturbed := undisturbed_concat.mpr ⟨holds.undisturbed, fun fails => fails.elim⟩

/-- After a failure the descriptor is still open. -/
structure Leaks (world : World σ) : Prop where
  unclosed : held world.events ≠ some []
  disturbed : ¬ Undisturbed world.events

theorem Leaks.accounts {world : World σ} (leaks : world.Leaks) : world.Accounts :=
  iff_of_false leaks.unclosed leaks.disturbed

theorem Holds.read {fd : Int} (holds : world.Holds fd) :
    match (world.read system fd).1 with
    | none => (world.read system fd).2.Leaks
    | some _ => (world.read system fd).2.Holds fd := by
  have only : held (world.read system fd).2.events = some [fd] :=
    (held_concat _ _).trans holds.only
  cases answer : (world.read system fd).1 with
  | none =>
      refine ⟨by simp [only], fun undisturbed => ?_⟩
      have idle := (undisturbed_concat.mp undisturbed).2
      have failed : (system.read fd bufferLimit world.state).1 = none := answer
      rw [failed, holds.only] at idle
      cases idle trivial
  | some data =>
      refine ⟨only, undisturbed_concat.mpr ⟨holds.undisturbed, ?_⟩⟩
      have succeeded : (system.read fd bufferLimit world.state).1 = some data := answer
      rw [succeeded]
      exact fun fails => fails.elim

theorem Holds.send {fileFd : Int} (holds : world.Holds fileFd) (fd : Int) (data : Bytes) :
    if (world.send system fd data).1 then (world.send system fd data).2.Leaks
    else (world.send system fd data).2.Holds fileFd := by
  have only : held (world.send system fd data).2.events = some [fileFd] :=
    (held_concat _ _).trans holds.only
  cases answer : (world.send system fd data).1 with
  | true =>
      refine ⟨by simp [only], fun undisturbed => ?_⟩
      have idle := (undisturbed_concat.mp undisturbed).2
      have failed : (system.send fd data world.state).1 = true := answer
      rw [failed, holds.only] at idle
      cases idle trivial
  | false =>
      refine ⟨only, undisturbed_concat.mpr ⟨holds.undisturbed, ?_⟩⟩
      have succeeded : (system.send fd data world.state).1 = false := answer
      rw [succeeded]
      exact fun fails => fails.elim

end Calls

end World

namespace HttpApi

variable {σ : Type} {system : System σ} {world after : World σ} {fd fileFd : Int} {fuel : Nat}
  {complete : Bool}

/-- A loop over an open file leaves it open, and was disturbed when it fails. -/
theorem sendFile_holds (holds : world.Holds fileFd)
    (runs : sendFile system fd fileFd fuel world = some (complete, after)) :
    if complete then after.Holds fileFd else after.Leaks := by
  have reads (world : World σ) (holds : world.Holds fileFd) := holds.read system
  have sends (world : World σ) (data : Bytes) (holds : world.Holds fileFd) :=
    holds.send system fd data
  exact @sendFile_rule σ system fd fileFd fuel world after complete
    (fun world => world.Holds fileFd) World.Leaks reads sends holds runs

theorem fill_holds {offset : Nat} {file filled : CachedFile} (holds : world.Holds fileFd)
    (runs : fill system fileFd fuel offset file world = some (complete, filled, after)) :
    if complete then after.Holds fileFd else after.Leaks := by
  have reads (world : World σ) (holds : world.Holds fileFd) := holds.read system
  exact @fill_rule σ system fileFd fuel world after complete
    (fun world => world.Holds fileFd) World.Leaks offset file filled reads holds runs

theorem sendChunks_tidy {data : Bytes} {offset bufferSize : Nat} (tidy : world.Tidy)
    (runs : sendChunks system fd data fuel offset bufferSize world = some (complete, after)) :
    after.Tidy :=
  sendChunks_keeps (fun _ data tidy => tidy.send system fd data) tidy runs

/-- The calls that serve a file, with the events of the call alone. -/
inductive ServesFile (system : System σ) (state : σ) : World σ → Prop
  | http {api : HttpApi σ} {fd : Int} {view : View} {response : HttpResponse} {fuel : Nat}
      {answer : Answer σ}
      (runs : respondHttp system api ⟨state, []⟩ fd view response fuel = some answer) :
      ServesFile system state answer.world
  | parameterizedView {fd : Int} {view : View} {response : HttpResponse} {fuel : Nat}
      {result : Int} {after : World σ}
      (runs : respondParameterizedView system ⟨state, []⟩ fd view response fuel =
        some (result, after)) :
      ServesFile system state after
  | view {fd : Int} {view : View} {response : HttpResponse} {fuel : Nat} {result : Int}
      {after : World σ}
      (runs : respondView system ⟨state, []⟩ fd view response fuel = some (result, after)) :
      ServesFile system state after

section Functions

variable {view : View} {response : HttpResponse} {result : Int} {api : HttpApi σ}

theorem respondParameterizedView_accounts (tidy : world.Tidy)
    (runs : respondParameterizedView system world fd view response fuel = some (result, after)) :
    after.Accounts := by
  have opened := tidy.openFile system view.route
  unfold respondParameterizedView at runs
  dsimp only at runs
  split_ifs at runs with refused
  · rw [if_pos refused] at opened
    cases runs
    exact opened.accounts
  · rw [if_neg refused] at opened
    have read := opened.read system
    split at runs
    · rename_i next equal
      rw [equal] at read
      cases runs
      exact read.accounts
    · rename_i buffer next equal
      rw [equal] at read
      have closed := read.close system
      split_ifs at runs
      · cases runs
        exact closed.accounts
      · cases runs
        exact closed.accounts
      · obtain ⟨body, -, equal⟩ := Option.map_eq_some_iff.mp runs
        have responded := closed.respond system fd { response with body := body }
        obtain rfl : _ = after := congrArg Prod.snd equal
        exact responded.accounts

theorem respondView_accounts (tidy : world.Tidy)
    (runs : respondView system world fd view response fuel = some (result, after)) :
    after.Accounts := by
  have responded := tidy.respond system fd response
  have opened := responded.openFile system view.route
  unfold respondView at runs
  dsimp only at runs
  split_ifs at runs with failed refused
  · cases runs
    exact responded.accounts
  · rw [if_pos refused] at opened
    cases runs
    exact opened.accounts
  · rw [if_neg refused] at opened
    obtain ⟨⟨complete, sent⟩, sends, equal⟩ := Option.map_eq_some_iff.mp runs
    have loop := sendFile_holds opened sends
    dsimp only at equal
    split_ifs at equal with incomplete
    · cases equal
      rw [Bool.not_eq_true'] at incomplete
      rw [incomplete] at loop
      exact loop.accounts
    · cases equal
      rw [if_pos (by simpa using incomplete)] at loop
      exact (loop.close system).accounts
    · cases equal
      rw [if_pos (by simpa using incomplete)] at loop
      exact (loop.close system).accounts

theorem respondCachedFile_tidy {file : CachedFile} (tidy : world.Tidy)
    (runs : respondCachedFile system world fd response file fuel = some (result, after)) :
    after.Tidy := by
  obtain ⟨⟨complete, sent⟩, sends, equal⟩ := Option.map_eq_some_iff.mp runs
  obtain rfl : _ = after := congrArg Prod.snd equal
  exact sendChunks_tidy (tidy.respond system fd _) sends

theorem cacheFile_accounts {path : Bytes} {stat : Stat} {filled : Bool} {cached : HttpApi σ}
    (tidy : world.Tidy)
    (runs : cacheFile system api world path stat fuel = some (filled, cached, after)) :
    after.Accounts ∧ (filled = true → after.Tidy) := by
  have opened := tidy.openFile system path
  unfold cacheFile at runs
  dsimp only at runs
  split_ifs at runs with refused
  · rw [if_pos refused] at opened
    cases runs
    exact ⟨opened.accounts, fun impossible => by cases impossible⟩
  · rw [if_neg refused] at opened
    obtain ⟨⟨complete, file, read⟩, fills, equal⟩ := Option.map_eq_some_iff.mp runs
    have loop := fill_holds opened fills
    dsimp only at equal
    split_ifs at equal with incomplete
    · cases equal
      rw [Bool.not_eq_true'] at incomplete
      rw [incomplete] at loop
      exact ⟨loop.accounts, fun impossible => by cases impossible⟩
    · rw [if_pos (by simpa using incomplete)] at loop
      have closed := loop.close system
      cases equal
      exact ⟨closed.accounts, fun _ => closed⟩

theorem serve_accounts {path : Bytes} {stat : Stat} (tidy : world.Tidy)
    (runs : serve system api world fd view response path stat fuel = some (result, after)) :
    after.Accounts := by
  unfold serve at runs
  split at runs
  · split_ifs at runs
    · obtain ⟨body, -, equal⟩ := Option.map_eq_some_iff.mp runs
      obtain rfl : _ = after := congrArg Prod.snd equal
      exact (tidy.respond system fd _).accounts
    · exact (respondCachedFile_tidy tidy runs).accounts
  · dsimp only at runs
    split_ifs at runs
    · exact respondParameterizedView_accounts tidy runs
    · exact respondView_accounts tidy runs

theorem resolve_tidy (tidy : world.Tidy) (path : Bytes) : (resolve system world path).2.Tidy := by
  have first := tidy.lstat system path
  unfold resolve
  split
  · rename_i next equal
    rw [equal] at first
    exact first
  · rename_i stat next equal
    rw [equal] at first
    split_ifs
    · have second := first.lstat system (path ++ bytes "/index.html")
      split
      · rename_i last indexed
        rw [indexed] at second
        exact second
      · rename_i index last indexed
        rw [indexed] at second
        exact second
    · exact first
    · exact first

theorem respondHttp_accounts {answer : Answer σ} (tidy : world.Tidy)
    (runs : respondHttp system api world fd view response fuel = some answer) :
    answer.world.Accounts := by
  have resolved := @resolve_tidy σ system world tidy
    (api.publicDirectory ++ cleanRoute view.route)
  unfold respondHttp at runs
  split at runs
  · rename_i next equal
    rw [equal] at resolved
    cases runs
    exact (resolved.respond system fd _).accounts
  · rename_i path stat next equal
    rw [equal] at resolved
    dsimp only at runs
    split_ifs at runs
    · cases runs
      exact (resolved.respond system fd _).accounts
    · obtain ⟨⟨filled, cached, last⟩, caches, later⟩ := Option.bind_eq_some_iff.mp runs
      obtain ⟨accounts, stays⟩ := cacheFile_accounts resolved caches
      dsimp only at later
      split_ifs at later with unfilled
      · cases later
        exact accounts
      · obtain ⟨⟨served, world⟩, serves, rfl⟩ := Option.map_eq_some_iff.mp later
        exact serve_accounts (stays (by simpa using unfilled)) serves
    · obtain ⟨⟨served, world⟩, serves, rfl⟩ := Option.map_eq_some_iff.mp runs
      exact serve_accounts resolved serves

end Functions

/-- Every descriptor that a call opened has been closed once exactly when no
read and no send failed while it was open. -/
theorem closed_iff_undisturbed {state : σ} (serves : ServesFile system state after) :
    held after.events = some [] ↔ Undisturbed after.events := by
  have start : (⟨state, []⟩ : World σ).Tidy := ⟨rfl, undisturbed_nil⟩
  cases serves with
  | http runs => exact respondHttp_accounts start runs
  | parameterizedView runs => exact respondParameterizedView_accounts start runs
  | view runs => exact respondView_accounts start runs

/-- A disk whose files all hold two bytes; the state counts the sends, of which
only the first ones succeed. -/
def disconnecting (successes : Nat) : System Nat where
  lstat _ sends := (some ⟨.regular, 2, 0⟩, sends)
  openFile _ sends := (3, sends)
  read _ _ sends := (some (bytes "hi"), sends)
  close _ sends := (true, sends)
  send _ _ sends := (successes ≤ sends, sends + 1)
  heap := fun _ => 0

/-- `a.txt`, served by `respond_view`. -/
def sampleAfter (successes : Nat) : Option (Int × World Nat) :=
  respondView (disconnecting successes) ⟨0, []⟩ 5 ⟨bytes "a.txt", bytes "GET", [], 2⟩ .default 1

theorem closed_iff_undisturbed_disconnecting :
    ∃ after, ServesFile (disconnecting 2) 0 after ∧ held after.events = some [] := by
  have runs : ∃ result after, sampleAfter 2 = some (result, after) ∧
      ∀ event ∈ after.events, ¬ event.Fails := by
    refine ⟨_, _, rfl, ?_⟩
    exact forall_mem_of_all rfl
  obtain ⟨result, after, runs, succeeds⟩ := runs
  exact ⟨after, .view runs, (closed_iff_undisturbed (.view runs)).mpr
    (undisturbed_of_succeeds succeeds)⟩

/-- A client that is gone when the file is sent leaves the file open. -/
theorem not_closed_disconnecting :
    ¬ ∀ (system : System Nat) (state : Nat) (after : World Nat),
      ServesFile system state after → held after.events = some [] := by
  intro closed
  have serves : ∃ after, sampleAfter 1 = some (-1, after) ∧ held after.events = some [3] :=
    ⟨_, rfl, rfl⟩
  obtain ⟨after, runs, leaks⟩ := serves
  have none := closed (disconnecting 1) 0 after (.view runs)
  rw [leaks] at none
  cases none

end HttpApi

end Libjaypea
