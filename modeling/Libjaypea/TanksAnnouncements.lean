import Libjaypea.TanksTables

/-!
# What the clients of the tank game hear

Every descriptor announces a handle and gives it up again, in turns, whatever
the clients send and however the callbacks and the simulation are interleaved.
A client that stays joined is told of every event that is handled, once and in
the order in which the events were queued.
-/

namespace Libjaypea

namespace Jph2

namespace Tanks

open Transitions

variable {R : Type} {double : Arithmetic R} {game next : Game R}

/-- What a step of the simulation that moves tanks leaves alone. -/
structure SameTalk (game next : Game R) : Prop where
  clientDetails : next.clientDetails = game.clientDetails
  gameEventQueue : next.gameEventQueue = game.gameEventQueue
  handled : next.handled = game.handled
  sent : next.sent = game.sent

theorem sameTalk_of_moves {stale : Bytes → UInt8} {names : List Bytes}
    (moves : Run (moveTank double stale) anything game names next) : SameTalk game next := by
  apply moves.invariant _ (⟨rfl, rfl, rfl, rfl⟩ : SameTalk game game)
  rintro first name second same - moved
  obtain ⟨player, pressed, location, shown, -, -, -, -, rfl⟩ := moveTank_cases moved
  exact ⟨same.clientDetails, same.gameEventQueue, same.handled, same.sent⟩

section Sessions

/-- Connects and disconnects take turns, and a disconnect names the handle of the
connect before it.  The last argument is the handle that is held in the end. -/
inductive Sessions (fd : Nat) : List Event → Option Bytes → Prop
  | nil : Sessions fd [] none
  | connect {events : List Event} (handle : Bytes) (gone : Sessions fd events none) :
      Sessions fd (events ++ [⟨0, some fd, handle⟩]) (some handle)
  | disconnect {events : List Event} {handle : Bytes} (held : Sessions fd events (some handle)) :
      Sessions fd (events ++ [⟨1, some fd, handle⟩]) none

/-- The events of a descriptor, handled or still queued. -/
def Game.eventsOf (game : Game R) (fd : Nat) : List Event :=
  (game.handled ++ game.gameEventQueue).filter fun event => event.fd = some fd

/-- The handle that a joined client holds. -/
def Game.handleOf (game : Game R) (fd : Nat) : Option Bytes :=
  (game.clientDetails.get? fd).bind fun details => details.getStr (bytes "handle")

theorem sessions_of_queue {fd : Nat} {events : List Event}
    (queue : next.gameEventQueue = game.gameEventQueue ++ events)
    (handled : next.handled = game.handled)
    (sessions : Sessions fd (game.eventsOf fd ++ events.filter fun event => event.fd = some fd)
      (next.handleOf fd)) :
    Sessions fd (next.eventsOf fd) (next.handleOf fd) := by
  rwa [Game.eventsOf, queue, handled, ← List.append_assoc, List.filter_append]

theorem fd_of_collisionEvents {locations : KeyedList Bytes (Point R)} {event : Event}
    (member : event ∈ collisionEvents double locations) : event.fd = none := by
  obtain ⟨first, -, member⟩ := List.mem_flatMap.mp member
  obtain ⟨second, -, rfl⟩ := List.mem_map.mp member
  rfl

/-- A step that leaves the talk of a descriptor alone. -/
theorem sessions_congr {fd : Nat} (sessions : Sessions fd (game.eventsOf fd) (game.handleOf fd))
    (events : next.eventsOf fd = game.eventsOf fd) (handle : next.handleOf fd = game.handleOf fd) :
    Sessions fd (next.eventsOf fd) (next.handleOf fd) := by
  rw [events, handle]
  exact sessions

theorem handleEvent_talk (game : Game R) (event : Event) :
    (game.handleEvent event).clientDetails = game.clientDetails ∧
      (game.handleEvent event).handled = game.handled := by
  unfold Game.handleEvent
  split_ifs <;> exact ⟨rfl, rfl⟩

theorem sessions_of_effect (effect : Effect double game next) {fd : Nat}
    (sessions : Sessions fd (game.eventsOf fd) (game.handleOf fd)) :
    Sessions fd (next.eventsOf fd) (next.handleOf fd) := by
  cases effect with
  | idle => exact sessions
  | leave other details handle joined named =>
      refine sessions_of_queue rfl rfl ?_
      by_cases here : other = fd
      · subst here
        have held : game.handleOf other = some handle := by rw [Game.handleOf, joined]; exact named
        rw [held] at sessions
        simp only [Game.handleOf, KeyedList.get?_erase, if_true, Option.bind_none]
        simpa using sessions.disconnect
      · simpa [Game.handleOf, KeyedList.get?_erase, here] using sessions
  | join other details handle absent named =>
      refine sessions_of_queue rfl rfl ?_
      by_cases here : other = fd
      · subst here
        have free : game.handleOf other = none := by rw [Game.handleOf, absent]; rfl
        rw [free] at sessions
        simp only [Game.handleOf, KeyedList.get?_set_self, Option.bind_some, named]
        simpa using sessions.connect handle
      · simpa [Game.handleOf, KeyedList.get?_set_of_ne _ here, here] using sessions
  | press => exact sessions
  | spawn => exact sessions
  | drained => exact sessions
  | handle event later queue =>
      obtain ⟨details, handled⟩ := handleEvent_talk game event
      apply sessions_congr sessions
      · simp [Game.eventsOf, handled, queue]
      · simp [Game.handleOf, details]
  | collide =>
      refine sessions_of_queue rfl rfl ?_
      have none : (collisionEvents double game.locations).filter
          (fun event => decide (event.fd = some fd)) = [] := by
        rw [List.filter_eq_nil_iff]
        intro event member
        simp [fd_of_collisionEvents member]
      rw [none, List.append_nil]
      exact sessions
  | move stale moved moves =>
      have same := sameTalk_of_moves moves
      apply sessions_congr sessions
      · simp [Game.eventsOf, same.handled, same.gameEventQueue]
      · simp [Game.handleOf, same.clientDetails]
  | broadcast => exact sessions

/-- Whoever is joined holds a handle. -/
theorem mem_keys_iff_handleOf (tables : Tables game) {fd : Nat} :
    fd ∈ game.clientDetails.keys ↔ game.handleOf fd ≠ none := by
  rw [KeyedList.mem_keys_iff, Game.handleOf]
  cases joined : game.clientDetails.get? fd with
  | none => simp
  | some details =>
      obtain ⟨handle, named⟩ := tables.named fd details joined
      simp [named]

/-- In every reachable state a descriptor's connects and disconnects take turns,
and it is joined exactly when the last of them was a connect. -/
theorem sessions_of_run {actions : List Action}
    (run : Run (step double) anything Game.start actions game) (fd : Nat) :
    Sessions fd (game.eventsOf fd) (game.handleOf fd) ∧
      (fd ∈ game.clientDetails.keys ↔ game.handleOf fd ≠ none) := by
  have both : Tables game ∧ Sessions fd (game.eventsOf fd) (game.handleOf fd) := by
    apply run.invariant _ ⟨tables_start, Sessions.nil⟩
    rintro first action second ⟨tables, sessions⟩ _ taken
    exact ⟨tables.of_effect (step_effect taken), sessions_of_effect (step_effect taken) sessions⟩
  exact ⟨both.2, mem_keys_iff_handleOf both.1⟩

/-- Anna leaves again, and another client takes her descriptor. -/
theorem sessions_of_run_anna :
    ∃ game : Game (Option Int), Sessions 5 (game.eventsOf 5) (game.handleOf 5) ∧
      (game.eventsOf 5).map Event.player = [bytes "Anna", bytes "Anna", bytes "Bert"] := by
  have executes : (exec (step fixedPoint) Game.start (annasRun ++ [.disconnect 5,
      .read 5 (messageOf [("announce", "Bert")])])).map
      (fun game => (game.eventsOf 5).map Event.player) =
        some [bytes "Anna", bytes "Anna", bytes "Bert"] := by decide
  obtain ⟨game, run, players⟩ := exists_run_of_exec executes
  exact ⟨game, (sessions_of_run run 5).1, players⟩

end Sessions

section Hearing

/-- The texts that were sent to a client. -/
def Game.told (game : Game R) (fd : Nat) : List Bytes :=
  (game.sent.filter fun message => message.1 = fd).map Prod.snd

/-- What is broadcast when an event is handled. -/
def notice (event : Event) : Option Bytes :=
  if event.type = 0 then some (noticeText (bytes "connect") event.player)
  else if event.type = 1 then some (noticeText (bytes "disconnect") event.player)
  else if event.type = 2 then some (noticeText (bytes "explode") event.player)
  else none

/-- What a client is told when an event is handled or a state broadcast. -/
def said : Event ⊕ Game R → Option Bytes
  | .inl event => notice event
  | .inr game => some ((gameState game).stringify false 0)

/-- What is handled and what a client is told between two states. -/
structure Adds (fd : Nat) (game next : Game R) (talk : List (Event ⊕ Game R)) : Prop where
  handled : next.handled = game.handled ++ talk.filterMap Sum.getLeft?
  told : next.told fd = game.told fd ++ talk.filterMap said

theorem adds_nil {fd : Nat} (handled : next.handled = game.handled)
    (sent : next.sent = game.sent) : Adds fd game next [] := by
  constructor
  · rw [handled, List.filterMap_nil, List.append_nil]
  · rw [Game.told, sent, List.filterMap_nil, List.append_nil, Game.told]

theorem Adds.trans {fd : Nat} {last : Game R} {talk later : List (Event ⊕ Game R)}
    (first : Adds fd game next talk) (second : Adds fd next last later) :
    Adds fd game last (talk ++ later) := by
  constructor
  · rw [second.handled, first.handled, List.filterMap_append, List.append_assoc]
  · rw [second.told, first.told, List.filterMap_append, List.append_assoc]

/-- The client is joined whenever a step is taken. -/
def Joined (fd : Nat) (game : Game R) (_ : Action) : Prop :=
  fd ∈ game.clientDetails.keys

instance (fd : Nat) (game : Game R) (action : Action) : Decidable (Joined fd game action) :=
  inferInstanceAs (Decidable (_ ∈ _))

/-- The state is one of the run. -/
def Passes (double : Arithmetic R) (fd : Nat) (actions : List Action) (game state next : Game R) :
    Prop :=
  ∃ early late, actions = early ++ late ∧ Run (step double) (Joined fd) game early state ∧
    Run (step double) (Joined fd) state late next

/-- In a run a client is told of the events that are handled, in their order, and
of nothing else but what the game state is in states of the run. -/
def Hears (double : Arithmetic R) (fd : Nat) (actions : List Action) (game next : Game R) : Prop :=
  ∃ talk, Adds fd game next talk ∧
    ∀ state, .inr state ∈ talk → Passes double fd actions game state next

theorem told_broadcast {fd : Nat} (distinct : game.clientDetails.keys.Nodup)
    (joined : fd ∈ game.clientDetails.keys) (text : Bytes) :
    (game.broadcast text).told fd = game.told fd ++ [text] := by
  have once : game.clientDetails.keys.filter (fun other => decide (other = fd)) = [fd] := by
    rw [List.filter_eq, List.count_eq_one_of_mem distinct joined]
    rfl
  rw [Game.told, Game.broadcast, List.filter_append, List.map_append, List.filter_map]
  simp [Function.comp_def, once, Game.told]

theorem handleEvent_told {fd : Nat} (distinct : game.clientDetails.keys.Nodup)
    (joined : fd ∈ game.clientDetails.keys) (event : Event) :
    (game.handleEvent event).told fd = game.told fd ++ (notice event).toList := by
  unfold Game.handleEvent notice
  split_ifs
  · exact told_broadcast distinct joined _
  · exact told_broadcast distinct joined _
  · exact told_broadcast distinct joined _
  · simp

theorem adds_of_effect (effect : Effect double game next) {fd : Nat}
    (distinct : game.clientDetails.keys.Nodup) (joined : fd ∈ game.clientDetails.keys) :
    ∃ talk, Adds fd game next talk ∧ ∀ state, .inr state ∈ talk → state = game := by
  have silent (handled : next.handled = game.handled) (sent : next.sent = game.sent) :
      ∃ talk, Adds fd game next talk ∧ ∀ state, .inr state ∈ talk → state = game :=
    ⟨[], adds_nil handled sent, fun _ member => nomatch member⟩
  cases effect with
  | idle => exact silent rfl rfl
  | leave => exact silent rfl rfl
  | join => exact silent rfl rfl
  | press => exact silent rfl rfl
  | spawn => exact silent rfl rfl
  | drained => exact silent rfl rfl
  | handle event later queue =>
      refine ⟨[.inl event], ⟨?_, ?_⟩, fun state member => by simp at member⟩
      · rw [(handleEvent_talk game event).2]
        rfl
      · refine (handleEvent_told distinct joined event).trans ?_
        cases text : notice event with
        | none => simp [said, text]
        | some words => simp [said, text]
  | collide => exact silent rfl rfl
  | move stale moved moves =>
      have same := sameTalk_of_moves moves
      exact silent same.handled same.sent
  | broadcast =>
      refine ⟨[.inr game], ⟨(List.append_nil _).symm, told_broadcast distinct joined _⟩, ?_⟩
      intro state member
      simpa using member

theorem distinct_of_effect (effect : Effect double game next)
    (distinct : game.clientDetails.keys.Nodup) : next.clientDetails.keys.Nodup := by
  cases effect with
  | leave fd => exact KeyedList.nodup_keys_erase distinct fd
  | join fd details => exact KeyedList.nodup_keys_set distinct fd details
  | handle event => rwa [(handleEvent_talk game event).1]
  | move stale moved moves => rwa [(sameTalk_of_moves moves).clientDetails]
  | _ => exact distinct

/-- A client that stays joined hears of every event that is handled. -/
theorem hears_while_joined {earlier actions : List Action} {fd : Nat}
    (start : Run (step double) anything Game.start earlier game)
    (run : Run (step double) (Joined fd) game actions next) :
    Hears double fd actions game next := by
  have distinct : game.clientDetails.keys.Nodup := by
    apply start.invariant _ (List.nodup_nil : (Game.start : Game R).clientDetails.keys.Nodup)
    intro first action second distinct _ taken
    exact distinct_of_effect (step_effect taken) distinct
  clear start
  induction run with
  | nil game => exact ⟨[], adds_nil rfl rfl, fun _ member => nomatch member⟩
  | @cons first second last action actions joined taken rest ih =>
      have effect := step_effect taken
      obtain ⟨talk, adds, here⟩ := adds_of_effect effect distinct joined
      obtain ⟨later, addsLater, passes⟩ := ih (distinct_of_effect effect distinct)
      refine ⟨talk ++ later, adds.trans addsLater, fun state member => ?_⟩
      rcases List.mem_append.mp member with now | behind
      · cases here state now
        exact ⟨[], action :: actions, rfl, .nil _, .cons joined taken rest⟩
      · obtain ⟨early, late, split, before, after⟩ := passes state behind
        exact ⟨action :: early, late, congrArg (action :: ·) split, .cons joined taken before,
          after⟩

/-- Anna and Bert have joined, and neither was announced so far. -/
def annaAndBert : Game (Option Int) :=
  { (Game.start : Game (Option Int)) with
    clientDetails := [(5, messageOf [("handle", "Anna")]), (6, messageOf [("handle", "Bert")])]
    gameEventQueue := [⟨0, some 5, bytes "Anna"⟩, ⟨0, some 6, bytes "Bert"⟩] }

theorem hears_while_joined_anna :
    ∃ game next : Game (Option Int),
      Hears fixedPoint 5 [.tick fun _ => 0, .tick fun _ => 0] game next ∧ game.told 5 = [] ∧
      next.told 5 = [noticeText (bytes "connect") (bytes "Anna"),
        noticeText (bytes "connect") (bytes "Bert")] := by
  have started : Run (step fixedPoint) anything Game.start
      [.read 5 (messageOf [("announce", "Anna")]), .read 6 (messageOf [("announce", "Bert")])]
      annaAndBert :=
    .cons trivial rfl (.cons trivial rfl (.nil _))
  have goesOn : Run (step fixedPoint) (Joined 5) annaAndBert
      [.tick fun _ => 0, .tick fun _ => 0] _ :=
    .cons (by decide) rfl (.cons (by decide) rfl (.nil _))
  exact ⟨_, _, hears_while_joined started goesOn, by decide, by decide⟩

end Hearing

end Tanks

end Jph2

end Libjaypea
