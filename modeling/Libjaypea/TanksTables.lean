import Libjaypea.TanksGame

/-!
# The tables of the tank game

The tables of locations, rotations, speeds and turning speeds hold one entry for
every player of the game state, in every reachable state.  The simulation thread
finds all it asks for, and only a spawn at a place that is no number ends the
program.
-/

namespace Libjaypea

namespace Jph2

namespace Tanks

open KeyedList (SameKeys)
open Transitions

variable {R : Type} {double : Arithmetic R}

/-- What a step may do to the game. -/
inductive Effect (double : Arithmetic R) (game : Game R) : Game R → Prop
  | idle : Effect double game game
  | leave (fd : Nat) (details : JsonObject) (handle : Bytes)
      (joined : game.clientDetails.get? fd = some details)
      (named : details.getStr (bytes "handle") = some handle) :
      Effect double game { game with
        gameEventQueue := game.gameEventQueue ++ [⟨1, some fd, handle⟩]
        clientDetails := game.clientDetails.erase fd }
  | join (fd : Nat) (details : JsonObject) (handle : Bytes)
      (absent : game.clientDetails.get? fd = none)
      (named : details.getStr (bytes "handle") = some handle) :
      Effect double game { game with
        clientDetails := game.clientDetails.set fd details
        gameEventQueue := game.gameEventQueue ++ [⟨0, some fd, handle⟩] }
  | press (handle pressed : Bytes) (player changed : JsonObject)
      (present : game.players.get? (tankOf handle) = some player)
      (written : player.setString (bytes "i") pressed = some changed) :
      Effect double game
        { game with players := game.players.set (tankOf handle) changed }
  | spawn (handle x y : Bytes) (left top : R) (absent : tankOf handle ∉ game.players.keys)
      (leftRead : double.stod x = some left) (topRead : double.stod y = some top) :
      Effect double game { game with
        locations := game.locations.emplace (tankOf handle) ⟨left, top⟩
        rotations := game.rotations.emplace (tankOf handle) (zero double)
        speeds := game.speeds.emplace (tankOf handle) (zero double)
        turnSpeeds := game.turnSpeeds.emplace (tankOf handle) (zero double)
        players := game.players.set (tankOf handle) (spawned x y) }
  | drained (queue : game.gameEventQueue = []) :
      Effect double game { game with phase := .collisions }
  | handle (event : Event) (later : List Event)
      (queue : game.gameEventQueue = event :: later) :
      Effect double game { game.handleEvent event with
        gameEventQueue := later
        handled := (game.handleEvent event).handled ++ [event] }
  | collide :
      Effect double game { game with
        gameEventQueue := game.gameEventQueue ++ collisionEvents double game.locations
        phase := .movement }
  | move (stale : Bytes → UInt8) (moved : Game R)
      (moves : Run (moveTank double stale) anything game game.players.keys moved) :
      Effect double game { moved with phase := .broadcast }
  | broadcast :
      Effect double game
        { game.broadcast ((gameState game).stringify false 0) with phase := .events }

theorem announce_effect {game next : Game R} {fd : Nat} {msg : JsonObject}
    (announced : announce game fd msg = some next) : Effect double game next := by
  obtain ⟨handle, _, announced⟩ := Option.bind_eq_some_iff.mp announced
  split at announced
  · cases announced
    exact .idle
  · rename_i absent
    cases announced
    apply Effect.join
    · simpa [KeyedList.contains] using absent
    · split
      · rw [JsonObject.getStr, JsonObject.setMember, KeyedList.get?_set_of_ne _ (by decide)]
        rfl
      · rfl

theorem input_effect {game next : Game R} {msg : JsonObject}
    (pressing : input game msg = some next) : Effect double game next := by
  obtain ⟨handle, _, pressing⟩ := Option.bind_eq_some_iff.mp pressing
  cases present : game.players.get? (tankOf handle) with
  | none =>
      rw [present] at pressing
      cases pressing
      exact .idle
  | some player =>
      rw [present] at pressing
      obtain ⟨pressed, _, pressing⟩ := Option.bind_eq_some_iff.mp pressing
      obtain ⟨changed, written, same⟩ := Option.bind_eq_some_iff.mp pressing
      cases same
      exact .press handle pressed player changed present written

theorem spawn_effect {game next : Game R} {msg : JsonObject}
    (spawning : spawn double game msg = some next) : Effect double game next := by
  obtain ⟨handle, _, spawning⟩ := Option.bind_eq_some_iff.mp spawning
  split at spawning
  · cases spawning
    exact .idle
  · rename_i absent
    obtain ⟨x, _, spawning⟩ := Option.bind_eq_some_iff.mp spawning
    obtain ⟨y, _, spawning⟩ := Option.bind_eq_some_iff.mp spawning
    obtain ⟨left, leftRead, spawning⟩ := Option.bind_eq_some_iff.mp spawning
    obtain ⟨top, topRead, same⟩ := Option.bind_eq_some_iff.mp spawning
    cases same
    apply Effect.spawn handle x y left top _ leftRead topRead
    rwa [KeyedList.contains_iff] at absent

theorem onRead_effect {game next : Game R} {fd : Nat} {msg : JsonObject}
    (read : onRead double game fd msg = some next) : Effect double game next := by
  unfold onRead at read
  split at read
  · exact input_effect read
  · split at read
    · exact announce_effect read
    · split at read
      · exact spawn_effect read
      · cases read
        exact .idle

theorem onDisconnect_effect {game next : Game R} {fd : Nat}
    (left : onDisconnect game fd = some next) : Effect double game next := by
  unfold onDisconnect at left
  split at left
  · cases left
    exact .idle
  · rename_i details joined
    obtain ⟨handle, named, same⟩ := Option.bind_eq_some_iff.mp left
    cases same
    exact .leave fd details handle joined named

theorem tick_effect {game next : Game R} {stale : Bytes → UInt8}
    (ticked : tick double stale game = some next) : Effect double game next := by
  unfold tick at ticked
  split at ticked
  · rename_i queue
    cases ticked
    exact .drained queue
  · rename_i queue
    cases ticked
    exact .handle _ _ queue
  · cases ticked
    exact .collide
  · obtain ⟨moved, moves, same⟩ := Option.map_eq_some_iff.mp ticked
    subst same
    exact .move stale moved (run_of_exec moves)
  · cases ticked
    exact .broadcast

theorem step_effect {game next : Game R} {action : Action}
    (taken : step double game action = some next) : Effect double game next := by
  cases action with
  | read fd msg => exact onRead_effect taken
  | disconnect fd => exact onDisconnect_effect taken
  | tick stale => exact tick_effect taken

section Players

variable {player changed shown : JsonObject} {key text : Bytes}

theorem setString_spec (written : player.setString key text = some changed) :
    KeyedList.keys changed.objectValues = KeyedList.keys player.objectValues ∧
      ∀ other, changed.getStr other = if key = other then some text else player.getStr other := by
  obtain ⟨child, found, same⟩ := Option.map_eq_some_iff.mp written
  subst same
  constructor
  · rw [KeyedList.keys_set, if_pos (KeyedList.mem_keys_of_get? found)]
  · intro other
    rw [JsonObject.getStr, KeyedList.get?_set]
    split <;> rfl

theorem exists_setString (present : key ∈ KeyedList.keys player.objectValues) (text : Bytes) :
    ∃ changed, player.setString key text = some changed := by
  obtain ⟨child, found⟩ := KeyedList.exists_get?_of_mem_keys present
  exact ⟨_, by rw [JsonObject.setString, found, Option.map_some]⟩

theorem exists_getStr (present : key ∈ KeyedList.keys player.objectValues) :
    ∃ text, player.getStr key = some text := by
  obtain ⟨child, found⟩ := KeyedList.exists_get?_of_mem_keys present
  exact ⟨_, by rw [JsonObject.getStr, found, Option.map_some]⟩

theorem setStrings_spec {texts : KeyedList Bytes Bytes} (distinct : texts.keys.Nodup)
    (written : player.setStrings texts = some changed) :
    KeyedList.keys changed.objectValues = KeyedList.keys player.objectValues ∧
      ∀ other, changed.getStr other = (texts.get? other).or (player.getStr other) := by
  induction texts generalizing player with
  | nil =>
      cases written
      exact ⟨rfl, fun _ => rfl⟩
  | cons member texts ih =>
      obtain ⟨next, first, rest⟩ := Option.bind_eq_some_iff.mp written
      obtain ⟨absent, distinct⟩ := List.nodup_cons.mp distinct
      obtain ⟨keys, values⟩ := ih distinct rest
      obtain ⟨firstKeys, firstValues⟩ := setString_spec first
      refine ⟨keys.trans firstKeys, fun other => ?_⟩
      rw [values, firstValues, KeyedList.get?_cons]
      by_cases here : member.1 = other
      · -- The key is not written again.
        rw [if_pos here, if_pos here, KeyedList.get?_eq_none_iff.mpr (here ▸ absent)]
        rfl
      · rw [if_neg here, if_neg here]

theorem exists_setStrings {texts : KeyedList Bytes Bytes}
    (present : ∀ key ∈ texts.keys, key ∈ KeyedList.keys player.objectValues) :
    ∃ changed, player.setStrings texts = some changed := by
  induction texts generalizing player with
  | nil => exact ⟨player, rfl⟩
  | cons member texts ih =>
      obtain ⟨here, later⟩ := List.forall_mem_cons.mp present
      obtain ⟨next, first⟩ := exists_setString here member.2
      obtain ⟨changed, rest⟩ := ih fun key asked => by
        rw [(setString_spec first).1]
        exact later key asked
      exact ⟨changed, Option.bind_eq_some_iff.mpr ⟨next, first, rest⟩⟩

/-- The strings of a player tell where it is and how it moves. -/
structure Shows (double : Arithmetic R) (player : JsonObject) (location : Point R)
    (speed rotation turnSpeed : R) : Prop where
  x : player.getStr (bytes "x") = some (double.toString location.x)
  y : player.getStr (bytes "y") = some (double.toString location.y)
  s : player.getStr (bytes "s") = some (double.toString speed)
  r : player.getStr (bytes "r") = some (double.toString rotation)
  ts : player.getStr (bytes "ts") = some (double.toString turnSpeed)

theorem display_spec {location : Point R} {speed rotation turnSpeed : R}
    (displayed : display double player location speed rotation turnSpeed = some shown) :
    KeyedList.keys shown.objectValues = KeyedList.keys player.objectValues ∧
      shown.getStr (bytes "i") = player.getStr (bytes "i") ∧
      Shows double shown location speed rotation turnSpeed := by
  obtain ⟨pressed, asked, written⟩ := Option.bind_eq_some_iff.mp displayed
  obtain ⟨keys, values⟩ := setStrings_spec (by simp [KeyedList.keys]; decide) written
  refine ⟨keys, ?_, ?_⟩
  · rw [values, asked]
    rfl
  · exact ⟨values _, values _, values _, values _, values _⟩

/-- The members of a player, in the order in which they are added. -/
def memberNames : List Bytes :=
  [bytes "x", bytes "y", bytes "s", bytes "r", bytes "ts", bytes "i"]

def Shaped (player : JsonObject) : Prop :=
  KeyedList.keys player.objectValues = memberNames

theorem shaped_spawned (x y : Bytes) : Shaped (spawned x y) :=
  rfl

theorem Shaped.mem (shaped : Shaped player) (member : key ∈ memberNames) :
    key ∈ KeyedList.keys player.objectValues := by
  rw [shaped]
  exact member

variable (double) in
theorem Shaped.exists_display (shaped : Shaped player) (location : Point R)
    (speed rotation turnSpeed : R) :
    ∃ shown, display double player location speed rotation turnSpeed = some shown := by
  obtain ⟨pressed, asked⟩ := exists_getStr (shaped.mem (show bytes "i" ∈ memberNames by decide))
  have members : ∀ key ∈ [bytes "i", bytes "x", bytes "y", bytes "s", bytes "r", bytes "ts"],
      key ∈ memberNames := forall_mem_of_all (by decide)
  have present (texts : KeyedList Bytes Bytes)
      (keys : texts.keys = [bytes "i", bytes "x", bytes "y", bytes "s", bytes "r", bytes "ts"]) :
      ∃ changed, player.setStrings texts = some changed := by
    apply exists_setStrings
    intro key asked
    apply shaped.mem
    apply members
    rwa [← keys]
  obtain ⟨shown, written⟩ := present
    [(bytes "i", pressed), (bytes "x", double.toString location.x),
      (bytes "y", double.toString location.y), (bytes "s", double.toString speed),
      (bytes "r", double.toString rotation), (bytes "ts", double.toString turnSpeed)] rfl
  exact ⟨shown, by rw [display, asked]; exact written⟩

end Players

/-- The tables hold an entry for every player, who has all its members, and
every joined client has a handle. -/
structure Tables (game : Game R) : Prop where
  locations : SameKeys game.locations game.players
  rotations : SameKeys game.rotations game.players
  speeds : SameKeys game.speeds game.players
  turnSpeeds : SameKeys game.turnSpeeds game.players
  shaped : ∀ name player, game.players.get? name = some player → Shaped player
  named : ∀ fd details, game.clientDetails.get? fd = some details →
    ∃ handle, details.getStr (bytes "handle") = some handle

theorem tables_start : Tables (Game.start : Game R) := by
  refine ⟨fun _ => Iff.rfl, fun _ => Iff.rfl, fun _ => Iff.rfl, fun _ => Iff.rfl, ?_, ?_⟩
  · intro name player found
    cases found
  · intro fd details found
    cases found

section Steps

variable {game next : Game R} {name : Bytes} {player : JsonObject}

theorem shaped_set (shaped : ∀ name player, game.players.get? name = some player → Shaped player)
    (new : Shaped player) (other : Bytes) (found : JsonObject)
    (asked : (game.players.set name player).get? other = some found) : Shaped found := by
  rw [KeyedList.get?_set] at asked
  split at asked
  · cases asked
    exact new
  · exact shaped other found asked

theorem Tables.broadcast (tables : Tables game) (text : Bytes) : Tables (game.broadcast text) :=
  ⟨tables.locations, tables.rotations, tables.speeds, tables.turnSpeeds, tables.shaped,
    tables.named⟩

theorem Tables.removeTank (tables : Tables game) (name : Bytes) :
    Tables (game.removeTank name) where
  locations := tables.locations.erase name
  rotations := tables.rotations.erase name
  speeds := tables.speeds.erase name
  turnSpeeds := tables.turnSpeeds.erase name
  shaped := by
    intro other player found
    exact tables.shaped other player (KeyedList.get?_erase_eq_some_iff.mp found).2
  named := tables.named

theorem Tables.handleEvent (tables : Tables game) (event : Event) :
    Tables (game.handleEvent event) := by
  unfold Game.handleEvent
  split_ifs
  · exact tables.broadcast _
  · exact (tables.broadcast _).removeTank _
  · exact (tables.broadcast _).removeTank _
  · exact tables

/-- The tables do not depend on the queue, the phase and what has happened. -/
theorem Tables.congr (tables : Tables game) (queue : List Event) (phase : Phase)
    (handled : List Event) :
    Tables { game with gameEventQueue := queue, phase := phase, handled := handled } :=
  ⟨tables.locations, tables.rotations, tables.speeds, tables.turnSpeeds, tables.shaped,
    tables.named⟩

theorem Tables.place (tables : Tables game) (stale : Bytes → UInt8) (pressed : Bytes)
    (location : Point R) (present : name ∈ game.players.keys) (shaped : Shaped player) :
    Tables (game.place double stale name pressed location player) where
  locations := (tables.locations.set_left present _).set_right present player
  rotations := (tables.rotations.set_left present _).set_right present player
  speeds := (tables.speeds.set_left present _).set_right present player
  turnSpeeds := (tables.turnSpeeds.set_left present _).set_right present player
  shaped := shaped_set tables.shaped shaped
  named := tables.named

theorem moveTank_cases {stale : Bytes → UInt8}
    (moves : moveTank double stale game name = some next) :
    ∃ player pressed location shown, game.players.get? name = some player ∧
      player.getStr (bytes "i") = some pressed ∧ game.locations.get? name = some location ∧
      display double player (locationAfter double stale game name pressed location)
        (speedAfter double stale game name pressed) (rotationAfter double stale game name pressed)
        (turnSpeedAfter double stale game name pressed) = some shown ∧
      next = game.place double stale name pressed
        (locationAfter double stale game name pressed location) shown := by
  obtain ⟨player, present, moves⟩ := Option.bind_eq_some_iff.mp moves
  obtain ⟨pressed, asked, moves⟩ := Option.bind_eq_some_iff.mp moves
  obtain ⟨location, found, moves⟩ := Option.bind_eq_some_iff.mp moves
  obtain ⟨shown, displayed, same⟩ := Option.bind_eq_some_iff.mp moves
  exact ⟨player, pressed, location, shown, present, asked, found, displayed,
    (Option.some.inj same).symm⟩

theorem Tables.moveTank (tables : Tables game) {stale : Bytes → UInt8}
    (moves : moveTank double stale game name = some next) : Tables next := by
  obtain ⟨player, pressed, location, shown, present, _, _, displayed, rfl⟩ := moveTank_cases moves
  apply tables.place stale pressed _ (KeyedList.mem_keys_of_get? present)
  exact (display_spec displayed).1.trans (tables.shaped name player present)

theorem Tables.of_effect (tables : Tables game) (effect : Effect double game next) :
    Tables next := by
  cases effect with
  | idle => exact tables
  | leave fd details handle joined named =>
      refine ⟨tables.locations, tables.rotations, tables.speeds, tables.turnSpeeds,
        tables.shaped, ?_⟩
      intro other details found
      exact tables.named other details (KeyedList.get?_erase_eq_some_iff.mp found).2
  | join fd details handle absent named =>
      refine ⟨tables.locations, tables.rotations, tables.speeds, tables.turnSpeeds,
        tables.shaped, ?_⟩
      intro other details found
      rw [KeyedList.get?_set] at found
      split at found
      · cases found
        exact ⟨handle, named⟩
      · exact tables.named other details found
  | press handle pressed player changed present written =>
      have member := KeyedList.mem_keys_of_get? present
      refine ⟨tables.locations.set_right member changed, tables.rotations.set_right member changed,
        tables.speeds.set_right member changed, tables.turnSpeeds.set_right member changed,
        ?_, tables.named⟩
      apply shaped_set tables.shaped
      exact (setString_spec written).1.trans (tables.shaped _ player present)
  | spawn handle x y left top absent leftRead topRead =>
      exact ⟨tables.locations.emplace_set _ _ _, tables.rotations.emplace_set _ _ _,
        tables.speeds.emplace_set _ _ _, tables.turnSpeeds.emplace_set _ _ _,
        shaped_set tables.shaped (shaped_spawned x y), tables.named⟩
  | drained queue => exact tables.congr _ _ _
  | handle event later queue => exact (tables.handleEvent event).congr _ _ _
  | collide => exact tables.congr _ _ _
  | move stale moved moves =>
      have kept : Tables moved :=
        moves.invariant (fun _ _ _ tables _ moves => tables.moveTank moves) tables
      exact kept.congr _ _ _
  | broadcast => exact (tables.broadcast _).congr _ _ _

theorem tables_of_run {actions : List Action}
    (run : Run (step double) anything Game.start actions game) : Tables game :=
  run.invariant (fun _ _ _ tables _ taken => tables.of_effect (step_effect taken)) tables_start

end Steps

section Survival

variable {game : Game R}

variable (double) in
theorem Tables.exists_moveTank (tables : Tables game) (stale : Bytes → UInt8) {name : Bytes}
    (present : name ∈ game.players.keys) :
    ∃ next, Tanks.moveTank double stale game name = some next := by
  obtain ⟨player, found⟩ := KeyedList.exists_get?_of_mem_keys present
  have shaped := tables.shaped name player found
  obtain ⟨pressed, asked⟩ := exists_getStr (shaped.mem (show bytes "i" ∈ memberNames by decide))
  obtain ⟨location, located⟩ := tables.locations.exists_get? present
  obtain ⟨shown, displayed⟩ := shaped.exists_display double
    (locationAfter double stale game name pressed location)
    (speedAfter double stale game name pressed) (rotationAfter double stale game name pressed)
    (turnSpeedAfter double stale game name pressed)
  refine ⟨game.place double stale name pressed
    (locationAfter double stale game name pressed location) shown, ?_⟩
  simp [Tanks.moveTank, found, asked, located, displayed]

/-- A tank that is moved keeps its name, and so do the others. -/
theorem mem_players_of_moveTank {stale : Bytes → UInt8} {next : Game R} {name other : Bytes}
    (moves : moveTank double stale game name = some next) :
    other ∈ next.players.keys ↔ other ∈ game.players.keys := by
  obtain ⟨player, pressed, location, shown, present, _, _, _, rfl⟩ := moveTank_cases moves
  have member := KeyedList.mem_keys_of_get? present
  rw [Game.place, KeyedList.mem_keys_set]
  constructor
  · rintro (rfl | found) <;> assumption
  · exact Or.inr

variable (double) in
/-- The simulation thread finds all that it asks for. -/
theorem Tables.exists_tick (tables : Tables game) (stale : Bytes → UInt8) :
    ∃ next, tick double stale game = some next := by
  unfold tick
  split
  · exact ⟨_, rfl⟩
  · exact ⟨_, rfl⟩
  · exact ⟨_, rfl⟩
  · have moves : ∀ state, ∀ name ∈ game.players.keys,
        (Tables state ∧ ∀ other ∈ game.players.keys, other ∈ state.players.keys) →
        ∃ next, Tanks.moveTank double stale state name = some next ∧
          (Tables next ∧ ∀ other ∈ game.players.keys, other ∈ next.players.keys) := by
      rintro state name member ⟨tables, kept⟩
      obtain ⟨next, moves⟩ := tables.exists_moveTank double stale (kept name member)
      exact ⟨next, moves, tables.moveTank moves, fun other player =>
        (mem_players_of_moveTank moves).mpr (kept other player)⟩
    obtain ⟨moved, executes, _⟩ := exists_exec moves ⟨tables, fun _ member => member⟩
    exact ⟨_, by rw [executes]; rfl⟩
  · exact ⟨_, rfl⟩

theorem getStr_of_hasObj {this : JsonObject} {key : Bytes} {type : JsonType}
    (has : this.hasObj key type = true) : this.getStr key = some (this.str key) := by
  unfold JsonObject.hasObj at has
  split at has
  · cases has
  · rename_i child found
    rw [JsonObject.str, JsonObject.getStr, found]
    rfl

/-- The message asks for a tank: it is no input and no announcement. -/
def Spawns (msg : JsonObject) : Prop :=
  ¬ (msg.hasObj (bytes "handle") .string = true ∧ msg.hasObj (bytes "i") .string = true) ∧
    msg.hasObj (bytes "announce") .string = false ∧
    msg.hasObj (bytes "handle") .string = true ∧ msg.hasObj (bytes "x") .string = true ∧
    msg.hasObj (bytes "y") .string = true

/-- A new tank is asked for at a place that `std::stod` cannot read. -/
def Fatal (double : Arithmetic R) (game : Game R) : Action → Prop
  | .read _ msg =>
      Spawns msg ∧ tankOf (msg.str (bytes "handle")) ∉ game.players.keys ∧
        (double.stod (msg.str (bytes "x")) = none ∨ double.stod (msg.str (bytes "y")) = none)
  | _ => False

theorem spawn_eq_none_iff {msg : JsonObject} (handle : msg.hasObj (bytes "handle") .string = true)
    (x : msg.hasObj (bytes "x") .string = true) (y : msg.hasObj (bytes "y") .string = true) :
    spawn double game msg = none ↔
      tankOf (msg.str (bytes "handle")) ∉ game.players.keys ∧
        (double.stod (msg.str (bytes "x")) = none ∨
          double.stod (msg.str (bytes "y")) = none) := by
  unfold spawn
  rw [getStr_of_hasObj handle, getStr_of_hasObj x, getStr_of_hasObj y, Option.bind_eq_bind,
    Option.bind_some]
  by_cases present : tankOf (msg.str (bytes "handle")) ∈ game.players.keys
  · rw [if_pos (KeyedList.contains_iff.mpr present)]
    simp [present]
  · rw [if_neg (by rwa [KeyedList.contains_iff])]
    cases left : double.stod (msg.str (bytes "x")) with
    | none => simp [left, present]
    | some left =>
        cases top : double.stod (msg.str (bytes "y")) with
        | none => simp [top, present]
        | some top => simp [left, top]

theorem announce_ne_none {fd : Nat} {msg : JsonObject}
    (asked : msg.hasObj (bytes "announce") .string = true) : announce game fd msg ≠ none := by
  unfold announce
  rw [getStr_of_hasObj asked, Option.bind_eq_bind, Option.bind_some]
  split <;> simp

theorem Tables.input_ne_none (tables : Tables game) {msg : JsonObject}
    (handle : msg.hasObj (bytes "handle") .string = true)
    (pressed : msg.hasObj (bytes "i") .string = true) : input game msg ≠ none := by
  unfold input
  rw [getStr_of_hasObj handle, getStr_of_hasObj pressed, Option.bind_eq_bind, Option.bind_some]
  cases found : game.players.get? (tankOf (msg.str (bytes "handle"))) with
  | none => simp
  | some player =>
      have shaped := tables.shaped _ player found
      obtain ⟨changed, written⟩ :=
        exists_setString (shaped.mem (show bytes "i" ∈ memberNames by decide))
          (msg.str (bytes "i"))
      simp [written]

theorem Tables.onDisconnect_ne_none (tables : Tables game) (fd : Nat) :
    onDisconnect game fd ≠ none := by
  unfold onDisconnect
  split
  · simp
  · rename_i details found
    obtain ⟨handle, named⟩ := tables.named fd details found
    simp [named]

theorem Tables.step_eq_none_iff (tables : Tables game) (action : Action) :
    step double game action = none ↔ Fatal double game action := by
  cases action with
  | disconnect fd => exact iff_of_false (tables.onDisconnect_ne_none fd) id
  | tick stale =>
      obtain ⟨next, ticks⟩ := tables.exists_tick double stale
      refine iff_of_false ?_ id
      simp [step, ticks]
  | read fd msg =>
      rw [step, onRead, Fatal, Spawns]
      split
      · rename_i input
        exact iff_of_false (tables.input_ne_none input.1 input.2) fun fatal => fatal.1.1 input
      · split
        · rename_i announced
          refine iff_of_false (announce_ne_none announced) fun fatal => ?_
          rw [announced] at fatal
          exact absurd fatal.1.2.1 (by decide)
        · rename_i noInput noAnnouncement
          split
          · rename_i asked
            rw [spawn_eq_none_iff asked.1 asked.2.1 asked.2.2]
            constructor
            · intro bad
              exact ⟨⟨noInput, by simpa using noAnnouncement, asked⟩, bad⟩
            · exact And.right
          · rename_i noSpawn
            refine iff_of_false (by simp) fun fatal => ?_
            exact noSpawn fatal.1.2.2

/-- In every reachable state each table holds the same names, and only a spawn
at a place that is no number, or none that fits a `double`, can end the program.
The callbacks and the parts of a tick come one after the other here; the source
shares the tables between two threads without a lock. -/
theorem ends_only_at_bad_spawn {actions : List Action}
    (run : Run (step double) anything Game.start actions game) :
    SameKeys game.locations game.players ∧ SameKeys game.rotations game.players ∧
      SameKeys game.speeds game.players ∧ SameKeys game.turnSpeeds game.players ∧
      ∀ action, step double game action = none ↔ Fatal double game action := by
  have tables := tables_of_run run
  exact ⟨tables.locations, tables.rotations, tables.speeds, tables.turnSpeeds,
    fun action => tables.step_eq_none_iff action⟩

/-- Anna joins, spawns, is announced, presses two keys and is moved once. -/
def annasRun : List Action :=
  [.read 5 (messageOf [("announce", "Anna")]),
    .read 5 (messageOf [("handle", "Anna"), ("x", "40"), ("y", "30")]), .tick fun _ => 0,
    .read 5 (messageOf [("handle", "Anna"), ("i", "fl")]), .tick fun _ => 0, .tick fun _ => 0,
    .tick fun _ => 0]

theorem ends_only_at_bad_spawn_anna :
    ∃ game : Game (Option Int), (SameKeys game.locations game.players ∧
      SameKeys game.rotations game.players ∧ SameKeys game.speeds game.players ∧
      SameKeys game.turnSpeeds game.players ∧
      ∀ action, step fixedPoint game action = none ↔ Fatal fixedPoint game action) ∧
      game.players.keys = [bytes "Annatank"] := by
  have executes : (exec (step fixedPoint) Game.start annasRun).map (fun game =>
      game.players.keys) = some [bytes "Annatank"] := by decide
  obtain ⟨game, run, names⟩ := exists_run_of_exec executes
  exact ⟨game, ends_only_at_bad_spawn run, names⟩

end Survival

end Tanks

end Jph2

end Libjaypea
