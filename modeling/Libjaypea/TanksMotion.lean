import Libjaypea.TanksTables

/-!
# How tanks move

What the game state says of a tank is what the simulation has, in every
reachable state.  Whatever the inputs are, no tank is ever faster than the
maximum by more than one step of acceleration, and none turns backwards.
-/

namespace Libjaypea

namespace Jph2

namespace Tanks

open Transitions

variable {R : Type} {double : Arithmetic R} {game next : Game R} {name : Bytes}

/-- What the tables hold of a tank. -/
structure Motion (R : Type) where
  location : Point R
  speed : R
  rotation : R
  turnSpeed : R

/-- The tank has this motion. -/
structure Moves (game : Game R) (name : Bytes) (motion : Motion R) : Prop where
  location : game.locations.get? name = some motion.location
  speed : game.speeds.get? name = some motion.speed
  rotation : game.rotations.get? name = some motion.rotation
  turnSpeed : game.turnSpeeds.get? name = some motion.turnSpeed

theorem moves_place {stale : Bytes → UInt8} {pressed : Bytes} {location : Point R}
    {player : JsonObject} :
    Moves (game.place double stale name pressed location player) name
      ⟨location, speedAfter double stale game name pressed,
        rotationAfter double stale game name pressed,
        turnSpeedAfter double stale game name pressed⟩ :=
  ⟨KeyedList.get?_set_self _ _ _, KeyedList.get?_set_self _ _ _, KeyedList.get?_set_self _ _ _,
    KeyedList.get?_set_self _ _ _⟩

theorem Moves.place_other {motion : Motion R} {other : Bytes} (moves : Moves game other motion)
    (apart : name ≠ other) (stale : Bytes → UInt8) (pressed : Bytes) (location : Point R)
    (player : JsonObject) :
    Moves (game.place double stale name pressed location player) other motion where
  location := (KeyedList.get?_set_of_ne _ apart _).trans moves.location
  speed := (KeyedList.get?_set_of_ne _ apart _).trans moves.speed
  rotation := (KeyedList.get?_set_of_ne _ apart _).trans moves.rotation
  turnSpeed := (KeyedList.get?_set_of_ne _ apart _).trans moves.turnSpeed

section Display

/-- The strings of the player are those of a new tank, which stands still where
its message put it. -/
structure ShowsSpawn (double : Arithmetic R) (player : JsonObject) (motion : Motion R) : Prop where
  x : (player.getStr (bytes "x")).bind double.stod = some motion.location.x
  y : (player.getStr (bytes "y")).bind double.stod = some motion.location.y
  s : player.getStr (bytes "s") = some (bytes "0")
  r : player.getStr (bytes "r") = some (bytes "0")
  ts : player.getStr (bytes "ts") = some (bytes "0")
  speed : motion.speed = zero double
  rotation : motion.rotation = zero double
  turnSpeed : motion.turnSpeed = zero double

/-- The strings of the player agree with its motion: all of them as it prints
now, or all of them as the tank spawned. -/
def Agrees (double : Arithmetic R) (player : JsonObject) (motion : Motion R) : Prop :=
  Shows double player motion.location motion.speed motion.rotation motion.turnSpeed ∨
    ShowsSpawn double player motion

theorem agrees_spawned {x y : Bytes} {left top : R} (leftRead : double.stod x = some left)
    (topRead : double.stod y = some top) :
    Agrees double (spawned x y) ⟨⟨left, top⟩, zero double, zero double, zero double⟩ :=
  .inr ⟨leftRead, topRead, rfl, rfl, rfl, rfl, rfl, rfl⟩

/-- A key press changes none of these strings. -/
theorem Agrees.press {player changed : JsonObject} {motion : Motion R} {pressed : Bytes}
    (agrees : Agrees double player motion)
    (written : player.setString (bytes "i") pressed = some changed) :
    Agrees double changed motion := by
  have same := (setString_spec written).2
  have x := same (bytes "x")
  have y := same (bytes "y")
  have s := same (bytes "s")
  have r := same (bytes "r")
  have ts := same (bytes "ts")
  rcases agrees with shows | spawns
  · exact .inl ⟨x.trans shows.x, y.trans shows.y, s.trans shows.s, r.trans shows.r,
      ts.trans shows.ts⟩
  · exact .inr ⟨x ▸ spawns.x, y ▸ spawns.y, s.trans spawns.s, r.trans spawns.r,
      ts.trans spawns.ts, spawns.speed, spawns.rotation, spawns.turnSpeed⟩

/-- The game state tells every player's motion. -/
def Truthful (double : Arithmetic R) (game : Game R) : Prop :=
  ∀ name player, game.players.get? name = some player →
    ∃ motion, Moves game name motion ∧ Agrees double player motion

theorem Truthful.of_tables (truthful : Truthful double game)
    (locations : next.locations = game.locations) (rotations : next.rotations = game.rotations)
    (speeds : next.speeds = game.speeds) (turnSpeeds : next.turnSpeeds = game.turnSpeeds)
    (players : next.players = game.players) : Truthful double next := by
  intro name player found
  rw [players] at found
  obtain ⟨motion, moves, agrees⟩ := truthful name player found
  exact ⟨motion, ⟨locations ▸ moves.location, speeds ▸ moves.speed, rotations ▸ moves.rotation,
    turnSpeeds ▸ moves.turnSpeed⟩, agrees⟩

theorem Truthful.removeTank (truthful : Truthful double game) (name : Bytes) :
    Truthful double (game.removeTank name) := by
  intro other player found
  obtain ⟨apart, found⟩ := KeyedList.get?_erase_eq_some_iff.mp found
  obtain ⟨motion, moves, agrees⟩ := truthful other player found
  refine ⟨motion, ⟨?_, ?_, ?_, ?_⟩, agrees⟩
  · exact KeyedList.get?_erase_eq_some_iff.mpr ⟨apart, moves.location⟩
  · exact KeyedList.get?_erase_eq_some_iff.mpr ⟨apart, moves.speed⟩
  · exact KeyedList.get?_erase_eq_some_iff.mpr ⟨apart, moves.rotation⟩
  · exact KeyedList.get?_erase_eq_some_iff.mpr ⟨apart, moves.turnSpeed⟩

theorem Truthful.handleEvent (truthful : Truthful double game) (event : Event) :
    Truthful double (game.handleEvent event) := by
  have broadcast (text : Bytes) : Truthful double (game.broadcast text) :=
    truthful.of_tables rfl rfl rfl rfl rfl
  unfold Game.handleEvent
  split_ifs
  · exact broadcast _
  · exact (broadcast _).removeTank _
  · exact (broadcast _).removeTank _
  · exact truthful

theorem Truthful.moveTank (truthful : Truthful double game) {stale : Bytes → UInt8}
    (moved : moveTank double stale game name = some next) : Truthful double next := by
  obtain ⟨player, pressed, location, shown, present, -, -, displayed, rfl⟩ := moveTank_cases moved
  intro other found asked
  rw [Game.place, KeyedList.get?_set] at asked
  split at asked
  · rename_i here
    subst here
    cases asked
    exact ⟨_, moves_place, .inl (display_spec displayed).2.2⟩
  · rename_i apart
    obtain ⟨motion, moves, agrees⟩ := truthful other found asked
    exact ⟨motion, moves.place_other apart _ _ _ _, agrees⟩

theorem Truthful.of_effect (truthful : Truthful double game) (tables : Tables game)
    (effect : Effect double game next) : Truthful double next := by
  cases effect with
  | idle => exact truthful
  | leave => exact truthful.of_tables rfl rfl rfl rfl rfl
  | join => exact truthful.of_tables rfl rfl rfl rfl rfl
  | press handle pressed player changed present written =>
      intro other found asked
      rw [KeyedList.get?_set] at asked
      split at asked
      · rename_i here
        cases asked
        obtain ⟨motion, moves, agrees⟩ := truthful _ player present
        exact ⟨motion, here ▸ ⟨moves.location, moves.speed, moves.rotation, moves.turnSpeed⟩,
          agrees.press written⟩
      · obtain ⟨motion, moves, agrees⟩ := truthful other found asked
        exact ⟨motion, ⟨moves.location, moves.speed, moves.rotation, moves.turnSpeed⟩, agrees⟩
  | spawn handle x y left top absent leftRead topRead =>
      intro other found asked
      rw [KeyedList.get?_set] at asked
      split at asked
      · rename_i here
        subst here
        cases asked
        -- No table has the name, so that each takes the new entry.
        have fresh {α : Type} {entries : KeyedList Bytes α}
            (same : KeyedList.SameKeys entries game.players) (value : α) :
            (entries.emplace (tankOf handle) value).get? (tankOf handle) = some value := by
          rw [KeyedList.emplace_of_notMem (fun member => absent ((same _).mp member)),
            KeyedList.get?_set_self]
        exact ⟨_, ⟨fresh tables.locations _, fresh tables.speeds _, fresh tables.rotations _,
          fresh tables.turnSpeeds _⟩, agrees_spawned leftRead topRead⟩
      · obtain ⟨motion, moves, agrees⟩ := truthful other found asked
        refine ⟨motion, ⟨?_, ?_, ?_, ?_⟩, agrees⟩
        · rw [KeyedList.get?_emplace, moves.location, Option.some_or]
        · rw [KeyedList.get?_emplace, moves.speed, Option.some_or]
        · rw [KeyedList.get?_emplace, moves.rotation, Option.some_or]
        · rw [KeyedList.get?_emplace, moves.turnSpeed, Option.some_or]
  | drained => exact truthful.of_tables rfl rfl rfl rfl rfl
  | handle event => exact (truthful.handleEvent event).of_tables rfl rfl rfl rfl rfl
  | collide => exact truthful.of_tables rfl rfl rfl rfl rfl
  | move stale moved moves =>
      have kept : Truthful double moved :=
        moves.invariant (fun _ _ _ truthful _ moves => truthful.moveTank moves) truthful
      exact kept.of_tables rfl rfl rfl rfl rfl
  | broadcast => exact truthful.of_tables rfl rfl rfl rfl rfl

/-- In every reachable state, and so in every game state that is broadcast, the
strings of a player are its location, speeds and rotation as they are printed, or
those of a tank that has not been moved since it spawned. -/
theorem truthful_of_run {actions : List Action}
    (run : Run (step double) anything Game.start actions game) : Truthful double game := by
  have both : Tables game ∧ Truthful double game := by
    apply run.invariant _ ⟨tables_start, fun _ _ found => nomatch found⟩
    rintro first action second ⟨tables, truthful⟩ _ taken
    exact ⟨tables.of_effect (step_effect taken), truthful.of_effect tables (step_effect taken)⟩
  exact both.2

theorem truthful_of_run_anna :
    ∃ game : Game (Option Int), Truthful fixedPoint game ∧
      game.locations.map (fun entry => (entry.2.x, entry.2.y)) =
        [(some 400500, some 299999)] := by
  have executes : (exec (step fixedPoint) Game.start annasRun).map (fun game =>
      game.locations.map fun entry => (entry.2.x, entry.2.y)) =
        some [(some 400500, some 299999)] := by decide
  obtain ⟨game, run, location⟩ := exists_run_of_exec executes
  exact ⟨game, truthful_of_run run, location⟩

end Display

section Limits

/-- What rounding keeps of the order when a step of acceleration is added or taken
away: comparisons stay as they are, no number included. -/
structure Ordered (double : Arithmetic R) (change : R) : Prop where
  trans {first second third : R} : double.le first second = true →
    double.le second third = true → double.le first third = true
  add_le_add {first second : R} : double.lt first second = true →
    double.le (double.add first change) (double.add second change) = true
  sub_le_sub {first second : R} : double.lt first second = true →
    double.le (double.sub first change) (double.sub second change) = true
  le_add {low number : R} : double.le low number = true →
    double.le low (double.add number change) = true
  sub_le {number high : R} : double.le number high = true →
    double.le (double.sub number change) high = true
  /-- Two numbers can be compared. -/
  lt_of_not_le {low number : R} : double.le low number = true →
    double.le number change = false → double.lt change number = true

/-- How the constants of the game compare. -/
structure Constants (double : Arithmetic R) : Prop where
  zero_le : double.le (zero double) (zero double) = true
  zero_le_sub : double.le (zero double)
    (double.sub (turnAcceleration double) (turnAcceleration double)) = true
  zero_le_turn : double.le (zero double)
    (double.add (maxTurnSpeed double) (turnAcceleration double)) = true
  add_le : double.le (double.add (zero double) (acceleration double))
    (double.add (maxSpeed double) (acceleration double)) = true
  le_sub : double.le (double.sub (double.neg (maxSpeed double)) (acceleration double))
    (double.sub (zero double) (acceleration double)) = true
  bottom_le : double.le (double.sub (double.neg (maxSpeed double)) (acceleration double))
    (zero double) = true
  le_top : double.le (zero double)
    (double.add (maxSpeed double) (acceleration double)) = true

def Between (double : Arithmetic R) (low high number : R) : Prop :=
  double.le low number = true ∧ double.le number high = true

/-- At most one step of acceleration over the maximum, in either direction. -/
def SpeedLimit (double : Arithmetic R) : R → Prop :=
  Between double (double.sub (double.neg (maxSpeed double)) (acceleration double))
    (double.add (maxSpeed double) (acceleration double))

/-- At most one step over the maximum, and never negative. -/
def TurnLimit (double : Arithmetic R) : R → Prop :=
  Between double (zero double) (double.add (maxTurnSpeed double) (turnAcceleration double))

theorem nextSpeed_limit (ordered : Ordered double (acceleration double))
    (constants : Constants double) (direction : UInt8) {speed : R}
    (limit : SpeedLimit double speed) : SpeedLimit double (nextSpeed double direction speed) := by
  obtain ⟨low, high⟩ := limit
  unfold nextSpeed
  split_ifs with forward slow backward fast still positive negative
  · exact ⟨ordered.le_add low, ordered.add_le_add slow⟩
  · exact ⟨low, high⟩
  · exact ⟨ordered.sub_le_sub fast, ordered.sub_le high⟩
  · exact ⟨low, high⟩
  · exact ⟨constants.bottom_le, constants.le_top⟩
  · exact ⟨ordered.trans constants.le_sub (ordered.sub_le_sub positive), ordered.sub_le high⟩
  · exact ⟨ordered.le_add low, ordered.trans (ordered.add_le_add negative) constants.add_le⟩
  · exact ⟨low, high⟩

theorem nextTurnSpeed_limit (ordered : Ordered double (turnAcceleration double))
    (constants : Constants double) (turn : UInt8) {turnSpeed : R}
    (limit : TurnLimit double turnSpeed) :
    TurnLimit double (nextTurnSpeed double turn turnSpeed) := by
  obtain ⟨low, high⟩ := limit
  unfold nextTurnSpeed
  split_ifs with turning slow little positive
  · exact ⟨ordered.le_add low, ordered.add_le_add slow⟩
  · exact ⟨low, high⟩
  · exact ⟨constants.zero_le, constants.zero_le_turn⟩
  · have more := ordered.lt_of_not_le low (by simpa using little)
    exact ⟨ordered.trans constants.zero_le_sub (ordered.sub_le_sub more), ordered.sub_le high⟩
  · exact ⟨low, high⟩

/-- Every value of a table is within a limit. -/
def Within (limit : R → Prop) (entries : KeyedList Bytes R) : Prop :=
  ∀ name number, entries.get? name = some number → limit number

section Tables

variable {limit : R → Prop} {entries : KeyedList Bytes R} {new : R}

theorem Within.erase (within : Within limit entries) (name : Bytes) :
    Within limit (entries.erase name) := by
  intro other number found
  exact within other number (KeyedList.get?_erase_eq_some_iff.mp found).2

theorem Within.set (within : Within limit entries) (name : Bytes) (fits : limit new) :
    Within limit (entries.set name new) := by
  intro other number found
  rw [KeyedList.get?_set] at found
  split at found
  · cases found
    exact fits
  · exact within other number found

theorem Within.emplace (within : Within limit entries) (name : Bytes) (fits : limit new) :
    Within limit (entries.emplace name new) := by
  unfold KeyedList.emplace
  split
  · exact within
  · exact within.set name fits

theorem Within.entry (within : Within limit entries) (fits : limit (zero double))
    (name : Bytes) : limit (entry double entries name) := by
  unfold Tanks.entry
  cases found : entries.get? name with
  | none => exact fits
  | some number => exact within name number found

end Tables

/-- All tanks keep to the limits. -/
structure Limits (double : Arithmetic R) (game : Game R) : Prop where
  speeds : Within (SpeedLimit double) game.speeds
  turnSpeeds : Within (TurnLimit double) game.turnSpeeds

section Steps

variable (ordered : Ordered double (acceleration double))
  (turnOrdered : Ordered double (turnAcceleration double)) (constants : Constants double)

include ordered turnOrdered constants

theorem Limits.moveTank (limits : Limits double game) {stale : Bytes → UInt8}
    (moved : moveTank double stale game name = some next) : Limits double next := by
  obtain ⟨player, pressed, location, shown, -, -, -, -, rfl⟩ := moveTank_cases moved
  constructor
  · apply limits.speeds.set
    apply nextSpeed_limit ordered constants
    exact limits.speeds.entry ⟨constants.bottom_le, constants.le_top⟩ name
  · apply limits.turnSpeeds.set
    apply nextTurnSpeed_limit turnOrdered constants
    exact limits.turnSpeeds.entry ⟨constants.zero_le, constants.zero_le_turn⟩ name

theorem Limits.of_effect (limits : Limits double game) (effect : Effect double game next) :
    Limits double next := by
  cases effect with
  | spawn handle x y left top absent leftRead topRead =>
      exact ⟨limits.speeds.emplace _ ⟨constants.bottom_le, constants.le_top⟩,
        limits.turnSpeeds.emplace _ ⟨constants.zero_le, constants.zero_le_turn⟩⟩
  | handle event =>
      unfold Game.handleEvent
      split_ifs
      · exact ⟨limits.speeds, limits.turnSpeeds⟩
      · exact ⟨limits.speeds.erase _, limits.turnSpeeds.erase _⟩
      · exact ⟨limits.speeds.erase _, limits.turnSpeeds.erase _⟩
      · exact ⟨limits.speeds, limits.turnSpeeds⟩
  | move stale moved moves =>
      have kept : Limits double moved := moves.invariant
        (fun _ _ _ limits _ moves => limits.moveTank ordered turnOrdered constants moves) limits
      exact ⟨kept.speeds, kept.turnSpeeds⟩
  | _ => exact ⟨limits.speeds, limits.turnSpeeds⟩

/-- No input makes a tank faster than the maximum by more than one step, or turn
backwards. -/
theorem limits_of_run {actions : List Action}
    (run : Run (step double) anything Game.start actions game) : Limits double game := by
  have empty (limit : R → Prop) : Within limit [] := fun name number found => nomatch found
  apply run.invariant _ ⟨empty _, empty _⟩
  intro first action second limits _ taken
  exact limits.of_effect ordered turnOrdered constants (step_effect taken)

end Steps

theorem ordered_fixedPoint {change : Int} (positive : 0 ≤ change) :
    Ordered fixedPoint (some change) := by
  constructor
  · intro first second third
    cases first <;> cases second <;> cases third <;> simp [fixedPoint]
    omega
  · intro first second
    cases first <;> cases second <;> simp [fixedPoint]
    omega
  · intro first second
    cases first <;> cases second <;> simp [fixedPoint]
    omega
  · intro low number
    cases low <;> cases number <;> simp [fixedPoint]
    omega
  · intro number high
    cases number <;> cases high <;> simp [fixedPoint]
    omega
  · intro low number
    cases low <;> cases number <;> simp [fixedPoint]

theorem limits_of_run_anna :
    ∃ game : Game (Option Int), Limits fixedPoint game ∧
      game.speeds = [(bytes "Annatank", some 500)] := by
  have executes : (exec (step fixedPoint) Game.start annasRun).map (fun game => game.speeds) =
      some [(bytes "Annatank", some 500)] := by decide
  obtain ⟨game, run, speeds⟩ := exists_run_of_exec executes
  have constants : Constants fixedPoint := by constructor <;> decide
  exact ⟨game, limits_of_run (ordered_fixedPoint (by decide)) (ordered_fixedPoint (by decide))
    constants run, speeds⟩

end Limits

end Tanks

end Jph2

end Libjaypea
