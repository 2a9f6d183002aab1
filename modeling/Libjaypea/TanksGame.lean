import Libjaypea.HttpDispatch
import Libjaypea.KeyedTables
import Libjaypea.Transitions
import Mathlib.Data.Option.NAry

/-!
# The tank game of jph2

`game_server` takes announcements, spawns and inputs from its clients; a second
thread handles the queued events, looks for collisions, moves the tanks and
broadcasts the game state, over and over.  A callback and a phase of that thread
are each taken to be one step, and the phases take turns with the callbacks.
-/

namespace Libjaypea

namespace JsonObject

/-- `objectValues[key]->stringValue = text`, for which the member must be there. -/
def setString (this : JsonObject) (key text : Bytes) : Option JsonObject :=
  (KeyedList.get? this.objectValues key).map fun child =>
    { this with
      objectValues := KeyedList.set this.objectValues key { child with stringValue := text } }

/-- Several members one after the other. -/
def setStrings (this : JsonObject) (texts : KeyedList Bytes Bytes) : Option JsonObject :=
  Transitions.exec (fun this member => this.setString member.1 member.2) this texts

end JsonObject

namespace Jph2

namespace Tanks

open Transitions (exec)

/-- What the game uses of `double`, `std::stod` and `std::to_string`. -/
structure Arithmetic (R : Type) where
  /-- The literal with these digits, of which so many are decimals. -/
  literal : Int → Nat → R
  quietNaN : R
  isnan : R → Bool
  neg : R → R
  add : R → R → R
  sub : R → R → R
  mul : R → R → R
  lt : R → R → Bool
  le : R → R → Bool
  abs : R → R
  cos : R → R
  sin : R → R
  /-- `none` stands for the exceptions of `std::stod`. -/
  stod : Bytes → Option R
  toString : R → Bytes

structure Point (R : Type) where
  x : R
  y : R

/-- The second constructor of `Event` leaves `fd` uninitialised. -/
structure Event where
  type : UInt8
  fd : Option Nat
  player : Bytes
  deriving DecidableEq

/-- What the simulation thread does next. -/
inductive Phase
  | events
  | collisions
  | movement
  | broadcast
  deriving DecidableEq

structure Game (R : Type) where
  clientDetails : KeyedList Nat JsonObject
  locations : KeyedList Bytes (Point R)
  rotations : KeyedList Bytes R
  speeds : KeyedList Bytes R
  turnSpeeds : KeyedList Bytes R
  /-- `game_state["players"]->objectValues`. -/
  players : KeyedList Bytes JsonObject
  gameEventQueue : List Event
  phase : Phase
  /-- The events that were taken from the queue, and what was sent to whom. -/
  handled : List Event
  sent : List (Nat × Bytes)

def Game.start {R : Type} : Game R :=
  ⟨[], [], [], [], [], [], [], .events, [], []⟩

/-- `handle + "tank"`. -/
def tankOf (handle : Bytes) : Bytes :=
  handle ++ bytes "tank"

/-- `{"kind":"player"}`. -/
def noticeText (kind player : Bytes) : Bytes :=
  bytes "\x7b\"" ++ kind ++ bytes "\":\"" ++ player ++ bytes "\"\x7d"

section Events

variable {R : Type} (game : Game R)

/-- The loop over `client_details` that sends a text to every one of them. -/
def Game.broadcast (text : Bytes) : Game R :=
  { game with sent := game.sent ++ game.clientDetails.keys.map fun fd => (fd, text) }

/-- `objectValues[name]` would add the player that is then deleted and erased. -/
def Game.removeTank (name : Bytes) : Game R :=
  { game with
    locations := game.locations.erase name
    rotations := game.rotations.erase name
    speeds := game.speeds.erase name
    turnSpeeds := game.turnSpeeds.erase name
    players := game.players.erase name }

def Game.handleEvent (event : Event) : Game R :=
  if event.type = 0 then
    game.broadcast (noticeText (bytes "connect") event.player)
  else if event.type = 1 then
    (game.broadcast (noticeText (bytes "disconnect") event.player)).removeTank
      (tankOf event.player)
  else if event.type = 2 then
    (game.broadcast (noticeText (bytes "explode") event.player)).removeTank event.player
  else game

end Events

section Simulation

variable {R : Type} (double : Arithmetic R)

def zero : R :=
  double.literal 0 0

def maxSpeed : R :=
  double.literal 100 1

def acceleration : R :=
  double.literal 5 2

def maxTurnSpeed : R :=
  double.literal 5 2

def turnAcceleration : R :=
  double.literal 5 4

/-- `collision_edges["tank"]`. -/
def collisionEdges : List (Point R) :=
  [(-25, -15), (25, -15), (25, 15), (-15, 15)].map fun (x, y) =>
    ⟨double.literal x 0, double.literal y 0⟩

def edgesAt (position : Point R) : List (Point R) :=
  (collisionEdges double).map fun point =>
    ⟨double.add position.x point.x, double.add position.y point.y⟩

def projected (normal point : Point R) : R :=
  double.add (double.mul normal.x point.x) (double.mul normal.y point.y)

/-- The least and the greatest projection, both of which begin as no number. -/
def extremes (normal : Point R) (edges : List (Point R)) : R × R :=
  edges.foldl
    (fun (least, greatest) point =>
      let here := projected double normal point
      (if double.isnan least ∨ double.lt here least then here else least,
        if double.isnan greatest ∨ double.lt greatest here then here else greatest))
    (double.quietNaN, double.quietNaN)

/-- The normals of the sides, each from one corner to the next. -/
def normals (edges : List (Point R)) : List (Point R) :=
  (edges.zip (edges.rotate 1)).map fun (first, second) =>
    ⟨double.sub second.y first.y, double.sub first.x second.x⟩

def collision (first second : Point R) : Bool :=
  let edges := edgesAt double first
  let others := edgesAt double second
  (normals double edges).all fun normal =>
    let (minA, maxA) := extremes double normal edges
    let (minB, maxB) := extremes double normal others
    !(double.lt maxA minB || double.lt maxB minA)

/-- The events that the two loops over `locations` push. -/
def collisionEvents (locations : KeyedList Bytes (Point R)) : List Event :=
  locations.flatMap fun first =>
    (locations.filter fun second =>
      first.1 ≠ second.1 && collision double first.2 second.2).map fun _ => ⟨2, none, first.1⟩

def nextSpeed (direction : UInt8) (speed : R) : R :=
  if direction = ch 'f' then
    if double.lt speed (maxSpeed double) then double.add speed (acceleration double) else speed
  else if direction = ch 'b' then
    if double.lt (double.neg (maxSpeed double)) speed then
      double.sub speed (acceleration double)
    else speed
  else if double.le (double.abs speed) (acceleration double) then zero double
  else if double.lt (zero double) speed then double.sub speed (acceleration double)
  else if double.lt speed (zero double) then double.add speed (acceleration double)
  else speed

def nextTurnSpeed (turn : UInt8) (turnSpeed : R) : R :=
  if turn = ch 'l' ∨ turn = ch 'r' then
    if double.lt turnSpeed (maxTurnSpeed double) then
      double.add turnSpeed (turnAcceleration double)
    else turnSpeed
  else if double.le turnSpeed (turnAcceleration double) then zero double
  else if double.lt (zero double) turnSpeed then double.sub turnSpeed (turnAcceleration double)
  else turnSpeed

def nextRotation (turn : UInt8) (rotation turnSpeed : R) : R :=
  if turn = ch 'l' then double.add rotation turnSpeed
  else if turn = ch 'r' then double.sub rotation turnSpeed
  else rotation

def nextLocation (location : Point R) (speed rotation : R) : Point R :=
  ⟨double.add location.x (double.mul speed (double.cos rotation)),
    double.add location.y (double.mul (double.mul speed (double.literal (-1) 0))
      (double.sin rotation))⟩

/-- `text[index]`; behind the terminator lies whatever `stale` tells. -/
def charAt (stale : Bytes → UInt8) (text : Bytes) (index : Nat) : UInt8 :=
  (text ++ [0])[index]?.getD (stale text)

/-- `entries[name]`, which is zero for a new name. -/
def entry (entries : KeyedList Bytes R) (name : Bytes) : R :=
  (entries.get? name).getD (zero double)

/-- The strings of a player are set to what was calculated. -/
def display (player : JsonObject) (location : Point R) (speed rotation turnSpeed : R) :
    Option JsonObject :=
  (player.getStr (bytes "i")).bind fun pressed =>
    player.setStrings
      [(bytes "i", pressed), (bytes "x", double.toString location.x),
        (bytes "y", double.toString location.y), (bytes "s", double.toString speed),
        (bytes "r", double.toString rotation), (bytes "ts", double.toString turnSpeed)]

section Movement

variable (stale : Bytes → UInt8) (game : Game R) (name pressed : Bytes)

def speedAfter : R :=
  nextSpeed double (charAt stale pressed 0) (entry double game.speeds name)

def turnSpeedAfter : R :=
  nextTurnSpeed double (charAt stale pressed 1) (entry double game.turnSpeeds name)

def rotationAfter : R :=
  nextRotation double (charAt stale pressed 1) (entry double game.rotations name)
    (turnSpeedAfter double stale game name pressed)

def locationAfter (location : Point R) : Point R :=
  nextLocation double location (speedAfter double stale game name pressed)
    (rotationAfter double stale game name pressed)

/-- What a pass of the loop over the players writes. -/
def Game.place (location : Point R) (player : JsonObject) : Game R :=
  { game with
    locations := game.locations.set name location
    rotations := game.rotations.set name (rotationAfter double stale game name pressed)
    speeds := game.speeds.set name (speedAfter double stale game name pressed)
    turnSpeeds := game.turnSpeeds.set name (turnSpeedAfter double stale game name pressed)
    players := game.players.set name player }

/-- One pass of that loop.  It ends the program when `GetStr` or `locations.at`
throws, or when a member is missing. -/
def moveTank : Option (Game R) := do
  let player ← game.players.get? name
  let pressed ← player.getStr (bytes "i")
  let location ← game.locations.get? name
  let location := locationAfter double stale game name pressed location
  let player ← display double player location (speedAfter double stale game name pressed)
    (rotationAfter double stale game name pressed)
    (turnSpeedAfter double stale game name pressed)
  some (game.place double stale name pressed location player)

end Movement

/-- `game_state`. -/
def gameState (game : Game R) : JsonObject :=
  ⟨.object, [], [(bytes "players", ⟨.object, [], game.players, []⟩)], []⟩

/-- The next step of the simulation thread. -/
def tick (stale : Bytes → UInt8) (game : Game R) : Option (Game R) :=
  match game.phase, game.gameEventQueue with
  | .events, [] => some { game with phase := .collisions }
  | .events, event :: later =>
      let game := game.handleEvent event
      some { game with gameEventQueue := later, handled := game.handled ++ [event] }
  | .collisions, queue =>
      some { game with
        gameEventQueue := queue ++ collisionEvents double game.locations
        phase := .movement }
  | .movement, _ =>
      (exec (moveTank double stale) game game.players.keys).map fun game =>
        { game with phase := .broadcast }
  | .broadcast, _ =>
      let game := game.broadcast ((gameState game).stringify false 0)
      some { game with phase := .events }

end Simulation

section Callbacks

variable {R : Type} (double : Arithmetic R)

def onDisconnect (game : Game R) (fd : Nat) : Option (Game R) :=
  match game.clientDetails.get? fd with
  | none => some game
  | some details => do
      let handle ← details.getStr (bytes "handle")
      some { game with
        gameEventQueue := game.gameEventQueue ++ [⟨1, some fd, handle⟩]
        clientDetails := game.clientDetails.erase fd }

def input (game : Game R) (msg : JsonObject) : Option (Game R) := do
  let handle ← msg.getStr (bytes "handle")
  match game.players.get? (tankOf handle) with
  | none => some game
  | some player =>
      let pressed ← msg.getStr (bytes "i")
      let player ← player.setString (bytes "i") pressed
      some { game with players := game.players.set (tankOf handle) player }

def announce (game : Game R) (fd : Nat) (msg : JsonObject) : Option (Game R) := do
  let handle ← msg.getStr (bytes "announce")
  if game.clientDetails.contains fd then some game
  else
    let details : JsonObject :=
      ⟨.object, [], [(bytes "handle", .ofString handle)], []⟩
    let details :=
      if msg.hasObj (bytes "color") .string then
        details.setMember (bytes "color") (.ofString ((msg.getStr (bytes "color")).getD []))
      else details
    some { game with
      clientDetails := game.clientDetails.set fd details
      gameEventQueue := game.gameEventQueue ++ [⟨0, some fd, handle⟩] }

/-- The object of a player who has just spawned. -/
def spawned (x y : Bytes) : JsonObject :=
  ⟨.object, [],
    [(bytes "x", .ofString x), (bytes "y", .ofString y), (bytes "s", .ofString (bytes "0")),
      (bytes "r", .ofString (bytes "0")), (bytes "ts", .ofString (bytes "0")),
      (bytes "i", .ofString (bytes "nn"))], []⟩

def spawn (game : Game R) (msg : JsonObject) : Option (Game R) := do
  let handle ← msg.getStr (bytes "handle")
  if game.players.contains (tankOf handle) then some game
  else
    let x ← msg.getStr (bytes "x")
    let y ← msg.getStr (bytes "y")
    let left ← double.stod x
    let top ← double.stod y
    some { game with
      locations := game.locations.emplace (tankOf handle) ⟨left, top⟩
      rotations := game.rotations.emplace (tankOf handle) (zero double)
      speeds := game.speeds.emplace (tankOf handle) (zero double)
      turnSpeeds := game.turnSpeeds.emplace (tankOf handle) (zero double)
      players := game.players.set (tankOf handle) (spawned x y) }

/-- `msg` is what `parse` made of the data; an exception ends the program. -/
def onRead (game : Game R) (fd : Nat) (msg : JsonObject) : Option (Game R) :=
  if msg.hasObj (bytes "handle") .string ∧ msg.hasObj (bytes "i") .string then
    input game msg
  else if msg.hasObj (bytes "announce") .string then announce game fd msg
  else if msg.hasObj (bytes "handle") .string ∧ msg.hasObj (bytes "x") .string ∧
      msg.hasObj (bytes "y") .string then
    spawn double game msg
  else some game

end Callbacks

inductive Action
  | read (fd : Nat) (msg : JsonObject)
  | disconnect (fd : Nat)
  /-- `stale` is what lies behind the terminators of strings at that time. -/
  | tick (stale : Bytes → UInt8)

def step {R : Type} (double : Arithmetic R) (game : Game R) : Action → Option (Game R)
  | .read fd msg => onRead double game fd msg
  | .disconnect fd => onDisconnect game fd
  | .tick stale => tick double stale game

/-- Exact numbers with four decimals, or no number; the sine and the cosine of
small angles. -/
def fixedPoint : Arithmetic (Option Int) where
  literal digits places := some (digits * 10 ^ (4 - places))
  quietNaN := none
  isnan := Option.isNone
  neg := Option.map fun number => -number
  add := Option.map₂ fun first second => first + second
  sub := Option.map₂ fun first second => first - second
  mul := Option.map₂ fun first second => first * second / 10000
  lt first second := (Option.map₂ (fun first second => decide (first < second)) first second).getD
    false
  le first second := (Option.map₂ (fun first second => decide (first ≤ second)) first second).getD
    false
  abs := Option.map fun number => number.natAbs
  cos := Option.map fun _ => 10000
  sin := id
  stod text :=
    if text ≠ [] ∧ text.all fun byte => ch '0' ≤ byte ∧ byte ≤ ch '9' then
      some (some (text.foldl (fun number byte => 10 * number + (byte - ch '0').toNat) 0 * 10000))
    else none
  toString number :=
    match number with
    | none => bytes "nan"
    | some number =>
        (if number < 0 then bytes "-" else []) ++ HttpApi.toString (number.natAbs / 10000) ++
          bytes "." ++ HttpApi.toString (number.natAbs % 10000)

/-- A message with these strings. -/
def messageOf (members : List (String × String)) : JsonObject :=
  ⟨.object, [], members.map fun (key, text) => (bytes key, .ofString (bytes text)), []⟩

end Tanks

end Jph2

end Libjaypea
