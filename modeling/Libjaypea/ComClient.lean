import Libjaypea.ComdSession
import Libjaypea.TcpEventClient

/-!
# The com client

The `main` of `com.cpp`: what it does with the messages of `comd` and with its
standard input.  A client has one connection, which is never opened again, and
`comd` accepts it when it has none; each side's messages reach the other in
order, or not at all once either side has closed.
-/

namespace Libjaypea

namespace Com

open Comd (ComdState ComdRoutine Server Calls Event identity routines)
open EventClient (ConnectionState)

structure Client where
  connection : ConnectionState
  state : ComdState
  routine : ComdRoutine
  /-- `on_event_loop` is set. -/
  reading : Bool
  /-- What is printed of the messages, the oldest first. -/
  printed : List Bytes

def Client.start (routine : ComdRoutine) : Client :=
  ⟨.connecting, .verifyIdentity, routine, false, []⟩

/-- What `on_read` returns, and the message that it sends. -/
structure Reply where
  result : Int
  client : Client
  sent : List Bytes

def Client.onRead (client : Client) (sendFails : Bool) (data : Bytes) : Reply :=
  let shown := { client with printed := client.printed ++ [cString data] }
  match client.state with
  | .verifyIdentity =>
      if sendFails then ⟨-1, shown, []⟩
      else ⟨data.length, { shown with state := .selectRoutine }, [routines client.routine]⟩
  | .selectRoutine =>
      ⟨data.length, { shown with
        reading := client.reading || client.routine = .shell
        state := .exchangePackets }, []⟩
  | .exchangePackets => ⟨data.length, shown, []⟩

/-- The end of the connection at `comd`. -/
inductive Link
  | waiting
  | accepted (fd : Int)
  | over
  deriving DecidableEq

/-- A client and the server, and the messages that are on their way. -/
structure Dialogue where
  com : Client
  comd : Server
  link : Link
  toComd : List Bytes
  toCom : List Bytes
  /-- All that `com` has sent, the oldest first, as in the lists below. -/
  said : List Bytes
  /-- What was read from the standard input and sent, as far as its first zero byte. -/
  typed : List Bytes
  /-- All that `on_read` of `comd` was called with. -/
  heard : List Bytes
  /-- All that `comd` has sent. -/
  replied : List Bytes
  /-- What was read from the shell and sent. -/
  output : List Bytes
  /-- What the shell's input took of each message. -/
  written : List Bytes

def Dialogue.start (routine : ComdRoutine) (comd : Server) : Dialogue :=
  ⟨.start routine, comd, .waiting, [], [], [], [], [], [], [], []⟩

/-- What the server has logged in between, the oldest first. -/
def newEvents (server next : Server) : List Event :=
  (next.log.take (next.log.length - server.log.length)).reverse

def repliesIn (events : List Event) : List Bytes :=
  events.filterMap fun event =>
    match event with
    | .replied _ reply false => some reply
    | _ => none

def writtenIn (events : List Event) : List Bytes :=
  events.filterMap fun event =>
    match event with
    | .written _ data => some data
    | _ => none

inductive Action
  /-- `connect` succeeds, and `on_connect` sends the identity. -/
  | connect (sendFails : Bool)
  /-- The first message on its way is read. -/
  | comReads (sendFails : Bool)
  /-- The standard input has data when the event loop looks. -/
  | comTypes (data : Bytes) (sendFails : Bool)
  /-- The connection has ended, or the standard input has. -/
  | comCloses
  | accept (fd : Int) (added : Bool)
  | comdReads (calls : Calls)
  | comdCloses
  /-- The loop in the `main` of `comd` goes round. -/
  | forward (output : Comd.Output)

namespace Dialogue

variable (dialogue : Dialogue)

def say (messages : List Bytes) : Dialogue :=
  { dialogue with
    toComd := dialogue.toComd ++ messages
    said := dialogue.said ++ messages }

def connect (sendFails : Bool) : Option Dialogue :=
  if dialogue.com.connection = .connecting then
    if sendFails then some { dialogue with com := { dialogue.com with connection := .dead } }
    else
      some { dialogue.say [identity] with
        com := { dialogue.com with connection := .connected } }
  else none

def comReads (sendFails : Bool) : Option Dialogue :=
  match dialogue.toCom with
  | [] => none
  | data :: rest =>
      if dialogue.com.connection = .connected then
        let reply := dialogue.com.onRead sendFails data
        some { dialogue.say reply.sent with
          toCom := rest
          com :=
            if reply.result < 0 then { reply.client with connection := .dead }
            else reply.client }
      else none

def comTypes (data : Bytes) (sendFails : Bool) : Option Dialogue :=
  if dialogue.com.connection = .connected ∧ dialogue.com.reading ∧ data ≠ [] then
    if sendFails then some { dialogue with com := { dialogue.com with connection := .dead } }
    else some { dialogue.say [cString data] with typed := dialogue.typed ++ [data] }
  else none

def comCloses : Option Dialogue :=
  if dialogue.com.connection = .connected then
    some { dialogue with com := { dialogue.com with connection := .dead } }
  else none

def accept (fd : Int) (added : Bool) : Option Dialogue :=
  if dialogue.link = .waiting then
    (Comd.step dialogue.comd (.accept fd added)).map fun next =>
      { dialogue with
        comd := next
        link := if added then .accepted fd else .over }
  else none

/-- The events of the server are told to the lists, and a closed connection is over. -/
def served (fd : Int) (next : Server) : Dialogue :=
  let events := newEvents dialogue.comd next
  { dialogue with
    comd := next
    link := if fd ∈ next.clients then .accepted fd else .over
    toCom := dialogue.toCom ++ repliesIn events
    replied := dialogue.replied ++ repliesIn events
    written := dialogue.written ++ writtenIn events }

def comdReads (calls : Calls) : Option Dialogue :=
  match dialogue.link, dialogue.toComd with
  | .accepted fd, data :: rest =>
      (Comd.step dialogue.comd (.message fd data calls)).map fun next =>
        { dialogue.served fd next with
          toComd := rest
          heard := dialogue.heard ++ [data] }
  | _, _ => none

def comdCloses : Option Dialogue :=
  match dialogue.link with
  | .accepted fd =>
      (Comd.step dialogue.comd (.disconnect fd)).map (dialogue.served fd)
  | _ => none

/-- What the shell puts out is sent to `shell_client_fd`, whoever that is.  What
`send` leaves out behind a zero byte would not be printed either. -/
def forward (output : Comd.Output) : Option Dialogue :=
  (Comd.step dialogue.comd (.forward output)).map fun next =>
    match output with
    | .received data false =>
        if dialogue.comd.shell.opened ∧ dialogue.link = .accepted dialogue.comd.shellClientFd then
          { dialogue with
            comd := next
            toCom := dialogue.toCom ++ [data]
            replied := dialogue.replied ++ [data]
            output := dialogue.output ++ [data] }
        else { dialogue with comd := next }
    | _ => { dialogue with comd := next }

def step : Action → Option Dialogue
  | .connect sendFails => dialogue.connect sendFails
  | .comReads sendFails => dialogue.comReads sendFails
  | .comTypes data sendFails => dialogue.comTypes data sendFails
  | .comCloses => dialogue.comCloses
  | .accept fd added => dialogue.accept fd added
  | .comdReads calls => dialogue.comdReads calls
  | .comdCloses => dialogue.comdCloses
  | .forward output => dialogue.forward output

end Dialogue

end Com

end Libjaypea
