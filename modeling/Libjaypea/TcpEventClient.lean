import Libjaypea.CString
import Libjaypea.KeyedList
import Mathlib.Logic.Function.Basic

/-!
# The event client

`EventClient::run`: pass after pass, every connection that was added is visited
and moved on according to its state.  What the system calls and the callbacks
return is an input of each visit.  The loop ends when a pass has not set
`running`, when the counter of the living connections is used up, or when
`on_event_loop` says so.
-/

namespace Libjaypea

namespace EventClient

inductive ConnectionState
  | disconnected
  | connecting
  | connected
  | dead
  deriving DecidableEq, Repr

structure Connection where
  fd : Int
  hostname : Bytes
  state : ConnectionState
  serverAddress : UInt32

inductive Socket
  | opened (fd : Int)
  | emfile
  | failed

inductive Connect
  | connected
  /-- `EINPROGRESS` or `EALREADY`. -/
  | inProgress
  | failed

/-- What the calls return that are made while a connection is visited. -/
structure Results where
  socket : Socket
  gethostbyname : Option UInt32
  inetAddr : UInt32
  connect : Connect
  /-- False when there is no `on_connect`. -/
  onConnect : Bool
  recv : Int

inductive Control
  /-- In front of `while(running)`. -/
  | loop
  /-- In the loop over the connections, with those that are left. -/
  | visiting (rest : List Nat)
  /-- `stopped` tells that `on_event_loop` returned true. -/
  | returned (stopped : Bool)
  deriving DecidableEq, Repr

/-- Connections are behind pointers. -/
structure Client where
  connection : Nat → Connection
  connections : List Nat
  aliveConnections : Int32
  hostAddresses : List (Bytes × UInt32)
  running : Bool
  control : Control
  /-- The calls of `close_client`, the newest first. -/
  closed : List Nat

namespace Client

def state (client : Client) (pointer : Nat) : ConnectionState :=
  (client.connection pointer).state

def update (client : Client) (pointer : Nat) (change : Connection → Connection) : Client :=
  { client with
    connection := Function.update client.connection pointer (change (client.connection pointer)) }

def add (client : Client) (pointer : Nat) : Client :=
  { client with
    connections := client.connections ++ [pointer]
    aliveConnections := client.aliveConnections + 1 }

def closeClient (client : Client) (pointer : Nat) : Client :=
  { client.update pointer fun connection => { connection with state := .dead } with
    aliveConnections := client.aliveConnections - 1
    closed := pointer :: client.closed }

/-- The rest of the case `DISCONNECTED`, once the address is known. -/
def connecting (client : Client) (pointer : Nat) (address : UInt32) : Client :=
  { client.update pointer fun connection =>
      { connection with serverAddress := address, state := .connecting } with
    running := true }

def visitDisconnected (client : Client) (results : Results) (pointer : Nat) : Client :=
  match results.socket with
  | .emfile => client.update pointer fun connection => { connection with fd := -1 }
  | .failed =>
      (client.update pointer fun connection => { connection with fd := -1 }).closeClient pointer
  | .opened fd =>
      let opened := client.update pointer fun connection => { connection with fd := fd }
      let hostname := (client.connection pointer).hostname
      if hostname = [] then opened.connecting pointer results.inetAddr
      else
        match KeyedList.get? client.hostAddresses hostname with
        | some address => opened.connecting pointer address
        | none =>
            match results.gethostbyname with
            | none => opened.closeClient pointer
            | some address =>
                { opened with
                  hostAddresses := KeyedList.set client.hostAddresses hostname address }.connecting
                    pointer address

def visitConnecting (client : Client) (results : Results) (pointer : Nat) : Client :=
  match results.connect with
  | .failed => client.closeClient pointer
  | .inProgress => { client with running := true }
  | .connected =>
      let connected := client.update pointer fun connection => { connection with state := .connected }
      { if results.onConnect then connected.closeClient pointer else connected with
        running := true }

def visitConnected (client : Client) (results : Results) (pointer : Nat) : Client :=
  { if results.recv < 0 then client.closeClient pointer else client with running := true }

def visit (client : Client) (results : Results) (pointer : Nat) : Client :=
  match client.state pointer with
  | .disconnected => client.visitDisconnected results pointer
  | .connecting => client.visitConnecting results pointer
  | .connected => client.visitConnected results pointer
  | .dead => client

/-- A new `EventClient` as `run` finds it.  The constructor leaves the counter as
it is in memory. -/
def new (connection : Nat → Connection) (uninitialised : Int32) : Client where
  connection := connection
  connections := []
  aliveConnections := uninitialised
  hostAddresses := []
  running := true
  control := .loop
  closed := []

/-- `run` begins after these connections were added. -/
def start (connection : Nat → Connection) (uninitialised : Int32) (added : List Nat) : Client :=
  added.foldl add (new connection uninitialised)

end Client

inductive Action
  /-- `while(running)`, and what `on_event_loop` returns if it is there. -/
  | loop (stops : Bool)
  | visit (results : Results)
  /-- Behind the loop over the connections. -/
  | endPass

def step (client : Client) : Action → Option Client
  | .loop stops =>
      match client.control with
      | .loop =>
          if client.running then
            if stops then some { client with control := .returned true }
            else some { client with running := false, control := .visiting client.connections }
          else some { client with control := .returned false }
      | _ => none
  | .visit results =>
      match client.control with
      | .visiting (pointer :: rest) =>
          some { client.visit results pointer with control := .visiting rest }
      | _ => none
  | .endPass =>
      match client.control with
      | .visiting [] =>
          if client.aliveConnections ≤ 0 then some { client with control := .returned false }
          else some { client with control := .loop }
      | _ => none

end EventClient

end Libjaypea
