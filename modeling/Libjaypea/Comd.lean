import Libjaypea.CString
import Libjaypea.Transitions

/-!
# The comd server

The `main` of `comd.cpp`: the callbacks that it hands to its server, the loop
that it runs beside the server's thread, and the shell that both share.  The
protocol state is one variable for all connections, because the server admits
one connection at a time.
-/

namespace Libjaypea

namespace Comd

inductive ComdState
  | verifyIdentity
  | selectRoutine
  | exchangePackets
  deriving DecidableEq, Repr

inductive ComdRoutine
  | shell
  | sendFile
  | recvFile
  deriving DecidableEq, Repr

def identity : Bytes :=
  bytes "This is my example identification string."

def verified : Bytes :=
  bytes "Your identity has been verified."

def startRoutine : Bytes :=
  bytes "You are welcome to start the requested routine."

def badRoutine : Bytes :=
  bytes "You have requested an invalid routine!"

def routines : ComdRoutine → Bytes
  | .shell => bytes "I would like to use the shell please."
  | .sendFile => bytes "I would like to send a file please."
  | .recvFile => bytes "I would like to receive a file please."

structure Shell where
  opened : Bool
  pid : Int
  input : Int
  output : Int

/-- The results of the system calls in `sopen`: a pipe is its two ends. -/
structure Opening where
  toShell : Option (Int × Int)
  fromShell : Option (Int × Int)
  /-- Zero in the child, which goes on here only when `execl` has failed. -/
  fork : Int

namespace Shell

/-- The boolean is the one `sopen` returns: true for an error. -/
def sopen (shell : Shell) (opening : Opening) : Bool × Shell :=
  if shell.opened then (false, shell)
  else
    match opening.toShell, opening.fromShell with
    | none, _ => (true, shell)
    | some _, none => (true, shell)
    | some toShell, some fromShell =>
        if opening.fork ≤ 0 then (true, { shell with pid := opening.fork })
        else (false, ⟨true, opening.fork, toShell.2, fromShell.1⟩)

/-- The results of `kill` and `close` are only printed. -/
def sclose (shell : Shell) : Shell :=
  if shell.opened then { shell with opened := false } else shell

end Shell

inductive Event
  | connected (fd : Int)
  | received (fd : Int) (message : Bytes)
  | replied (fd : Int) (reply : Bytes) (failed : Bool)
  /-- While a message of this connection is handled, the shell's input takes the data. -/
  | written (fd : Int) (data : Bytes)
  | disconnected (fd : Int)
  deriving DecidableEq, Repr

structure Server where
  state : ComdState
  routine : ComdRoutine
  shellClientFd : Int
  shell : Shell
  numConnections : UInt64
  /-- The connections that are open. -/
  clients : List Int
  /-- The newest event comes first. -/
  log : List Event

/-- The results of the system calls while a message is handled. -/
structure Calls where
  sendFails : Bool
  opening : Opening
  /-- The loop in `main` closes the shell between `sopen` and `write`. -/
  interrupted : Bool
  /-- The number of bytes `write` takes, `none` for an error. -/
  write : Option Nat

/-- The argument of `SymmetricEpollServer` in `main`. -/
def maxConnections : UInt64 :=
  1

namespace Server

/-- The variables that `main` leaves unset have any value. -/
def start (shellClientFd pid input output : Int) : Server where
  state := .verifyIdentity
  routine := .shell
  shellClientFd := shellClientFd
  shell := ⟨false, pid, input, output⟩
  numConnections := 0
  clients := []
  log := []

def record (server : Server) (event : Event) : Server :=
  { server with log := event :: server.log }

def onConnect (server : Server) (fd : Int) : Server :=
  { server.record (.connected fd) with state := .verifyIdentity }

def onDisconnect (server : Server) (fd : Int) : Server :=
  { server.record (.disconnected fd) with shell := server.shell.sclose }

/-- `server.send`, which returns true for an error. -/
def send (server : Server) (calls : Calls) (fd : Int) (reply : Bytes) : Bool × Server :=
  (calls.sendFails, server.record (.replied fd reply calls.sendFails))

def verifyIdentity (server : Server) (calls : Calls) (fd : Int) (data : Bytes) : Int × Server :=
  if cString data ≠ identity then (-1, server)
  else
    let (failed, sent) := server.send calls fd verified
    if failed then (-1, sent)
    else (data.length, { sent with state := .selectRoutine })

def selectRoutine (server : Server) (calls : Calls) (fd : Int) (data : Bytes) : Int × Server :=
  if cString data = routines .shell then
    let (failed, sent) := server.send calls fd startRoutine
    if failed then (-1, sent)
    else (data.length,
      { sent with shellClientFd := fd, routine := .shell, state := .exchangePackets })
  else if cString data = routines .sendFile then (-1, (server.send calls fd badRoutine).2)
  else if cString data = routines .recvFile then (-1, (server.send calls fd badRoutine).2)
  else (-1, (server.send calls fd badRoutine).2)

def exchangePackets (server : Server) (calls : Calls) (fd : Int) (data : Bytes) : Int × Server :=
  match server.routine with
  | .shell =>
      let (failed, shell) := server.shell.sopen calls.opening
      if failed then (-1, { server with shell := shell })
      else
        let shell := if calls.interrupted then shell.sclose else shell
        match calls.write with
        | none => (-1, { server with shell := shell })
        | some taken =>
            (data.length, { server.record (.written fd (data.take taken)) with shell := shell })
  | .sendFile => (-1, server)
  | .recvFile => (-1, server)

def onRead (server : Server) (calls : Calls) (fd : Int) (data : Bytes) : Int × Server :=
  let received := server.record (.received fd data)
  match server.state with
  | .verifyIdentity => received.verifyIdentity calls fd data
  | .selectRoutine => received.selectRoutine calls fd data
  | .exchangePackets => received.exchangePackets calls fd data

/-- `close_client` with the callback of the server's thread. -/
def closeClient (server : Server) (fd : Int) : Server :=
  { server.onDisconnect fd with
    numConnections := server.numConnections - 1
    clients := server.clients.erase fd }

end Server

/-- What `read` on the shell's output returns in the loop of `main`. -/
inductive Output
  | failed
  | received (data : Bytes) (sendFails : Bool)

inductive Action
  /-- `accept` returns a connection, which `epoll_ctl` may refuse. -/
  | accept (fd : Int) (added : Bool)
  | message (fd : Int) (data : Bytes) (calls : Calls)
  /-- The connection is closed after a timeout, an error or a failed read. -/
  | disconnect (fd : Int)
  /-- The loop in `main` goes round. -/
  | forward (output : Output)

def step (server : Server) : Action → Option Server
  | .accept fd added =>
      if server.numConnections < maxConnections ∧ fd ∉ server.clients then
        if added then
          some { server.onConnect fd with
            numConnections := server.numConnections + 1
            clients := fd :: server.clients }
        else some server
      else none
  | .message fd data calls =>
      if fd ∈ server.clients then
        let (result, next) := server.onRead calls fd data
        if result < 0 then some (next.closeClient fd) else some next
      else none
  | .disconnect fd =>
      if fd ∈ server.clients then some (server.closeClient fd) else none
  | .forward output =>
      if server.shell.opened then
        match output with
        | .failed => some { server with shell := server.shell.sclose }
        | .received _ sendFails =>
            some { server with
              shell := if sendFails then server.shell.sclose else server.shell }
      else some server

end Comd

end Libjaypea
