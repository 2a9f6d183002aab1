import Libjaypea.HttpRequest

/-!
# The websocket layer

`Websocket::recv` answers the handshake, and afterwards takes every read for
one frame: the payload is unmasked, its first bytes decide whether the
connection is closed, and otherwise it is handed to `on_read`.  The opcode is
not looked at, and nothing of a read is kept for the next one.
-/

namespace Libjaypea

namespace Websocket

/-- The length of the payload and the offset behind it.  The data lies at
address one; `char` is signed. -/
def lengthField (data : Memory) : Nat × Nat :=
  let len := (data 2 &&& 0x7F).toNat
  if len = 126 then ((data 3).toNat + 256 * (data 4).toNat, 4)
  else if len = 127 then
    (((charToInt (data 3) + 256 * charToInt (data 4)) % 2 ^ 64).toNat, 10)
  else (len, 2)

def parseFrame (data : Memory) (dataLength : Nat) : Bytes :=
  let (payloadLength, maskOffset) := lengthField data
  let isMasked := data 2 &&& 0x80 ≠ 0
  let mask := fun i => if isMasked then data (1 + maskOffset + i) else 0
  let offset := if isMasked then maskOffset + 4 else maskOffset
  (List.range (min payloadLength (dataLength - offset))).map fun i =>
    data (1 + offset + i) ^^^ mask (i % 4)

/-- `message[0] == 3 && message[1] == -23`. -/
def isDisconnect (message : Bytes) : Bool :=
  message[0]?.getD 0 = 3 ∧ message[1]?.getD 0 = 0xE9

/-- What is done with a message: the call of `on_read`, and the returned value. -/
def receive (onRead : Bytes → Int) (message : Bytes) : Option Bytes × Int :=
  if isDisconnect message then (none, -1)
  else if message = bytes "ping" then (none, (bytes "pong").length)
  else (some message, onRead message)

/-- `acceptHash` is the Base64 text of the SHA-1 hash. -/
def getHandshakeResponse (acceptHash : Bytes → Bytes) (key : Bytes) : Bytes :=
  bytes "HTTP/1.1 101 Switching Protocols\r\nUpgrade: websocket\r\nConnection: Upgrade\r\n" ++
    bytes "Sec-WebSocket-Accept: " ++
    acceptHash (key ++ bytes "258EAFA5-E914-47DA-95CA-C5AB0DC85B11") ++ bytes "\r\n\r\n"

structure Received where
  /-- The message that `on_read` is called with. -/
  call : Option Bytes
  result : Int
  clientHandshakeComplete : Bool
  /-- The response to a handshake. -/
  sent : Option Bytes

/-- `sendFails` is what `EpollServer::send` returns. -/
def recv (onRead : Bytes → Int) (acceptHash : Bytes → Bytes) (sendFails : Bool)
    (clientHandshakeComplete : Bool) (data : Memory) (dataLength : Nat) (heap : Nat → Memory)
    (fuel : Nat) : Option Received :=
  if clientHandshakeComplete then
    let (call, result) := receive onRead (parseFrame data dataLength)
    some ⟨call, result, true, none⟩
  else
    (parseHttpRequest data heap 1 (.new .object) fuel).map fun parsed =>
      match parsed.2.getStr (bytes "Sec-WebSocket-Key") with
      | none => ⟨none, -1, false, none⟩
      | some key =>
          if !parsed.2.hasObj (bytes "Sec-WebSocket-Key") .string then ⟨none, -1, false, none⟩
          else
            let response := getHandshakeResponse acceptHash key
            if sendFails then ⟨none, -1, false, some response⟩
            else ⟨none, 1, true, some response⟩

/-- The bytes of one read, and the memory behind them in the buffer. -/
structure Packet where
  data : Bytes
  stale : Memory

def Packet.message (packet : Packet) : Bytes :=
  parseFrame (Memory.ofString packet.stale packet.data) packet.data.length

/-- The calls of `on_read` over the reads of a connection, and whether the
websocket layer told to close it; a negative value of either ends the
connection. -/
def session (onRead : Bytes → Int) : List Packet → List Bytes × Bool
  | [] => ([], false)
  | packet :: rest =>
      match receive onRead packet.message with
      | (none, result) => if result < 0 then ([], true) else session onRead rest
      | (some message, result) =>
          if result < 0 then ([message], false)
          else (message :: (session onRead rest).1, (session onRead rest).2)

section Session

variable {onRead : Bytes → Int} {packet : Packet}

theorem session_of_disconnect (packets : List Packet)
    (disconnect : isDisconnect packet.message = true) :
    session onRead (packet :: packets) = ([], true) := by
  simp [session, receive, disconnect]

theorem session_of_ping (packets : List Packet) (ping : packet.message = bytes "ping") :
    session onRead (packet :: packets) = session onRead packets := by
  have answer : receive onRead (bytes "ping") = (none, 4) := rfl
  have positive : ¬ (4 : Int) < 0 := by decide
  simp only [session, ping, answer, if_neg positive]

theorem session_of_message (packets : List Packet)
    (ordinary : isDisconnect packet.message = false) :
    session onRead (packet :: packets) =
      if packet.message = bytes "ping" then session onRead packets
      else if onRead packet.message < 0 then ([packet.message], false)
      else (packet.message :: (session onRead packets).1, (session onRead packets).2) := by
  by_cases ping : packet.message = bytes "ping"
  · rw [if_pos ping]
    exact session_of_ping packets ping
  · simp [session, receive, ordinary, ping]

end Session

end Websocket

end Libjaypea
