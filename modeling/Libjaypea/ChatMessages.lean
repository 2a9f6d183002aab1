import Libjaypea.HiddenLeaks
import Libjaypea.Splinters
import Libjaypea.StringSearch
import Libjaypea.Transitions

/-!
# The chat of jph2

`chat_msg` takes `iframe` out of a message and goes on searching where it was
found, so that an `iframe` that the removal itself puts together is left in the
text.  The two routes post a message under the name of a user or under a handle
that no user has.
-/

namespace Libjaypea

namespace Jph2

open Fuelled Replacement Transitions
open Sql (Row Server)

/-- What `chat_msg` is passed. -/
structure ChatMessage where
  color : Option Bytes
  handle : Bytes
  message : Bytes

structure Chat where
  /-- The newest message comes first. -/
  chatMessages : List ChatMessage
  clientLastMessage : KeyedList Bytes Bytes

namespace Chat

def empty : Chat :=
  ⟨[], []⟩

/-- `{"error":…}`. -/
def errorText (message : Bytes) : Bytes :=
  bytes "\x7b\"error\":\"" ++ message ++ bytes "\"\x7d"

def sentStatus : Bytes :=
  bytes "\x7b\"status\":\"Sent.\"\x7d"

/-- The loop at the start of `chat_msg`: what is left of the message. -/
def withoutIframes : Nat → Bytes → Nat → Option Bytes
  | 0, _, _ => none
  | fuel + 1, message, index =>
      match Util.findFrom message (bytes "iframe") index with
      | none => some message
      | some index =>
          withoutIframes fuel (message.take index ++ message.drop (index + 6)) index

/-- The message becomes the newest one, and the last of its handle. -/
def push (chat : Chat) (msg : ChatMessage) : Chat :=
  let chatMessages := msg :: chat.chatMessages
  { chatMessages := if chatMessages.length > 100 then chatMessages.dropLast else chatMessages
    clientLastMessage := KeyedList.set chat.clientLastMessage msg.handle msg.message }

def chatMsg (chat : Chat) (msg : ChatMessage) (fuel : Nat) : Option (Bytes × Chat) :=
  (withoutIframes fuel msg.message 0).map fun message =>
    if message.length < 2 then
      (errorText (bytes "Message too short."), chat)
    else if message.length > 256 then
      (errorText (bytes "Message too long."), chat)
    else if KeyedList.get? chat.clientLastMessage msg.handle = some message then
      (errorText (bytes "Do not send the same message."), chat)
    else
      (sentStatus, chat.push { msg with message := message })

/-- An answer is `none` where a member is missing, for which `GetStr` throws. -/
def createAuthenticatedChat (chat : Chat) (json token : JsonObject) (fuel : Nat) :
    Option (Option Bytes × Chat) :=
  match token.getStr (bytes "color"), token.getStr (bytes "username"),
      json.getStr (bytes "message") with
  | some color, some handle, some message =>
      (chat.chatMsg ⟨some color, handle, message⟩ fuel).map fun (answer, chat) =>
        (some answer, chat)
  | _, _, _ => some (none, chat)

def createChat (server : Server) (rows : List Row) (chat : Chat) (json : JsonObject)
    (fuel : Nat) : Option (Option Bytes × Chat) :=
  match json.getStr (bytes "handle") with
  | none => some (none, chat)
  | some handle =>
      let users := PgSqlModel.users.where_ server rows (bytes "username") handle
      if users.arrayValues.length > 0 then
        some (some (errorText
          (bytes "That's an existing username. Please login as that user.")), chat)
      else if handle.length < 5 then
        some (some (errorText (bytes "Handle too short.")), chat)
      else if handle.length > 32 then
        some (some (errorText (bytes "Handle too long.")), chat)
      else
        match json.getStr (bytes "message") with
        | none => some (none, chat)
        | some message =>
            (chat.chatMsg ⟨none, handle, message⟩ fuel).map fun (answer, chat) =>
              (some answer, chat)

end Chat

inductive ChatRoute
  /-- `POST /user/chat`, with a token. -/
  | user
  /-- `POST /chat`. -/
  | guest

/-- A request on a route, and the users that the server knows. -/
structure ChatRequest where
  route : ChatRoute
  json : JsonObject
  token : JsonObject
  server : Server
  users : List Row

namespace Chat

def post (chat : Chat) (request : ChatRequest) (fuel : Nat) : Option (Option Bytes × Chat) :=
  match request.route with
  | .user => chat.createAuthenticatedChat request.json request.token fuel
  | .guest => chat.createChat request.server request.users request.json fuel

/-- No message has an `iframe`. -/
def Clean (chat : Chat) : Prop :=
  ∀ msg ∈ chat.chatMessages, ¬ bytes "iframe" <:+: msg.message

/-- The text of a message without the occurrences of `iframe` in it. -/
def stripped (text : Bytes) : Bytes :=
  replaced (bytes "iframe") [] text

theorem withoutIframes_eq (fuel : Nat) (message : Bytes) (index : Nat) :
    withoutIframes fuel message index =
      Util.replaceAllFrom (bytes "iframe") [] fuel message index := by
  induction fuel generalizing message index with
  | zero => rfl
  | succ fuel ih =>
      rw [withoutIframes, Util.replaceAllFrom]
      cases Util.findFrom message (bytes "iframe") index with
      | none => rfl
      | some index => simp [ih, bytes]

theorem withoutIframes_converges (message : Bytes) :
    Converges (fun fuel => withoutIframes fuel message 0) (stripped message) := by
  have converges := Util.replaceAll_converges (show bytes "iframe" ≠ [] by decide) message []
  obtain ⟨fuel, answer⟩ := converges
  exact ⟨fuel, (withoutIframes_eq fuel message 0).trans answer⟩

theorem eq_of_withoutIframes {fuel : Nat} {message left : Bytes}
    (answer : withoutIframes fuel message 0 = some left) : left = stripped message := by
  rw [withoutIframes_eq] at answer
  exact (Util.replaceAll_stable message (bytes "iframe") []).unique ⟨fuel, answer⟩
    (Util.replaceAll_converges (by decide) message [])

/-- A message is stored as it is left, or not at all. -/
theorem chatMsg_cases {chat next : Chat} {msg : ChatMessage} {fuel : Nat} {answer : Bytes}
    (posted : chat.chatMsg msg fuel = some (answer, next)) :
    next = chat ∨
      2 ≤ (stripped msg.message).length ∧ (stripped msg.message).length ≤ 256 ∧
        next = chat.push { msg with message := stripped msg.message } := by
  obtain ⟨left, stripping, result⟩ := Option.map_eq_some_iff.mp posted
  rw [eq_of_withoutIframes stripping] at result
  split at result
  · exact .inl (Prod.mk.inj result).2.symm
  · split at result
    · exact .inl (Prod.mk.inj result).2.symm
    · split at result
      · exact .inl (Prod.mk.inj result).2.symm
      · exact .inr ⟨by omega, by omega, (Prod.mk.inj result).2.symm⟩

/-- What a request may do: store the text that is left of its message. -/
def Stores (chat next : Chat) (text : Bytes) : Prop :=
  2 ≤ (stripped text).length ∧ (stripped text).length ≤ 256 ∧
    ∃ color handle, next = chat.push ⟨color, handle, stripped text⟩

theorem createAuthenticatedChat_cases {chat next : Chat} {json token : JsonObject} {fuel : Nat}
    {answer : Option Bytes}
    (posted : chat.createAuthenticatedChat json token fuel = some (answer, next)) :
    next = chat ∨ ∃ text, json.getStr (bytes "message") = some text ∧ chat.Stores next text := by
  unfold createAuthenticatedChat at posted
  split at posted
  · rename_i color handle text _ _ found
    obtain ⟨⟨sent, left⟩, message, same⟩ := Option.map_eq_some_iff.mp posted
    cases same
    refine (chatMsg_cases message).imp_right ?_
    rintro ⟨long, short, pushed⟩
    exact ⟨text, found, long, short, some color, handle, pushed⟩
  · cases posted
    exact .inl rfl

theorem createChat_cases {chat next : Chat} {server : Server} {users : List Row}
    {json : JsonObject} {fuel : Nat} {answer : Option Bytes}
    (posted : chat.createChat server users json fuel = some (answer, next)) :
    next = chat ∨ ∃ text, json.getStr (bytes "message") = some text ∧ chat.Stores next text := by
  unfold createChat at posted
  split at posted
  · cases posted
    exact .inl rfl
  · rename_i handle _
    -- The checks of the handle refuse without a change.
    dsimp only at posted
    split_ifs at posted
    · cases posted
      exact .inl rfl
    · cases posted
      exact .inl rfl
    · cases posted
      exact .inl rfl
    split at posted
    · cases posted
      exact .inl rfl
    · rename_i text found
      obtain ⟨⟨sent, left⟩, message, same⟩ := Option.map_eq_some_iff.mp posted
      cases same
      refine (chatMsg_cases message).imp_right ?_
      rintro ⟨long, short, pushed⟩
      exact ⟨text, found, long, short, none, handle, pushed⟩

theorem post_cases {chat next : Chat} {request : ChatRequest} {fuel : Nat} {answer : Option Bytes}
    (posted : chat.post request fuel = some (answer, next)) :
    next = chat ∨ ∃ text, request.json.getStr (bytes "message") = some text ∧
      chat.Stores next text := by
  unfold post at posted
  split at posted
  · exact createAuthenticatedChat_cases posted
  · exact createChat_cases posted

theorem push_message_mem {chat : Chat} {msg other : ChatMessage}
    (member : other ∈ (chat.push msg).chatMessages) : other = msg ∨ other ∈ chat.chatMessages := by
  rw [← List.mem_cons]
  simp only [push] at member
  split at member
  · exact List.mem_of_mem_dropLast member
  · exact member

theorem mem_push (chat : Chat) (msg : ChatMessage) : msg ∈ (chat.push msg).chatMessages := by
  simp only [push]
  split
  · rename_i full
    have others : chat.chatMessages ≠ [] := by
      rintro none
      rw [none] at full
      contradiction
    rw [List.dropLast_cons_of_ne_nil others]
    exact List.mem_cons_self
  · exact List.mem_cons_self

/-- No `iframe` is left of a text, or so much of it that it is too long. -/
def Harmless (text : Bytes) : Prop :=
  ¬ Splintered (ch 'i') (bytes "fram") (ch 'e') text ∨
    256 + 6 * occurrences (bytes "iframe") text < text.length

theorem harmless_text_iff (text : Bytes) :
    Harmless text ↔ (bytes "iframe" <:+: stripped text → 256 < (stripped text).length) := by
  have once : ch 'i' ∉ bytes "fram" ++ [ch 'e'] := by decide
  have left : bytes "iframe" <:+: stripped text ↔
      Splintered (ch 'i') (bytes "fram") (ch 'e') text := infix_removed_iff once text
  have length : (stripped text).length + 6 * occurrences (bytes "iframe") text = text.length :=
    length_removed once text
  rw [left, Harmless, imp_iff_not_or]
  apply or_congr Iff.rfl
  omega

theorem post_clean {chat next : Chat} {request : ChatRequest} {fuel : Nat} {answer : Option Bytes}
    (posted : chat.post request fuel = some (answer, next)) (clean : chat.Clean)
    (harmless : ∀ text, request.json.getStr (bytes "message") = some text → Harmless text) :
    next.Clean := by
  rcases post_cases posted with rfl | ⟨text, message, -, short, color, handle, rfl⟩
  · exact clean
  · intro msg member
    rcases push_message_mem member with rfl | old
    · intro inside
      have long := (harmless_text_iff text).mp (harmless text message) inside
      omega
    · exact clean msg old

/-- A message that is new for its handle and neither too short nor too long is
stored. -/
theorem chatMsg_stores {chat : Chat} {msg : ChatMessage}
    (long : 2 ≤ (stripped msg.message).length) (short : (stripped msg.message).length ≤ 256)
    (new : KeyedList.get? chat.clientLastMessage msg.handle ≠ some (stripped msg.message)) :
    Converges (chat.chatMsg msg)
      (sentStatus, chat.push { msg with message := stripped msg.message }) := by
  obtain ⟨fuel, stripping⟩ := withoutIframes_converges msg.message
  refine ⟨fuel, Option.map_eq_some_iff.mpr ⟨_, stripping, ?_⟩⟩
  rw [if_neg (by omega), if_neg (by omega), if_neg new]

end Chat

/-- An object with two members that are strings. -/
def pair (key value other second : Bytes) : JsonObject :=
  ((JsonObject.new .object).setMember key (.ofString value)).setMember other (.ofString second)

/-- A request with a text, of a user or of a guest with a name of his own. -/
def ChatRequest.ofText (route : ChatRoute) (text : Bytes) : ChatRequest where
  route := route
  json := pair (bytes "handle") (bytes "guest") (bytes "message") text
  token := pair (bytes "color") (bytes "red") (bytes "username") (bytes "alice")
  server := PgSqlModel.plain PgSqlModel.users
  users := []

namespace Chat

theorem no_guest : (PgSqlModel.users.where_ (PgSqlModel.plain PgSqlModel.users) []
    (bytes "username") (bytes "guest")).arrayValues.length = 0 := by
  decide +kernel

theorem post_ofText (route : ChatRoute) {text : Bytes} (long : 2 ≤ (stripped text).length)
    (short : (stripped text).length ≤ 256) :
    ∃ fuel color handle, empty.post (.ofText route text) fuel =
      some (some sentStatus, empty.push ⟨color, handle, stripped text⟩) := by
  have message : (ChatRequest.ofText route text).json.getStr (bytes "message") = some text := rfl
  have new (handle : Bytes) :
      KeyedList.get? empty.clientLastMessage handle ≠ some (stripped text) :=
    fun known => nomatch known
  cases route with
  | user =>
      have color : (ChatRequest.ofText .user text).token.getStr (bytes "color") =
          some (bytes "red") := rfl
      have username : (ChatRequest.ofText .user text).token.getStr (bytes "username") =
          some (bytes "alice") := rfl
      obtain ⟨fuel, sent⟩ := @chatMsg_stores empty ⟨some (bytes "red"), bytes "alice", text⟩
        long short (new _)
      refine ⟨fuel, some (bytes "red"), bytes "alice", ?_⟩
      simp only [post, ChatRequest.ofText] at color username message ⊢
      simp only [createAuthenticatedChat, color, username, message]
      exact Option.map_eq_some_iff.mpr ⟨_, sent, rfl⟩
  | guest =>
      have handle : (ChatRequest.ofText .guest text).json.getStr (bytes "handle") =
          some (bytes "guest") := rfl
      obtain ⟨fuel, sent⟩ := @chatMsg_stores empty ⟨none, bytes "guest", text⟩
        long short (new _)
      refine ⟨fuel, none, bytes "guest", ?_⟩
      simp only [post, ChatRequest.ofText] at handle message ⊢
      simp only [createChat, handle, message, no_guest]
      exact Option.map_eq_some_iff.mpr ⟨_, sent, rfl⟩

/-- By either route a chat without an `iframe` is kept so, whatever was posted
before, exactly when the text is harmless. -/
theorem post_keeps_clean_iff (route : ChatRoute) (text : Bytes) :
    (∀ (chat next : Chat) (request : ChatRequest) fuel answer, request.route = route →
        request.json.getStr (bytes "message") = some text →
        chat.post request fuel = some (answer, next) → chat.Clean → next.Clean) ↔
      Harmless text := by
  constructor
  · intro keeps
    rw [harmless_text_iff]
    intro inside
    by_contra short
    have long : 2 ≤ (stripped text).length := by
      have six := inside.length_le
      have length : (bytes "iframe").length = 6 := rfl
      omega
    obtain ⟨fuel, color, handle, posted⟩ := post_ofText route long (Nat.not_lt.mp short)
    have start : empty.Clean := List.forall_mem_nil _
    have clean := keeps empty _ _ fuel _ rfl rfl posted start
    exact clean ⟨color, handle, stripped text⟩ (mem_push _ _) inside
  · intro harmless chat next request fuel answer _ message posted clean
    apply post_clean posted clean
    intro other found
    cases message.symm.trans found
    exact harmless

/-- The removal of an `iframe` puts another one together. -/
theorem post_iframe :
    ((empty.post (.ofText .guest (bytes "iiframeframe")) 3).map fun posted =>
      posted.2.chatMessages.map ChatMessage.message) = some [bytes "iframe"] := by
  decide +kernel

/-- Every request is answered: the loop ends on every message. -/
theorem exists_post (chat : Chat) (request : ChatRequest) :
    ∃ fuel, (chat.post request fuel).isSome := by
  obtain ⟨fuel, stripping⟩ : ∃ fuel, ∀ text,
      request.json.getStr (bytes "message") = some text →
      (withoutIframes fuel text 0).isSome := by
    cases request.json.getStr (bytes "message") with
    | none => exact ⟨0, fun text found => nomatch found⟩
    | some message =>
        obtain ⟨fuel, answer⟩ := withoutIframes_converges message
        refine ⟨fuel, fun text found => ?_⟩
        cases found
        exact Option.isSome_of_eq_some answer
  have answers (msg : ChatMessage)
      (found : request.json.getStr (bytes "message") = some msg.message) :
      (chat.chatMsg msg fuel).isSome := by
    rw [chatMsg, Option.isSome_map]
    exact stripping msg.message found
  refine ⟨fuel, ?_⟩
  unfold post
  split
  · unfold createAuthenticatedChat
    split
    · rw [Option.isSome_map]
      exact answers _ ‹_›
    · rfl
  · unfold createChat
    split
    · rfl
    · dsimp only
      split_ifs
      · rfl
      · rfl
      · rfl
      · split
        · rfl
        · rw [Option.isSome_map]
          exact answers _ ‹_›

/-- The next chat after a request, with the fuel for its loop. -/
def serve (chat : Chat) (action : ChatRequest × Nat) : Option Chat :=
  (chat.post action.1 action.2).map Prod.snd

/-- The request has no message, or a harmless one. -/
def HarmlessRequest (_ : Chat) (action : ChatRequest × Nat) : Prop :=
  ∀ text, action.1.json.getStr (bytes "message") = some text → Harmless text

theorem length_push_le {chat : Chat} (few : chat.chatMessages.length ≤ 100) (msg : ChatMessage) :
    (chat.push msg).chatMessages.length ≤ 100 := by
  simp only [push]
  split
  · rw [List.length_dropLast, List.length_cons]
    omega
  · omega

theorem serve_cases {chat next : Chat} {action : ChatRequest × Nat}
    (served : chat.serve action = some next) :
    ∃ answer, chat.post action.1 action.2 = some (answer, next) := by
  obtain ⟨⟨answer, left⟩, posted, rfl⟩ := Option.map_eq_some_iff.mp served
  exact ⟨answer, posted⟩

/-- A chat keeps a hundred messages at most, whatever is posted. -/
theorem length_le_of_run {actions : List (ChatRequest × Nat)} {chat : Chat}
    (run : Run serve anything empty actions chat) : chat.chatMessages.length ≤ 100 := by
  have preserved : ∀ (first : Chat) action next, first.chatMessages.length ≤ 100 →
      anything first action → first.serve action = some next →
      next.chatMessages.length ≤ 100 := by
    intro first action next few _ served
    obtain ⟨answer, posted⟩ := serve_cases served
    rcases post_cases posted with rfl | ⟨text, -, -, -, color, handle, rfl⟩
    · exact few
    · exact length_push_le few _
  exact run.invariant preserved (Nat.zero_le 100)

/-- A chat to which only harmless texts are posted has no `iframe`. -/
theorem clean_of_run {actions : List (ChatRequest × Nat)} {chat : Chat}
    (run : Run serve HarmlessRequest empty actions chat) : chat.Clean := by
  have preserved : ∀ (first : Chat) action next, first.Clean → HarmlessRequest first action →
      first.serve action = some next → next.Clean := by
    intro first action next clean harmless served
    obtain ⟨answer, posted⟩ := serve_cases served
    exact post_clean posted clean harmless
  exact run.invariant preserved (List.forall_mem_nil _)

end Chat

end Jph2

end Libjaypea
