import Libjaypea.ChatMessages
import Libjaypea.MessageBoard
import Libjaypea.NewestWrites

/-!
# What the chat of jph2 keeps

The messages that were sent are kept, the newest hundred of them, and for each
handle its last one: a handle cannot send the same message twice in a row.
`read_chat` lists the messages that are kept.
-/

namespace Libjaypea

namespace Jph2

open Fuelled Transitions

/-- A message as `read_chat` lists it. -/
def ChatMessage.listed (msg : ChatMessage) : JsonObject where
  type := .object
  stringValue := []
  objectValues :=
    (msg.color.toList.map fun color => (bytes "color", JsonObject.ofString color)) ++
      [(bytes "handle", .ofString msg.handle), (bytes "message", .ofString msg.message)]
  arrayValues := []

/-- The response of `read_chat`, whose text it answers. -/
def listing (messages : List ChatMessage) : JsonObject :=
  (JsonObject.new .object).setMember (bytes "messages")
    ⟨.array, [], [], messages.map ChatMessage.listed⟩

namespace Chat

/-- What `read_chat` may answer: the members of an object are written in any order. -/
def Lists (chat : Chat) (text : Bytes) : Prop :=
  ∃ ordered, (listing chat.chatMessages).Same ordered ∧ text = ordered.stringify false 0

/-- A message that `chat_msg` lets pass. -/
structure Sendable (chat : Chat) (msg : ChatMessage) : Prop where
  long : 2 ≤ msg.message.length
  short : msg.message.length ≤ 256
  new : KeyedList.get? chat.clientLastMessage msg.handle ≠ some msg.message

/-- For the text of a request and its answer: either the request is refused and
nothing changes, or what is left of the text is sent. -/
inductive Outcome (chat : Chat) : Option Bytes → Option Bytes → Chat → Prop
  | refused {text answer : Option Bytes} (unsent : answer ≠ some sentStatus) :
      Outcome chat text answer chat
  | sent {text : Bytes} {color : Option Bytes} {handle : Bytes}
      (sendable : chat.Sendable ⟨color, handle, stripped text⟩) :
      Outcome chat (some text) (some sentStatus) (chat.push ⟨color, handle, stripped text⟩)

section Outcome

variable {chat next : Chat} {fuel : Nat}

theorem errorText_ne_sentStatus (message : Bytes) : some (errorText message) ≠ some sentStatus := by
  intro same
  have letters : (errorText message)[2]? = sentStatus[2]? := by
    rw [Option.some_inj.mp same]
  have second : (errorText message)[2]? = some (ch 'e') := rfl
  rw [second] at letters
  exact absurd letters (by decide)

theorem outcome_of_chatMsg {msg : ChatMessage} {answer : Bytes}
    (posted : chat.chatMsg msg fuel = some (answer, next)) :
    Outcome chat (some msg.message) (some answer) next := by
  obtain ⟨left, stripping, result⟩ := Option.map_eq_some_iff.mp posted
  rw [eq_of_withoutIframes stripping] at result
  split_ifs at result with short long same
  · cases result
    exact .refused (errorText_ne_sentStatus _)
  · cases result
    exact .refused (errorText_ne_sentStatus _)
  · cases result
    exact .refused (errorText_ne_sentStatus _)
  · cases result
    exact .sent ⟨Nat.not_lt.mp short, Nat.not_lt.mp long, same⟩

theorem refused_none {text : Option Bytes} : Outcome chat text none chat :=
  .refused (Option.some_ne_none sentStatus).symm

theorem outcome_of_post {request : ChatRequest} {answer : Option Bytes}
    (posted : chat.post request fuel = some (answer, next)) :
    Outcome chat (request.json.getStr (bytes "message")) answer next := by
  unfold post at posted
  split at posted
  · unfold createAuthenticatedChat at posted
    split at posted
    · rename_i color handle text _ _ found
      obtain ⟨⟨sent, left⟩, message, same⟩ := Option.map_eq_some_iff.mp posted
      cases same
      rw [found]
      exact outcome_of_chatMsg message
    · cases posted
      exact refused_none
  · unfold createChat at posted
    split at posted
    · cases posted
      exact refused_none
    · dsimp only at posted
      split_ifs at posted
      · cases posted
        exact .refused (errorText_ne_sentStatus _)
      · cases posted
        exact .refused (errorText_ne_sentStatus _)
      · cases posted
        exact .refused (errorText_ne_sentStatus _)
      split at posted
      · cases posted
        exact refused_none
      · rename_i text found
        obtain ⟨⟨sent, left⟩, message, same⟩ := Option.map_eq_some_iff.mp posted
        cases same
        rw [found]
        exact outcome_of_chatMsg message

end Outcome

end Chat

/-- The chat, and every message that was answered with `Sent.`, the oldest first. -/
structure Talk where
  chat : Chat
  sent : List ChatMessage

namespace Talk

open Chat (Outcome Sendable sentStatus stripped)

def empty : Talk := ⟨.empty, []⟩

/-- A message that is sent is the newest in the chat. -/
def serve (talk : Talk) (action : ChatRequest × Nat) : Option Talk :=
  (talk.chat.post action.1 action.2).map fun (answer, next) =>
    ⟨next, if answer = some sentStatus then talk.sent ++ next.chatMessages.head?.toList
      else talk.sent⟩

/-- The message is one of this handle, with this text. -/
def Says (msg : ChatMessage) (handle text : Bytes) : Prop :=
  msg.handle = handle ∧ msg.message = text

structure Recorded (talk : Talk) : Prop where
  kept : talk.chat.chatMessages = talk.sent.reverse.take 100
  last : Tracks Says talk.sent talk.chat.clientLastMessage
  sized : ∀ msg ∈ talk.sent, 2 ≤ msg.message.length ∧ msg.message.length ≤ 256
  /-- No handle sends a message again before it has sent another. -/
  varied : ∀ before msg after, talk.sent = before ++ msg :: after →
    ¬ Newest Says before msg.handle msg.message

theorem recorded_empty : Recorded empty where
  kept := List.take_nil.symm
  last := tracks_nil
  sized _ member := absurd member List.not_mem_nil
  varied before msg after split := by simp [empty] at split

theorem says_iff (msg : ChatMessage) (handle text : Bytes) :
    Says msg handle text ↔ handle = msg.handle ∧ text = msg.message :=
  and_congr eq_comm eq_comm

theorem Recorded.push {talk : Talk} (recorded : Recorded talk) {msg : ChatMessage}
    (sendable : Sendable talk.chat msg) :
    Recorded ⟨talk.chat.push msg, talk.sent ++ [msg]⟩ where
  kept := by
    have pushed : (talk.chat.push msg).chatMessages = Recent.push 100 talk.chat.chatMessages msg :=
      rfl
    rw [pushed, recorded.kept, Recent.push_reverse]
  last := recorded.last.set (says_iff msg)
  sized other member := by
    rcases List.mem_append.mp member with old | new
    · exact recorded.sized other old
    · cases List.mem_singleton.mp new
      exact ⟨sendable.long, sendable.short⟩
  varied := by
    apply forall_split_append recorded.varied
    intro newest
    exact sendable.new ((recorded.last msg.handle msg.message).mpr newest)

theorem Recorded.serve {talk next : Talk} {action : ChatRequest × Nat} (recorded : Recorded talk)
    (serves : talk.serve action = some next) : Recorded next := by
  obtain ⟨⟨answer, chat⟩, posted, rfl⟩ := Option.map_eq_some_iff.mp serves
  have outcome := Chat.outcome_of_post posted
  generalize action.1.json.getStr (bytes "message") = text at outcome
  cases outcome with
  | refused unsent =>
      dsimp only
      rw [if_neg unsent]
      exact recorded
  | @sent text color handle sendable =>
      have newest : (talk.chat.push ⟨color, handle, stripped text⟩).chatMessages.head? =
          some ⟨color, handle, stripped text⟩ := Recent.head?_push (by decide) _ _
      dsimp only
      rw [if_pos rfl, newest, Option.toList_some]
      exact recorded.push sendable

end Talk

/-- Strings that JSON texts carry unchanged. -/
structure ChatMessage.Clean (msg : ChatMessage) : Prop where
  color : ∀ color, msg.color = some color → JsonObject.Clean color
  handle : JsonObject.Clean msg.handle
  message : JsonObject.Clean msg.message

theorem listed_wellFormed {msg : ChatMessage} (clean : msg.Clean) : msg.listed.WellFormed := by
  obtain ⟨color, handle, message⟩ := msg
  have colorKey : JsonObject.Clean (bytes "color") := by decide +kernel
  have handleKey : JsonObject.Clean (bytes "handle") := by decide +kernel
  have messageKey : JsonObject.Clean (bytes "message") := by decide +kernel
  cases color with
  | none =>
      simp only [ChatMessage.listed, Option.toList_none, List.map_nil, List.nil_append,
        JsonObject.ofString, JsonObject.WellFormed, JsonObject.WellFormedMembers]
      exact ⟨trivial, trivial, by simp only [KeyedList.keys, List.map_cons, List.map_nil]; decide,
        handleKey, ⟨clean.handle, trivial, trivial⟩, messageKey,
        ⟨clean.message, trivial, trivial⟩, trivial⟩
  | some color =>
      simp only [ChatMessage.listed, Option.toList_some, List.map_cons, List.map_nil,
        List.cons_append, List.nil_append, JsonObject.ofString, JsonObject.WellFormed,
        JsonObject.WellFormedMembers]
      exact ⟨trivial, trivial, by simp only [KeyedList.keys, List.map_cons, List.map_nil]; decide,
        colorKey, ⟨clean.color color rfl, trivial, trivial⟩,
        handleKey, ⟨clean.handle, trivial, trivial⟩, messageKey,
        ⟨clean.message, trivial, trivial⟩, trivial⟩

theorem wellFormedItems_listed {messages : List ChatMessage} (clean : ∀ msg ∈ messages, msg.Clean) :
    JsonObject.WellFormedItems (messages.map ChatMessage.listed) := by
  induction messages with
  | nil => exact trivial
  | cons msg messages ih =>
      obtain ⟨here, later⟩ := List.forall_mem_cons.mp clean
      exact ⟨listed_wellFormed here, ih later⟩

theorem listing_wellFormed {messages : List ChatMessage} (clean : ∀ msg ∈ messages, msg.Clean) :
    (listing messages).WellFormed := by
  have items := wellFormedItems_listed clean
  have key : JsonObject.Clean (bytes "messages") := by decide +kernel
  exact ⟨rfl, rfl, List.nodup_singleton _, key, ⟨rfl, rfl, items⟩, trivial⟩

/-- What `read_chat` answers is parsed to the messages that are kept. -/
theorem parses_of_lists {chat : Chat} {text : Bytes} (lists : chat.Lists text)
    (clean : ∀ msg ∈ chat.chatMessages, msg.Clean) {memory : Memory} {str : Nat}
    (holds : memory.Holds str text) :
    ∃ built, (listing chat.chatMessages).Same built ∧
      Converges (JsonObject.parse memory (.new .notype) str)
        (built, built.finish str text.length) := by
  obtain ⟨ordered, same, rfl⟩ := lists
  have wellFormed : ordered.WellFormed := (listing_wellFormed clean).of_same same
  exact ⟨ordered, same, JsonObject.parses_stringify wellFormed false holds⟩

/-- After any requests on the two routes: the newest hundred of the messages that
were sent are kept and listed, none of them too short or too long, and no handle
has sent a message twice in a row. -/
theorem recorded_of_run {actions : List (ChatRequest × Nat)} {last : Talk}
    (run : Run Talk.serve anything .empty actions last) :
    Talk.Recorded last ∧ ((∀ msg ∈ last.sent.reverse.take 100, msg.Clean) →
      ∀ text memory str, last.chat.Lists text → memory.Holds str text →
        ∃ built, (listing (last.sent.reverse.take 100)).Same built ∧
          Converges (JsonObject.parse memory (.new .notype) str)
            (built, built.finish str text.length)) := by
  have recorded : Talk.Recorded last := by
    apply run.invariant _ Talk.recorded_empty
    intro first action next recorded _ serves
    exact recorded.serve serves
  refine ⟨recorded, fun clean text memory str lists holds => ?_⟩
  rw [← recorded.kept] at clean ⊢
  exact parses_of_lists lists clean holds

/-- A guest sends a message, is refused to send it again, and sends another. -/
def guestTalk : List (ChatRequest × Nat) :=
  [(.ofText .guest (bytes "hello"), 2), (.ofText .guest (bytes "hello"), 2),
    (.ofText .guest (bytes "world"), 2)]

theorem recorded_of_run_guest : ∃ last,
    Run Talk.serve anything .empty guestTalk last ∧
    last.sent.map ChatMessage.message = [bytes "hello", bytes "world"] ∧
    Talk.Recorded last := by
  have executes : (exec Talk.serve .empty guestTalk).map
      (fun talk => talk.sent.map ChatMessage.message) =
      some [bytes "hello", bytes "world"] := by
    decide +kernel
  obtain ⟨last, run, sent⟩ := exists_run_of_exec executes
  exact ⟨last, run, sent, (recorded_of_run run).1⟩

end Jph2

end Libjaypea
