import Libjaypea.Base64
import Libjaypea.HttpDispatch
import Libjaypea.JsonRoundTrip
import Libjaypea.JsonText
import Libjaypea.StandardJson

/-!
# Tokens that come back

A token is handed out in a response, read by a client with a standard parser,
sent back in a request and read by `parse`, which drops escaped newlines, and
by `deescape`.
-/

namespace Libjaypea

open Fuelled JsonObject StandardJson

namespace Token

/-- The response of `login`. -/
def loginResponse (token : Bytes) : Bytes :=
  bytes "\x7b\"token\":" ++ escape token ++ bytes "\x7d"

/-- The response of `update_user`. -/
def updateUserResponse (token : Bytes) : Bytes :=
  stringify false 0
    ((JsonObject.new .object).setMember (bytes "token") (.ofString (escape token)))

/-- The characters of a Base64 text, with its padding. -/
def isBase64 (byte : UInt8) : Bool :=
  Base64.inAlphabet byte || byte == ch '='

/-- What `encrypt` returns: Base64 in lines. -/
def Encrypted (token : Bytes) : Prop :=
  ∀ byte ∈ token, isBase64 byte = true ∨ byte = ch '\n'

/-- An object with the token, a string with this body, between other members. -/
def Request (front back : List (Bytes × JsonObject)) (body text : Bytes) : Prop :=
  ∃ frontText before keyBody afterKey beforeValue after backText,
    (front = [] ∧ frontText = [] ∨
      ∃ members, BuildsMembers front members ∧ frontText = members ++ [ch ',']) ∧
    Whitespace before ∧ Collects keyBody (bytes "token") ∧ Whitespace afterKey ∧ Whitespace beforeValue ∧
    Whitespace after ∧
    (back = [] ∧ backText = [] ∨
      ∃ members, BuildsMembers back members ∧ backText = ch ',' :: members) ∧
    bytes "token" ∉ KeyedList.keys back ∧
    text = ch '{' :: (frontText ++ (before ++ ((quoted keyBody ++ (afterKey ++ (ch ':' ::
      (beforeValue ++ quoted body)))) ++ (after ++ (backText ++ [ch '}'])))))

/-- `parse` drops the escapes of these bytes. -/
def dropped (byte : UInt8) : Bool :=
  byte = ch '\n' ∨ byte = ch '\r' ∨ byte = ch '\t'

def kept (value : Bytes) : Bytes :=
  value.filter (!dropped ·)

section Encoding

theorem collects_of_encodes {value body : Bytes} (encodes : Encodes value body)
    (plain : ∀ byte ∈ value, byte ≠ 8 ∧ byte ≠ 12) : Collects body (kept value) := by
  induction encodes with
  | nil => exact .nil
  | @plain byte value text printable quote backslash _ ih =>
      have visible : byte ≠ 0 ∧ dropped byte = false := by
        have controls : ∀ other ∈ ([0, 10, 13, 9] : Bytes), ¬ 32 ≤ other :=
          forall_mem_of_all (by decide)
        refine ⟨fun same => controls byte (by simp [same]) printable, ?_⟩
        rw [Bool.eq_false_iff]
        intro control
        have member : byte ∈ ([0, 10, 13, 9] : Bytes) := by
          rcases of_decide_eq_true control with same | same | same <;> rw [same] <;> decide
        exact controls byte member printable
      have later := ih fun other member => plain other (List.mem_cons_of_mem _ member)
      rw [kept, List.filter_cons_of_pos (by simp [visible.2])]
      exact .plain visible.1 quote backslash later
  | @short letter byte value text escape _ ih =>
      have escapes : ∀ entry ∈ shortEscapes,
          (entry.1 ∉ bytes "nrt" ∧ entry.2 = entry.1 ∧ dropped entry.2 = false) ∨
            (entry.1 ∈ bytes "nrt" ∧ dropped entry.2 = true) ∨ entry.2 = 8 ∨ entry.2 = 12 :=
        forall_mem_of_all (by decide)
      have later := ih fun other member => plain other (List.mem_cons_of_mem _ member)
      obtain ⟨notBell, notFeed⟩ := plain byte List.mem_cons_self
      rcases escapes _ escape with ⟨letterKept, same, keeps⟩ | ⟨letterDropped, drops⟩ | bell | feed
      · obtain rfl : byte = letter := same
        rw [kept, List.filter_cons_of_pos (by simpa using keeps)]
        exact .kept letterKept later
      · rw [kept, List.filter_cons_of_neg (by simpa using drops)]
        exact .dropped letterDropped later
      · exact absurd bell notBell
      · exact absurd feed notFeed

/-- The text of `escape` is a standard string. -/
theorem encodes_escaped {value : Bytes}
    (printable : ∀ byte ∈ value, 32 ≤ byte ∨ dropped byte = true) :
    Encodes value (value.flatMap escapeByte) := by
  induction value with
  | nil => exact .nil
  | cons byte value ih =>
      obtain ⟨head, tail⟩ := List.forall_mem_cons.mp printable
      have later := ih tail
      rw [List.flatMap_cons]
      rcases escapeByte_cases byte with ⟨plain, others⟩ | ⟨letter, escapes, written⟩
      · have letters : ∀ other, other ∈ escapeLetters.map Prod.snd → byte ≠ other := by
          intro other member
          obtain ⟨entry, present, rfl⟩ := List.mem_map.mp member
          exact others entry present
        have visible : 32 ≤ byte := by
          rcases head with visible | drops
          · exact visible
          · rcases of_decide_eq_true drops with same | same | same <;>
              exact absurd same (letters _ (by decide))
        rw [plain]
        exact .plain visible (letters _ (by decide)) (letters _ (by decide)) later
      · have standard : ∀ entry ∈ escapeLetters, entry ∈ shortEscapes :=
          forall_mem_of_all (by decide)
        rw [written]
        exact .short (standard _ escapes) later

theorem deescape_flatMap (value rest : Bytes) :
    deescape (value.flatMap escapeByte ++ rest) = value ++ deescape rest := by
  induction value with
  | nil => rfl
  | cons byte value ih =>
      rw [List.flatMap_cons, List.append_assoc, deescape_escapeByte, ih, List.cons_append]

/-- `deescape` leaves the quotes that `escape` adds. -/
theorem deescape_escape (value : Bytes) : deescape (escape value) = quoted value := by
  have quote : ch '"' ≠ ch '\\' := by decide
  rw [escape, List.cons_append, deescape_plain quote, deescape_flatMap]
  rfl

theorem deescape_of_notMem {value : Bytes} (absent : ch '\\' ∉ value) :
    deescape value = value := by
  induction value with
  | nil => rfl
  | cons byte value ih =>
      obtain ⟨head, tail⟩ := not_or.mp (List.mem_cons.not.mp absent)
      rw [deescape_plain (Ne.symm head), ih tail]

end Encoding

section Parsing

variable {memory : Memory} {result : JsonObject × Nat}

/-- The members in front of the token, with their comma. -/
theorem parses_front {front members : List (Bytes × JsonObject)} {frontText : Bytes} {it : Nat}
    (fronts : front = [] ∧ frontText = [] ∨
      ∃ text, BuildsMembers front text ∧ frontText = text ++ [ch ','])
    (holds : memory.Holds it frontText) :
    Parses memory ⟨⟨.object, [], members, []⟩, [], .noState, it⟩ result ↔
      Parses memory ⟨⟨.object, [], KeyedList.setAll members front, []⟩, [], .noState,
        it + frontText.length⟩ result := by
  rcases fronts with ⟨rfl, rfl⟩ | ⟨text, builds, rfl⟩
  · rfl
  · obtain ⟨textHolds, comma, -⟩ := Memory.holds_append.mp holds
    rw [parses_members builds textHolds, parses_comma _ (by simp [ParseState.Collecting]) comma]
    exact parses_iff_of_cursor (by simp; omega)

/-- The members behind the token, with their comma. -/
theorem parses_back {back members : List (Bytes × JsonObject)} {backText : Bytes} {it : Nat}
    (backs : back = [] ∧ backText = [] ∨
      ∃ text, BuildsMembers back text ∧ backText = ch ',' :: text)
    (holds : memory.Holds it backText) :
    Parses memory ⟨⟨.object, [], members, []⟩, [], .noState, it⟩ result ↔
      Parses memory ⟨⟨.object, [], KeyedList.setAll members back, []⟩, [], .noState,
        it + backText.length⟩ result := by
  rcases backs with ⟨rfl, rfl⟩ | ⟨text, builds, rfl⟩
  · rfl
  · obtain ⟨comma, textHolds⟩ := holds
    rw [parses_comma _ (by simp [ParseState.Collecting]) comma]
    refine (parses_members builds textHolds).trans ?_
    exact parses_iff_of_cursor (by simp; omega)

/-- What `parse` makes of a request with the token. -/
theorem parses_request {front back members : List (Bytes × JsonObject)}
    {body received text : Bytes} {str : Nat} (request : Request front back body text)
    (collects : Collects body received) (holds : memory.Holds str text) :
    ∃ it, Converges (parse memory ⟨.object, [], members, []⟩ str)
      (⟨.object, [], KeyedList.setAll (KeyedList.set (KeyedList.setAll members front)
        (bytes "token") (.ofString received)) back, []⟩, it) := by
  obtain ⟨frontText, before, keyBody, afterKey, beforeValue, after, backText, fronts, beforeSpaces,
    keyCollects, afterKeySpaces, beforeValueSpaces, afterSpaces, backs, -, rfl⟩ := request
  obtain ⟨opening, holds⟩ := holds
  obtain ⟨frontHolds, holds⟩ := Memory.holds_append.mp holds
  obtain ⟨beforeHolds, holds⟩ := Memory.holds_append.mp holds
  obtain ⟨memberHolds, holds⟩ := Memory.holds_append.mp holds
  obtain ⟨afterHolds, holds⟩ := Memory.holds_append.mp holds
  obtain ⟨backHolds, closing, -⟩ := Memory.holds_append.mp holds
  have value : (ofString received).Builds (quoted body) := ⟨rfl, rfl, body, collects, rfl⟩
  have opens := parseAction_openBrace ⟨⟨.object, [], members, []⟩, [], .noState, str⟩ opening
  have start : ∀ result, Parses memory ⟨⟨.object, [], members, []⟩, [], .noState, str⟩ result ↔
      Parses memory ⟨⟨.object, [], KeyedList.setAll (KeyedList.set
        (KeyedList.setAll members front) (bytes "token") (.ofString received)) back, []⟩, [],
        .noState, str + 1 + frontText.length + before.length + (quoted keyBody ++ (afterKey ++
          (ch ':' :: (beforeValue ++ quoted body)))).length + after.length + backText.length⟩
        result := by
    intro result
    rw [parses_next (by rw [opening]; decide) opens,
      collect_of_not_collecting _ (by simp [ParseState.Collecting])]
    refine (parses_front fronts frontHolds).trans ?_
    rw [parses_spaces _ (by simp [ParseState.Collecting]) beforeSpaces beforeHolds,
      parses_member keyCollects afterKeySpaces beforeValueSpaces value memberHolds
        (parses_builds value),
      parses_spaces _ (by simp [ParseState.Collecting]) afterSpaces afterHolds,
      parses_back backs backHolds]
  have closes := parseAction_closeBrace
    ⟨⟨.object, [], KeyedList.setAll (KeyedList.set (KeyedList.setAll members front)
      (bytes "token") (.ofString received)) back, []⟩, [], .noState, _⟩ closing
  exact ⟨_, (start _).mpr ((parses_done (by rw [closing]; decide) closes).mpr rfl)⟩

/-- The token that `parse` has extracted. -/
theorem getStr_request {back members : List (Bytes × JsonObject)} {received : Bytes}
    (absent : bytes "token" ∉ KeyedList.keys back) :
    getStr ⟨.object, [], KeyedList.setAll (KeyedList.set members (bytes "token")
      (.ofString received)) back, []⟩ (bytes "token") = some received := by
  have stays : ∀ entries : List (Bytes × JsonObject),
      KeyedList.get? (KeyedList.setAll entries back) (bytes "token") =
        KeyedList.get? entries (bytes "token") := by
    induction back with
    | nil => exact fun _ => rfl
    | cons entry back ih =>
        intro entries
        obtain ⟨head, tail⟩ := not_or.mp (List.mem_cons.not.mp absent)
        rw [KeyedList.setAll_cons, ih tail, KeyedList.get?_set_of_ne _ (Ne.symm head)]
  rw [getStr, stays, KeyedList.get?_set_self]
  rfl

end Parsing

section Trip

theorem isBase64_cases {byte : UInt8} (character : isBase64 byte = true) :
    32 ≤ byte ∧ byte ≠ ch '"' ∧ byte ≠ ch '\\' ∧ dropped byte = false ∧ byte ≠ 8 ∧ byte ≠ 12 := by
  have all : ∀ number : Fin 256, isBase64 (UInt8.ofNat number) = true →
      32 ≤ UInt8.ofNat number ∧ UInt8.ofNat number ≠ ch '"' ∧ UInt8.ofNat number ≠ ch '\\' ∧
        dropped (UInt8.ofNat number) = false ∧ UInt8.ofNat number ≠ 8 ∧
        UInt8.ofNat number ≠ 12 := by
    decide +kernel
  have known := all ⟨byte.toNat, byte.toNat_lt⟩
  simp only [UInt8.ofNat_toNat] at known
  exact known character

theorem isBase64_eq_false {byte : UInt8}
    (other : byte = ch '"' ∨ dropped byte = true) : isBase64 byte = false := by
  rw [Bool.eq_false_iff]
  intro character
  obtain ⟨-, quote, -, keeps, -⟩ := isBase64_cases character
  rcases other with same | drops
  · exact quote same
  · rw [keeps] at drops
    cases drops

/-- The value that the client reads from a response, and what is left of it. -/
theorem filter_kept (value : Bytes) : (kept value).filter isBase64 = value.filter isBase64 := by
  rw [kept, List.filter_filter]
  apply List.filter_congr
  intro byte _
  cases drops : dropped byte with
  | true => simp [isBase64_eq_false (.inr drops)]
  | false => simp

variable {unicode : UInt8 → UInt8 → UInt8 → UInt8 → Bytes} {token : Bytes}

theorem Encrypted.printable (encrypted : Encrypted token) :
    ∀ byte ∈ token, 32 ≤ byte ∨ dropped byte = true := by
  intro byte member
  rcases encrypted byte member with character | rfl
  · exact .inl (isBase64_cases character).1
  · exact .inr (by decide)

theorem Encrypted.plain (encrypted : Encrypted token) :
    ∀ byte ∈ token, byte ≠ ch '\\' ∧ byte ≠ 8 ∧ byte ≠ 12 := by
  intro byte member
  rcases encrypted byte member with character | rfl
  · obtain ⟨-, -, backslash, -, others⟩ := isBase64_cases character
    exact ⟨backslash, others⟩
  · decide

theorem encodes_key : Encodes (bytes "token") (bytes "token") :=
  encodes_escaped (forall_mem_of_all (by decide))

/-- The client reads the token itself from the response of `login`. -/
theorem readObject_login (encrypted : Encrypted token) :
    readObject unicode (loginResponse token) = some [(bytes "token", token)] := by
  have response : loginResponse token = ch '{' :: ch '"' :: (bytes "token" ++ ch '"' :: ch ':' ::
      ch '"' :: (token.flatMap escapeByte ++ [ch '"', ch '}'])) := by
    simp [loginResponse, escape, bytes]
  rw [response]
  exact readObject_singleton encodes_key (encodes_escaped encrypted.printable)

theorem escape_printable (encrypted : Encrypted token) :
    ∀ byte ∈ escape token, 32 ≤ byte ∧ dropped byte = false := by
  intro byte member
  rw [escape, List.mem_append, List.mem_cons, List.mem_flatMap, List.mem_singleton] at member
  rcases member with (rfl | ⟨source, present, written⟩) | rfl
  · decide
  · rcases escapeByte_cases source with ⟨plain, others⟩ | ⟨letter, escapes, pair⟩
    · rw [plain, List.mem_singleton] at written
      subst written
      have letters : ∀ other, other ∈ escapeLetters.map Prod.snd → byte ≠ other := by
        intro other member
        obtain ⟨entry, present, rfl⟩ := List.mem_map.mp member
        exact others entry present
      have keeps : dropped byte = false := by
        simp [dropped, letters (ch '\n') (by decide), letters (ch '\r') (by decide),
          letters (ch '\t') (by decide)]
      refine ⟨(encrypted.printable byte present).resolve_right ?_, keeps⟩
      rw [keeps]
      exact Bool.false_ne_true
    · have visible : ∀ entry ∈ escapeLetters, ∀ written ∈ [ch '\\', entry.1],
          32 ≤ written ∧ dropped written = false := forall_mem_of_all (by decide +kernel)
      rw [pair] at written
      exact visible _ escapes byte written
  · decide

/-- The client reads the escaped token from the response of `update_user`. -/
theorem readObject_updateUser (encrypted : Encrypted token) :
    readObject unicode (updateUserResponse token) =
      some [(bytes "token", escape token)] := by
  have key : escape (bytes "token") = quoted (bytes "token") := by decide
  have text : updateUserResponse token =
      ch '{' :: (quoted (bytes "token") ++ (ch ':' :: (escape (escape token) ++ [ch '}']))) := by
    rw [updateUserResponse, JsonObject.setMember, JsonObject.new, KeyedList.set, text_object,
      text_members, key]
    rfl
  have response : updateUserResponse token = ch '{' :: ch '"' :: (bytes "token" ++ ch '"' ::
      ch ':' :: ch '"' :: ((escape token).flatMap escapeByte ++ [ch '"', ch '}'])) := by
    rw [text, quoted, escape]
    simp only [List.cons_append, List.append_assoc, List.nil_append]
  rw [response]
  exact readObject_singleton encodes_key
    (encodes_escaped fun byte member => .inl (escape_printable encrypted byte member).1)

end Trip

/-- A token that a client reads from either response and sends back, in any
request and with any escapes, has the characters that it had. -/
theorem token_survives (unicode : UInt8 → UInt8 → UInt8 → UInt8 → Bytes) {token : Bytes}
    (encrypted : Encrypted token) :
    ∀ response ∈ [loginResponse token, updateUserResponse token],
      ∃ sent, readObject unicode response = some [(bytes "token", sent)] ∧
        ∀ body, Encodes sent body → ∀ front back text, Request front back body text →
          ∀ (members : List (Bytes × JsonObject)) (memory : Memory) (str : Nat),
            memory.Holds str text →
              ∃ built it received,
                Converges (parse memory ⟨.object, [], members, []⟩ str) (built, it) ∧
                built.getStr (bytes "token") = some received ∧
                (deescape received).filter isBase64 = token.filter isBase64 := by
  have trip : ∀ sent, (∀ byte ∈ sent, byte ≠ 8 ∧ byte ≠ 12) →
      (deescape (kept sent)).filter isBase64 = token.filter isBase64 →
      ∀ body, Encodes sent body → ∀ front back text, Request front back body text →
        ∀ (members : List (Bytes × JsonObject)) (memory : Memory) (str : Nat),
          memory.Holds str text →
            ∃ built it received,
              Converges (parse memory ⟨.object, [], members, []⟩ str) (built, it) ∧
              built.getStr (bytes "token") = some received ∧
              (deescape received).filter isBase64 = token.filter isBase64 := by
    intro sent plain same body encodes front back text request members memory str holds
    have absent : bytes "token" ∉ KeyedList.keys back := by
      obtain ⟨_, _, _, _, _, _, _, _, _, _, _, _, _, _, absent, _⟩ := request
      exact absent
    obtain ⟨it, parsed⟩ := parses_request request (collects_of_encodes encodes plain) holds
    exact ⟨_, it, kept sent, parsed, getStr_request absent, same⟩
  intro response member
  rcases List.mem_cons.mp member with rfl | member
  · refine ⟨token, readObject_login encrypted, trip token ?_ ?_⟩
    · exact fun byte member => (encrypted.plain byte member).2
    · rw [deescape_of_notMem fun member => ?_, filter_kept]
      exact (encrypted.plain _ (List.mem_of_mem_filter member)).1 rfl
  · obtain rfl := List.mem_singleton.mp member
    have whole : kept (escape token) = escape token :=
      List.filter_eq_self.mpr fun byte member => by
        simp [(escape_printable encrypted byte member).2]
    refine ⟨escape token, readObject_updateUser encrypted, trip (escape token) ?_ ?_⟩
    · intro byte member
      have controls : ∀ other ∈ ([8, 12] : Bytes), ¬ 32 ≤ other :=
          forall_mem_of_all (by decide)
      have printable := (escape_printable encrypted byte member).1
      exact ⟨fun same => controls byte (by simp [same]) printable,
        fun same => controls byte (by simp [same]) printable⟩
    · have quote : isBase64 (ch '"') = false := by decide
      rw [whole, deescape_escape]
      simp [quoted, quote]

section Sample

def sampleToken : Bytes :=
  bytes "a/b=\n"

/-- The token as `update_user` gave it, with an escaped slash. -/
def sampleBody : Bytes :=
  bytes "\\\"a\\/b=\\\\n\\\""

def sampleRequest : Bytes :=
  bytes "\x7b\"id\":\"7\",\"token\":\"\\\"a\\/b=\\\\n\\\"\"\x7d"

theorem sampleRequest_request :
    Request [(bytes "id", ofString (bytes "7"))] [] sampleBody sampleRequest := by
  have spaces : Whitespace [] := whitespace_nil
  have digit : Collects (bytes "7") (bytes "7") := collects_plain (forall_mem_of_all (by decide))
  have members : BuildsMembers [(bytes "id", ofString (bytes "7"))] (bytes "\"id\":\"7\"") :=
    ⟨[], bytes "id", [], [], quoted (bytes "7"), [], [], spaces,
      collects_plain (forall_mem_of_all (by decide)), spaces, spaces, spaces,
      ⟨rfl, rfl, _, digit, rfl⟩, .inl ⟨rfl, rfl⟩, rfl⟩
  exact ⟨_, [], bytes "token", [], [], [], [], .inr ⟨_, members, rfl⟩, spaces,
    collects_plain (forall_mem_of_all (by decide)), spaces, spaces, spaces, .inl ⟨rfl, rfl⟩,
    by decide, rfl⟩

theorem sampleBody_encodes : Encodes (escape sampleToken) sampleBody :=
  .short (by decide) (.plain (by decide) (by decide) (by decide) (.short (by decide)
    (.plain (by decide) (by decide) (by decide) (.plain (by decide) (by decide) (by decide)
      (.short (by decide) (.plain (by decide) (by decide) (by decide)
        (.short (by decide) .nil)))))))

theorem sampleToken_survives :
    ∃ built it received,
      Converges (parse (Memory.ofString (fun _ => 0) sampleRequest) (.new .object) 1)
        (built, it) ∧
      built.getStr (bytes "token") = some received ∧
      (deescape received).filter isBase64 = sampleToken.filter isBase64 := by
  have encrypted : Encrypted sampleToken := forall_mem_of_all (by decide)
  obtain ⟨sent, read, survives⟩ := token_survives (fun _ _ _ _ => []) encrypted
    (updateUserResponse sampleToken) (by simp)
  have same : sent = escape sampleToken := by
    rw [readObject_updateUser encrypted] at read
    simpa using read.symm
  subst same
  exact survives sampleBody sampleBody_encodes _ _ _ sampleRequest_request [] _ 1
    (Memory.holds_append.mp (Memory.ofString_holds _ _)).1

end Sample

end Token

end Libjaypea
