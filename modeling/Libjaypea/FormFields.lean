import Libjaypea.EncodedRequests
import Libjaypea.HttpDispatch
import Libjaypea.UrlEncoding

/-!
# The fields of a form

The second loop of `parse_http_request` splits the body of a form into names
and values.  It stores a value as it has been sent, percent-encoded, so that the
JSON parser finds nothing in it; `GetURLDecodedStr` decodes it later.
-/

namespace Libjaypea

open Fuelled JsonObject HttpHead HttpParse

namespace HttpParse

variable {memory : Memory} {heap : Nat → Memory} {parse after result : HttpParse}

/-- The loop over a form, entered in `parse`, ends in `result`. -/
def FormRuns (memory : Memory) (heap : Nat → Memory) (parse result : HttpParse) : Prop :=
  Converges (fun fuel => formLoop memory heap fuel parse) result

theorem formRuns_terminator (terminator : memory parse.it = 0) :
    FormRuns memory heap parse result ↔ result = parse := by
  have unfolded (fuel : Nat) : formLoop memory heap (fuel + 1) parse = some parse := by
    simp [formLoop, terminator]
  rw [FormRuns, converges_succ rfl unfolded, converges_const]

theorem formRuns_step (inside : memory parse.it ≠ 0)
    (stepped : Converges (parse.formStep memory heap) after) :
    FormRuns memory heap parse result ↔ FormRuns memory heap after.advance result := by
  have unfolded (fuel : Nat) : formLoop memory heap (fuel + 1) parse =
      (parse.formStep memory heap fuel).bind fun after =>
        formLoop memory heap fuel after.advance := by
    simp [formLoop, inside]
  rw [FormRuns, converges_succ rfl unfolded,
    converges_bind (formStep_stable memory heap parse)
      fun after => formLoop_stable memory heap after.advance]
  constructor
  · rintro ⟨other, otherStepped, later⟩
    rw [(formStep_stable memory heap parse).unique stepped otherStepped]
    exact later
  · intro later
    exact ⟨after, stepped, later⟩

/-- Bytes that separate nothing in a form. -/
def InField (text : Bytes) : Prop :=
  ∀ byte ∈ text, byte ≠ 0 ∧ byte ≠ ch '&' ∧ byte ≠ ch '='

/-- The state behind a stretch of a name, or of a value. -/
def takeText (parse : HttpParse) (text : Bytes) : HttpParse :=
  if parse.state = 1 then
    { parse with it := parse.it + text.length, newKey := parse.newKey ++ text }
  else { parse with it := parse.it + text.length, newValue := parse.newValue ++ text }

theorem takeText_append (parse : HttpParse) (first second : Bytes) :
    (parse.takeText first).takeText second = parse.takeText (first ++ second) := by
  by_cases key : parse.state = 1 <;> simp [takeText, key, Nat.add_assoc]

theorem takeText_state (parse : HttpParse) (text : Bytes) :
    (parse.takeText text).state = parse.state := by
  unfold takeText
  split <;> rfl

theorem takeText_it (parse : HttpParse) (text : Bytes) :
    (parse.takeText text).it = parse.it + text.length := by
  unfold takeText
  split <;> rfl

theorem formStep_byte {byte : UInt8} (reads : parse.state = 1 ∨ parse.state = 2)
    (here : memory parse.it = byte) (ampersand : byte ≠ ch '&') (equals : byte ≠ ch '=') :
    ∃ after, Converges (parse.formStep memory heap) after ∧
      after.advance = parse.takeText [byte] := by
  rcases reads with state | state
  · exact ⟨{ parse with newKey := parse.newKey ++ [byte] },
      ⟨0, by simp [formStep, here, ampersand, equals, state]⟩, by simp [takeText, state, advance]⟩
  · exact ⟨{ parse with newValue := parse.newValue ++ [byte] },
      ⟨0, by simp [formStep, here, ampersand, equals, state]⟩, by simp [takeText, state, advance]⟩

theorem formRuns_text {text : Bytes} (reads : parse.state = 1 ∨ parse.state = 2)
    (inField : InField text) (holds : memory.Holds parse.it text) :
    FormRuns memory heap parse result ↔ FormRuns memory heap (parse.takeText text) result := by
  induction text generalizing parse with
  | nil => simp [takeText]
  | cons byte rest ih =>
      obtain ⟨here, later⟩ := holds
      obtain ⟨⟨nonzero, ampersand, equals⟩, inRest⟩ := List.forall_mem_cons.mp inField
      obtain ⟨after, stepped, advanced⟩ := formStep_byte reads here ampersand equals
      have first : FormRuns memory heap parse result ↔ _ :=
        formRuns_step (by rwa [here]) stepped
      rw [advanced] at first
      rw [first, ih (by rwa [takeText_state]) inRest (by rwa [takeText_it]), takeText_append,
        List.singleton_append]

section Pairs

variable {requestObj : JsonObject} {it : Nat} {key value : Bytes}

/-- A name, the equals sign behind it and a value. -/
theorem formRuns_pair (inName : InField key) (inValue : InField value)
    (holds : memory.Holds it (key ++ (ch '=' :: value))) :
    FormRuns memory heap ⟨requestObj, it, false, 1, [], []⟩ result ↔
      FormRuns memory heap ⟨requestObj, it + (key ++ (ch '=' :: value)).length, false, 2, key, value⟩
        result := by
  obtain ⟨keyHolds, equals, valueHolds⟩ := Memory.holds_append.mp holds
  have stepped : Converges
      (formStep memory heap ⟨requestObj, it + key.length, false, 1, key, []⟩)
      ⟨requestObj, it + key.length, false, 2, key, []⟩ :=
    ⟨0, by simp [formStep, equals, ch_eq_ch_iff]⟩
  have nonzero : memory (it + key.length) ≠ 0 := by
    rw [equals]
    decide
  have cursor : it + (key ++ (ch '=' :: value)).length = it + key.length + 1 + value.length := by
    simp only [List.length_append, List.length_cons]
    omega
  rw [cursor]
  calc
    FormRuns memory heap ⟨requestObj, it, false, 1, [], []⟩ result ↔
        FormRuns memory heap ⟨requestObj, it + key.length, false, 1, key, []⟩ result :=
      formRuns_text (.inl rfl) inName keyHolds
    _ ↔ FormRuns memory heap ⟨requestObj, it + key.length + 1, false, 2, key, []⟩ result :=
      formRuns_step nonzero stepped
    _ ↔ _ := formRuns_text (.inr rfl) inValue valueHolds

/-- Strings stored one after another. -/
def storeStrings (this : JsonObject) (pairs : List (Bytes × Bytes)) : JsonObject :=
  pairs.foldl (fun this pair => this.storeString pair.1 pair.2) this

/-- Behind an ampersand the loop starts again. -/
theorem formRuns_ampersand (noJson : NoJson value) (here : memory it = ch '&') :
    FormRuns memory heap ⟨requestObj, it, false, 2, key, value⟩ result ↔
      FormRuns memory heap ⟨requestObj.storeString key value, it + 1, false, 1, [], []⟩ result := by
  obtain ⟨fuel, stores⟩ := storeValue_noJson (heap it) requestObj key noJson
  have stepped : Converges (formStep memory heap ⟨requestObj, it, false, 2, key, value⟩)
      ⟨requestObj.storeString key value, it, false, 1, [], []⟩ :=
    ⟨fuel, by simp only [formStep, here, if_true, stores, Option.map_some]⟩
  exact formRuns_step (by change memory it ≠ 0; rw [here]; decide) stepped

/-- What follows the loop over a form. -/
def formEnd (heap : Nat → Memory) (parse : HttpParse) (fuel : Nat) : Option JsonObject :=
  if parse.state = 2 then
    parse.requestObj.storeValue (heap parse.it) parse.newKey parse.newValue fuel
  else some parse.requestObj

theorem parseForm_converges_iff {object : JsonObject} :
    Converges (parseForm memory heap requestObj it) object ↔
      ∃ last, FormRuns memory heap ⟨requestObj, it, false, 1, [], []⟩ last ∧
        Converges (last.formEnd heap) object := by
  refine converges_bind (formLoop_stable memory heap _) fun last => ?_
  by_cases value : last.state = 2
  · simp only [value, if_true]
    exact storeValue_stable _ _ _ _
  · simp only [value, if_false]
    exact stable_const _

/-- A form stores its values, in their order, as they stand. -/
theorem parseForm_converges {pairs : List (Bytes × Bytes)}
    (inFields : ∀ pair ∈ pairs, InField pair.1 ∧ InField pair.2 ∧ NoJson pair.2)
    (holds : memory.Holds it (queryText pairs ++ [0])) :
    Converges (parseForm memory heap requestObj it) (storeStrings requestObj pairs) := by
  induction pairs generalizing requestObj it with
  | nil => exact parseForm_converges_iff.mpr ⟨_, (formRuns_terminator holds.1).mpr rfl, 0, rfl⟩
  | cons pair rest ih =>
      obtain ⟨⟨inName, inValue, noJson⟩, inRest⟩ := List.forall_mem_cons.mp inFields
      cases rest with
      | nil =>
          obtain ⟨pairHolds, terminator, -⟩ := Memory.holds_append.mp holds
          refine parseForm_converges_iff.mpr ⟨_, (formRuns_pair inName inValue pairHolds).mpr
            ((formRuns_terminator terminator).mpr rfl), ?_⟩
          exact storeValue_noJson _ requestObj pair.1 noJson
      | cons next rest =>
          have grouped : queryText (pair :: next :: rest) ++ [0] =
              (pair.1 ++ (ch '=' :: pair.2)) ++ (ch '&' :: (queryText (next :: rest) ++ [0])) := by
            simp [queryText]
          rw [grouped] at holds
          obtain ⟨pairHolds, ampersand, restHolds⟩ := Memory.holds_append.mp holds
          have later : Converges
              (parseForm memory heap (requestObj.storeString pair.1 pair.2) _) _ :=
            ih inRest restHolds
          obtain ⟨last, runs, ends⟩ := parseForm_converges_iff.mp later
          exact parseForm_converges_iff.mpr ⟨last, (formRuns_pair inName inValue pairHolds).mpr
            ((formRuns_ampersand noJson ampersand).mpr runs), ends⟩

end Pairs

end HttpParse

section Encoding

variable {text : Bytes} {byte written : UInt8}

/-- The bytes that a form may hold without a code. -/
def formPlain (byte : UInt8) : Bool :=
  alphanumeric byte ∨ byte = ch '-' ∨ byte = ch '.' ∨ byte = ch '_' ∨ byte = ch '*' ∨ byte = ch '~'

def formByte (byte : UInt8) : Bytes :=
  if byte = ch ' ' then [ch '+'] else if formPlain byte then [byte] else percentByte byte

/-- `application/x-www-form-urlencoded`. -/
def formEncode (text : Bytes) : Bytes :=
  text.flatMap formByte

/-- Names are sent as they are. -/
def encodeFields (fields : List (Bytes × Bytes)) : List (Bytes × Bytes) :=
  fields.map fun field => (field.1, formEncode field.2)

def formText (fields : List (Bytes × Bytes)) : Bytes :=
  queryText (encodeFields fields)

theorem keys_encodeFields (fields : List (Bytes × Bytes)) :
    (encodeFields fields).map Prod.fst = fields.map Prod.fst :=
  List.map_map

/-- The bytes of field names. -/
def nameByte (byte : UInt8) : Bool :=
  alphanumeric byte ∨ byte = ch '_' ∨ byte = ch '-'

theorem formPlain_of_alphanumeric (plain : alphanumeric byte) : formPlain byte := by
  simp [formPlain, plain]

theorem formPlain_of_nameByte (name : nameByte byte) : formPlain byte := by
  simp only [nameByte, formPlain, decide_eq_true_eq] at name ⊢
  tauto

theorem ne_of_formPlain {other : UInt8} (plain : formPlain byte)
    (special : formPlain other = false) : byte ≠ other := by
  rintro rfl
  rw [special] at plain
  cases plain

theorem mem_formEncode (member : written ∈ formEncode text) :
    formPlain written ∨ written = ch '+' ∨ written = ch '%' := by
  obtain ⟨byte, -, member⟩ := List.mem_flatMap.mp member
  unfold formByte at member
  split_ifs at member with space plain
  · exact .inr (.inl (List.mem_singleton.mp member))
  · exact .inl (List.mem_singleton.mp member ▸ plain)
  · rcases alphanumeric_of_mem_percentByte member with percent | digit
    · exact .inr (.inr percent)
    · exact .inl (formPlain_of_alphanumeric digit)

/-- Neither the loop over the form nor the JSON parser acts on an encoded text. -/
theorem ne_of_mem_formEncode {other : UInt8} (special : formPlain other = false)
    (plus : other ≠ ch '+') (percent : other ≠ ch '%') (member : written ∈ formEncode text) :
    written ≠ other := by
  rcases mem_formEncode member with plain | rfl | rfl
  · exact ne_of_formPlain plain special
  · exact plus.symm
  · exact percent.symm

theorem inField_formEncode (text : Bytes) : InField (formEncode text) := fun _ member =>
  ⟨ne_of_mem_formEncode (by decide) (by decide) (by decide) member,
    ne_of_mem_formEncode (by decide) (by decide) (by decide) member,
    ne_of_mem_formEncode (by decide) (by decide) (by decide) member⟩

theorem noJson_formEncode (text : Bytes) : NoJson (formEncode text) := fun _ member =>
  ⟨ne_of_mem_formEncode (by decide) (by decide) (by decide) member,
    ne_of_mem_formEncode (by decide) (by decide) (by decide) member,
    ne_of_mem_formEncode (by decide) (by decide) (by decide) member,
    ne_of_mem_formEncode (by decide) (by decide) (by decide) member,
    ne_of_mem_formEncode (by decide) (by decide) (by decide) member⟩

theorem inField_of_name {name : Bytes} (letters : ∀ byte ∈ name, nameByte byte) :
    InField name := by
  intro byte member
  have plain := formPlain_of_nameByte (letters byte member)
  exact ⟨ne_of_formPlain plain (by decide), ne_of_formPlain plain (by decide),
    ne_of_formPlain plain (by decide)⟩

theorem urlDecode_formByte (byte ii : UInt8) (rest : Bytes) :
    ∃ later, Util.urlDecode ii (formByte byte ++ rest) = [byte] ++ Util.urlDecode later rest := by
  unfold formByte
  split_ifs with space plain
  · subst space
    exact ⟨ii, Util.urlDecode_plus ii rest⟩
  · exact ⟨ii, Util.urlDecode_plain (ne_of_formPlain plain (by decide))
      (ne_of_formPlain plain (by decide)) ii rest⟩
  · exact ⟨byte, Util.urlDecode_percentByte ii byte rest⟩

/-- A value is decoded to what was encoded. -/
theorem urlDecode_formEncode (ii : UInt8) (text : Bytes) :
    Util.urlDecode ii (formEncode text) = text := by
  calc
    Util.urlDecode ii (text.flatMap formByte) = text.flatMap fun byte => [byte] :=
      Util.urlDecode_flatMap (fun byte _ ii rest => urlDecode_formByte byte ii rest) ii
    _ = text := List.flatMap_singleton' text

end Encoding

section Storing

variable {requestObj : JsonObject} {pairs : List (Bytes × Bytes)}

theorem sameBut_storeStrings (requestObj : JsonObject) (pairs : List (Bytes × Bytes)) :
    SameBut (pairs.map Prod.fst) requestObj (storeStrings requestObj pairs) := by
  induction pairs generalizing requestObj with
  | nil => exact .of_objectValues rfl
  | cons pair rest ih =>
      exact (sameBut_storeString requestObj pair.1 pair.2).trans
        (ih (requestObj.storeString pair.1 pair.2))

/-- Under a name that comes once its own value is stored. -/
theorem member_storeStrings {pair : Bytes × Bytes} (distinct : (pairs.map Prod.fst).Nodup)
    (member : pair ∈ pairs) :
    (storeStrings requestObj pairs).hasObj pair.1 .string = true ∧
      (storeStrings requestObj pairs).getStr pair.1 = some pair.2 := by
  induction pairs generalizing requestObj with
  | nil => cases member
  | cons first rest ih =>
      obtain ⟨fresh, distinctRest⟩ := List.nodup_cons.mp distinct
      rcases List.mem_cons.mp member with rfl | later
      · -- The later fields have other names and leave this one alone.
        have kept := sameBut_storeStrings (requestObj.storeString pair.1 pair.2) rest
        have stored : KeyedList.get? (requestObj.storeString pair.1 pair.2).objectValues pair.1 =
            some _ := KeyedList.get?_set_self _ _ _
        refine ⟨?_, ?_⟩
        · refine (kept.hasObj fresh .string).trans ?_
          rw [hasObj, stored]
          rfl
        · refine (kept.getStr fresh).trans ?_
          rw [getStr, stored]
          rfl
      · exact ih distinctRest later

end Storing

/-- Fields as a client sends them. -/
structure FormFields (fields : List (Bytes × Bytes)) : Prop where
  names : ∀ field ∈ fields, ∀ byte ∈ field.1, nameByte byte
  distinct : (fields.map Prod.fst).Nodup
  values : ∀ field ∈ fields, 0 ∉ field.2

/-- The main loop has read the head of a request into `head`, which says that
the bytes from `body` on are a form. -/
structure FormHead (memory : Memory) (heap : Nat → Memory) (request : Nat) (head : JsonObject)
    (body : Nat) : Prop where
  read : ∃ method it last, httpStart memory request = some (method, it) ∧
    Runs memory heap (start method it) last ∧ last.requestObj = head ∧ last.it = body
  isString : head.hasObj (bytes "Content-Type") .string = true
  contentType :
    head.getStr (bytes "Content-Type") = some (bytes "application/x-www-form-urlencoded")

/-- The request is answered, and gives every field back; nothing else has
changed in what the head stored. -/
structure FieldsArrive (memory : Memory) (heap : Nat → Memory) (request : Nat) (head : JsonObject)
    (fields : List (Bytes × Bytes)) (object : JsonObject) : Prop where
  answers : ∀ result, Converges (parseHttpRequest memory heap request (new .object)) result ↔
    result = (.httpForm, object)
  stored : ∀ field ∈ fields, object.hasObj field.1 .string = true ∧
    ∀ ii, getURLDecodedStr ii object field.1 = some field.2
  kept : SameBut (fields.map Prod.fst) head object

section Arriving

variable {memory : Memory} {heap : Nat → Memory} {request : Nat}

theorem parseHttpRequest_form {head object : JsonObject} {body : Nat}
    (formHead : FormHead memory heap request head body)
    (parses : Converges (parseForm memory heap head body) object) :
    Converges (parseHttpRequest memory heap request (new .object)) (.httpForm, object) := by
  obtain ⟨⟨method, it, last, starts, runs, rfl, rfl⟩, isString, contentType⟩ := formHead
  have unfolded : parseHttpRequest memory heap request (new .object) = fun fuel =>
      (loop memory heap fuel (start method it)).bind fun parse =>
        parse.parseBody memory heap fuel := by
    funext fuel
    simp only [parseHttpRequest, starts]
    rfl
  rw [unfolded, converges_bind (loop_stable memory heap _) (parseBody_stable memory heap)]
  refine ⟨last, runs, ?_⟩
  obtain ⟨fuel, answer⟩ := parses
  have notJson : bytes "application/x-www-form-urlencoded" ≠ bytes "application/json" := by
    decide
  exact ⟨fuel, by simp [parseBody, isString, contentType, notJson, answer]⟩

theorem formHead_of_wellFormed {head : HttpHead} (wellFormed : head.WellFormed)
    (form : head.contentType = some (bytes "application/x-www-form-urlencoded"))
    (holds : memory.Holds request head.text) :
    FormHead memory heap request head.object (request + head.text.length) := by
  obtain ⟨-, -, -, restHolds⟩ := Memory.holds_append.mp holds
  obtain ⟨last, lastValue, runs⟩ := runs_head (bytes "JPON") heap wellFormed restHolds
  refine ⟨⟨head.method, request + head.method.length + 2, _,
    httpStart_of_holds wellFormed.method holds, (runs _).mpr rfl, rfl, ?_⟩, hasObj_object form,
    (getStr_object head).trans form⟩
  simp only [HttpHead.text, List.length_append, List.length_cons]
  omega

theorem fields_arrive_behind {fields : List (Bytes × Bytes)} (form : FormFields fields)
    {head : JsonObject} {body : Nat} (formHead : FormHead memory heap request head body)
    (holds : memory.Holds body (formText fields ++ [0])) :
    ∃ object, FieldsArrive memory heap request head fields object := by
  have parses : Converges (parseForm memory heap head body)
      (storeStrings head (encodeFields fields)) := by
    refine parseForm_converges (fun pair member => ?_) holds
    obtain ⟨field, given, rfl⟩ := List.mem_map.mp member
    exact ⟨inField_of_name (form.names field given), inField_formEncode field.2,
      noJson_formEncode field.2⟩
  have answer := parseHttpRequest_form formHead parses
  have distinct : ((encodeFields fields).map Prod.fst).Nodup := by
    rw [keys_encodeFields]
    exact form.distinct
  refine ⟨_, fun result => ⟨fun other => ?_, fun same => same ▸ answer⟩, fun field member => ?_, ?_⟩
  · exact (parseHttpRequest_stable _ _ _ _).unique other answer
  · have sent : (field.1, formEncode field.2) ∈ encodeFields fields :=
      List.mem_map.mpr ⟨field, member, rfl⟩
    obtain ⟨isString, value⟩ := member_storeStrings distinct sent
    refine ⟨isString, fun ii => ?_⟩
    rw [getURLDecodedStr, value, Option.map_some, urlDecode_formEncode]
  · have kept := sameBut_storeStrings head (encodeFields fields)
    rwa [keys_encodeFields] at kept

/-- The fields of a form arrive behind every well-formed head, and behind every
other head that is read as the head of a form. -/
theorem fields_arrive (fields : List (Bytes × Bytes)) (form : FormFields fields) :
    (∀ (memory : Memory) (heap : Nat → Memory) (request : Nat) (head : HttpHead),
      head.WellFormed → head.contentType = some (bytes "application/x-www-form-urlencoded") →
      memory.Holds request (head.text ++ (formText fields ++ [0])) →
        ∃ object, FieldsArrive memory heap request head.object fields object) ∧
    ∀ (memory : Memory) (heap : Nat → Memory) (request : Nat) (head : JsonObject) (body : Nat),
      FormHead memory heap request head body → memory.Holds body (formText fields ++ [0]) →
        ∃ object, FieldsArrive memory heap request head fields object := by
  refine ⟨fun memory heap request head wellFormed isForm holds => ?_,
    fun memory heap request head body => fields_arrive_behind form⟩
  obtain ⟨headHolds, formHolds⟩ := Memory.holds_append.mp holds
  exact fields_arrive_behind form (formHead_of_wellFormed wellFormed isForm headHolds) formHolds

namespace Sample

/-- `POST /login?name=x`, with a form behind its header. -/
def formHead : HttpHead where
  method := bytes "POST"
  path := bytes "login"
  query := [(bytes "name", bytes "x")]
  protocol := bytes "HTTP/1.1"
  protocolEnd := .crlf
  headers := [⟨bytes "Content-Type", bytes "application/x-www-form-urlencoded", .crlf⟩]
  blankEnd := .crlf

def loginFields : List (Bytes × Bytes) :=
  [(bytes "name", bytes "a \"b\" & [c]"), (bytes "pass_word", []), (bytes "note-2", [233, 10])]

end Sample

theorem fields_arrive_login :
    ∃ object, FieldsArrive
      (Memory.ofString (fun _ => 0) (Sample.formHead.text ++ formText Sample.loginFields))
      (fun _ _ => 0) 1 Sample.formHead.object Sample.loginFields object := by
  have form : FormFields Sample.loginFields := by
    constructor <;> decide +kernel
  have wellFormed : Sample.formHead.WellFormed := by
    constructor <;> decide +kernel
  have holds := Memory.ofString_holds (fun _ => 0)
    (Sample.formHead.text ++ formText Sample.loginFields)
  rw [List.append_assoc] at holds
  exact (fields_arrive Sample.loginFields form).1 _ (fun _ _ => 0) 1 Sample.formHead wellFormed
    (by decide) holds

end Arriving

end Libjaypea
