import Libjaypea.JsonScanner
import Libjaypea.RequestLine

/-!
# The parts of a request head

What the main loop of `parse_http_request` makes of a byte depends on the part
of the head it is in.  A part ends at the first of its delimiters; the value
of a query parameter is given to the JSON parser first.  The loop steps over
the byte behind the colon of a header without a look at it: on a head that
breaks off right there this byte is the terminator.
-/

namespace Libjaypea

open JsonObject

/-- The states of the main loop, 1 to 6. -/
inductive HeadPart
  | route
  | queryKey
  | queryValue
  | protocol
  | headerKey
  | headerValue
  deriving DecidableEq, Repr

namespace HeadPart

def state : HeadPart → Nat
  | route => 1
  | queryKey => 2
  | queryValue => 3
  | protocol => 4
  | headerKey => 5
  | headerValue => 6

/-- The bytes that end the part. -/
def delimiters : HeadPart → Bytes
  | route => bytes " ?"
  | queryKey => bytes " ="
  | queryValue => bytes " &"
  | protocol => bytes "\n"
  | headerKey => bytes ":\n"
  | headerValue => bytes "\n"

/-- The part behind a delimiter.  A colon takes another byte with it, and a
line feed in a header key ends the head. -/
def next : HeadPart → UInt8 → Option HeadPart
  | route, byte =>
      if byte = ch ' ' then some protocol else if byte = ch '?' then some queryKey else none
  | queryKey, byte =>
      if byte = ch ' ' then some protocol else if byte = ch '=' then some queryValue else none
  | queryValue, byte =>
      if byte = ch ' ' then some protocol else if byte = ch '&' then some queryKey else none
  | protocol, byte => if byte = ch '\n' then some headerKey else none
  | headerKey, _ => none
  | headerValue, byte => if byte = ch '\n' then some headerKey else none

/-- Text inside the part. -/
def Inside (part : HeadPart) (text : Bytes) : Prop :=
  ∀ byte ∈ text, byte ∉ part.delimiters

instance (part : HeadPart) (text : Bytes) : Decidable (part.Inside text) :=
  List.decidableBAll _ text

end HeadPart

/-- A query value as it is parsed: a plus is a space, and otherwise the same
escapes are known as in a path. -/
def decodeValue (text : Bytes) : Bytes :=
  HttpParse.decodePath (text.map fun byte => if byte = ch '+' then ch ' ' else byte)

/-- From the part on the text is a head that breaks off right behind the colon
of a header, and the parser returns from the query values in it. -/
inductive BreaksOff : HeadPart → Bytes → Prop
  | colon {text : Bytes} (inside : HeadPart.headerKey.Inside text) :
      BreaksOff .headerKey (text ++ [ch ':'])
  | header {text rest : Bytes} {skipped : UInt8} (inside : HeadPart.headerKey.Inside text)
      (later : BreaksOff .headerValue rest) :
      BreaksOff .headerKey (text ++ ch ':' :: skipped :: rest)
  | next {part after : HeadPart} {text rest : Bytes} {delimiter : UInt8}
      (inside : part.Inside text) (ends : part.next delimiter = some after)
      (returns : part = .queryValue → ¬ BreaksOffAtQuote (decodeValue text))
      (later : BreaksOff after rest) : BreaksOff part (text ++ delimiter :: rest)

/-- The request breaks off right behind the colon of a header. -/
def BreaksOffAtColon (text : Bytes) : Prop :=
  ∃ method ∈ HttpHead.methods, ∃ rest,
    text = method ++ (ch ' ' :: ch '/' :: rest) ∧ BreaksOff .route rest

/-- The first element of a kind tells where a list is split. -/
theorem split_unique {α : Type*} {kind : α → Prop} {done text rest later : List α} {first other : α}
    (before : ∀ element ∈ done, ¬ kind element) (here : kind first)
    (otherBefore : ∀ element ∈ text, ¬ kind element) (otherHere : kind other)
    (equal : done ++ first :: rest = text ++ other :: later) :
    done = text ∧ first = other ∧ rest = later := by
  induction done generalizing text with
  | nil =>
      cases text with
      | nil =>
          obtain ⟨rfl, rfl⟩ := List.cons.inj equal
          exact ⟨rfl, rfl, rfl⟩
      | cons element text =>
          obtain ⟨rfl, -⟩ := List.cons.inj equal
          exact absurd here (otherBefore first List.mem_cons_self)
  | cons element done ih =>
      cases text with
      | nil =>
          obtain ⟨rfl, -⟩ := List.cons.inj equal
          exact absurd otherHere (before element List.mem_cons_self)
      | cons another text =>
          obtain ⟨rfl, same⟩ := List.cons.inj equal
          obtain ⟨rfl, rfl, rfl⟩ :=
            ih (fun other member => before other (List.mem_cons_of_mem _ member))
              (fun other member => otherBefore other (List.mem_cons_of_mem _ member)) same
          exact ⟨rfl, rfl, rfl⟩

theorem HeadPart.mem_delimiters_of_next {part after : HeadPart} {delimiter : UInt8}
    (ends : part.next delimiter = some after) : delimiter ∈ part.delimiters := by
  cases part with
  | headerKey => cases ends
  | route | queryKey | queryValue | protocol | headerValue =>
      simp only [HeadPart.next] at ends
      split_ifs at ends
      all_goals simp [HeadPart.delimiters, bytes, *]

theorem HeadPart.next_ne_route (part : HeadPart) (delimiter : UInt8) :
    part.next delimiter ≠ some .route := by
  cases part with
  | headerKey => simp [HeadPart.next]
  | route | queryKey | queryValue | protocol | headerValue =>
      simp only [HeadPart.next]
      split_ifs <;> simp

theorem HeadPart.exists_next {part : HeadPart} {delimiter : UInt8} (notKey : part ≠ .headerKey)
    (ends : delimiter ∈ part.delimiters) : ∃ after, part.next delimiter = some after := by
  cases part <;>
    simp only [HeadPart.delimiters, bytes, String.reduceToList, List.map_cons, List.map_nil,
      List.mem_cons, List.not_mem_nil, or_false] at ends
  case headerKey => exact absurd rfl notKey
  case route | queryKey | queryValue => rcases ends with rfl | rfl <;> exact ⟨_, rfl⟩
  case protocol | headerValue =>
    subst ends
    exact ⟨_, rfl⟩

namespace BreaksOff

open HeadPart

variable {part after : HeadPart} {done rest : Bytes} {byte delimiter : UInt8}

theorem colon_mem : ch ':' ∈ HeadPart.headerKey.delimiters := by
  decide

/-- A text is split at its first delimiter in one way only. -/
theorem split_part {text later : Bytes} {other : UInt8} (inside : part.Inside done)
    (here : delimiter ∈ part.delimiters) (otherInside : part.Inside text)
    (otherHere : other ∈ part.delimiters)
    (equal : done ++ delimiter :: rest = text ++ other :: later) :
    done = text ∧ delimiter = other ∧ rest = later :=
  split_unique inside here otherInside otherHere equal

/-- Behind a delimiter that opens another part the text goes on in that part. -/
theorem next_iff (inside : part.Inside done) (ends : part.next delimiter = some after) :
    BreaksOff part (done ++ delimiter :: rest) ↔
      (part = .queryValue → ¬ BreaksOffAtQuote (decodeValue done)) ∧ BreaksOff after rest := by
  refine ⟨fun breaks => ?_, fun ⟨returns, later⟩ => .next inside ends returns later⟩
  generalize whole : done ++ delimiter :: rest = text at breaks
  cases breaks with
  | colon => cases ends
  | header => cases ends
  | next otherInside otherEnds returns later =>
      obtain ⟨rfl, rfl, rfl⟩ := split_part inside (mem_delimiters_of_next ends) otherInside
        (mem_delimiters_of_next otherEnds) whole
      cases Option.some.inj (ends.symm.trans otherEnds)
      exact ⟨returns, later⟩

/-- A header goes on behind the byte that follows its colon. -/
theorem header_iff (inside : HeadPart.headerKey.Inside done) :
    BreaksOff .headerKey (done ++ ch ':' :: byte :: rest) ↔ BreaksOff .headerValue rest := by
  refine ⟨fun breaks => ?_, .header inside⟩
  generalize whole : done ++ ch ':' :: byte :: rest = text at breaks
  cases breaks with
  | colon otherInside =>
      obtain ⟨-, -, impossible⟩ := split_part inside colon_mem otherInside colon_mem whole
      cases impossible
  | header otherInside later =>
      obtain ⟨-, -, same⟩ := split_part inside colon_mem otherInside colon_mem whole
      cases same
      exact later
  | next _ ends => cases ends

/-- The head ends at a line feed in a header key. -/
theorem not_blank (inside : HeadPart.headerKey.Inside done) :
    ¬ BreaksOff .headerKey (done ++ ch '\n' :: rest) := by
  intro breaks
  have here : ch '\n' ∈ HeadPart.headerKey.delimiters := by
    decide
  generalize whole : done ++ ch '\n' :: rest = text at breaks
  cases breaks with
  | colon otherInside =>
      obtain ⟨-, impossible, -⟩ := split_part inside here otherInside colon_mem whole
      exact absurd impossible (by decide)
  | header otherInside =>
      obtain ⟨-, impossible, -⟩ := split_part inside here otherInside colon_mem whole
      exact absurd impossible (by decide)
  | next _ ends => cases ends

/-- A text that ends in front of any delimiter does not break off behind one. -/
theorem not_inside (inside : part.Inside done) : ¬ BreaksOff part done := by
  intro breaks
  cases breaks with
  | colon => exact inside (ch ':') (by simp) colon_mem
  | header => exact inside (ch ':') (by simp) colon_mem
  | @next _ _ _ _ delimiter _ ends => exact inside delimiter (by simp) (mem_delimiters_of_next ends)

/-- A colon is the last byte of such a text. -/
theorem getLast?_eq {text : Bytes} (breaks : BreaksOff part text) :
    text.getLast? = some (ch ':') := by
  induction breaks with
  | colon => simp
  | header _ _ ih => simp [List.getLast?_append, List.getLast?_cons, ih]
  | next _ _ _ _ ih => simp [List.getLast?_append, List.getLast?_cons, ih]

end BreaksOff

theorem BreaksOffAtColon.getLast?_eq {text : Bytes} (breaks : BreaksOffAtColon text) :
    text.getLast? = some (ch ':') := by
  obtain ⟨method, -, rest, rfl, later⟩ := breaks
  simp [List.getLast?_append, List.getLast?_cons, later.getLast?_eq]

end Libjaypea
