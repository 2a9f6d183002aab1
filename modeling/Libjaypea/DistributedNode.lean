import Libjaypea.HttpDispatch
import Libjaypea.JsonRoundTrip
import Libjaypea.JsonText
import Mathlib.Logic.Equiv.List

/-!
# Distributed nodes

Two nodes compare their data by the hash of its text.  The maps of the stored
data are iterated in any order, which may differ between two nodes that were
given the same members.
-/

namespace Libjaypea

open Fuelled JsonObject

structure DistributedNode where
  status : JsonObject
  ddata : JsonObject

namespace DistributedNode

def new : DistributedNode :=
  ⟨.new .object, .new .object⟩

/-- The node after `set_ddata`, when `ddata` has become `stored`. -/
def store (sha256_hash : Bytes → Bytes) (node : DistributedNode) (stored : JsonObject) :
    DistributedNode where
  status := node.status.setMember (bytes "hash")
    (.ofString (sha256_hash (stringify false 0 stored)))
  ddata := stored

/-- `set_ddata` with the text at `data`: the members are parsed into `ddata`,
whose maps are iterated in any order. -/
def SetDdata (sha256_hash : Bytes → Bytes) (memory : Memory) (data : Nat)
    (node next : DistributedNode) : Prop :=
  ∃ built it stored,
    Converges (parse memory { node.ddata with objectValues := [] } data) (built, it) ∧
      built.Same stored ∧ next = node.store sha256_hash stored

/-- The answer to a request; `none` when `GetStr` throws. -/
def answer (status request : JsonObject) : Option JsonObject :=
  if request.hasObj (bytes "hash") .string then
    (request.getStr (bytes "hash")).bind fun given =>
      (status.getStr (bytes "hash")).map fun mine =>
        (JsonObject.new .object).setMember (bytes "status")
          (.ofString (if given = mine then bytes "Up to date." else bytes "Out of date."))
  else
    (status.getStr (bytes "hash")).map fun hash =>
      (JsonObject.new .object).setMember (bytes "hash") (.ofString hash)

/-- The text that `on_read` sends, if it sends one. -/
def onRead (node : DistributedNode) (memory : Memory) (data : Nat) (fuel : Nat) :
    Option (Option Bytes) :=
  (parse memory (.new .notype) data fuel).map fun result =>
    (answer node.status result.1).map (stringify false 0)

/-- The message that a node sends to the others. -/
def message (node : DistributedNode) : Bytes :=
  stringify false 0 node.status

def upToDate : Bytes :=
  stringify false 0 ((JsonObject.new .object).setMember (bytes "status")
    (.ofString (bytes "Up to date.")))

/-- A node after calls of `set_ddata`, with the object that was stored last. -/
inductive Stores (sha256_hash : Bytes → Bytes) : DistributedNode → Option JsonObject → Prop
  | new : Stores sha256_hash new none
  | set {node next : DistributedNode} {stored : Option JsonObject} {memory : Memory} {data : Nat}
      (earlier : Stores sha256_hash node stored)
      (sets : SetDdata sha256_hash memory data node next) : Stores sha256_hash next next.ddata

/-- SHA-256 without collisions, written in hexadecimal digits. -/
structure Digests (sha256_hash : Bytes → Bytes) : Prop where
  injective : Function.Injective sha256_hash
  hexadecimal : ∀ data, ∀ byte ∈ sha256_hash data, byte ∈ bytes "0123456789ABCDEF"

variable {sha256_hash : Bytes → Bytes}

/-- The status of a node, by the object that was stored last. -/
def statusOf (sha256_hash : Bytes → Bytes) : Option JsonObject → JsonObject
  | none => .new .object
  | some stored =>
      { JsonObject.new .object with
        objectValues :=
          [(bytes "hash", .ofString (sha256_hash (stringify false 0 stored)))] }

theorem Stores.status {node : DistributedNode} {stored : Option JsonObject}
    (stores : Stores sha256_hash node stored) : node.status = statusOf sha256_hash stored := by
  induction stores with
  | new => rfl
  | @set node next stored memory data _ sets ih =>
      obtain ⟨built, it, kept, -, -, rfl⟩ := sets
      rw [store, ih]
      cases stored <;> rfl

section Request

theorem Digests.clean (digests : Digests sha256_hash) (data : Bytes) :
    Clean (sha256_hash data) := by
  have digits : ∀ byte ∈ bytes "0123456789ABCDEF", byte ≠ 0 ∧ byte ≠ ch '\n' ∧ byte ≠ ch '\r' ∧
      byte ≠ ch '\t' := forall_mem_of_all (by decide)
  exact fun byte member => digits byte (digests.hexadecimal data byte member)

theorem Digests.wellFormed (digests : Digests sha256_hash) (stored : Option JsonObject) :
    (statusOf sha256_hash stored).WellFormed := by
  cases stored with
  | none => simp [statusOf, JsonObject.new, WellFormed, WellFormedMembers, KeyedList.keys]
  | some stored =>
      have key : Clean (bytes "hash") := by decide +kernel
      simp [statusOf, JsonObject.new, ofString, WellFormed, WellFormedMembers, KeyedList.keys, key,
        digests.clean]

theorem eq_ofString_of_same {text : Bytes} {value : JsonObject}
    (same : (ofString text).Same value) : value = ofString text := by
  obtain ⟨type, string, members, items⟩ := value
  simp only [ofString, Same, KeyedList.keys, List.map_nil, List.perm_nil, List.map_eq_nil_iff,
    SameMembers, SameItems, true_and] at same
  obtain ⟨rfl, rfl, rfl, rfl⟩ := same
  rfl

theorem same_statusOf (stored : Option JsonObject) :
    (statusOf sha256_hash stored).Same (statusOf sha256_hash stored) := by
  cases stored <;> simp [statusOf, JsonObject.new, ofString, Same, SameMembers, SameItems]

/-- The request that the message of a node is parsed to. -/
theorem hash_of_same {stored : Option JsonObject} {request : JsonObject}
    (same : (statusOf sha256_hash stored).Same request) :
    KeyedList.get? request.objectValues (bytes "hash") =
      stored.map fun stored => .ofString (sha256_hash (stringify false 0 stored)) := by
  cases stored with
  | none =>
      simp only [statusOf, JsonObject.new, Same, KeyedList.keys, List.map_nil,
        List.perm_nil, List.map_eq_nil_iff] at same
      rw [same.2.2.1]
      rfl
  | some stored =>
      simp only [statusOf, JsonObject.new, Same, SameMembers, KeyedList.keys, List.map_cons,
        List.map_nil, List.perm_singleton] at same
      obtain ⟨-, -, keys, ⟨⟨other, member, digest⟩, -⟩, -⟩ := same
      have equal := eq_ofString_of_same digest
      obtain ⟨⟨key, value⟩, members, only⟩ := List.map_eq_singleton_iff.mp keys
      rw [members] at member ⊢
      obtain ⟨rfl, rfl⟩ : bytes "hash" = key ∧ other = value := by simpa using member
      simp [KeyedList.get?, equal]

/-- What `on_read` answers to the message of another node. -/
theorem onRead_message (digests : Digests sha256_hash) {sender receiver : DistributedNode}
    {mine theirs : Option JsonObject} (sends : Stores sha256_hash sender mine)
    (receives : Stores sha256_hash receiver theirs) {memory : Memory} {data : Nat}
    (holds : memory.Holds data sender.message) :
    Converges (receiver.onRead memory data)
      (theirs.map fun stored =>
        let hash := sha256_hash (stringify false 0 stored)
        stringify false 0 (match mine with
          | none => (JsonObject.new .object).setMember (bytes "hash") (.ofString hash)
          | some sent => (JsonObject.new .object).setMember (bytes "status")
              (.ofString (if sha256_hash (stringify false 0 sent) = hash then bytes "Up to date."
                else bytes "Out of date.")))) := by
  have wellFormed := digests.wellFormed mine
  have text : memory.Holds data (stringify false 0 (statusOf sha256_hash mine) ++ []) := by
    rw [List.append_nil, ← sends.status]
    exact holds
  have writes := writes_stringify wellFormed (same_statusOf mine) false
  obtain ⟨request, same, parsed⟩ := parse_of_writes wellFormed writes text
  have hash := hash_of_same same
  refine converges_map.mpr ⟨_, parsed, ?_⟩
  rw [receives.status]
  cases mine with
  | none =>
      cases theirs <;> simp [answer, hasObj, hash, getStr, statusOf, JsonObject.new, KeyedList.get?,
        ofString]
  | some sent =>
      cases theirs <;> simp [answer, hasObj, hash, getStr, statusOf, JsonObject.new, KeyedList.get?,
        ofString]

end Request

theorem answer_ne (hash : Bytes) :
    stringify false 0 ((JsonObject.new .object).setMember (bytes "hash") (.ofString hash)) ≠
      upToDate := by
  intro same
  have printed := stringify_eq_iff.mp same
  simp only [JsonObject.new, setMember, KeyedList.set, JsonObject.printed, printedMembers,
    JsonObject.mk.injEq, List.cons.injEq, Prod.mk.injEq] at printed
  exact absurd printed.2.2.1.1.1 (by decide)

theorem status_eq_iff {equal : Prop} [Decidable equal] :
    stringify false 0 ((JsonObject.new .object).setMember (bytes "status")
        (.ofString (if equal then bytes "Up to date." else bytes "Out of date."))) = upToDate ↔
      equal := by
  constructor
  · intro same
    by_contra different
    rw [if_neg different] at same
    exact absurd same (by decide)
  · intro holds
    rw [if_pos holds]
    rfl

theorem onRead_unique {node : DistributedNode} {memory : Memory} {data : Nat}
    {first second : Option Bytes} (one : Converges (node.onRead memory data) first)
    (two : Converges (node.onRead memory data) second) : first = second :=
  ((parseLoop_stable memory _).map _).unique one two

/-- A node is told that its data is up to date exactly when its data is equal,
if the other one has data, equal data is iterated in one order, and data that
prints the same is equal. -/
theorem up_to_date_iff (digests : Digests sha256_hash) {sender receiver : DistributedNode}
    {mine theirs : Option JsonObject} (sends : Stores sha256_hash sender mine)
    (receives : Stores sha256_hash receiver theirs) {memory : Memory} {data : Nat}
    (holds : memory.Holds data sender.message) :
    (∃ reply, Converges (receiver.onRead memory data) (some reply) ∧
        (reply = upToDate ↔ ∃ first ∈ mine, ∃ second ∈ theirs, first.Same second)) ↔
      theirs.isSome ∧ ∀ first ∈ mine, ∀ second ∈ theirs,
        (first.Same second → first.printed = second.printed) ∧
          (first.printed = second.printed → first.Same second) := by
  have answers := onRead_message digests sends receives holds
  cases theirs with
  | none =>
      have silent : ¬ ∃ reply, Converges (receiver.onRead memory data) (some reply) := by
        rintro ⟨reply, replies⟩
        cases onRead_unique answers replies
      simp only [Option.isSome_none, Bool.false_eq_true, false_and, iff_false]
      rintro ⟨reply, replies, -⟩
      exact silent ⟨reply, replies⟩
  | some second =>
      rw [Option.map_some] at answers
      have replies : ∀ reply, Converges (receiver.onRead memory data) (some reply) ↔ reply = _ :=
        fun reply => ⟨fun other => Option.some.inj (onRead_unique other answers), fun same =>
          same ▸ answers⟩
      simp only [replies, exists_eq_left]
      cases mine with
      | none => simp [answer_ne]
      | some first =>
          rw [status_eq_iff]
          have hashes : sha256_hash (stringify false 0 first) =
              sha256_hash (stringify false 0 second) ↔ first.printed = second.printed :=
            digests.injective.eq_iff.trans stringify_eq_iff
          rw [hashes]
          simp only [Option.mem_some_iff, exists_eq_left', forall_eq', Option.isSome_some, true_and]
          exact ⟨fun same => ⟨same.mpr, same.mp⟩, fun both => ⟨both.2, both.1⟩⟩

section Sample

/-- An object with two members, in the order in which they are iterated. -/
def pair (key value other text : String) : JsonObject :=
  { JsonObject.new .object with
    objectValues := [(bytes key, .ofString (bytes value)), (bytes other, .ofString (bytes text))] }

/-- The digests of the texts below; other texts have a digest of their own too. -/
def sampleHash (data : Bytes) : Bytes :=
  if data = stringify false 0 (pair "a" "1" "b" "2") then
    bytes "21F76DFBFE6DFE21F762080EF484112CF2952974CEF30741FD1931E1C6D92112"
  else if data = stringify false 0 (pair "b" "2" "a" "1") then
    bytes "D85B5388397BC0BB7FB156ECBA06DD0DF8A2BC4C7376276AE6045F1FD3493C2B"
  else List.replicate (Encodable.encode (data.map UInt8.toNat)) (ch 'A')

theorem replicate_encode_inj {first second : Bytes}
    (same : List.replicate (Encodable.encode (first.map UInt8.toNat)) (ch 'A') =
      List.replicate (Encodable.encode (second.map UInt8.toNat)) (ch 'A')) : first = second := by
  have lengths := congrArg List.length same
  rw [List.length_replicate, List.length_replicate] at lengths
  have bytes_injective : Function.Injective UInt8.toNat := fun _ _ => UInt8.toNat_inj.mp
  exact bytes_injective.list_map (Encodable.encode_injective lengths)

theorem sampleHash_cases (data : Bytes) :
    (data = stringify false 0 (pair "a" "1" "b" "2") ∧ sampleHash data =
        bytes "21F76DFBFE6DFE21F762080EF484112CF2952974CEF30741FD1931E1C6D92112") ∨
      (data = stringify false 0 (pair "b" "2" "a" "1") ∧ sampleHash data =
        bytes "D85B5388397BC0BB7FB156ECBA06DD0DF8A2BC4C7376276AE6045F1FD3493C2B") ∨
      sampleHash data = List.replicate (Encodable.encode (data.map UInt8.toNat)) (ch 'A') := by
  unfold sampleHash
  split
  · exact .inl ⟨‹_›, rfl⟩
  · split
    · exact .inr (.inl ⟨‹_›, rfl⟩)
    · exact .inr (.inr rfl)

theorem sampleHash_digests : Digests sampleHash where
  injective first second same := by
    have others : ∀ (text : String) (count : Nat), ch '2' ∈ bytes text →
        bytes text ≠ List.replicate count (ch 'A') := by
      rintro text count member same
      rw [same] at member
      exact absurd (List.eq_of_mem_replicate member) (by decide)
    rcases sampleHash_cases first with ⟨one, hash⟩ | ⟨one, hash⟩ | hash <;>
      rcases sampleHash_cases second with ⟨two, hash'⟩ | ⟨two, hash'⟩ | hash' <;>
      rw [hash, hash'] at same
    · rw [one, two]
    · exact absurd same (by decide +kernel)
    · exact absurd same (others _ _ (by decide +kernel))
    · exact absurd same (by decide +kernel)
    · rw [one, two]
    · exact absurd same (others _ _ (by decide +kernel))
    · exact absurd same.symm (others _ _ (by decide +kernel))
    · exact absurd same.symm (others _ _ (by decide +kernel))
    · exact replicate_encode_inj same
  hexadecimal data byte member := by
    rcases sampleHash_cases data with ⟨-, hash⟩ | ⟨-, hash⟩ | hash <;> rw [hash] at member
    · revert byte
      decide +kernel
    · revert byte
      decide +kernel
    · rw [List.eq_of_mem_replicate member]
      decide

/-- Nodes with a text each, whose members are iterated from the newest. -/
theorem stores_pair {first second third fourth : String} (text : String)
    (parsed : ∃ fuel it, parse (Memory.ofString (fun _ => 0) (bytes text)) (.new .object) 1 fuel =
      some (pair first second third fourth, it)) :
    Stores sampleHash (new.store sampleHash (pair third fourth first second))
      (some (pair third fourth first second)) := by
  obtain ⟨fuel, it, parses⟩ := parsed
  refine .set .new ⟨pair first second third fourth, it, _, ⟨fuel, parses⟩, ?_, rfl⟩
  simp [pair, JsonObject.new, ofString, Same, SameMembers, SameItems, KeyedList.keys,
    List.Perm.swap]

theorem stores_ba : Stores sampleHash (new.store sampleHash (pair "b" "2" "a" "1"))
    (some (pair "b" "2" "a" "1")) :=
  stores_pair "\x7b\"a\":\"1\",\"b\":\"2\"\x7d" ⟨60, 17, rfl⟩

theorem stores_ab : Stores sampleHash (new.store sampleHash (pair "a" "1" "b" "2"))
    (some (pair "a" "1" "b" "2")) :=
  stores_pair "\x7b\"b\":\"2\",\"a\":\"1\"\x7d" ⟨60, 17, rfl⟩

/-- Where the message of a node lies. -/
def received (node : DistributedNode) : Memory :=
  Memory.ofString (fun _ => 0) node.message

theorem received_holds (node : DistributedNode) : (received node).Holds 1 node.message :=
  (Memory.holds_append.mp (Memory.ofString_holds _ _)).1

theorem up_to_date_equal :
    ∃ reply, Converges ((new.store sampleHash (pair "a" "1" "b" "2")).onRead
        (received (new.store sampleHash (pair "a" "1" "b" "2"))) 1) (some reply) ∧
      (reply = upToDate ↔ ∃ first ∈ some (pair "a" "1" "b" "2"),
        ∃ second ∈ some (pair "a" "1" "b" "2"), first.Same second) := by
  have same : (pair "a" "1" "b" "2").Same (pair "a" "1" "b" "2") := by
    simp [pair, JsonObject.new, ofString, Same, SameMembers, SameItems]
  apply (up_to_date_iff sampleHash_digests stores_ab stores_ab (received_holds _)).mpr
  refine ⟨rfl, fun first one second two => ?_⟩
  cases one
  cases two
  exact ⟨fun _ => rfl, fun _ => same⟩

/-- Two nodes with the same members tell each other that they are out of date,
and a node without data does not answer. -/
theorem exists_out_of_date :
    Digests sampleHash ∧
      Stores sampleHash (new.store sampleHash (pair "b" "2" "a" "1"))
        (some (pair "b" "2" "a" "1")) ∧
      Stores sampleHash (new.store sampleHash (pair "a" "1" "b" "2"))
        (some (pair "a" "1" "b" "2")) ∧
      (pair "b" "2" "a" "1").Same (pair "a" "1" "b" "2") ∧
      (∀ reply, Converges ((new.store sampleHash (pair "a" "1" "b" "2")).onRead
        (received (new.store sampleHash (pair "b" "2" "a" "1"))) 1) (some reply) →
          reply ≠ upToDate) ∧
      Converges (new.onRead (received (new.store sampleHash (pair "b" "2" "a" "1"))) 1) none := by
  have same : (pair "b" "2" "a" "1").Same (pair "a" "1" "b" "2") := by
    simp [pair, JsonObject.new, ofString, Same, SameMembers, SameItems, KeyedList.keys,
      List.Perm.swap]
  refine ⟨sampleHash_digests, stores_ba, stores_ab, same, fun reply replies => ?_,
    onRead_message sampleHash_digests stores_ba .new (received_holds _)⟩
  have answers := onRead_message sampleHash_digests stores_ba stores_ab (received_holds _)
  have reply_eq := Option.some.inj (onRead_unique replies answers)
  rw [reply_eq]
  intro told
  have hashes := status_eq_iff.mp told
  exact absurd (sampleHash_digests.injective hashes) (by decide +kernel)

end Sample

end DistributedNode

end Libjaypea
