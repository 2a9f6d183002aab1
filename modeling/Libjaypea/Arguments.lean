import Libjaypea.Json
import Libjaypea.Util
import Mathlib.Logic.Function.Basic

/-!
# Arguments of a program

`Util::parse_arguments`: the words of the command line are looked up one after
another among the arguments that were defined, and what was not set there is
taken from the configuration file.  A word that is the name of an argument ends
the search; one that is an alternative does not.
-/

namespace Libjaypea

namespace Util

/-- What a variable that belongs to an argument holds. -/
inductive Value
  | string (value : Bytes)
  | integer (value : Int32)
  | boolean (value : Bool)
  deriving DecidableEq

/-- What a variable of type `std::string` holds. -/
def Value.text : Value → Bytes
  | .string value => value
  | _ => []

/-- The variables of the program, under numbers of our own. -/
abbrev Settings := Nat → Value

inductive ArgumentType
  | string
  | integer
  | boolean
  deriving DecidableEq

theorem lawfulBEq_bytes : LawfulBEq Bytes :=
  inferInstanceAs (LawfulBEq (List UInt8))

attribute [local instance] lawfulBEq_bytes

structure Argument where
  name : Bytes
  alts : List Bytes
  /-- What the callback stores. -/
  callback : List (Nat × Value)
  type : ArgumentType
  /-- The variable behind `string_value`, `integer_value` or `boolean_value`. -/
  target : Nat
  deriving DecidableEq

/-- `std::stoi`, which throws where there is no number or it is no `int`. -/
def stoi (text : Bytes) : Option Int32 :=
  let number := text.dropWhile isspace
  let negative := number.head? = some (ch '-')
  let digits := (if negative ∨ number.head? = some (ch '+') then number.tail else number).takeWhile
    fun byte => ch '0' ≤ byte ∧ byte ≤ ch '9'
  let magnitude : Int := digits.foldl (fun value byte => 10 * value + (byte - ch '0').toNat) 0
  let value := if negative then -magnitude else magnitude
  if digits = [] ∨ value < -2 ^ 31 ∨ 2 ^ 31 ≤ value then none else some (Int32.ofInt value)

namespace Argument

def longName (argument : Argument) : Bytes :=
  bytes "--" ++ argument.name

/-- The value that a word gives; `none` when `stoi` throws. -/
def read (argument : Argument) (word : Bytes) : Option Value :=
  match argument.type with
  | .string => some (.string word)
  | .integer => (stoi word).map .integer
  | .boolean => some (.boolean true)

/-- The variable is written, and then the callback called. -/
def stores (argument : Argument) (value : Value) : List (Nat × Value) :=
  (argument.target, value) :: argument.callback

/-- The variables that the argument may write. -/
def targets (argument : Argument) : List Nat :=
  argument.target :: argument.callback.map Prod.fst

/-- The word that belongs to an argument that was found, if there is one. -/
def operand (argument : Argument) (next : Option Bytes) : Option Bytes :=
  if argument.type = .boolean then some [] else next

end Argument

/-- The variables after some stores, the newest last. -/
def storeAll (settings : Settings) (stores : List (Nat × Value)) : Settings :=
  stores.foldl (fun settings store => Function.update settings store.1 store.2) settings

/-- `set` belongs to the arguments by their index. -/
structure Parsing where
  set : Nat → Bool
  settings : Settings

namespace Parsing

/-- What a call of `check_lambda` does for the argument that it was made for. -/
def take (parsing : Parsing) (index : Nat) (argument : Argument) (next : Option Bytes) :
    Option Parsing :=
  match argument.operand next with
  | none => some parsing
  | some word =>
      (argument.read word).map fun value =>
        { set := Function.update parsing.set index true
          settings := storeAll parsing.settings (argument.stores value) }

/-- The loop over the arguments from an index on, for one word of the command line. -/
def readWord (word : Bytes) (next : Option Bytes) :
    Nat → List Argument → Parsing → Option Parsing
  | _, [], parsing => some parsing
  | index, argument :: later, parsing =>
      if word = argument.longName then parsing.take index argument next
      else if word ∈ argument.alts then
        (parsing.take index argument next).bind (readWord word next (index + 1) later)
      else readWord word next (index + 1) later parsing

def readWords (arguments : List Argument) : List Bytes → Parsing → Option Parsing
  | [], parsing => some parsing
  | word :: words, parsing =>
      (readWord word words.head? 0 arguments parsing).bind (readWords arguments words)

/-- The loop over the arguments after the configuration file was parsed. -/
def configure (object : JsonObject) : Nat → List Argument → Parsing → Option Parsing
  | _, [], parsing => some parsing
  | index, argument :: later, parsing =>
      match KeyedList.get? object.objectValues argument.name with
      | none => configure object (index + 1) later parsing
      | some child =>
          if parsing.set index then configure object (index + 1) later parsing
          else
            (argument.read child.stringValue).bind fun value =>
              configure object (index + 1) later { parsing with
                settings := storeAll parsing.settings (argument.stores value) }

end Parsing

/-- The variables `verbose`, `config_path` and `secret_captcha_url` of `Util`. -/
def verbose : Nat := 0
def configPath : Nat := 1
def secretCaptchaUrl : Nat := 2

/-- What `parse_arguments` defines itself. -/
def ownArguments : List Argument :=
  [⟨bytes "verbose", [bytes "-v"], [], .boolean, verbose⟩,
    ⟨bytes "configuration_file", [bytes "-cf"], [], .string, configPath⟩,
    ⟨bytes "secret_captcha_url", [bytes "-scu"], [], .string, secretCaptchaUrl⟩]

inductive Parsed
  /-- The usage is printed, and the program exits. -/
  | usage
  /-- An exception ends the program. -/
  | thrown
  | parsed (settings : Settings)

/-- `files` is what the files can be read as, and `stale` what lies behind the
text of one in memory. -/
def parseArguments (files : Bytes → Option Bytes) (stale : Memory) (arguments : List Argument)
    (argv : List Bytes) (settings : Settings) (fuel : Nat) : Option Parsed :=
  let arguments := arguments ++ ownArguments
  if bytes "--help" ∈ argv ∨ bytes "-h" ∈ argv then some .usage
  else
    match Parsing.readWords arguments argv ⟨fun _ => false, settings⟩ with
    | none => some .thrown
    | some parsing =>
        match files (parsing.settings configPath).text with
        | none => some (.parsed parsing.settings)
        | some data =>
            (JsonObject.parse (Memory.ofString stale data) (.new .notype) 1 fuel).map fun result =>
              match parsing.configure result.1 0 arguments with
              | none => .thrown
              | some parsing => .parsed parsing.settings

/-! ## The newest store into a variable -/

/-- The word that a word of the command line gives to an argument: it has to be
one of its spellings, and not the name of an argument that was defined earlier. -/
def Argument.occurrence (earlier : List Argument) (argument : Argument) (word : Bytes)
    (next : Option Bytes) : Option Bytes :=
  if (word = argument.longName ∨ word ∈ argument.alts) ∧
      ∀ other ∈ earlier, word ≠ other.longName then
    argument.operand next
  else none

/-- All the words that the command line gives to an argument. -/
def Argument.given (earlier : List Argument) (argument : Argument) : List Bytes → List Bytes
  | [] => []
  | word :: words =>
      (argument.occurrence earlier word words.head?).toList ++ argument.given earlier words

/-- What an argument stores in a variable when it is given a word. -/
def Argument.puts (target : Nat) (argument : Argument) (word : Bytes) : Option Value :=
  (argument.read word).bind fun value => KeyedList.get? (argument.stores value).reverse target

/-- What a word of the command line stores in a variable. -/
def written (target : Nat) (word : Bytes) (next : Option Bytes) : List Argument → Option Value
  | [] => none
  | argument :: later =>
      if word = argument.longName then (argument.operand next).bind (argument.puts target)
      else if word ∈ argument.alts then
        (written target word next later).or ((argument.operand next).bind (argument.puts target))
      else written target word next later

/-- What the command line stores in a variable last. -/
def lastWritten (target : Nat) (arguments : List Argument) : List Bytes → Option Value
  | [] => none
  | word :: words =>
      (lastWritten target arguments words).or (written target word words.head? arguments)

section Stores

variable {settings : Settings} {target : Nat}

theorem storeAll_apply (stores : List (Nat × Value)) :
    storeAll settings stores target =
      (KeyedList.get? stores.reverse target).getD (settings target) := by
  induction stores generalizing settings with
  | nil => rfl
  | cons store stores ih =>
      obtain ⟨changed, value⟩ := store
      rw [storeAll, List.foldl_cons]
      change storeAll _ stores target = _
      rw [ih, List.reverse_cons, KeyedList.get?_append]
      cases KeyedList.get? stores.reverse target with
      | some newer => rfl
      | none =>
          by_cases here : changed = target
          · subst here
            simp [KeyedList.get?]
          · simp [KeyedList.get?, here, Ne.symm here]

theorem puts_of_notMem {argument : Argument} (apart : target ∉ argument.targets) (word : Bytes) :
    argument.puts target word = none := by
  rw [Argument.puts, Option.bind_eq_none_iff]
  intro value _
  rw [KeyedList.get?_eq_none_iff, KeyedList.keys, List.map_reverse, List.mem_reverse]
  exact apart

/-- The callback does not write the variable of the argument. -/
theorem puts_target {argument : Argument}
    (apart : argument.target ∉ argument.callback.map Prod.fst) (word : Bytes) :
    argument.puts argument.target word = argument.read word := by
  have value (value : Value) :
      KeyedList.get? (argument.stores value).reverse argument.target = some value := by
    have others : KeyedList.get? argument.callback.reverse argument.target = none := by
      rw [KeyedList.get?_eq_none_iff, KeyedList.keys, List.map_reverse, List.mem_reverse]
      exact apart
    rw [Argument.stores, List.reverse_cons, KeyedList.get?_append, others]
    simp [KeyedList.get?]
  simp only [Argument.puts, value, Option.bind_fun_some]

theorem written_eq_none {word : Bytes} {next : Option Bytes} {arguments : List Argument}
    (apart : ∀ argument ∈ arguments, target ∉ argument.targets) :
    written target word next arguments = none := by
  induction arguments with
  | nil => rfl
  | cons argument later ih =>
      obtain ⟨here, others⟩ := List.forall_mem_cons.mp apart
      have nothing : (argument.operand next).bind (argument.puts target) = none := by
        rw [Option.bind_eq_none_iff]
        exact fun word _ => puts_of_notMem here word
      rw [written, nothing, ih others]
      split <;> simp

end Stores

section Words

variable {arguments earlier later : List Argument} {argument : Argument} {target index : Nat}
  {word : Bytes} {next : Option Bytes} {parsing after : Parsing}

theorem Parsing.settings_take (takes : parsing.take index argument next = some after) :
    after.settings target =
      ((argument.operand next).bind (argument.puts target)).getD (parsing.settings target) := by
  rw [take] at takes
  split at takes
  · rename_i none
    cases takes
    rw [none]
    rfl
  · rename_i given operand
    obtain ⟨value, reads, rfl⟩ := Option.map_eq_some_iff.mp takes
    rw [operand, Option.bind_some, Argument.puts, reads, Option.bind_some]
    exact storeAll_apply _

theorem Parsing.settings_readWord (reads : readWord word next index arguments parsing = some after) :
    after.settings target = (written target word next arguments).getD (parsing.settings target) := by
  induction arguments generalizing index parsing with
  | nil =>
      cases reads
      rfl
  | cons argument later ih =>
      rw [readWord] at reads
      rw [written]
      split at reads
      · rename_i name
        rw [if_pos name]
        exact settings_take reads
      · rename_i name
        rw [if_neg name]
        split at reads
        · rename_i alternative
          obtain ⟨middle, takes, reads⟩ := Option.bind_eq_some_iff.mp reads
          rw [if_pos alternative, ih reads, settings_take takes]
          cases written target word next later <;> rfl
        · rename_i other
          rw [if_neg other]
          exact ih reads

theorem Parsing.settings_readWords {words : List Bytes}
    (reads : readWords arguments words parsing = some after) :
    after.settings target =
      (lastWritten target arguments words).getD (parsing.settings target) := by
  induction words generalizing parsing with
  | nil =>
      cases reads
      rfl
  | cons word words ih =>
      obtain ⟨middle, first, rest⟩ := Option.bind_eq_some_iff.mp reads
      rw [lastWritten, ih rest, settings_readWord first]
      cases lastWritten target arguments words <;> rfl

/-- A word gives an argument its variable where no other argument writes it. -/
theorem written_eq_occurrence (owned : argument.target ∉ argument.callback.map Prod.fst)
    (apart : ∀ other ∈ earlier ++ later, argument.target ∉ other.targets) :
    written argument.target word next (earlier ++ argument :: later) =
      (argument.occurrence earlier word next).bind argument.read := by
  induction earlier with
  | nil =>
      have others : written argument.target word next later = none :=
        written_eq_none fun other member => apart other (List.mem_append_right [] member)
      have puts : argument.puts argument.target = argument.read := funext (puts_target owned)
      simp only [List.nil_append, written, others, puts, Argument.occurrence, List.not_mem_nil,
        false_implies, implies_true, and_true, Option.none_or]
      by_cases name : word = argument.longName
      · simp [name]
      · by_cases alternative : word ∈ argument.alts
        · simp [name, alternative]
        · simp [name, alternative]
  | cons other earlier ih =>
      obtain ⟨here, others⟩ := List.forall_mem_cons.mp apart
      have nothing : (other.operand next).bind (other.puts argument.target) = none := by
        rw [Option.bind_eq_none_iff]
        exact fun word _ => puts_of_notMem here word
      rw [List.cons_append, written, nothing, ih others]
      by_cases name : word = other.longName
      · simp [name, Argument.occurrence]
      · have same : argument.occurrence (other :: earlier) word next =
            argument.occurrence earlier word next := by
          simp [Argument.occurrence, name]
        rw [if_neg name, same, Option.or_none, ite_self]

end Words

/-! ## Which arguments were set -/

section Set

variable {arguments earlier later : List Argument} {argument : Argument} {index : Nat}
  {word : Bytes} {next : Option Bytes} {parsing after : Parsing}

theorem Parsing.set_take (takes : parsing.take index argument next = some after) (other : Nat) :
    after.set other =
      (parsing.set other || (decide (other = index) && (argument.operand next).isSome)) := by
  rw [take] at takes
  split at takes
  · rename_i none
    cases takes
    simp [none]
  · rename_i given operand
    obtain ⟨value, -, rfl⟩ := Option.map_eq_some_iff.mp takes
    by_cases here : other = index
    · simp [here, operand]
    · simp [here]

/-- The search only goes on. -/
theorem Parsing.set_readWord_of_lt
    (reads : readWord word next index arguments parsing = some after) {other : Nat}
    (before : other < index) : after.set other = parsing.set other := by
  induction arguments generalizing index parsing with
  | nil =>
      cases reads
      rfl
  | cons argument later ih =>
      have apart : other ≠ index := Nat.ne_of_lt before
      have further : other < index + 1 := Nat.lt_succ_of_lt before
      rw [readWord] at reads
      split at reads
      · simp [set_take reads, apart]
      · split at reads
        · obtain ⟨middle, takes, reads⟩ := Option.bind_eq_some_iff.mp reads
          simp [ih reads further, set_take takes, apart]
        · exact ih reads further

theorem Parsing.set_readWord
    (reads : readWord word next index (earlier ++ argument :: later) parsing = some after) :
    after.set (index + earlier.length) = (parsing.set (index + earlier.length) ||
      (argument.occurrence earlier word next).isSome) := by
  induction earlier generalizing index parsing with
  | nil =>
      rw [List.nil_append, readWord] at reads
      simp only [List.length_nil, Nat.add_zero, Argument.occurrence, List.not_mem_nil,
        false_implies, implies_true, and_true]
      split at reads
      · rename_i name
        simp [set_take reads, name]
      · rename_i name
        split at reads
        · rename_i alternative
          obtain ⟨middle, takes, reads⟩ := Option.bind_eq_some_iff.mp reads
          simp [set_readWord_of_lt reads (Nat.lt_succ_self index), set_take takes, alternative]
        · rename_i other
          simp [set_readWord_of_lt reads (Nat.lt_succ_self index), name, other]
  | cons other earlier ih =>
      have shift : index + (other :: earlier).length = index + 1 + earlier.length := by
        rw [List.length_cons]
        omega
      have apart : index + 1 + earlier.length ≠ index := by omega
      have passed (name : word ≠ other.longName) : argument.occurrence (other :: earlier) word next =
          argument.occurrence earlier word next := by
        simp [Argument.occurrence, name]
      rw [List.cons_append, readWord] at reads
      rw [shift]
      split at reads
      · rename_i name
        simp [set_take reads, apart, Argument.occurrence, name]
      · rename_i name
        rw [passed name]
        split at reads
        · obtain ⟨middle, takes, reads⟩ := Option.bind_eq_some_iff.mp reads
          simp [ih reads, set_take takes, apart]
        · exact ih reads

/-- An argument is set exactly when it was given a word. -/
theorem Parsing.set_readWords {words : List Bytes}
    (reads : readWords (earlier ++ argument :: later) words parsing = some after) :
    after.set earlier.length = (parsing.set earlier.length ||
      !(argument.given earlier words).isEmpty) := by
  induction words generalizing parsing with
  | nil =>
      cases reads
      simp [Argument.given]
  | cons word words ih =>
      obtain ⟨middle, first, rest⟩ := Option.bind_eq_some_iff.mp reads
      have here := set_readWord first
      rw [Nat.zero_add] at here
      rw [ih rest, here, Argument.given]
      cases argument.occurrence earlier word words.head? <;> simp

/-- The words that the command line gives an argument, each read as its value. -/
theorem lastWritten_eq_given (owned : argument.target ∉ argument.callback.map Prod.fst)
    (apart : ∀ other ∈ earlier ++ later, argument.target ∉ other.targets) (words : List Bytes) :
    lastWritten argument.target (earlier ++ argument :: later) words =
      ((argument.given earlier words).filterMap argument.read).getLast? := by
  induction words with
  | nil => rfl
  | cons word words ih =>
      rw [lastWritten, ih, written_eq_occurrence owned apart, Argument.given, List.filterMap_append,
        List.getLast?_append]
      congr 1
      cases argument.occurrence earlier word words.head? with
      | none => rfl
      | some given =>
          simp only [Option.bind_some, Option.toList_some, List.filterMap_cons, List.filterMap_nil]
          cases argument.read given <;> rfl

end Set

end Util

end Libjaypea
