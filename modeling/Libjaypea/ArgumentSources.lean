import Libjaypea.Arguments
import Libjaypea.JsonParseRun

/-!
# Where the arguments come from

A word on the command line comes before the configuration file, which comes
before the value that the variable had.  An exception ends the program where the
text for an integer is no number.
-/

namespace Libjaypea

namespace Util

/-! ## Where an exception is thrown -/

section Throws

variable {arguments : List Argument} {argument : Argument} {index : Nat} {word : Bytes}
  {next : Option Bytes} {parsing : Parsing}

theorem exists_split_cons_iff {α : Type*} {first : α} {rest : List α}
    (Holds : List α → α → Prop) :
    (∃ earlier item later, first :: rest = earlier ++ item :: later ∧ Holds earlier item) ↔
      Holds [] first ∨
        ∃ earlier item later, rest = earlier ++ item :: later ∧ Holds (first :: earlier) item := by
  constructor
  · rintro ⟨_ | ⟨other, earlier⟩, item, later, equal, holds⟩
    · cases equal
      exact Or.inl holds
    · cases equal
      exact Or.inr ⟨earlier, item, later, rfl, holds⟩
  · rintro (holds | ⟨earlier, item, later, rfl, holds⟩)
    · exact ⟨[], first, rest, rfl, holds⟩
    · exact ⟨first :: earlier, item, later, rfl, holds⟩

/-- A word that is given to some argument is not a value of it. -/
def Unreadable (arguments : List Argument) (words : List Bytes) : Prop :=
  ∃ earlier argument later, arguments = earlier ++ argument :: later ∧
    ∃ given ∈ argument.given earlier words, argument.read given = none

/-- The same of one word of the command line. -/
def UnreadableWord (arguments : List Argument) (word : Bytes) (next : Option Bytes) : Prop :=
  ∃ earlier argument later, arguments = earlier ++ argument :: later ∧
    ∃ given ∈ argument.occurrence earlier word next, argument.read given = none

theorem unreadableWord_cons_iff {later : List Argument} :
    UnreadableWord (argument :: later) word next ↔
      (∃ given ∈ argument.occurrence [] word next, argument.read given = none) ∨
        word ≠ argument.longName ∧ UnreadableWord later word next := by
  rw [UnreadableWord, exists_split_cons_iff fun earlier (other : Argument) =>
    ∃ given ∈ other.occurrence earlier word next, other.read given = none]
  by_cases name : word = argument.longName
  · simp [Argument.occurrence, name]
  · simp [Argument.occurrence, name, UnreadableWord]

theorem Parsing.take_eq_none_iff : parsing.take index argument next = none ↔
    ∃ given ∈ argument.operand next, argument.read given = none := by
  rw [take]
  split
  · rename_i none
    simp [none]
  · rename_i given operand
    simp [operand]

theorem Parsing.readWord_eq_none_iff : readWord word next index arguments parsing = none ↔
    UnreadableWord arguments word next := by
  induction arguments generalizing index parsing with
  | nil => simp [readWord, UnreadableWord]
  | cons argument later ih =>
      rw [readWord, unreadableWord_cons_iff]
      by_cases name : word = argument.longName
      · simp [name, take_eq_none_iff, Argument.occurrence]
      · rw [if_neg name]
        by_cases alternative : word ∈ argument.alts
        · rw [if_pos alternative, Option.bind_eq_none_iff]
          simp only [ih, Argument.occurrence, alternative, or_true, List.not_mem_nil,
            false_implies, implies_true, and_self, if_true, ne_eq, name, not_false_eq_true, true_and]
          have takes : parsing.take index argument next = none ↔ _ := take_eq_none_iff
          rw [← takes]
          cases parsing.take index argument next <;> simp
        · rw [if_neg alternative, ih]
          simp [Argument.occurrence, name, alternative]

theorem Parsing.readWords_eq_none_iff {words : List Bytes} :
    readWords arguments words parsing = none ↔ Unreadable arguments words := by
  induction words generalizing parsing with
  | nil => simp [readWords, Unreadable, Argument.given]
  | cons word words ih =>
      have split : Unreadable arguments (word :: words) ↔
          UnreadableWord arguments word words.head? ∨ Unreadable arguments words := by
        simp only [Unreadable, UnreadableWord, Argument.given, List.mem_append, Option.mem_toList,
          Option.mem_def, or_and_right, exists_or, and_or_left]
      have here : readWord word words.head? 0 arguments parsing = none ↔ _ := readWord_eq_none_iff
      rw [readWords, Option.bind_eq_none_iff, split, ← here]
      simp only [ih]
      cases readWord word words.head? 0 arguments parsing <;> simp

theorem Parsing.readable_of_readWords {words : List Bytes} {after : Parsing}
    (reads : readWords arguments words parsing = some after) : ¬ Unreadable arguments words := by
  have throws : readWords arguments words parsing = none ↔ _ := readWords_eq_none_iff
  rw [← throws, reads]
  simp

end Throws

/-! ## The configuration file -/

section Configuration

variable {arguments earlier later : List Argument} {argument : Argument} {target index : Nat}
  {object : JsonObject} {parsing after : Parsing}

/-- What the configuration stores in a variable last. -/
def configured (target : Nat) (object : JsonObject) (set : Nat → Bool) :
    Nat → List Argument → Option Value
  | _, [] => none
  | index, argument :: later =>
      (configured target object set (index + 1) later).or
        (if set index then none
        else
          (KeyedList.get? object.objectValues argument.name).bind fun child =>
            argument.puts target child.stringValue)

theorem Parsing.settings_configure (reads : parsing.configure object index arguments = some after) :
    after.settings target =
      (configured target object parsing.set index arguments).getD (parsing.settings target) := by
  induction arguments generalizing index parsing with
  | nil =>
      cases reads
      rfl
  | cons argument later ih =>
      rw [configure] at reads
      rw [configured]
      split at reads
      · rename_i absent
        rw [ih reads, absent, Option.bind_none, ite_self, Option.or_none]
      · rename_i child present
        split at reads
        · rename_i given
          rw [ih reads, if_pos given, Option.or_none]
        · rename_i missing
          obtain ⟨value, read, reads⟩ := Option.bind_eq_some_iff.mp reads
          rw [ih reads, if_neg missing, present, Option.bind_some, Argument.puts, read,
            Option.bind_some]
          cases configured target object parsing.set (index + 1) later with
          | some newer => rfl
          | none => exact storeAll_apply _

theorem configured_eq_none {set : Nat → Bool}
    (apart : ∀ argument ∈ arguments, target ∉ argument.targets) :
    configured target object set index arguments = none := by
  induction arguments generalizing index with
  | nil => rfl
  | cons argument later ih =>
      obtain ⟨here, others⟩ := List.forall_mem_cons.mp apart
      have nothing : ((KeyedList.get? object.objectValues argument.name).bind fun child =>
          argument.puts target child.stringValue) = none := by
        rw [Option.bind_eq_none_iff]
        exact fun child _ => puts_of_notMem here child.stringValue
      rw [configured, ih others, nothing, ite_self]
      rfl

theorem configured_eq_read {set : Nat → Bool}
    (owned : argument.target ∉ argument.callback.map Prod.fst)
    (apart : ∀ other ∈ earlier ++ later, argument.target ∉ other.targets) :
    configured argument.target object set index (earlier ++ argument :: later) =
      if set (index + earlier.length) then none
      else
        (KeyedList.get? object.objectValues argument.name).bind fun child =>
          argument.read child.stringValue := by
  induction earlier generalizing index with
  | nil =>
      have others : configured argument.target object set (index + 1) later = none :=
        configured_eq_none fun other member => apart other (List.mem_append_right [] member)
      simp only [List.nil_append, configured, others, puts_target owned, Option.none_or,
        List.length_nil, Nat.add_zero]
  | cons other earlier ih =>
      obtain ⟨here, others⟩ := List.forall_mem_cons.mp apart
      have nothing : ((KeyedList.get? object.objectValues other.name).bind fun child =>
          other.puts argument.target child.stringValue) = none := by
        rw [Option.bind_eq_none_iff]
        exact fun child _ => puts_of_notMem here child.stringValue
      have shift : index + (other :: earlier).length = index + 1 + earlier.length := by
        rw [List.length_cons]
        omega
      rw [List.cons_append, configured, ih others, nothing, ite_self, Option.or_none, shift]

/-- A text of the configuration is read, and is not a value of its argument. -/
theorem Parsing.configure_eq_none_iff : parsing.configure object index arguments = none ↔
    ∃ earlier argument later, arguments = earlier ++ argument :: later ∧
      parsing.set (index + earlier.length) = false ∧
      ∃ child ∈ KeyedList.get? object.objectValues argument.name,
        argument.read child.stringValue = none := by
  induction arguments generalizing index parsing with
  | nil => simp [configure]
  | cons argument later ih =>
      have shift (earlier : List Argument) :
          index + (argument :: earlier).length = index + 1 + earlier.length := by
        rw [List.length_cons]
        omega
      rw [exists_split_cons_iff fun earlier (argument : Argument) =>
        parsing.set (index + earlier.length) = false ∧
        ∃ child ∈ KeyedList.get? object.objectValues argument.name,
          argument.read child.stringValue = none]
      simp only [shift, List.length_nil, Nat.add_zero]
      rw [configure]
      cases present : KeyedList.get? object.objectValues argument.name with
      | none =>
          rw [ih]
          simp
      | some child =>
          cases given : parsing.set index with
          | true =>
              simp only [if_true, ih]
              simp
          | false =>
              simp only [Bool.false_eq_true, if_false, Option.bind_eq_none_iff, ih]
              cases read : argument.read child.stringValue <;> simp [read]

end Configuration

/-! ## What becomes of the arguments -/

section Outcome

/-- The configuration at a path; without a file it has no members. -/
def Loads (files : Bytes → Option Bytes) (stale : Memory) (path : Bytes)
    (configuration : JsonObject) : Prop :=
  match files path with
  | none => configuration = .new .notype
  | some data => ∃ it, Fuelled.Converges
      (JsonObject.parse (Memory.ofString stale data) (.new .notype) 1) (configuration, it)

/-- The command line comes before the configuration, and the configuration before
what the variable held. -/
def Argument.resolved (earlier : List Argument) (argument : Argument) (argv : List Bytes)
    (configuration : JsonObject) (settings : Settings) : Option Value :=
  match (argument.given earlier argv).getLast? with
  | some word => argument.read word
  | none =>
      match KeyedList.get? configuration.objectValues argument.name with
      | some child => argument.read child.stringValue
      | none => some (settings argument.target)

/-- Nothing else writes the variable of the argument. -/
def Owned (earlier : List Argument) (argument : Argument) (later : List Argument) : Prop :=
  argument.target ∉ argument.callback.map Prod.fst ∧
    ∀ other ∈ earlier ++ later, argument.target ∉ other.targets

/-- A text of the configuration is read, and is not a value of its argument. -/
def IllConfigured (arguments : List Argument) (argv : List Bytes) (configuration : JsonObject) :
    Prop :=
  ∃ earlier argument later, arguments = earlier ++ argument :: later ∧
    argument.given earlier argv = [] ∧
    ∃ child ∈ KeyedList.get? configuration.objectValues argument.name,
      argument.read child.stringValue = none

/-- The path of the configuration file may come from the command line itself. -/
def configurationPath (arguments : List Argument) (argv : List Bytes) (settings : Settings) :
    Bytes :=
  let argument : Argument := ⟨bytes "configuration_file", [bytes "-cf"], [], .string, configPath⟩
  match (argument.given (arguments ++ ownArguments.take 1) argv).getLast? with
  | some word => word
  | none => (settings configPath).text

def AsksForHelp (argv : List Bytes) : Prop :=
  bytes "--help" ∈ argv ∨ bytes "-h" ∈ argv

/-- The configuration is not needed, or its parser ends. -/
def Returns (files : Bytes → Option Bytes) (stale : Memory) (arguments : List Argument)
    (argv : List Bytes) (settings : Settings) : Prop :=
  AsksForHelp argv ∨ Unreadable (arguments ++ ownArguments) argv ∨
    ∃ configuration, Loads files stale (configurationPath arguments argv settings) configuration

/-- What becomes of the arguments. -/
def Outcome (files : Bytes → Option Bytes) (stale : Memory) (arguments : List Argument)
    (argv : List Bytes) (settings : Settings) : Parsed → Prop
  | .usage => AsksForHelp argv
  | .thrown => ¬ AsksForHelp argv ∧ (Unreadable (arguments ++ ownArguments) argv ∨
      ∃ configuration, Loads files stale (configurationPath arguments argv settings) configuration ∧
        IllConfigured (arguments ++ ownArguments) argv configuration)
  | .parsed after => ¬ AsksForHelp argv ∧ ¬ Unreadable (arguments ++ ownArguments) argv ∧
      ∃ configuration, Loads files stale (configurationPath arguments argv settings) configuration ∧
        ¬ IllConfigured (arguments ++ ownArguments) argv configuration ∧
        ∀ earlier argument later, arguments ++ ownArguments = earlier ++ argument :: later →
          Owned earlier argument later →
          argument.resolved earlier argv configuration settings = some (after argument.target)

variable {arguments earlier later : List Argument} {argument : Argument} {argv : List Bytes}
  {settings : Settings} {parsing after : Parsing} {configuration : JsonObject}

/-- Every word that is given to an argument is a value of it. -/
theorem read_ne_none (readable : ¬ Unreadable (earlier ++ argument :: later) argv) :
    ∀ word ∈ argument.given earlier argv, argument.read word ≠ none :=
  fun word member unread => readable ⟨earlier, argument, later, rfl, word, member, unread⟩

theorem lastWritten_eq_getLast? (owned : Owned earlier argument later)
    (readable : ¬ Unreadable (earlier ++ argument :: later) argv) :
    lastWritten argument.target (earlier ++ argument :: later) argv =
      (argument.given earlier argv).getLast?.bind argument.read := by
  rw [lastWritten_eq_given owned.1 owned.2]
  have reads := read_ne_none readable
  generalize argument.given earlier argv = words at reads
  rcases List.eq_nil_or_concat words with rfl | ⟨front, final, rfl⟩
  · rfl
  · obtain ⟨value, read⟩ := Option.ne_none_iff_exists'.mp (reads final (by simp))
    simp [read]

theorem Parsing.set_iff
    (reads : readWords (earlier ++ argument :: later) argv ⟨fun _ => false, settings⟩ =
      some parsing) :
    parsing.set earlier.length = false ↔ argument.given earlier argv = [] := by
  simp [set_readWords reads]

/-- An argument that was not given keeps its variable until the configuration is read. -/
theorem Parsing.resolved_of_configure (owned : Owned earlier argument later)
    (reads : readWords (earlier ++ argument :: later) argv ⟨fun _ => false, settings⟩ =
      some parsing)
    (configures : parsing.configure configuration 0 (earlier ++ argument :: later) = some after) :
    argument.resolved earlier argv configuration settings =
      some (after.settings argument.target) := by
  have readable := readable_of_readWords reads
  have written : parsing.settings argument.target = _ := settings_readWords reads
  rw [lastWritten_eq_getLast? owned readable] at written
  have stored : after.settings argument.target = _ := settings_configure configures
  rw [configured_eq_read owned.1 owned.2, Nat.zero_add] at stored
  rw [Argument.resolved]
  cases last : (argument.given earlier argv).getLast? with
  | some word =>
      have given : parsing.set earlier.length = true := by
        rw [← Bool.not_eq_false, set_iff reads]
        rintro nothing
        rw [nothing] at last
        cases last
      have member := List.mem_of_getLast? last
      obtain ⟨value, read⟩ := Option.ne_none_iff_exists'.mp (read_ne_none readable word member)
      rw [last, Option.bind_some, read, Option.getD_some] at written
      rw [stored, given, if_pos rfl, Option.getD_none, written]
      exact read
  | none =>
      have missing : parsing.set earlier.length = false := by
        rw [set_iff reads]
        exact List.getLast?_eq_none_iff.mp last
      rw [last, Option.bind_none, Option.getD_none] at written
      rw [missing, if_neg (by decide), written] at stored
      rw [stored]
      cases present : KeyedList.get? configuration.objectValues argument.name with
      | none => rfl
      | some child =>
          cases read : argument.read child.stringValue with
          | some value => simp [read]
          | none =>
              have throws : parsing.configure configuration 0 (earlier ++ argument :: later) =
                  none := by
                rw [configure_eq_none_iff]
                refine ⟨earlier, argument, later, rfl, ?_, child, present, read⟩
                rwa [Nat.zero_add]
              rw [configures] at throws
              cases throws

theorem Parsing.configure_eq_none_iff_illConfigured
    (reads : readWords arguments argv ⟨fun _ => false, settings⟩ = some parsing) :
    parsing.configure configuration 0 arguments = none ↔
      IllConfigured arguments argv configuration := by
  rw [configure_eq_none_iff]
  constructor
  · rintro ⟨earlier, argument, later, rfl, missing, rest⟩
    rw [Nat.zero_add, set_iff reads] at missing
    exact ⟨earlier, argument, later, rfl, missing, rest⟩
  · rintro ⟨earlier, argument, later, rfl, missing, rest⟩
    rw [← set_iff reads] at missing
    refine ⟨earlier, argument, later, rfl, ?_, rest⟩
    rwa [Nat.zero_add]

/-- A file that is not there configures nothing. -/
theorem Parsing.configure_empty (index : Nat) :
    parsing.configure (.new .notype) index arguments = some parsing := by
  induction arguments generalizing index with
  | nil => rfl
  | cons argument later ih =>
      rw [configure]
      exact ih (index + 1)

/-- The path that the program opens. -/
theorem Parsing.path_eq (apart : ∀ argument ∈ arguments, configPath ∉ argument.targets)
    (reads : readWords (arguments ++ ownArguments) argv ⟨fun _ => false, settings⟩ =
      some parsing) :
    (parsing.settings configPath).text = configurationPath arguments argv settings := by
  let argument : Argument := ⟨bytes "configuration_file", [bytes "-cf"], [], .string, configPath⟩
  have split : arguments ++ ownArguments =
      (arguments ++ ownArguments.take 1) ++ argument :: ownArguments.drop 2 := by
    simp [ownArguments, argument]
  have owned : Owned (arguments ++ ownArguments.take 1) argument (ownArguments.drop 2) := by
    refine ⟨List.not_mem_nil, fun other member => ?_⟩
    rw [List.append_assoc, List.mem_append] at member
    rcases member with mine | own
    · exact apart other mine
    · simp only [ownArguments, List.take_succ_cons, List.take_zero, List.drop_succ_cons,
        List.drop_zero, List.singleton_append, List.mem_cons, List.not_mem_nil, or_false] at own
      rcases own with rfl | rfl
      · simp [argument, Argument.targets, configPath, verbose]
      · simp [argument, Argument.targets, configPath, secretCaptchaUrl]
  rw [split] at reads
  have readable := readable_of_readWords reads
  have written : parsing.settings configPath = _ := settings_readWords reads
  rw [show configPath = argument.target from rfl, lastWritten_eq_getLast? owned readable] at written
  rw [show configPath = argument.target from rfl, written, configurationPath]
  change _ = match (argument.given (arguments ++ ownArguments.take 1) argv).getLast? with
    | some word => word
    | none => (settings configPath).text
  cases (argument.given (arguments ++ ownArguments.take 1) argv).getLast? <;> rfl

/-- How `parse_arguments` ends. -/
inductive Ends (files : Bytes → Option Bytes) (stale : Memory) (arguments : List Argument)
    (argv : List Bytes) (settings : Settings) : Parsed → Prop
  | usage (help : AsksForHelp argv) : Ends files stale arguments argv settings .usage
  | words (noHelp : ¬ AsksForHelp argv)
      (throws : Parsing.readWords (arguments ++ ownArguments) argv
        ⟨fun _ => false, settings⟩ = none) : Ends files stale arguments argv settings .thrown
  | configuration {parsing : Parsing} {configuration : JsonObject} (noHelp : ¬ AsksForHelp argv)
      (reads : Parsing.readWords (arguments ++ ownArguments) argv ⟨fun _ => false, settings⟩ =
        some parsing)
      (loads : Loads files stale (configurationPath arguments argv settings) configuration)
      (throws : parsing.configure configuration 0 (arguments ++ ownArguments) = none) :
      Ends files stale arguments argv settings .thrown
  | parsed {parsing last : Parsing} {configuration : JsonObject} (noHelp : ¬ AsksForHelp argv)
      (reads : Parsing.readWords (arguments ++ ownArguments) argv ⟨fun _ => false, settings⟩ =
        some parsing)
      (loads : Loads files stale (configurationPath arguments argv settings) configuration)
      (configures : parsing.configure configuration 0 (arguments ++ ownArguments) = some last) :
      Ends files stale arguments argv settings (.parsed last.settings)

variable {files : Bytes → Option Bytes} {stale : Memory} {path : Bytes} {outcome : Parsed}

theorem loads_unique {first second : JsonObject} (one : Loads files stale path first)
    (two : Loads files stale path second) : first = second := by
  unfold Loads at one two
  cases present : files path with
  | none =>
      rw [present] at one two
      rw [one, two]
  | some data =>
      rw [present] at one two
      obtain ⟨firstIt, first⟩ := one
      obtain ⟨secondIt, second⟩ := two
      exact congrArg Prod.fst ((JsonObject.parse_stable _ _ _).unique first second)

theorem ends_of_configure (noHelp : ¬ AsksForHelp argv)
    (reads : Parsing.readWords (arguments ++ ownArguments) argv ⟨fun _ => false, settings⟩ =
      some parsing)
    (loads : Loads files stale (configurationPath arguments argv settings) configuration) :
    Ends files stale arguments argv settings
      (match parsing.configure configuration 0 (arguments ++ ownArguments) with
        | none => .thrown
        | some parsing => .parsed parsing.settings) := by
  cases configures : parsing.configure configuration 0 (arguments ++ ownArguments) with
  | none => exact .configuration noHelp reads loads configures
  | some last => exact .parsed noHelp reads loads configures

theorem outcome_of_ends (ends : Ends files stale arguments argv settings outcome) :
    Outcome files stale arguments argv settings outcome := by
  cases ends with
  | usage help => exact help
  | words noHelp throws =>
      exact ⟨noHelp, Or.inl (Parsing.readWords_eq_none_iff.mp throws)⟩
  | configuration noHelp reads loads throws =>
      exact ⟨noHelp,
        Or.inr ⟨_, loads, (Parsing.configure_eq_none_iff_illConfigured reads).mp throws⟩⟩
  | @parsed parsing last configuration noHelp reads loads configures =>
      refine ⟨noHelp, Parsing.readable_of_readWords reads, configuration, loads, ?_, ?_⟩
      · rw [← Parsing.configure_eq_none_iff_illConfigured reads, configures]
        simp
      · intro earlier argument later split owned
        rw [split] at reads configures
        exact Parsing.resolved_of_configure owned reads configures

section Parse

variable (apart : ∀ argument ∈ arguments, configPath ∉ argument.targets)

include apart

theorem ends_of_parse
    (ends : Fuelled.Converges (parseArguments files stale arguments argv settings) outcome) :
    Ends files stale arguments argv settings outcome := by
  obtain ⟨fuel, ends⟩ := ends
  rw [parseArguments] at ends
  split at ends
  · rename_i help
    cases ends
    exact .usage help
  rename_i noHelp
  split at ends
  · rename_i throws
    cases ends
    exact .words noHelp throws
  · rename_i parsing reads
    rw [Parsing.path_eq apart reads] at ends
    split at ends
    · rename_i missing
      cases ends
      -- Without a file, the configuration has no members.
      have loads : Loads files stale (configurationPath arguments argv settings)
          (.new .notype) := by
        simp [Loads, missing]
      have same := ends_of_configure noHelp reads loads
      rwa [Parsing.configure_empty] at same
    · rename_i data present
      obtain ⟨⟨configuration, it⟩, parses, rfl⟩ := Option.map_eq_some_iff.mp ends
      have loads : Loads files stale (configurationPath arguments argv settings)
          configuration := by
        simp only [Loads, present]
        exact ⟨it, fuel, parses⟩
      exact ends_of_configure noHelp reads loads

theorem exists_parse (returns : Returns files stale arguments argv settings) :
    ∃ outcome, Fuelled.Converges (parseArguments files stale arguments argv settings) outcome := by
  by_cases help : AsksForHelp argv
  · exact ⟨.usage, 0, if_pos help⟩
  have noHelp : ¬ (bytes "--help" ∈ argv ∨ bytes "-h" ∈ argv) := help
  cases reads : Parsing.readWords (arguments ++ ownArguments) argv ⟨fun _ => false, settings⟩ with
  | none =>
      refine ⟨.thrown, 0, ?_⟩
      rw [parseArguments, if_neg noHelp, reads]
  | some parsing =>
      have loaded : ∃ configuration,
          Loads files stale (configurationPath arguments argv settings) configuration := by
        rcases returns with asked | unreadable | loaded
        · exact absurd asked help
        · exact absurd unreadable (Parsing.readable_of_readWords reads)
        · exact loaded
      obtain ⟨configuration, loads⟩ := loaded
      rw [← Parsing.path_eq apart reads, Loads] at loads
      cases present : files (parsing.settings configPath).text with
      | none =>
          refine ⟨.parsed parsing.settings, 0, ?_⟩
          rw [parseArguments, if_neg noHelp, reads]
          simp only [present]
      | some data =>
          rw [present] at loads
          obtain ⟨it, fuel, parses⟩ := loads
          have returned : (parseArguments files stale arguments argv settings fuel).isSome := by
            rw [parseArguments, if_neg noHelp, reads]
            simp only [present, parses, Option.map_some, Option.isSome_some]
          obtain ⟨outcome, parses⟩ := Option.isSome_iff_exists.mp returned
          exact ⟨outcome, fuel, parses⟩

/-- The program goes on with its arguments exactly if nothing keeps it from it. -/
theorem parsed_iff :
    (∃ after, Fuelled.Converges (parseArguments files stale arguments argv settings)
        (.parsed after)) ↔
      ¬ AsksForHelp argv ∧ ¬ Unreadable (arguments ++ ownArguments) argv ∧
        ∃ configuration,
          Loads files stale (configurationPath arguments argv settings) configuration ∧
            ¬ IllConfigured (arguments ++ ownArguments) argv configuration := by
  constructor
  · rintro ⟨after, parses⟩
    obtain ⟨noHelp, readable, configuration, loads, fine, -⟩ :=
      outcome_of_ends (ends_of_parse apart parses)
    exact ⟨noHelp, readable, configuration, loads, fine⟩
  · rintro ⟨noHelp, readable, configuration, loads, fine⟩
    obtain ⟨outcome, parses⟩ := exists_parse apart (.inr (.inr ⟨configuration, loads⟩))
    have ends := outcome_of_ends (ends_of_parse apart parses)
    cases outcome with
    | usage => exact absurd ends noHelp
    | thrown =>
        rcases ends.2 with unreadable | ⟨other, otherLoads, ill⟩
        · exact absurd unreadable readable
        · cases loads_unique loads otherLoads
          exact absurd ill fine
    | parsed after => exact ⟨after, parses⟩

/-- Whatever the command line and the configuration, `parse_arguments` returns
exactly if the parser of the configuration does or is not reached; an argument
that owns its variable then has the value that comes first, and an exception is
thrown exactly for a text that is no number. -/
theorem outcome_of_parse :
    ((∃ outcome, Fuelled.Converges (parseArguments files stale arguments argv settings) outcome) ↔
      Returns files stale arguments argv settings) ∧
    ∀ outcome, Fuelled.Converges (parseArguments files stale arguments argv settings) outcome →
      Outcome files stale arguments argv settings outcome := by
  have becomes (outcome : Parsed)
      (parses : Fuelled.Converges (parseArguments files stale arguments argv settings) outcome) :
      Outcome files stale arguments argv settings outcome :=
    outcome_of_ends (ends_of_parse apart parses)
  refine ⟨⟨?_, exists_parse apart⟩, becomes⟩
  rintro ⟨outcome, parses⟩
  have ends := becomes outcome parses
  cases outcome with
  | usage => exact .inl ends
  | thrown =>
      rcases ends.2 with unreadable | ⟨configuration, loads, -⟩
      · exact .inr (.inl unreadable)
      · exact .inr (.inr ⟨configuration, loads⟩)
  | parsed after =>
      obtain ⟨-, -, configuration, loads, -⟩ := ends
      exact .inr (.inr ⟨configuration, loads⟩)

end Parse

theorem outcome_of_parse_port :
    ∃ after : Settings,
      Outcome (fun _ => some (bytes "\x7b\"port\":\"1\",\"verbose\":\"no\"\x7d")) (fun _ => 0)
        [⟨bytes "port", [bytes "-p"], [], .integer, 3⟩]
        [bytes "a", bytes "-p", bytes "80", bytes "--port", bytes "8080"] (fun _ => .integer 0)
        (.parsed after) ∧
      after 3 = .integer 8080 ∧ after verbose = .boolean true := by
  have parses : (parseArguments
      (fun _ => some (bytes "\x7b\"port\":\"1\",\"verbose\":\"no\"\x7d")) (fun _ => 0)
      [⟨bytes "port", [bytes "-p"], [], .integer, 3⟩]
      [bytes "a", bytes "-p", bytes "80", bytes "--port", bytes "8080"] (fun _ => .integer 0) 99).map
        (fun
          | .parsed after => [after 3, after verbose]
          | _ => []) = some [.integer 8080, .boolean true] := by
    decide +kernel
  obtain ⟨outcome, ends, shows⟩ := Option.map_eq_some_iff.mp parses
  cases outcome with
  | usage => cases shows
  | thrown => cases shows
  | parsed after =>
      obtain ⟨port, rest⟩ := List.cons.inj shows
      exact ⟨after, (outcome_of_parse (by decide)).2 _ ⟨99, ends⟩, port, (List.cons.inj rest).1⟩

end Outcome

end Util

end Libjaypea
