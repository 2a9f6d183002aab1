import Libjaypea.ArgumentSources

/-!
# The settings of jph2

The arguments of `initialization.cpp`.  Both `hostname` and `admin` store in the
variable `hostname`.
-/

namespace Libjaypea

namespace Jph2

open Util

attribute [local instance] lawfulBEq_bytes

/-- The variables of `main`, behind those of `Util`. -/
def hostname : Nat := 3
def publicDirectory : Nat := 4
def sslCertificate : Nat := 5
def sslPrivateKey : Nat := 6
def httpPort : Nat := 7
def httpsPort : Nat := 8
def tanksPort : Nat := 9
def cacheMegabytes : Nat := 10
def adminEmail : Nat := 11
def sendgridKey : Nat := 12
def connectionString : Nat := 13

def hostnameArgument : Argument :=
  ⟨bytes "hostname", [bytes "-hn"], [], .string, hostname⟩

def adminArgument : Argument :=
  ⟨bytes "admin", [bytes "-a"], [], .string, hostname⟩

/-- The arguments behind the first two. -/
def otherArguments : List Argument :=
  [⟨bytes "public_directory", [bytes "-pd"], [], .string, publicDirectory⟩,
    ⟨bytes "ssl_certificate", [bytes "-crt"], [], .string, sslCertificate⟩,
    ⟨bytes "ssl_private_key", [bytes "-key"], [], .string, sslPrivateKey⟩,
    ⟨bytes "http_port", [bytes "-p"], [], .integer, httpPort⟩,
    ⟨bytes "https_port", [bytes "-sp"], [], .integer, httpsPort⟩,
    ⟨bytes "tanks_port", [bytes "-tp"], [], .integer, tanksPort⟩,
    ⟨bytes "cache_megabytes", [bytes "-cm"], [], .integer, cacheMegabytes⟩,
    ⟨bytes "admin_email", [bytes "-ae"], [], .string, adminEmail⟩,
    ⟨bytes "sendgrid_key", [bytes "-sk"], [], .string, sendgridKey⟩,
    ⟨bytes "postgresql_connection", [bytes "-pcs"], [], .string, connectionString⟩]

def arguments : List Argument :=
  hostnameArgument :: adminArgument :: otherArguments

theorem configPath_notMem_targets : ∀ argument ∈ arguments, configPath ∉ argument.targets := by
  decide +kernel

/-- The words that the command line gives to either argument. -/
def hostWords : List Bytes → List Bytes
  | [] => []
  | word :: words =>
      (if word ∈ [bytes "--hostname", bytes "-hn", bytes "--admin", bytes "-a"] then
        words.head?.toList
      else []) ++ hostWords words

/-- The host name that jph2 ends up with. -/
def resolvedHostname (argv : List Bytes) (configuration : JsonObject) (settings : Settings) :
    Value :=
  match
    if adminArgument.given [hostnameArgument] argv = [] then
      KeyedList.get? configuration.objectValues (bytes "admin")
    else none with
  | some child => .string child.stringValue
  | none =>
      match
        if hostnameArgument.given [] argv = [] then
          KeyedList.get? configuration.objectValues (bytes "hostname")
        else none with
      | some child => .string child.stringValue
      | none =>
          match (hostWords argv).getLast? with
          | some word => .string word
          | none => settings hostname

section Hostname

variable {argv : List Bytes} {settings : Settings} {parsing after : Parsing}
  {configuration : JsonObject}

theorem hostname_notMem_targets :
    ∀ argument ∈ otherArguments ++ ownArguments, hostname ∉ argument.targets := by
  decide +kernel

theorem written_hostname (word : Bytes) (next : Option Bytes) :
    written hostname word next (arguments ++ ownArguments) =
      if word ∈ [bytes "--hostname", bytes "-hn", bytes "--admin", bytes "-a"] then
        next.map .string
      else none := by
  have others : written hostname word next (otherArguments ++ ownArguments) = none :=
    written_eq_none hostname_notMem_targets
  have puts (argument : Argument) (store : argument = hostnameArgument ∨ argument = adminArgument) :
      (argument.operand next).bind (argument.puts hostname) = next.map .string := by
    rcases store with rfl | rfl
    · cases next <;> rfl
    · cases next <;> rfl
  have hostnameName : hostnameArgument.longName = bytes "--hostname" := by decide +kernel
  have adminName : adminArgument.longName = bytes "--admin" := by decide +kernel
  change written hostname word next
    (hostnameArgument :: adminArgument :: (otherArguments ++ ownArguments)) = _
  have hostnameAlts : hostnameArgument.alts = [bytes "-hn"] := rfl
  have adminAlts : adminArgument.alts = [bytes "-a"] := rfl
  simp only [written, others, puts _ (Or.inl rfl), puts _ (Or.inr rfl), Option.none_or,
    hostnameName, adminName, hostnameAlts, adminAlts, List.mem_cons, List.not_mem_nil, or_false]
  by_cases name : word = bytes "--hostname"
  · simp [name]
  by_cases short : word = bytes "-hn"
  · have apart : bytes "-hn" ≠ bytes "--admin" ∧ bytes "-hn" ≠ bytes "-a" := by decide +kernel
    subst short
    simp [name, apart.1, apart.2]
  by_cases admin : word = bytes "--admin"
  · simp [admin]
  · simp [name, short, admin]

theorem lastWritten_hostname (words : List Bytes) :
    lastWritten hostname (arguments ++ ownArguments) words =
      (hostWords words).getLast?.map .string := by
  induction words with
  | nil => rfl
  | cons word words ih =>
      rw [lastWritten, ih, written_hostname, hostWords, List.getLast?_append, Option.map_or]
      split
      · cases words.head? <;> rfl
      · rfl

theorem configured_hostname (set : Nat → Bool) :
    configured hostname configuration set 0 (arguments ++ ownArguments) =
      (if set 1 then none
        else (KeyedList.get? configuration.objectValues (bytes "admin")).map fun child =>
          .string child.stringValue).or
      (if set 0 then none
        else (KeyedList.get? configuration.objectValues (bytes "hostname")).map fun child =>
          .string child.stringValue) := by
  have others : configured hostname configuration set 2 (otherArguments ++ ownArguments) = none :=
    configured_eq_none hostname_notMem_targets
  change configured hostname configuration set 0
    (hostnameArgument :: adminArgument :: (otherArguments ++ ownArguments)) = _
  have puts (text : Bytes) : hostnameArgument.puts hostname text = some (.string text) ∧
      adminArgument.puts hostname text = some (.string text) := ⟨rfl, rfl⟩
  have names : hostnameArgument.name = bytes "hostname" ∧ adminArgument.name = bytes "admin" :=
    ⟨rfl, rfl⟩
  simp only [configured, others, puts, names, Option.none_or, Nat.zero_add, Option.map_eq_bind,
    Function.comp_def]

theorem resolvedHostname_of_parse {files : Bytes → Option Bytes} {stale : Memory}
    {after : Settings}
    (ends : Fuelled.Converges (parseArguments files stale arguments argv settings)
      (.parsed after)) :
    ∃ configuration, Loads files stale (configurationPath arguments argv settings) configuration ∧
      after hostname = resolvedHostname argv configuration settings := by
  cases ends_of_parse configPath_notMem_targets ends with
  | @parsed parsing last configuration noHelp reads loads configures =>
      refine ⟨configuration, loads, ?_⟩
      have written : parsing.settings hostname = _ := Parsing.settings_readWords reads
      have stored : last.settings hostname = _ := Parsing.settings_configure configures
      have hostnameSet := @Parsing.set_readWords [] (adminArgument :: (otherArguments ++
        ownArguments)) hostnameArgument _ _ _ reads
      have adminSet := @Parsing.set_readWords [hostnameArgument] (otherArguments ++ ownArguments)
        adminArgument _ _ _ reads
      simp only [List.length_nil, List.length_singleton, Bool.false_or] at hostnameSet adminSet
      rw [lastWritten_hostname] at written
      rw [configured_hostname, hostnameSet, adminSet, written] at stored
      rw [stored, resolvedHostname]
      generalize adminArgument.given [hostnameArgument] argv = adminWords
      generalize hostnameArgument.given [] argv = hostnameWords
      have lasts : ((hostWords argv).getLast?.map Value.string).getD (settings hostname) =
          match (hostWords argv).getLast? with
          | some word => .string word
          | none => settings hostname := by
        cases (hostWords argv).getLast? <;> rfl
      rw [lasts]
      cases adminWords with
      | nil =>
          cases KeyedList.get? configuration.objectValues (bytes "admin") with
          | some child => rfl
          | none =>
              cases hostnameWords with
              | nil =>
                  cases KeyedList.get? configuration.objectValues (bytes "hostname") <;> rfl
              | cons word words => rfl
      | cons word words =>
          cases hostnameWords with
          | nil => cases KeyedList.get? configuration.objectValues (bytes "hostname") <;> rfl
          | cons word words => rfl

/-- In the configuration `admin` comes behind `hostname`, and only what the command
line gives `admin` itself makes up for it. -/
theorem hostname_of_parse (files : Bytes → Option Bytes) (stale : Memory) (argv : List Bytes)
    (settings : Settings) :
    ((∃ after, Fuelled.Converges (parseArguments files stale arguments argv settings)
        (.parsed after)) ↔
      ¬ AsksForHelp argv ∧ ¬ Unreadable (arguments ++ ownArguments) argv ∧
        ∃ configuration,
          Loads files stale (configurationPath arguments argv settings) configuration ∧
            ¬ IllConfigured (arguments ++ ownArguments) argv configuration) ∧
    ∀ after, Fuelled.Converges (parseArguments files stale arguments argv settings)
        (.parsed after) →
      ∃ configuration,
        Loads files stale (configurationPath arguments argv settings) configuration ∧
          after hostname = resolvedHostname argv configuration settings :=
  ⟨parsed_iff configPath_notMem_targets, fun _ => resolvedHostname_of_parse⟩

/-- The host name of the command line gives way to the `admin` of the configuration. -/
theorem hostname_of_parse_admin :
    ∃ (after : Settings) (configuration : JsonObject),
      Loads (fun _ => some (bytes "\x7b\"admin\":\"b.net\",\"https_port\":\"443\"\x7d"))
        (fun _ => 0)
        (configurationPath arguments [bytes "jph2", bytes "-hn", bytes "a.net"] fun _ => .integer 0)
        configuration ∧
      after hostname = .string (bytes "b.net") ∧
      after hostname = resolvedHostname [bytes "jph2", bytes "-hn", bytes "a.net"] configuration
        (fun _ => .integer 0) := by
  have parses : (parseArguments
      (fun _ => some (bytes "\x7b\"admin\":\"b.net\",\"https_port\":\"443\"\x7d")) (fun _ => 0)
      arguments [bytes "jph2", bytes "-hn", bytes "a.net"] (fun _ => .integer 0) 99).map
        (fun
          | .parsed after => [after hostname, after httpsPort]
          | _ => []) = some [.string (bytes "b.net"), .integer 443] := by
    decide +kernel
  obtain ⟨outcome, ends, shows⟩ := Option.map_eq_some_iff.mp parses
  cases outcome with
  | usage => cases shows
  | thrown => cases shows
  | parsed after =>
      obtain ⟨configuration, loads, same⟩ := (hostname_of_parse _ _ _ _).2 after ⟨99, ends⟩
      exact ⟨after, configuration, loads, (List.cons.inj shows).1, same⟩

end Hostname

end Jph2

end Libjaypea
