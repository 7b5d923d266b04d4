import AtomicGrid.CommandLine.Options
import AtomicGrid.Config.Toml
import AtomicGrid.Files
import AtomicGrid.Simulation
import AtomicGrid.Text.Quoted

/-!
# The command line

The commands check, print and generate configuration files (`validate_config`, `show_config` and
`generate_config`), and simulate writes.  `Command.ofArgs` reads a command from arguments, and
`Command.run` carries it out on a disk.
-/

set_option autoImplicit false

namespace AtomicGrid.CommandLine

/-! ## Texts -/

/-- Eight hexadecimal digits. -/
def hex8 (n : UInt32) : String :=
  String.ofList ((List.range 8).map fun i => (n.toNat >>> (28 - 4 * i) % 16).digitChar)

/-- The configuration file to start from. -/
def template : String :=
  "# Ripple Configuration\n\n[node]\nnode_id = 1\ncache_name = \"default\"\n\n[atomic]\n" ++
  "# full_sync | primary_sync | full_async\nwrite_sync_mode = \"full_sync\"\nremap_count = 32\n" ++
  "wait_topology_future = true\n# primary | backups\nnear_relay = \"primary\"\n" ++
  "send_mapping_to_near = false\npartitions = 1024\nbackups = 1\nnear_cache = false\n\n" ++
  "[telemetry]\nlog_level = \"info\"\n"

/-- The configuration file that is looked at if no other is named. -/
def defaultFile : String := "config/ripple.toml"

/-! ## Commands -/

inductive Command where
  /-- Checks a configuration file. -/
  | validate (file : String)
  /-- Prints a configuration file with all settings. -/
  | print (file : String)
  /-- Prints the template of a configuration file, or writes it. -/
  | generate (output : Option String)
  /-- Simulates writes. -/
  | simulate (file : Option String) (logLevel : Option String) (simulation : Simulation)
  deriving DecidableEq, Repr, Inhabited

/-- Why a command failed. -/
inductive CommandError where
  | noConfigFile (file : String)
  | unreadable (file : String)
  | malformed
  | faulty (fault : ConfigFault)
  | notLoaded (file : String)
  | notRendered
  | notWritten (file : String)
  | noNodes
  | broken (error : SimulationError)
  deriving DecidableEq, Repr, Inhabited

def CommandError.message : CommandError → String
  | .noConfigFile file => "Config file not found: " ++ Text.quote file
  | .unreadable file => "failed to read config file: " ++ file
  | .malformed => "failed to parse config file"
  | .faulty fault => fault.message
  | .notLoaded file => "failed to load config from " ++ Text.quote file
  | .notRendered => Config.renderFailure
  | .notWritten file => "failed to write " ++ Text.quote file
  | .noNodes => "--nodes must be > 0"
  | .broken e => e.message

/-- What a command leaves behind on the screen, and why it failed, if it did. -/
structure Outcome where
  output : String := ""
  error : Option CommandError := none
  deriving DecidableEq, Repr, Inhabited

/-! ## Reading a command -/

/-- What options say. -/
structure Settings where
  config : Option String := none
  logLevel : Option String := none
  file : String := defaultFile
  output : Option String := none
  simulation : Simulation := {}

/-- A number of 64 bits, which may have a plus sign. -/
def number? (s : String) : Option Nat :=
  let digits := match s.toList with
    | '+' :: rest => rest
    | all => all
  let n := digits.foldl (fun n c => n * 10 + (c.toNat - 48)) 0
  if !digits.isEmpty && digits.all Char.isDigit && n < UInt64.size then some n else none

/-- An option with a text. -/
def textOption (long : String) (short : Option Char) (set : String → Settings → Settings) :
    Opt Settings :=
  { long, short, action := .takes fun s c => .ok (set s c) }

/-- An option with the name of a file, which is not empty. -/
def fileOption (long : String) (short : Option Char) (set : String → Settings → Settings) :
    Opt Settings :=
  { long, short
    action := .takes fun s c => if s.isEmpty then .error .missingValue else .ok (set s c) }

/-- An option of a simulation, with a value read by `read?`. -/
def simulationOption {α : Type} (long : String) (read? : String → Option α)
    (set : α → Simulation → Simulation) : Opt Settings :=
  { long
    action := .takes fun s c =>
      match read? s with
      | some a => .ok { c with simulation := set a c.simulation }
      | none => .error .badValue }

/-- The option that asks for help. -/
def helpOption : Opt Settings := { long := "help", short := some 'h', action := .ends .help }

/-- The options that may stand before and behind a command. -/
def globalOptions : List (Opt Settings) :=
  [textOption "config" (some 'c') fun s c => { c with config := some s },
   textOption "log-level" none fun s c => { c with logLevel := some s }]

/-- The whole command line. -/
def mainMenu : Menu Settings where
  options := globalOptions ++
    [helpOption, { long := "version", short := some 'V', action := .ends .version }]
  subcommands := ["config", "simulate", "help"]

def simulateMenu : Menu Settings where
  options := globalOptions ++
    [simulationOption "nodes" number? fun n s => { s with nodes := n },
     simulationOption "keys" number? fun n s => { s with keys := n },
     simulationOption "sync-mode" SyncMode.ofName? fun m s => { s with syncMode := some m },
     simulationOption "kill" number? fun n s => { s with victim := some ⟨UInt64.ofNat n⟩ },
     simulationOption "chunk-size" number? fun n s => { s with chunkSize := n },
     helpOption]

def configMenu (inherited : List (Opt Settings)) : Menu Settings where
  options := inherited ++ [helpOption]
  subcommands := ["validate", "show", "generate", "help"]

def checkMenu (inherited : List (Opt Settings)) : Menu Settings where
  options := fileOption "config" (some 'c') (fun s c => { c with file := s }) ::
    inherited ++ [helpOption]

def generateMenu (inherited : List (Opt Settings)) : Menu Settings where
  options := fileOption "output" (some 'o') (fun s c => { c with output := some s }) ::
    inherited ++ [helpOption]

/-- The subcommands of a subcommand. -/
def subcommandsOf (name : String) : List String :=
  if name = "config" then (configMenu []).subcommands else []

/-- What comes of asking for help on a command, named step by step. -/
def helpOn (known : List String) : List String → UsageError
  | [] => .help
  | name :: rest => if name ∈ known then helpOn (subcommandsOf name) rest else .unknownSubcommand

/-- Reads the subcommand of a command.  Its own options are taken once the subcommand has been
read, which may have the last word on them. -/
def readSub {σ α : Type} (menu : Menu σ) (start : σ) (args : List String)
    (sub : σ → String → List String → Except UsageError α) : Except UsageError α := do
  match ← menu.read start args with
  | (p, none) =>
    let p ← p.settle
    throw (if p.given.isEmpty then .nothingGiven else .missingSubcommand)
  | (p, some (name, rest)) =>
    let settled := p.settle
    let command := match settled with
      | .ok p => p.command
      | .error _ => p.command
    let a ← sub command name rest
    match settled with
    | .ok _ => return a
    | .error e => throw e

/-- Reads a command of `config`. -/
def configCommand (inherited : List (Opt Settings)) (start : Settings) (args : List String) :
    Except UsageError Command :=
  let menu := configMenu inherited
  readSub menu start args fun c name rest =>
    if name = "help" then .error (helpOn menu.subcommands rest)
    else if name = "generate" then
      ((generateMenu inherited).readAll c rest).map fun c => .generate c.output
    else
      ((checkMenu inherited).readAll c rest).map fun c =>
        if name = "show" then .print c.file else .validate c.file

namespace Command

/-- The command that arguments describe.  If they start with `config`, the options that may stand
before and behind every command are not among them. -/
def ofArgs : List String → Except UsageError Command
  | "config" :: rest => configCommand [] {} rest
  | args =>
    readSub mainMenu {} args fun c name rest =>
      if name = "help" then .error (helpOn mainMenu.subcommands rest)
      else if name = "config" then configCommand globalOptions c rest
      else
        (simulateMenu.readAll c rest).map fun c => .simulate c.config c.logLevel c.simulation

/-! ## Carrying out a command -/

variable {m : Type → Type} [Monad m]

/-- Loads a configuration file. -/
def load (disk : Disk m) (file : String) : m (Except CommandError Config) := do
  match ← disk.read file with
  | .missing | .unreadable => return .error (.unreadable file)
  | .text s =>
    match Config.ofToml s with
    | .ok config => return .ok config
    | .error .malformed => return .error .malformed
    | .error (.faulty fault) => return .error (.faulty fault)

/-- Loads a configuration file, if it is there, and makes a text of it. -/
def describe (disk : Disk m) (file : String) (text : Config → Except CommandError String) :
    m Outcome := do
  match ← disk.read file with
  | .missing => return { error := some (.noConfigFile file) }
  | _ =>
    match (← load disk file).bind text with
    | .ok output => return { output }
    | .error e => return { error := some e }

/-- What is said of a configuration without faults. -/
def summary (c : Config) : String :=
  let a := c.atomic
  "✓ Config file is valid\n" ++
  s!"  node {c.nodeId.toNat} serving cache " ++ "'" ++ c.cacheName ++ "'" ++
  s!" (id 0x{hex8 c.cacheId})\n" ++
  s!"  write_sync_mode = {a.writeSyncMode.name}, remap_count = {a.remapCount.toNat}, " ++
  s!"backups = {a.backups.toNat}\n"

/-- Simulates writes under a configuration. -/
def simulated (config : Config) (logLevel : Option String) (s : Simulation) : Outcome :=
  let config := config.override { logLevel }
  match config.fault? with
  | some fault => { error := some (.faulty fault) }
  | none =>
    if s.nodes = 0 then { error := some .noNodes }
    else
      match s.run config with
      | .ok report => { output := String.join (report.lines.map (· ++ "\n")) }
      | .error e => { error := some (.broken e) }

/-- Carries out a command. -/
def run (disk : Disk m) : Command → m Outcome
  | .validate file => describe disk file fun c => .ok (summary c)
  | .print file => describe disk file fun c => (c.toToml?).elim (.error .notRendered) .ok
  | .generate none => return { output := template ++ "\n" }
  | .generate (some file) => do
    if ← disk.write file template then
      return { output := "Generated config template: " ++ Text.quote file ++ "\n" }
    else return { error := some (.notWritten file) }
  | .simulate none logLevel s => return simulated { nodeId := 1 } logLevel s
  | .simulate (some file) logLevel s => do
    match ← load disk file with
    | .ok config => return simulated config logLevel s
    | .error _ => return { error := some (.notLoaded file) }

end Command

end AtomicGrid.CommandLine
