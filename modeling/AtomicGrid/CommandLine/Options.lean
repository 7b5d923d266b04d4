/-!
# Options of a command line

A command has a `Menu`: options, each of which changes what the command is to do, and subcommands.
A value of an option stands behind it, or is attached to it: `--name value`, `--name=value`,
`-n value`, `-nvalue` or `-n=value`.  An option is taken when the next argument that is none of its
values has been recognised, so an argument that means nothing is found before a bad value in front
of it.
-/

set_option autoImplicit false

namespace AtomicGrid.CommandLine

/-- Why a command line is not carried out. -/
inductive UsageError where
  | unknownSubcommand
  | unknownArgument
  /-- The value of an option means nothing. -/
  | badValue
  | missingValue
  /-- A value was attached to an option that has none. -/
  | unwantedValue
  | repeatedOption
  /-- Neither an option nor a subcommand was given. -/
  | nothingGiven
  | missingSubcommand
  /-- The user asks for help. -/
  | help
  /-- The user asks for the version. -/
  | version
  deriving DecidableEq, Repr, Inhabited

def UsageError.message : UsageError → String
  | .unknownSubcommand => "unknown subcommand"
  | .unknownArgument => "unknown argument"
  | .badValue => "bad value of an option"
  | .missingValue => "an option lacks its value"
  | .unwantedValue => "an option has a value it does not take"
  | .repeatedOption => "an option is given twice"
  | .nothingGiven => "no command given"
  | .missingSubcommand => "no subcommand given"
  | .help => "see the documentation for help"
  | .version => "no version is known"

/-- What an option does to what the command is to do, which is a `σ`. -/
inductive Action (σ : Type) where
  /-- Ends the reading at once. -/
  | ends (e : UsageError)
  /-- Takes a value. -/
  | takes (take : String → σ → Except UsageError σ)

structure Opt (σ : Type) where
  long : String
  short : Option Char := none
  action : Action σ

/-- Whether an option takes a value. -/
def Opt.takesValue {σ : Type} (o : Opt σ) : Bool :=
  match o.action with
  | .ends _ => false
  | .takes _ => true

structure Menu (σ : Type) where
  options : List (Opt σ)
  subcommands : List String := []

/-- A command line that has been read up to some argument. -/
structure Reading (σ : Type) where
  command : σ
  /-- The options taken. -/
  given : List String := []
  /-- The option to be taken next, and its value, if that has been read. -/
  pending : Option (Opt σ × Option String) := none

variable {σ : Type}

namespace Reading

/-- Takes an option with its value. -/
def take (r : Reading σ) (o : Opt σ) (value : String) : Except UsageError (Reading σ) :=
  match o.action with
  | .ends e => .error e
  | .takes take =>
    if o.long ∈ r.given then .error .repeatedOption
    else (take value r.command).map fun command => { command, given := o.long :: r.given }

/-- Takes the pending option. -/
def settle (r : Reading σ) : Except UsageError (Reading σ) :=
  match r.pending with
  | none => .ok r
  | some (_, none) => .error .missingValue
  | some (o, some value) => r.take o value

/-- Whether the next argument is the value of an option. -/
def awaitsValue (r : Reading σ) : Bool :=
  match r.pending with
  | some (_, none) => true
  | _ => false

/-- Takes the pending option, and then one that has been recognised, with the value attached to
it, if there is one. -/
def meet (r : Reading σ) (o : Opt σ) (attached : Option String) :
    Except UsageError (Reading σ) := do
  if attached.isSome && !o.takesValue then throw .unwantedValue
  let r ← r.settle
  match attached, o.action with
  | some value, _ => r.take o value
  | none, .ends e => throw e
  | none, .takes _ => return { r with pending := some (o, none) }

end Reading

/-- Divides a text at the first equals sign. -/
def splitAtEquals (s : List Char) : String × Option String :=
  let name := s.takeWhile (· ≠ '=')
  match s.dropWhile (· ≠ '=') with
  | _ :: value => (String.ofList name, some (String.ofList value))
  | [] => (String.ofList name, none)

namespace Menu

/-- The option that an argument names, and the value attached to it.  An argument that starts with
a dash, and is not a dash alone, can only be an option. -/
def option? (m : Menu σ) (arg : String) : Option (Option (Opt σ × Option String)) :=
  match arg.toList with
  | '-' :: '-' :: rest =>
    let (name, attached) := splitAtEquals rest
    some ((m.options.find? (·.long = name)).map (·, attached))
  | '-' :: c :: rest =>
    some ((m.options.find? (·.short = some c)).map fun o =>
      let attached := match rest with
        | [] => none
        | '=' :: value => some (String.ofList value)
        | value => some (String.ofList value)
      (o, if o.takesValue then attached else none))
  | _ => none

/-- The error for an argument that is neither an option nor a value nor a subcommand. -/
def stray (m : Menu σ) (afterDashes : Bool) (arg : String) : UsageError :=
  if m.subcommands.isEmpty || afterDashes && arg ∈ m.subcommands then .unknownArgument
  else .unknownSubcommand

/-- Reads arguments up to a subcommand or the end: what has been read, and the subcommand with its
arguments.  Behind two dashes there are no options any more. -/
def readFrom (m : Menu σ) (afterDashes : Bool) (r : Reading σ) :
    List String → Except UsageError (Reading σ × Option (String × List String))
  | [] => .ok (r, none)
  | arg :: rest =>
    if afterDashes then .error (m.stray true arg)
    else if !r.awaitsValue && arg ∈ m.subcommands then .ok (r, some (arg, rest))
    else if arg = "--" then readFrom m true r rest
    else match m.option? arg with
      | some none => .error .unknownArgument
      | some (some (o, attached)) =>
        match r.meet o attached with
        | .ok r => readFrom m false r rest
        | .error e => .error e
      | none =>
        match r.pending with
        | some (o, none) => readFrom m false { r with pending := some (o, some arg) } rest
        | _ => .error (m.stray false arg)

/-- Reads the arguments of a command. -/
def read (m : Menu σ) (command : σ) (args : List String) :
    Except UsageError (Reading σ × Option (String × List String)) :=
  m.readFrom false { command } args

/-- The command that options alone describe. -/
def readAll (m : Menu σ) (command : σ) (args : List String) : Except UsageError σ := do
  let (r, _) ← m.read command args
  return (← r.settle).command

end Menu

end AtomicGrid.CommandLine
