import AtomicGrid.CommandLine

/-!
# The program

Reads the command from the arguments, carries it out on the files of the computer, and prints what
it leaves behind.
-/

set_option autoImplicit false

open AtomicGrid CommandLine

/-- The files of the computer. -/
def AtomicGrid.computerFiles : Disk IO where
  read file := do
    match ← (IO.FS.readFile file).toBaseIO with
    | .ok s => return .text s
    | .error (.noFileOrDirectory ..) => return .missing
    | .error _ => return .unreadable
  write file s := do
    match ← (IO.FS.writeFile file s).toBaseIO with
    | .ok _ => return true
    | .error _ => return false

/-- Ends with 2 if the command line means nothing, and with 1 if the command fails. -/
def main (args : List String) : IO UInt32 := do
  match Command.ofArgs args with
  | .error e =>
    IO.eprintln ("error: " ++ e.message)
    return 2
  | .ok command =>
    let outcome ← command.run computerFiles
    IO.print outcome.output
    match outcome.error with
    | none => return 0
    | some e =>
      IO.eprintln ("Error: " ++ e.message)
      return 1
