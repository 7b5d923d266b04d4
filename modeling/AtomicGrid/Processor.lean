import AtomicGrid.Update.Entry

/-!
# Entry processors

An entry processor turns the current value of an entry and some arguments into a new value and a
result for the caller, or fails.  Stores know processors by name.
-/

set_option autoImplicit false

namespace AtomicGrid

/-- What an entry processor does: from the current value and the arguments, the new value and the
result, or a failure. -/
abbrev Processor := Option Value → List Bytes → Except String (Option Value × Option Bytes)

/-- The processors a store knows. -/
abbrev Processors := String → Option Processor

namespace Processor

/-- Appends all arguments to the value, and returns the new value. -/
def append : Processor := fun current args =>
  let next := current.getD [] ++ args.flatten
  .ok (some next, some next)

/-- Leaves the value as it is, and fails if there is none. -/
def strict : Processor := fun current _ =>
  match current with
  | some v => .ok (some v, none)
  | none => .error "no value"

/-- Stores the first argument and returns the value before; removes the entry without arguments. -/
def swap : Processor := fun current args => .ok (args.head?, current)

/-- Removes the entry and returns the value before. -/
def clear : Processor := fun current _ => .ok (none, current)

def none : Processors := fun _ => Option.none

/-- The processors above by their names. -/
def standard : Processors := fun name =>
  if name = "append" then some append
  else if name = "strict" then some strict
  else if name = "swap" then some swap
  else if name = "clear" then some clear
  else Option.none

end Processor

end AtomicGrid
