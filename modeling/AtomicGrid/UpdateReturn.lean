import AtomicGrid.SortedMap
import AtomicGrid.Update.Entry
import AtomicGrid.Update.Mode

/-!
# What an update returns

Model of `CacheReturn` and `UpdateOutcome`.  The primary reports an `UpdateReturn`: a success flag
and, where it has more to tell, the value before the update or the outcome of the entry processor
per key.  Partial returns are merged.  The caller gets an `UpdateOutcome` in the shape it asked for
(`from_return`).
-/

set_option autoImplicit false

namespace AtomicGrid

/-- The outcome of an entry processor on one key. -/
inductive InvokeOutcome where
  /-- What it produced, if anything. -/
  | value (v : Option Value)
  /-- It failed. -/
  | error (message : String)
  deriving DecidableEq, Repr, Inhabited

/-- What a return carries beside the success flag. -/
inductive ReturnValue where
  /-- The value before the update. -/
  | previous (v : Option Value)
  /-- The outcome of the entry processor on each key. -/
  | transform (outcomes : SortedMap Key InvokeOutcome)
  deriving DecidableEq, Repr, Inhabited

structure UpdateReturn where
  value : Option ReturnValue
  success : Bool
  deriving DecidableEq, Repr, Inhabited

namespace UpdateReturn

/-- A bare success flag. -/
def flag (success : Bool) : UpdateReturn := ⟨none, success⟩

/-- The value before the update. -/
def previous (v : Option Value) (success : Bool) : UpdateReturn := ⟨some (.previous v), success⟩

/-- Adds the outcome of a key, in place of a value of another kind (`add_invoke_result`). -/
def addOutcome (r : UpdateReturn) (key : Key) (outcome : InvokeOutcome) : UpdateReturn :=
  match r.value with
  | some (.transform outcomes) =>
    { r with value := some (.transform (outcomes.insert key outcome)) }
  | _ =>
    { r with value := some (.transform ((∅ : SortedMap Key InvokeOutcome).insert key outcome)) }

/-- Both returns in one: outcomes are united, the second return's winning; otherwise the first
value there is stays.  It is a success if both are. -/
def merge (r other : UpdateReturn) : UpdateReturn where
  success := r.success && other.success
  value := match r.value, other.value with
    | some (.transform mine), some (.transform theirs) =>
      some (.transform (mine.insertMany theirs.entries))
    | none, theirs => theirs
    | mine, _ => mine

/-- Whether there is more to tell than the success flag. -/
def hasValue (r : UpdateReturn) : Bool :=
  match r.value with
  | some (.previous v) => v.isSome
  | some (.transform outcomes) => !outcomes.isEmpty
  | none => false

def outcomes? (r : UpdateReturn) : Option (SortedMap Key InvokeOutcome) :=
  match r.value with
  | some (.transform outcomes) => some outcomes
  | _ => none

end UpdateReturn

/-- What the caller of an update gets. -/
inductive UpdateOutcome where
  /-- The success flag. -/
  | success (flag : Bool)
  /-- The value before the update. -/
  | previous (v : Option Value)
  /-- The outcome of the entry processor on each key. -/
  | transform (outcomes : SortedMap Key InvokeOutcome)
  /-- The return as the primary reported it. -/
  | raw (ret : UpdateReturn)
  deriving DecidableEq, Repr, Inhabited

namespace UpdateOutcome

/-- The return in the shape asked for: as it is, else by the operation, else by whether the caller
wants the previous value. -/
def ofReturn (ret : UpdateReturn) (operation : Operation) (wantsPrevious raw : Bool) :
    UpdateOutcome :=
  if raw then .raw ret
  else if operation = .transform then .transform (ret.outcomes?.getD ∅)
  else if wantsPrevious then
    match ret.value with
    | some (.previous v) => .previous v
    | _ => .previous none
  else .success ret.success

/-- The success flag.  The shapes without a flag count as success. -/
def isSuccess : UpdateOutcome → Bool
  | .success flag => flag
  | .raw ret => ret.success
  | _ => true

/-- The value before the update, where the outcome has this shape. -/
def previous? : UpdateOutcome → Option Value
  | .previous v => v
  | _ => none

/-- The outcomes of the entry processor, where the outcome has this shape. -/
def outcomes : UpdateOutcome → SortedMap Key InvokeOutcome
  | .transform outcomes => outcomes
  | _ => ∅

end UpdateOutcome

end AtomicGrid
