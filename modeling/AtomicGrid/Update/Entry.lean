import AtomicGrid.Bytes

/-!
# Conditions and life time of an entry

Filters say what the stored value must be for an update to go through.  An expiry policy says how
long the entry lives afterwards; life times are milliseconds, and two values are reserved.
-/

set_option autoImplicit false

namespace AtomicGrid

abbrev Key := Bytes

abbrev Value := Bytes

/-- The name of an entry processor that the stores know. -/
structure ProcessorRef where
  name : String
  deriving DecidableEq, Repr, Inhabited

/-- The life time that keeps what the entry has. -/
def ttlUnchanged : Int64 := -1

/-- The life time that never ends. -/
def ttlEternal : Int64 := 0

/-- The expiry moment that follows from the life time. -/
def expireByTtl : Int64 := -1

/-- A condition on the stored value. -/
inductive EntryFilter where
  /-- There is a value. -/
  | hasValue
  /-- There is no value. -/
  | noValue
  /-- The value is this one. -/
  | valueEquals (expected : Value)
  deriving DecidableEq, Repr, Inhabited

/-- Whether the stored value satisfies the condition. -/
def EntryFilter.accepts : EntryFilter → Option Value → Bool
  | .hasValue, current => current.isSome
  | .noValue, current => current.isNone
  | .valueEquals expected, current => current = some expected

/-- The life times an update sets, in milliseconds, by what happens to the entry. -/
structure ExpiryPolicy where
  create : Option UInt64
  update : Option UInt64
  access : Option UInt64
  deriving DecidableEq, Repr, Inhabited

/-- The life time after a write, depending on whether there was an entry.  The 64 bits of a policy's
number are read as a signed number. -/
def ExpiryPolicy.ttlForWrite (p : ExpiryPolicy) (existed : Bool) : Int64 :=
  match if existed then p.update else p.create with
  | some ms => ms.toInt64
  | none => ttlUnchanged

end AtomicGrid
