/-!
# How an update runs

The operation, the contract under which its caller waits, and who tells the caller's node that
the backups are done.  Operations and contracts travel as one byte.

## Results

* `SyncMode.ofCode?_code`, `Operation.ofCode?_code`: codes read back.
* `SyncMode.code_of_ofCode?`, `Operation.code_of_ofCode?`: only a value's own code is read as it.
-/

set_option autoImplicit false

namespace AtomicGrid

/-- Whom the caller of an update waits for. -/
inductive SyncMode where
  /-- The primary and every backup. -/
  | fullSync
  /-- The primary alone. -/
  | primarySync
  /-- Nobody. -/
  | fullAsync
  deriving DecidableEq, Repr, Inhabited

namespace SyncMode

def code : SyncMode → UInt8
  | .fullSync => 0
  | .primarySync => 1
  | .fullAsync => 2

def ofCode? (b : UInt8) : Option SyncMode :=
  if b = 0 then some .fullSync
  else if b = 1 then some .primarySync
  else if b = 2 then some .fullAsync
  else none

/-- The mode's name in texts and configuration files. -/
def name : SyncMode → String
  | .fullSync => "full_sync"
  | .primarySync => "primary_sync"
  | .fullAsync => "full_async"

/-- The mode of a name. -/
def ofName? (s : String) : Option SyncMode :=
  if s = "full_sync" then some .fullSync
  else if s = "primary_sync" then some .primarySync
  else if s = "full_async" then some .fullAsync
  else none

@[simp] theorem ofCode?_code (m : SyncMode) : ofCode? m.code = some m := by cases m <;> rfl

theorem code_of_ofCode? {b : UInt8} {m : SyncMode} (h : ofCode? b = some m) : b = m.code := by
  unfold ofCode? at h
  grind [code]

end SyncMode

/-- Who tells the caller's node that the backups are done, where the caller waits for them. -/
inductive NearRelay where
  /-- The primary, once every backup has answered. -/
  | primary
  /-- Each backup by itself. -/
  | backups
  deriving DecidableEq, Repr, Inhabited

namespace NearRelay

def name : NearRelay → String
  | .primary => "primary"
  | .backups => "backups"

/-- The relay of a name. -/
def ofName? (s : String) : Option NearRelay :=
  if s = "primary" then some .primary
  else if s = "backups" then some .backups
  else none

end NearRelay

/-- What an update does to its entry. -/
inductive Operation where
  /-- Stores a value. -/
  | update
  /-- Removes the entry. -/
  | delete
  /-- Runs an entry processor. -/
  | transform
  deriving DecidableEq, Repr, Inhabited

namespace Operation

def code : Operation → UInt8
  | .update => 0
  | .delete => 1
  | .transform => 2

/-- The operation's name on record. -/
def name : Operation → String
  | .update => "update"
  | .delete => "delete"
  | .transform => "transform"

/-- The operation of a name. -/
def ofName? (s : String) : Option Operation :=
  [update, delete, transform].find? (·.name = s)

def ofCode? (b : UInt8) : Option Operation :=
  if b = 0 then some .update
  else if b = 1 then some .delete
  else if b = 2 then some .transform
  else none

@[simp] theorem ofCode?_code (o : Operation) : ofCode? o.code = some o := by cases o <;> rfl

theorem code_of_ofCode? {b : UInt8} {o : Operation} (h : ofCode? b = some o) : b = o.code := by
  unfold ofCode? at h
  grind [code]

end Operation

end AtomicGrid
