import AtomicGrid.Update.Entry
import AtomicGrid.Version

/-!
# Near caches

Model of `MemoryNearCache`.  A `NearCache` keeps values close to their readers.  It is told every new
value or removal with its write version, and ignores what is older than the value it has.  A removal
leaves nothing behind to compare with.
-/

set_option autoImplicit false

namespace AtomicGrid

/-- The values a node keeps for its own reading, each with the version that wrote it. -/
structure NearCache where
  values : SortedMap Key (Value × WriteVersion) := ∅
  deriving DecidableEq, Repr, Inhabited

namespace NearCache

def get? (c : NearCache) (key : Key) : Option Value := (c.values.get? key).map (·.1)

/-- The version that wrote the value of a key. -/
def version? (c : NearCache) (key : Key) : Option WriteVersion := (c.values.get? key).map (·.2)

/-- Takes a new value or a removal, unless the value there is newer. -/
def applyUpdate (c : NearCache) (key : Key) (value : Option Value) (version : WriteVersion) :
    NearCache :=
  if (c.version? key).any (version < ·) then c
  else
    match value with
    | some v => ⟨c.values.insert key (v, version)⟩
    | none => ⟨c.values.erase key⟩

end NearCache

end AtomicGrid
