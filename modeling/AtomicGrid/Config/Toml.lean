import AtomicGrid.Config
import AtomicGrid.Toml.Reader
import AtomicGrid.Toml.Printer

/-!
# Configuration files

A configuration file has the sections `node`, `atomic` and `telemetry`; only the identifier of the
node has no default.  A section is a table, or an array with the settings in order.  Settings that
are not known are passed over.

## Results

* `SyncMode.ofTree?_name`, `NearRelay.ofTree?_name`: a name is read as what it names.
-/

set_option autoImplicit false

namespace AtomicGrid

namespace Toml.Tree

/-- The settings of the given names: by name in a table, by position in an array, and none in a
moment. -/
def settings? (names : List String) : Tree → Option (List (Option Tree))
  | .table _ es => some (names.map fun name => es.lookup name)
  | .array _ items => some ((List.range names.length).map fun i => items[i]?)
  | .moment => some (names.map fun _ => none)
  | _ => none

/-- The setting read by `read?`, or another value if it is absent. -/
def settingOr {α : Type} (read? : Tree → Option α) (other : α) : Option Tree → Option α
  | some t => read? t
  | none => some other

def word64? : Tree → Option UInt64
  | .integer n => if 0 ≤ n ∧ n.toNat < UInt64.size then some (UInt64.ofNat n.toNat) else none
  | _ => none

def word32? : Tree → Option UInt32
  | .integer n => if 0 ≤ n ∧ n.toNat < UInt32.size then some (UInt32.ofNat n.toNat) else none
  | _ => none

def flag? : Tree → Option Bool
  | .flag b => some b
  | _ => none

def text? : Tree → Option String
  | .text s => some s
  | _ => none

/-- A name: a text, or a table whose only entry has this name and nothing in it. -/
def name? : Tree → Option String
  | .text s => some s
  | .table _ [(s, .table _ [])] => some s
  | .table _ [(s, .array _ [])] => some s
  | _ => none

end Toml.Tree

open Toml (Tree)

def SyncMode.ofTree? (t : Tree) : Option SyncMode := t.name?.bind ofName?

def NearRelay.ofTree? (t : Tree) : Option NearRelay := t.name?.bind ofName?

/-- The settings of updates. -/
def AtomicSettings.ofTree? (t : Tree) : Option AtomicSettings := do
  let d : AtomicSettings := {}
  match ← t.settings? ["write_sync_mode", "remap_count", "wait_topology_future", "near_relay",
    "send_mapping_to_near", "partitions", "backups", "near_cache"] with
  | [mode, remaps, waits, relay, mapping, partitions, backups, nearCache] =>
    return {
      writeSyncMode := ← Tree.settingOr SyncMode.ofTree? d.writeSyncMode mode
      remapCount := ← Tree.settingOr Tree.word32? d.remapCount remaps
      waitForTopology := ← Tree.settingOr Tree.flag? d.waitForTopology waits
      nearRelay := ← Tree.settingOr NearRelay.ofTree? d.nearRelay relay
      sendMapping := ← Tree.settingOr Tree.flag? d.sendMapping mapping
      partitions := ← Tree.settingOr Tree.word32? d.partitions partitions
      backups := ← Tree.settingOr Tree.word32? d.backups backups
      nearCache := ← Tree.settingOr Tree.flag? d.nearCache nearCache }
  | _ => none

/-- Why a text gives no configuration. -/
inductive ConfigError where
  | malformed
  | faulty (fault : ConfigFault)
  deriving DecidableEq, Repr, Inhabited

def ConfigError.message : ConfigError → String
  | .malformed => "failed to parse config"
  | .faulty fault => fault.message

namespace Config

/-- The configuration of a document. -/
def ofTree? (t : Tree) : Option Config := do
  match ← t.settings? ["node", "atomic", "telemetry"] with
  | [some node, atomic, telemetry] =>
    match ← node.settings? ["node_id", "cache_name"], ← telemetry.elim (some [none])
      fun t => t.settings? ["log_level"] with
    | [some nodeId, cacheName], [logLevel] =>
      return {
        nodeId := ← nodeId.word64?
        cacheName := ← Tree.settingOr Tree.text? "default" cacheName
        atomic := ← Tree.settingOr AtomicSettings.ofTree? {} atomic
        logLevel := ← Tree.settingOr Tree.text? "info" logLevel }
    | _, _ => none
  | _ => none

/-- The configuration itself, if it has no fault. -/
def checked (c : Config) : Except ConfigError Config :=
  match c.fault? with
  | none => .ok c
  | some fault => .error (.faulty fault)

/-- The configuration that a text describes. -/
def ofToml (s : String) : Except ConfigError Config :=
  match (Toml.read? s).bind ofTree? with
  | none => .error .malformed
  | some c => c.checked

/-- The sections of a configuration file, with the settings as they are written. -/
def sections (c : Config) : List (String × List (String × String)) :=
  let number (n : Nat) : String := n.repr
  let flag (b : Bool) : String := if b then "true" else "false"
  let a := c.atomic
  [("node", [("node_id", number c.nodeId.toNat), ("cache_name", Toml.quote c.cacheName)]),
   ("atomic",
    [("write_sync_mode", Toml.quote a.writeSyncMode.name),
     ("remap_count", number a.remapCount.toNat),
     ("wait_topology_future", flag a.waitForTopology),
     ("near_relay", Toml.quote a.nearRelay.name),
     ("send_mapping_to_near", flag a.sendMapping),
     ("partitions", number a.partitions.toNat),
     ("backups", number a.backups.toNat),
     ("near_cache", flag a.nearCache)]),
   ("telemetry", [("log_level", Toml.quote c.logLevel)])]

/-- What is said of a configuration that has no configuration file. -/
def renderFailure : String := "failed to render config"

/-- The configuration file of a configuration, unless the identifier of the node is too large for
an integer of TOML. -/
def toToml? (c : Config) : Option String :=
  let line (setting : String × String) : String := setting.1 ++ " = " ++ setting.2 ++ "\n"
  let sectionText (s : String × List (String × String)) : String :=
    "[" ++ s.1 ++ "]\n" ++ String.join (s.2.map line)
  if c.nodeId ≤ Int64.maxValue.toUInt64 then
    some ("\n".intercalate (c.sections.map sectionText))
  else none

end Config

@[simp] theorem SyncMode.ofTree?_name (m : SyncMode) : ofTree? (.text m.name) = some m := by
  cases m <;> rfl

@[simp] theorem NearRelay.ofTree?_name (r : NearRelay) : ofTree? (.text r.name) = some r := by
  cases r <;> rfl

end AtomicGrid
