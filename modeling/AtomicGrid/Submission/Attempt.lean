import AtomicGrid.Message

/-!
# One attempt at an update

Model of `PrimaryRequestState`: the one request outstanding at the primary, with what has been heard
of it.  The primary answers by itself, or leaves it to the backups to tell the caller's node; then
the mapping says whom to hear from.  Events come in any order: backups may be heard before the
mapping is known.

* `learn`, `progress` — `init_backups` and `progress`, which the others end in.
* `onAnswer`, `onMapping`, `onNotice`, `onDeparture` — `on_primary_response`, `on_mapping`,
  `on_backup_response` and `on_node_left`.

## Results

* `Attempt.awaited_learn`: a mapping that is known does not change.
-/

set_option autoImplicit false

namespace AtomicGrid

/-- Where an attempt stands after an event. -/
inductive Progress where
  /-- There is more to come. -/
  | pending
  /-- All is heard. -/
  | finished
  /-- Every backup is gone and no result was seen, so the primary must be asked. -/
  | unconfirmed
  deriving DecidableEq, Repr, Inhabited

/-- The request outstanding at the primary (`PrimaryRequestState`). -/
structure Attempt where
  request : UpdateRequest
  primary : NodeId
  /-- Whether the backups tell the caller's node themselves. -/
  relayed : Bool
  /-- Whether the primary has answered. -/
  responded : Bool := false
  /-- Whether the result of the update is known. -/
  hasResult : Bool := false
  /-- The backups still to be heard, once they are known. -/
  awaited : Option NodeSet := none
  /-- The backups heard, or gone, before they were known. -/
  received : NodeSet := ∅
  /-- Whether the primary was asked about the update. -/
  checkSent : Bool := false
  deriving DecidableEq, Repr, Inhabited

namespace Attempt

/-- Whether the answer of a node is the one waited for (`pending_primary`). -/
def awaitsPrimary (a : Attempt) (n : NodeId) : Bool := a.primary = n && !a.responded

/-- Notes the backups to be heard (`init_backups`).  Only the first mapping counts, and who was
heard before it is not awaited. -/
def learn (a : Attempt) (mapping : List NodeId) : Attempt :=
  match a.awaited with
  | some _ => a
  | none => { a with awaited := some (SortedSet.ofList (mapping.filter (!a.received.contains ·))) }

/-- Where the attempt stands.  After the loss of a backup the primary is asked, once, if nobody is
left to confirm an update whose caller waits for all. -/
def progress (a : Attempt) (afterLoss : Bool) : Attempt × Progress :=
  match a.awaited with
  | some awaited =>
    if awaited.isEmpty then
      if a.hasResult then (a, .finished)
      else if afterLoss && a.relayed && !a.checkSent && a.request.syncMode = .fullSync then
        ({ a with checkSent := true }, .unconfirmed)
      else (a, .pending)
    else (a, .pending)
  | none => (a, .pending)

/-- The primary has carried the update out; without a mapping that is all. -/
def onAnswer (a : Attempt) (mapping : Option (List NodeId)) : Attempt × Progress :=
  let a := { a with hasResult := true }
  match mapping with
  | some mapping => (a.learn mapping).progress false
  | none => (a, .finished)

def onMapping (a : Attempt) (mapping : List NodeId) : Attempt × Progress :=
  (a.learn mapping).progress false

/-- Crosses a backup off. -/
def crossOff (a : Attempt) (n : NodeId) : Attempt :=
  { a with received := a.received.add n, awaited := a.awaited.map (·.erase n) }

/-- A backup is done, or the primary says that one has failed. -/
def onNotice (a : Attempt) (sender : NodeId) (notice : BackupNotice) : Attempt × Progress :=
  let a := if notice.result?.isSome then { a with hasResult := true } else a
  ((a.learn notice.mapping).crossOff (notice.failedNode.getD sender)).progress
    notice.failedNode.isSome

/-- A node that is not the awaited primary leaves. -/
def onDeparture (a : Attempt) (n : NodeId) : Attempt × Progress :=
  match a.awaited with
  | some awaited =>
    if awaited.contains n then
      { a with awaited := some (awaited.erase n) }.progress true
    else (a, .pending)
  | none => ({ a with received := a.received.add n }, .pending)

theorem awaited_learn {a : Attempt} {awaited : NodeSet} (h : a.awaited = some awaited)
    (mapping : List NodeId) : a.learn mapping = a := by
  simp [learn, h]

end Attempt

end AtomicGrid
