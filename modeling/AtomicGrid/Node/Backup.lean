import AtomicGrid.Node.Basic

/-!
# A backup's part

Model of `process_backup_update`.  A backup repeats the outcome of an update, hands it to its near
cache if it is a reader, and acknowledges.  Where the backups tell the caller's node themselves, it
does that too.
-/

set_option autoImplicit false

namespace AtomicGrid

/-- What a backup tells the caller's node. -/
def BackupRequest.notice (r : BackupRequest) (site : Site) (primary : NodeId) : BackupNotice :=
  let notice : BackupNotice := {
    cacheId := site.cacheId
    partition := r.partition
    future := r.nearFuture
    primary := primary
    mapping := r.mapping.getD []
    failedNode := none
    flags := {} }
  match r.result? with
  | some success => notice.withResult success
  | none => notice

namespace BackupRequest

variable (r : BackupRequest) (site : Site) (primary : NodeId)

@[simp] theorem cacheId_notice : (r.notice site primary).cacheId = site.cacheId := by
  unfold notice
  cases r.result? <;> rfl

@[simp] theorem future_notice : (r.notice site primary).future = r.nearFuture := by
  unfold notice
  cases r.result? <;> rfl

@[simp] theorem primary_notice : (r.notice site primary).primary = primary := by
  unfold notice
  cases r.result? <;> rfl

@[simp] theorem mapping_notice : (r.notice site primary).mapping = r.mapping.getD [] := by
  unfold notice
  cases r.result? <;> rfl

@[simp] theorem failedNode_notice : (r.notice site primary).failedNode = none := by
  unfold notice
  cases r.result? <;> rfl

@[simp] theorem result?_notice : (r.notice site primary).result? = r.result? := by
  unfold notice
  cases r.result? <;> rfl

end BackupRequest

namespace Node

/-- Repeats the outcome of an update that the primary `sender` hands on. -/
def backUp (view : View) (n : Node) (sender : NodeId) (r : BackupRequest) : Node × List Effect :=
  let store := r.entries.foldl (fun s e => s.applyBackup r.partition e r.writeVersion) n.store
  let (n, near) := each (fun n e => n.writeNear e.key e.value r.writeVersion e.ttl)
    { n with store } r.nearEntries
  let ack : UpdateResponse := .plain ⟨n.site.cacheId, r.partition, r.future⟩ n.id
  let notice := if r.flags.nearReply then
      [transmission view r.nearNode (.backupNotice (r.notice n.site sender))]
    else []
  (n, near ++ transmission view sender (.updateResponse ack) :: notice)

end Node

end AtomicGrid
