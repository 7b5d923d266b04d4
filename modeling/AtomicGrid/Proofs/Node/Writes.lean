import AtomicGrid.Proofs.Node.Primary
import AtomicGrid.Proofs.Store

/-!
# Writes

A store holds one write of a key, a value or a removal with its version.  The primary holds what it
has applied last.  A backup holds the newest it was told of, and of two as new the first.  What the
primary applies it hands on to all other owners of the key, and to nobody else.

## Results

* `Node.held_applied`: what a primary holds.
* `Node.held_backedUp`: what a backup holds.
* `Node.handsOn_applied`: who gets a write from the primary.
* `Node.held_move`: what a move makes of what a node holds.
-/

set_option autoImplicit false

namespace AtomicGrid

/-- The writes of a key that a backup is told of. -/
def BackupRequest.writes (r : BackupRequest) (key : Key) : List Write :=
  (r.entries.filter (·.key = key)).map fun e => ⟨r.writeVersion, e.value⟩

theorem BackupRequest.mem_writes {r : BackupRequest} {key : Key} {w : Write} : w ∈ r.writes key ↔
    ∃ e ∈ r.entries, e.key = key ∧ w = ⟨r.writeVersion, e.value⟩ := by
  simp only [BackupRequest.writes, List.mem_map, List.mem_filter, decide_eq_true_eq]
  constructor
  · rintro ⟨e, ⟨he, hk⟩, rfl⟩
    exact ⟨e, he, hk, rfl⟩
  · rintro ⟨e, he, hk, rfl⟩
    exact ⟨e, ⟨he, hk⟩, rfl⟩

/-- The entries that a fan-out has for a receiver. -/
def Fanout.entriesFor (f : Fanout) (o : NodeId) : Option (List BackupEntry) :=
  (f.receivers.get? o).map (·.request.entries)

namespace Fanout

variable {f : Fanout} {e : BackupEntry}

/-- A receiver starts without entries of the store. -/
theorem entries_getD (hb : f.base.entries = []) (n : NodeId) :
    ((f.receivers.get? n).getD { request := f.base }).request.entries =
      (f.entriesFor n).getD [] := by
  unfold entriesFor
  cases f.receivers.get? n with
  | none => exact hb
  | some r => rfl

theorem entriesFor_addressing (f : Fanout) (n : NodeId) (h : BackupRequest → BackupRequest)
    (o : NodeId) : (f.addressing n h).entriesFor o =
      if o = n then some (h ((f.receivers.get? n).getD { request := f.base }).request).entries
      else f.entriesFor o := by
  unfold entriesFor
  rw [receivers_addressing]
  split
  · rfl
  · rfl

/-- Every receiver gets the entry as often as it is addressed. -/
theorem entriesFor_addEntry (e : BackupEntry) (ns : List NodeId) (o : NodeId) :
    ∀ {f : Fanout}, f.base.entries = [] →
      (ns.foldl (fun f n => f.addressing n fun r => { r with entries := r.entries ++ [e] })
        f).entriesFor o =
        if o ∈ ns then some ((f.entriesFor o).getD [] ++ List.replicate (ns.count o) e)
        else f.entriesFor o := by
  induction ns with
  | nil => exact fun _ => by simp
  | cons n ns ih =>
    intro f hb
    rw [List.foldl_cons, ih (by exact hb), entriesFor_addressing]
    by_cases ho : o = n
    · subst ho
      simp only [if_true, entries_getD hb, Option.getD_some, List.mem_cons_self, List.count_cons_self,
        List.append_assoc, List.singleton_append, ← List.replicate_succ]
      split
      · rfl
      next hn => rw [List.count_eq_zero_of_not_mem hn]; rfl
    · simp [ho, Ne.symm ho]

/-- Readers get no entries of the store. -/
theorem entriesFor_addNearEntry (e : NearEntry) (ns : List NodeId) (o : NodeId) :
    ∀ {f : Fanout}, f.base.entries = [] →
      (ns.foldl (fun f n => f.addressing n fun r => { r with nearEntries := r.nearEntries ++ [e] })
        f).entriesFor o =
        if o ∈ ns then some ((f.entriesFor o).getD []) else f.entriesFor o := by
  induction ns with
  | nil => exact fun _ => by simp
  | cons n ns ih =>
    intro f hb
    rw [List.foldl_cons, ih (by exact hb), entriesFor_addressing]
    by_cases ho : o = n
    · subst ho
      simp [entries_getD hb]
    · simp [ho]

theorem entriesFor_prepared (site : Site) (response : UpdateResponse) (ret : UpdateReturn)
    (route : ReplyRoute) (o : NodeId) :
    (f.prepared site response ret route).entriesFor o = f.entriesFor o := by
  unfold entriesFor
  rw [receivers_prepared, Option.map_map]
  congr 1
  funext r
  simp only [Function.comp]
  split
  next =>
    show (relayed f.nodes (f.carried site ret) r.request).entries = _
    unfold relayed
    split
    · rfl
    · rfl
  next => rfl

end Fanout

namespace Node

variable {view : View} {n : Node} {sender : NodeId} {q : UpdateRequest} {e : UpdateEntry}

theorem held_backedUp (n : Node) (r : BackupRequest) (key : Key) :
    (n.backedUp r).held key = (r.writes key).foldl Write.replay (n.store.held key) := by
  have h (es : List BackupEntry) : ∀ s : Store,
      (es.foldl (fun s e => s.applyBackup r.partition e r.writeVersion) s).held key =
        ((es.filter (·.key = key)).map fun e => (⟨r.writeVersion, e.value⟩ : Write)).foldl
          Write.replay (s.held key) := by
    induction es with
    | nil => exact fun _ => rfl
    | cons e es ih =>
      intro s
      rw [List.foldl_cons, ih, s.held_applyBackup]
      by_cases he : e.key = key
      · simp [he]
      · simp [he]
  exact h r.entries n.store

theorem store_each_writeNear (version : WriteVersion) (es : List NearEntry) : ∀ n : Node,
    (each (fun n (e : NearEntry) => n.writeNear e.key e.value version e.ttl) n es).1.store =
      n.store := by
  induction es with
  | nil =>
    intro n
    rfl
  | cons e es ih =>
    intro n
    have hn : (n.writeNear e.key e.value version e.ttl).1.store = n.store := by
      unfold writeNear
      split
      · rfl
      · rfl
    exact (ih _).trans hn

theorem store_backUp (n : Node) (r : BackupRequest) :
    (n.backUp view sender r).1.store = n.backedUp r :=
  store_each_writeNear r.writeVersion r.nearEntries { n with store := n.backedUp r }

/-- The write that an entry of a request leads to on the primary, if it is neither refused nor held
back. -/
def written (n : Node) (q : UpdateRequest) (e : UpdateEntry) : Option Write :=
  match (n.applyWrite n.store q.partition (q.writeCommand e)).2 with
  | .ok a => if a.filtered then none else some ⟨q.writeVersion, a.newValue⟩
  | .error _ => none

theorem version_of_written {w : Write} (h : n.written q e = some w) : w.version = q.writeVersion := by
  unfold written at h
  split at h
  next a ha =>
    split at h
    · cases h
    · cases h
      rfl
  next cause ha => cases h

theorem applied_eq (h : q.payload.entries = [e]) : n.applied view sender q =
    n.freshFuture.1.applyEntry view sender q
      { store := n.store, fanout := .start n.site sender q n.nextFuture } e := by
  unfold applied
  rw [h]
  rfl

theorem held_applyWrite (n : Node) (q : UpdateRequest) (e : UpdateEntry) (key : Key) :
    (n.applyWrite n.store q.partition (q.writeCommand e)).1.held key =
      if key = e.key then (n.written q e).or (n.store.held key) else n.store.held key := by
  unfold written applyWrite
  split
  next => simp
  next =>
    rw [Store.held_apply]
    cases (n.store.apply n.processors q.partition (q.writeCommand e)).2 with
    | ok a =>
      dsimp only
      cases a.filtered with
      | true => simp
      | false =>
        simp only [true_and, Bool.false_eq_true, if_false, Option.some_or]
        rfl
    | error cause => simp

theorem held_applied (h : q.payload.entries = [e]) (key : Key) :
    (n.applied view sender q).store.held key =
      if key = e.key then (n.written q e).or (n.store.held key) else n.store.held key := by
  rw [← held_applyWrite, applied_eq h]
  show (applyEntry view n.freshFuture.1 sender q _ e).store.held key =
    (n.freshFuture.1.applyWrite n.store q.partition (q.writeCommand e)).1.held key
  unfold applyEntry
  simp only
  split
  next store cause hx => rw [hx]
  next store a hx =>
    rw [hx]
    split
    · rfl
    · rfl

/-- Who gets what from a primary that has carried a request out. -/
inductive HandsOn (view : View) (n : Node) (q : UpdateRequest) (e : UpdateEntry) (f : Fanout) : Prop
  | nothing (hw : n.written q e = none) (hf : ∀ o, f.entriesFor o = none)
  | write {w : Write} (hw : n.written q e = some w) {b : BackupEntry} (readers : List NodeId)
      (hb : b.key = e.key ∧ b.value = w.value) (hr : n.id ∉ readers)
      (hf : ∀ o, f.entriesFor o =
        if o ∈ (view.owners e.key q.topologyVersion).filter (· ≠ n.id) then
          some (List.replicate
            (((view.owners e.key q.topologyVersion).filter (· ≠ n.id)).count o) b)
        else if o ∈ readers then some [] else none) : HandsOn view n q e f

theorem handsOn_applied (h : q.payload.entries = [e]) :
    HandsOn view n q e (n.applied view sender q).fanout := by
  have hstart (o : NodeId) : (Fanout.start n.site sender q n.nextFuture).entriesFor o = none := rfl
  rw [applied_eq h]
  unfold applyEntry
  simp only
  split
  next store cause hx =>
    refine .nothing ?_ hstart
    unfold written
    rw [show n.applyWrite n.store q.partition (q.writeCommand e) = _ from hx]
  next store a hx =>
    have hw : n.written q e = if a.filtered then none else some ⟨q.writeVersion, a.newValue⟩ := by
      unfold written
      rw [show n.applyWrite n.store q.partition (q.writeCommand e) = _ from hx]
    split
    next hfil => exact .nothing (by rw [hw, if_pos hfil]) hstart
    next hfil =>
      rw [if_neg hfil] at hw
      refine .write hw (b := a.backupEntry e.key)
        (((store.readersOf e.key).filter (· ≠ sender)).filter fun n' =>
          n' ≠ n.site.node && view.topology.isAlive n') ⟨rfl, rfl⟩ (by simp [id]) fun o => ?_
      have hadd : ((Fanout.start n.site sender q n.nextFuture).addEntry n.site view
          (a.backupEntry e.key)).entriesFor o =
            if o ∈ (view.owners e.key q.topologyVersion).filter (· ≠ n.id) then
              some (List.replicate (((view.owners e.key q.topologyVersion).filter
                (· ≠ n.id)).count o) (a.backupEntry e.key))
            else none := by
        refine (Fanout.entriesFor_addEntry _ _ o rfl).trans ?_
        rw [hstart]
        rfl
      have hbase : ((Fanout.start n.site sender q n.nextFuture).addEntry n.site view
          (a.backupEntry e.key)).base.entries = [] :=
        congrArg BackupRequest.entries ((Fanout.gathers_start sender q n.nextFuture).addEntry
          (a.backupEntry e.key)).base
      show (((Fanout.start n.site sender q n.nextFuture).addEntry n.site view
        (a.backupEntry e.key)).addNearEntry n.site view _ (a.nearEntry e.key)).entriesFor o = _
      unfold Fanout.addNearEntry
      rw [Fanout.entriesFor_addNearEntry _ _ o hbase, hadd]
      split
      next hr =>
        split
        · rfl
        · rfl
      next hr => rfl

end Node

/-! ## Moves -/

namespace Node

variable {view : View} {n : Node} {move : Move}

theorem store_onSubmission (n : Node) (h : Handle)
    (f : Submission → Submission × List SubmissionAction) :
    (n.onSubmission view h f).1.store = n.store := by
  unfold onSubmission
  split
  next c hc => exact (each_performSubmission h (f c).2 _).2.store
  next => rfl

theorem store_onMapping (n : Node) (h : Handle)
    (f : Submission → FutureId → Submission × List SubmissionAction) :
    (n.onMapping view h f).1.store = n.store := by
  unfold onMapping
  split
  next c hc =>
    refine (each_performSubmission h (f c n.nextFuture).2 _).2.store.trans ?_
    split
    · rfl
    · rfl
  next => rfl

theorem store_onFanout (n : Node) (id : FutureId) (f : Fanout → Fanout × List FanoutAction) :
    (n.onFanout view id f).1.store = n.store := by
  unfold onFanout
  split
  next x hx => exact (after_putFanout (f x)).2.2
  next => rfl

/-- Requests to update or to back up apart, no message touches the store. -/
theorem store_receive {sender : NodeId} {m : Message} (hq : ∀ q, m ≠ .updateRequest q)
    (hb : ∀ r, m ≠ .backupRequest r) : (n.receive view sender m).1.store = n.store := by
  unfold receive
  split
  next => rfl
  next hc =>
    split
    next q => exact absurd rfl (hq q)
    next r => exact absurd rfl (hb r)
    next => rfl
    next =>
      split
      · exact store_onSubmission n _ _
      · exact store_onFanout n _ _
      · rfl
    next =>
      split
      · exact store_onSubmission n _ _
      · rfl
    next =>
      split
      · exact store_onSubmission n _ _
      · rfl

instance (view : View) (n : Node) (q : UpdateRequest) : Decidable (n.CarriesOut view q) :=
  decidable_of_iff (view.topology.stopping = false ∧
      (q.flags.topologyLocked = false →
        view.topology.ready = true ∧ q.topologyVersion = view.topology.version) ∧
      ∀ key ∈ q.keys, view.primary key view.topology.version = some n.id)
    ⟨fun ⟨hr, hv, hp⟩ => ⟨hr, hv, hp⟩, fun h => ⟨h.running, h.ready, h.primary⟩⟩

end Node

/-- The request that a move brings to a site. -/
def Move.request? (site : Site) : Move → Option UpdateRequest
  | .receive _ (.updateRequest q) => if q.cacheId = site.cacheId then some q else none
  | .resume (.process _ q) (.ok _) => some q
  | _ => none

def Message.writes (key : Key) : Message → List Write
  | .backupRequest r => r.writes key
  | _ => []

def Move.writes (key : Key) : Move → List Write
  | .receive _ m => m.writes key
  | _ => []

namespace Node

variable {view : View} {n : Node} {move : Move}

/-- The write of a key that a node applies as its primary in a move. -/
def write? (view : View) (n : Node) (move : Move) (key : Key) : Option Write :=
  match move.request? n.site with
  | some q =>
    match q.payload.entries with
    | [e] => if e.key = key ∧ n.CarriesOut view q then n.written q e else none
    | _ => none
  | none => none

theorem Brings.request? {s : NodeId} {q : UpdateRequest} (hb : n.Brings s q move) :
    move.request? n.site = some q := by
  cases hb with
  | received hc => exact if_pos hc
  | resumed v => rfl

theorem brings_of_request? {q : UpdateRequest} (hq : move.request? n.site = some q) :
    ∃ s, n.Brings s q move := by
  unfold Move.request? at hq
  split at hq
  next s q' =>
    split at hq
    next hc =>
      cases hq
      exact ⟨s, .received hc⟩
    next => cases hq
  next s q' v =>
    cases hq
    exact ⟨s, .resumed v⟩
  next => cases hq

/-- What is applied comes with a request that is carried out. -/
theorem write?_eq_some {key : Key} {w : Write} : n.write? view move key = some w ↔
    ∃ s q e, n.Brings s q move ∧ n.CarriesOut view q ∧ q.payload.entries = [e] ∧ e.key = key ∧
      n.written q e = some w := by
  constructor
  · intro h
    unfold write? at h
    split at h
    next q hq =>
      split at h
      next e he =>
        split at h
        next hc =>
          obtain ⟨s, hb⟩ := brings_of_request? hq
          exact ⟨s, q, e, hb, hc.2, he, hc.1, h⟩
        next => cases h
      next => cases h
    next => cases h
  · rintro ⟨s, q, e, hb, hc, he, hk, hw⟩
    unfold write?
    simp only [hb.request?, he]
    rw [if_pos ⟨hk, hc⟩, hw]

theorem held_process {s : NodeId} {q : UpdateRequest} {e : UpdateEntry} (hb : n.Brings s q move)
    (he : q.payload.entries = [e]) (key : Key) : (n.process view s q).1.store.held key =
      (n.write? view move key).or (n.store.held key) := by
  unfold write?
  simp only [hb.request?, he]
  by_cases hc : n.CarriesOut view q
  · rw [process_of_carriesOut hc, (after_carryOut s q).2.2, held_applied he]
    by_cases hk : key = e.key
    · rw [if_pos hk, if_pos ⟨hk.symm, hc⟩]
    · rw [if_neg hk, if_neg fun h => hk h.1.symm]
      rfl
  · rw [if_neg fun h => hc h.2]
    have hp : Processed view n s q (n.process view s q) := processed_process s q
    generalize n.process view s q = x at hp ⊢
    cases hp with
    | carriedOut h => exact absurd h hc
    | deferred h => rfl
    | declined h hc => rfl

/-- A move that brings neither kind of request leaves alone what a node holds. -/
theorem held_move_of_plain (hid : ∀ s m, move = .receive s m → m.envelope.cacheId = n.site.cacheId)
    (hq : move.request? n.site = none) (hb : ∀ s r, move ≠ .receive s (.backupRequest r))
    (key : Key) : (n.move view move).1.store.held key = n.store.held key := by
  cases move with
  | submit u =>
    cases hu : u.fault? with
    | some e => simp [Node.move, submit, hu]
    | none => exact congrArg (·.held key) (after_submit hu).store
  | receive s m =>
    have hs : (n.receive view s m).1.store = n.store := by
      refine store_receive (fun q hm => ?_) (fun r hm => hb s r (by rw [hm]))
      subst hm
      have hc : q.cacheId = n.site.cacheId := hid s _ rfl
      rw [Move.request?, if_pos hc] at hq
      cases hq
    exact congrArg (·.held key) hs
  | resume task awaited =>
    cases task with
    | remap h => exact congrArg (·.held key) (store_onMapping n h _)
    | process s q =>
      cases awaited with
      | ok v => cases hq
      | error e => rfl
  | lose gone r =>
    obtain ⟨id, who⟩ := r
    cases who with
    | submission h => exact congrArg (·.held key) (store_onSubmission n h _)
    | fanout => exact congrArg (·.held key) (store_onFanout n id _)
  | watch k reader => rfl
  | refuse k cause => rfl

/-- What a node holds after a move: what it has applied as primary, or was told of as backup. -/
theorem held_move (hid : ∀ s m, move = .receive s m → m.envelope.cacheId = n.site.cacheId)
    (hone : ∀ s q, n.Brings s q move → ∃ e, q.payload.entries = [e]) (key : Key) :
    (n.move view move).1.store.held key =
      (move.writes key).foldl Write.replay
        ((n.write? view move key).or (n.store.held key)) := by
  cases hq : move.request? n.site with
  | some q =>
    obtain ⟨s, hb⟩ := brings_of_request? hq
    obtain ⟨e, he⟩ := hone s q hb
    have hw : move.writes key = [] := by
      cases hb with
      | received hc => rfl
      | resumed v => rfl
    rw [move_of_brings hb, hw]
    exact held_process hb he key
  | none =>
    have hnone : n.write? view move key = none := by
      unfold write?
      rw [hq]
    rw [hnone, Option.none_or]
    by_cases hb : ∃ s r, move = .receive s (.backupRequest r)
    · obtain ⟨s, r, rfl⟩ := hb
      have hx : n.move view (.receive s (.backupRequest r)) = n.backUp view s r := by
        simp [Node.move, receive, hid s _ rfl]
      rw [hx, store_backUp, held_backedUp]
      rfl
    · have hw : move.writes key = [] := by
        unfold Move.writes Message.writes
        split
        next s m =>
          split
          next r => exact absurd ⟨s, r, rfl⟩ hb
          next => rfl
        next => rfl
      rw [hw]
      exact held_move_of_plain hid hq (fun s r h => hb ⟨s, r, h⟩) key

end Node

end AtomicGrid
