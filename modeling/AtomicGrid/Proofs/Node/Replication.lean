import AtomicGrid.Proofs.Affinity
import AtomicGrid.Proofs.Fanout.Replies
import AtomicGrid.Proofs.Node.Rejections
import AtomicGrid.Proofs.Node.Writes
import AtomicGrid.Proofs.Store.Replay
import AtomicGrid.Proofs.Submission.Actions

/-!
# What a primary hands on

A primary applies the entries of a request in order.  Some are refused, some held back, the others
are applied.  The other owners of a key get the entries applied to it for their stores, and the nodes
whose near caches hold the key get them for those.  Each node gets one request with all that it is
to get, and nobody gets anything of an entry that was not applied.

## Results

* `Fanout.requestFor_foldl`: what a fan-out has for a node after an entry is handed to several.
* `Node.collects_applied`: what a fan-out has for each node when all entries are applied.
* `Fanout.request?_map`: the requests that a fan-out sends are those it has.
* `Moment.carriesOut_of_backups`: nothing else brings requests to backups.
* `Solo.handsOver_run`: all requests to backups of a run.
-/

set_option autoImplicit false

namespace AtomicGrid

/-- The request to a backup that an effect shows, and to whom, whether it was handed on or
refused. -/
def Effect.backup? : Effect → Option (NodeId × BackupRequest)
  | .sent receiver (.backupRequest r) => some (receiver, r)
  | .refused receiver (.backupRequest r) => some (receiver, r)
  | _ => none

/-- The requests to backups that a move brings. -/
def Moment.backups (t : Moment) : List (NodeId × BackupRequest) :=
  t.effects.filterMap Effect.backup?

/-! ## Stores -/

namespace Store

variable {processors : Processors} {s s' : Store} {partition : UInt32} {w : WriteCommand}
  {a : AppliedWrite}

theorem readers_apply (processors : Processors) (s : Store) (partition : UInt32)
    (w : WriteCommand) : (s.apply processors partition w).1.readers = s.readers := by
  rcases apply_cases processors s partition w with ⟨cause, h⟩ | ⟨a, -, h⟩ | ⟨a, -, -, h⟩
  · rw [h]
  · rw [h]
  · rw [h]
    exact s.readers_write w.key a.newValue w.version a.ttl

theorem readers_applyBackup (s : Store) (partition : UInt32) (e : BackupEntry)
    (version : WriteVersion) : (s.applyBackup partition e version).readers = s.readers := by
  rcases s.applyBackup_cases partition e version with ⟨-, h⟩ | ⟨-, counters, h⟩
  · rw [h]
  · rw [h]
    exact s.readers_write e.key e.value version e.ttl

/-- What the store says of an update that went through is what it holds then, but for the life time
of a value that keeps the one it had. -/
theorem held_of_apply (h : s.apply processors partition w = (s', .ok a))
    (hf : a.filtered = false) : s'.get? w.key = a.newValue ∧
      s'.updateCounter partition = a.updateCounter ∧
        (s'.ttl? w.key).all fun ttl => a.ttl = ttlUnchanged ∨ ttl = a.ttl := by
  rcases apply_cases processors s partition w with ⟨cause, ha⟩ | ⟨b, hb, ha⟩ | ⟨b, hb, hc, ha⟩
  · rw [ha] at h
    cases h
  · rw [ha] at h
    cases h
    rw [hb] at hf
    cases hf
  · rw [ha] at h
    cases h
    refine ⟨?_, ?_, ?_⟩
    · show (s.write w.key a.newValue w.version a.ttl).get? w.key = _
      rw [get?_write, if_pos rfl]
    · rw [updateCounter_countUpdate, if_pos rfl, updateCounter_write, hc]
    · show ((s.write w.key a.newValue w.version a.ttl).ttl? w.key).all _ = true
      rw [ttl?_write, if_pos rfl]
      cases a.newValue with
      | none => rfl
      | some v =>
        by_cases ht : a.ttl = ttlUnchanged
        · simp [ht]
        · simp [ht]

/-- No node is noted twice as a reader of a key. -/
def ReadersDistinct (s : Store) : Prop := ∀ key, (s.readersOf key).Nodup

theorem ReadersDistinct.of_readers (h : s.ReadersDistinct) (hr : s'.readers = s.readers) :
    s'.ReadersDistinct := by
  intro key
  unfold readersOf
  rw [hr]
  exact h key

theorem ReadersDistinct.addReader (h : s.ReadersDistinct) (key : Key) (node : NodeId) :
    (s.addReader key node).ReadersDistinct := by
  intro key'
  have hreaders : (s.addReader key node).readersOf key' =
      if key' = key then (if node ∈ s.readersOf key then s.readersOf key
        else s.readersOf key ++ [node]) else s.readersOf key' := by
    show ((s.readers.insert key _).get? key').getD [] = _
    rw [SortedMap.get?_insert_ite]
    split
    · rfl
    · rfl
  rw [hreaders]
  split
  · split
    · exact h key
    next hnode =>
      refine List.nodup_append.2 ⟨h key, List.nodup_singleton node, ?_⟩
      intro o ho o' ho' he
      rw [List.mem_singleton.1 ho'] at he
      exact hnode (he ▸ ho)
  · exact h key'

end Store

/-! ## Fan-outs -/

namespace Fanout

variable {f : Fanout} {site : Site} {view : View} {o : NodeId}

/-- The request that a fan-out has for a receiver. -/
def requestFor (f : Fanout) (o : NodeId) : Option BackupRequest :=
  (f.receivers.get? o).map (·.request)

theorem requestFor_addressing (f : Fanout) (n : NodeId) (g : BackupRequest → BackupRequest) :
    (f.addressing n g).requestFor o =
      if o = n then some (g ((f.requestFor n).getD f.base)) else f.requestFor o := by
  unfold requestFor
  rw [receivers_addressing]
  split
  · cases f.receivers.get? n <;> rfl
  · rfl

theorem base_foldl (g : BackupRequest → BackupRequest) (ns : List NodeId) : ∀ f : Fanout,
    (ns.foldl (fun f n => f.addressing n g) f).base = f.base := by
  induction ns with
  | nil => exact fun _ => rfl
  | cons n ns ih => exact fun f => ih (f.addressing n g)

/-- Every node that is addressed has its request changed. -/
theorem requestFor_foldl (g : BackupRequest → BackupRequest) {ns : List NodeId} (hns : ns.Nodup) :
    ∀ f : Fanout, (ns.foldl (fun f n => f.addressing n g) f).requestFor o =
      if o ∈ ns then some (g ((f.requestFor o).getD f.base)) else f.requestFor o := by
  induction ns with
  | nil => exact fun _ => rfl
  | cons n ns ih =>
    intro f
    obtain ⟨hn, hns⟩ := List.nodup_cons.1 hns
    rw [List.foldl_cons, ih hns, requestFor_addressing]
    have hbase : (f.addressing n g).base = f.base := rfl
    rw [hbase]
    by_cases ho : o = n
    · subst ho
      rw [if_neg hn, if_pos rfl, if_pos List.mem_cons_self]
    · rw [if_neg ho]
      by_cases hmem : o ∈ ns
      · rw [if_pos hmem, if_pos (List.mem_cons_of_mem _ hmem)]
      · rw [if_neg hmem, if_neg fun h => (List.mem_cons.1 h).elim ho hmem]

theorem mem_nodes_iff_requestFor : o ∈ f.nodes ↔ (f.requestFor o).isSome = true := by
  rw [mem_nodes_iff, requestFor, Option.isSome_map, Option.isSome_iff_exists]

variable {response : UpdateResponse} {ret : UpdateReturn} {route : ReplyRoute}

/-- A fan-out that has sent nothing sends the requests it has. -/
theorem request?_map (hu : f.Unsent) :
    (f.map site view response ret route).2.filterMap FanoutAction.request? =
      (f.prepared site response ret route).requests := by
  cases hne : f.receivers.isEmpty with
  | true =>
    have hr : (f.prepared site response ret route).receivers.entries = [] := by
      rw [receivers_prepared_of_isEmpty hne]
      exact List.isEmpty_iff.1 hne
    rw [map_empty hne hu, requests, hr]
    rfl
  | false =>
    have hs : (f.prepared site response ret route).Sound := sound_prepared hu hne
    let m : Sending := ⟨view, response, ret, route⟩
    have hsequel : (f.sequel site response ret route).filterMap FanoutAction.request? = [] := by
      rw [sequel, List.filterMap_append, request?_mappings (m := m), request?_promptly (m := m)]
      rfl
    rw [map_sends hne hu]
    simp only [List.filterMap_cons, FanoutAction.request?, List.filterMap_append]
    rw [hsequel, List.append_nil]
    exact request?_sendRequests site view _ hs

theorem requestFor_prepared (o : NodeId) :
    (f.prepared site response ret route).requestFor o = (f.requestFor o).map fun r =>
      if f.relays site then relayed f.nodes (f.carried site ret) r else r := by
  unfold requestFor
  rw [receivers_prepared, Option.map_map, Option.map_map]
  congr 1
  funext r
  simp only [Function.comp]
  split
  · rfl
  · rfl

/-- Where the backups tell the caller's node, a request says so, and nothing else about it changes. -/
theorem relayed_eq (nodes : List NodeId) (result : Option Bool) (r : BackupRequest) :
    relayed nodes result r =
      { r with mapping := some nodes, flags := (relayed nodes result r).flags } := by
  unfold relayed
  split
  · rfl
  · rfl

end Fanout

/-! ## Requests -/

/-- An entry of a request that was applied, with the store right after. -/
structure Application where
  key : Key
  /-- The life time to hand on. -/
  ttl : Int64
  store : Store

/-- What the store of another owner gets of an applied entry. -/
def UpdateRequest.backupEntry (request : UpdateRequest) (w : Application) : BackupEntry where
  key := w.key
  value := w.store.get? w.key
  ttl := w.ttl
  conflictExpireTime := expireByTtl
  conflictVersion := none
  sendPrevious := false
  previous := none
  updateCounter := w.store.updateCounter request.partition

/-- What a near cache gets of an applied entry. -/
def Application.nearEntry (w : Application) : NearEntry where
  key := w.key
  value := w.store.get? w.key
  ttl := w.ttl
  expireTime := expireByTtl

namespace Node

variable {view : View} {n : Node} {near : NodeId} {request : UpdateRequest}

/-- The entries that are neither refused nor held back as they are applied in order. -/
def applies (n : Node) (request : UpdateRequest) : Store → List UpdateEntry → List Application
  | _, [] => []
  | store, e :: es =>
    match n.applyWrite store request.partition (request.writeCommand e) with
    | (store, .error _) => n.applies request store es
    | (store, .ok a) =>
      if a.filtered then n.applies request store es
      else ⟨e.key, a.ttl, store⟩ :: n.applies request store es

/-- The entries of a request that are applied if it is carried out now. -/
def applications (n : Node) (request : UpdateRequest) : List Application :=
  n.applies request n.store request.payload.entries

/-- The node `o` is another owner of the key at the version of the request. -/
def IsBackup (view : View) (n : Node) (request : UpdateRequest) (o : NodeId) (key : Key) : Prop :=
  o ≠ n.id ∧ o ∈ view.owners key request.topologyVersion

/-- The near cache of the node `o` holds the key, and `o` is alive.  The caller's node hears of the
update in other ways. -/
def IsReader (view : View) (n : Node) (near o : NodeId) (key : Key) : Prop :=
  o ≠ n.id ∧ o ≠ near ∧ o ∈ n.store.readersOf key ∧ view.topology.isAlive o = true

instance (o : NodeId) (key : Key) : Decidable (n.IsBackup view request o key) :=
  inferInstanceAs (Decidable (_ ∧ _))

instance (o : NodeId) (key : Key) : Decidable (n.IsReader view near o key) :=
  inferInstanceAs (Decidable (_ ∧ _))

/-- The request to the node `o` with what it is to get of applied entries. -/
def requestTo (view : View) (n : Node) (near : NodeId) (request : UpdateRequest)
    (ws : List Application) (o : NodeId) : BackupRequest :=
  { n.backupBase near request with
    entries := (ws.filter fun w => n.IsBackup view request o w.key).map request.backupEntry
    nearEntries := (ws.filter fun w => n.IsReader view near o w.key).map Application.nearEntry }

theorem requestTo_snoc (ws : List Application) (w : Application) (o : NodeId) :
    n.requestTo view near request (ws ++ [w]) o =
      let r := n.requestTo view near request ws o
      { r with
        entries := r.entries ++
          if n.IsBackup view request o w.key then [request.backupEntry w] else []
        nearEntries := r.nearEntries ++
          if n.IsReader view near o w.key then [w.nearEntry] else [] } := by
  have hlast {α : Type} (g : Application → α) (p : Application → Prop) [DecidablePred p] :
      (([w].filter fun w => p w).map g) = if p w then [g w] else [] := by
    by_cases hp : p w
    · simp [hp]
    · simp [hp]
  simp only [requestTo, List.filter_append, List.map_append, hlast]

/-- The fan-out has for every node what it is to get of the applied entries `ws`. -/
structure Collects (view : View) (n : Node) (near : NodeId) (request : UpdateRequest)
    (ws : List Application) (f : Fanout) : Prop where
  base : f.base = n.backupBase near request
  isSome_iff : ∀ o, (f.requestFor o).isSome = true ↔
    ∃ w ∈ ws, n.IsBackup view request o w.key ∨ n.IsReader view near o w.key
  requestFor : ∀ o, (f.requestFor o).getD f.base = n.requestTo view near request ws o

theorem collects_start (view : View) (n : Node) (near : NodeId) (request : UpdateRequest) :
    n.Collects view near request [] (.start n.site near request n.nextFuture) where
  base := rfl
  isSome_iff _ := by simp [Fanout.requestFor, Fanout.start]
  requestFor _ := rfl

/-- An entry for the store is handed to the other owners of its key. -/
theorem requestFor_addEntry {f : Fanout} {e : BackupEntry} {key : Key} (hk : e.key = key)
    (hv : f.base.topologyVersion = request.topologyVersion)
    (howners : (view.owners key request.topologyVersion).Nodup) (o : NodeId) :
    (f.addEntry n.site view e).requestFor o =
      if n.IsBackup view request o key then
        some ((fun r => { r with entries := r.entries ++ [e] }) ((f.requestFor o).getD f.base))
      else f.requestFor o := by
  have howner : o ∈ (view.owners key request.topologyVersion).filter (· ≠ n.site.node) ↔
      n.IsBackup view request o key := by
    simp only [List.mem_filter, decide_eq_true_eq, IsBackup, Node.id]
    exact And.comm
  rw [Fanout.addEntry, hk, hv,
    Fanout.requestFor_foldl (fun r => { r with entries := r.entries ++ [e] }) (howners.filter _) f]
  simp only [howner]

/-- An entry for near caches is handed to the readers of its key. -/
theorem requestFor_addNearEntry {f : Fanout} {key : Key}
    (hreaders : (n.store.readersOf key).Nodup) (e : NearEntry) (o : NodeId) :
    (f.addNearEntry n.site view ((n.store.readersOf key).filter (· ≠ near)) e).requestFor o =
      if n.IsReader view near o key then
        some ((fun r => { r with nearEntries := r.nearEntries ++ [e] })
          ((f.requestFor o).getD f.base))
      else f.requestFor o := by
  have hreader : o ∈ ((n.store.readersOf key).filter (· ≠ near)).filter
      (fun o => o ≠ n.site.node && view.topology.isAlive o) ↔ n.IsReader view near o key := by
    simp only [List.mem_filter, decide_eq_true_eq, Bool.and_eq_true, IsReader, Node.id]
    tauto
  rw [Fanout.addNearEntry, Fanout.requestFor_foldl
    (fun r => { r with nearEntries := r.nearEntries ++ [e] }) ((hreaders.filter _).filter _) f]
  simp only [hreader]

/-- An applied entry is handed to the other owners of its key and to its readers. -/
theorem Collects.snoc {ws : List Application} {f : Fanout} {w : Application}
    (h : n.Collects view near request ws f)
    (howners : (view.owners w.key request.topologyVersion).Nodup)
    (hreaders : (n.store.readersOf w.key).Nodup) :
    n.Collects view near request (ws ++ [w])
      ((f.addEntry n.site view (request.backupEntry w)).addNearEntry n.site view
        ((n.store.readersOf w.key).filter (· ≠ near)) w.nearEntry) := by
  have hversion : f.base.topologyVersion = request.topologyVersion := by
    rw [h.base]
    rfl
  have hkey : (request.backupEntry w).key = w.key := rfl
  have hfor' (o : NodeId) := requestFor_addEntry (n := n) hkey hversion howners o
  have hbase' : (f.addEntry n.site view (request.backupEntry w)).base = f.base :=
    Fanout.base_foldl _ _ f
  generalize f.addEntry n.site view (request.backupEntry w) = f' at hfor' hbase' ⊢
  have hbase : (f'.addNearEntry n.site view ((n.store.readersOf w.key).filter (· ≠ near))
      w.nearEntry).base = f.base := (Fanout.base_foldl _ _ f').trans hbase'
  constructor
  · rw [hbase, h.base]
  · intro o
    rw [requestFor_addNearEntry hreaders, hfor']
    simp only [List.mem_append, List.mem_singleton, or_and_right, exists_or, exists_eq_left,
      ← h.isSome_iff]
    split
    next hr => simp [hr]
    next hr =>
      split
      next hb => simp [hb]
      next hb => simp [hr, hb]
  · intro o
    rw [hbase, requestFor_addNearEntry hreaders, hfor', hbase', requestTo_snoc, ← h.requestFor o]
    by_cases hb : n.IsBackup view request o w.key
    · by_cases hr : n.IsReader view near o w.key
      · simp only [if_pos hb, if_pos hr, Option.getD_some]
      · simp only [if_pos hb, if_neg hr, Option.getD_some, List.append_nil]
    · by_cases hr : n.IsReader view near o w.key
      · simp only [if_neg hb, if_pos hr, Option.getD_some, List.append_nil]
      · simp only [if_neg hb, if_neg hr, List.append_nil]

/-! ## Entries in order -/

theorem readers_applyWrite (n : Node) (store : Store) (partition : UInt32) (w : WriteCommand) :
    (n.applyWrite store partition w).1.readers = store.readers := by
  unfold applyWrite
  split
  · rfl
  · exact Store.readers_apply n.processors store partition w

/-- What is applied on the primary is what the store holds then. -/
theorem held_of_applyWrite {store store' : Store} {partition : UInt32} {w : WriteCommand}
    {a : AppliedWrite} (h : n.applyWrite store partition w = (store', .ok a))
    (hf : a.filtered = false) : store'.get? w.key = a.newValue ∧
      store'.updateCounter partition = a.updateCounter ∧
        (store'.ttl? w.key).all fun ttl => a.ttl = ttlUnchanged ∨ ttl = a.ttl := by
  unfold applyWrite at h
  split at h
  · cases h
  · exact Store.held_of_apply h hf

theorem applies_cons (store : Store) (e : UpdateEntry) (es : List UpdateEntry) :
    n.applies request store (e :: es) = n.applies request store [e] ++
      n.applies request (n.applyWrite store request.partition (request.writeCommand e)).1 es := by
  rw [applies, applies]
  rcases n.applyWrite store request.partition (request.writeCommand e) with ⟨store', cause | a⟩
  · rfl
  · simp only
    split
    · rfl
    · rfl

/-- A life time is handed on as the store has it, unless the store is to keep the one it had. -/
theorem ttl_applies (n : Node) (es : List UpdateEntry) : ∀ store : Store,
    ∀ w ∈ n.applies request store es,
      (w.store.ttl? w.key).all fun ttl => w.ttl = ttlUnchanged ∨ ttl = w.ttl := by
  induction es with
  | nil => exact fun _ _ hw => nomatch hw
  | cons e es ih =>
    intro store w hw
    rw [applies] at hw
    rcases h : n.applyWrite store request.partition (request.writeCommand e) with
      ⟨store', cause | a⟩
    · rw [h] at hw
      exact ih store' w hw
    · rw [h] at hw
      cases hf : a.filtered with
      | true =>
        simp only [hf, if_true] at hw
        exact ih store' w hw
      | false =>
        simp only [hf, Bool.false_eq_true, if_false] at hw
        rcases List.mem_cons.1 hw with rfl | hw
        · exact (held_of_applyWrite h hf).2.2
        · exact ih store' w hw

/-- No owner of a key is listed twice, and no reader. -/
structure Lists (view : View) (n : Node) : Prop where
  owners : ∀ key v, (view.owners key v).Nodup
  readers : n.store.ReadersDistinct

theorem Collects.applyEntry (hl : n.Lists view) {s : Applied} {ws : List Application}
    (h : n.Collects view near request ws s.fanout) (hr : s.store.readers = n.store.readers)
    (e : UpdateEntry) : n.Collects view near request (ws ++ n.applies request s.store [e])
      (n.applyEntry view near request s e).fanout := by
  unfold Node.applyEntry applies
  have hreaders := n.readers_applyWrite s.store request.partition (request.writeCommand e)
  rcases hw : n.applyWrite s.store request.partition (request.writeCommand e) with
    ⟨store, cause | a⟩
  · simp only [applies, List.append_nil]
    exact h
  · simp only [applies]
    cases hf : a.filtered with
    | true =>
      simp only [if_true, List.append_nil]
      exact h
    | false =>
      simp only [Bool.false_eq_true, if_false]
      obtain ⟨hvalue, hcounter, -⟩ := held_of_applyWrite hw hf
      let w : Application := ⟨e.key, a.ttl, store⟩
      have hentry : a.backupEntry e.key = request.backupEntry w := by
        have hvalue : store.get? e.key = a.newValue := hvalue
        unfold AppliedWrite.backupEntry UpdateRequest.backupEntry
        rw [← hvalue, ← hcounter]
      have hnear : a.nearEntry e.key = w.nearEntry := by
        have hvalue : store.get? e.key = a.newValue := hvalue
        unfold AppliedWrite.nearEntry Application.nearEntry
        rw [← hvalue]
      have hof : store.readersOf e.key = n.store.readersOf w.key := by
        unfold Store.readersOf
        rw [hw] at hreaders
        rw [hreaders, hr]
      rw [hentry, hnear, hof]
      exact h.snoc (hl.owners _ _) (hl.readers _)

/-- Applying entries leaves the readers alone. -/
theorem readers_foldl (es : List UpdateEntry) : ∀ s : Applied,
    (es.foldl (n.applyEntry view near request) s).store.readers = s.store.readers := by
  induction es with
  | nil => exact fun _ => rfl
  | cons e es ih =>
    intro s
    rw [List.foldl_cons, ih, store_applyEntry, readers_applyWrite]

theorem Collects.foldl (hl : n.Lists view) (es : List UpdateEntry) :
    ∀ {s : Applied} {ws : List Application}, n.Collects view near request ws s.fanout →
      s.store.readers = n.store.readers →
        n.Collects view near request (ws ++ n.applies request s.store es)
          (es.foldl (n.applyEntry view near request) s).fanout := by
  induction es with
  | nil =>
    intro s ws h _
    rw [applies, List.append_nil]
    exact h
  | cons e es ih =>
    intro s ws h hr
    have hreaders : (n.applyEntry view near request s e).store.readers = n.store.readers := by
      rw [store_applyEntry, readers_applyWrite, hr]
    have hes := ih (h.applyEntry hl hr e) hreaders
    rw [store_applyEntry, List.append_assoc, ← applies_cons] at hes
    exact hes

/-- The fan-out of a request that is carried out has for every node what it is to get. -/
theorem collects_applied (hl : n.Lists view) (near : NodeId) (request : UpdateRequest) :
    n.Collects view near request (n.applications request) (n.applied view near request).fanout := by
  let s : Applied := { store := n.store, fanout := .start n.site near request n.nextFuture }
  have h : n.Collects view near request [] s.fanout := n.collects_start view near request
  exact h.foldl hl request.payload.entries rfl

theorem readers_applied (view : View) (n : Node) (near : NodeId) (request : UpdateRequest) :
    (n.applied view near request).store.readers = n.store.readers :=
  readers_foldl (n := n) request.payload.entries _

/-! ## Readers in a run -/

theorem readers_process (sender : NodeId) :
    (n.process view sender request).1.store.readers = n.store.readers := by
  have hp : Processed view n sender request (n.process view sender request) :=
    processed_process sender request
  generalize n.process view sender request = r at hp ⊢
  cases hp with
  | carriedOut h =>
    rw [(after_carryOut sender request).2.2]
    exact readers_applied view n sender request
  | deferred h => rfl
  | declined h hc => rfl

theorem readers_backUp (sender : NodeId) (r : BackupRequest) :
    (n.backUp view sender r).1.store.readers = n.store.readers := by
  rw [store_backUp]
  unfold backedUp
  generalize n.store = store
  induction r.entries generalizing store with
  | nil => rfl
  | cons e es ih => rw [List.foldl_cons, ih, Store.readers_applyBackup]

/-- Only a new reader changes whom the node has noted as readers. -/
theorem readers_move {move : Move} (hm : ∀ key reader, move ≠ .watch key reader) :
    (n.move view move).1.store.readers = n.store.readers := by
  cases move with
  | submit u =>
    refine congrArg Store.readers ?_
    show (n.submit view u).1.store = n.store
    unfold submit
    split
    · rfl
    · exact store_onMapping _ _ _
  | receive sender m =>
    show (n.receive view sender m).1.store.readers = n.store.readers
    by_cases hc : m.envelope.cacheId = n.site.cacheId
    · cases m with
      | updateRequest q =>
        rw [receive, if_neg (not_not_intro hc)]
        exact readers_process sender
      | backupRequest r =>
        rw [receive, if_neg (not_not_intro hc)]
        exact readers_backUp sender r
      | checkRequest | updateResponse | mappingNotice | backupNotice =>
        exact congrArg Store.readers (store_receive (by simp) (by simp))
    · rw [receive_foreign hc]
  | resume task awaited =>
    cases task with
    | remap c => exact congrArg Store.readers (store_onMapping n c _)
    | process sender q =>
      cases awaited with
      | ok v => exact readers_process sender
      | error e => rfl
  | lose gone coordinator =>
    obtain ⟨id, who⟩ := coordinator
    refine congrArg Store.readers ?_
    cases who with
    | submission c => exact store_onSubmission n c _
    | fanout => exact store_onFanout n id _
  | watch key reader => exact absurd rfl (hm key reader)
  | refuse key cause => rfl

theorem readersDistinct_move (h : n.store.ReadersDistinct) (move : Move) :
    (n.move view move).1.store.ReadersDistinct := by
  cases move with
  | watch key reader => exact h.addReader key reader
  | submit | receive | resume | lose | refuse =>
    exact h.of_readers (readers_move fun _ _ => nofun)

end Node

namespace Solo

variable {P : Node → Prop} {s : Solo}

/-- What holds of the node now, and has held of it at every move. -/
structure Always (P : Node → Prop) (s : Solo) : Prop where
  now : P s.node
  log : ∀ t ∈ s.log, P t.before

section

variable (hmove : ∀ {view : View} {n : Node} (move : Move), P n → P (n.move view move).1)
include hmove

theorem Always.act (h : s.Always P) (view : View) (move : Move) : (s.act view move).Always P where
  now := hmove move h.now
  log t ht := by
    rcases List.mem_cons.1 ht with rfl | ht
    · exact h.now
    · exact h.log t ht

theorem Always.foldl_act (view : View) (ms : List Move) : ∀ {s : Solo}, s.Always P →
    (ms.foldl (Solo.act view) s).Always P := by
  induction ms with
  | nil => exact fun h => h
  | cons m ms ih => exact fun h => ih (h.act hmove view m)

theorem Always.step (h : s.Always P) (e : View × Occurrence) : (s.step e).Always P := by
  obtain ⟨view, occurrence⟩ := e
  cases occurrence with
  | submit u => exact h.act hmove view _
  | receive sender m => exact h.act hmove view _
  | resume task awaited =>
    show (if task ∈ s.tasks then s.act view (.resume task awaited) else s).Always P
    split
    · exact h.act hmove view _
    · exact h
  | depart gone => exact h.foldl_act hmove view _
  | watch key reader => exact h.act hmove view _
  | refuse key cause => exact h.act hmove view _

/-- What every move keeps has always held in a run. -/
theorem Always.run (es : List (View × Occurrence)) : ∀ {s : Solo}, s.Always P →
    (s.run es).Always P := by
  induction es with
  | nil => exact fun h => h
  | cons e es ih => exact fun h => ih (h.step hmove e)

end

end Solo

/-! ## What is handed on -/

namespace Moment

variable {t : Moment} {near : NodeId} {q : UpdateRequest}

/-- The requests that a fan-out asks for can be seen. -/
theorem backup?_effects (view : View) (as : List FanoutAction) :
    (as.flatMap (FanoutAction.effects view)).filterMap Effect.backup? =
      as.filterMap FanoutAction.request? := by
  have htransmission (receiver : NodeId) (m : Message) :
      (Node.transmission view receiver m).backup? = (FanoutAction.send receiver m).request? := by
    unfold Node.transmission
    split
    · cases m <;> rfl
    · cases m <;> rfl
  have ha (a : FanoutAction) : (a.effects view).filterMap Effect.backup? = a.request?.toList := by
    cases a with
    | send receiver m =>
      rw [FanoutAction.effects, List.filterMap_cons, htransmission]
      cases (FanoutAction.send receiver m).request? <;> rfl
    | reply route r =>
      cases route with
      | node receiver =>
        rw [FanoutAction.effects, Node.reply, List.filterMap_cons, htransmission]
        rfl
      | nobody => rfl
      | label name => rfl
    | enlist | retire | notify => rfl
  induction as with
  | nil => rfl
  | cons a as ih =>
    rw [List.flatMap_cons, List.filterMap_append, ha, ih, List.filterMap_cons]
    cases a.request? <;> rfl

/-- The requests of a fan-out go out as it is opened. -/
theorem CarriesOut.backups (h : t.CarriesOut near q) :
    t.backups = (t.prepared near q).requests := by
  show (t.before.move t.view t.move).2.filterMap Effect.backup? = _
  rw [h.after.1.effects, backup?_effects]
  exact Fanout.request?_map Node.gathers_applied.toUnsent

/-- Requests to backups go out with a fan-out that is opened, and in no other way. -/
theorem carriesOut_of_backups {x : NodeId × BackupRequest} (hx : x ∈ t.backups) :
    ∃ near q, t.CarriesOut near q := by
  obtain ⟨o, b⟩ := x
  have hmem : (o, Message.backupRequest b) ∈
      (t.before.move t.view t.move).2.filterMap Effect.message? := by
    obtain ⟨e, he, hb⟩ := List.mem_filterMap.1 hx
    refine List.mem_filterMap.2 ⟨e, he, ?_⟩
    unfold Effect.backup? at hb
    split at hb
    · cases hb
      rfl
    · cases hb
      rfl
    · cases hb
  have hturn : t.before.Turn t.view t.move (t.before.move t.view t.move) := Node.turn_move t.move
  cases hturn with
  | submission ht ha =>
    rw [ha.effects, Node.messages_effects] at hmem
    obtain ⟨a, hact, ha⟩ := List.mem_filterMap.1 hmem
    cases Submission.abides_turn ht a hact with
    | retire | await | writeNear | check | enlist | request => cases ha
  | carried hm hc ha => exact ⟨_, _, hm, hc⟩
  | acknowledged hk ha =>
    rw [ha.effects] at hmem
    rcases Node.message_of_fanout hmem with hs | ⟨r, hr⟩
    · cases Fanout.send_register hs
    · cases hr
  | plain hp ha =>
    rcases Node.message_of_plain hp hmem with ⟨r, hr⟩ | ⟨b, hb⟩
    · cases hr
    · cases hb

/-- The fan-out `f` hands on what is applied of a request, and nothing else. -/
structure HandsOver (t : Moment) (near : NodeId) (q : UpdateRequest) (f : Fanout) : Prop where
  id : f.id = t.number
  nodup : f.nodes.Nodup
  mem_nodes_iff : ∀ o, o ∈ f.nodes ↔ ∃ w ∈ t.before.applications q,
    t.before.IsBackup t.view q o w.key ∨ t.before.IsReader t.view near o w.key
  /-- Every node gets one request. -/
  receivers : t.backups.map (·.1) = f.nodes
  entries : ∀ o r, (o, r) ∈ t.backups → r.entries =
    ((t.before.applications q).filter fun w => t.before.IsBackup t.view q o w.key).map
      q.backupEntry
  nearEntries : ∀ o r, (o, r) ∈ t.backups → r.nearEntries =
    ((t.before.applications q).filter fun w => t.before.IsReader t.view near o w.key).map
      Application.nearEntry
  versions : ∀ o r, (o, r) ∈ t.backups → r.writeVersion = q.writeVersion ∧ r.future = t.number
  /-- A life time is handed on as the store has it, unless the store is to keep the one it had. -/
  ttl : ∀ w ∈ t.before.applications q,
    (w.store.ttl? w.key).all fun ttl => w.ttl = ttlUnchanged ∨ ttl = w.ttl

/-- A request that goes out says what its receiver is to get, whatever it says of the answer. -/
theorem CarriesOut.request (h : t.CarriesOut near q) (hl : t.before.Lists t.view) {o : NodeId}
    {r : BackupRequest} (hr : (o, r) ∈ t.backups) :
    let r' := t.before.requestTo t.view near q (t.before.applications q) o
    r.entries = r'.entries ∧ r.nearEntries = r'.nearEntries ∧ r.writeVersion = r'.writeVersion ∧
      r.future = r'.future := by
  intro r'
  have hcollects : t.before.Collects t.view near q (t.before.applications q) (t.gathered near q) :=
    Node.collects_applied hl near q
  rw [h.backups] at hr
  obtain ⟨receiver, hreceiver, rfl⟩ := Fanout.mem_requests.1 hr
  have hsome : (t.prepared near q).requestFor o = some receiver.request := by
    rw [Fanout.requestFor, hreceiver]
    rfl
  rw [prepared, Fanout.requestFor_prepared] at hsome
  obtain ⟨r₀, hr₀, hrelay⟩ := Option.map_eq_some_iff.1 hsome
  have hr' : r₀ = r' := by
    have hget := hcollects.requestFor o
    rw [hr₀] at hget
    exact hget
  rw [← hrelay, ← hr']
  split
  · rw [Fanout.relayed_eq]
    exact ⟨rfl, rfl, rfl, rfl⟩
  · exact ⟨rfl, rfl, rfl, rfl⟩

theorem CarriesOut.handsOver (h : t.CarriesOut near q) (hl : t.before.Lists t.view) :
    t.HandsOver near q (t.opened near q) := by
  have hcollects : t.before.Collects t.view near q (t.before.applications q) (t.gathered near q) :=
    Node.collects_applied hl near q
  have hprepared : (t.opened near q).nodes = (t.prepared near q).nodes :=
    (t.opened_gathered near q).same.nodes
  have hnodes : (t.opened near q).nodes = (t.gathered near q).nodes :=
    hprepared.trans Fanout.nodes_prepared
  exact {
    id := t.id_opened near q
    nodup := SortedMap.keys_nodup _
    mem_nodes_iff := fun o => by
      rw [hnodes, Fanout.mem_nodes_iff_requestFor, hcollects.isSome_iff]
    receivers := by
      rw [h.backups, hprepared, Fanout.requests, List.map_map]
      rfl
    entries := fun o r hr => (h.request hl hr).1
    nearEntries := fun o r hr => (h.request hl hr).2.1
    versions := fun o r hr => (h.request hl hr).2.2
    ttl := t.before.ttl_applies q.payload.entries t.before.store }

end Moment

namespace Solo

variable {t : Moment}

/-- What a node hands on, at any time in a run, is what it has applied of a request as primary. -/
theorem handsOver_run (config : Config) (processors : Processors) (es : List (View × Occurrence))
    (ht : t ∈ ((start config processors).run es).log)
    (hpinned : ∀ owners, t.view.affinity = .pinned owners → owners.Nodup) :
    (∀ near q, t.CarriesOut near q →
      ∃ f, t.after.fanouts.get? t.number = some f ∧ t.HandsOver near q f) ∧
    ((∀ near q, ¬ t.CarriesOut near q) → t.backups = []) := by
  constructor
  · intro near q hc
    have hstart : (start config processors).Always fun n => n.store.ReadersDistinct :=
      ⟨fun _ => List.nodup_nil, fun _ h => nomatch h⟩
    have hlog := (hstart.run (fun move h => Node.readersDistinct_move h move) es).log t ht
    refine ⟨t.opened near q, hc.fanouts, hc.handsOver ⟨fun key v => ?_, hlog⟩⟩
    exact t.view.affinity.nodup_keyOwners hpinned t.view.topology key v
  · intro hnone
    rw [List.eq_nil_iff_forall_not_mem]
    intro x hx
    obtain ⟨near, q, hc⟩ := Moment.carriesOut_of_backups hx
    exact hnone near q hc

/-- Two near caches come to hold the first key, and the store is to refuse the second. -/
def watched : List (View × Occurrence) :=
  [(threeOwners, .watch [1] ⟨4⟩), (threeOwners, .watch [1] ⟨1⟩),
    (threeOwners, .refuse [2] (some (.rejected "full")))]

/-- Node 2 as it gets the request of node 1 then. -/
def storingWatched : Moment :=
  ⟨⟨2⟩, threeOwners, ((start { nodeId := 2 } Processor.none).run watched).node,
    .receive ⟨1⟩ (.updateRequest storeTwo)⟩

/-- Both backups get the first key, and one of them also for its near cache. -/
theorem handsOver_storingWatched :
    (∃ f, storingWatched.after.fanouts.get? storingWatched.number = some f ∧
        storingWatched.HandsOver ⟨1⟩ storeTwo f) ∧
      storingWatched.backups.map (fun x =>
        (x.1, x.2.entries.map (·.key), x.2.nearEntries.map (·.key))) =
          [(⟨3⟩, [[1]], []), (⟨4⟩, [[1]], [[1]])] := by
  have hcarries : storingWatched.CarriesOut ⟨1⟩ storeTwo := by
    refine ⟨.received (by decide +kernel), ⟨rfl, fun _ => ⟨rfl, rfl⟩, by decide +kernel⟩⟩
  refine ⟨?_, by decide +kernel⟩
  refine (handsOver_run { nodeId := 2 } Processor.none
    (watched ++ [(threeOwners, .receive ⟨1⟩ (.updateRequest storeTwo))]) List.mem_cons_self
    fun owners h => ?_).1 ⟨1⟩ storeTwo hcarries
  cases h
  decide

end Solo

end AtomicGrid
