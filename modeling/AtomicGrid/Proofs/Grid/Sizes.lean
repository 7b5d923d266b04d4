import AtomicGrid.Proofs.Grid.Calm
import AtomicGrid.Proofs.Grid.NearWrites
import AtomicGrid.Proofs.Wire.Sizes

/-!
# How much travels in calm weather

A request that stores a value is handed on to the other owners of its key, and to nobody else.  What
travels on a calm grid carries one key at most, and names no more nodes than own a key.

## Results

* `Moment.CarriesOut.size_receivers`: to how many nodes a stored value is handed on.
* `Grid.Calm.slight`: every message carries little.
-/

set_option autoImplicit false

namespace AtomicGrid

theorem SortedSet.size_ofList_le {κ : Type} [Ord κ] [Std.TransOrd κ] [Std.LawfulEqOrd κ]
    [DecidableEq κ] (ks : List κ) : (ofList ks).size ≤ ks.length := by
  rw [← length_toList]
  exact (List.subperm_of_subset (nodup_toList _)
    fun k hk => contains_ofList.1 (mem_toList.1 hk)).length_le

variable {size : Nat}

namespace Node

variable {view : View} {n : Node} {near : NodeId} {q : UpdateRequest}

theorem Healthy.readersOf (h : n.Healthy) (key : Key) : n.store.readersOf key = [] := by
  rw [Store.readersOf, h.readers, SortedMap.get?_empty]
  rfl

theorem Healthy.lists (h : n.Healthy) (ho : ∀ key v, (view.owners key v).Nodup) : n.Lists view where
  owners := ho
  readers key := by
    rw [h.readersOf]
    exact List.nodup_nil

/-- A healthy store takes a value without conditions. -/
theorem Healthy.stores (h : n.Healthy) (store : Store) (partition : UInt32) {w : WriteCommand}
    (ho : w.operation = .update) (hf : w.filters = []) :
    ∃ a, (n.applyWrite store partition w).2 = .ok a ∧ a.newValue = w.value ∧ a.invoke = none ∧
      a.filtered = false := by
  unfold applyWrite Store.apply Store.compute
  rw [h.faults, SortedMap.get?_empty, ho, hf]
  exact ⟨_, rfl, rfl, rfl, rfl⟩

variable (view near) in
/-- What a request that stores a value comes to on a healthy node. -/
theorem Healthy.applied (h : n.Healthy) {key : Key} {value : Value} (ho : q.operation = .update)
    (hp : q.payload = .single key (some value)) (hflags : q.flags = {}) :
    (n.applied view near q).ret = .flag true ∧ (n.applied view near q).failedKeys = [] ∧
      ∃ w, n.applications q = [w] ∧ w.key = key ∧ w.store.get? key = some value := by
  have hentries : q.payload.entries = [.plain key (some value) none] := by rw [hp]; rfl
  have hcommand : (q.writeCommand (.plain key (some value) none)).filters = [] := by
    rw [UpdateRequest.writeCommand, hp]
    rfl
  obtain ⟨a, ha, hnew, hinvoke, hfiltered⟩ := h.stores n.store q.partition
    (w := q.writeCommand (.plain key (some value) none)) ho hcommand
  have he : n.applyWrite n.store q.partition (q.writeCommand (.plain key (some value) none)) =
      ((n.applyWrite n.store q.partition (q.writeCommand (.plain key (some value) none))).1,
        .ok a) := Prod.ext rfl ha
  have hheld := (held_of_applyWrite he hfiltered).1
  generalize hs : (n.applyWrite n.store q.partition
    (q.writeCommand (.plain key (some value) none))).1 = store at he hheld
  have happly : n.freshFuture.1.applyWrite n.store q.partition
      (q.writeCommand (.plain key (some value) none)) = (store, .ok a) := he
  refine ⟨?_, ?_, ⟨key, a.ttl, store⟩, ?_, rfl, hheld.trans hnew⟩
  · simp [Node.applied, hentries, applyEntry, happly, hfiltered, returnOf, hinvoke, hflags]
  · simp [Node.applied, hentries, applyEntry, happly, hfiltered]
  · simp only [applications, applies, hentries, he, hfiltered, Bool.false_eq_true, if_false]
    rfl

/-- A stored value is handed on to owners of its key and to nobody else. -/
theorem CarriesOut.length_nodes (hc : n.CarriesOut view q) (hh : n.Healthy)
    (hq : q.StoresWithin size) {partitions backups : UInt32}
    (ha : view.affinity = .ranked partitions backups) (hf : view.topology.Filed) :
    (n.applied view near q).fanout.nodes.length ≤
      min (1 + backups.toNat) view.topology.nodes.size := by
  obtain ⟨key, value, ho, hp, hflags, -⟩ := hq
  obtain ⟨-, -, w, hw, hkey, -⟩ := hh.applied view near ho hp hflags
  have howners (key : Key) (v : TopologyVersion) : (view.owners key v).Nodup := by
    rw [View.owners, ha]
    exact Affinity.nodup_keyOwners _ (fun _ h => by cases h) _ _ _
  have hv : q.topologyVersion = view.topology.version := (hc.ready (by rw [hflags])).2
  have hcollects := collects_applied (hh.lists howners) near q
  have hsub : (n.applied view near q).fanout.nodes ⊆ view.owners key q.topologyVersion := by
    intro o hmem
    obtain ⟨w', hw', hdest⟩ := (hcollects.isSome_iff o).1 (Fanout.mem_nodes_iff_requestFor.1 hmem)
    rw [hw, List.mem_singleton] at hw'
    subst hw'
    rcases hdest with hbackup | hreader
    · exact hkey ▸ hbackup.2
    · have := hreader.2.2.1
      rw [hh.readersOf] at this
      cases this
  calc (n.applied view near q).fanout.nodes.length
      ≤ (view.owners key q.topologyVersion).length :=
        (List.subperm_of_subset (SortedMap.keys_nodup _) hsub).length_le
    _ = min (1 + backups.toNat) view.topology.nodes.size := by
        rw [hv, View.owners, ha, hf.keyOwners_eq, length_chosen]

end Node

namespace Moment

variable {t : Moment} {near o : NodeId} {q : UpdateRequest}

/-- What another owner gets of a stored value. -/
theorem slight_prepared (hb : t.before.Healthy) (hq : q.StoresWithin size)
    (hl : t.before.Lists t.view) (hn : Nameable (t.gathered near q).nodes) {rec : Receiver}
    (hr : (t.prepared near q).receivers.get? o = some rec) :
    (Message.backupRequest rec.request).Slight size := by
  obtain ⟨key, value, ho, hp, hflags, hkey, hvalue⟩ := hq
  obtain ⟨-, -, w, hw, hwkey, hwvalue⟩ := hb.applied t.view near ho hp hflags
  have hcollects := (Node.collects_applied hl near q).requestFor o
  -- the request is the one that was collected, with the receivers if backups tell the caller
  have hrec : (t.prepared near q).requestFor o = some rec.request := by
    rw [Fanout.requestFor, hr]
    rfl
  rw [prepared, Fanout.requestFor_prepared] at hrec
  obtain ⟨r, hgathered, hrequest⟩ := Option.map_eq_some_iff.1 hrec
  have hgathered : (t.before.applied t.view near q).fanout.requestFor o = some r := hgathered
  rw [hgathered, Option.getD_some, hw] at hcollects
  have hentry (e : BackupEntry) (he : e ∈ r.entries) : e.Slight size := by
    rw [hcollects] at he
    obtain ⟨w', hw', rfl⟩ := List.mem_map.1 he
    obtain rfl := List.mem_singleton.1 (List.mem_of_mem_filter hw')
    constructor
    · show w'.key.length ≤ size
      rw [hwkey]
      exact hkey
    · intro v hv
      simp only [UpdateRequest.backupEntry, hwkey, hwvalue, Option.mem_some_iff] at hv
      exact hv ▸ hvalue
    · rfl
    · rfl
  have hlength : r.entries.length ≤ 1 := by
    rw [hcollects]
    show (List.map _ _).length ≤ 1
    rw [List.length_map]
    exact List.length_filter_le _ _
  have hnear : r.nearEntries = [] := by
    rw [hcollects]
    refine List.map_eq_nil_iff.2 (List.filter_eq_nil_iff.2 fun w' _ hreader => ?_)
    have := (of_decide_eq_true hreader).2.2.1
    rw [hb.readersOf] at this
    cases this
  have hargs : r.args = [] := by
    rw [hcollects]
    show q.payload.args = []
    rw [hp]
    rfl
  have hmapping : r.mapping = none := by
    rw [hcollects]
    rfl
  rw [← hrequest]
  split
  next =>
    rw [Fanout.relayed_eq]
    exact ⟨hlength, hentry, hnear, hargs, fun nodes h => Option.some.inj h ▸ hn⟩
  next => exact ⟨hlength, hentry, hnear, hargs, fun nodes h => by rw [hmapping] at h; cases h⟩

/-- The answer to a request that stores a value. -/
theorem slight_answer (hb : t.before.Healthy) (hq : q.StoresWithin size)
    (hn : Nameable (t.gathered near q).nodes) :
    (Message.updateResponse (t.answer near q)).Slight size := by
  obtain ⟨key, value, ho, hp, hflags, -⟩ := hq
  obtain ⟨hret, hfailed, -⟩ := hb.applied t.view near ho hp hflags
  refine ⟨fun r hr => ?_, ?_, ?_, ?_, ?_, fun nodes hnodes => ?_, ?_⟩
  · rw [answer_eq] at hr
    obtain rfl := Option.some.inj hr
    rw [hret]
    rfl
  · rw [answer_eq]
    exact hfailed
  · rw [answer_eq]
    rfl
  · rw [answer_eq]
    exact Nat.zero_le 1
  · rw [answer_eq]
    exact fun key hkey => absurd hkey List.not_mem_nil
  · rw [(named_of_answer hnodes).2.2]
    exact hn
  · rw [answer_eq]
    exact Node.nearValues_applied (by rw [ho]; decide)

/-- A request that stores a value is declined only to be mapped again. -/
theorem Declines.slight {resp : UpdateResponse} (hd : t.Declines near q resp)
    (hb : t.before.Healthy) (hq : q.StoresWithin size) (hs : t.view.topology.stopping = false) :
    (Message.updateResponse resp).Slight size := by
  have hanswer : (t.answer near q).hasError = false ∧ (t.answer near q).needsRemap = false :=
    positive_answer hb hq
  obtain ⟨key, value, ho, hp, hflags, hkey, hvalue⟩ := hq
  have hkeys : q.keys = [key] := by
    rw [UpdateRequest.keys, hp]
    rfl
  have hcarried (hc : t.before.CarriesOut t.view q) : False := by
    have hresp := (CarriesOut.mk hd.brings hc).responds.sent near resp hd.sent
    have hnegative := hd.declines.negative (by simp [hkeys])
    simp [hresp, hanswer] at hnegative
  have he : t.effects = (t.before.process t.view near q).2 :=
    congrArg Prod.snd (Node.move_of_brings hd.brings)
  have hsent := hd.sent
  rw [he] at hsent
  unfold Node.process at hsent
  simp only [hs, hflags, Bool.false_eq_true, if_false, Bool.not_false, Bool.true_and] at hsent
  split at hsent
  next =>
    -- who has to wait is told nothing
    have := congrArg Effect.message? (List.mem_singleton.1 hsent)
    rw [Node.message?_transmission] at this
    cases this
  next hwait =>
    simp only [Bool.or_eq_true, decide_eq_true_eq, Bool.not_eq_true', not_or,
      Bool.not_eq_false] at hwait
    split at hsent
    next =>
      have := congrArg Effect.message? (List.mem_singleton.1 hsent)
      rw [Node.message?_transmission, Node.message?_transmission] at this
      cases this
      refine ⟨fun r hr => (by cases hr), rfl, rfl, ?_, ?_, fun nodes h => (by cases h), rfl⟩
      · rw [hkeys]
        exact Nat.le_refl 1
      · rw [hkeys]
        exact fun k hk => List.mem_singleton.1 hk ▸ hkey
    next hmapped =>
      simp only [ne_eq, decide_not, Bool.or_eq_true, Bool.not_eq_true', not_or,
        Bool.not_eq_false, decide_eq_false_iff_not, Decidable.not_not] at hmapped
      exact (hcarried ⟨hs, fun _ => ⟨hwait.2, hmapped.1⟩, by simpa using hmapped.2⟩).elim

end Moment

namespace Grid

/-- No topology so far has had more than `limit` members. -/
structure Within (limit : Nat) (g : Grid) : Prop where
  now : g.topology.nodes.size ≤ limit
  log : ∀ t ∈ g.log, t.view.topology.nodes.size ≤ limit

variable {limit : Nat} {config : Config} {affinity : Affinity} {partitions backups : UInt32} {processors : Processors}
  {ids : List NodeId} {g g₀ : Grid} {n s r near : NodeId} {move : Move} {t : Moment}
  {q : UpdateRequest} {m : Message}

theorem within_start : (start ids config affinity processors).Within ids.length where
  now := SortedSet.size_ofList_le ids
  log _ ht := nomatch ht

theorem Within.act (h : g.Within limit) (ho : Occasion g n move g₀) :
    (g₀.act n move).Within limit where
  now := by
    rw [topology_act, ho.same.topology]
    exact h.now
  log t ht := by
    rw [ho.same.log_act] at ht
    rcases List.mem_cons.1 ht with rfl | ht
    · exact h.now
    · exact h.log t ht

theorem Within.depart (h : g.Within limit) : (g.depart n).Within limit where
  now :=
    calc (SortedSet.ofList (g.topology.nodes.toList.filter (· ≠ n))).size
        ≤ (g.topology.nodes.toList.filter (· ≠ n)).length := SortedSet.size_ofList_le _
      _ ≤ g.topology.nodes.toList.length := List.length_filter_le _ _
      _ = g.topology.nodes.size := SortedSet.length_toList _
      _ ≤ limit := h.now
  log := h.log

/-- Those whom a primary hands a value on to can all be named. -/
theorem Calm.nameable (hc : g.Calm size)
    (h : Reached (start ids config (.ranked partitions backups) processors) g)
    (hw : g.Within limit) (hl : min (1 + backups.toNat) limit ≤ Wire.nameable) (ht : t ∈ g.log)
    (hq : t.CarriesOut near q) : Nameable (t.gathered near q).nodes :=
  calc (t.gathered near q).nodes.length
      ≤ min (1 + backups.toNat) t.view.topology.nodes.size :=
        hq.suits.length_nodes (hc.before t ht) (hc.storesWithin h ht hq.brings)
          (h.framed.common t ht).affinity_eq (h.traced.later t ht).1
    _ ≤ min (1 + backups.toNat) limit := by
        have := hw.log t ht
        omega
    _ ≤ Wire.nameable := hl

theorem Calm.lists (hc : g.Calm size)
    (h : Reached (start ids config (.ranked partitions backups) processors) g) (ht : t ∈ g.log) :
    t.before.Lists t.view :=
  (hc.before t ht).lists fun key v => by
    rw [View.owners, (h.framed.common t ht).affinity_eq]
    exact Affinity.nodup_keyOwners _ (fun _ h => by cases h) _ _ _

theorem Calm.slight_backup (hc : g.Calm size)
    (h : Reached (start ids config (.ranked partitions backups) processors) g)
    (hw : g.Within limit) (hl : min (1 + backups.toNat) limit ≤ Wire.nameable)
    {b : BackupRequest} (hs : g.Sent s r (.backupRequest b)) :
    (Message.backupRequest b).Slight size := by
  cases h.origin hs with
  | backup ht hn hq hr hv =>
    exact Moment.slight_prepared (hc.before _ ht) (hc.storesWithin h ht hq.brings)
      (hc.lists h ht) (hc.nameable h hw hl ht hq) hr

/-- What travels in calm weather carries little. -/
theorem Calm.slight (hc : g.Calm size)
    (h : Reached (start ids config (.ranked partitions backups) processors) g)
    (hw : g.Within limit) (hl : min (1 + backups.toNat) limit ≤ Wire.nameable)
    (hs : g.Sent s r m) : m.Slight size := by
  cases h.origin hs with
  | request ht hn hlaunch =>
    obtain ⟨key, value, -, hp, -, hkey, hvalue⟩ := hlaunch.storesWithin (hc.moves _ ht)
    exact ⟨key, value, hp, hkey, hvalue⟩
  | check => trivial
  | backup => exact hc.slight_backup h hw hl hs
  | mapping ht hn hq hv hr hne hm =>
    subst hm
    exact hc.nameable h hw hl ht hq
  | loss ht hn hq hv hr hsync hlost hm =>
    simp only [Fanout.lossNotice, FanoutAction.send.injEq, Message.backupNotice.injEq] at hm
    obtain ⟨-, rfl⟩ := hm
    exact hc.nameable h hw hl ht hq
  | answer ht hn hq hr hv ha =>
    exact Moment.slight_answer (hc.before _ ht) (hc.storesWithin h ht hq.brings)
      (hc.nameable h hw hl ht hq)
  | declined ht hn hd =>
    exact hd.slight (hc.before _ ht) (hc.storesWithin h ht hd.brings)
      (h.framed.common _ ht).running
  | confirmed ht hn hm =>
    refine ⟨fun r hr => ?_, rfl, rfl, Nat.zero_le 1, fun key hk => absurd hk List.not_mem_nil,
      fun nodes h => (by cases h), rfl⟩
    obtain rfl := Option.some.inj hr
    rfl
  | acknowledged ht hn hm =>
    exact ⟨fun r hr => (by cases hr), rfl, rfl, Nat.zero_le 1, fun key hk => absurd hk List.not_mem_nil,
      fun nodes h => (by cases h), rfl⟩
  | @notice t b p ht hn hm hf hr =>
    have hb := hc.slight_backup h hw hl (h.sent_of_move ht hm)
    show Nameable (b.notice t.before.site p).mapping
    rw [BackupRequest.mapping_notice]
    cases hnodes : b.mapping with
    | none => exact Nat.zero_le _
    | some nodes => exact hb.2.2.2.2 nodes hnodes

/-- To how many nodes a request that is sent is handed on at most. -/
theorem Calm.size_receivers (hc : g.Calm size)
    (h : Reached (start ids config (.ranked partitions backups) processors) g)
    (hs : g.Sent s n (.updateRequest q)) (hq : (g.nodes n).CarriesOut (g.view n) q) :
    ((g.nodes n).applied (g.view n) s q).fanout.receivers.size ≤ g.topology.nodes.size := by
  have hstores : q.StoresWithin size := by
    cases h.origin hs with
    | request ht hn hlaunch => exact hlaunch.storesWithin (hc.moves _ ht)
  calc ((g.nodes n).applied (g.view n) s q).fanout.receivers.size
      = ((g.nodes n).applied (g.view n) s q).fanout.nodes.length := (List.length_map _).symm
    _ ≤ min (1 + backups.toNat) g.topology.nodes.size :=
        hq.length_nodes (hc.healthy n) hstores h.framed.affinity_eq h.traced.filed
    _ ≤ g.topology.nodes.size := Nat.min_le_right _ _

/-- What is sent in calm weather can be written. -/
theorem Calm.fits (hc : g.Calm size)
    (h : Reached (start ids config (.ranked partitions backups) processors) g)
    (hw : g.Within limit) (hl : min (1 + backups.toNat) limit ≤ Wire.nameable)
    (hsize : 2 * size + 64 < Wire.Shape.absentLength.toNat) (hs : g.Sent s r m.received) :
    m.Fits := by
  have hslight : m.received.Slight size := hc.slight h hw hl hs
  suffices h : m.Slight size from h.fits hsize
  cases m with
  | checkRequest => trivial
  | _ => exact hslight

end Grid

end AtomicGrid
