import AtomicGrid.Host
import AtomicGrid.Proofs.Node.Primary
import AtomicGrid.Proofs.Submission.Actions
import AtomicGrid.Proofs.Topology.History

/-!
# What waits for an exchange

While a topology is not ready, no submission gets a number or sends a request, requests that are not
locked to a topology stay unapplied, and whoever waits for a version keeps waiting.

A topology is not ready from the begin of an exchange to its end, as long as the assignment stays:
a change of the assignment makes the topology ready, and the members of the exchange that has not
ended along with it.

## Results

* `Node.registry_unready`, `Node.messages_unready`: no submission gets a number or sends a request.
* `Node.brings_unready`: no request that is not locked to a topology is applied.
* `Host.settle_unready`: tasks are parked, and nothing else happens.
* `Topology.halts_of_unready`: what does not happen while the topology is not ready.
* `Topology.unfinished_run`: a topology whose exchange has not ended.
-/

set_option autoImplicit false

namespace AtomicGrid

/-! ## Submissions -/

namespace Submission

/-- Without a new attempt there is no new number. -/
theorem Abides.onRegistry {t : Topology} {x : Submission × List SubmissionAction}
    (hx : Abides t x) (hr : t.ready = false) (h : Handle) {id : FutureId} {who : Registered} :
    ∀ {r : SortedMap FutureId Registered},
      (x.2.foldl (SubmissionAction.onRegistry h) r).get? id = some who → r.get? id = some who := by
  obtain ⟨c, as⟩ := x
  induction as with
  | nil => exact fun hg => hg
  | cons a as ih =>
    intro r hg
    have has : Abides t (c, as) := fun b hb => hx b (List.mem_cons_of_mem _ hb)
    have hg := ih has hg
    cases hx a List.mem_cons_self with
    | retire i =>
      rw [SubmissionAction.onRegistry, SortedMap.get?_erase_ite] at hg
      split at hg
      · cases hg
      · exact hg
    | await v => exact hg
    | writeNear key value version ttl => exact hg
    | check primary m => exact hg
    | enlist ht i =>
      rw [hr] at ht
      cases ht
    | request ht primary q => exact hg

end Submission

/-! ## Nodes -/

namespace Node

variable {view : View} {n : Node} {move : Move}

/-- Fan-outs give no number to a submission. -/
theorem get?_fanout {id : FutureId} {h : Handle} (as : List FanoutAction) :
    ∀ {r : SortedMap FutureId Registered},
      (as.foldl FanoutAction.onRegistry r).get? id = some (.submission h) →
        r.get? id = some (.submission h) := by
  induction as with
  | nil => exact fun hg => hg
  | cons a as ih =>
    intro r hg
    have hg := ih hg
    cases a with
    | enlist i =>
      rw [FanoutAction.onRegistry, SortedMap.get?_insert_ite] at hg
      split at hg
      · cases hg
      · exact hg
    | retire i =>
      rw [FanoutAction.onRegistry, SortedMap.get?_erase_ite] at hg
      split at hg
      · cases hg
      · exact hg
    | send receiver m => exact hg
    | reply route r => exact hg
    | notify listener success => exact hg

/-- No submission gets a number while the topology is not ready. -/
theorem registry_unready (hr : view.topology.ready = false) (n : Node) (move : Move)
    {id : FutureId} {h : Handle}
    (hg : (n.move view move).1.registry.get? id = some (.submission h)) :
    n.registry.get? id = some (.submission h) := by
  have hturn : n.Turn view move (n.move view move) := turn_move move
  cases hturn with
  | submission ht ha =>
    rw [ha.registry] at hg
    exact (Submission.abides_turn ht).onRegistry hr _ hg
  | carried hm hc ha =>
    rw [ha.registry] at hg
    exact get?_fanout _ hg
  | acknowledged hk ha =>
    rw [ha.registry] at hg
    exact get?_fanout _ hg
  | plain hp ha =>
    rw [ha.registry] at hg
    exact hg

/-- No request is sent while the topology is not ready. -/
theorem messages_unready (hr : view.topology.ready = false) (n : Node) (move : Move)
    {receiver : NodeId} {m : Message}
    (hx : (receiver, m) ∈ (n.move view move).2.filterMap Effect.message?) (q : UpdateRequest) :
    m ≠ .updateRequest q := by
  rintro rfl
  have hturn : n.Turn view move (n.move view move) := turn_move move
  cases hturn with
  | submission ht ha =>
    rw [ha.effects, messages_effects] at hx
    obtain ⟨a, hmem, ha⟩ := List.mem_filterMap.1 hx
    cases Submission.abides_turn ht a hmem with
    | request ht primary q =>
      rw [hr] at ht
      cases ht
    | retire | await | writeNear | check | enlist => cases ha
  | carried hm hc ha =>
    rw [ha.effects] at hx
    rcases message_of_fanout hx with hs | ⟨r, hr⟩
    · have hask := opened_applied.asks _ hs
      generalize hact : FanoutAction.send receiver (.updateRequest q) = act at hask
      cases hask with
      | request | loss | mapping => cases hact
      | enlist | retire | reply | notify => cases hact
    · cases hr
  | acknowledged hk ha =>
    rw [ha.effects] at hx
    rcases message_of_fanout hx with hs | ⟨r, hr⟩
    · cases Fanout.send_register hs
    · cases hr
  | plain hp ha =>
    rcases message_of_plain hp hx with ⟨r, hr⟩ | ⟨b, hb⟩
    · cases hr
    · cases hb

/-- A request that is not locked to a topology changes nothing while the topology is not ready. -/
theorem brings_unready (hr : view.topology.ready = false) {sender : NodeId}
    {request : UpdateRequest} (hm : n.Brings sender request move)
    (hl : request.flags.topologyLocked = false) : (n.move view move).1 = n := by
  have hp : Processed view n sender request (n.move view move) := processed_move hm
  generalize n.move view move = r at hp ⊢
  cases hp with
  | carriedOut h =>
    rw [(h.ready hl).1] at hr
    cases hr
  | deferred h => rfl
  | declined h hc => rfl

end Node

/-! ## Tasks -/

namespace Topology

variable {t : Topology}

/-- Whoever waits for a version waits on, unless the cache is stopping. -/
theorem awaited_unready (hr : t.ready = false) (v : TopologyVersion) :
    t.awaited v = if t.stopping then some (.error (.stopped "")) else none := by
  unfold awaited
  rw [hr]
  simp

end Topology

namespace Host

theorem tick_unready {h : Host} (hr : h.topology.ready = false) (hs : h.topology.stopping = false)
    {w : Wait} {rest : List Wait} (hw : h.ready = w :: rest) :
    h.tick = { h with ready := rest, parked := h.parked ++ [w] } := by
  have hnone : h.topology.awaited w.version = none := by
    rw [Topology.awaited_unready hr, hs]
    rfl
  unfold tick
  rw [hw]
  simp only [hnone]

theorem repeat_tick_unready {h : Host} (hr : h.topology.ready = false)
    (hs : h.topology.stopping = false) (k : Nat) :
    k.repeat tick h = { h with ready := h.ready.drop k, parked := h.parked ++ h.ready.take k } := by
  induction k with
  | zero =>
    rw [List.drop_zero, List.take_zero, List.append_nil]
    rfl
  | succ k ih =>
    show tick (k.repeat tick h) = _
    rw [ih]
    cases hw : h.ready.drop k with
    | nil =>
      have hk : h.ready.length ≤ k := List.drop_eq_nil_iff.1 hw
      rw [List.drop_eq_nil_of_le (Nat.le_succ_of_le hk), List.take_of_length_le hk,
        List.take_of_length_le (Nat.le_succ_of_le hk)]
      rfl
    | cons w rest =>
      have hrest : h.ready.drop (k + 1) = rest := by
        rw [← List.drop_drop, hw]
        rfl
      have htake : h.ready.take (k + 1) = h.ready.take k ++ [w] := by
        rw [List.take_add, hw]
        rfl
      let h' : Host := { h with ready := w :: rest, parked := h.parked ++ h.ready.take k }
      have htick : h'.tick = { h' with ready := rest, parked := h'.parked ++ [w] } :=
        tick_unready (h := h') hr hs rfl
      show h'.tick = _
      rw [htick, hrest, htake, ← List.append_assoc]

/-- All tasks are parked, and nothing else happens. -/
theorem settle_unready {h : Host} (hr : h.topology.ready = false)
    (hs : h.topology.stopping = false) :
    h.settle = { h with ready := [], parked := h.parked ++ h.ready } := by
  have hlen : h.ready.length ≤ 2 * h.ready.length := by omega
  unfold settle
  rw [repeat_tick_unready hr hs, List.drop_eq_nil_of_le hlen, List.take_of_length_le hlen]

end Host

namespace Topology

variable {t : Topology}

/-- What does not happen on a topology. -/
structure Halts (t : Topology) : Prop where
  unready : t.ready = false
  /-- No attempt of a submission gets a number. -/
  unmapped : ∀ (view : View) (n : Node) (move : Move), view.topology = t → ∀ id h,
    (n.move view move).1.registry.get? id = some (.submission h) →
      n.registry.get? id = some (.submission h)
  /-- No request is sent to a primary. -/
  unsent : ∀ (view : View) (n : Node) (move : Move), view.topology = t →
    ∀ x ∈ (n.move view move).2.filterMap Effect.message?, ∀ q, x.2 ≠ .updateRequest q
  /-- Primaries apply no request that is not locked to a topology. -/
  unapplied : ∀ (view : View) (n : Node) (move : Move), view.topology = t → ∀ sender request,
    n.Brings sender request move → request.flags.topologyLocked = false →
      (n.move view move).1 = n
  /-- Whoever waits for a version waits on, unless the cache is stopping. -/
  awaited : ∀ v, t.awaited v = if t.stopping then some (.error (.stopped "")) else none
  /-- Tasks are parked, and nothing else happens. -/
  parked : ∀ host : Host, host.topology = t → t.stopping = false →
    host.settle = { host with ready := [], parked := host.parked ++ host.ready }

theorem halts_of_unready (h : t.ready = false) : t.Halts where
  unready := h
  unmapped view n move hv _ _ := n.registry_unready (hv ▸ h) move
  unsent view n move hv _ hx := n.messages_unready (hv ▸ h) move hx
  unapplied view n move hv _ _ hm hl := Node.brings_unready (hv ▸ h) hm hl
  awaited := awaited_unready h
  parked host ht hs := by
    subst ht
    exact host.settle_unready h hs

/-! ## Exchanges -/

/-- An exchange to these members has begun, and has not ended with any of the changes made since. -/
structure Unfinished (cs : List Change) (members : List NodeId) (since : List Change) : Prop where
  begun : ∃ before, cs = before ++ .beginExchange members :: since
  lasting : ∀ c ∈ since, c = .bumpMinor ∨ c = .stop

/-- Until the exchange ends, only the assignment makes a topology ready, and the members stay. -/
theorem ready_run (cs : List Change) : ∀ {t : Topology}, (∀ c ∈ cs, c = .bumpMinor ∨ c = .stop) →
    (t.run cs).ready = (t.ready || decide (.bumpMinor ∈ cs)) ∧ (t.run cs).nodes = t.nodes := by
  induction cs with
  | nil => exact fun _ => ⟨(Bool.or_false _).symm, rfl⟩
  | cons c cs ih =>
    intro t h
    obtain ⟨hready, hnodes⟩ :=
      ih (t := t.change c) fun c' hc' => h c' (List.mem_cons_of_mem _ hc')
    have hrun : t.run (c :: cs) = (t.change c).run cs := rfl
    rw [hrun, hready, hnodes]
    rcases h c List.mem_cons_self with rfl | rfl
    · simp [change, bumpMinor, moveTo]
    · simp [change, stop]

/-- A change of the assignment makes a topology ready whose exchange has not ended.  Without one, it
halts. -/
theorem unfinished_run (nodes : List NodeId) {cs : List Change} {members : List NodeId}
    {since : List Change} (h : Unfinished cs members since) :
    let t := (start nodes).run cs
    t.nodes = SortedSet.ofList members ∧
      (.bumpMinor ∈ since → t.ready = true) ∧ (.bumpMinor ∉ since → t.Halts) := by
  intro t
  obtain ⟨before, rfl⟩ := h.begun
  obtain ⟨hready, hnodes⟩ := ready_run since h.lasting
    (t := ((start nodes).run before).beginExchange members)
  have ht : t = (((start nodes).run before).beginExchange members).run since :=
    run_append _ _ _
  rw [← ht] at hready hnodes
  have hready : t.ready = decide (.bumpMinor ∈ since) := hready
  refine ⟨hnodes, fun hb => ?_, fun hb => ?_⟩
  · rw [hready]
    exact decide_eq_true hb
  · refine halts_of_unready ?_
    rw [hready]
    exact decide_eq_false hb

/-- The cache begins to stop during an exchange. -/
theorem unfinished_run_stopping :
    Unfinished [.beginExchange [⟨1⟩], .stop] [⟨1⟩] [.stop] ∧
      ((start [⟨1⟩, ⟨2⟩]).run [.beginExchange [⟨1⟩], .stop]).Halts := by
  have h : Unfinished [.beginExchange [⟨1⟩], .stop] [⟨1⟩] [.stop] := ⟨⟨[], rfl⟩, by decide⟩
  exact ⟨h, (unfinished_run [⟨1⟩, ⟨2⟩] h).2.2 (by decide)⟩

/-- The assignment changes during an exchange, which makes the topology ready. -/
theorem ready_during_exchange : ¬ ∀ (nodes : List NodeId) (cs : List Change)
    (members : List NodeId) (since : List Change),
    Unfinished cs members since → ((start nodes).run cs).Halts := by
  intro h
  have hu : Unfinished [.beginExchange [⟨1⟩], .bumpMinor] [⟨1⟩] [.bumpMinor] :=
    ⟨⟨[], rfl⟩, by decide⟩
  have hready : ((start [⟨1⟩, ⟨2⟩]).run [.beginExchange [⟨1⟩], .bumpMinor]).ready = true := rfl
  rw [(h [⟨1⟩, ⟨2⟩] _ _ _ hu).unready] at hready
  cases hready

end Topology

end AtomicGrid
