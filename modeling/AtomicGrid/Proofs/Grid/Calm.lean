import AtomicGrid.Proofs.Grid.Sources
import AtomicGrid.Proofs.Node.Outcomes
import AtomicGrid.Proofs.Node.Replication

/-!
# Grids in calm weather

A calm grid stores values and nothing else.  Its topology is settled, its members are the nodes that
are there, and nobody departs while an attempt is under way.  On such a grid nothing ever waits for
the topology: every request is carried out by the primary that it was mapped on, and every answer that
somebody waits for is positive.

## Results

* `Grid.Calm.positive`: no attempt is refused.
* `Grid.Calm.waits_submit`, `Grid.Calm.waits_receive`, `Grid.Calm.waits_lose`: nobody waits.
* `Grid.Calm.submit`, `Grid.Calm.receive`, `Grid.Calm.lose`, `Grid.Calm.depart`: the grid stays calm.
-/

set_option autoImplicit false

namespace AtomicGrid

/-- The update stores a value; key and value have `size` bytes at most. -/
def Update.StoresWithin (size : Nat) (u : Update) : Prop :=
  ∃ key value, u = .put key value ∧ key ≠ [] ∧ key.length ≤ size ∧ value.length ≤ size

/-- The move is one of those that happen in calm weather. -/
def Move.IsCalm (size : Nat) : Move → Prop
  | .submit u => u.StoresWithin size
  | .receive _ _ => True
  | .lose _ _ => True
  | .resume _ _ => False
  | .watch _ _ => False
  | .refuse _ _ => False

/-- The store of the node takes every key, and nobody reads along. -/
structure Node.Healthy (n : Node) : Prop where
  faults : n.faults = ∅
  readers : n.store.readers = ∅

namespace Node

variable {view : View} {n : Node}

theorem faults_onSubmission (n : Node) (h : Handle)
    (f : Submission → Submission × List SubmissionAction) :
    (n.onSubmission view h f).1.faults = n.faults := by
  unfold onSubmission
  split
  next c hc => exact (each_performSubmission h (f c).2 _).2.faults
  next => rfl

theorem faults_onFanout (n : Node) (id : FutureId) (f : Fanout → Fanout × List FanoutAction) :
    (n.onFanout view id f).1.faults = n.faults := by
  unfold onFanout
  split
  next x hx => exact (after_putFanout (f x)).1.faults
  next => rfl

theorem faults_each_writeNear (version : WriteVersion) (es : List NearEntry) : ∀ n : Node,
    (each (fun n (e : NearEntry) => n.writeNear e.key e.value version e.ttl) n es).1.faults =
      n.faults := by
  induction es with
  | nil => exact fun _ => rfl
  | cons e es ih =>
    intro n
    have hn : (n.writeNear e.key e.value version e.ttl).1.faults = n.faults := by
      unfold writeNear
      split
      · rfl
      · rfl
    exact (ih _).trans hn

theorem faults_receive (sender : NodeId) (m : Message) :
    (n.receive view sender m).1.faults = n.faults := by
  unfold receive
  split
  next => rfl
  next hc =>
    split
    next q =>
      have hp : Processed view n sender q (n.process view sender q) := processed_process sender q
      generalize n.process view sender q = r at hp ⊢
      cases hp with
      | carriedOut h => exact (after_carryOut sender q).1.faults
      | deferred h => rfl
      | declined h hc => rfl
    next r => exact faults_each_writeNear r.writeVersion r.nearEntries { n with store := n.backedUp r }
    next => rfl
    next =>
      split
      · exact faults_onSubmission n _ _
      · exact faults_onFanout n _ _
      · rfl
    next =>
      split
      · exact faults_onSubmission n _ _
      · rfl
    next =>
      split
      · exact faults_onSubmission n _ _
      · rfl

theorem Healthy.move (h : n.Healthy) {size : Nat} {move : Move} (hm : move.IsCalm size) :
    (n.move view move).1.Healthy where
  faults := by
    refine Eq.trans ?_ h.faults
    cases move with
    | submit u =>
      obtain ⟨key, value, rfl, hkey, -⟩ := hm
      exact (submission_move (.submit (Update.fault?_put hkey value) rfl)).faults
    | receive sender m => exact faults_receive sender m
    | lose gone coordinator =>
      obtain ⟨id, who⟩ := coordinator
      cases who with
      | submission c => exact faults_onSubmission n c _
      | fanout => exact faults_onFanout n id _
    | resume | watch | refuse => cases hm
  readers := by
    refine Eq.trans (readers_move fun key reader he => ?_) h.readers
    subst he
    cases hm

theorem Healthy.rejections (h : n.Healthy) {q : UpdateRequest} (hq : q.operation = .update) :
    n.rejections q = [] := by
  have happly (store : Store) (e : UpdateEntry) :
      ∃ a, (n.applyWrite store q.partition (q.writeCommand e)).2 = .ok a := by
    have hop : (q.writeCommand e).operation = .update := hq
    unfold applyWrite Store.apply Store.compute
    rw [h.faults, SortedMap.get?_empty, hop]
    simp only
    split
    · exact ⟨_, rfl⟩
    · exact ⟨_, rfl⟩
  unfold Node.rejections
  generalize n.store = store
  induction q.payload.entries generalizing store with
  | nil => rfl
  | cons e es ih =>
    obtain ⟨a, ha⟩ := happly store e
    unfold refused
    generalize n.applyWrite store q.partition (q.writeCommand e) = r at ha ⊢
    obtain ⟨store', x⟩ := r
    cases ha
    exact ih store'

end Node

namespace Submission

variable {c : Submission} {site : Site} {view : View} {id : FutureId}

theorem await_not_mem_complete (r : Except CacheError UpdateOutcome) (v : TopologyVersion) :
    .await v ∉ (c.complete r).2 := by
  unfold complete
  split <;> simp

theorem await_not_mem_sendRequest {primary : NodeId} (hp : view.refusal primary = none)
    (v : TopologyVersion) : .await v ∉ (c.sendRequest site view id primary).2 := by
  simp only [sendRequest, hp, List.mem_cons, reduceCtorEq, false_or]
  split
  · exact await_not_mem_complete _ v
  · exact List.not_mem_nil

/-- An attempt whose primary can be reached waits for no topology. -/
theorem await_not_mem_launch
    (hp : ∀ p, view.primary c.update.key view.topology.version = some p → view.refusal p = none)
    (v : TopologyVersion) : .await v ∉ (c.launch site view id).2 := by
  cases hprimary : view.primary c.update.key view.topology.version with
  | none =>
    simp only [launch, hprimary, List.mem_cons, reduceCtorEq, false_or]
    exact await_not_mem_complete _ v
  | some primary =>
    simp only [launch, hprimary, List.mem_cons, reduceCtorEq, false_or]
    exact await_not_mem_sendRequest (hp primary hprimary) v

end Submission

/-! ## Owners at the current version -/

namespace Topology.Filed

variable {t : Topology} {partitions backups : UInt32} {key : Key}

theorem keyOwners_eq (hf : t.Filed) :
    (Affinity.ranked partitions backups).keyOwners t key t.version =
      chosen (nodeWeight ((Affinity.ranked partitions backups).partition key)) backups t.nodes :=
  Affinity.owners_eq_chosen hf.nodesAt _ _ _

theorem alive_of_owner (hf : t.Filed) {o : NodeId}
    (ho : o ∈ (Affinity.ranked partitions backups).keyOwners t key t.version) :
    t.isAlive o = true := by
  rw [hf.keyOwners_eq] at ho
  exact contains_of_mem_chosen ho

theorem alive_of_primary (hf : t.Filed) {o : NodeId}
    (ho : (Affinity.ranked partitions backups).primary t key t.version = some o) :
    t.isAlive o = true :=
  hf.alive_of_owner (List.mem_of_mem_head? ho)

end Topology.Filed

/-- The request stores a value; key and value have `size` bytes at most. -/
def UpdateRequest.StoresWithin (size : Nat) (q : UpdateRequest) : Prop :=
  ∃ key value, q.operation = .update ∧ q.payload = .single key (some value) ∧ q.flags = {} ∧
    key.length ≤ size ∧ value.length ≤ size

namespace Moment

variable {t : Moment} {size : Nat} {h : Handle} {c : Submission} {p near : NodeId}
  {q : UpdateRequest}

/-- What is launched in calm weather stores a value. -/
theorem Launches.storesWithin (hl : t.Launches h c p) (hm : t.move.IsCalm size) :
    (t.request c).StoresWithin size := by
  obtain ⟨x, ht⟩ := hl.turn
  have hmaps := hl.maps
  cases hmove : t.move with
  | submit u =>
    rw [hmove] at ht hm
    obtain ⟨key, value, rfl, -, hkey, hvalue⟩ := hm
    cases ht with
    | submit hu hc =>
      subst hc
      exact ⟨key, value, rfl, rfl, rfl, hkey, hvalue⟩
  | receive | lose | watch | refuse =>
    rw [hmove] at hmaps
    cases hmaps
  | resume =>
    rw [hmove] at hm
    cases hm

/-- The answer to a request that stores a value, on a healthy node, is positive. -/
theorem positive_answer (hb : t.before.Healthy) (hq : q.StoresWithin size) :
    (t.answer near q).hasError = false ∧ (t.answer near q).needsRemap = false := by
  obtain ⟨key, value, hop, -⟩ := hq
  rw [answer_eq]
  constructor
  · show (Option.isSome none || !(t.before.applied t.view near q).failedKeys.isEmpty) = false
    rw [Node.failedKeys_applied, hb.rejections hop]
    rfl
  · rfl

end Moment

namespace Grid

/-- The grid stores values and nothing else, its topology is settled, and all attempts under way are
of this topology. -/
structure Calm (size : Nat) (g : Grid) : Prop where
  tasks : g.tasks = []
  ready : g.topology.ready = true
  members : ∀ n, g.topology.isAlive n = g.attached.contains n
  moves : ∀ t ∈ g.log, t.move.IsCalm size
  healthy : ∀ n, (g.nodes n).Healthy
  before : ∀ t ∈ g.log, t.before.Healthy
  /-- Attempts under way were launched on the topology there is. -/
  current : ∀ n id h, (g.nodes n).registry.get? id = some (.submission h) →
    ∀ t ∈ g.log, t.node = n → t.Allots → t.number = id → t.view.topology = g.topology
  /-- Their requests were carried out if they have arrived. -/
  carried : ∀ t ∈ g.log, ∀ near q h, t.before.Brings near q t.move →
    (g.nodes near).registry.get? q.future = some (.submission h) → t.CarriesOut near q

variable {config : Config} {partitions backups : UInt32} {processors : Processors}
  {ids : List NodeId} {size : Nat} {g g₀ : Grid} {n s near : NodeId} {move : Move} {t : Moment}
  {q : UpdateRequest} {m : Message}

/-- What a move brings was launched by a move before. -/
theorem launched_before
    (h' : Reached (start ids config (.ranked partitions backups) processors) (g₀.act n move))
    (hs : SameButQueues g g₀) (hb : (g.nodes n).Brings near q move) :
    ∃ t₀ ∈ g.log, ∃ hd c, t₀.node = near ∧ t₀.Launches hd c n ∧ q = t₀.request c := by
  have hnew : g.moment n move ∈ (g₀.act n move).log := hs.mem_log_act
  have hb' : (g.moment n move).before.Brings near q (g.moment n move).move := hb
  obtain ⟨t₀, ht₀, hd, c, hn, hl, hq⟩ := h'.brought hnew hb'
  rw [hs.log_act] at ht₀
  rcases List.mem_cons.1 ht₀ with rfl | ht₀
  · exact absurd hl (not_launches_of_brings hb)
  · exact ⟨t₀, ht₀, hd, c, hn, hl, hq⟩

theorem Calm.storesWithin (hc : g.Calm size)
    (h : Reached (start ids config (.ranked partitions backups) processors) g) (ht : t ∈ g.log)
    (hb : t.before.Brings near q t.move) : q.StoresWithin size := by
  obtain ⟨t₀, ht₀, hd, c, -, hl, rfl⟩ := h.brought ht hb
  exact hl.storesWithin (hc.moves t₀ ht₀)

/-- No attempt under way is refused. -/
theorem Calm.positive (hc : g.Calm size)
    (h : Reached (start ids config (.ranked partitions backups) processors) g)
    {r : UpdateResponse} (hs : g.Sent s n (.updateResponse r)) {hd : Handle}
    (hr : (g.nodes n).registry.get? r.future = some (.submission hd)) :
    r.hasError = false ∧ r.needsRemap = false := by
  cases h.origin hs with
  | answer ht hn hco =>
    exact Moment.positive_answer (hc.before _ ht) (hc.storesWithin h ht hco.brings)
  | @declined t q _ ht hn hd' =>
    rw [hd'.declines.future] at hr
    have hco := hc.carried t ht n q hd hd'.brings hr
    rw [hco.responds.sent n r hd'.sent]
    exact Moment.positive_answer (hc.before _ ht) (hc.storesWithin h ht hd'.brings)
  | confirmed => exact ⟨rfl, rfl⟩
  | acknowledged => exact ⟨rfl, rfl⟩

/-! ## Nobody waits -/

theorem waits_of_no_await {h : Handle} {near : Bool} {view : View} {as : List SubmissionAction}
    (ha : ∀ v, .await v ∉ as) :
    (as.flatMap (SubmissionAction.effects view h near)).filterMap Effect.wait? = [] := by
  rw [Node.wait?_submission, List.map_eq_nil_iff, List.filterMap_eq_nil_iff]
  intro a hmem
  cases a with
  | await v => exact absurd hmem (ha v)
  | _ => rfl

/-- A submission that follows the news of its attempt waits for no topology. -/
theorem await_not_mem_follows {c : Submission} {a : Attempt} {ret : Option UpdateReturn}
    {p : Progress} {x : Submission × List SubmissionAction} (ho : Submission.Follows c a ret p x)
    (v : TopologyVersion) : .await v ∉ x.2 := by
  cases ho with
  | pending => simp
  | unconfirmed => simp
  | finished hn =>
    intro hmem
    rcases List.mem_append.1 hmem with hmem | hmem
    · obtain ⟨_, _, _, _, hx⟩ := hn _ hmem
      cases hx
    · simp at hmem

/-- A request that arrives was mapped on a version that is there. -/
theorem Calm.not_defers (hc : g.Calm size)
    (h : Reached (start ids config (.ranked partitions backups) processors) g)
    (ht : t ∈ g.log) (c : Submission) : ¬ Node.Defers (g.view n) (t.request c) := by
  intro hd
  rcases hd.early with hlt | hready
  · exact TopologyVersion.lt_irrefl _ (TopologyVersion.lt_of_le_of_lt (h.version_le t ht) hlt)
  · rw [show (g.view n).topology.ready = true from hc.ready] at hready
    cases hready

/-- Nobody who reads a message has to wait. -/
theorem Calm.waits_receive (hc : g.Calm size)
    (h : Reached (start ids config (.ranked partitions backups) processors) g)
    (h' : Reached (start ids config (.ranked partitions backups) processors)
      (g₀.act n (.receive s m)))
    (ho : Occasion g n (.receive s m) g₀) : (g.moment n (.receive s m)).waits = [] := by
  have hcoh := h.coherent n
  have ht : (g.nodes n).Turn (g.view n) (.receive s m)
      ((g.nodes n).move (g.view n) (.receive s m)) := Node.turn_move _
  unfold Moment.waits Moment.effects
  change (((g.nodes n).move (g.view n) (.receive s m)).2).filterMap Effect.wait? = []
  generalize (g.nodes n).move (g.view n) (.receive s m) = r at ht ⊢
  cases ht with
  | @submission hd c x ht ha =>
    rw [ha.effects]
    refine waits_of_no_await fun v => ?_
    cases ht with
    | @answer _ _ _ resp hi hr hs =>
      obtain ⟨hdone, hf, ⟨a, hatt⟩, -⟩ := hcoh.current hr hs
      obtain ⟨he, hre⟩ := hc.positive h (h.linked.sent s n _ ho.received) hr
      by_cases hw : ∃ a, c.Awaits a s resp
      · obtain ⟨a, hw⟩ := hw
        exact await_not_mem_follows (Submission.onResponse_of hdone hw he hre false) v
      · rw [Submission.onResponse_other fun a ha => hw ⟨a, ha⟩]
        exact List.not_mem_nil
    | mapping hi hr hs =>
      obtain ⟨hdone, hf, ⟨a, hatt⟩, -⟩ := hcoh.current hr hs
      exact await_not_mem_follows (Submission.onMapping_of hdone hatt hf) v
    | @notice _ _ _ b hi hr hs =>
      obtain ⟨hdone, hf, ⟨a, hatt⟩, -⟩ := hcoh.current hr hs
      by_cases hp : a.primary = b.primary
      · exact await_not_mem_follows (Submission.onNotice_of hdone hatt hf hp) v
      · rw [Submission.onNotice_other (.inr fun a' ha' => ?_)]
        · exact List.not_mem_nil
        · rw [hatt] at ha'
          cases ha'
          exact hp
  | carried hm hco ha hn hs =>
    rw [ha.effects]
    exact Node.wait?_fanout _
  | acknowledged hk ha hn hs =>
    rw [ha.effects]
    exact Node.wait?_fanout _
  | plain ht ha =>
    generalize r.2 = es at ht ⊢
    cases ht with
    | quiet => rfl
    | declined hm hd hi => simp [Node.wait?_transmission]
    | deferred hm hd =>
      obtain ⟨t₀, ht₀, _, c, -, -, rfl⟩ := launched_before h' ho.same hm
      exact absurd hd (hc.not_defers h ht₀ c)
    | confirmed hi => simp [Node.confirm, Node.reply, Node.wait?_transmission]
    | backedUp hi => exact Node.wait?_backUp s _

/-- Nobody who submits an update has to wait. -/
theorem Calm.waits_submit (hc : g.Calm size)
    (h : Reached (start ids config (.ranked partitions backups) processors) g)
    (hn : g.attached.contains n = true) {u : Update} (hu : u.StoresWithin size) :
    (g.moment n (.submit u)).waits = [] := by
  obtain ⟨key, value, rfl, hkey, -⟩ := hu
  have ha := @Node.after_submit (g.view n) (g.nodes n) _ (Update.fault?_put hkey value)
  unfold Moment.waits Moment.effects
  change (((g.nodes n).move (g.view n) (.submit (.put key value))).2).filterMap Effect.wait? = []
  rw [ha.effects]
  refine waits_of_no_await fun v => ?_
  have hstop : (g.view n).topology.stopping = false := h.framed.running
  have hready : (g.view n).topology.ready = true := hc.ready
  unfold Submission.mapOn
  simp only [Submission.isDone, Submission.start, Submission.admits, hstop, hready,
    Bool.false_eq_true, if_false, Option.all_none, Bool.and_self, if_true]
  refine Submission.await_not_mem_launch (fun p hp => ?_) v
  refine refusal_eq_none.2 ⟨hn, ?_⟩
  rw [← hc.members]
  have hp : g.affinity.primary g.topology key g.topology.version = some p := hp
  rw [h.framed.affinity_eq] at hp
  exact h.traced.filed.alive_of_primary hp

/-- No fan-out that loses a receiver has to wait. -/
theorem Calm.waits_lose {gone : NodeId} {id : FutureId} :
    (g.moment n (.lose gone (id, .fanout))).waits = [] := by
  unfold Moment.waits Moment.effects
  change ((g.nodes n).onFanout (g.view n) id _).2.filterMap Effect.wait? = []
  unfold Node.onFanout
  split
  next f hf =>
    rw [(Node.after_putFanout _).1.effects]
    exact Node.wait?_fanout _
  next => rfl

/-! ## The grid stays calm -/

/-- A number that was given before a move belongs to nobody new after it. -/
theorem registry_act
    (h : Reached (start ids config (.ranked partitions backups) processors) g)
    (ho : Occasion g n move g₀) {who : Registered} (ht : t ∈ g.log) (ha : t.Allots)
    (hr : ((g₀.act n move).nodes t.node).registry.get? t.number = some who) :
    (g.nodes t.node).registry.get? t.number = some who := by
  rw [ho.same.nodes_act] at hr
  split at hr
  next he =>
    subst he
    rcases Node.registry_move (h.coherent t.node) ho.due hr with hr | ⟨hi, -⟩
    · exact hr
    · exact absurd (h.counted.allots t ht ha) (hi ▸ UInt64.lt_irrefl _)
  next => exact hr

/-- A move that comes about in calm weather leaves the weather calm, if nobody has to wait. -/
theorem Calm.act (hc : g.Calm size)
    (h : Reached (start ids config (.ranked partitions backups) processors) g)
    (h' : Reached (start ids config (.ranked partitions backups) processors) (g₀.act n move))
    (ho : Occasion g n move g₀) (hm : move.IsCalm size) (hw : (g.moment n move).waits = []) :
    (g₀.act n move).Calm size where
  tasks := by
    rw [tasks_act, ho.same.moment, hw, List.map_nil, List.append_nil]
    refine List.eq_nil_iff_forall_not_mem.2 fun p hp => ?_
    have := ho.mem_tasks hp
    rw [hc.tasks] at this
    cases this
  ready := by rw [topology_act, ho.same.topology, hc.ready]
  members o := by rw [topology_act, attached_act, ho.same.topology, ho.same.attached, hc.members]
  moves t ht := by
    rw [ho.same.log_act] at ht
    rcases List.mem_cons.1 ht with rfl | ht
    · exact hm
    · exact hc.moves t ht
  healthy o := by
    rw [ho.same.nodes_act]
    split
    next => exact (hc.healthy n).move hm
    next => exact hc.healthy o
  before t ht := by
    rw [ho.same.log_act] at ht
    rcases List.mem_cons.1 ht with rfl | ht
    · exact hc.healthy n
    · exact hc.before t ht
  current o id hd hr t ht hn ha hi := by
    rw [topology_act, ho.same.topology]
    rw [ho.same.log_act] at ht
    rcases List.mem_cons.1 ht with rfl | hold
    · rfl
    · subst hn hi
      exact hc.current _ _ hd (registry_act h ho hold ha hr) t hold rfl ha rfl
  carried t ht near q hd hb hr := by
    rw [ho.same.log_act] at ht
    rcases List.mem_cons.1 ht with rfl | hold
    · obtain ⟨t₀, ht₀, hd₀, c, rfl, hl, rfl⟩ := launched_before h' ho.same hb
      have htop : t₀.view.topology = g.topology :=
        hc.current _ _ hd (registry_act h ho ht₀ hl.allots hr) t₀ ht₀ rfl hl.allots rfl
      refine ⟨hb, h.framed.running, fun _ => ⟨hc.ready, congrArg (·.version) htop⟩, ?_⟩
      intro k hk
      rw [Moment.request_keys, List.mem_singleton] at hk
      subst hk
      show g.affinity.primary g.topology c.update.key g.topology.version = some (g.nodes n).id
      have hmapped := hl.mapped
      unfold View.primary at hmapped
      rw [htop, (h.framed.common t₀ ht₀).affinity_eq] at hmapped
      rw [h.framed.affinity_eq, hmapped, Node.id, h.framed.site]
      rfl
    · obtain ⟨t₀, ht₀, hd₀, c, rfl, hl, rfl⟩ := h.brought hold hb
      exact hc.carried t hold _ _ hd hb (registry_act h ho ht₀ hl.allots hr)

theorem Calm.submit (hc : g.Calm size)
    (h : Reached (start ids config (.ranked partitions backups) processors) g) (hr : g.Roomy)
    (hn : g.attached.contains n = true) {u : Update} (hu : u.StoresWithin size) :
    (g.act n (.submit u)).Calm size :=
  hc.act h (h.next hr (.act (.submit hn u))) (.submit hn u) hu (hc.waits_submit h hn hu)

theorem Calm.receive (hc : g.Calm size)
    (h : Reached (start ids config (.ranked partitions backups) processors) g) (hr : g.Roomy)
    (hn : g.attached.contains n = true) {ms : List Message} (hl : g.links s n = m :: ms) :
    ((g.setLink s n ms).act n (.receive s m)).Calm size :=
  have ho : Occasion g n (.receive s m) (g.setLink s n ms) := .receive hn hl
  have h' := h.next hr (.act ho)
  hc.act h h' ho trivial (hc.waits_receive h h' ho)

/-! ## Departures -/

def Idle (g : Grid) : Prop := ∀ n id h, (g.nodes n).registry.get? id ≠ some (.submission h)

theorem Calm.lose (hc : g.Calm size)
    (h : Reached (start ids config (.ranked partitions backups) processors) g) (hr : g.Roomy)
    (hi : g.Idle) (hn : g.attached.contains n = true) {gone : NodeId} (hu : (n, gone) ∈ g.untold)
    {r : FutureId × Registered} (he : r ∈ (g.nodes n).registry.entries) :
    (g.act n (.lose gone r)).Calm size ∧ (g.act n (.lose gone r)).Idle := by
  obtain ⟨id, who⟩ := r
  have hget := SortedMap.get?_eq_some_iff.2 he
  have ho : Occasion g n (.lose gone (id, who)) g := .lose hn hu he
  have hwho : who = .fanout := by
    cases who with
    | fanout => rfl
    | submission hd => exact absurd hget (hi n id hd)
  subst hwho
  refine ⟨hc.act h (h.next hr (.act ho)) ho trivial waits_lose, fun o k hd hk => ?_⟩
  rw [nodes_act] at hk
  split at hk
  next heq =>
    subst heq
    rcases Node.registry_move (h.coherent o) ho.due hk with hk | ⟨-, hk⟩
    · exact hi o k hd hk
    · rw [(Node.counters_lose _ _ gone _).1] at hk
      have := congrArg UInt64.toNat hk
      have := hr.futures o
      rw [UInt64.toNat_add] at *
      simp only [UInt64.toNat_one, UInt64.size] at *
      omega
  next => exact hi o k hd hk

theorem Calm.depart (hc : g.Calm size) (hi : g.Idle) : (g.depart n).Calm size where
  tasks := hc.tasks
  ready := rfl
  members o := by
    have hm := hc.members o
    unfold Topology.isAlive at *
    show (SortedSet.ofList (g.topology.nodes.toList.filter (· ≠ n))).contains o =
      (g.attached.erase n).contains o
    rw [Bool.eq_iff_iff, SortedSet.contains_ofList, SortedSet.contains_erase, List.mem_filter,
      SortedSet.mem_toList, hm, and_comm]
    simp
  moves := hc.moves
  healthy := hc.healthy
  before := hc.before
  current o id hd hr := absurd hr (hi o id hd)
  carried t ht near q hd hb hr := absurd hr (hi near q.future hd)

theorem calm_start : (start ids config (.ranked partitions backups) processors).Calm size where
  tasks := rfl
  ready := rfl
  members _ := rfl
  moves _ ht := nomatch ht
  healthy _ := ⟨rfl, rfl⟩
  before _ ht := nomatch ht
  current _ _ _ hr := nomatch hr
  carried _ ht := nomatch ht

end Grid

end AtomicGrid
