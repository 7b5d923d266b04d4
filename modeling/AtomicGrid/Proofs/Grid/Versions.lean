import AtomicGrid.Proofs.Grid.Departures
import Mathlib.Data.List.Nodup

/-!
# The versions of updates

Every update that is submitted gets a version, which names it wherever it is carried out.  Its parts
are the topology it was submitted on, the place it has among the updates of its node, and the node
itself.  Of the topology's major number, and of the number of the node, a version has room for the
last 32 bits only.

## Results

* `Moment.assigned?_eq_some`: which version a submission gets.
* `Grid.Reached.versioned`: the order in which versions are given.
* `Grid.assigned_run`: versions of one node increase, and no two updates share one if the nodes
  differ in what a version has room for.
* `Grid.assigned_twice`: two nodes that do not differ in it give one version twice.
-/

set_option autoImplicit false

namespace AtomicGrid

/-- What a version has room for of the number of a node. -/
def NodeId.low (n : NodeId) : UInt32 := n.id.toUInt32

theorem WriteVersion.lt_iff {a b : WriteVersion} : a < b ↔ a.topologyOrder < b.topologyOrder ∨
    a.topologyOrder = b.topologyOrder ∧
      (a.order < b.order ∨ a.order = b.order ∧ a.nodeOrder < b.nodeOrder) := by
  show compare a b = .lt ↔ _
  rw [compare_eq, Ordering.then_eq_lt, Ordering.then_eq_lt]
  simp [Std.compare_eq_lt]

/-- The version of the update that is taken on at the moment, if one is. -/
def Moment.assigned? (t : Moment) : Option WriteVersion :=
  match t.move with
  | .submit u =>
    match (t.before.submit t.view u).2.2 with
    | .ok h => (t.after.submissions.get? h).map (·.version)
    | .error _ => none
  | _ => none

/-- The versions that a node has given, in the order of the submissions. -/
def Grid.assignedBy (g : Grid) (n : NodeId) : List WriteVersion :=
  (g.log.reverse.filter (·.node = n)).filterMap Moment.assigned?

variable {t t' : Moment} {v : WriteVersion}

/-- A submission is mapped at once, and keeps the version it was given before that. -/
theorem Node.version_submit {view : View} {n : Node} {u : Update} (hu : u.fault? = none) :
    ((n.move view (.submit u)).1.submissions.get? (n.versions.issued + 1)).map (·.version) =
      some (n.versions.next view.topology.version).2 := by
  let c := Submission.start n.site u (n.versions.next view.topology.version).2
  have hmapped : Submission.Mapped n.site view c n.nextFuture (c.mapOn n.site view n.nextFuture) :=
    Submission.mapped_mapOn rfl rfl n.nextFuture
  have hsame : Submission.SameUpdate c (c.mapOn n.site view n.nextFuture).1 :=
    Node.sameUpdate_fares (.mapped rfl rfl hmapped)
  rw [(Node.after_submit hu).submissions, SortedMap.get?_insert_self, Option.map_some,
    hsame.version]
  rfl

/-- A submission that makes sense gets the next version of its node. -/
theorem Moment.assigned?_eq_some : t.assigned? = some v ↔
    ∃ u, t.move = .submit u ∧ u.fault? = none ∧
      (t.before.versions.next t.view.topology.version).2 = v := by
  unfold Moment.assigned?
  split
  next u hm =>
    cases hu : u.fault? with
    | some e => simp [Node.submit, hu, hm]
    | none =>
      have hok : (t.before.submit t.view u).2.2 = .ok (t.before.versions.issued + 1) := by
        simp only [Node.submit, hu]
        rfl
      have hv := @Node.version_submit t.view t.before u hu
      rw [← hm] at hv
      rw [hok]
      show (t.after.submissions.get? _).map _ = _ ↔ _
      unfold Moment.after
      rw [hv, hm]
      simp [hu]
  next hm =>
    simp only [reduceCtorEq, false_iff]
    rintro ⟨u, hs, -⟩
    exact hm u hs

theorem Node.nodeOrder_move (view : View) (n : Node) (move : Move) :
    (n.move view move).1.versions.nodeOrder = n.versions.nodeOrder := by
  have ht : n.Turn view move (n.move view move) := turn_move move
  cases ht with
  | submission ht ha =>
    rw [ha.versions]
    split <;> rfl
  | carried hm hc ha => rw [ha.versions]
  | acknowledged hk ha => rw [ha.versions]
  | plain ht ha => rw [ha.versions]

namespace Grid

variable {config : Config} {affinity : Affinity} {processors : Processors} {ids : List NodeId}
  {g g₀ : Grid} {n : NodeId} {move : Move}

/-- The node has given no more versions before the one moment than before the other, if it is one
node, and has seen no newer topology. -/
structure Precedes (t t' : Moment) : Prop where
  version : t.view.topology.version ≤ t'.view.topology.version
  issued : t.node = t'.node → t.after.versions.issued ≤ t'.before.versions.issued

/-- Who gives versions, and in which order. -/
structure Versioned (ids : List NodeId) (g : Grid) : Prop where
  nodeOrder : ∀ n, (g.nodes n).versions.nodeOrder = n.low
  attached : ∀ n, g.attached.contains n = true → n ∈ ids
  given : ∀ t ∈ g.log, t.before.versions.nodeOrder = t.node.low
  submitter : ∀ t ∈ g.log, t.move.submits = true → t.node ∈ ids
  issued : ∀ t ∈ g.log, t.after.versions.issued ≤ (g.nodes t.node).versions.issued
  since : g.log.Pairwise fun t' t => Precedes t t'

theorem Occasion.submitter (h : Occasion g n move g₀) (hm : move.submits = true) :
    g.attached.contains n = true := by
  cases h with
  | submit hn u => exact hn
  | resume => cases hm
  | receive => cases hm
  | lose => cases hm
  | watch => cases hm
  | refuse => cases hm

theorem issued_le_act (hr : g.Roomy) (hs : SameButQueues g g₀) (m : NodeId) :
    (g.nodes m).versions.issued ≤ ((g₀.act n move).nodes m).versions.issued := by
  rw [hs.nodes_act]
  split
  next he =>
    subst he
    rcases Node.issued_move (g.view m) (g.nodes m) move with hn | hn
    · exact UInt64.le_of_eq hn.symm
    · show _ ≤ ((g.nodes m).move (g.view m) move).1.versions.issued
      rw [hn]
      exact UInt64.le_of_lt (lt_add_one_of_room (hr.handles m))
  next => exact UInt64.le_refl _

theorem Versioned.act (h : g.Versioned ids) (hr : g.Roomy) (ho : Occasion g n move g₀)
    (hv : ∀ t ∈ g.log, t.view.topology.version ≤ g.topology.version) :
    (g₀.act n move).Versioned ids := by
  have hs := ho.same
  have hm := hs.moment n move
  have hlog : (g₀.act n move).log = g.moment n move :: g.log := hs.log_act
  have hnode : ((g₀.act n move).nodes n) = (g.moment n move).after := by
    rw [nodes_act, if_pos rfl, hm]
  refine ⟨fun m => ?_, fun m hat => ?_, fun t ht => ?_, fun t ht hsub => ?_, fun t ht => ?_, ?_⟩
  · rw [hs.nodes_act]
    split
    next he =>
      subst he
      exact (Node.nodeOrder_move _ _ _).trans (h.nodeOrder m)
    next => exact h.nodeOrder m
  · rw [attached_act, hs.attached] at hat
    exact h.attached m hat
  · rcases List.mem_cons.1 (hlog ▸ ht) with rfl | ht
    · exact h.nodeOrder n
    · exact h.given t ht
  · rcases List.mem_cons.1 (hlog ▸ ht) with rfl | ht
    · exact h.attached n (ho.submitter hsub)
    · exact h.submitter t ht hsub
  · rcases List.mem_cons.1 (hlog ▸ ht) with rfl | ht
    · exact UInt64.le_of_eq (congrArg (·.versions.issued) hnode.symm)
    · exact UInt64.le_trans (h.issued t ht) (issued_le_act hr hs _)
  · rw [hlog]
    refine List.pairwise_cons.2 ⟨fun t ht => ⟨hv t ht, ?_⟩, h.since⟩
    rintro rfl
    exact h.issued t ht

/-- Every node that submits is one of the first ones; its versions come in the order of its
submissions, and the topology they are given on does not get older. -/
theorem Reached.versioned (h : Reached (start ids config affinity processors) g) :
    g.Versioned ids := by
  induction h with
  | init =>
    exact ⟨fun _ => rfl, fun n hn => SortedSet.contains_ofList.1 hn, fun t ht => (nomatch ht),
      fun t ht => (nomatch ht), fun t ht => (nomatch ht), .nil⟩
  | next h hr hn ih =>
    cases hn with
    | act ho => exact ih.act hr ho h.version_le
    | depart hn =>
      exact { ih with attached := fun m hm => ih.attached m (SortedSet.contains_erase.1 hm).2 }
    | told hi ht => exact { ih with }
    | exchange members => exact { ih with }
    | settle => exact { ih with }

/-! ## One version after the other -/

theorem issued_of_assigned (hv : t.assigned? = some v) :
    t.after.versions.issued = v.order ∧ t.before.versions.issued + 1 = v.order := by
  obtain ⟨u, hm, hu, rfl⟩ := Moment.assigned?_eq_some.1 hv
  refine ⟨?_, rfl⟩
  rw [Moment.after, hm, (Node.after_submit hu).versions]
  rfl

theorem nodeOrder_of_assigned (h : g.Versioned ids) (ht : t ∈ g.log) (hv : t.assigned? = some v) :
    v.nodeOrder = t.node.low ∧ t.node ∈ ids := by
  obtain ⟨u, hm, -, rfl⟩ := Moment.assigned?_eq_some.1 hv
  exact ⟨h.given t ht, h.submitter t ht (by rw [hm]; rfl)⟩

/-- Whoever submits again gives the new update a higher place. -/
theorem order_lt (hp : Precedes t t') (hroom : t'.Orderly) (hn : t.node = t'.node)
    {v' : WriteVersion} (hv : t.assigned? = some v) (hv' : t'.assigned? = some v') :
    v.order < v'.order := by
  rw [← (issued_of_assigned hv).1, ← (issued_of_assigned hv').2]
  exact UInt64.lt_of_le_of_lt (hp.issued hn) (lt_add_one_of_room hroom.handles)

/-- The last 32 bits of greater major numbers are greater as long as there are no more bits. -/
theorem topologyOrder_le (hp : Precedes t t')
    (hmajor : t'.view.topology.version.major.toNat < UInt32.size)
    {v' : WriteVersion} (hv : t.assigned? = some v) (hv' : t'.assigned? = some v') :
    v.topologyOrder ≤ v'.topologyOrder := by
  obtain ⟨u, -, -, rfl⟩ := Moment.assigned?_eq_some.1 hv
  obtain ⟨u', -, -, rfl⟩ := Moment.assigned?_eq_some.1 hv'
  have hle := UInt64.le_iff_toNat_le.1 (TopologyVersion.major_le hp.version)
  show t.view.topology.version.major.toUInt32 ≤ t'.view.topology.version.major.toUInt32
  rw [UInt32.le_iff_toNat_le, UInt64.toNat_toUInt32, UInt64.toNat_toUInt32]
  rw [Nat.mod_eq_of_lt hmajor, Nat.mod_eq_of_lt (Nat.lt_of_le_of_lt hle hmajor)]
  exact hle

theorem Reached.major_le (h : Reached (start ids config affinity processors) g) (ht : t ∈ g.log) :
    t.view.topology.version.major.toNat ≤ g.topology.version.major.toNat :=
  UInt64.le_iff_toNat_le.1 (TopologyVersion.major_le (h.version_le t ht))

/-- While the major numbers of topologies fit, a later version of a node is greater. -/
theorem Reached.assigned_lt (h : Reached (start ids config affinity processors) g)
    (hmajor : g.topology.version.major.toNat < UInt32.size) (ht' : t' ∈ g.log)
    (hp : Precedes t t') (hn : t.node = t'.node) {v' : WriteVersion} (hv : t.assigned? = some v)
    (hv' : t'.assigned? = some v') : v < v' := by
  have hle : v.topologyOrder ≤ v'.topologyOrder :=
    topologyOrder_le hp (Nat.lt_of_le_of_lt (h.major_le ht') hmajor) hv hv'
  have hlt : v.order < v'.order := order_lt hp (h.orderly t' ht') hn hv hv'
  rcases UInt32.lt_or_eq_of_le hle with htop | htop
  · exact WriteVersion.lt_iff.2 (.inl htop)
  · exact WriteVersion.lt_iff.2 (.inr ⟨htop, .inl hlt⟩)

/-- The nodes of two updates with one version cannot be told apart by a version, and the updates are
not of one node. -/
theorem Reached.low_of_assigned (h : Reached (start ids config affinity processors) g)
    (ht : t ∈ g.log) (ht' : t' ∈ g.log) (hp : Precedes t t') (hv : t.assigned? = some v)
    (hv' : t'.assigned? = some v) : t.node.low = t'.node.low ∧ t.node ≠ t'.node := by
  constructor
  · rw [← (nodeOrder_of_assigned h.versioned ht hv).1,
      (nodeOrder_of_assigned h.versioned ht' hv').1]
  · exact fun hn => UInt64.lt_irrefl _ (order_lt hp (h.orderly t' ht') hn hv hv')

/-- In every run of fewer than 2^64 - 1 events, in which the major numbers of topologies stay below
2^32: the versions that a node gives increase in the order of the submissions; and if the numbers of
any two nodes differ in their last 32 bits, then no two updates submitted anywhere get the same
version. -/
theorem assigned_run {es : List Event} (hlen : es.length + 1 < UInt64.size)
    (hmajor : ((start ids config affinity processors).run es).topology.version.major.toNat <
      UInt32.size) :
    (∀ n, (((start ids config affinity processors).run es).assignedBy n).Pairwise (· < ·)) ∧
      ((ids.map NodeId.low).Nodup → (((start ids config affinity processors).run es).log.filterMap
        Moment.assigned?).Nodup) := by
  have h : Reached (start ids config affinity processors)
      ((start ids config affinity processors).run es) := reached_run hlen
  generalize (start ids config affinity processors).run es = g at h hmajor ⊢
  have hsince : g.log.Pairwise fun t' t => t' ∈ g.log ∧ t ∈ g.log ∧ Precedes t t' :=
    h.versioned.since.imp_of_mem fun ht' ht hp => ⟨ht', ht, hp⟩
  constructor
  · intro n
    have hof : ((g.log.filter (·.node = n)).filterMap Moment.assigned?).Pairwise
        fun v' v => v < v' := by
      rw [List.pairwise_filterMap, List.pairwise_filter]
      refine hsince.imp fun {t' t} hp hn' hn v' hv' v hv => ?_
      simp only [decide_eq_true_eq] at hn hn'
      exact h.assigned_lt hmajor hp.1 hp.2.2 (hn.trans hn'.symm) hv hv'
    unfold assignedBy
    rw [List.filter_reverse, List.filterMap_reverse, List.pairwise_reverse]
    exact hof
  · intro hids
    rw [List.Nodup, List.pairwise_filterMap]
    refine hsince.imp fun {t' t} hp v' hv' v hv he => ?_
    subst he
    obtain ⟨hlow, hne⟩ := h.low_of_assigned hp.2.1 hp.1 hp.2.2 hv hv'
    exact hne (List.inj_on_of_nodup_map hids (nodeOrder_of_assigned h.versioned hp.2.1 hv).2
      (nodeOrder_of_assigned h.versioned hp.1 hv').2 hlow)

/-- Two nodes that own every key, and put a value there at the same time. -/
def bothPut (a b : NodeId) : Grid :=
  (start [a, b] { nodeId := 0 } (.pinned [a, b]) Processor.none).run
    [.submit a (.put [1] [97]), .submit b (.put [1] [98])]

/-- The nodes 1 and 2 give their updates different versions. -/
theorem assigned_oneAndTwo : ((bothPut ⟨1⟩ ⟨2⟩).log.filterMap Moment.assigned?).Nodup ∧
    ((bothPut ⟨1⟩ ⟨2⟩).assignedBy ⟨2⟩).Pairwise (· < ·) ∧
    (bothPut ⟨1⟩ ⟨2⟩).log.filterMap Moment.assigned? = [⟨1, 1, 2⟩, ⟨1, 1, 1⟩] := by
  have hmajor : (bothPut ⟨1⟩ ⟨2⟩).topology.version.major.toNat < UInt32.size := by decide +kernel
  have hversions : (bothPut ⟨1⟩ ⟨2⟩).log.filterMap Moment.assigned? = [⟨1, 1, 2⟩, ⟨1, 1, 1⟩] := by
    decide +kernel
  unfold bothPut at hmajor hversions ⊢
  obtain ⟨hof, hall⟩ := assigned_run (by decide) hmajor
  exact ⟨hall (by decide), hof ⟨2⟩, hversions⟩

/-- The numbers of two nodes differ, by 2^32, and yet they give their updates one version. -/
theorem assigned_twice : ([⟨1⟩, ⟨4294967297⟩] : List NodeId).Nodup ∧
    (bothPut ⟨1⟩ ⟨4294967297⟩).topology.version.major.toNat < UInt32.size ∧
    ¬ ((bothPut ⟨1⟩ ⟨4294967297⟩).log.filterMap Moment.assigned?).Nodup := by
  decide +kernel

end Grid

end AtomicGrid
