import AtomicGrid.Proofs.Cluster.Mirror
import AtomicGrid.Proofs.Grid.Once
import AtomicGrid.Proofs.Grid.Settled
import AtomicGrid.Proofs.Grid.Sizes

/-!
# Doing all there is to do

Work on a cluster that stores values makes its grid deliver messages, one after the other.  Each
turn leaves less to do than there was, so that a cluster comes to rest; and when it is at rest all of
its updates are done.

## Results

* `Cluster.Course.deliver`: a frame that is read leaves less to do.
* `Cluster.Course.turn`: so does a turn.
* `Cluster.Course.turnsUntil`: work goes on until the sign is there, or nothing is left to do.
* `Cluster.Course.isDone`: in a cluster at rest all updates are done.
-/

set_option autoImplicit false

namespace AtomicGrid

/-- In what circumstances values are stored. -/
structure Setting where
  /-- The number of nodes to start with. -/
  count : Nat
  config : Config
  processors : Processors
  /-- How long keys and values are at most. -/
  size : Nat
  /-- How many numbers are given at most. -/
  budget : Nat
  writable : 2 * size + 64 < Wire.Shape.absentLength.toNat
  nameable : min (1 + config.atomic.backups.toNat) count ≤ Wire.nameable
  roomy : budget + 2 < UInt64.size

namespace Setting

variable (w : Setting)

/-- The nodes to start with. -/
def ids : List NodeId := (List.range w.count).map fun i => ⟨UInt64.ofNat (i + 1)⟩

@[reducible]
def start : Grid :=
  .start w.ids w.config (.ranked w.config.atomic.partitions w.config.atomic.backups) w.processors

end Setting

def Queues.requests (queues : Queues) (n : NodeId) : Nat :=
  (queues n).countP (·.2.kind = .updateRequest)

namespace Grid

variable {w : Setting} {k : Nat} {g g₀ : Grid} {queues : Queues} {n s : NodeId} {move : Move}
  {m : Message} {rest : List (NodeId × Message)}

/-- What has happened between two grids has nothing to do with departures. -/
structure Proceeds (g g' : Grid) : Prop where
  topology : g'.topology = g.topology
  attached : g'.attached = g.attached
  untold : g'.untold = g.untold
  log : ∀ t ∈ g.log, t ∈ g'.log

theorem Proceeds.refl (g : Grid) : g.Proceeds g := ⟨rfl, rfl, rfl, fun _ ht => ht⟩

theorem Proceeds.trans {g' g'' : Grid} (h : g.Proceeds g') (h' : g'.Proceeds g'') :
    g.Proceeds g'' :=
  ⟨h'.topology.trans h.topology, h'.attached.trans h.attached, h'.untold.trans h.untold,
    fun t ht => h'.log t (h.log t ht)⟩

/-- At most `k` numbers have been given, or will be given to the requests that wait. -/
structure Spent (k : Nat) (g : Grid) (queues : Queues) : Prop where
  futures : ∀ n, (g.nodes n).nextFuture.toNat + queues.requests n ≤ k + 1
  handles : ∀ n, (g.nodes n).versions.issued.toNat ≤ k
  versions : g.topology.version.major.toNat ≤ k + 1

theorem Spent.bounded (h : g.Spent k queues) : g.Bounded k where
  futures n := Nat.le_trans (Nat.le_add_right _ _) (h.futures n)
  handles := h.handles
  versions := h.versions

/-- Who maps no update sends no request. -/
theorem requests_post (h : Reached w.start g) (hr : g.Roomy) (ho : Occasion g n move g₀)
    (hm : move.maps = false) (queues : Queues) (o : NodeId) :
    (queues.post (g.moment n move)).requests o = queues.requests o := by
  unfold Queues.post Queues.requests
  rw [List.countP_append, Nat.add_eq_left, List.countP_eq_zero]
  intro p hp
  obtain ⟨m', hmem, rfl⟩ := List.mem_map.1 hp
  cases m' with
  | updateRequest q =>
    obtain ⟨-, -, hd, c, hl⟩ := Moment.sentTo_of_request
      (orderly_moment h.framed h.coherent hr ho) (h.attended.now n).numbered hmem
    exact absurd (hm.symm.trans hl.maps) Bool.false_ne_true
  | _ => simp [Message.kind]

theorem Spent.receive (hs : g.Spent k queues) (h : Reached w.start g) (hr : g.Roomy)
    (ho : Occasion g n (.receive s m) g₀) (hq : queues n = (s, m) :: rest) :
    (g₀.act n (.receive s m)).Spent k
      ((queues.set n rest).post (g.moment n (.receive s m))) where
  futures o := by
    have hold := hs.futures o
    rw [requests_post h hr ho rfl, ho.same.nodes_act]
    unfold Queues.requests Queues.set at *
    split
    next he =>
      subst he
      rw [Function.update_self]
      rw [hq, List.countP_cons] at hold
      have hmove : (g.moment o (.receive s m)).after.nextFuture = (g.nodes o).nextFuture ∨
          (∃ q, m = .updateRequest q) ∧
            (g.moment o (.receive s m)).after.nextFuture = (g.nodes o).nextFuture + 1 :=
        Node.nextFuture_receive s m
      rcases hmove with hf | ⟨⟨q, rfl⟩, hf⟩
      · rw [hf]
        omega
      · rw [hf]
        have := toNat_add_one_le (g.nodes o).nextFuture
        rw [if_pos (by rfl)] at hold
        omega
    next he =>
      rw [Function.update_of_ne he]
      exact hold
  handles o := by
    rw [ho.same.nodes_act]
    split
    next he =>
      have hv : (g.moment n (.receive s m)).after.versions = (g.nodes n).versions :=
        Node.versions_receive s m
      rw [hv]
      exact hs.handles n
    next => exact hs.handles o
  versions := by
    rw [topology_act, ho.same.topology]
    exact hs.versions

theorem heeded_nodes_act (hh : ∀ o, (g.nodes o).Heeded) (h : Reached w.start g)
    (ho : Occasion g n move g₀) (o : NodeId) : ((g₀.act n move).nodes o).Heeded := by
  rw [ho.same.nodes_act]
  split
  next => exact Node.heeded_move (hh n) (h.coherent n) ho.due
  next => exact hh o

theorem pending_nodes_act {P : NodeId → Handle → Prop} (hp : ∀ o, (g.nodes o).Pending (P o))
    (h : Reached w.start g) (hr : g.Roomy) (ho : Occasion g n move g₀)
    (hm : move.submits = true → P n ((g.nodes n).versions.issued + 1)) (o : NodeId) :
    ((g₀.act n move).nodes o).Pending (P o) := by
  rw [ho.same.nodes_act]
  split
  next he =>
    subst he
    exact Node.pending_move (hp o) (h.coherent o) ho.due (hr.handles o) hm
  next => exact hp o

end Grid

namespace Cluster

variable {w : Setting} {k : Nat} {P : NodeId → Handle → Prop} {c : Cluster} {g : Grid}
  {queues : Queues} {n s : NodeId} {m : Message} {rest : List (NodeId × Message)}

/-- The cluster stores values as the grid does.  At most `k` numbers are given, and only the
submissions `P` may be without a result. -/
structure Course (w : Setting) (k : Nat) (P : NodeId → Handle → Prop) (c : Cluster) (g : Grid)
    (queues : Queues) : Prop where
  mirrors : c.Mirrors g queues
  reached : Grid.Reached w.start g
  calm : g.Calm w.size
  within : g.Within w.count
  spent : g.Spent k queues
  heeded : ∀ n, (g.nodes n).Heeded
  pending : ∀ n, (g.nodes n).Pending (P n)

theorem Course.roomy (h : Course w k P c g queues) (hk : k ≤ w.budget) : g.Roomy :=
  h.spent.bounded.roomy (by have := w.roomy; omega)

/-- The weight of what is still to be done in the cluster. -/
def toil (c : Cluster) : Nat := c.effort c.topology.nodes.size

/-- A frame that is read leaves less to do. -/
theorem Course.deliver (h : Course w k P c g queues) (hk : k ≤ w.budget)
    (hq : queues n = (s, m) :: rest) :
    ∃ router g' queues', c.router.next n = some (router, (s, m.encode)) ∧
      let c' := { c with router }.readFrame n (s, m.encode)
      Course w k P c' g' queues' ∧ g.Proceeds g' ∧
        (∃ ns : List NodeId, c'.ready = c.ready ++ ns.map .read) ∧ c'.putOff = c.putOff ∧
        c'.toil + 1 ≤ c.toil := by
  have hroom := h.roomy hk
  have hn : g.attached.contains n = true := by
    rw [h.mirrors.attached]
    exact h.mirrors.running_of_queue (hq ▸ List.cons_ne_nil _ _)
  have hlink : g.links s n = m :: (rest.filter (·.1 = s)).map (·.2) := by
    rw [h.mirrors.links, hq, List.filter_cons_of_pos (by simp), List.map_cons]
  have hsent : g.Sent s n m := h.reached.linked.sent s n m (hlink ▸ List.mem_cons_self)
  have hm : m.received = m := by
    obtain ⟨t, -, -, hmem⟩ := hsent
    obtain ⟨m', -, rfl⟩ := Moment.mem_sentTo.1 hmem
    cases m' <;> rfl
  have hf : m.Fits := h.calm.fits h.reached h.within w.nameable w.writable (hm.symm ▸ hsent)
  have ho : Grid.Occasion g n (.receive s m) (g.setLink s n ((rest.filter (·.1 = s)).map (·.2))) :=
    .receive hn hlink
  have hreached := Grid.Reached.next h.reached hroom (.act ho)
  have hw := h.calm.waits_receive h.reached hreached ho
  obtain ⟨router, hnext, -, hmirrors, hready, hputOff, heffort⟩ := h.mirrors.deliver hq hf hm hw
  refine ⟨router, _, _, hnext, ⟨hmirrors, hreached, h.calm.receive h.reached hroom hn hlink,
    h.within.act ho, h.spent.receive h.reached hroom ho hq, Grid.heeded_nodes_act h.heeded h.reached ho,
    Grid.pending_nodes_act h.pending h.reached hroom ho (fun hs => by cases hs)⟩,
    ⟨rfl, rfl, rfl, fun _ => List.mem_cons_of_mem _⟩, hready, hputOff, ?_⟩
  have htop : ({ c with router }.readFrame n (s, m.encode)).topology = c.topology := by
    rw [← hmirrors.topology, ← h.mirrors.topology]
    rfl
  have hburden : burden c.topology.nodes.size (g.moment n (.receive s m)).effects +
      (g.moment n (.receive s m)).after.credit + 1 ≤
        m.kind.weight c.topology.nodes.size + (g.nodes n).credit :=
    Node.burden_receive (h.reached.coherent n) fun q he hc => by
      subst he
      rw [← h.mirrors.topology]
      exact h.calm.size_receivers h.reached hsent hc
  have := heffort c.topology.nodes.size
  unfold toil
  rw [htop]
  omega

/-- The cluster goes on as it did, from the grid `g`. -/
def GoesOn (w : Setting) (k : Nat) (P : NodeId → Handle → Prop) (g : Grid) (c : Cluster) : Prop :=
  ∃ g' queues, Course w k P c g' queues ∧ g.Proceeds g'

/-- A node reads its share.  If there is enough to read, each frame leaves less to do; if there is
not, the node need not come back. -/
theorem Course.readInbox (hk : k ≤ w.budget) (n : NodeId) : ∀ (j : Nat) {c : Cluster} {g : Grid}
    {queues : Queues}, Course w k P c g queues → (∃ rest, c.ready = .read n :: rest) →
      GoesOn w k P g (c.readInbox n j) ∧
        ((c.readInbox n j).toil + j ≤ c.toil + 1 ∨ (c.readInbox n j).toil + 1 ≤ c.toil)
  | 0, c, g, queues, h, ⟨rest, hr⟩ => by
    have hsub {j : Job} (hj : j ∈ rest) : j ∈ c.ready := hr ▸ List.mem_cons_of_mem _ hj
    refine ⟨⟨g, queues, { h with mirrors := h.mirrors.reschedule ?_ fun o ho => ?_ }, .refl g⟩,
      .inl ?_⟩
    · rw [hr]
      exact fun j hj => h.mirrors.reads j (hsub hj)
    · rcases h.mirrors.scheduled o ho with hmem | hmem
      · rw [hr] at hmem ⊢
        rcases List.mem_cons.1 hmem with he | hmem
        · cases he
          exact .inr List.mem_cons_self
        · exact .inl hmem
      · exact .inr (List.mem_cons_of_mem _ hmem)
    · simp only [Cluster.readInbox, toil, effort, hr, List.tail_cons, List.length_cons]
      omega
  | j + 1, c, g, queues, h, ⟨rest, hr⟩ => by
    have hsub {j : Job} (hj : j ∈ rest) : j ∈ c.ready := hr ▸ List.mem_cons_of_mem _ hj
    cases hq : queues n with
    | nil =>
      rw [Cluster.readInbox, h.mirrors.next_eq_none hq]
      refine ⟨⟨g, queues, { h with mirrors := h.mirrors.reschedule ?_ fun o ho => ?_ }, .refl g⟩,
        .inr ?_⟩
      · rw [hr]
        exact fun j hj => h.mirrors.reads j (hsub hj)
      · refine (h.mirrors.scheduled o ho).imp_left fun hmem => ?_
        rw [hr] at hmem ⊢
        rcases List.mem_cons.1 hmem with he | hmem
        · cases he
          exact absurd hq ho
        · exact hmem
      · simp only [toil, effort, hr, List.tail_cons, List.length_cons]
        omega
    | cons p ps =>
      obtain ⟨s, m⟩ := p
      obtain ⟨router, g', queues', hnext, h', hcont, ⟨ns, hns⟩, -, hless⟩ := h.deliver hk hq
      have hstep : c.readInbox n (j + 1) =
          ({ c with router }.readFrame n (s, m.encode)).readInbox n j := by
        rw [Cluster.readInbox, hnext]
      rw [hstep]
      obtain ⟨⟨g'', queues'', h'', hcont'⟩, hdone⟩ := h'.readInbox hk n j
        ⟨rest ++ ns.map .read, by rw [hns, hr, List.cons_append]⟩
      refine ⟨⟨g'', queues'', h'', hcont.trans hcont'⟩, ?_⟩
      rcases hdone with hdone | hdone
      · exact .inl (by omega)
      · exact .inr (by omega)

theorem one_lt_readingShare : 1 < readingShare := by decide

theorem turnLength_pos : 0 < turnLength := by decide

/-- A piece of work leaves less to do: a node that does not run out of frames reads more than one. -/
theorem Course.tick (h : Course w k P c g queues) (hk : k ≤ w.budget) (hr : c.ready ≠ []) :
    GoesOn w k P g c.tick ∧ c.tick.toil + 1 ≤ c.toil := by
  cases hready : c.ready with
  | nil => exact absurd hready hr
  | cons j rest =>
    obtain ⟨n, rfl⟩ := h.mirrors.reads j (hready ▸ List.mem_cons_self)
    have hstep : c.tick = c.readInbox n readingShare := by
      rw [Cluster.tick, hready]
    rw [hstep]
    obtain ⟨hgoes, hless⟩ := h.readInbox hk n readingShare ⟨rest, hready⟩
    have hshare := one_lt_readingShare
    refine ⟨hgoes, hless.elim (fun hless => ?_) id⟩
    omega

theorem Course.ticks (hk : k ≤ w.budget) : ∀ (j : Nat) {c : Cluster} {g : Grid} {queues : Queues},
    Course w k P c g queues → GoesOn w k P g (Cluster.ticks j c) ∧
      (Cluster.ticks j c).toil + (if j = 0 ∨ c.ready = [] then 0 else 1) ≤ c.toil
  | 0, c, g, queues, h => ⟨⟨g, queues, h, .refl g⟩, Nat.le_refl _⟩
  | j + 1, c, g, queues, h => by
    rw [Cluster.ticks]
    by_cases hr : c.ready = []
    · rw [if_pos (List.isEmpty_iff.2 hr), if_pos (.inr hr)]
      exact ⟨⟨g, queues, h, .refl g⟩, Nat.le_refl _⟩
    · rw [if_neg fun he => hr (List.isEmpty_iff.1 he), if_neg fun he => he.elim (by simp) hr]
      obtain ⟨⟨g', queues', h', hcont⟩, hless⟩ := h.tick hk hr
      obtain ⟨⟨g'', queues'', h'', hcont'⟩, hless'⟩ := h'.ticks hk j
      exact ⟨⟨g'', queues'', h'', hcont.trans hcont'⟩, by omega⟩

theorem ticks_of_idle {c : Cluster} (hr : c.ready = []) : ∀ j, Cluster.ticks j c = c
  | 0 => rfl
  | j + 1 => by rw [Cluster.ticks, if_pos (List.isEmpty_iff.2 hr)]

/-- In a pause nothing is forgotten. -/
theorem Course.pause (h : Course w k P c g queues) : GoesOn w k P g c.pause ∧
    c.pause.toil + c.putOff.length ≤ c.toil := by
  refine ⟨⟨g, queues, { h with
    mirrors := h.mirrors.reschedule (reads_append h.mirrors.reads c.putOff) fun n hn => ?_ },
    .refl g⟩, ?_⟩
  · refine .inl (List.mem_append.2 ?_)
    exact (h.mirrors.scheduled n hn).imp_right fun hmem => List.mem_map_of_mem hmem
  · simp only [Cluster.pause, toil, effort, List.length_append, List.length_map, List.length_nil]
    omega

/-- A turn leaves less to do, if there was anything. -/
theorem Course.turn (h : Course w k P c g queues) (hk : k ≤ w.budget) (hi : c.isIdle = false) :
    GoesOn w k P g c.turn ∧ c.turn.toil + 1 ≤ c.toil := by
  obtain ⟨⟨g', queues', h', hcont⟩, hless⟩ := h.ticks hk turnLength
  obtain ⟨⟨g'', queues'', h'', hcont'⟩, hless'⟩ := h'.pause
  refine ⟨⟨g'', queues'', h'', hcont.trans hcont'⟩, ?_⟩
  unfold Cluster.turn
  by_cases hr : c.ready = []
  · -- nobody is ready, so somebody has put something off
    rw [ticks_of_idle hr] at hless' ⊢
    have hne : c.putOff ≠ [] := by
      rintro hp
      simp [isIdle, hr, hp] at hi
    have := List.length_pos_iff.2 hne
    omega
  · rw [if_neg fun he => he.elim (Nat.ne_of_gt turnLength_pos) hr] at hless
    omega

/-- Work goes on until the sign is there, or there is nothing left to do. -/
theorem Course.turnsUntil {α : Type} (hk : k ≤ w.budget) (sign : Cluster → Option α) :
    ∀ (fuel : Nat) {c : Cluster} {g : Grid} {queues : Queues}, Course w k P c g queues →
      c.toil ≤ fuel → GoesOn w k P g (Cluster.turnsUntil sign fuel c).1 ∧
        ((Cluster.turnsUntil sign fuel c).2 = none →
          (Cluster.turnsUntil sign fuel c).1.isIdle = true ∧
            ((Cluster.turnsUntil sign fuel c).1 = c ∨
              sign (Cluster.turnsUntil sign fuel c).1 = none))
  | 0, c, g, queues, h, hf => by
    refine ⟨⟨g, queues, h, .refl g⟩, fun _ => ⟨?_, .inl rfl⟩⟩
    unfold toil effort at hf
    have hr : c.ready = [] := List.length_eq_zero_iff.1 (by omega)
    have hp : c.putOff = [] := List.length_eq_zero_iff.1 (by omega)
    simp [Cluster.turnsUntil, isIdle, hr, hp]
  | fuel + 1, c, g, queues, h, hf => by
    rw [Cluster.turnsUntil]
    cases hi : c.isIdle with
    | true =>
      rw [if_pos rfl]
      exact ⟨⟨g, queues, h, .refl g⟩, fun _ => ⟨hi, .inl rfl⟩⟩
    | false =>
      rw [if_neg Bool.false_ne_true]
      obtain ⟨⟨g', queues', h', hcont⟩, hless⟩ := h.turn hk hi
      dsimp only
      cases hsign : sign c.turn with
      | some a => exact ⟨⟨g', queues', h', hcont⟩, fun hn => by cases hn⟩
      | none =>
        obtain ⟨⟨g'', queues'', h'', hcont'⟩, hend⟩ := h'.turnsUntil hk sign fuel (by omega)
        refine ⟨⟨g'', queues'', h'', hcont.trans hcont'⟩, fun hn => ?_⟩
        obtain ⟨hidle, hlast⟩ := hend hn
        refine ⟨hidle, .inr ?_⟩
        rcases hlast with he | hlast
        · dsimp only
          rw [he]
          exact hsign
        · exact hlast

theorem sign_of_turnsUntil {α : Type} {sign : Cluster → Option α} {a : α} :
    ∀ {fuel : Nat} {c : Cluster}, (Cluster.turnsUntil sign fuel c).2 = some a →
      sign (Cluster.turnsUntil sign fuel c).1 = some a
  | 0, c, h => nomatch h
  | fuel + 1, c, h => by
    rw [Cluster.turnsUntil] at h ⊢
    cases hi : c.isIdle with
    | true => simp [hi] at h
    | false =>
      simp only [hi, Bool.false_eq_true, if_false] at h ⊢
      cases hs : sign c.turn with
      | some b =>
        simp only [hs] at h ⊢
        exact h
      | none =>
        simp only [hs] at h ⊢
        exact sign_of_turnsUntil h

/-! ## At rest -/

/-- Nothing is under way in a cluster at rest, if all have heard of the departures. -/
theorem Course.quiet (h : Course w k P c g queues) (hi : c.isIdle = true) (hu : g.untold = []) :
    g.Quiet where
  links s r hr := by
    obtain ⟨hready, hputOff⟩ : c.ready = [] ∧ c.putOff = [] := by simpa [isIdle] using hi
    rw [h.mirrors.links]
    have hq : queues r = [] := by
      by_contra hq
      have := h.mirrors.scheduled r hq
      simp [hready, hputOff] at this
    rw [hq]
    rfl
  told p hp := by rw [hu] at hp; cases hp
  ready := h.calm.ready
  tasks p hp := by rw [h.calm.tasks] at hp; cases hp

/-- In a cluster at rest all updates are done. -/
theorem Course.isDone (h : Course w k P c g queues) (hi : c.isIdle = true) (hu : g.untold = [])
    (hn : c.running.contains n = true) {hd : Handle} {x : Submission}
    (hs : (g.nodes n).submissions.get? hd = some x) : x.isDone = true := by
  rcases (h.quiet hi hu).settled h.reached (h.mirrors.attached ▸ hn) hs with hdone | hparked
  · exact hdone
  · obtain ⟨wait, hmem, -⟩ := hparked.waits
    rw [h.calm.tasks] at hmem
    cases hmem

end Cluster

end AtomicGrid
