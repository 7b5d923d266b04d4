import AtomicGrid.Proofs.Cluster.Work

/-!
# Updates and departures in a cluster

An update that is submitted, and the news of a departure, are moves of one node, in a cluster as on
its grid.  A node is taken out while no update is under way: what waits for it is lost, and when all
others have heard of it the cluster goes on without it.

## Results

* `Cluster.Course.submit`: a running node takes an update that stores a value.
* `Cluster.Course.kill`: a cluster goes on without a node that is taken out.
* `Cluster.Awaits.turnsUntil`: whoever waits for the result of an update gets it.
-/

set_option autoImplicit false

namespace AtomicGrid

namespace Grid

variable {w : Setting} {k : Nat} {g g₀ : Grid} {queues : Queues} {n : NodeId}
  {move : Move}

/-- At most one request is sent to a node by a move. -/
theorem requests_post_le (h : Reached w.start g) (hr : g.Roomy)
    (ho : Occasion g n move g₀) (queues : Queues) (o : NodeId) :
    (queues.post (g.moment n move)).requests o ≤ queues.requests o + 1 := by
  unfold Queues.post Queues.requests
  rw [List.countP_append, List.countP_map]
  refine Nat.add_le_add_left ?_ _
  by_cases hq : ∃ q, .updateRequest q ∈ (g.moment n move).sentTo o
  · obtain ⟨q, hq⟩ := hq
    obtain ⟨hs, -⟩ := Moment.sentTo_of_request
      (orderly_moment h.framed h.coherent hr ho) (h.attended.now n).numbered hq
    rw [hs]
    exact List.countP_le_length
  · rw [List.countP_eq_zero.2 fun m hm => ?_]
    · exact Nat.zero_le 1
    · cases m with
      | updateRequest q => exact absurd ⟨q, hm⟩ hq
      | _ => simp [Message.kind]

/-- An update takes a number on its own node, and one on the node that its request goes to. -/
theorem Spent.submit (hs : g.Spent k queues) (h : Reached w.start g) (hr : g.Roomy)
    (hn : g.attached.contains n = true) (u : Update) :
    (g.act n (.submit u)).Spent (k + 2) (queues.post (g.moment n (.submit u))) where
  futures o := by
    have hold := hs.futures o
    have hposted := requests_post_le h hr (.submit hn u) queues o
    rw [nodes_act]
    split
    next he =>
      subst he
      have hmove : (g.moment o (.submit u)).after.nextFuture.toNat ≤
          (g.nodes o).nextFuture.toNat + 1 := by
        rcases Node.nextFuture_move (g.view o) (g.nodes o) (.submit u) with hf | hf
        · exact Nat.le_trans (Nat.le_of_eq (congrArg UInt64.toNat hf)) (Nat.le_succ _)
        · exact Nat.le_trans (Nat.le_of_eq (congrArg UInt64.toNat hf)) (toNat_add_one_le _)
      omega
    next => omega
  handles := (hs.bounded.act (Occasion.submit hn u).same).mono.handles
  versions := (hs.bounded.act (Occasion.submit hn u).same).mono.versions

/-- To hear of a departure takes no number. -/
theorem Spent.lose (hs : g.Spent k queues) (h : Reached w.start g) (hr : g.Roomy) {gone : NodeId}
    {r : FutureId × Registered} (ho : Occasion g n (.lose gone r) g) :
    (g.act n (.lose gone r)).Spent k (queues.post (g.moment n (.lose gone r))) where
  futures o := by
    rw [requests_post h hr ho rfl, nodes_act]
    split
    next he =>
      subst he
      have hf : (g.moment o (.lose gone r)).after.nextFuture = (g.nodes o).nextFuture :=
        (Node.counters_lose _ _ _ _).1
      rw [hf]
      exact hs.futures o
    next => exact hs.futures o
  handles := (hs.bounded.lose n gone r).handles
  versions := (hs.bounded.lose n gone r).versions

/-- A departure takes a version. -/
theorem Spent.depart (hs : g.Spent k queues) (n : NodeId) :
    (g.depart n).Spent (k + 1) (queues.set n []) where
  futures o := by
    have hold := hs.futures o
    have hless : (queues.set n []).requests o ≤ queues.requests o := by
      unfold Queues.set Queues.requests
      by_cases ho : o = n
      · rw [ho, Function.update_self]
        exact Nat.zero_le _
      · exact Nat.le_of_eq (by rw [Function.update_of_ne ho])
    show (g.nodes o).nextFuture.toNat + _ ≤ _
    omega
  handles o := Nat.le_trans (hs.handles o) (Nat.le_succ k)
  versions := by
    have hmajor : (g.depart n).topology.version.major.toNat ≤
        g.topology.version.major.toNat + 1 := major_nextMajor _
    have := hs.versions
    omega

end Grid

namespace Cluster

variable {w : Setting} {k : Nat} {P : NodeId → Handle → Prop} {c : Cluster} {g : Grid}
  {queues : Queues} {n : NodeId} {node : Node} {move : Move}

/-! ## Moves in a row -/

theorem putNode_perform (c : Cluster) (n o : NodeId) (node : Node) (e : Effect) :
    (perform n c e).putNode o node = perform n (c.putNode o node) e := by
  cases e with
  | sent r m =>
    unfold perform putNode enqueue
    dsimp only
    split
    · split <;> rfl
    · rfl
  | _ => rfl

theorem putNode_foldl (n : NodeId) (node : Node) : ∀ (es : List Effect) (c : Cluster),
    (es.foldl (perform n) c).putNode n node = es.foldl (perform n) (c.putNode n node)
  | [], _ => rfl
  | e :: es, c => by
    rw [List.foldl_cons, putNode_foldl n node es, putNode_perform, List.foldl_cons]

theorem putNode_putNode (c : Cluster) (n : NodeId) (node node' : Node) :
    (c.putNode n node).putNode n node' = c.putNode n node' := by
  unfold putNode
  rw [SortedMap.modify_modify]

theorem take_take (c : Cluster) (n : NodeId) (node node' : Node) (es es' : List Effect) :
    (c.take n (node, es)).take n (node', es') = c.take n (node', es ++ es') := by
  unfold take
  rw [putNode_foldl, putNode_putNode, List.foldl_append]

theorem take_self (hn : c.node? n = some node) : c.take n (node, []) = c := by
  show c.putNode n node = c
  unfold putNode
  rw [SortedMap.modify_eq_self fun member hm => ?_]
  rw [node?, hm, Option.map_some, Option.some_inj] at hn
  rw [← hn]

/-! ## Updates -/

theorem Mirrors.submit (h : c.Mirrors g queues) (hn : c.running.contains n = true) (u : Update) :
    c.submit n u = some (c.take n ((g.nodes n).move (g.view n) (.submit u)),
      ((g.nodes n).submit (g.view n) u).2.2) := by
  have hnode : c.runningNode? n = some (g.nodes n) := by
    rw [runningNode?, if_pos hn, h.node? hn]
  unfold Cluster.submit
  rw [hnode, h.view n]
  rfl

/-- A move for which nobody has to wait, and which takes nothing from a link. -/
theorem Course.act (h : Course w k P c g queues) (hk : k ≤ w.budget)
    (ho : Grid.Occasion g n move g) (hc : (g.act n move).Calm w.size)
    (hw : (g.moment n move).waits = []) {k' : Nat}
    (hs : (g.act n move).Spent k' (queues.post (g.moment n move)))
    (hp : move.submits = true → P n ((g.nodes n).versions.issued + 1)) :
    Course w k' P (c.take n ((g.nodes n).move (g.view n) move)) (g.act n move)
      (queues.post (g.moment n move)) where
  mirrors := h.mirrors.take n hw
  reached := h.reached.next (h.roomy hk) (.act ho)
  calm := hc
  within := h.within.act ho
  spent := hs
  heeded := Grid.heeded_nodes_act h.heeded h.reached ho
  pending := Grid.pending_nodes_act h.pending h.reached (h.roomy hk) ho hp

theorem Course.submit (h : Course w k P c g queues) (hk : k ≤ w.budget)
    (hn : c.running.contains n = true) {u : Update} (hu : u.StoresWithin w.size) :
    ∃ c' hd g' queues', c.submit n u = some (c', .ok hd) ∧
      Course w (k + 2) (fun o x => P o x ∨ o = n ∧ x = hd) c' g' queues' ∧ g.Proceeds g' ∧
        g'.Submitted n hd := by
  have hn' : g.attached.contains n = true := h.mirrors.attached ▸ hn
  have hfault : u.fault? = none := by
    obtain ⟨key, value, rfl, hkey, -⟩ := hu
    exact Update.fault?_put hkey value
  have hok : ((g.nodes n).submit (g.view n) u).2.2 = .ok ((g.nodes n).versions.issued + 1) := by
    unfold Node.submit
    rw [hfault]
    rfl
  have hroom := h.roomy hk
  have h' : Course w k (fun o x => P o x ∨ o = n ∧ x = (g.nodes n).versions.issued + 1) c g queues :=
    { h with pending := fun o => (h.pending o).mono fun _ => .inl }
  refine ⟨_, _, _, _, (h.mirrors.submit hn u).trans (by rw [hok]),
    h'.act hk (.submit hn' u) (h.calm.submit h.reached hroom hn' hu)
      (h.calm.waits_submit h.reached hn' hu) (h.spent.submit h.reached hroom hn' u)
      fun _ => .inr ⟨rfl, rfl⟩, ⟨rfl, rfl, rfl, fun _ => List.mem_cons_of_mem _⟩, ?_⟩
  exact ⟨g.moment n (.submit u), List.mem_cons_self, rfl, u, rfl, hok⟩

/-! ## Departures -/

/-- The cluster without `n`, when nobody has heard of it. -/
def without (c : Cluster) (n : NodeId) : Cluster :=
  (c.detach n).announce ((c.detach n).topology.nodeLeft n)

theorem kill_running (hn : c.running.contains n = true) :
    c.kill n = ((c.without n).nodeIds.foldl (tellDeparture n) (c.without n), true) :=
  if_pos hn

theorem without_eq (hp : c.parked = []) : ∃ ns : List NodeId, c.without n =
    { c with
      router := (c.router.unregister n).dropInbox n
      topology := c.topology.nodeLeft n
      running := c.running.erase n
      ready := c.ready ++ ns.map .read
      putOff := c.putOff.filter (· ≠ n) } := by
  obtain ⟨ns, -, henqueue, -⟩ := enqueue_read { c with
    router := (c.router.unregister n).dropInbox n
    running := c.running.erase n
    putOff := c.putOff.filter (· ≠ n) } n
  refine ⟨ns, ?_⟩
  unfold without detach announce
  rw [henqueue]
  simp only [hp, List.map_nil, List.append_nil]

theorem serves_erase {r : Router} {nodes : NodeSet} (h : r.Serves nodes) (n : NodeId) :
    ((r.unregister n).dropInbox n).Serves (nodes.erase n) where
  attached := congrArg (·.erase n) h.attached
  blocked := h.blocked
  inboxes o := by
    have ho := h.inboxes o
    unfold Router.unregister Router.dropInbox SortedMap.contains at *
    rw [SortedMap.get?_erase_ite, SortedMap.get?_erase_ite]
    split
    · rfl
    · exact ho

/-- A node departs from a cluster as it does from the grid. -/
theorem Mirrors.depart (h : c.Mirrors g queues) (n : NodeId) :
    (c.without n).Mirrors (g.depart n) (queues.set n []) := by
  obtain ⟨ns, hns⟩ := without_eq (n := n) h.parked
  rw [hns]
  exact {
    topology := congrArg (·.nodeLeft n) h.topology
    affinity := h.affinity
    attached := congrArg (·.erase n) h.attached
    serves := serves_erase h.serves n
    node := h.node
    member := fun o ho => h.member o (SortedSet.contains_erase.1 ho).2
    waiting := fun o => by
      have ho := h.waiting o
      unfold Router.unregister Router.dropInbox Router.waiting Queues.set at *
      rw [SortedMap.get?_erase_ite]
      split
      next he =>
        rw [he, Function.update_self]
        rfl
      next he =>
        rw [Function.update_of_ne he]
        exact ho
    links := fun s r => by
      unfold Grid.depart Queues.set
      dsimp only
      split
      next he =>
        rw [he, Function.update_self]
        rfl
      next he =>
        rw [Function.update_of_ne he]
        exact h.links s r
    parked := h.parked
    reads := reads_append h.reads ns
    scheduled := fun o ho => by
      unfold Queues.set at ho
      by_cases he : o = n
      · rw [he, Function.update_self] at ho
        exact absurd rfl ho
      · rw [Function.update_of_ne he] at ho
        exact (h.scheduled o ho).imp (List.mem_append_left _) fun hmem =>
          List.mem_filter.2 ⟨hmem, decide_eq_true he⟩ }

/-- No attempt is under way in a cluster whose submissions all have results. -/
theorem Course.idle (h : Course w k (fun _ _ => False) c g queues) : g.Idle := by
  intro n id hd hr
  obtain ⟨x, hs, -⟩ := ((h.reached.coherent n).submission id hd).1 hr
  have hdone := (h.pending n hd x hs).resolve_right not_false
  exact Bool.noConfusion (hdone.symm.trans ((h.reached.coherent n).current hr hs).1)

/-- The coordinators of a node hear of a departure one after the other. -/
theorem Course.loseAll (hk : k ≤ w.budget) {gone : NodeId} :
    ∀ (rs : List (FutureId × Registered)) {c : Cluster} {g : Grid} {queues : Queues},
      Course w k P c g queues → g.Idle → c.running.contains n = true → (n, gone) ∈ g.untold →
      (∀ r ∈ rs, r ∈ (g.nodes n).registry.entries) → (rs.map (·.1)).Nodup →
      ∃ queues', Course w k P
          (c.take n (Node.each (Node.move (g.view n)) (g.nodes n) (rs.map (.lose gone))))
          (g.loseAll n gone rs) queues' ∧ (g.loseAll n gone rs).Idle
  | [], c, g, queues, h, hi, hn, _, _, _ => by
    refine ⟨queues, ?_, hi⟩
    rw [List.map_nil, Node.each, take_self (h.mirrors.node? hn)]
    exact h
  | r :: rs, c, g, queues, h, hi, hn, hu, hrs, hnd => by
    rw [List.map_cons, List.nodup_cons] at hnd
    have hr := hrs r List.mem_cons_self
    have hroom := h.roomy hk
    have hn' : g.attached.contains n = true := h.mirrors.attached ▸ hn
    have ho : Grid.Occasion g n (.lose gone r) g := .lose hn' hu hr
    obtain ⟨hcalm, hidle⟩ := h.calm.lose h.reached hroom hi hn' hu hr
    obtain ⟨id, who⟩ := r
    have hwho : who = .fanout := by
      cases who with
      | fanout => rfl
      | submission hd => exact absurd (SortedMap.get?_eq_some_iff.2 hr) (hi n id hd)
    subst hwho
    have h' := h.act hk ho hcalm Grid.Calm.waits_lose (h.spent.lose h.reached hroom ho)
      fun hs => by cases hs
    have hnode : (g.act n (.lose gone (id, .fanout))).nodes n =
        ((g.nodes n).move (g.view n) (.lose gone (id, .fanout))).1 := by
      rw [Grid.nodes_act, if_pos rfl]
      rfl
    -- the others keep their numbers while this one is told
    have hrest := h'.loseAll hk rs hidle (h'.mirrors.attached ▸ hn') hu (fun r' hr' => by
      have hmem : r'.1 ∈ rs.map (·.1) := List.mem_map_of_mem hr'
      have hne : r'.1 ≠ id := fun he => hnd.1 (he ▸ hmem)
      rw [hnode, ← SortedMap.get?_eq_some_iff,
        Node.registry_lose (h.reached.coherent n) (SortedMap.get?_eq_some_iff.2 hr) hne,
        SortedMap.get?_eq_some_iff]
      exact hrs r' (List.mem_cons_of_mem _ hr')) hnd.2
    rw [hnode, take_take] at hrest
    exact hrest

theorem Course.setUntold (h : Course w k P c g queues) {us : List (NodeId × NodeId)}
    (hr : Grid.Reached w.start { g with untold := us }) :
    Course w k P c { g with untold := us } queues :=
  { h with
    reached := hr
    mirrors := { h.mirrors with }
    calm := { h.calm with }
    within := { h.within with }
    spent := { h.spent with } }

theorem Course.tell (h : Course w k P c g queues) (hk : k ≤ w.budget) (hi : g.Idle)
    (hn : c.running.contains n = true) {gone : NodeId} {us : List (NodeId × NodeId)}
    (hu : g.untold = (n, gone) :: us) :
    ∃ g' queues', Course w k P (c.tellDeparture gone n) g' queues' ∧ g'.Idle ∧
      g'.untold = us ∧ g'.attached = g.attached := by
  have hn' : g.attached.contains n = true := h.mirrors.attached ▸ hn
  have hmem : (n, gone) ∈ g.untold := hu ▸ List.mem_cons_self
  have hlost := Grid.lost_loseAll (by have := w.roomy; omega) (g.nodes n).registry.entries h.reached
    h.spent.bounded hn' hmem (fun _ hr => hr) (SortedMap.keys_nodup _)
  obtain ⟨queues', h', hi'⟩ := h.loseAll hk (g.nodes n).registry.entries hi hn hmem
    (fun _ hr => hr) (SortedMap.keys_nodup _)
  have hc : c.tellDeparture gone n = c.take n (Node.each (Node.move (g.view n)) (g.nodes n)
      ((g.nodes n).registry.entries.map (.lose gone))) := by
    rw [tellDeparture, if_pos hn, run, h.mirrors.node? hn, h.mirrors.view,
      ← Node.departed_eq_each]
  have hhead : (g.loseAll n gone (g.nodes n).registry.entries).untold[0]? = some (n, gone) := by
    rw [hlost.untold, hu]
    rfl
  have hnext := Grid.Next.told hhead fun _ r hr => hlost.told r (hlost.registry r hr)
  have htail : (g.loseAll n gone (g.nodes n).registry.entries).untold.eraseIdx 0 = us := by
    rw [hlost.untold, hu]
    rfl
  rw [htail] at hnext
  rw [hc]
  exact ⟨_, queues', h'.setUntold (h'.reached.next (h'.roomy hk) hnext), hi', rfl, hlost.attached⟩

theorem Course.tellAll (hk : k ≤ w.budget) {gone : NodeId} : ∀ (ns : List NodeId) {c : Cluster}
    {g : Grid} {queues : Queues}, Course w k P c g queues → g.Idle →
      g.untold = ns.map (·, gone) → (∀ n ∈ ns, c.running.contains n = true) →
      ∃ g' queues', Course w k P (ns.foldl (tellDeparture gone) c) g' queues' ∧
        g'.untold = [] ∧ g'.attached = g.attached
  | [], _, g, queues, h, _, hu, _ => ⟨g, queues, h, hu, rfl⟩
  | n :: ns, c, g, queues, h, hi, hu, hns => by
    obtain ⟨g', queues', h', hi', hu', ha⟩ := h.tell hk hi (hns n List.mem_cons_self) hu
    obtain ⟨g'', queues'', h'', hu'', ha'⟩ := h'.tellAll hk ns hi' hu' fun o ho => by
      rw [← h'.mirrors.attached, ha, h.mirrors.attached]
      exact hns o (List.mem_cons_of_mem _ ho)
    exact ⟨g'', queues'', h'', hu'', ha'.trans ha⟩

/-- A cluster goes on without a node that is taken out, when all its submissions have results. -/
theorem Course.kill (h : Course w k (fun _ _ => False) c g queues) (hk : k < w.budget)
    (hu : g.untold = []) (hn : c.running.contains n = true) :
    ∃ g' queues', Course w (k + 1) (fun _ _ => False) (c.kill n).1 g' queues' ∧
      g'.untold = [] ∧ (c.kill n).1.running = c.running.erase n := by
  have hn' : g.attached.contains n = true := h.mirrors.attached ▸ hn
  have hdepart : Course w (k + 1) (fun _ _ => False) (c.without n) (g.depart n)
      (queues.set n []) :=
    { mirrors := h.mirrors.depart n
      reached := h.reached.next (h.roomy (Nat.le_of_lt hk)) (.depart hn')
      calm := h.calm.depart h.idle
      within := h.within.depart
      spent := h.spent.depart n
      heeded := h.heeded
      pending := h.pending }
  have huntold : (g.depart n).untold = (c.without n).nodeIds.map (·, n) := by
    show g.untold ++ (g.attached.erase n).keys.map (·, n) = _
    rw [hu, List.nil_append]
    exact congrArg (fun ns : NodeSet => ns.keys.map (·, n)) hdepart.mirrors.attached
  rw [kill_running hn]
  obtain ⟨g', queues', h', hu', ha⟩ := hdepart.tellAll hk (c.without n).nodeIds hdepart.idle huntold
    fun o ho => SortedSet.mem_toList.1 ho
  refine ⟨g', queues', h', hu', ?_⟩
  rw [← h'.mirrors.attached, ha, ← h.mirrors.attached]
  rfl

/-! ## An update and its result -/

/-- All updates have results, and everybody knows who has departed. -/
def Answered (w : Setting) (k : Nat) (c : Cluster) : Prop :=
  ∃ g queues, Course w k (fun _ _ => False) c g queues ∧ g.untold = []

/-- An update was submitted on `n`, under the handle `hd`, when all others had results. -/
def Awaits (w : Setting) (k : Nat) (n : NodeId) (hd : Handle) (c : Cluster) : Prop :=
  ∃ g queues, Course w k (fun o x => o = n ∧ x = hd) c g queues ∧ g.untold = [] ∧
    g.Submitted n hd

variable {hd : Handle} {u : Update}

theorem course_start (w : Setting) (chunkSize : Nat) :
    Course w 0 (fun _ _ => False) (start w.count w.config chunkSize w.processors) w.start
      fun _ => [] where
  mirrors := mirrors_start w.count w.config chunkSize w.processors
  reached := .init
  calm := Grid.calm_start
  within := by
    have hw : w.start.Within w.ids.length := Grid.within_start
    rwa [Setting.ids, List.length_map, List.length_range] at hw
  spent := ⟨fun _ => Nat.le_refl 1, fun _ => Nat.le_refl 0, Nat.le_refl 1⟩
  heeded _ _ _ hs := nomatch hs
  pending _ _ _ hs := nomatch hs

theorem answered_start (w : Setting) (chunkSize : Nat) :
    (start w.count w.config chunkSize w.processors).Answered w 0 :=
  ⟨w.start, fun _ => [], course_start w chunkSize, rfl⟩

theorem Course.result? (h : Course w k P c g queues) (hn : c.running.contains n = true)
    (hd : Handle) : c.result? n hd = (g.nodes n).result? hd := by
  rw [Cluster.result?, h.mirrors.node? hn, Option.bind_some]

theorem Answered.submit (h : c.Answered w k) (hk : k ≤ w.budget)
    (hn : c.running.contains n = true) (hu : u.StoresWithin w.size) :
    ∃ c' hd, c.submit n u = some (c', .ok hd) ∧ c'.Awaits w (k + 2) n hd ∧
      c'.running = c.running := by
  obtain ⟨g, queues, h, hnone⟩ := h
  obtain ⟨c', hd, g', queues', hsubmit, h', hg, hsub⟩ := h.submit hk hn hu
  refine ⟨c', hd, hsubmit, ⟨g', queues', ?_, hg.untold.trans hnone, hsub⟩, ?_⟩
  · exact { h' with pending := fun o => (h'.pending o).mono fun _ hp => hp.resolve_left not_false }
  · rw [← h'.mirrors.attached, hg.attached, h.mirrors.attached]

/-- When the result is there, nothing is under way. -/
theorem Awaits.answered (h : c.Awaits w k n hd) (hn : c.running.contains n = true)
    (hr : (c.result? n hd).isSome = true) : c.Answered w k := by
  obtain ⟨g, queues, h, hnone, -⟩ := h
  refine ⟨g, queues, { h with pending := fun o x sub hs => ?_ }, hnone⟩
  refine .inl ((h.pending o x sub hs).elim id ?_)
  rintro ⟨rfl, rfl⟩
  rw [h.result? hn, Node.isSome_result? (h.heeded o) hs] at hr
  exact hr

/-- When all is quiet the result is there. -/
theorem Awaits.isSome_result? (h : c.Awaits w k n hd) (hn : c.running.contains n = true)
    (hi : c.isIdle = true) : (c.result? n hd).isSome = true := by
  obtain ⟨g, queues, h, hnone, hsub⟩ := h
  obtain ⟨sub, hs⟩ := h.reached.known hsub
  rw [h.result? hn, Node.isSome_result? (h.heeded n) hs]
  exact h.isDone hi hnone hn hs

/-- Whoever waits for the result gets it, and then nothing is under way. -/
theorem Awaits.turnsUntil (h : c.Awaits w k n hd) (hk : k ≤ w.budget)
    (hn : c.running.contains n = true) :
    ∃ c' later?, Cluster.turnsUntil (·.result? n hd) c.workBound c = (c', later?) ∧
      c'.Answered w k ∧ c'.running = c.running ∧ (later?.or (c.result? n hd)).isSome = true := by
  obtain ⟨g, queues, h, hnone, t, ht, hsub⟩ := h
  have hbound : c.toil ≤ c.workBound := effort_le_workBound c
  obtain ⟨⟨g', queues', h', hg⟩, hend⟩ := h.turnsUntil hk (·.result? n hd) c.workBound hbound
  generalize hc' : Cluster.turnsUntil (·.result? n hd) c.workBound c = x at *
  obtain ⟨c', later?⟩ := x
  have hrunning : c'.running = c.running := by
    rw [← h'.mirrors.attached, hg.attached, h.mirrors.attached]
  have hn' : c'.running.contains n = true := hrunning ▸ hn
  have hawaits : c'.Awaits w k n hd :=
    ⟨g', queues', h', hg.untold.trans hnone, t, hg.log t ht, hsub⟩
  cases later? with
  | some r =>
    have hsign : c'.result? n hd = some r := by
      have := @sign_of_turnsUntil _ (·.result? n hd) r c.workBound c (by rw [hc'])
      rwa [hc'] at this
    exact ⟨c', some r, rfl, hawaits.answered hn' (hsign ▸ rfl), hrunning, rfl⟩
  | none =>
    -- the turns have ended without the result: all is quiet, so it was there from the start
    obtain ⟨hidle, hlast⟩ := hend rfl
    have hsome := hawaits.isSome_result? hn' hidle
    refine ⟨c', none, rfl, hawaits.answered hn' hsome, hrunning, ?_⟩
    rcases hlast with rfl | hlast
    · exact hsome
    · dsimp only at hlast
      rw [hlast] at hsome
      cases hsome

theorem Answered.kill (h : c.Answered w k) (hk : k < w.budget) (n : NodeId) :
    (∃ k', k' ≤ k + 1 ∧ (c.kill n).1.Answered w k') ∧
      ∀ o, (c.kill n).1.running.contains o = true ↔ o ≠ n ∧ c.running.contains o = true := by
  cases hn : c.running.contains n with
  | true =>
    obtain ⟨g, queues, h, hnone⟩ := h
    obtain ⟨g', queues', h', hnone', hrunning⟩ := h.kill hk hnone hn
    refine ⟨⟨k + 1, Nat.le_refl _, g', queues', h', hnone'⟩, fun o => ?_⟩
    rw [hrunning, SortedSet.contains_erase]
  | false =>
    have hsame : (c.kill n).1 = c := congrArg Prod.fst (kill_gone hn)
    rw [hsame]
    refine ⟨⟨k, Nat.le_succ k, h⟩, fun o => ⟨fun ho => ⟨?_, ho⟩, And.right⟩⟩
    rintro rfl
    exact Bool.noConfusion (hn.symm.trans ho)

end Cluster

end AtomicGrid
