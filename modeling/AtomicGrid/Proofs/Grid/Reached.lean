import AtomicGrid.Proofs.Node.Turns

/-!
# The grids a run can reach

A run goes from grid to grid by moves, departures, exchanges, and news of departures that are dealt
with.  An invariant is proved of these steps one by one; what is proved of all reachable grids holds
of all that runs lead to.

Counters are words that could overflow after 2^64 events.  A step starts from a grid whose counters
have room, and every run of fewer events passes through such grids only.

## Results

* `Grid.Reached.framed`: what no step changes.
* `Grid.Reached.counted`: numbers are given once.
-/

set_option autoImplicit false

namespace AtomicGrid

/-- The site of a node, where all have one configuration. -/
def siteOf (config : Config) (n : NodeId) : Site := .ofConfig { config with nodeId := n.id }

namespace Moment

def number (t : Moment) : FutureId := t.before.nextFuture

/-- A coordinator starts. -/
def Allots (t : Moment) : Prop := t.after.nextFuture = t.before.nextFuture + 1

end Moment

namespace Grid

/-- No counter is about to overflow. -/
structure Roomy (g : Grid) : Prop where
  futures : ∀ n, (g.nodes n).nextFuture.toNat + 1 < UInt64.size
  handles : ∀ n, (g.nodes n).versions.issued.toNat + 1 < UInt64.size
  versions : g.topology.version.major.toNat + 1 < UInt64.size

/-- The occasion for a move of a node, with the grid as it takes it up. -/
inductive Occasion (g : Grid) (n : NodeId) : Move → Grid → Prop
  | submit (hn : g.attached.contains n = true) (u : Update) : Occasion g n (.submit u) g
  | receive (hn : g.attached.contains n = true) {s : NodeId} {m : Message} {ms : List Message}
      (hl : g.links s n = m :: ms) : Occasion g n (.receive s m) (g.setLink s n ms)
  | resume {i : Nat} {w : Wait} {awaited : Except CacheError TopologyVersion}
      (hi : g.tasks[i]? = some (n, w)) (ha : g.topology.awaited w.version = some awaited) :
      Occasion g n (.resume w.task awaited) { g with tasks := g.tasks.eraseIdx i }
  | lose (hn : g.attached.contains n = true) {gone : NodeId} (hu : (n, gone) ∈ g.untold)
      {r : FutureId × Registered} (hr : r ∈ (g.nodes n).registry.entries) :
      Occasion g n (.lose gone r) g
  | watch (key : Key) (reader : NodeId) : Occasion g n (.watch key reader) g
  | refuse (key : Key) (cause : Option FailureCause) : Occasion g n (.refuse key cause) g

inductive Next (g : Grid) : Grid → Prop
  | act {n : NodeId} {move : Move} {g₀ : Grid} (ho : Occasion g n move g₀) :
      Next g (g₀.act n move)
  | depart {n : NodeId} (hn : g.attached.contains n = true) : Next g (g.depart n)
  /-- All coordinators of a node have heard of a departure. -/
  | told {i : Nat} {n gone : NodeId} (hi : g.untold[i]? = some (n, gone))
      (ht : g.attached.contains n = true → ∀ r ∈ (g.nodes n).registry.entries,
        ∃ t ∈ g.log, t.node = n ∧ t.move = .lose gone r) :
      Next g { g with untold := g.untold.eraseIdx i }
  | exchange (members : List NodeId) :
      Next g { g with topology := g.topology.beginExchange members }
  | settle : Next g { g with topology := g.topology.completeExchange }

inductive Reached (g₀ : Grid) : Grid → Prop
  | init : Reached g₀ g₀
  | next {g g' : Grid} (h : Reached g₀ g) (hr : g.Roomy) (hn : Next g g') : Reached g₀ g'

/-- What an occasion leaves alone. -/
structure SameButQueues (g g₀ : Grid) : Prop where
  topology : g₀.topology = g.topology
  affinity : g₀.affinity = g.affinity
  attached : g₀.attached = g.attached
  nodes : g₀.nodes = g.nodes
  untold : g₀.untold = g.untold
  log : g₀.log = g.log

variable {g g₀ : Grid} {n : NodeId} {move : Move}

theorem Occasion.same (h : Occasion g n move g₀) : SameButQueues g g₀ := by
  cases h <;> exact ⟨rfl, rfl, rfl, rfl, rfl, rfl⟩

theorem SameButQueues.moment (h : SameButQueues g g₀) (n : NodeId) (move : Move) :
    g₀.moment n move = g.moment n move := by
  simp only [Grid.moment, view, h.topology, h.affinity, h.attached, h.nodes]

/-! ## What no step changes -/

/-- What a moment has in common with all others. -/
structure Common (config : Config) (affinity : Affinity) (processors : Processors)
    (g : Grid) (t : Moment) : Prop where
  site : t.before.site = siteOf config t.node
  processors_eq : t.before.processors = processors
  affinity_eq : t.view.affinity = affinity
  running : t.view.topology.stopping = false
  nearCache : t.before.nearCache.isSome = config.atomic.nearCache
  /-- Who is attached was so at the time, and messages got through. -/
  refusal : ∃ attached : NodeSet, t.view.refusal = AtomicGrid.refusal attached t.node ∧
    ∀ o, g.attached.contains o = true → attached.contains o = true

/-- What all grids of a run have in common. -/
structure Framed (config : Config) (affinity : Affinity) (processors : Processors)
    (g : Grid) : Prop where
  site : ∀ n, (g.nodes n).site = siteOf config n
  processors_eq : ∀ n, (g.nodes n).processors = processors
  affinity_eq : g.affinity = affinity
  running : g.topology.stopping = false
  nearCache : ∀ n, (g.nodes n).nearCache.isSome = config.atomic.nearCache
  common : ∀ t ∈ g.log, Common config affinity processors g t

end Grid

theorem Node.site_move (view : View) (n : Node) (move : Move) :
    (n.move view move).1.site = n.site ∧ (n.move view move).1.processors = n.processors := by
  have ht : n.Turn view move (n.move view move) := Node.turn_move move
  cases ht with
  | submission ht ha => exact ⟨ha.site, ha.processors⟩
  | carried hm hc ha => exact ⟨ha.site, ha.processors⟩
  | acknowledged hk ha => exact ⟨ha.site, ha.processors⟩
  | plain ht ha => exact ⟨ha.site, ha.processors⟩

theorem Node.nearCache_move (view : View) (n : Node) (move : Move) :
    (n.move view move).1.nearCache.isSome = n.nearCache.isSome := by
  have ht : n.Turn view move (n.move view move) := Node.turn_move move
  cases ht with
  | submission ht ha => exact ha.nearCache
  | carried hm hc ha => rw [ha.nearCache]
  | acknowledged hk ha => rw [ha.nearCache]
  | plain ht ha => exact ha.nearCache

theorem Node.nearCache_ofConfig (c : Config) (processors : Processors) :
    (Node.ofConfig c processors).nearCache.isSome = c.atomic.nearCache := by
  unfold ofConfig
  cases c.atomic.nearCache <;> rfl

namespace Grid

section

variable (g : Grid) (n : NodeId) (move : Move)

@[simp] theorem topology_act : (g.act n move).topology = g.topology := rfl

@[simp] theorem affinity_act : (g.act n move).affinity = g.affinity := rfl

@[simp] theorem attached_act : (g.act n move).attached = g.attached := rfl

@[simp] theorem untold_act : (g.act n move).untold = g.untold := rfl

@[simp] theorem log_act : (g.act n move).log = g.moment n move :: g.log := rfl

theorem nodes_act (m : NodeId) : (g.act n move).nodes m =
    if m = n then (g.moment n move).after else g.nodes m := by
  simp [act, Function.update_apply]

theorem tasks_act : (g.act n move).tasks = g.tasks ++ (g.moment n move).waits.map (n, ·) := rfl

theorem links_act (s r : NodeId) : (g.act n move).links s r =
    if s = n then g.links s r ++ (g.moment n move).sentTo r else g.links s r := rfl

end

variable {config : Config} {affinity : Affinity} {processors : Processors} {ids : List NodeId}
  {g g₀ : Grid} {n : NodeId} {move : Move}

theorem SameButQueues.log_act (h : SameButQueues g g₀) :
    (g₀.act n move).log = g.moment n move :: g.log := by
  rw [Grid.log_act, h.moment, h.log]

theorem SameButQueues.mem_log_act (h : SameButQueues g g₀) :
    g.moment n move ∈ (g₀.act n move).log :=
  h.log_act ▸ List.mem_cons_self

theorem SameButQueues.nodes_act (h : SameButQueues g g₀) (m : NodeId) :
    (g₀.act n move).nodes m = if m = n then (g.moment n move).after else g.nodes m := by
  rw [Grid.nodes_act, h.moment, h.nodes]

theorem Common.mono {g' : Grid} {t : Moment} (h : Common config affinity processors g t)
    (hs : ∀ o, g'.attached.contains o = true → g.attached.contains o = true) :
    Common config affinity processors g' t := by
  obtain ⟨attached, ha, hsub⟩ := h.refusal
  exact { h with refusal := ⟨attached, ha, fun o ho => hsub o (hs o ho)⟩ }

theorem Framed.of_topology (h : Framed config affinity processors g) {t : Topology}
    (hs : t.stopping = false) : Framed config affinity processors { g with topology := t } where
  site := h.site
  processors_eq := h.processors_eq
  affinity_eq := h.affinity_eq
  running := hs
  nearCache := h.nearCache
  common t ht := (h.common t ht).mono fun _ ho => ho

theorem Framed.act (h : Framed config affinity processors g) (hs : SameButQueues g g₀) :
    Framed config affinity processors (g₀.act n move) := by
  have hnew : Common config affinity processors (g₀.act n move) (g.moment n move) := {
    site := h.site n
    processors_eq := h.processors_eq n
    affinity_eq := h.affinity_eq
    running := h.running
    nearCache := h.nearCache n
    refusal := ⟨g.attached, rfl, fun o ho => by rwa [attached_act, hs.attached] at ho⟩ }
  exact {
    site := fun m => by
      rw [hs.nodes_act]
      split
      next he => rw [he]; exact (Node.site_move _ _ _).1.trans (h.site n)
      next => exact h.site m
    processors_eq := fun m => by
      rw [hs.nodes_act]
      split
      next he => exact (Node.site_move _ _ _).2.trans (h.processors_eq n)
      next => exact h.processors_eq m
    affinity_eq := hs.affinity.trans h.affinity_eq
    running := by rw [topology_act, hs.topology, h.running]
    nearCache := fun m => by
      rw [hs.nodes_act]
      split
      next => exact (Node.nearCache_move _ _ _).trans (h.nearCache n)
      next => exact h.nearCache m
    common := fun t ht => by
      rw [hs.log_act] at ht
      rcases List.mem_cons.1 ht with rfl | ht
      · exact hnew
      · exact (h.common t ht).mono fun o ho => by rwa [attached_act, hs.attached] at ho }

theorem framed_start : Framed config affinity processors (start ids config affinity processors) where
  site _ := rfl
  processors_eq _ := rfl
  affinity_eq := rfl
  running := rfl
  nearCache _ := Node.nearCache_ofConfig _ _
  common t ht := by cases ht

theorem Framed.next {g' : Grid} (h : Framed config affinity processors g) (hn : Next g g') :
    Framed config affinity processors g' := by
  cases hn with
  | act ho => exact h.act ho.same
  | depart hn =>
    exact {
      site := h.site
      processors_eq := h.processors_eq
      affinity_eq := h.affinity_eq
      running := h.running
      nearCache := h.nearCache
      common := fun t ht => (h.common t ht).mono fun o ho => (SortedSet.contains_erase.1 ho).2 }
  | told hi ht =>
    exact ⟨h.site, h.processors_eq, h.affinity_eq, h.running, h.nearCache,
      fun t ht => (h.common t ht).mono fun _ ho => ho⟩
  | exchange members => exact h.of_topology h.running
  | settle => exact h.of_topology h.running

theorem Reached.framed (h : Reached (start ids config affinity processors) g) :
    Framed config affinity processors g := by
  induction h with
  | init => exact framed_start
  | next _ _ hn ih => exact ih.next hn

/-! ## Numbers -/

structure Counted (g : Grid) : Prop where
  allots : ∀ t ∈ g.log, t.Allots → t.number < (g.nodes t.node).nextFuture
  unique : ∀ t ∈ g.log, ∀ t' ∈ g.log, t.node = t'.node → t.Allots → t'.Allots →
    t.number = t'.number → t = t'

end Grid

theorem Node.nextFuture_move (view : View) (n : Node) (move : Move) :
    (n.move view move).1.nextFuture = n.nextFuture ∨
      (n.move view move).1.nextFuture = n.nextFuture + 1 := by
  have ht : n.Turn view move (n.move view move) := Node.turn_move move
  cases ht with
  | submission ht ha =>
    rw [ha.nextFuture]
    split
    next => exact .inr rfl
    next => exact .inl rfl
  | carried hm hc ha hn => exact .inr hn
  | acknowledged hk ha hn => exact .inl hn
  | plain ht ha => exact .inl ha.nextFuture

namespace Grid

variable {config : Config} {affinity : Affinity} {processors : Processors} {ids : List NodeId}
  {g g₀ : Grid} {n : NodeId} {move : Move}

theorem nextFuture_act (hr : g.Roomy) (hs : SameButQueues g g₀) {f : FutureId} (m : NodeId)
    (h : f < (g.nodes m).nextFuture) : f < ((g₀.act n move).nodes m).nextFuture := by
  rw [hs.nodes_act]
  split
  next he =>
    subst he
    rcases Node.nextFuture_move (g.view m) (g.nodes m) move with hn | hn
    · exact hn ▸ h
    · show f < ((g.nodes m).move (g.view m) move).1.nextFuture
      rw [hn]
      exact UInt64.lt_trans h (lt_add_one_of_room (hr.futures m))
  next => exact h

theorem Counted.act (h : g.Counted) (hr : g.Roomy) (hs : SameButQueues g g₀) :
    (g₀.act n move).Counted := by
  have hm := hs.moment n move
  have hlog : (g₀.act n move).log = g.moment n move :: g.log := hs.log_act
  -- a coordinator who starts now gets a number that was not given before
  have hfresh : ∀ t ∈ g.log, t.node = n → t.Allots → t.number ≠ (g.moment n move).number := by
    rintro t ht rfl ha he
    exact absurd (h.allots t ht ha) (he ▸ UInt64.lt_irrefl _)
  refine ⟨fun t ht ha => ?_, fun t ht t' ht' hn ha ha' he => ?_⟩
  · rw [hlog] at ht
    rcases List.mem_cons.1 ht with rfl | ht
    · have : ((g₀.act n move).nodes n).nextFuture = (g.moment n move).number + 1 := by
        rw [nodes_act, if_pos rfl, hm]
        exact ha
      show _ < ((g₀.act n move).nodes n).nextFuture
      rw [this]
      exact lt_add_one_of_room (hr.futures n)
    · exact nextFuture_act hr hs _ (h.allots t ht ha)
  · rw [hlog] at ht ht'
    rcases List.mem_cons.1 ht with rfl | ht
    · rcases List.mem_cons.1 ht' with rfl | ht'
      · rfl
      · exact absurd he.symm (hfresh t' ht' hn.symm ha')
    · rcases List.mem_cons.1 ht' with rfl | ht'
      · exact absurd he (hfresh t ht hn ha)
      · exact h.unique t ht t' ht' hn ha ha' he

theorem Reached.counted (h : Reached (start ids config affinity processors) g) : g.Counted := by
  induction h with
  | init =>
    exact ⟨fun t ht => (nomatch ht), fun t ht => (nomatch ht)⟩
  | next _ hr hn ih =>
    cases hn with
    | act ho => exact ih.act hr ho.same
    | depart hn => exact ⟨ih.allots, ih.unique⟩
    | told hi ht => exact ⟨ih.allots, ih.unique⟩
    | exchange members => exact ⟨ih.allots, ih.unique⟩
    | settle => exact ⟨ih.allots, ih.unique⟩

end Grid

end AtomicGrid
