import AtomicGrid.Proofs.Grid.Applied

/-!
# Replicas

As long as the nodes stay the same, every owner of a key hears of what the primary applies, in this
order.  The primary holds what came last, and a backup the newest of all, so the two agree if every
update is newer than those before it.  But versions are given by the nodes that submit updates, and
the primary takes updates as they come: after an update of a node that has submitted more, one of a
node that has submitted less changes the primary and none of its backups.

## Results

* `Grid.Stays.replicated`: what the owners of a key hold and what is on its way to them.
* `Grid.held_of_silent`: what they hold once nothing is on its way.
* `Grid.held_threeThenOne`: a run after which primary and backup hold different values.
-/

set_option autoImplicit false

namespace AtomicGrid

/-! ## Runs with the same nodes -/

/-- The event changes neither the nodes nor the topology. -/
def Event.stays : Event → Bool
  | .depart _ => false
  | .exchange _ => false
  | .settle => false
  | _ => true

namespace Grid

variable {config : Config} {affinity : Affinity} {processors : Processors} {ids : List NodeId}
  {g g₀ : Grid} {n p o : NodeId} {move : Move} {key : Key}

/-- The grids that moves alone lead to. -/
inductive Stays (start : Grid) : Grid → Prop
  | init : Stays start start
  | act {g g₀ : Grid} {n : NodeId} {move : Move} (h : Stays start g) (hr : g.Roomy)
      (ho : Occasion g n move g₀) : Stays start (g₀.act n move)

theorem Stays.reached {start : Grid} (h : Stays start g) : Reached start g := by
  induction h with
  | init => exact .init
  | act h hr ho ih => exact .next ih hr (.act ho)

/-- What moves alone do not change. -/
structure Unmoved (start g : Grid) : Prop where
  topology : g.topology = start.topology
  affinity : g.affinity = start.affinity
  attached : g.attached = start.attached
  untold : g.untold = start.untold
  views : ∀ t ∈ g.log, t ∉ start.log → t.view = start.view t.node

theorem Unmoved.view {start : Grid} (h : Unmoved start g) (n : NodeId) :
    g.view n = start.view n := by
  unfold Grid.view
  rw [h.topology, h.affinity, h.attached]

theorem Stays.unmoved {start : Grid} (h : Stays start g) : Unmoved start g := by
  induction h with
  | init => exact ⟨rfl, rfl, rfl, rfl, fun t ht hnew => absurd ht hnew⟩
  | @act g g₀ n move h hr ho ih =>
    have hs := ho.same
    refine ⟨hs.topology.trans ih.topology, hs.affinity.trans ih.affinity,
      hs.attached.trans ih.attached, hs.untold.trans ih.untold, ?_⟩
    intro t ht hnew
    rw [hs.log_act] at ht
    rcases List.mem_cons.1 ht with rfl | ht
    · exact ih.view n
    · exact ih.views t ht hnew

/-- An event that changes neither nodes nor topology is a move, or nothing. -/
theorem step_of_stays (hu : g.untold = []) {e : Event} (he : e.stays = true) :
    g.step e = g ∨ ∃ n move g₀, Occasion g n move g₀ ∧ g.step e = g₀.act n move := by
  cases e with
  | submit n u =>
    simp only [step]
    split
    next hn => exact .inr ⟨_, _, _, .submit hn u, rfl⟩
    next => exact .inl rfl
  | deliver s r =>
    simp only [step]
    split
    next m ms hl =>
      split
      next hn => exact .inr ⟨_, _, _, .receive hn hl, rfl⟩
      next => exact .inl rfl
    next => exact .inl rfl
  | resume i =>
    simp only [step]
    split
    next n w hi =>
      split
      next awaited ha => exact .inr ⟨_, _, _, .resume hi ha, rfl⟩
      next => exact .inl rfl
    next => exact .inl rfl
  | tell i =>
    simp only [step, hu]
    exact .inl rfl
  | depart n => cases he
  | exchange members => cases he
  | settle => cases he
  | watch n k reader => exact .inr ⟨_, _, _, .watch k reader, rfl⟩
  | refuse n k cause => exact .inr ⟨_, _, _, .refuse k cause, rfl⟩

/-- A run of events that change neither nodes nor topology goes by moves alone. -/
theorem stays_run {es : List Event} (hlen : es.length + 1 < UInt64.size)
    (hes : ∀ e ∈ es, e.stays = true) :
    Stays (start ids config affinity processors)
      ((start ids config affinity processors).run es) := by
  induction es using List.reverseRecOn with
  | nil => exact .init
  | append_singleton es e ih =>
    rw [List.length_append, List.length_singleton] at hlen
    have h := ih (by omega) fun e' he' => hes e' (List.mem_append_left _ he')
    have hroom : ((start ids config affinity processors).run es).Roomy :=
      (bounded_run (by omega)).2.roomy (by omega)
    have he : e.stays = true := hes e (List.mem_append_right _ (List.mem_singleton_self e))
    rw [run, List.foldl_append]
    show Stays _ (((start ids config affinity processors).run es).step e)
    rcases step_of_stays h.unmoved.untold he with hsame | ⟨n, move, g₀, ho, hact⟩
    · rw [hsame]
      exact h
    · rw [hact]
      exact .act h hroom ho

/-- While the nodes stay the same, everything was mapped on the topology there is. -/
theorem Stays.timely (h : Stays (start ids config affinity processors) g) :
    ∀ t ∈ g.log, t.Timely := by
  intro t ht s q hb
  have hview (t : Moment) (ht : t ∈ g.log) : t.view.topology = .start ids := by
    rw [h.unmoved.views t ht (fun hmem => nomatch hmem)]
    rfl
  obtain ⟨t₀, ht₀, -, c, -, -, rfl⟩ := h.reached.brought ht hb
  rw [hview t ht, ← hview t₀ ht₀]
  rfl

/-! ## What the owners hold -/

/-- What was applied to a key, in order. -/
def writes (g : Grid) (key : Key) : List Write := g.log.reverse.filterMap (·.write? key)

/-- The writes of a key on their way. -/
def pending (g : Grid) (s r : NodeId) (key : Key) : List Write :=
  (g.links s r).flatMap (·.writes key)

/-- What the owners of a key hold: the primary `p` what was applied last, and a backup what comes of
all that was applied, once it has heard what is on its way. -/
structure Replicated (g : Grid) (key : Key) (p : NodeId) (owners : List NodeId) : Prop where
  primary : (g.nodes p).store.held key = (g.writes key).getLast?
  backups : ∀ o ∈ owners, o ≠ p →
    (g.pending p o key).foldl Write.replay ((g.nodes o).store.held key) =
      (g.writes key).foldl Write.replay none

theorem writes_act (g : Grid) (n : NodeId) (move : Move) (key : Key) :
    (g.act n move).writes key = g.writes key ++ ((g.moment n move).write? key).toList := by
  unfold writes
  rw [log_act, List.reverse_cons, List.filterMap_append]
  congr 1

theorem pending_act (g : Grid) (n : NodeId) (move : Move) (s r : NodeId) (key : Key) :
    (g.act n move).pending s r key =
      if s = n then g.pending s r key ++ (g.moment n move).told r key else g.pending s r key := by
  unfold pending
  rw [links_act]
  split
  · rw [List.flatMap_append]
    rfl
  · rfl

/-- Backups are told by the primary of the key, and by nobody else. -/
theorem Stays.primary_of_sent (h : Stays (start ids config affinity processors) g) {s r : NodeId}
    {b : BackupRequest} (hs : g.Sent s r (.backupRequest b)) (hb : b.writes key ≠ []) :
    affinity.primary (.start ids) key ⟨1, 0⟩ = some s ∧ r ≠ s := by
  cases h.reached.origin hs with
  | @backup t near q rec ht hn hco hr hv =>
    subst hn
    obtain ⟨w, hw⟩ := List.exists_mem_of_ne_nil _ hb
    have hc := h.reached.regular t ht
    obtain ⟨hw, -, hne⟩ := (Moment.handsOn_prepared hc hco r key w).1 ⟨rec, hr, hw⟩
    have hp := Moment.primary_of_write? hc hw
    rw [h.unmoved.views t ht (fun hmem => nomatch hmem)] at hp
    exact ⟨hp, hne⟩

theorem Occasion.links_received {s : NodeId} {m : Message}
    (h : Occasion g n (.receive s m) g₀) : g.links s n = m :: g₀.links s n := by
  cases h with
  | receive hn hl => simp [setLink, hl]

/-- A move that tells of writes of a key brings a message of the primary. -/
theorem Stays.primary_of_move (h : Stays (start ids config affinity processors) g)
    (ho : Occasion g n move g₀) (hw : move.writes key ≠ []) :
    ∃ s m, move = .receive s m ∧ affinity.primary (.start ids) key ⟨1, 0⟩ = some s ∧ n ≠ s := by
  unfold Move.writes at hw
  split at hw
  next s m =>
    unfold Message.writes at hw
    split at hw
    next b =>
      obtain ⟨hp, hne⟩ := h.primary_of_sent (h.reached.linked.sent s n _ ho.received) hw
      exact ⟨s, _, rfl, hp, hne⟩
    next => exact absurd rfl hw
  next => exact absurd rfl hw

/-- What the move `t` of the node `n` makes of the writes of a key whose primary is `p`. -/
structure Advances (g g' : Grid) (n : NodeId) (t : Moment) (key : Key) (p : NodeId) : Prop where
  regular : t.Regular
  timely : t.Timely
  writes : g'.writes key = g.writes key ++ (t.write? key).toList
  /-- The primary alone applies anything. -/
  sole : n ≠ p → t.write? key = none
  nodes : ∀ m, g'.nodes m = if m = n then t.after else g.nodes m
  held : t.after.store.held key = (t.move.writes key).foldl Write.replay
    ((t.write? key).or ((g.nodes n).store.held key))

theorem Stays.advances (h : Stays (start ids config affinity processors) g) (hr : g.Roomy)
    (ho : Occasion g n move g₀) (hp : affinity.primary (.start ids) key ⟨1, 0⟩ = some p) :
    Advances g (g₀.act n move) n (g.moment n move) key p := by
  have h' := h.act hr ho
  have hs := ho.same
  have hm := hs.moment n move
  have ht : g.moment n move ∈ (g₀.act n move).log := hs.mem_log_act
  have hc := h'.reached.regular _ ht
  constructor
  · exact hc
  · exact h'.timely _ ht
  · rw [writes_act, hm]
    unfold writes
    rw [hs.log]
  · intro hne
    rw [Option.eq_none_iff_forall_ne_some]
    intro w hw
    have hprim := Moment.primary_of_write? hc hw
    rw [h'.unmoved.views _ ht (fun hmem => nomatch hmem)] at hprim
    exact hne (Option.some_inj.1 (hprim.symm.trans hp))
  · intro m
    rw [hs.nodes_act]
  · exact Moment.held_after hc key

/-- The primary holds what it has applied last, after one more move. -/
theorem Stays.primary_act (h : Stays (start ids config affinity processors) g)
    (ho : Occasion g n move g₀) (hp : affinity.primary (.start ids) key ⟨1, 0⟩ = some p)
    (ha : Advances g (g₀.act n move) n (g.moment n move) key p)
    (ih : (g.nodes p).store.held key = (g.writes key).getLast?) :
    ((g₀.act n move).nodes p).store.held key = ((g₀.act n move).writes key).getLast? := by
  rw [ha.nodes, ha.writes]
  by_cases hn : p = n
  · have hnil : (g.moment n move).move.writes key = [] := by
      by_contra hne
      obtain ⟨s, m, -, hps, hns⟩ := h.primary_of_move ho hne
      rw [hp, Option.some_inj] at hps
      exact hns (hn.symm.trans hps)
    rw [if_pos hn, ha.held, hnil, ← hn, ih]
    cases (g.moment p move).write? key with
    | none => simp
    | some w => simp
  · rw [if_neg hn, ha.sole (Ne.symm hn), ih]
    simp

/-- What is on its way to a backup makes it hold what comes of all that was applied, after one more
move. -/
theorem Stays.backup_act (h : Stays (start ids config affinity processors) g)
    (ho : Occasion g n move g₀) (hp : affinity.primary (.start ids) key ⟨1, 0⟩ = some p)
    (hmem : ∀ o ∈ affinity.keyOwners (.start ids) key ⟨1, 0⟩,
      (SortedSet.ofList ids).contains o = true)
    (ha : Advances g (g₀.act n move) n (g.moment n move) key p)
    (hown : o ∈ affinity.keyOwners (.start ids) key ⟨1, 0⟩) (hop : o ≠ p)
    (ih : (g.pending p o key).foldl Write.replay ((g.nodes o).store.held key) =
      (g.writes key).foldl Write.replay none) :
    ((g₀.act n move).pending p o key).foldl Write.replay
        (((g₀.act n move).nodes o).store.held key) =
      ((g₀.act n move).writes key).foldl Write.replay none := by
  have hkept (hl : ¬ ∃ m, move = .receive p m ∧ o = n) :
      g₀.pending p o key = g.pending p o key := by
    unfold pending
    rcases ho.links p o with he | ⟨hon, m, hmove, -⟩
    · rw [he]
    · exact absurd ⟨m, hmove, hon⟩ hl
  rw [ha.nodes, ha.writes, List.foldl_append, pending_act, ho.same.moment]
  by_cases hn : p = n
  · -- the primary moves: it tells its backups of what it applies
    have hon : o ≠ n := fun he => hop (he.trans hn.symm)
    have hview : (g.moment n move).view = (start ids config affinity processors).view n :=
      h.unmoved.view n
    have hpown : p ∈ affinity.keyOwners (.start ids) key ⟨1, 0⟩ := List.mem_of_head? hp
    have hv : (g.moment n move).view.reaches o = true := by
      rw [hview]
      exact reaches_view.2 ⟨hn ▸ hmem p hpown, hmem o hown⟩
    have hown' : o ∈ (g.moment n move).view.owners key (g.moment n move).view.topology.version := by
      rw [hview]
      exact hown
    rw [if_pos hn, if_neg hon, hkept (fun ⟨m, _, he⟩ => hon he), List.foldl_append, ih]
    exact Moment.replay_told ha.regular ha.timely hv hown' hon _
  · rw [if_neg hn, ha.sole (Ne.symm hn), Option.toList_none, List.foldl_nil, ← ih]
    by_cases hon : o = n
    · subst hon
      rw [if_pos rfl, ha.held, ha.sole (Ne.symm hn), Option.none_or]
      by_cases hmv : ∃ m, move = .receive p m
      · -- the backup hears of what was on its way the longest
        obtain ⟨m, rfl⟩ := hmv
        have hl : g.pending p o key = m.writes key ++ g₀.pending p o key := by
          unfold pending
          rw [ho.links_received]
          rfl
        rw [hl, List.foldl_append]
        rfl
      · have hnil : (g.moment o move).move.writes key = [] := by
          by_contra hne
          obtain ⟨s, m, hmove, hps, -⟩ := h.primary_of_move ho hne
          rw [hp, Option.some_inj] at hps
          exact hmv ⟨m, hps ▸ hmove⟩
        rw [hnil, hkept (fun ⟨m, hmove, _⟩ => hmv ⟨m, hmove⟩)]
        rfl
    · rw [if_neg hon, hkept (fun ⟨m, _, he⟩ => hon he)]

/-- What the owners of a key hold and what is on its way to them, while the nodes stay the same. -/
theorem Stays.replicated (h : Stays (start ids config affinity processors) g)
    (hp : affinity.primary (.start ids) key ⟨1, 0⟩ = some p)
    (hmem : ∀ o ∈ affinity.keyOwners (.start ids) key ⟨1, 0⟩,
      (SortedSet.ofList ids).contains o = true) :
    g.Replicated key p (affinity.keyOwners (.start ids) key ⟨1, 0⟩) := by
  induction h with
  | init => exact ⟨rfl, fun _ _ _ => rfl⟩
  | act h hr ho ih =>
    have ha := h.advances hr ho hp
    constructor
    · exact h.primary_act ho hp ha ih.primary
    · intro o hown hop
      exact h.backup_act ho hp hmem ha hown hop (ih.backups o hown hop)

/-- While the nodes stay the same, and once nothing is on its way to the backups, the primary of a
key holds what it has applied last, and a backup the first of the newest of all that the primary has
applied.  So they agree if what was applied was ever newer. -/
theorem held_of_silent {es : List Event} (hlen : es.length + 1 < UInt64.size)
    (hes : ∀ e ∈ es, e.stays = true) {backups : List NodeId}
    (howners : affinity.keyOwners (.start ids) key ⟨1, 0⟩ = p :: backups)
    (hmem : ∀ o ∈ p :: backups, (SortedSet.ofList ids).contains o = true)
    (hsilent : ∀ o ∈ backups, ((start ids config affinity processors).run es).links p o = []) :
    let g := (start ids config affinity processors).run es
    (g.nodes p).store.held key = (g.writes key).getLast? ∧
      (∀ o ∈ backups, o ≠ p →
        (g.nodes o).store.held key = (g.writes key).foldl Write.replay none) ∧
      ((g.writes key).Pairwise (·.version < ·.version) → ∀ o ∈ p :: backups,
        (g.nodes o).store.held key = (g.nodes p).store.held key) := by
  intro g
  have hp : affinity.primary (.start ids) key ⟨1, 0⟩ = some p := by
    rw [Affinity.primary, howners]
    rfl
  have hrep : g.Replicated key p (p :: backups) :=
    howners ▸ (stays_run hlen hes).replicated hp (howners.symm ▸ hmem)
  have hbackup : ∀ o ∈ backups, o ≠ p →
      (g.nodes o).store.held key = (g.writes key).foldl Write.replay none := by
    intro o ho hop
    rw [← hrep.backups o (List.mem_cons_of_mem p ho) hop, pending, hsilent o ho]
    rfl
  refine ⟨hrep.primary, hbackup, ?_⟩
  intro hrising o ho
  by_cases hop : o = p
  · rw [hop]
  · rcases List.mem_cons.1 ho with he | ho
    · exact absurd he hop
    · rw [hbackup o ho hop, hrep.primary]
      exact Write.replay_rising hrising

/-- Three nodes of which two own a key. -/
def threeNodes : Grid :=
  start [⟨1⟩, ⟨2⟩, ⟨3⟩] { nodeId := 0 } (.ranked 8 1) Processor.standard

/-- Node 1 puts "a".  Node 2 applies it and tells node 3. -/
def putByOne : List Event :=
  [.submit ⟨1⟩ (.put [1] [97]), .deliver ⟨1⟩ ⟨2⟩, .deliver ⟨2⟩ ⟨3⟩, .deliver ⟨3⟩ ⟨2⟩,
    .deliver ⟨2⟩ ⟨1⟩]

/-- Node 3 puts "b".  Node 2 applies it and tells node 3. -/
def putByThree : List Event :=
  [.submit ⟨3⟩ (.put [1] [98]), .deliver ⟨3⟩ ⟨2⟩, .deliver ⟨2⟩ ⟨3⟩, .deliver ⟨3⟩ ⟨2⟩,
    .deliver ⟨2⟩ ⟨3⟩]

theorem held_oneThenThree :
    ((threeNodes.run (putByOne ++ putByThree)).nodes ⟨3⟩).store.held [1] =
      ((threeNodes.run (putByOne ++ putByThree)).nodes ⟨2⟩).store.held [1] := by
  have hrising : ((threeNodes.run (putByOne ++ putByThree)).writes [1]).Pairwise
      (·.version < ·.version) := by decide +kernel
  have howners : (Affinity.ranked 8 1).keyOwners (.start [⟨1⟩, ⟨2⟩, ⟨3⟩]) [1] ⟨1, 0⟩ =
      [⟨2⟩, ⟨3⟩] := by decide +kernel
  have hsilent : ∀ o ∈ [⟨3⟩], (threeNodes.run (putByOne ++ putByThree)).links ⟨2⟩ o = [] := by
    decide +kernel
  unfold threeNodes at hrising hsilent ⊢
  obtain ⟨-, -, hagree⟩ := held_of_silent (by decide) (by decide) howners (by decide) hsilent
  exact hagree hrising ⟨3⟩ (by decide)

/-- Node 1 puts its value after the one of node 3, under a lesser version: node 2 ends up with the
one, and node 3 with the other. -/
theorem held_threeThenOne :
    (∀ s ∈ threeNodes.attached.keys, ∀ r ∈ threeNodes.attached.keys,
      (threeNodes.run (putByThree ++ putByOne)).links s r = []) ∧
      ((threeNodes.run (putByThree ++ putByOne)).nodes ⟨3⟩).result? 1 =
        some (.ok (.success true)) ∧
      ((threeNodes.run (putByThree ++ putByOne)).nodes ⟨1⟩).result? 1 =
        some (.ok (.success true)) ∧
      threeNodes.affinity.keyOwners threeNodes.topology [1] ⟨1, 0⟩ = [⟨2⟩, ⟨3⟩] ∧
      ((threeNodes.run (putByThree ++ putByOne)).nodes ⟨2⟩).store.held [1] =
        some ⟨⟨1, 1, 1⟩, some [97]⟩ ∧
      ((threeNodes.run (putByThree ++ putByOne)).nodes ⟨3⟩).store.held [1] =
        some ⟨⟨1, 1, 3⟩, some [98]⟩ := by
  decide +kernel

end Grid

end AtomicGrid
