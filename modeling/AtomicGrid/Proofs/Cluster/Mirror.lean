import AtomicGrid.Proofs.Cluster
import AtomicGrid.Proofs.Grid.Links
import AtomicGrid.Proofs.Inbox
import AtomicGrid.Proofs.Node.Listening
import AtomicGrid.Proofs.Wire.Sizes

/-!
# A cluster and its grid

A cluster takes messages as bytes, in the order they come to a node; a grid has a link between any
two nodes.  A cluster mirrors a grid if its nodes are those of the grid, and what waits in an inbox is
what is under way on the links to the node, in some order.  Each frame is one message here, so that
all streams are at their starts between frames.

## Results

* `Cluster.Mirrors.take`: the effects of a move come about as they do on the grid.
* `Cluster.Mirrors.deliver`: reading a frame is the delivery of a message.
-/

set_option autoImplicit false

namespace AtomicGrid

open Wire

namespace Inbox

variable {box : Inbox} {s : NodeId} {m : Message}

/-- All streams are at their starts. -/
def AtRest (box : Inbox) : Prop := ∀ s, (box.streams.get? s).getD {} = {}

/-- A frame with one message gives the message, and leaves all streams at their starts. -/
theorem receive_encode (h : box.AtRest) (size : Nat) (s : NodeId) (hf : m.Fits) :
    ∃ box' : Inbox, box.receive size s m.encode = (box', [m.received]) ∧ box'.AtRest := by
  have hdrain := Decoder.drain_encode [m] (fun m' hm => List.mem_singleton.1 hm ▸ hf)
  rw [List.flatMap_cons, List.flatMap_nil, List.append_nil] at hdrain
  obtain ⟨d, ms, hfeed, -, hreads⟩ := reads_chunks size m.encode .fresh
  obtain ⟨hd, hms⟩ := hreads.eq_of_whole (by rw [hdrain])
  rw [hdrain] at hd hms
  subst hd hms
  have hfeed : Stream.feedAll {} (chunks size m.encode) = ({}, [m.received]) := hfeed
  refine ⟨⟨box.streams.insert s {}⟩, ?_, fun o => ?_⟩
  · simp only [receive, h s, hfeed]
  · rw [SortedMap.get?_insert_ite]
    split
    · rfl
    · exact h o

end Inbox

/-- The messages that wait for each node, with their senders. -/
abbrev Queues := NodeId → List (NodeId × Message)

/-- The messages of a move wait behind the others. -/
def Queues.post (queues : Queues) (t : Moment) : Queues :=
  fun r => queues r ++ (t.sentTo r).map (t.node, ·)

def Queues.set (queues : Queues) (n : NodeId) (rest : List (NodeId × Message)) : Queues :=
  Function.update queues n rest

namespace Cluster

/-- The cluster is the grid with bytes on its links, and with the messages `queues` in the inboxes. -/
structure Mirrors (c : Cluster) (g : Grid) (queues : Queues) : Prop where
  topology : g.topology = c.topology
  affinity : g.affinity = c.affinity
  attached : g.attached = c.running
  serves : c.router.Serves c.running
  node : ∀ n member, c.members.get? n = some member →
    member.node = g.nodes n ∧ member.inbox.AtRest
  member : ∀ n, c.running.contains n = true → c.members.contains n = true
  waiting : ∀ n, c.router.waiting n = (queues n).map fun p => (p.1, p.2.encode)
  links : ∀ s r, g.links s r = ((queues r).filter (·.1 = s)).map (·.2)
  parked : c.parked = []
  reads : ∀ j ∈ c.ready, ∃ n, j = .read n
  /-- Whoever has messages is to read them. -/
  scheduled : ∀ n, queues n ≠ [] → .read n ∈ c.ready ∨ n ∈ c.putOff

variable {c : Cluster} {g : Grid} {queues : Queues} {n s : NodeId} {move : Move} {m : Message}
  {rest : List (NodeId × Message)}

theorem Mirrors.view (h : c.Mirrors g queues) (n : NodeId) : c.view n = g.view n := by
  unfold Cluster.view Grid.view
  rw [h.topology, h.affinity, h.attached]
  congr 1
  funext r
  exact h.serves.refusal_eq n r

theorem Mirrors.node? (h : c.Mirrors g queues) (hn : c.running.contains n = true) :
    c.node? n = some (g.nodes n) := by
  obtain ⟨member, hm⟩ := Option.isSome_iff_exists.1 (h.member n hn)
  rw [Cluster.node?, hm, Option.map_some, (h.node n member hm).1]

/-- Who is to read besides does nothing else. -/
theorem reads_append {ready : List Job} (h : ∀ j ∈ ready, ∃ n, j = .read n) (ns : List NodeId) :
    ∀ j ∈ ready ++ ns.map .read, ∃ n, j = .read n := by
  intro j hj
  rcases List.mem_append.1 hj with hj | hj
  · exact h j hj
  · obtain ⟨n, -, rfl⟩ := List.mem_map.1 hj
    exact ⟨n, rfl⟩

theorem Mirrors.posted (h : c.Mirrors g queues) (n : NodeId) (hw : (g.moment n move).waits = []) :
    Posted n (g.moment n move).effects (c.putNode n (g.moment n move).after)
      (c.take n ((g.nodes n).move (g.view n) move)) := by
  refine posted_foldl _ h.serves (List.filterMap_eq_nil_iff.1 hw) fun r m hs => ?_
  rw [← h.attached]
  exact Node.reaches_of_sent hs

theorem Mirrors.act (h : c.Mirrors g queues) {c' : Cluster}
    (hp : Posted n (g.moment n move).effects (c.putNode n (g.moment n move).after) c') :
    c'.Mirrors (g.act n move) (queues.post (g.moment n move)) where
  topology := by
    rw [hp.same]
    exact h.topology
  affinity := by
    rw [hp.same]
    exact h.affinity
  attached := by
    rw [hp.same]
    exact h.attached
  serves := by
    rw [hp.same]
    exact hp.serves _ h.serves
  node o member hm := by
    rw [hp.same] at hm
    have hm : (c.members.modify n fun m => { m with node := (g.moment n move).after }).get? o =
        some member := hm
    rw [SortedMap.get?_modify_ite] at hm
    rw [Grid.nodes_act]
    split at hm
    next he =>
      obtain ⟨old, hold, rfl⟩ := Option.map_eq_some_iff.1 hm
      rw [if_pos he]
      exact ⟨rfl, (h.node o old hold).2⟩
    next he =>
      rw [if_neg he]
      exact h.node o member hm
  member o ho := by
    rw [hp.same] at ho ⊢
    exact (SortedMap.contains_modify _ _ _ _).trans (h.member o ho)
  waiting o := by
    rw [hp.waiting, Queues.post, List.map_append, List.map_map]
    exact congrArg (· ++ _) (h.waiting o)
  links s r := by
    have hsent : ((((g.moment n move).sentTo r).map ((g.moment n move).node, ·)).filter
        (·.1 = s)).map (·.2) = if s = n then (g.moment n move).sentTo r else [] := by
      by_cases hs : s = n
      · subst hs
        rw [if_pos rfl, List.filter_eq_self.2 (by simp [Grid.moment]), List.map_map]
        exact List.map_id _
      · rw [if_neg hs, List.filter_eq_nil_iff.2 (by simp [Grid.moment, Ne.symm hs]),
          List.map_nil]
    rw [Grid.links_act, h.links, Queues.post, List.filter_append, List.map_append, hsent]
    split
    · rfl
    · exact (List.append_nil _).symm
  parked := by
    rw [hp.same]
    exact h.parked
  reads := by
    obtain ⟨ns, hready⟩ := hp.ready
    rw [hready]
    exact reads_append h.reads ns
  scheduled o ho := by
    by_cases hold : queues o = []
    · refine hp.scheduled o fun hnone => ho ?_
      have hnone : (g.moment n move).sentTo o = [] := hnone
      rw [Queues.post, hold, hnone]
      rfl
    · obtain ⟨ns, hready⟩ := hp.ready
      rw [hready, hp.putOff]
      exact (h.scheduled o hold).imp_left fun hmem => List.mem_append_left _ hmem

/-- The effects of a move come about as they do on the grid. -/
theorem Mirrors.take (h : c.Mirrors g queues) (n : NodeId) (hw : (g.moment n move).waits = []) :
    (c.take n ((g.nodes n).move (g.view n) move)).Mirrors (g.act n move)
      (queues.post (g.moment n move)) :=
  h.act (h.posted n hw)

theorem Mirrors.running_of_queue (h : c.Mirrors g queues) (hq : queues n ≠ []) :
    c.running.contains n = true := by
  rw [← h.serves.inboxes]
  have hw := h.waiting n
  unfold Router.waiting SortedMap.contains at *
  cases hget : c.router.inboxes.get? n with
  | some frames => rfl
  | none =>
    rw [hget] at hw
    exact absurd (List.map_eq_nil_iff.1 hw.symm) hq

/-- The cluster as the first frame for `n` is taken up: `frames` are left, and the streams are as in
`box`. -/
def taken (c : Cluster) (n : NodeId) (frames : List Frame) (member : Member) (box : Inbox) :
    Cluster :=
  { c with
    router := { c.router with inboxes := c.router.inboxes.insert n frames }
    members := c.members.insert n { member with inbox := box } }

theorem Mirrors.taken (h : c.Mirrors g queues) (hn : c.running.contains n = true)
    (hq : queues n = (s, m) :: rest) {member : Member} (hm : c.members.get? n = some member)
    {box : Inbox} (hbox : box.AtRest) :
    (c.taken n (rest.map fun p => (p.1, p.2.encode)) member box).Mirrors
      (g.setLink s n ((rest.filter (·.1 = s)).map (·.2))) (queues.set n rest) where
  topology := h.topology
  affinity := h.affinity
  attached := h.attached
  serves := by
    refine ⟨h.serves.attached, h.serves.blocked, fun o => Eq.trans ?_ (h.serves.inboxes o)⟩
    have hold : c.router.inboxes.contains n = true := (h.serves.inboxes n).trans hn
    unfold Cluster.taken
    unfold SortedMap.contains at *
    rw [SortedMap.get?_insert_ite]
    split
    next he => rw [he, hold, Option.isSome_some]
    next => rfl
  node o member' ho := by
    have ho : (c.members.insert n { member with inbox := box }).get? o = some member' := ho
    rw [SortedMap.get?_insert_ite] at ho
    split at ho
    next he =>
      cases ho
      exact ⟨he ▸ (h.node n member hm).1, hbox⟩
    next => exact h.node o member' ho
  member o ho := by
    unfold Cluster.taken SortedMap.contains
    rw [SortedMap.get?_insert_ite]
    split
    · rfl
    · exact h.member o ho
  waiting o := by
    unfold Cluster.taken Router.waiting Queues.set
    rw [SortedMap.get?_insert_ite]
    split
    next he => rw [he, Function.update_self, Option.getD_some]
    next he =>
      rw [Function.update_of_ne he]
      exact h.waiting o
  links s' r := by
    unfold Grid.setLink Queues.set
    dsimp only
    by_cases hr : r = n
    · subst hr
      rw [Function.update_self]
      split
      next he => rw [he.1]
      next he =>
        have hs : s' ≠ s := fun hs => he ⟨hs, rfl⟩
        rw [h.links, hq, List.filter_cons_of_neg (by simpa using hs.symm)]
    · rw [Function.update_of_ne hr, if_neg fun he => hr he.2]
      exact h.links s' r
  parked := h.parked
  reads := h.reads
  scheduled o ho := by
    refine h.scheduled o fun hnone => ho ?_
    by_cases he : o = n
    · rw [he, hq] at hnone
      cases hnone
    · rw [Queues.set, Function.update_of_ne he, hnone]

theorem effort_taken {member : Member} (hm : c.members.get? n = some member)
    {frame : Frame} {frames : List Frame} (hw : c.router.waiting n = frame :: frames)
    (box : Inbox) (reach : Nat) :
    (c.taken n frames member box).effort reach + frameWeight reach frame = c.effort reach := by
  have hmail := SortedMap.total_insert (fun frames => (frames.map (frameWeight reach)).sum)
    c.router.inboxes n frames
  have hold : c.router.inboxes.get? n = some (frame :: frames) := by
    unfold Router.waiting at hw
    cases hget : c.router.inboxes.get? n with
    | none =>
      rw [hget] at hw
      cases hw
    | some _ => rw [hget] at hw; exact congrArg some hw
  have hcredit := SortedMap.total_insert (·.node.credit) c.members n { member with inbox := box }
  rw [hold] at hmail
  rw [hm] at hcredit
  simp only [Option.elim_some, List.map_cons, List.sum_cons] at hmail hcredit
  unfold Cluster.taken effort mail
  simp only
  omega

theorem effort_putNode {member : Member} (hm : c.members.get? n = some member) (node : Node)
    (reach : Nat) : (c.putNode n node).effort reach + member.node.credit =
      c.effort reach + node.credit := by
  have hcredit := SortedMap.total_modify (·.node.credit) hm ({ · with node })
  unfold Cluster.putNode effort
  simp only at *
  omega

/-- Reading a frame is the delivery of a message. -/
theorem Mirrors.deliver (h : c.Mirrors g queues) (hq : queues n = (s, m) :: rest) (hf : m.Fits)
    (hm : m.received = m) (hw : (g.moment n (.receive s m)).waits = []) :
    ∃ router, c.router.next n = some (router, (s, m.encode)) ∧
      let ms := (rest.filter (·.1 = s)).map (·.2)
      let c' := { c with router }.readFrame n (s, m.encode)
      g.links s n = m :: ms ∧
        c'.Mirrors ((g.setLink s n ms).act n (.receive s m))
          ((queues.set n rest).post (g.moment n (.receive s m))) ∧
        (∃ ns : List NodeId, c'.ready = c.ready ++ ns.map .read) ∧ c'.putOff = c.putOff ∧
        ∀ reach, c'.effort reach + m.kind.weight reach + (g.nodes n).credit ≤
          c.effort reach + burden reach (g.moment n (.receive s m)).effects +
            (g.moment n (.receive s m)).after.credit := by
  have hn := h.running_of_queue (hq ▸ List.cons_ne_nil _ _)
  obtain ⟨member, hget⟩ := Option.isSome_iff_exists.1 (h.member n hn)
  obtain ⟨hnode, hrest⟩ := h.node n member hget
  obtain ⟨box, hbox, hbox'⟩ := Inbox.receive_encode hrest c.chunkSize s hf
  rw [hm] at hbox
  have hwaiting : c.router.waiting n = (s, m.encode) :: rest.map fun p => (p.1, p.2.encode) := by
    rw [h.waiting, hq, List.map_cons]
  generalize hframes : (rest.map fun p => (p.1, p.2.encode)) = frames at hwaiting
  have htaken : (c.taken n frames member box).Mirrors
      (g.setLink s n ((rest.filter (·.1 = s)).map (·.2))) (queues.set n rest) := by
    rw [← hframes]
    exact h.taken hn hq hget hbox'
  have hread : { c with router := { c.router with inboxes := c.router.inboxes.insert n frames } }.readFrame
      n (s, m.encode) = (c.taken n frames member box).take n
        ((g.nodes n).move (g.view n) (.receive s m)) := by
    have hn' : (c.taken n frames member box).node? n = some (g.nodes n) := htaken.node? hn
    unfold readFrame
    simp only [hget, hbox]
    show (c.taken n frames member box).run n _ = _
    rw [run, hn', htaken.view n]
    simp only [Node.each, List.append_nil]
    rfl
  have hmirrors := htaken.take n hw
  have hposted := htaken.posted n hw
  refine ⟨{ c.router with inboxes := c.router.inboxes.insert n frames }, ?_, ?_, ?_, ?_, ?_, ?_⟩
  · rw [Router.next, hwaiting]
  · rw [h.links, hq, List.filter_cons_of_pos (by simp), List.map_cons]
  · rw [hread]
    exact hmirrors
  · rw [hread]
    exact hposted.ready
  · rw [hread]
    exact hposted.putOff
  · intro reach
    have heffort : ((c.taken n frames member box).take n
        ((g.nodes n).move (g.view n) (.receive s m))).effort reach ≤
          ((c.taken n frames member box).putNode n (g.moment n (.receive s m)).after).effort reach +
            burden reach (g.moment n (.receive s m)).effects := hposted.effort reach
    have hput := effort_putNode (c := c.taken n frames member box)
      (SortedMap.get?_insert_self _ _ _) (g.moment n (.receive s m)).after reach
    have hcut := effort_taken hget hwaiting box reach
    rw [frameWeight_encode] at hcut
    simp only [hnode] at hput
    rw [hread]
    omega

/-- Who has nothing to read is not missed. -/
theorem Mirrors.next_eq_none (h : c.Mirrors g queues) (hq : queues n = []) :
    c.router.next n = none := by
  have hw := h.waiting n
  rw [hq] at hw
  rw [Router.next, hw]
  rfl

/-- It does not matter in which order nodes read. -/
theorem Mirrors.reschedule (h : c.Mirrors g queues) {ready : List Job} {putOff : List NodeId}
    (hr : ∀ j ∈ ready, ∃ n, j = .read n)
    (hs : ∀ n, queues n ≠ [] → .read n ∈ ready ∨ n ∈ putOff) :
    { c with ready, putOff }.Mirrors g queues :=
  { h with reads := hr, scheduled := hs }

/-! ## The start -/

theorem serves_register (ids : List NodeId) : ∀ {r : Router} {nodes : NodeSet}, r.Serves nodes →
    (ids.foldl Router.register r).Serves (ids.foldl SortedSet.add nodes) := by
  induction ids with
  | nil => exact fun h => h
  | cons n ids ih =>
    intro r nodes h
    refine ih ⟨congrArg (·.add n) h.attached, h.blocked, fun o => ?_⟩
    rw [Bool.eq_iff_iff, SortedSet.contains_add, ← h.inboxes o]
    unfold Router.register SortedMap.contains
    rw [SortedMap.get?_insert_ite]
    split
    next he => simp [he]
    next he => simp [he]

theorem waiting_register (ids : List NodeId) (n : NodeId) : ∀ {r : Router}, r.waiting n = [] →
    (ids.foldl Router.register r).waiting n = [] := by
  induction ids with
  | nil => exact fun h => h
  | cons o ids ih =>
    intro r h
    apply ih
    unfold Router.register Router.waiting at *
    rw [SortedMap.get?_insert_ite]
    split
    · rfl
    · exact h

theorem get?_insertMany_map {α : Type} (f : NodeId → α) (ids : List NodeId) (n : NodeId) :
    ∀ m : SortedMap NodeId α, (m.insertMany (ids.map fun n => (n, f n))).get? n =
      if n ∈ ids then some (f n) else m.get? n := by
  induction ids with
  | nil => exact fun _ => rfl
  | cons o ids ih =>
    intro m
    have hstep : m.insertMany ((o :: ids).map fun n => (n, f n)) =
        (m.insert o (f o)).insertMany (ids.map fun n => (n, f n)) := rfl
    rw [hstep, ih, SortedMap.get?_insert_ite]
    by_cases hn : n ∈ ids
    · simp [hn]
    · by_cases ho : n = o
      · simp [ho]
      · simp [hn, ho]

theorem mirrors_start (count : Nat) (config : Config) (chunkSize : Nat) (processors : Processors) :
    (start count config chunkSize processors).Mirrors
      (.start ((List.range count).map fun i => NodeId.mk (UInt64.ofNat (i + 1))) config
        (.ranked config.atomic.partitions config.atomic.backups) processors) fun _ => [] := by
  unfold start
  generalize (List.range count).map (fun i => NodeId.mk (UInt64.ofNat (i + 1))) = ids
  have hserves : (ids.foldl Router.register {}).Serves (SortedSet.ofList ids) :=
    serves_register ids ⟨rfl, rfl, fun _ => rfl⟩
  have hmembers (n : NodeId) := get?_insertMany_map (fun n : NodeId => Member.mk (.ofConfig
    { config with nodeId := n.id } processors) {}) ids n ∅
  exact {
    topology := rfl
    affinity := rfl
    attached := rfl
    serves := hserves
    node := fun n member hm => by
      have hm := (hmembers n).symm.trans hm
      split at hm
      · cases hm
        exact ⟨rfl, fun _ => rfl⟩
      · cases hm
    member := fun n hn => by
      have hm := hmembers n
      rw [if_pos (SortedSet.contains_ofList.1 hn)] at hm
      exact Option.isSome_iff_exists.2 ⟨_, hm⟩
    waiting := fun n => waiting_register ids n rfl
    links := fun _ _ => rfl
    parked := rfl
    reads := fun j hj => by
      obtain ⟨n, -, rfl⟩ := List.mem_map.1 hj
      exact ⟨n, rfl⟩
    scheduled := fun _ hq => absurd rfl hq }

end Cluster

end AtomicGrid
