import AtomicGrid.Proofs.Grid.Once
import AtomicGrid.Proofs.Node.Outpost

/-!
# What becomes of a request

A primary looks at a request when it arrives, and again each time that its wait for the topology is
over.  Either the topology is then the right one and the request is carried out, or nothing happens
to the node: the request waits, perhaps once more, or it is refused by one answer.  The topology may
go any way meanwhile.

## Results

* `Moment.settles`: what a node does about a request it looks at.
* `Outpost.Ledger.step`: no request gets lost, and none is answered and waits as well.
* `Outpost.settled_run`: every request that has arrived waits, was carried out or was refused.
-/

set_option autoImplicit false

namespace AtomicGrid

/-- What becomes of a request that a node has looked at. -/
inductive Fate where
  | carriedOut
  | deferred
  | refused
  deriving DecidableEq, Repr

namespace Moment

/-- The request arrives, and is for this cache. -/
def arrives (s : NodeId) (q : UpdateRequest) (t : Moment) : Bool :=
  match t.move with
  | .receive s' (.updateRequest q') => s' = s ∧ q' = q ∧ q.cacheId = t.before.site.cacheId
  | _ => false

/-- The wait of the request is over. -/
def returns (s : NodeId) (q : UpdateRequest) (t : Moment) : Bool :=
  match t.move with
  | .resume task _ => task = .process s q
  | _ => false

/-- The node looks at the request. -/
def takes (s : NodeId) (q : UpdateRequest) (t : Moment) : Bool := t.arrives s q || t.returns s q

/-- What becomes of the request that a node looks at, as far as can be seen: it is carried out if a
coordinator starts, and waits if a wait starts. -/
def fate (t : Moment) : Fate :=
  if t.after.nextFuture = t.before.nextFuture + 1 then .carriedOut
  else if t.waits = [] then .refused
  else .deferred

/-- The node looks at the request, and this becomes of it. -/
def ends (s : NodeId) (q : UpdateRequest) (fate : Fate) (t : Moment) : Bool :=
  t.takes s q && t.fate = fate

inductive Settles (t : Moment) (s : NodeId) (q : UpdateRequest) : Fate → Prop
  /-- The topology is the right one for the request, which is carried out. -/
  | carriedOut (h : t.before.CarriesOut t.view q)
      (he : (t.after, t.effects) = t.before.carryOut t.view s q) : Settles t s q .carriedOut
  /-- The node has changed in nothing, and nothing is sent. -/
  | deferred (h : Node.Defers t.view q) (hn : t.after = t.before)
      (he : t.effects = [.waits ⟨q.topologyVersion, .process s q⟩]) : Settles t s q .deferred
  /-- The node has changed in nothing, and nothing is sent but one answer that tells of no
  success. -/
  | refused (h : t.before.Brings s q t.move → ¬ t.before.CarriesOut t.view q)
      (hn : t.after = t.before) {r : UpdateResponse} (hr : Node.Declines q r)
      (he : t.effects = [Node.transmission t.view s (.updateResponse r)]) : Settles t s q .refused

variable {t : Moment} {s : NodeId} {q : UpdateRequest}

/-- Who looks at a request is brought it, or is told that the wait has failed. -/
theorem takes_iff : t.takes s q = true ↔
    t.before.Brings s q t.move ∨ ∃ e, t.move = .resume (.process s q) (.error e) := by
  constructor
  · intro h
    rcases Bool.or_eq_true_iff.1 h with h | h
    · unfold arrives at h
      split at h
      next s' q' hm =>
        obtain ⟨rfl, rfl, hc⟩ := of_decide_eq_true h
        exact .inl (hm ▸ .received hc)
      next => cases h
    · unfold returns at h
      split at h
      next task awaited hm =>
        obtain rfl := of_decide_eq_true h
        cases awaited with
        | ok v => exact .inl (hm ▸ .resumed v)
        | error e => exact .inr ⟨e, hm⟩
      next => cases h
  · rintro (hb | ⟨e, hm⟩)
    · unfold takes arrives returns
      generalize t.move = move at hb ⊢
      cases hb with
      | received hc => simp [hc]
      | resumed v => simp
    · simp [takes, returns, hm]

/-! ## One look at a request -/

theorem fate_of_allots (h : t.Allots) : t.fate = .carriedOut := if_pos h

theorem not_allots_of_same (hn : t.after = t.before) : ¬ t.Allots := by
  intro h
  have h : t.after.nextFuture = t.before.nextFuture + 1 := h
  rw [hn] at h
  simp at h

theorem fate_of_same (hn : t.after = t.before) :
    t.fate = if t.waits = [] then .refused else .deferred := if_neg (not_allots_of_same hn)

/-- A request that can be carried out on the topology of the moment takes a new number. -/
theorem allots_of_carriesOut (hb : t.before.Brings s q t.move)
    (hc : t.before.CarriesOut t.view q) : t.Allots := by
  show (t.before.move t.view t.move).1.nextFuture = _
  rw [Node.move_of_brings hb, Node.process_of_carriesOut hc]
  exact (Node.after_carryOut s q).2.1

theorem settles_refused {r : UpdateResponse} (hn : t.after = t.before) (hr : Node.Declines q r)
    (he : t.effects = [Node.transmission t.view s (.updateResponse r)]) :
    t.Settles s q t.fate := by
  have hw : t.waits = [] := by
    rw [waits, he, List.filterMap_cons, Node.wait?_transmission, List.filterMap_nil]
  rw [fate_of_same hn, if_pos hw]
  refine .refused (fun hb hc => ?_) hn hr he
  exact not_allots_of_same hn (allots_of_carriesOut hb hc)

theorem settles (h : t.takes s q = true) : t.Settles s q t.fate := by
  rcases takes_iff.1 h with hb | ⟨e, hm⟩
  · have hp : Node.Processed t.view t.before s q (t.before.move t.view t.move) :=
      Node.processed_move hb
    generalize hx : t.before.move t.view t.move = x at hp
    have hafter : t.after = x.1 := congrArg Prod.fst hx
    have heffects : t.effects = x.2 := congrArg Prod.snd hx
    cases hp with
    | carriedOut hc =>
      rw [fate_of_allots (allots_of_carriesOut hb hc)]
      exact .carriedOut hc (Prod.ext hafter heffects)
    | deferred hd =>
      have hw : t.waits ≠ [] := by simp [waits, heffects, Effect.wait?]
      rw [fate_of_same hafter, if_neg hw]
      exact .deferred hd hafter heffects
    | declined hr hc => exact settles_refused hafter hr heffects
  · have hx : t.before.move t.view t.move =
        (t.before, Node.reply t.view (.node s) (t.before.rejection q e.message)) := by
      rw [hm]
      rfl
    refine settles_refused (r := t.before.rejection q e.message) ?_ ⟨rfl, fun _ => .inl rfl⟩ ?_
    · exact congrArg Prod.fst hx
    · exact congrArg Prod.snd hx

/-! ## Every look has one end -/

/-- A request that a node looks at has arrived, or returns from a wait. -/
theorem arrives_add_returns (s : NodeId) (q : UpdateRequest) (t : Moment) :
    (if t.takes s q then 1 else 0) =
      (if t.arrives s q then 1 else 0) + if t.returns s q then 1 else 0 := by
  unfold takes arrives returns
  cases t.move <;> simp

theorem takes_eq_ends (s : NodeId) (q : UpdateRequest) (t : Moment) :
    (if t.takes s q then 1 else 0) = (if t.ends s q .carriedOut then 1 else 0) +
      (if t.ends s q .deferred then 1 else 0) + if t.ends s q .refused then 1 else 0 := by
  unfold ends
  cases t.takes s q <;> cases t.fate <;> simp

/-- A request waits after a move if the node has looked at it then, and deferred it. -/
theorem count_waits (s : NodeId) (q : UpdateRequest) (t : Moment) :
    (t.waits.map (·.task)).count (.process s q) = if t.ends s q .deferred then 1 else 0 := by
  unfold ends
  cases ht : t.takes s q with
  | false =>
    rw [Bool.false_and, if_neg Bool.false_ne_true, List.count_eq_zero]
    intro hmem
    obtain ⟨w, hw, htask⟩ := List.mem_map.1 hmem
    rw [takes_iff.2 (.inl (Grid.process_of_waits hw htask).2)] at ht
    cases ht
  | true =>
    have hs : t.Settles s q t.fate := settles ht
    generalize t.fate = fate at hs
    cases hs with
    | carriedOut hc he =>
      have hw : t.waits = (t.before.carryOut t.view s q).2.filterMap Effect.wait? := by
        rw [← he]
        rfl
      rw [hw, (Node.after_carryOut s q).1.effects, Node.wait?_fanout]
      rfl
    | deferred hd hn he => simp [waits, he, Effect.wait?]
    | refused h hn hr he => simp [waits, he, Node.wait?_transmission]

end Moment

namespace Outpost

variable {o : Outpost} {view : View} {move : Move} {s : NodeId} {q : UpdateRequest}

/-- How often a request waits. -/
def waiting (o : Outpost) (s : NodeId) (q : UpdateRequest) : Nat :=
  (o.waits.map (·.task)).count (.process s q)

/-- A request has arrived as often as it waits, was carried out, and was refused. -/
def Conserves (o : Outpost) (s : NodeId) (q : UpdateRequest) : Prop :=
  o.log.countP (·.arrives s q) =
    o.waiting s q + o.log.countP (·.ends s q .carriedOut) + o.log.countP (·.ends s q .refused)

/-- What goes on has waited. -/
def Awaits (o : Outpost) (move : Move) : Prop :=
  ∀ task awaited, move = .resume task awaited → task ∈ o.waits.map (·.task)

/-- A request that returns from its wait does not wait any more. -/
theorem count_left (h : o.Awaits move) :
    ((o.left move).map (·.task)).count (.process s q) +
      (if (o.moment view move).returns s q then 1 else 0) = o.waiting s q := by
  rw [tasks_left]
  cases move with
  | resume task awaited =>
    have hmem : task ∈ o.waits.map (·.task) := h task awaited rfl
    show ((o.waits.map (·.task)).erase task).count _ +
      (if decide (task = .process s q) = true then 1 else 0) = _
    by_cases htask : task = .process s q
    · subst htask
      have hpos : 0 < (o.waits.map (·.task)).count (.process s q) := List.count_pos_iff.2 hmem
      rw [List.count_erase_self]
      simp only [decide_true, if_true]
      unfold waiting
      omega
    · rw [List.count_erase_of_ne (Ne.symm htask)]
      simp [htask, waiting]
  | _ => rfl

/-- Whatever becomes of a request that a node looks at, it keeps the balance. -/
theorem Conserves.act (hb : o.Conserves s q) (h : o.Awaits move) :
    (o.act view move).Conserves s q := by
  have htake := Moment.arrives_add_returns s q (o.moment view move)
  have hend := Moment.takes_eq_ends s q (o.moment view move)
  have hleft := @count_left o view move s q h
  have hwaits : (o.act view move).waiting s q =
      ((o.left move).map (·.task)).count (.process s q) +
        if (o.moment view move).ends s q .deferred then 1 else 0 := by
    rw [← Moment.count_waits, ← List.count_append, ← List.map_append]
    rfl
  have hlog : (o.act view move).log = o.moment view move :: o.log := rfl
  unfold Conserves at hb ⊢
  rw [hwaits, hlog, List.countP_cons, List.countP_cons, List.countP_cons]
  omega

theorem awaits_of_isOver {task : Task} {awaited : Except CacheError TopologyVersion}
    (h : o.isOver task awaited = true) : o.Awaits (.resume task awaited) := by
  intro task' awaited' he
  cases he
  unfold isOver at h
  split at h
  next w hw =>
    have htask : w.task = task := by simpa using List.find?_some hw
    exact htask ▸ List.mem_map_of_mem (List.mem_of_find?_eq_some hw)
  next => cases h

/-- What has happened at an outpost so far: requests keep the balance, and the node has seen the
topologies that there were. -/
structure Ledger (o : Outpost) : Prop where
  conserves : ∀ s q, o.Conserves s q
  seen : ∀ t ∈ o.log, t.view.topology ∈ o.topology :: o.past

theorem Ledger.act (hl : o.Ledger) (h : o.Awaits move) (hv : view.topology = o.topology) :
    (o.act view move).Ledger := by
  refine ⟨fun s q => (hl.conserves s q).act h, fun t ht => ?_⟩
  rcases List.mem_cons.1 ht with rfl | ht
  · exact List.mem_cons.2 (.inl hv)
  · exact hl.seen t ht

theorem Ledger.shift (hl : o.Ledger) (t : Topology) : (o.shift t).Ledger :=
  ⟨hl.conserves, fun t' ht' => List.mem_cons_of_mem _ (hl.seen t' ht')⟩

theorem ledger_loses (gone : NodeId) (rs : List (FutureId × Registered)) :
    ∀ {o : Outpost}, o.Ledger → view.topology = o.topology →
      ((rs.map (.lose gone)).foldl (act view) o).Ledger := by
  induction rs with
  | nil => exact fun hl _ => hl
  | cons r rs ih => exact fun hl hv => ih (hl.act (fun _ _ he => nomatch he) hv) hv

theorem Ledger.step (hl : o.Ledger) (e : Happening) : (o.step e).Ledger := by
  cases e with
  | node affinity refusal occurrence =>
    cases occurrence with
    | submit u => exact hl.act (fun _ _ he => nomatch he) rfl
    | receive sender m => exact hl.act (fun _ _ he => nomatch he) rfl
    | resume task awaited =>
      unfold Outpost.step
      simp only
      split
      next hover => exact hl.act (awaits_of_isOver hover) rfl
      next => exact hl
    | depart gone => exact ledger_loses gone o.node.registry.entries hl rfl
    | watch key reader => exact hl.act (fun _ _ he => nomatch he) rfl
    | refuse key cause => exact hl.act (fun _ _ he => nomatch he) rfl
  | exchange members => exact hl.shift _
  | settle => exact hl.shift _
  | bump => exact hl.shift _
  | stop => exact hl.shift _

theorem ledger_run (es : List Happening) : ∀ {o : Outpost}, o.Ledger → (o.run es).Ledger := by
  induction es with
  | nil => exact fun hl => hl
  | cons e es ih => exact fun hl => ih (hl.step e)

theorem ledger_start (config : Config) (processors : Processors) (members : List NodeId) :
    (start config processors members).Ledger :=
  ⟨fun _ _ => rfl, fun _ ht => nomatch ht⟩

/-- However the topology of a node goes, and however often a request has to wait: each time that the
node looks at the request, on the topology of the moment, it is carried out, waits or is refused as
`Moment.Settles` says; and as often as the request has arrived, it waits now, was carried out, or
was refused. -/
theorem settled_run (config : Config) (processors : Processors) (members : List NodeId)
    (es : List Happening) (s : NodeId) (q : UpdateRequest) :
    let o := (start config processors members).run es
    (∀ t ∈ o.log, t.takes s q = true →
      t.view.topology ∈ o.topology :: o.past ∧ t.Settles s q t.fate) ∧
    o.log.countP (·.arrives s q) = o.waiting s q +
      o.log.countP (·.ends s q .carriedOut) + o.log.countP (·.ends s q .refused) := by
  intro o
  have hl : o.Ledger := ledger_run es (ledger_start config processors members)
  exact ⟨fun t ht htakes => ⟨hl.seen t ht, Moment.settles htakes⟩, hl.conserves s q⟩

/-- A request to put a value, mapped on the topology 2.0. -/
def aheadPut : UpdateRequest :=
  { (default : UpdateRequest) with
    cacheId := (Site.ofConfig { nodeId := 1 }).cacheId
    topologyVersion := ⟨2, 0⟩
    payload := .single [1] (some [97]) }

/-- The request arrives at the topology 1.0; the wait for 2.0 ends when 3.0 is about to come, and
the next one when it has come. -/
def overtaken : List Happening :=
  let at1 (o : Occurrence) : Happening := .node (.pinned [⟨1⟩]) (fun _ => none) o
  [at1 (.receive ⟨2⟩ (.updateRequest aheadPut)), .exchange [⟨1⟩, ⟨2⟩], .settle,
    .exchange [⟨1⟩, ⟨2⟩], at1 (.resume (.process ⟨2⟩ aheadPut) (.ok ⟨2, 0⟩)), .settle,
    at1 (.resume (.process ⟨2⟩ aheadPut) (.ok ⟨3, 0⟩))]

/-- The node has deferred the request twice and then refused it: it has changed in nothing, and the
request does not wait any more. -/
theorem settled_run_overtaken :
    let o := (start { nodeId := 1 } Processor.none [⟨1⟩, ⟨2⟩]).run overtaken
    o.log.map (·.fate) = [.refused, .deferred, .deferred] ∧ (∀ t ∈ o.log, t.after = t.before) ∧
      o.waiting ⟨2⟩ aheadPut = 0 := by
  intro o
  have hfates : o.log.map (fun t => (t.takes ⟨2⟩ aheadPut, t.fate)) =
      [(true, .refused), (true, .deferred), (true, .deferred)] := by decide +kernel
  have harrives : o.log.countP (·.arrives ⟨2⟩ aheadPut) = 1 := by decide +kernel
  have hends : o.log.countP (·.ends ⟨2⟩ aheadPut .refused) = 1 := by decide +kernel
  obtain ⟨hsettles, hbalance⟩ :=
    settled_run { nodeId := 1 } Processor.none [⟨1⟩, ⟨2⟩] overtaken ⟨2⟩ aheadPut
  refine ⟨?_, fun t ht => ?_, ?_⟩
  · have h := congrArg (List.map Prod.snd) hfates
    rwa [List.map_map] at h
  · have hmem := List.mem_map_of_mem (f := fun t => (t.takes ⟨2⟩ aheadPut, t.fate)) ht
    rw [hfates] at hmem
    have htakes : t.takes ⟨2⟩ aheadPut = true ∧ t.fate ≠ .carriedOut := by
      simp only [List.mem_cons, Prod.mk.injEq, List.not_mem_nil, or_false] at hmem
      rcases hmem with ⟨hs, hf⟩ | ⟨hs, hf⟩ | ⟨hs, hf⟩ <;> exact ⟨hs, by rw [hf]; decide⟩
    have hs : t.Settles ⟨2⟩ aheadPut t.fate := (hsettles t ht htakes.1).2
    have hnot := htakes.2
    generalize t.fate = fate at hs hnot
    cases hs with
    | carriedOut hc he => exact absurd rfl hnot
    | deferred hd hn he => exact hn
    | refused h hn hr he => exact hn
  · have hbalance : o.Conserves ⟨2⟩ aheadPut := hbalance
    unfold Conserves at hbalance
    omega

end Outpost

end AtomicGrid
