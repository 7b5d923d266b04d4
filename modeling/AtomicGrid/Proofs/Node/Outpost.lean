import AtomicGrid.Proofs.Grid.Attempts
import AtomicGrid.Proofs.Node.Life

/-!
# A node and its topology

The node of a `Solo` may see any topology at any event.  An `Outpost` is such a node together with the
one topology that it follows.  Exchanges begin and end, the assignment of the members changes, and
the cache may stop; a task goes on once a topology has come that it waits for, perhaps long
afterwards, when others have come.  Who owns a key and who can be reached stays open at every event.

Of the versions only the major parts are compared: there is no limit to how often the minor one goes
up, so it may wrap around.

## Results

* `Outpost.solo_act`: the node of an outpost acts as it would by itself.
* `Outpost.reached_run`: the moves of a run, one by one, with what holds before each of them.
-/

set_option autoImplicit false

namespace AtomicGrid

inductive Happening where
  /-- Something happens to the node, which sees these owners and can reach these nodes. -/
  | node (affinity : Affinity) (refusal : NodeId → Option SendError) (o : Occurrence)
  /-- An exchange begins. -/
  | exchange (members : List NodeId)
  /-- The exchange ends. -/
  | settle
  /-- The assignment of the members changes. -/
  | bump
  /-- The cache begins to stop. -/
  | stop

/-- A node and the topology it follows. -/
structure Outpost where
  node : Node
  topology : Topology
  /-- The topologies before, the last one first. -/
  past : List Topology := []
  waits : List Wait := []
  /-- All moves so far, the last one first. -/
  log : List Moment := []

namespace Outpost

def solo (o : Outpost) : Solo where
  node := o.node
  tasks := o.waits.map (·.task)
  log := o.log

/-- The waits that go on once a move is made. -/
def left (o : Outpost) : Move → List Wait
  | .resume task _ => o.waits.eraseP (·.task = task)
  | _ => o.waits

def moment (view : View) (o : Outpost) (move : Move) : Moment := ⟨o.node.id, view, o.node, move⟩

def act (view : View) (o : Outpost) (move : Move) : Outpost :=
  let t := o.moment view move
  { o with node := t.after, waits := o.left move ++ t.waits, log := t :: o.log }

/-- Goes over to another topology. -/
def shift (o : Outpost) (t : Topology) : Outpost :=
  { o with topology := t, past := o.topology :: o.past }

/-- Whether the wait of a task is over with this outcome. -/
def isOver (o : Outpost) (task : Task) (awaited : Except CacheError TopologyVersion) : Bool :=
  match o.waits.find? (·.task = task) with
  | some w => (o.topology :: o.past).any fun t => t.awaited w.version = some awaited
  | none => false

def step (o : Outpost) : Happening → Outpost
  | .node affinity refusal occurrence =>
    let view : View := ⟨o.topology, affinity, refusal⟩
    match occurrence with
    | .submit u => o.act view (.submit u)
    | .receive sender m => o.act view (.receive sender m)
    | .resume task awaited =>
      if o.isOver task awaited then o.act view (.resume task awaited) else o
    | .depart gone => (o.node.registry.entries.map (.lose gone)).foldl (act view) o
    | .watch key reader => o.act view (.watch key reader)
    | .refuse key cause => o.act view (.refuse key cause)
  | .exchange members => o.shift (o.topology.beginExchange members)
  | .settle => o.shift o.topology.completeExchange
  | .bump => o.shift o.topology.bumpMinor
  | .stop => o.shift o.topology.stop

def run (o : Outpost) (es : List Happening) : Outpost := es.foldl step o

/-- A node that has done nothing yet, with the first topology of these members. -/
def start (config : Config) (processors : Processors) (members : List NodeId) : Outpost where
  node := .ofConfig config processors
  topology := .start members

variable {o o₀ o' : Outpost} {view : View} {move : Move}

theorem tasks_left (o : Outpost) (move : Move) :
    (o.left move).map (·.task) = o.solo.left move := by
  cases move with
  | resume task awaited =>
    show (o.waits.eraseP (·.task = task)).map (·.task) = (o.waits.map (·.task)).erase task
    rw [List.erase_eq_eraseP, List.eraseP_map]
    congr 2
    funext w
    exact decide_eq_decide.2 eq_comm
  | _ => rfl

/-- The node of an outpost acts as it would by itself. -/
theorem solo_act (view : View) (o : Outpost) (move : Move) :
    (o.act view move).solo = o.solo.act view move := by
  have ht : (o.left move ++ (o.moment view move).waits).map (·.task) =
      o.solo.left move ++ (o.moment view move).waits.map (·.task) := by
    rw [List.map_append, tasks_left]
  exact congrArg (Solo.mk _ · _) ht

/-- The waits of a submission that a move leaves. -/
theorem mem_left {w : Wait} (hw : w ∈ o.left move) : w ∈ o.waits := by
  cases move with
  | resume task awaited => exact List.mem_of_mem_eraseP hw
  | _ => exact hw

/-! ## One thing at a time -/

/-- A task whose wait is over: an exchange as late as the one it waits for has come, or the cache is
stopping. -/
structure Over (o : Outpost) (task : Task) (awaited : Except CacheError TopologyVersion)
    (w : Wait) : Prop where
  mem : w ∈ o.waits
  task : w.task = task
  reached : ∀ v, awaited = .ok v → w.version.major ≤ o.topology.version.major
  error : ∀ e, awaited = .error e → e.failures? = none

/-- One move, or one change of topology. -/
inductive Next (o : Outpost) : Outpost → Prop
  | acts {view : View} {move : Move} (hv : view.topology = o.topology)
      (hdue : o.node.Due o.solo.parked move)
      (hover : ∀ task awaited, move = .resume task awaited → ∃ w, o.Over task awaited w) :
      Next o (o.act view move)
  | shifts {t : Topology} (ht : o.topology.version.major ≤ t.version.major) : Next o (o.shift t)

/-- What holds at all times. -/
structure Steady (o : Outpost) : Prop where
  orderly : o.solo.Orderly
  attends : Grid.Attends o.log o.node.id o.node
  past : ∀ t ∈ o.past, t.version.major ≤ o.topology.version.major

structure Roomy (o : Outpost) : Prop where
  solo : o.solo.Roomy
  major : o.topology.version.major.toNat + 1 < UInt64.size

/-- What `o₀` becomes by moves and changes of topology, with order and room before each. -/
inductive Reached (o₀ : Outpost) : Outpost → Prop
  | start : Reached o₀ o₀
  | next {o o' : Outpost} (h : Reached o₀ o) (hs : o.Steady) (hr : o.Roomy) (hn : Next o o') :
      Reached o₀ o'

theorem Steady.coherent (hs : o.Steady) : o.node.Coherent o.solo.parked := hs.orderly.coherent

theorem Steady.act (hs : o.Steady) (hr : o.Roomy) (hdue : o.node.Due o.solo.parked move) :
    (o.act view move).Steady := by
  have hid : (o.moment view move).after.id = o.node.id :=
    congrArg Site.node (Node.site_move view o.node move).1
  constructor
  · rw [solo_act]
    exact hs.orderly.act hr.solo hdue
  · have ht := Grid.attends_moment (t := o.moment view move) hs.attends hs.coherent hdue
    show Grid.Attends (o.moment view move :: o.log) (o.moment view move).after.id _
    rw [hid]
    exact ht
  · exact hs.past

theorem Steady.shift (hs : o.Steady) {t : Topology}
    (ht : o.topology.version.major ≤ t.version.major) : (o.shift t).Steady := by
  refine ⟨hs.orderly, hs.attends, ?_⟩
  intro t' ht'
  rcases List.mem_cons.1 ht' with rfl | ht'
  · exact ht
  · exact UInt64.le_trans (hs.past t' ht') ht

/-- The topology that ends a wait is the present one or an earlier one. -/
theorem Steady.over (hs : o.Steady) {task : Task} {awaited : Except CacheError TopologyVersion}
    (h : o.isOver task awaited = true) : ∃ w, o.Over task awaited w := by
  unfold isOver at h
  split at h
  next w hw =>
    obtain ⟨t, ht, ha⟩ := List.any_eq_true.1 h
    have ha : t.awaited w.version = some awaited := of_decide_eq_true ha
    have hle : t.version.major ≤ o.topology.version.major := by
      rcases List.mem_cons.1 ht with rfl | ht
      · exact UInt64.le_refl _
      · exact hs.past t ht
    refine ⟨w, List.mem_of_find?_eq_some hw, by simpa using List.find?_some hw, ?_, ?_⟩
    · rintro v rfl
      unfold Topology.awaited at ha
      split at ha
      · cases ha
      · split at ha
        next hv => exact UInt64.le_trans (TopologyVersion.major_le hv.2) hle
        next => cases ha
    · rintro e rfl
      unfold Topology.awaited at ha
      split at ha
      · cases ha
        rfl
      · split at ha <;> cases ha
  next => cases h

/-! ## Runs -/

/-- The counters after `k` events at most. -/
structure Bounded (o : Outpost) (k : Nat) : Prop where
  solo : o.solo.Bounded k
  major : o.topology.version.major.toNat ≤ k + 1

theorem Bounded.roomy {k : Nat} (h : o.Bounded k) (hk : k + 2 < UInt64.size) : o.Roomy := by
  have hm := h.major
  exact ⟨h.solo.roomy hk, by omega⟩

theorem Bounded.act {k : Nat} (h : o.Bounded k) : (o.act view move).Bounded (k + 1) := by
  have hm := h.major
  refine ⟨?_, Nat.le_succ_of_le hm⟩
  rw [solo_act]
  exact h.solo.act

theorem Bounded.mono {k : Nat} (h : o.Bounded k) : o.Bounded (k + 1) :=
  ⟨h.solo.mono, Nat.le_succ_of_le h.major⟩

/-- An outpost that has gone on in order. -/
structure Stands (o₀ o : Outpost) (k : Nat) : Prop where
  reached : Reached o₀ o
  steady : o.Steady
  bounded : o.Bounded k

variable {k : Nat}

theorem Stands.acts (h : Stands o₀ o k) (hk : k + 2 < UInt64.size)
    (hv : view.topology = o.topology) (hdue : o.node.Due o.solo.parked move)
    (hover : ∀ task awaited, move = .resume task awaited → ∃ w, o.Over task awaited w) :
    Stands o₀ (o.act view move) (k + 1) where
  reached := .next h.reached h.steady (h.bounded.roomy hk) (.acts hv hdue hover)
  steady := h.steady.act (h.bounded.roomy hk) hdue
  bounded := h.bounded.act

theorem Stands.shifts (h : Stands o₀ o k) (hk : k + 2 < UInt64.size) {t : Topology}
    (ht : o.topology.version.major ≤ t.version.major)
    (hmajor : t.version.major.toNat ≤ k + 2) : Stands o₀ (o.shift t) (k + 1) where
  reached := .next h.reached h.steady (h.bounded.roomy hk) (.shifts ht)
  steady := h.steady.shift ht
  bounded := ⟨h.bounded.solo.mono, hmajor⟩

/-- Every coordinator that has a number when a node is lost hears of it. -/
theorem Stands.loses (hk : k + 2 < UInt64.size) (gone : NodeId)
    (rs : List (FutureId × Registered)) : ∀ {o : Outpost}, Stands o₀ o k →
      view.topology = o.topology → (∀ r ∈ rs, o.node.registry.get? r.1 = some r.2) →
      (rs.map (·.1)).Nodup → Stands o₀ ((rs.map (.lose gone)).foldl (act view) o) k := by
  induction rs with
  | nil =>
    intro o h _ _ _
    exact h
  | cons r rs ih =>
    intro o h hv hrs hnd
    rw [List.map_cons, List.nodup_cons] at hnd
    have hr : o.node.registry.get? r.1 = some r.2 := hrs r List.mem_cons_self
    have hdue : o.node.Due o.solo.parked (.lose gone r) := hr
    have hnext := h.acts hk hv hdue (fun _ _ he => nomatch he)
    have hb : (o.act view (.lose gone r)).Bounded k := by
      refine ⟨?_, h.bounded.major⟩
      rw [solo_act]
      exact h.bounded.solo.act_lose gone r
    refine ih ⟨hnext.reached, hnext.steady, hb⟩ hv ?_ hnd.2
    intro r' hr'
    have hne : r'.1 ≠ r.1 := fun he => hnd.1 (he ▸ List.mem_map_of_mem hr')
    have hkeep : (o.node.move view (.lose gone r)).1.registry.get? r'.1 =
        o.node.registry.get? r'.1 := Node.registry_lose h.steady.coherent hr hne
    exact hkeep.trans (hrs r' (List.mem_cons_of_mem _ hr'))

/-- What happens to the node leaves the topology alone. -/
theorem Stands.node (h : Stands o₀ o k) (hk : k + 2 < UInt64.size) (affinity : Affinity)
    (refusal : NodeId → Option SendError) (occurrence : Occurrence) :
    Stands o₀ (o.step (.node affinity refusal occurrence)) (k + 1) := by
  have hsame : Stands o₀ o (k + 1) := ⟨h.reached, h.steady, h.bounded.mono⟩
  cases occurrence with
  | submit u => exact h.acts hk rfl trivial (fun _ _ he => nomatch he)
  | receive sender m => exact h.acts hk rfl trivial (fun _ _ he => nomatch he)
  | resume task awaited =>
    unfold step
    simp only
    split
    next hover =>
      obtain ⟨w, hw⟩ := h.steady.over hover
      refine h.acts hk rfl ?_ ?_
      · cases task with
        | remap h' =>
          refine Nat.ne_of_gt (List.count_pos_iff.2 ?_)
          rw [← hw.task]
          exact List.mem_map_of_mem hw.mem
        | process sender request => exact trivial
      · intro task' awaited' he
        cases he
        exact ⟨w, hw⟩
    next => exact hsame
  | depart gone =>
    let view : View := ⟨o.topology, affinity, refusal⟩
    have hl : Stands o₀ ((o.node.registry.entries.map (.lose gone)).foldl (act view) o) k :=
      Stands.loses hk gone o.node.registry.entries h rfl
        (fun r hr => SortedMap.get?_eq_some_iff.2 hr) (SortedMap.keys_nodup _)
    exact ⟨hl.reached, hl.steady, hl.bounded.mono⟩
  | watch key reader => exact h.acts hk rfl trivial (fun _ _ he => nomatch he)
  | refuse key cause => exact h.acts hk rfl trivial (fun _ _ he => nomatch he)

theorem Stands.step (h : Stands o₀ o k) (hk : k + 2 < UInt64.size) (e : Happening) :
    Stands o₀ (o.step e) (k + 1) := by
  have hmajor := h.bounded.major
  have hroom : o.topology.version.major.toNat + 1 < UInt64.size := by omega
  have hsame : o.topology.version.major ≤ o.topology.version.major := UInt64.le_refl _
  cases e with
  | node affinity refusal occurrence => exact h.node hk affinity refusal occurrence
  | exchange members =>
    refine h.shifts hk (UInt64.le_of_lt (lt_add_one_of_room hroom)) ?_
    show o.topology.version.nextMajor.major.toNat ≤ _
    rw [Topology.toNat_nextMajor hroom]
    omega
  | settle => exact h.shifts hk hsame (Nat.le_succ_of_le hmajor)
  | bump => exact h.shifts hk hsame (Nat.le_succ_of_le hmajor)
  | stop => exact h.shifts hk hsame (Nat.le_succ_of_le hmajor)

theorem stands_run (es : List Happening) : ∀ {o : Outpost} {k : Nat}, Stands o₀ o k →
    k + es.length + 1 < UInt64.size → Stands o₀ (o.run es) (k + es.length) := by
  induction es with
  | nil =>
    intro o k h _
    exact h
  | cons e es ih =>
    intro o k h hk
    rw [List.length_cons] at hk ⊢
    have hl := ih (h.step (by omega) e) (by omega)
    rw [show k + (es.length + 1) = k + 1 + es.length by omega]
    exact hl

theorem steady_start (config : Config) (processors : Processors) (members : List NodeId) :
    (start config processors members).Steady where
  orderly := Solo.orderly_start config processors
  attends := by
    intro h c id a hs
    cases hs
  past := by
    intro t ht
    cases ht

/-- The moves of a run, one by one, as long as no counter overflows. -/
theorem reached_run (config : Config) (processors : Processors) (members : List NodeId)
    (es : List Happening) (hlen : es.length + 1 < UInt64.size) :
    Reached (start config processors members) ((start config processors members).run es) ∧
      ((start config processors members).run es).Steady := by
  have hstart : Stands (start config processors members) (start config processors members) 0 :=
    { reached := .start
      steady := steady_start config processors members
      bounded := ⟨Solo.bounded_start config processors, Nat.le_refl 1⟩ }
  have h := stands_run es hstart (by omega)
  exact ⟨h.reached, h.steady⟩

end Outpost

end AtomicGrid
