import AtomicGrid.Proofs.Grid.Runs

/-!
# What is sent arrives

A message to a node that stays is on its link until it is received, and whatever is received was
sent.  A request that was received waits for the topology until it is handled, one way or the other.

## Results

* `Grid.Reached.linked`: what is sent, received and handled in a run.
* `Grid.Reached.orderly`: in what state nodes make their moves.
-/

set_option autoImplicit false

namespace AtomicGrid

theorem refusal_eq_none {attached : NodeSet} {s r : NodeId} : refusal attached s r = none ↔
    attached.contains s = true ∧ attached.contains r = true := by
  unfold refusal
  cases hs : attached.contains s <;> cases hr : attached.contains r <;> simp

theorem Node.sent_transmission {view : View} {r r' : NodeId} {m m' : Message}
    (h : .sent r m = transmission view r' m') : view.reaches r = true ∧ r' = r ∧ m' = m := by
  unfold transmission at h
  split at h
  next hr =>
    cases h
    exact ⟨hr, rfl, rfl⟩
  next => cases h

namespace Moment

variable {t : Moment} {s r : NodeId} {m : Message} {q : UpdateRequest}

theorem mem_sentTo : m ∈ t.sentTo r ↔ ∃ m', .sent r m' ∈ t.effects ∧ m'.received = m := by
  simp only [sentTo, List.mem_filterMap]
  constructor
  · rintro ⟨e, he, hm⟩
    cases e with
    | sent r' m' =>
      simp only [Effect.sentTo?, Option.ite_none_right_eq_some, Option.some.injEq] at hm
      obtain ⟨rfl, hm⟩ := hm
      exact ⟨m', he, hm⟩
    | _ => simp [Effect.sentTo?] at hm
  · rintro ⟨m', he, hm⟩
    exact ⟨_, he, by simp [Effect.sentTo?, hm]⟩

/-- What is transmitted to a node that can be reached is sent. -/
theorem mem_sentTo_of_reaches (h : Node.transmission t.view r m ∈ t.effects)
    (hr : t.view.reaches r = true) : m.received ∈ t.sentTo r := by
  refine mem_sentTo.2 ⟨m, ?_, rfl⟩
  rwa [Node.transmission, if_pos hr] at h

structure CarriesOut (t : Moment) (s : NodeId) (q : UpdateRequest) : Prop where
  brings : t.before.Brings s q t.move
  suits : t.before.CarriesOut t.view q

/-- The move answers a request that is not carried out. -/
structure Declines (t : Moment) (s : NodeId) (q : UpdateRequest) (r : UpdateResponse) : Prop where
  brings : t.before.Brings s q t.move
  declines : Node.Declines q r
  cacheId : r.cacheId = t.before.site.cacheId
  sent : Node.transmission t.view s (.updateResponse r) ∈ t.effects

def Handles (t : Moment) (s : NodeId) (q : UpdateRequest) : Prop :=
  t.CarriesOut s q ∨ ∃ r, t.Declines s q r

/-- The node was in order when it made the move, and had room for numbers. -/
structure Orderly (t : Moment) : Prop where
  coherent : ∃ waiting, t.before.Coherent waiting ∧ t.before.Due waiting t.move
  futures : t.before.nextFuture.toNat + 1 < UInt64.size
  handles : t.before.versions.issued.toNat + 1 < UInt64.size
  awaited : ∀ task e, t.move ≠ .resume task (.error e)
  /-- Whoever reads a message has not departed. -/
  present : ∀ s m, t.move = .receive s m → t.view.reaches t.node = true

/-- A request that is brought is handled, or waits. -/
theorem handles_or_waits (h : t.before.Brings s q t.move) :
    t.Handles s q ∨ ⟨q.topologyVersion, .process s q⟩ ∈ t.waits := by
  have hp : Node.Processed t.view t.before s q (t.before.move t.view t.move) :=
    Node.processed_move h
  have he : t.effects = (t.before.move t.view t.move).2 := rfl
  generalize t.before.move t.view t.move = x at hp he
  cases hp with
  | carriedOut hc => exact .inl (.inl ⟨h, hc⟩)
  | deferred hd =>
    refine .inr ?_
    rw [waits, he]
    exact List.mem_singleton_self _
  | @declined r hd hc =>
    refine .inl (.inr ⟨r, h, hd, hc, ?_⟩)
    rw [he]
    exact List.mem_singleton_self _

end Moment

namespace Grid

variable {config : Config} {affinity : Affinity} {processors : Processors} {ids : List NodeId}
  {g g₀ : Grid} {n : NodeId} {move : Move} {t : Moment}

/-! ## Occasions -/

theorem Occasion.links (h : Occasion g n move g₀) (s r : NodeId) : g₀.links s r = g.links s r ∨
    r = n ∧ ∃ m, move = .receive s m ∧ g.links s n = m :: g₀.links s n := by
  cases h with
  | @receive hn s' m ms hl =>
    by_cases hsr : s = s' ∧ r = n
    · obtain ⟨rfl, rfl⟩ := hsr
      exact .inr ⟨rfl, m, rfl, by simp [setLink, hl]⟩
    · exact .inl (by simp [setLink, hsr])
  | submit => exact .inl rfl
  | resume => exact .inl rfl
  | lose => exact .inl rfl
  | watch => exact .inl rfl
  | refuse => exact .inl rfl

theorem Occasion.mem_links (h : Occasion g n move g₀) {s r : NodeId} {m : Message}
    (hm : m ∈ g₀.links s r) : m ∈ g.links s r := by
  rcases h.links s r with hl | ⟨rfl, m', -, hl⟩
  · exact hl ▸ hm
  · exact hl ▸ List.mem_cons_of_mem _ hm

theorem Occasion.received {s : NodeId} {m : Message} (h : Occasion g n (.receive s m) g₀) :
    m ∈ g.links s n := by
  cases h with
  | receive hn hl => exact hl ▸ List.mem_cons_self

theorem Occasion.resumed {task : Task} {a : Except CacheError TopologyVersion}
    (h : Occasion g n (.resume task a) g₀) :
    ∃ w : Wait, w.task = task ∧ (n, w) ∈ g.tasks ∧ g.topology.awaited w.version = some a := by
  cases h with
  | @resume i w _ hi ha => exact ⟨w, rfl, List.mem_of_getElem? hi, ha⟩

theorem mem_eraseIdx_or {α : Type} {l : List α} {i : Nat} {a b : α} (hi : l[i]? = some b)
    (ha : a ∈ l) : a ∈ l.eraseIdx i ∨ a = b := by
  obtain ⟨h, rfl⟩ := List.getElem?_eq_some_iff.1 hi
  rcases List.mem_cons.1 ((List.getElem_cons_eraseIdx_perm h).mem_iff.2 ha) with he | he
  · exact .inr he
  · exact .inl he

theorem Occasion.tasks (h : Occasion g n move g₀) {p : NodeId × Wait} (hp : p ∈ g.tasks) :
    p ∈ g₀.tasks ∨ p.1 = n ∧ ∃ a, move = .resume p.2.task a := by
  cases h with
  | @resume i w a hi ha =>
    rcases mem_eraseIdx_or hi hp with he | rfl
    · exact .inl he
    · exact .inr ⟨rfl, a, rfl⟩
  | submit => exact .inl hp
  | receive => exact .inl hp
  | lose => exact .inl hp
  | watch => exact .inl hp
  | refuse => exact .inl hp

theorem Occasion.mem_tasks (h : Occasion g n move g₀) {p : NodeId × Wait} (hp : p ∈ g₀.tasks) :
    p ∈ g.tasks := by
  cases h with
  | resume hi ha => exact List.mem_of_mem_eraseIdx hp
  | submit => exact hp
  | receive => exact hp
  | lose => exact hp
  | watch => exact hp
  | refuse => exact hp

theorem awaited_error {t : Topology} (hs : t.stopping = false) {v : TopologyVersion}
    {e : CacheError} : t.awaited v ≠ some (.error e) := by
  unfold Topology.awaited
  rw [if_neg (by simp [hs])]
  split <;> simp

/-! ## Moments -/

theorem orderly_moment (hf : Framed config affinity processors g)
    (hc : ∀ n, (g.nodes n).Coherent (g.parked n)) (hr : g.Roomy) (ho : Occasion g n move g₀) :
    (g.moment n move).Orderly where
  coherent := ⟨g.parked n, hc n, ho.due⟩
  futures := hr.futures n
  handles := hr.handles n
  awaited task e he := by
    have he : move = .resume task (.error e) := he
    subst he
    obtain ⟨w, -, -, ha⟩ := ho.resumed
    exact awaited_error hf.running ha
  present s m he := by
    have he : move = .receive s m := he
    subst he
    cases ho with
    | receive hn hl =>
      show (refusal g.attached n n).isNone = true
      rw [refusal_eq_none.2 ⟨hn, hn⟩]
      rfl

theorem Reached.orderly (h : Reached (start ids config affinity processors) g) :
    ∀ t ∈ g.log, t.Orderly := by
  induction h with
  | init => exact fun t ht => (nomatch ht)
  | next h hr hn ih =>
    cases hn with
    | act ho =>
      intro t ht
      rw [ho.same.log_act] at ht
      rcases List.mem_cons.1 ht with rfl | ht
      · exact orderly_moment h.framed h.coherent hr ho
      · exact ih t ht
    | depart hn => exact ih
    | told hi ht => exact ih
    | exchange members => exact ih
    | settle => exact ih

/-- Who is there now could be reached by all who are there now. -/
theorem Common.reaches (h : Common config affinity processors g t)
    (hn : g.attached.contains t.node = true) {o : NodeId} (ho : g.attached.contains o = true) :
    t.view.reaches o = true := by
  obtain ⟨attached, ha, hs⟩ := h.refusal
  rw [View.reaches, ha, refusal_eq_none.2 ⟨hs _ hn, hs _ ho⟩]
  rfl

/-! ## Messages -/

def Sent (g : Grid) (s r : NodeId) (m : Message) : Prop :=
  ∃ t ∈ g.log, t.node = s ∧ m ∈ t.sentTo r

def Received (g : Grid) (s r : NodeId) (m : Message) : Prop :=
  ∃ t ∈ g.log, t.node = r ∧ t.move = .receive s m

structure Linked (g : Grid) : Prop where
  sent : ∀ s r, ∀ m ∈ g.links s r, g.Sent s r m
  received : ∀ s r m, g.Received s r m → g.Sent s r m
  arrives : ∀ t ∈ g.log, ∀ r, g.attached.contains r = true → ∀ m ∈ t.sentTo r,
    m ∈ g.links t.node r ∨ g.Received t.node r m
  /-- What waits to be processed was received. -/
  waiting : ∀ n w s q, (n, w) ∈ g.tasks → w.task = .process s q →
    w.version = q.topologyVersion ∧ g.Received s n (.updateRequest q)
  brought : ∀ t ∈ g.log, ∀ s q, t.before.Brings s q t.move → g.Received s t.node (.updateRequest q)
  handled : ∀ t ∈ g.log, ∀ s q, t.before.Brings s q t.move →
    (t.node, ⟨q.topologyVersion, .process s q⟩) ∈ g.tasks ∨
      ∃ t' ∈ g.log, t'.node = t.node ∧ t'.Handles s q

theorem Sent.act (hs : SameButQueues g g₀) {s r : NodeId} {m : Message} (h : g.Sent s r m) :
    (g₀.act n move).Sent s r m := by
  obtain ⟨t, ht, h⟩ := h
  exact ⟨t, by rw [log_act, hs.log]; exact List.mem_cons_of_mem _ ht, h⟩

theorem Received.act (hs : SameButQueues g g₀) {s r : NodeId} {m : Message}
    (h : g.Received s r m) : (g₀.act n move).Received s r m := by
  obtain ⟨t, ht, h⟩ := h
  exact ⟨t, by rw [log_act, hs.log]; exact List.mem_cons_of_mem _ ht, h⟩

theorem process_of_waits {w : Wait} {s : NodeId} {q : UpdateRequest} (hw : w ∈ t.waits)
    (htask : w.task = .process s q) :
    w.version = q.topologyVersion ∧ t.before.Brings s q t.move := by
  have ht : t.before.Turn t.view t.move (t.before.move t.view t.move) := Node.turn_move t.move
  have he : t.waits = (t.before.move t.view t.move).2.filterMap Effect.wait? := rfl
  rw [he] at hw
  generalize t.before.move t.view t.move = x at ht hw
  cases ht with
  | submission ht ha =>
    rw [ha.effects, Node.wait?_submission, List.mem_map] at hw
    obtain ⟨v, -, rfl⟩ := hw
    cases htask
  | carried hm hc ha =>
    rw [ha.effects, Node.wait?_fanout] at hw
    cases hw
  | acknowledged hk ha =>
    rw [ha.effects, Node.wait?_fanout] at hw
    cases hw
  | plain hp ha =>
    generalize x.2 = es at hp hw
    generalize t.move = move at hp ⊢
    cases hp with
    | quiet => cases hw
    | declined hm h hc => simp [Node.wait?_transmission] at hw
    | deferred hm h =>
      rw [List.mem_filterMap] at hw
      obtain ⟨e, he, hwait⟩ := hw
      rw [List.mem_singleton] at he
      subst he
      cases hwait
      cases htask
      exact ⟨rfl, hm⟩
    | confirmed hc =>
      simp only [Node.confirm, Node.reply, List.filterMap_cons, Node.wait?_transmission,
        List.filterMap_nil, List.not_mem_nil] at hw
    | backedUp hc =>
      rw [Node.wait?_backUp] at hw
      cases hw

/-- What was on its way still is, or has arrived by this move. -/
theorem Occasion.links_or_received (ho : Occasion g n move g₀) {s r : NodeId} {m : Message}
    (hm : m ∈ g.links s r) :
    m ∈ (g₀.act n move).links s r ∨ (g₀.act n move).Received s r m := by
  have hin : m ∈ g₀.links s r ∨ (g₀.act n move).Received s r m := by
    rcases ho.links s r with he | ⟨rfl, m', hmv, he⟩
    · exact .inl (he ▸ hm)
    · rw [he] at hm
      rcases List.mem_cons.1 hm with rfl | hm
      · exact .inr ⟨_, ho.same.mem_log_act, rfl, hmv⟩
      · exact .inl hm
  refine hin.imp_left fun hin => ?_
  rw [links_act]
  split
  · exact List.mem_append_left _ hin
  · exact hin

/-- A request that is brought was received, now or earlier. -/
theorem Linked.brought_act (h : g.Linked) (ho : Occasion g n move g₀) {s : NodeId}
    {q : UpdateRequest} (hb : (g.nodes n).Brings s q move) : (g₀.act n move).Received s n (.updateRequest q) := by
  cases hb with
  | received hc => exact ⟨_, ho.same.mem_log_act, rfl, rfl⟩
  | resumed v =>
    obtain ⟨w, hw, hmem, -⟩ := ho.resumed
    exact (h.waiting n w s q hmem hw).2.act ho.same

/-- A request that is brought waits from then on, or is handled at once. -/
theorem Occasion.handled_act (ho : Occasion g n move g₀) {s : NodeId} {q : UpdateRequest}
    (hb : (g.nodes n).Brings s q move) :
    (n, ⟨q.topologyVersion, .process s q⟩) ∈ (g₀.act n move).tasks ∨
      ∃ t ∈ (g₀.act n move).log, t.node = n ∧ t.Handles s q := by
  have hb : (g.moment n move).before.Brings s q (g.moment n move).move := hb
  rcases Moment.handles_or_waits hb with hh | hw
  · exact .inr ⟨_, ho.same.mem_log_act, rfl, hh⟩
  · refine .inl ?_
    rw [tasks_act, ho.same.moment]
    exact List.mem_append_right _ (List.mem_map_of_mem hw)

theorem Linked.act (h : g.Linked) (hf : Framed config affinity processors g)
    (ho : Occasion g n move g₀) : (g₀.act n move).Linked := by
  have hs := ho.same
  have hm := hs.moment n move
  have hlog : (g₀.act n move).log = g.moment n move :: g.log := hs.log_act
  exact {
    sent := fun s r m hl => by
      rw [links_act] at hl
      split at hl
      next he =>
        subst he
        rcases List.mem_append.1 hl with hl | hl
        · exact (h.sent s r m (ho.mem_links hl)).act hs
        · exact ⟨_, ho.same.mem_log_act, rfl, hm ▸ hl⟩
      next => exact (h.sent s r m (ho.mem_links hl)).act hs
    received := fun s r m ⟨t, ht, hn, hmv⟩ => by
      rw [hlog] at ht
      rcases List.mem_cons.1 ht with rfl | ht
      · have hmv : move = .receive s m := hmv
        subst hmv
        have hn : n = r := hn
        subst hn
        exact (h.sent s n m ho.received).act hs
      · exact (h.received s r m ⟨t, ht, hn, hmv⟩).act hs
    arrives := fun t ht r hr m hmem => by
      rw [attached_act, hs.attached] at hr
      rw [hlog] at ht
      rcases List.mem_cons.1 ht with rfl | ht
      · refine .inl ?_
        rw [links_act, if_pos (by rfl), hm]
        exact List.mem_append_right _ hmem
      · rcases h.arrives t ht r hr m hmem with hl | hrec
        · exact ho.links_or_received hl
        · exact .inr (hrec.act hs)
    waiting := fun m w s q hw htask => by
      rw [tasks_act] at hw
      rcases List.mem_append.1 hw with hw | hw
      · obtain ⟨hv, hr⟩ := h.waiting m w s q (ho.mem_tasks hw) htask
        exact ⟨hv, hr.act hs⟩
      · obtain ⟨w', hw', he⟩ := List.mem_map.1 hw
        cases he
        rw [hm] at hw'
        obtain ⟨hv, hb⟩ := process_of_waits hw' htask
        exact ⟨hv, h.brought_act ho hb⟩
    brought := fun t ht s q hb => by
      rw [hlog] at ht
      rcases List.mem_cons.1 ht with rfl | ht
      · exact h.brought_act ho hb
      · exact (h.brought t ht s q hb).act hs
    handled := fun t ht s q hb => by
      rw [hlog] at ht
      rcases List.mem_cons.1 ht with rfl | ht
      · exact ho.handled_act hb
      · rcases h.handled t ht s q hb with hw | ⟨t', ht', hh⟩
        · rcases ho.tasks hw with hw | ⟨rfl, a, rfl⟩
          · exact .inl (by rw [tasks_act]; exact List.mem_append_left _ hw)
          · -- its turn has come
            obtain ⟨w, -, -, ha⟩ := ho.resumed
            cases a with
            | ok v => exact ho.handled_act (.resumed v)
            | error e => exact absurd ha (awaited_error hf.running)
        · exact .inr ⟨t', hlog ▸ List.mem_cons_of_mem _ ht', hh⟩ }

theorem Linked.depart (h : g.Linked) : (g.depart n).Linked where
  sent s r m hm := by
    simp only [Grid.depart] at hm
    split at hm
    · cases hm
    · exact h.sent s r m hm
  received := h.received
  arrives t ht r hr m hm := by
    obtain ⟨hne, hr⟩ := SortedSet.contains_erase.1 hr
    rcases h.arrives t ht r hr m hm with hl | hrec
    · exact .inl (by simpa [Grid.depart, hne] using hl)
    · exact .inr hrec
  waiting := h.waiting
  brought := h.brought
  handled := h.handled

theorem Reached.linked (h : Reached (start ids config affinity processors) g) : g.Linked := by
  induction h with
  | init =>
    exact ⟨fun _ _ _ hm => (nomatch hm), fun _ _ _ ⟨_, ht, _⟩ => (nomatch ht),
      fun _ ht => (nomatch ht), fun _ _ _ _ hw => (nomatch hw), fun _ ht => (nomatch ht),
      fun _ ht => (nomatch ht)⟩
  | next h _ hn ih =>
    cases hn with
    | act ho => exact ih.act h.framed ho
    | depart hn => exact ih.depart
    | told hi ht => exact ⟨ih.sent, ih.received, ih.arrives, ih.waiting, ih.brought, ih.handled⟩
    | exchange members =>
      exact ⟨ih.sent, ih.received, ih.arrives, ih.waiting, ih.brought, ih.handled⟩
    | settle => exact ⟨ih.sent, ih.received, ih.arrives, ih.waiting, ih.brought, ih.handled⟩

end Grid

end AtomicGrid
