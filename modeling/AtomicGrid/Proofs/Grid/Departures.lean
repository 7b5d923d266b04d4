import AtomicGrid.Proofs.Grid.Links
import AtomicGrid.Proofs.Topology

/-!
# Departures become known

A node that leaves is gone for good.  All others hear of it, and until they have heard it is on
record that they have not.  The topology moves on with every departure.

## Results

* `Grid.Reached.informed`: which coordinators have heard of a departure.
* `Grid.Reached.traced`: the topology has come of those that were seen before.
* `Grid.Reached.ordered`: who can be reached later can be reached before.
-/

set_option autoImplicit false

namespace AtomicGrid

namespace Grid

variable {config : Config} {affinity : Affinity} {processors : Processors} {ids : List NodeId}
  {g g₀ : Grid} {n : NodeId} {move : Move}

def Hears (g : Grid) (n gone : NodeId) (r : FutureId × Registered) : Prop :=
  ∃ t ∈ g.log, t.node = n ∧ t.move = .lose gone r

/-- A coordinator has started after a node had left. -/
def Outlives (g : Grid) (n gone : NodeId) (id : FutureId) : Prop :=
  ∃ t ∈ g.log, t.node = n ∧ t.Allots ∧ t.number = id ∧ t.view.reaches gone = false

/-- Who has heard of the departures. -/
structure Informed (g : Grid) : Prop where
  untold : ∀ p ∈ g.untold, g.attached.contains p.2 = false
  gone : ∀ t ∈ g.log, ∀ o r, t.move = .lose o r → g.attached.contains o = false
  told : ∀ n, g.attached.contains n = true → ∀ r ∈ (g.nodes n).registry.entries,
    ∀ o, g.attached.contains o = false → (n, o) ∈ g.untold ∨ g.Hears n o r ∨ g.Outlives n o r.1

theorem Hears.act (hs : SameButQueues g g₀) {gone : NodeId} {r : FutureId × Registered} {m : NodeId}
    (h : g.Hears m gone r) : (g₀.act n move).Hears m gone r := by
  obtain ⟨t, ht, h⟩ := h
  exact ⟨t, by rw [log_act, hs.log]; exact List.mem_cons_of_mem _ ht, h⟩

theorem Outlives.act (hs : SameButQueues g g₀) {gone : NodeId} {id : FutureId} {m : NodeId}
    (h : g.Outlives m gone id) : (g₀.act n move).Outlives m gone id := by
  obtain ⟨t, ht, h⟩ := h
  exact ⟨t, by rw [log_act, hs.log]; exact List.mem_cons_of_mem _ ht, h⟩

theorem reaches_view {o : NodeId} : (g.view n).reaches o = true ↔
    g.attached.contains n = true ∧ g.attached.contains o = true := by
  rw [View.reaches, Option.isNone_iff_eq_none]
  exact refusal_eq_none

theorem Informed.act (h : g.Informed) (hc : ∀ n, (g.nodes n).Coherent (g.parked n))
    (ho : Occasion g n move g₀) : (g₀.act n move).Informed := by
  have hs := ho.same
  have hlog : (g₀.act n move).log = g.moment n move :: g.log := hs.log_act
  have hatt : (g₀.act n move).attached = g.attached := by rw [attached_act, hs.attached]
  have hunt : (g₀.act n move).untold = g.untold := by rw [untold_act, hs.untold]
  refine ⟨fun p hp => ?_, fun t ht o r hmv => ?_, fun m hatm r hr o hgone => ?_⟩
  · rw [hunt] at hp
    rw [hatt]
    exact h.untold p hp
  · rw [hatt]
    rw [hlog] at ht
    rcases List.mem_cons.1 ht with rfl | ht
    · have hmv : move = .lose o r := hmv
      subst hmv
      cases ho with
      | lose hn hu hr => exact h.untold _ hu
    · exact h.gone t ht o r hmv
  · rw [hatt] at hatm hgone
    rw [hunt]
    have hold (hr : r ∈ (g.nodes m).registry.entries) :
        (m, o) ∈ g.untold ∨ (g₀.act n move).Hears m o r ∨ (g₀.act n move).Outlives m o r.1 :=
      (h.told m hatm r hr o hgone).imp_right fun hh =>
        hh.imp (fun hh => hh.act hs) fun hh => hh.act hs
    rw [hs.nodes_act] at hr
    split at hr
    next he =>
      subst he
      rcases Node.registry_move (hc m) ho.due (SortedMap.get?_eq_some_iff.2 hr) with hr | ⟨hk, hn⟩
      · exact hold (SortedMap.get?_eq_some_iff.1 hr)
      · -- the coordinator starts now, and sees who is gone
        refine .inr (.inr ⟨g.moment m move, hlog ▸ List.mem_cons_self, rfl, hn, hk.symm, ?_⟩)
        rw [Bool.eq_false_iff]
        intro hreach
        rw [(reaches_view.1 hreach).2] at hgone
        cases hgone
    next => exact hold hr

theorem Informed.depart (h : g.Informed) : (g.depart n).Informed := by
  have hstay {o : NodeId} (ho : g.attached.contains o = false) :
      (g.depart n).attached.contains o = false :=
    Bool.eq_false_iff.2 fun hc => Bool.eq_false_iff.1 ho (SortedSet.contains_erase.1 hc).2
  refine ⟨fun p hp => ?_, fun t ht o r hmv => hstay (h.gone t ht o r hmv),
    fun m hatm r hr o hgone => ?_⟩
  · rcases List.mem_append.1 hp with hp | hp
    · exact hstay (h.untold p hp)
    · obtain ⟨m, -, rfl⟩ := List.mem_map.1 hp
      exact Bool.eq_false_iff.2 fun hc => (SortedSet.contains_erase.1 hc).1 rfl
  · by_cases hon : o = n
    · subst hon
      refine .inl (List.mem_append_right _ (List.mem_map.2 ⟨m, ?_, rfl⟩))
      exact SortedMap.mem_keys_iff.2 hatm
    · obtain ⟨-, hatm⟩ := SortedSet.contains_erase.1 hatm
      have hgone : g.attached.contains o = false := by
        rw [Bool.eq_false_iff] at hgone ⊢
        exact fun hc => hgone (SortedSet.contains_erase.2 ⟨hon, hc⟩)
      exact (h.told m hatm r hr o hgone).imp_left fun hu => List.mem_append_left _ hu

theorem Informed.eraseUntold (h : g.Informed) {i : Nat} {gone : NodeId}
    (hi : g.untold[i]? = some (n, gone)) (ht : g.attached.contains n = true →
      ∀ r ∈ (g.nodes n).registry.entries, g.Hears n gone r) :
    Informed { g with untold := g.untold.eraseIdx i } := by
  refine ⟨fun p hp => h.untold p (List.mem_of_mem_eraseIdx hp), h.gone, fun m hatm r hr o hgone => ?_⟩
  rcases h.told m hatm r hr o hgone with hu | hh
  · rcases mem_eraseIdx_or hi hu with hu | he
    · exact .inl hu
    · cases he
      exact .inr (.inl (ht hatm r hr))
  · exact .inr hh

theorem Reached.informed (h : Reached (start ids config affinity processors) g) : g.Informed := by
  induction h with
  | init =>
    exact ⟨fun _ hp => (nomatch hp), fun _ ht => (nomatch ht), fun _ _ _ hr => (nomatch hr)⟩
  | next h _ hn ih =>
    cases hn with
    | act ho => exact ih.act h.coherent ho
    | depart hn => exact ih.depart
    | told hi ht => exact ih.eraseUntold hi ht
    | exchange members => exact ⟨ih.untold, ih.gone, ih.told⟩
    | settle => exact ⟨ih.untold, ih.gone, ih.told⟩

/-! ## Versions -/

/-- The topology is what has become of those that were seen before. -/
structure Traced (g : Grid) : Prop where
  filed : g.topology.Filed
  later : ∀ t ∈ g.log, t.view.topology.Filed ∧ t.view.topology.Later g.topology

theorem Traced.exchange (h : g.Traced) (hr : g.Roomy) (members : List NodeId) :
    Traced { g with topology := g.topology.beginExchange members } := by
  constructor
  · exact h.filed.later (.exchange .refl hr.versions members)
  · intro t ht
    obtain ⟨hf, hl⟩ := h.later t ht
    exact ⟨hf, .exchange hl hr.versions members⟩

theorem Traced.settle (h : g.Traced) :
    Traced { g with topology := g.topology.completeExchange } := by
  constructor
  · exact h.filed.later (.settle .refl)
  · intro t ht
    obtain ⟨hf, hl⟩ := h.later t ht
    exact ⟨hf, .settle hl⟩

theorem Reached.traced (h : Reached (start ids config affinity processors) g) : g.Traced := by
  induction h with
  | init => exact ⟨Topology.filed_start ids, fun t ht => (nomatch ht)⟩
  | @next g g' h hr hn ih =>
    cases hn with
    | @act n move g₀ ho =>
      have hs := ho.same
      have htop : (g₀.act n move).topology = g.topology := hs.topology
      constructor
      · rw [htop]
        exact ih.filed
      · intro t ht
        rw [hs.log_act] at ht
        rw [htop]
        rcases List.mem_cons.1 ht with rfl | ht
        · exact ⟨ih.filed, .refl⟩
        · exact ih.later t ht
    | @depart n hn =>
      have hx := (ih.exchange hr (g.topology.nodes.toList.filter (· ≠ n))).settle
      exact ⟨hx.filed, hx.later⟩
    | told hi ht => exact ⟨ih.filed, ih.later⟩
    | exchange members => exact ih.exchange hr members
    | settle => exact ih.settle

/-- Nobody has seen a version to come. -/
theorem Reached.version_le (h : Reached (start ids config affinity processors) g) :
    ∀ t ∈ g.log, t.view.topology.version ≤ g.topology.version :=
  fun t ht => (h.traced.later t ht).2.version_le

/-! ## The order of moves -/

structure Ordered (g : Grid) : Prop where
  number_le : ∀ t ∈ g.log, t.number ≤ (g.nodes t.node).nextFuture
  since : ∀ t ∈ g.log, ∀ t' ∈ g.log, t.node = t'.node → t.number < t'.number →
    ∀ o, t'.view.reaches o = true → t.view.reaches o = true

/-- Who is there now could be reached by a node that could reach anybody. -/
theorem Common.reaches_of_reaches {t : Moment} (h : Common config affinity processors g t)
    {o o' : NodeId} (hv : t.view.reaches o = true) (ho : g.attached.contains o' = true) :
    t.view.reaches o' = true := by
  obtain ⟨attached, ha, hs⟩ := h.refusal
  rw [View.reaches, ha, Option.isNone_iff_eq_none, refusal_eq_none] at hv
  rw [View.reaches, ha, refusal_eq_none.2 ⟨hv.1, hs o' ho⟩]
  rfl

theorem Common.reaches_self {t : Moment} (h : Common config affinity processors g t)
    {o : NodeId} (hv : t.view.reaches o = true) : t.view.reaches t.node = true := by
  obtain ⟨attached, ha, hs⟩ := h.refusal
  rw [View.reaches, ha, Option.isNone_iff_eq_none, refusal_eq_none] at hv
  rw [View.reaches, ha, refusal_eq_none.2 ⟨hv.1, hv.1⟩]
  rfl

theorem nextFuture_le_act (hr : g.Roomy) (hs : SameButQueues g g₀) (m : NodeId) :
    (g.nodes m).nextFuture ≤ ((g₀.act n move).nodes m).nextFuture := by
  rw [hs.nodes_act]
  split
  next he =>
    subst he
    rcases Node.nextFuture_move (g.view m) (g.nodes m) move with hn | hn
    · exact UInt64.le_of_eq hn.symm
    · show _ ≤ ((g.nodes m).move (g.view m) move).1.nextFuture
      rw [hn]
      exact UInt64.le_of_lt (lt_add_one_of_room (hr.futures m))
  next => exact UInt64.le_refl _

theorem Ordered.act (h : g.Ordered) (hf : Framed config affinity processors g) (hr : g.Roomy)
    (ho : Occasion g n move g₀) : (g₀.act n move).Ordered := by
  have hs := ho.same
  have hlog : (g₀.act n move).log = g.moment n move :: g.log := hs.log_act
  refine ⟨fun t ht => ?_, fun t ht t' ht' hn hlt o ho => ?_⟩
  · rw [hlog] at ht
    rcases List.mem_cons.1 ht with rfl | ht
    · exact nextFuture_le_act hr hs n
    · exact UInt64.le_trans (h.number_le t ht) (nextFuture_le_act hr hs _)
  · rw [hlog] at ht ht'
    rcases List.mem_cons.1 ht with rfl | ht
    · -- no move has had a greater number so far
      rcases List.mem_cons.1 ht' with rfl | hold
      · exact ho
      · have hle := h.number_le t' hold
        rw [← show n = t'.node from hn] at hle
        exact absurd hlt (UInt64.not_lt.2 hle)
    · rcases List.mem_cons.1 ht' with rfl | ht'
      · obtain ⟨hself, ho⟩ := reaches_view.1 ho
        exact (hf.common t ht).reaches (hn ▸ hself) ho
      · exact h.since t ht t' ht' hn hlt o ho

theorem Reached.ordered (h : Reached (start ids config affinity processors) g) : g.Ordered := by
  induction h with
  | init => exact ⟨fun _ ht => (nomatch ht), fun _ ht => (nomatch ht)⟩
  | next h hr hn ih =>
    cases hn with
    | act ho => exact ih.act h.framed hr ho
    | depart hn => exact ⟨ih.number_le, ih.since⟩
    | told hi ht => exact ⟨ih.number_le, ih.since⟩
    | exchange members => exact ⟨ih.number_le, ih.since⟩
    | settle => exact ⟨ih.number_le, ih.since⟩

end Grid

end AtomicGrid
