import AtomicGrid.Proofs.Grid.Reached
import AtomicGrid.Proofs.Node.Coherent
import Mathlib.Data.List.Perm.Basic

/-!
# Runs reach what steps reach

## Results

* `Grid.Reached.coherent`: the coordinators of every node are in step with its registry.
* `Grid.bounded_run`: a run of fewer than 2^64 - 1 events goes step by step.
-/

set_option autoImplicit false

namespace AtomicGrid.Grid

variable {config : Config} {affinity : Affinity} {processors : Processors} {ids : List NodeId}
  {g g₀ : Grid} {n : NodeId} {move : Move}

def parked (g : Grid) (n : NodeId) (h : Handle) : Nat :=
  g.tasks.countP fun p => p.1 = n ∧ p.2.task = .remap h

theorem countP_eraseIdx {α : Type} (p : α → Bool) {l : List α} {i : Nat} {a : α}
    (h : l[i]? = some a) :
    (l.eraseIdx i).countP p + (if p a then 1 else 0) = l.countP p := by
  obtain ⟨hi, rfl⟩ := List.getElem?_eq_some_iff.1 h
  have := (List.getElem_cons_eraseIdx_perm hi).countP_eq p
  rwa [List.countP_cons] at this

/-- The tasks of an occasion, but for the one that goes on. -/
theorem Occasion.parked (h : Occasion g n move g₀) (m : NodeId) (k : Handle) :
    g₀.parked m k = if m = n then Node.rest (g.parked n) move k else g.parked m k := by
  have hsame (hr : Node.rest (g.parked n) move = g.parked n) :
      g.parked m k = if m = n then Node.rest (g.parked n) move k else g.parked m k := by
    split
    next he => rw [hr, he]
    next => rfl
  cases h with
  | @resume i w awaited hi ha =>
    have hc := countP_eraseIdx
      (fun p : NodeId × Wait => decide (p.1 = m ∧ p.2.task = .remap k)) hi
    show (g.tasks.eraseIdx i).countP _ = _
    cases htask : w.task with
    | process sender request =>
      have h := hsame (by rw [htask]; rfl)
      rw [htask] at h
      rw [← h]
      unfold Grid.parked
      simpa [htask] using hc
    | remap k' =>
      simp only [htask] at hc
      simp only [Node.rest]
      by_cases hm : m = n
      · subst hm
        by_cases hk : k = k'
        · subst hk
          simp only [and_self, decide_true, if_true] at hc ⊢
          unfold Grid.parked
          omega
        · simp only [Ne.symm hk, Task.remap.injEq, and_false, decide_false, Bool.false_eq_true,
            if_false, if_true, hk, Nat.add_zero] at hc ⊢
          exact hc
      · simp only [Ne.symm hm, false_and, decide_false, Bool.false_eq_true, if_false, hm,
          Nat.add_zero] at hc ⊢
        exact hc
  | submit => exact hsame rfl
  | receive => exact hsame rfl
  | lose => exact hsame rfl
  | watch => exact hsame rfl
  | refuse => exact hsame rfl

theorem Occasion.due (h : Occasion g n move g₀) : (g.nodes n).Due (g.parked n) move := by
  cases h with
  | @resume i w awaited hi ha =>
    cases htask : w.task with
    | process sender request => exact trivial
    | remap k =>
      have hc := countP_eraseIdx
        (fun p : NodeId × Wait => decide (p.1 = n ∧ p.2.task = .remap k)) hi
      simp only [htask, and_self, decide_true, if_true] at hc
      show g.parked n k ≠ 0
      unfold Grid.parked
      omega
  | lose hn hu hr => exact SortedMap.get?_eq_some_iff.2 hr
  | submit => exact trivial
  | receive => exact trivial
  | watch => exact trivial
  | refuse => exact trivial

theorem parked_act (m : NodeId) (k : Handle) : (g.act n move).parked m k =
    g.parked m k + if m = n then Node.remaps (g.moment n move).effects k else 0 := by
  unfold parked
  rw [tasks_act, List.countP_append, List.countP_map]
  congr 1
  split
  next he =>
    simp only [Function.comp_def, he, true_and]
    rfl
  next he =>
    rw [List.countP_eq_zero]
    intro w hw
    simp [Ne.symm he]

theorem coherent_act (h : ∀ m, (g.nodes m).Coherent (g.parked m)) (hr : g.Roomy)
    (ho : Occasion g n move g₀) (m : NodeId) :
    ((g₀.act n move).nodes m).Coherent ((g₀.act n move).parked m) := by
  have hs := ho.same
  have hp : (g₀.act n move).parked m = fun k =>
      (if m = n then Node.rest (g.parked n) move k else g.parked m k) +
        if m = n then Node.remaps (g.moment n move).effects k else 0 := by
    funext k
    rw [parked_act, ho.parked, hs.moment]
  rw [hp, hs.nodes_act]
  by_cases hm : m = n
  · simp only [hm, if_true]
    exact Node.coherent_move (h n) ho.due (hr.futures n) (hr.handles n)
  · simp only [hm, if_false, Nat.add_zero]
    exact h m

/-- The coordinators of every node are in step with its registry. -/
theorem Reached.coherent (h : Reached (start ids config affinity processors) g) :
    ∀ n, (g.nodes n).Coherent (g.parked n) := by
  induction h with
  | init =>
    exact fun n => Node.coherent_ofConfig _ _
  | next h hr hn ih =>
    cases hn with
    | act ho => exact coherent_act ih hr ho
    | depart hn => exact ih
    | told hi ht => exact ih
    | exchange members => exact ih
    | settle => exact ih

/-! ## Runs -/

/-- The counters after `k` events at most. -/
structure Bounded (g : Grid) (k : Nat) : Prop where
  futures : ∀ n, (g.nodes n).nextFuture.toNat ≤ k + 1
  handles : ∀ n, (g.nodes n).versions.issued.toNat ≤ k
  versions : g.topology.version.major.toNat ≤ k + 1

theorem Bounded.roomy {k : Nat} (h : g.Bounded k) (hk : k + 2 < UInt64.size) : g.Roomy where
  futures n := by have := h.futures n; omega
  handles n := by have := h.handles n; omega
  versions := by have := h.versions; omega

theorem Bounded.mono {k : Nat} (h : g.Bounded k) : g.Bounded (k + 1) where
  futures n := by have := h.futures n; omega
  handles n := by have := h.handles n; omega
  versions := by have := h.versions; omega

theorem toNat_add_one_le (x : UInt64) : (x + 1).toNat ≤ x.toNat + 1 := by
  rw [UInt64.toNat_add, UInt64.toNat_one]
  exact Nat.mod_le _ _

theorem Bounded.act {k : Nat} (h : g.Bounded k) (hs : SameButQueues g g₀) :
    (g₀.act n move).Bounded (k + 1) where
  futures m := by
    rw [hs.nodes_act]
    split
    next he =>
      have hn := h.futures n
      rcases Node.nextFuture_move (g.view n) (g.nodes n) move with hm | hm
      · show ((g.nodes n).move (g.view n) move).1.nextFuture.toNat ≤ _
        rw [hm]
        omega
      · show ((g.nodes n).move (g.view n) move).1.nextFuture.toNat ≤ _
        rw [hm]
        have := toNat_add_one_le (g.nodes n).nextFuture
        omega
    next => have := h.futures m; omega
  handles m := by
    rw [hs.nodes_act]
    split
    next he =>
      have hn := h.handles n
      rcases Node.issued_move (g.view n) (g.nodes n) move with hm | hm
      · show ((g.nodes n).move (g.view n) move).1.versions.issued.toNat ≤ _
        rw [hm]
        omega
      · show ((g.nodes n).move (g.view n) move).1.versions.issued.toNat ≤ _
        rw [hm]
        have := toNat_add_one_le (g.nodes n).versions.issued
        omega
    next => have := h.handles m; omega
  versions := by
    rw [topology_act, hs.topology]
    have := h.versions
    omega

theorem Bounded.lose {k : Nat} (h : g.Bounded k) (n gone : NodeId)
    (r : FutureId × Registered) : (g.act n (.lose gone r)).Bounded k where
  futures m := by
    rw [nodes_act]
    split
    next he =>
      obtain ⟨hf, -⟩ := Node.counters_lose (g.view n) (g.nodes n) gone r
      show ((g.nodes n).move (g.view n) (.lose gone r)).1.nextFuture.toNat ≤ _
      exact hf ▸ h.futures n
    next => exact h.futures m
  handles m := by
    rw [nodes_act]
    split
    next he =>
      obtain ⟨-, hv⟩ := Node.counters_lose (g.view n) (g.nodes n) gone r
      show ((g.nodes n).move (g.view n) (.lose gone r)).1.versions.issued.toNat ≤ _
      exact hv ▸ h.handles n
    next => exact h.handles m
  versions := h.versions

/-- What telling coordinators of a departure leads to. -/
structure Lost (g₀ g : Grid) (k : Nat) (n gone : NodeId) (rs : List (FutureId × Registered))
    (g' : Grid) : Prop where
  reached : Reached g₀ g'
  bounded : g'.Bounded k
  attached : g'.attached = g.attached
  untold : g'.untold = g.untold
  log : ∀ t ∈ g.log, t ∈ g'.log
  told : ∀ r ∈ rs, ∃ t ∈ g'.log, t.node = n ∧ t.move = .lose gone r
  registry : ∀ r ∈ (g'.nodes n).registry.entries, r ∈ (g.nodes n).registry.entries

theorem lost_loseAll {k : Nat} (hk : k + 2 < UInt64.size) {gone : NodeId} :
    ∀ (rs : List (FutureId × Registered)) {g : Grid},
      Reached (start ids config affinity processors) g → g.Bounded k →
      g.attached.contains n = true → (n, gone) ∈ g.untold →
      (∀ r ∈ rs, r ∈ (g.nodes n).registry.entries) → (rs.map (·.1)).Nodup →
      Lost (start ids config affinity processors) g k n gone rs (g.loseAll n gone rs)
  | [], g, h, hb, _, _, _, _ => ⟨h, hb, rfl, rfl, fun _ ht => ht, nofun, fun _ hr => hr⟩
  | r :: rs, g, h, hb, ha, hu, hrs, hnd => by
    rw [List.map_cons, List.nodup_cons] at hnd
    have hr := SortedMap.get?_eq_some_iff.2 (hrs r List.mem_cons_self)
    have hc := h.coherent n
    have hg : Reached (start ids config affinity processors) (g.act n (.lose gone r)) :=
      .next h (hb.roomy hk) (.act (.lose ha hu (hrs r List.mem_cons_self)))
    have hnode : (g.act n (.lose gone r)).nodes n =
        ((g.nodes n).move (g.view n) (.lose gone r)).1 := by
      rw [nodes_act, if_pos rfl]
      rfl
    have ih := lost_loseAll hk rs hg (hb.lose n gone r) ha hu (fun r' hr' => by
      have hne : r'.1 ≠ r.1 := fun he => hnd.1 (he ▸ List.mem_map_of_mem hr')
      rw [hnode, ← SortedMap.get?_eq_some_iff, Node.registry_lose hc hr hne,
        SortedMap.get?_eq_some_iff]
      exact hrs r' (List.mem_cons_of_mem _ hr')) hnd.2
    exact {
      reached := ih.reached
      bounded := ih.bounded
      attached := ih.attached
      untold := ih.untold
      log := fun t ht => ih.log t (List.mem_cons_of_mem _ ht)
      told := fun r' hr' => by
        rcases List.mem_cons.1 hr' with rfl | hr'
        · exact ⟨_, ih.log _ List.mem_cons_self, rfl, rfl⟩
        · exact ih.told r' hr'
      registry := fun r' hr' => by
        have hr' := ih.registry r' hr'
        rw [hnode, ← SortedMap.get?_eq_some_iff] at hr'
        rcases Node.registry_move hc (by exact hr) hr' with h' | ⟨-, h'⟩
        · exact SortedMap.get?_eq_some_iff.1 h'
        · rw [(Node.counters_lose _ _ _ _).1] at h'
          exact absurd (lt_add_one_of_room ((hb.roomy hk).futures n)) (h' ▸ UInt64.lt_irrefl _) }

theorem Bounded.of_topology {k : Nat} (h : g.Bounded k) {t : Topology}
    (ht : t.version.major.toNat ≤ k + 2) : Bounded { g with topology := t } (k + 1) where
  futures := h.mono.futures
  handles := h.mono.handles
  versions := ht

theorem major_nextMajor (v : TopologyVersion) : v.nextMajor.major.toNat ≤ v.major.toNat + 1 :=
  toNat_add_one_le _

theorem reached_step {k : Nat} (hk : k + 2 < UInt64.size)
    (h : Reached (start ids config affinity processors) g) (hb : g.Bounded k) (e : Event) :
    Reached (start ids config affinity processors) (g.step e) ∧ (g.step e).Bounded (k + 1) := by
  have hroom := hb.roomy hk
  have hstay : Reached (start ids config affinity processors) g ∧ g.Bounded (k + 1) := ⟨h, hb.mono⟩
  have hact {n : NodeId} {move : Move} {g₀ : Grid} (ho : Occasion g n move g₀) :
      Reached (start ids config affinity processors) (g₀.act n move) ∧
        (g₀.act n move).Bounded (k + 1) := ⟨.next h hroom (.act ho), hb.act ho.same⟩
  cases e with
  | submit n u =>
    simp only [step]
    split
    next ha => exact hact (.submit ha u)
    next => exact hstay
  | deliver s r =>
    simp only [step]
    split
    next m ms hl =>
      split
      next ha => exact hact (.receive ha hl)
      next => exact hstay
    next => exact hstay
  | resume i =>
    simp only [step]
    split
    next n w hi =>
      split
      next awaited ha => exact hact (.resume hi ha)
      next => exact hstay
    next => exact hstay
  | depart n =>
    simp only [step]
    split
    next ha =>
      refine ⟨.next h hroom (.depart ha), hb.mono.futures, hb.mono.handles, ?_⟩
      have := hb.versions
      have hm : (g.depart n).topology.version.major.toNat ≤ g.topology.version.major.toNat + 1 :=
        major_nextMajor _
      omega
    next => exact hstay
  | tell i =>
    simp only [step]
    split
    next n gone hi =>
      unfold tell
      split
      next ha =>
        have hl := lost_loseAll hk (g.nodes n).registry.entries h hb ha
          (List.mem_of_getElem? hi) (fun _ hr => hr) (SortedMap.keys_nodup _)
        have hi' : (g.loseAll n gone (g.nodes n).registry.entries).untold[i]? = some (n, gone) := by
          rw [hl.untold, hi]
        refine ⟨?_, ?_⟩
        · have := Next.told hi' fun _ r hr => hl.told r (hl.registry r hr)
          rw [hl.untold] at this
          exact .next hl.reached (hl.bounded.roomy hk) this
        · have := hl.bounded.mono
          exact ⟨this.futures, this.handles, this.versions⟩
      next ha =>
        exact ⟨.next h hroom (.told hi fun hc => absurd hc ha), hb.mono.futures, hb.mono.handles,
          hb.mono.versions⟩
    next => exact hstay
  | exchange members =>
    refine ⟨.next h hroom (.exchange members), hb.of_topology ?_⟩
    have := hb.versions
    have := major_nextMajor g.topology.version
    show g.topology.version.nextMajor.major.toNat ≤ _
    omega
  | settle =>
    refine ⟨.next h hroom .settle, hb.of_topology ?_⟩
    have := hb.versions
    show g.topology.version.major.toNat ≤ _
    omega
  | watch n key reader => exact hact (.watch key reader)
  | refuse n key cause => exact hact (.refuse key cause)

/-- A run whose counters have room goes step by step, and counts every event once. -/
theorem bounded_run {es : List Event} (h : es.length + 1 < UInt64.size) :
    Reached (start ids config affinity processors)
        ((start ids config affinity processors).run es) ∧
      ((start ids config affinity processors).run es).Bounded es.length := by
  have hrun (es : List Event) : ∀ (g : Grid) (k : Nat), k + es.length + 1 < UInt64.size →
      Reached (start ids config affinity processors) g → g.Bounded k →
      Reached (start ids config affinity processors) (g.run es) ∧
        (g.run es).Bounded (k + es.length) := by
    induction es with
    | nil => exact fun _ _ _ h hb => ⟨h, hb⟩
    | cons e es ih =>
      intro g k hk h hb
      rw [List.length_cons] at hk ⊢
      obtain ⟨h', hb'⟩ := reached_step (by omega) h hb e
      rw [show k + (es.length + 1) = k + 1 + es.length by omega]
      exact ih _ (k + 1) (by omega) h' hb'
  have hstart : (start ids config affinity processors).Bounded 0 :=
    ⟨fun _ => Nat.le_refl 1, fun _ => Nat.le_refl 0, Nat.le_refl 1⟩
  have h := hrun es _ 0 (by omega) .init hstart
  rwa [Nat.zero_add] at h

theorem reached_run {es : List Event} (h : es.length + 1 < UInt64.size) :
    Reached (start ids config affinity processors)
      ((start ids config affinity processors).run es) := (bounded_run h).1

variable {t : Moment}

theorem mem_log_loseAll {gone : NodeId} (rs : List (FutureId × Registered)) :
    ∀ {g : Grid}, t ∈ g.log → t ∈ (g.loseAll n gone rs).log := by
  induction rs with
  | nil => exact fun ht => ht
  | cons r rs ih => exact fun ht => ih (List.mem_cons_of_mem _ ht)

/-- What is on record stays there. -/
theorem mem_log_step (e : Event) (ht : t ∈ g.log) : t ∈ (g.step e).log := by
  cases e with
  | submit n' u =>
    simp only [step]
    split
    next => exact List.mem_cons_of_mem _ ht
    next => exact ht
  | deliver s r =>
    simp only [step]
    split
    next =>
      split
      next => exact List.mem_cons_of_mem _ ht
      next => exact ht
    next => exact ht
  | resume i =>
    simp only [step]
    split
    next =>
      split
      next => exact List.mem_cons_of_mem _ ht
      next => exact ht
    next => exact ht
  | depart n' =>
    simp only [step]
    split
    next => exact ht
    next => exact ht
  | tell i =>
    simp only [step]
    split
    next n' gone hi =>
      show t ∈ (g.tell n' gone).log
      unfold tell
      split
      next => exact mem_log_loseAll _ ht
      next => exact ht
    next => exact ht
  | exchange members => exact ht
  | settle => exact ht
  | watch n' key reader => exact List.mem_cons_of_mem _ ht
  | refuse n' key cause => exact List.mem_cons_of_mem _ ht

theorem mem_log_run (es : List Event) : ∀ {g : Grid}, t ∈ g.log → t ∈ (g.run es).log := by
  induction es with
  | nil => exact fun ht => ht
  | cons e es ih => exact fun ht => ih (mem_log_step e ht)

end AtomicGrid.Grid
