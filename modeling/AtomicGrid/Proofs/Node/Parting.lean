import AtomicGrid.Proofs.Node.Coherent
import Mathlib.Data.List.Basic

/-!
# Hearing of a departure in any order

When a node leaves, every coordinator that has a number hears of it.  `Node.departed` tells them in
the order of their numbers, but nothing says that they have to hear in that order.

A coordinator acts on what it knows itself, gives up no number but its own, and takes none.  So what
it does is the same whoever has heard before it, and the coordinators are the same when all have
heard.  Only what the near cache holds may depend on the order, if two updates of a key end with the
departure: a near cache forgets the version of a removal, so an older value that comes after it
stays.

## Results

* `Node.heard_each`: what has become of the coordinators that have heard.
* `Node.departed_perm`: the order in which coordinators hear of a departure.
-/

set_option autoImplicit false

namespace AtomicGrid.Node

variable {n n' : Node} {waiting waiting' : Handle → Nat} {view : View} {gone : NodeId}
  {r r' : FutureId × Registered}

/-- The submissions when a coordinator has heard of a departure. -/
def hearSubmission (view : View) (site : Site) (gone : NodeId)
    (m : SortedMap Handle Submission) (r : FutureId × Registered) : SortedMap Handle Submission :=
  match r.2 with
  | .submission h => m.modify h fun c => (c.onDeparture site view gone).1
  | .fanout => m

/-- The fan-outs when a coordinator has heard of a departure. -/
def hearFanout (site : Site) (gone : NodeId) (m : SortedMap FutureId Fanout)
    (r : FutureId × Registered) : SortedMap FutureId Fanout :=
  match r.2 with
  | .submission _ => m
  | .fanout => m.modify r.1 fun f => (f.register site gone true).1

/-- What a coordinator has to say to a departure. -/
def hearEffects (view : View) (gone : NodeId) (n : Node) (r : FutureId × Registered) :
    List Effect :=
  match r.2 with
  | .submission h => ((n.submissions.get? h).map fun c => (c.onDeparture n.site view gone).2.flatMap
      (SubmissionAction.effects view h n.nearCache.isSome)).getD []
  | .fanout => ((n.fanouts.get? r.1).map fun f => (f.register n.site gone true).2.1.flatMap
      (FanoutAction.effects view)).getD []

/-- The coordinators in `rs` have heard of a departure, and nothing else has changed but the
registry and what the near cache holds. -/
structure Heard (view : View) (gone : NodeId) (n : Node) (rs : List (FutureId × Registered))
    (n' : Node) : Prop where
  submissions : n'.submissions = rs.foldl (hearSubmission view n.site gone) n.submissions
  fanouts : n'.fanouts = rs.foldl (hearFanout n.site gone) n.fanouts
  site : n'.site = n.site
  processors : n'.processors = n.processors
  versions : n'.versions = n.versions
  nextFuture : n'.nextFuture = n.nextFuture
  store : n'.store = n.store
  faults : n'.faults = n.faults
  nearCache : n'.nearCache.isSome = n.nearCache.isSome

/-! ## One coordinator -/

theorem heard_lose (view : View) (gone : NodeId) (hc : n.Coherent waiting)
    (hr : n.registry.get? r.1 = some r.2) :
    Heard view gone n [r] (n.move view (.lose gone r)).1 ∧
      (n.move view (.lose gone r)).2 = hearEffects view gone n r := by
  obtain ⟨hfuture, hversions⟩ := counters_lose view n gone r
  obtain ⟨id, who⟩ := r
  cases who with
  | submission h =>
    obtain ⟨c, hs, -⟩ := (hc.submission id h).1 hr
    have ht : SubmissionTurn view n (.lose gone (id, .submission h)) h c
      (c.onDeparture n.site view gone) := .departure hs gone
    have ha := submission_move ht
    refine ⟨⟨?_, ha.fanouts, ha.site, ha.processors, hversions, hfuture, ha.store, ha.faults,
      ha.nearCache⟩, ?_⟩
    · rw [ha.submissions]
      simp only [List.foldl_cons, List.foldl_nil, hearSubmission, SortedMap.modify, hs]
    · rw [ha.effects]
      simp only [hearEffects, hs, Option.map_some, Option.getD_some]
  | fanout =>
    obtain ⟨f, hf, -⟩ := (hc.fanout id).1 hr
    obtain ⟨hid, hsound, -⟩ := hc.fanouts id f hf
    have hk : Acknowledges n (.lose gone (id, .fanout)) id f gone true := .departure hf gone
    obtain ⟨ha, -, hstore⟩ : AfterFanout view n _ _ ∧ _ ∧ _ := acknowledged_move hk
    have hsame : (f.register n.site gone true).1.id = id :=
      (Fanout.id_eq (Fanout.tracks_register n.site hsound gone true).toSameFanout).trans hid
    refine ⟨⟨ha.submissions, ?_, ha.site, ha.processors, hversions, hfuture, hstore, ha.faults,
      congrArg Option.isSome ha.nearCache⟩, ?_⟩
    · rw [ha.fanouts, hsame]
      simp only [List.foldl_cons, List.foldl_nil, hearFanout, SortedMap.modify, hf]
    · rw [ha.effects]
      simp only [hearEffects, hf, Option.map_some, Option.getD_some]

/-- What a coordinator has to say does not depend on whether another has heard. -/
theorem hearEffects_lose (hc : n.Coherent waiting) (hr : n.registry.get? r.1 = some r.2)
    (hr' : n.registry.get? r'.1 = some r'.2) (hne : r'.1 ≠ r.1) :
    hearEffects view gone (n.move view (.lose gone r)).1 r' = hearEffects view gone n r' := by
  obtain ⟨hh, -⟩ := heard_lose view gone hc hr
  obtain ⟨id, who⟩ := r
  obtain ⟨id', who'⟩ := r'
  unfold hearEffects
  simp only [hh.submissions, hh.fanouts, hh.site, hh.nearCache, List.foldl_cons, List.foldl_nil]
  cases who' with
  | submission h' =>
    suffices h : (hearSubmission view n.site gone n.submissions (id, who)).get? h' =
        n.submissions.get? h' by
      simp only [h]
    cases who with
    | fanout => rfl
    | submission h =>
      -- a submission has one number
      have hh' : h' ≠ h := by
        rintro rfl
        obtain ⟨c, hs, hf⟩ := (hc.submission id h').1 hr
        obtain ⟨c', hs', hf'⟩ := (hc.submission id' h').1 hr'
        cases hs.symm.trans hs'
        exact hne (Option.some_inj.1 (hf'.symm.trans hf))
      simp only [hearSubmission, SortedMap.get?_modify_ite, if_neg hh']
  | fanout =>
    suffices h : (hearFanout n.site gone n.fanouts (id, who)).get? id' = n.fanouts.get? id' by
      simp only [h]
    cases who with
    | submission h => rfl
    | fanout => simp only [hearFanout, SortedMap.get?_modify_ite, if_neg hne]

/-! ## Many coordinators -/

theorem Heard.trans {rs : List (FutureId × Registered)} {n₁ n₂ : Node}
    (h : Heard view gone n [r] n₁) (h' : Heard view gone n₁ rs n₂) :
    Heard view gone n (r :: rs) n₂ where
  submissions := by rw [h'.submissions, h.submissions, h.site]; rfl
  fanouts := by rw [h'.fanouts, h.fanouts, h.site]; rfl
  site := h'.site.trans h.site
  processors := h'.processors.trans h.processors
  versions := h'.versions.trans h.versions
  nextFuture := h'.nextFuture.trans h.nextFuture
  store := h'.store.trans h.store
  faults := h'.faults.trans h.faults
  nearCache := h'.nearCache.trans h.nearCache

/-- What has become of the coordinators that have heard of a departure, one after the other. -/
theorem heard_each (view : View) (gone : NodeId) (rs : List (FutureId × Registered)) :
    ∀ {n : Node} {waiting : Handle → Nat}, n.Coherent waiting →
      n.nextFuture.toNat + 1 < UInt64.size → n.versions.issued.toNat + 1 < UInt64.size →
      (∀ r ∈ rs, n.registry.get? r.1 = some r.2) → (rs.map (·.1)).Nodup →
      Heard view gone n rs (each (tellDeparture view gone) n rs).1 ∧
        (each (tellDeparture view gone) n rs).2 = rs.flatMap (hearEffects view gone n) ∧
        ∃ waiting', (each (tellDeparture view gone) n rs).1.Coherent waiting' := by
  induction rs with
  | nil =>
    intro n waiting hc _ _ _ _
    exact ⟨⟨rfl, rfl, rfl, rfl, rfl, rfl, rfl, rfl, rfl⟩, rfl, waiting, hc⟩
  | cons r rs ih =>
    intro n waiting hc hroom hroom' hrs hnd
    rw [List.map_cons, List.nodup_cons] at hnd
    have hr : n.registry.get? r.1 = some r.2 := hrs r List.mem_cons_self
    have hne : ∀ r' ∈ rs, r'.1 ≠ r.1 := fun r' hr' he => hnd.1 (he ▸ List.mem_map_of_mem hr')
    obtain ⟨hfirst, heffects⟩ := heard_lose view gone hc hr
    have hdue : n.Due waiting (.lose gone r) := hr
    have hc₁ : (n.move view (.lose gone r)).1.Coherent _ := coherent_move hc hdue hroom hroom'
    have hrest : ∀ r' ∈ rs, (n.move view (.lose gone r)).1.registry.get? r'.1 = some r'.2 := by
      intro r' hr'
      rw [registry_lose hc hr (hne r' hr')]
      exact hrs r' (List.mem_cons_of_mem r hr')
    obtain ⟨hmore, hmoreEffects, hend⟩ := ih hc₁ (by rwa [hfirst.nextFuture])
      (by rwa [hfirst.versions]) hrest hnd.2
    refine ⟨hfirst.trans hmore, ?_, hend⟩
    show (n.move view (.lose gone r)).2 ++
      (each (tellDeparture view gone) (n.move view (.lose gone r)).1 rs).2 = _
    rw [heffects, hmoreEffects, List.flatMap_cons]
    congr 1
    exact List.flatMap_congr fun r' hr' =>
      hearEffects_lose hc hr (hrs r' (List.mem_cons_of_mem r hr')) (hne r' hr')

/-! ## Any order -/

theorem hearSubmission_comm (view : View) (site : Site) (gone : NodeId)
    (m : SortedMap Handle Submission) (r r' : FutureId × Registered) :
    hearSubmission view site gone (hearSubmission view site gone m r) r' =
      hearSubmission view site gone (hearSubmission view site gone m r') r := by
  obtain ⟨id, who⟩ := r
  obtain ⟨id', who'⟩ := r'
  cases who with
  | fanout => rfl
  | submission h =>
    cases who' with
    | fanout => rfl
    | submission h' =>
      by_cases hh : h = h'
      · rw [hh]
        rfl
      · exact SortedMap.modify_comm m hh _ _

theorem hearFanout_comm (site : Site) (gone : NodeId)
    (m : SortedMap FutureId Fanout) (r r' : FutureId × Registered) :
    hearFanout site gone (hearFanout site gone m r) r' =
      hearFanout site gone (hearFanout site gone m r') r := by
  obtain ⟨id, who⟩ := r
  obtain ⟨id', who'⟩ := r'
  cases who with
  | submission h => rfl
  | fanout =>
    cases who' with
    | submission h' => rfl
    | fanout =>
      by_cases hid : id = id'
      · rw [hid]
      · exact SortedMap.modify_comm m hid _ _

/-- The registry lists the coordinators that are open, and nothing else. -/
theorem Coherent.registry_eq (hc : n.Coherent waiting) (hc' : n'.Coherent waiting')
    (hs : n'.submissions = n.submissions) (hf : n'.fanouts = n.fanouts) :
    n'.registry = n.registry := by
  apply SortedMap.ext_get?
  intro id
  apply Option.ext
  intro who
  cases who with
  | submission h => rw [hc.submission, hc'.submission, hs]
  | fanout => rw [hc.fanout, hc'.fanout, hf]

/-- In whatever order the coordinators of a node hear of a departure, they have the same to say, and
the node is the same afterwards but for what its near cache holds. -/
theorem departed_perm (hc : n.Coherent waiting) (hroom : n.nextFuture.toNat + 1 < UInt64.size)
    (hroom' : n.versions.issued.toNat + 1 < UInt64.size) {rs : List (FutureId × Registered)}
    (hrs : rs.Perm n.registry.entries) :
    SameBut (n.departed view gone).1 (each (tellDeparture view gone) n rs).1
        (n.departed view gone).1.registry ∧
      (each (tellDeparture view gone) n rs).2.Perm (n.departed view gone).2 := by
  have hnd : (n.registry.entries.map (·.1)).Nodup := SortedMap.keys_nodup n.registry
  have hall : ∀ r ∈ n.registry.entries, n.registry.get? r.1 = some r.2 :=
    fun r hr => SortedMap.get?_eq_some_iff.2 hr
  obtain ⟨h, heffects, waiting₁, hc₁⟩ := heard_each view gone rs hc hroom hroom'
    (fun r hr => hall r (hrs.mem_iff.1 hr)) ((hrs.map _).nodup_iff.2 hnd)
  obtain ⟨h', heffects', waiting₂, hc₂⟩ := heard_each view gone n.registry.entries hc
    hroom hroom' hall hnd
  have hs := hrs.foldl_eq' (fun r _ r' _ m => hearSubmission_comm view n.site gone m r r')
    n.submissions
  have hf := hrs.foldl_eq' (fun r _ r' _ m => hearFanout_comm n.site gone m r r') n.fanouts
  rw [← h.submissions, ← h'.submissions] at hs
  rw [← h.fanouts, ← h'.fanouts] at hf
  refine ⟨⟨h.site.trans h'.site.symm, h.processors.trans h'.processors.symm,
    h.versions.trans h'.versions.symm, h.nextFuture.trans h'.nextFuture.symm,
    hc₂.registry_eq hc₁ hs hf, hs, hf, h.store.trans h'.store.symm,
    h.faults.trans h'.faults.symm, h.nearCache.trans h'.nearCache.symm⟩, ?_⟩
  show (each (tellDeparture view gone) n rs).2.Perm
    (each (tellDeparture view gone) n n.registry.entries).2
  rw [heffects, heffects']
  exact hrs.flatMap_right _

end AtomicGrid.Node
