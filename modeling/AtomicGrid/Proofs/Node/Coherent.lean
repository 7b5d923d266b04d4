import AtomicGrid.Proofs.Node.Primary

/-!
# What a node keeps in step

The registry lists the current attempt of every submission and every fan-out that is not done, and
nothing else.  A submission is done, waits for the topology in exactly one task, or has an attempt
under way.

## Results

* `Node.coherent_move`: every move keeps a node so.
* `Node.sameUpdate_move`: all attempts at a submission are attempts at the same update.
-/

set_option autoImplicit false

namespace AtomicGrid

/-- The version an action waits for. -/
def SubmissionAction.wait? : SubmissionAction → Option TopologyVersion
  | .await v => some v
  | _ => none

namespace Submission

/-- Where a submission stands, with the number of tasks that wait to map it. -/
inductive Stage (c : Submission) : Nat → Prop
  | done (hd : c.isDone = true) (hf : c.future = none) : Stage c 0
  | parked (hd : c.isDone = false) (hf : c.future = none) (ha : c.attempt = none) : Stage c 1
  | current (hd : c.isDone = false) {id : FutureId} {a : Attempt} (hf : c.future = some id)
      (ha : c.attempt = some a) : Stage c 0

/-- What an event makes of a submission `h` and its entry in the registry.  Where it launches an
attempt, this takes the number `fresh`. -/
structure Steps (h : Handle) (fresh : FutureId) (launches : Bool) (c : Submission)
    (x : Submission × List SubmissionAction) : Prop where
  registry : ∀ (r : SortedMap FutureId Registered) (k : FutureId),
    (c.future = some k → r.get? k = some (.submission h)) → r.get? fresh = none →
    (x.2.foldl (SubmissionAction.onRegistry h) r).get? k =
      if x.1.future = some k then some (.submission h)
      else if c.future = some k then none else r.get? k
  stage : Stage x.1 (x.2.filterMap SubmissionAction.wait?).length
  future : ∀ id, x.1.future = some id →
    c.future = some id ∨ id = fresh ∧ launches = true

variable {view : View} {h : Handle} {fresh : FutureId} {launches : Bool} {c : Submission}
  {x : Submission × List SubmissionAction}

theorem isDone_of_result {c : Submission} {l : Latch (Except CacheError UpdateOutcome)}
    {r : Except CacheError UpdateOutcome} (h : c.result = (l.complete r).1) : c.isDone = true := by
  rw [isDone, h]
  exact Latch.complete_isDone l r

theorem isDone_of_launches {t : Topology} (h : c.launches t = true) : c.isDone = false := by
  simp only [Submission.launches, Bool.and_eq_true, Bool.not_eq_true'] at h
  exact h.1.1

theorem get?_retire (r : SortedMap FutureId Registered) (k : FutureId) :
    ((c.future.toList.map SubmissionAction.retire).foldl (SubmissionAction.onRegistry h) r).get? k =
      if c.future = some k then none else r.get? k := by
  cases hf : c.future with
  | none => simp
  | some id =>
    simp only [Option.toList_some, List.map_cons, List.map_nil, List.foldl_cons, List.foldl_nil,
      SubmissionAction.onRegistry, SortedMap.get?_erase_ite, Option.some_inj, eq_comm]

theorem wait?_retire :
    (c.future.toList.map SubmissionAction.retire).filterMap SubmissionAction.wait? = [] := by
  cases c.future <;> rfl

theorem registry_over (ho : Over c x) (r : SortedMap FutureId Registered) (k : FutureId) :
    (x.2.foldl (SubmissionAction.onRegistry h) r).get? k =
      if c.future = some k then none else r.get? k := by
  cases ho with
  | failed => exact get?_retire r k
  | waits =>
    rw [List.foldl_append]
    exact get?_retire r k

theorem future_over (ho : Over c x) : x.1.future = none := by
  cases ho with
  | failed hs e hr hf => exact hf
  | waits hs hr hf => exact hf

theorem stage_over (hd : c.isDone = false) (ho : Over c x) :
    Stage x.1 (x.2.filterMap SubmissionAction.wait?).length := by
  cases ho with
  | failed hs e hr hf =>
    rw [wait?_retire]
    exact .done (isDone_of_result hr) hf
  | waits hs hr hf ha v =>
    rw [List.filterMap_append, wait?_retire]
    exact .parked (by rw [isDone, hr]; exact hd) hf ha

theorem steps_over (hd : c.isDone = false) (ho : Over c x) : Steps h fresh launches c x where
  registry r k _ _ := by simp [registry_over ho, future_over ho]
  stage := stage_over hd ho
  future id hi := by simp [future_over ho] at hi

theorem registry_same {r : SortedMap FutureId Registered} {k : FutureId}
    (hr : c.future = some k → r.get? k = some (.submission h)) :
    r.get? k = if c.future = some k then some (.submission h)
      else if c.future = some k then none else r.get? k := by
  split
  next hf => exact hr hf
  next => rfl

theorem steps_refl (hs : Stage c 0) : Steps h fresh launches c (c, []) where
  registry _ _ hr _ := registry_same hr
  stage := hs
  future _ hi := .inl hi

theorem steps_follows {a : Attempt} {ret : Option UpdateReturn} {p : Progress}
    (hd : c.isDone = false) {id : FutureId} (hf : c.future = some id) (ho : Follows c a ret p x) :
    Steps h fresh launches c x := by
  cases ho with
  | pending => exact ⟨fun _ _ hr _ => registry_same hr, .current hd hf rfl, fun _ hi => .inl hi⟩
  | unconfirmed => exact ⟨fun _ _ hr _ => registry_same hr, .current hd hf rfl, fun _ hi => .inl hi⟩
  | @finished near hn =>
    have hreg (r : SortedMap FutureId Registered) :
        near.foldl (SubmissionAction.onRegistry h) r = r := by
      clear hd
      induction near with
      | nil => rfl
      | cons y near ih =>
        obtain ⟨key, value, version, ttl, rfl⟩ := hn y List.mem_cons_self
        exact ih fun z hz => hn z (List.mem_cons_of_mem _ hz)
    have hwait : near.filterMap SubmissionAction.wait? = [] := by
      rw [List.filterMap_eq_nil_iff]
      intro y hy
      obtain ⟨key, value, version, ttl, rfl⟩ := hn y hy
      rfl
    refine ⟨fun r k _ _ => ?_, ?_, fun id hi => by cases hi⟩
    · rw [List.foldl_append, hreg, get?_retire]
      simp
    · rw [List.filterMap_append, hwait, wait?_retire]
      exact .done (isDone_of_result rfl) rfl

theorem steps_mapped {site : Site} (hf : c.future = none)
    (ho : Mapped site view c fresh x) : Steps h fresh (c.launches view.topology) c x := by
  have hkeep (r : SortedMap FutureId Registered) (k : FutureId) (hr : r.get? fresh = none) :
      (if fresh = k then none else (r.insert fresh (.submission h)).get? k) = r.get? k := by
    rw [SortedMap.get?_insert_ite]
    by_cases hk : fresh = k
    · rw [if_pos hk, ← hk, hr]
    · rw [if_neg hk, if_neg (Ne.symm hk)]
  cases ho with
  | done hd => exact steps_refl (.done hd hf)
  | ended hd ho => exact steps_over hd ho
  | ownerless hl hp ho =>
    have hst := stage_over (by exact isDone_of_launches hl) ho
    refine ⟨fun r k _ hr => ?_, hst, fun id hi => ?_⟩
    · rw [List.foldl_cons]
      simp [SubmissionAction.onRegistry, registry_over ho, future_over ho, hf, hkeep r k hr]
    · simp [future_over ho] at hi
  | refused hl hp hv ho =>
    have hst := stage_over (by exact isDone_of_launches hl) ho
    refine ⟨fun r k _ hr => ?_, hst, fun id hi => ?_⟩
    · rw [List.foldl_cons, List.foldl_cons]
      simp [SubmissionAction.onRegistry, registry_over ho, future_over ho, launched, hf, hkeep r k hr]
    · simp [future_over ho] at hi
  | async hl hp hv hs hn outcome =>
    refine ⟨fun r k _ hr => ?_, .done (isDone_of_result rfl) rfl, fun id hi => by cases hi⟩
    simp only [List.foldl_cons, List.foldl_nil, SubmissionAction.onRegistry]
    rw [SortedMap.get?_erase_ite]
    simpa [hf, launched, eq_comm (a := k)] using hkeep r k hr
  | sent hl hp hv hs =>
    refine ⟨fun r k _ hr => ?_, .current (isDone_of_launches hl) rfl rfl, fun id hi => ?_⟩
    · simp only [List.foldl_cons, List.foldl_nil, SubmissionAction.onRegistry, launched, hf]
      rw [SortedMap.get?_insert_ite]
      simp [eq_comm]
    · exact .inr ⟨(Option.some_inj.1 hi).symm, hl⟩

end Submission

namespace Node

open Submission (Stage Steps)

/-- The coordinators of a node with the number of tasks that wait to map each submission. -/
structure Coherent (n : Node) (waiting : Handle → Nat) : Prop where
  submission : ∀ id h, n.registry.get? id = some (.submission h) ↔
    ∃ c, n.submissions.get? h = some c ∧ c.future = some id
  fanout : ∀ id, n.registry.get? id = some .fanout ↔
    ∃ f, n.fanouts.get? id = some f ∧ f.done = false
  fanouts : ∀ id f, n.fanouts.get? id = some f → f.id = id ∧ f.Sound ∧ id < n.nextFuture
  futures : ∀ h c id, n.submissions.get? h = some c → c.future = some id → id < n.nextFuture
  handles : ∀ h c, n.submissions.get? h = some c → h ≤ n.versions.issued
  stage : ∀ h c, n.submissions.get? h = some c → Stage c (waiting h)
  absent : ∀ h, n.submissions.get? h = none → waiting h = 0

variable {n n' : Node} {waiting : Handle → Nat} {view : View} {move : Move}

/-- Only numbers that were given are registered. -/
theorem Coherent.lt_of_registered (hc : n.Coherent waiting) {id : FutureId} {who : Registered}
    (hr : n.registry.get? id = some who) : id < n.nextFuture := by
  cases who with
  | submission h =>
    obtain ⟨c, hs, hf⟩ := (hc.submission id h).1 hr
    exact hc.futures h c id hs hf
  | fanout =>
    obtain ⟨f, hf, -⟩ := (hc.fanout id).1 hr
    exact (hc.fanouts id f hf).2.2

theorem Coherent.fresh (hc : n.Coherent waiting) : n.registry.get? n.nextFuture = none := by
  rw [Option.eq_none_iff_forall_ne_some]
  intro who hr
  exact UInt64.lt_irrefl _ (hc.lt_of_registered hr)

theorem Coherent.plain (hc : n.Coherent waiting) (ha : AfterPlain n n') : n'.Coherent waiting where
  submission := by rw [ha.registry, ha.submissions]; exact hc.submission
  fanout := by rw [ha.registry, ha.fanouts]; exact hc.fanout
  fanouts := by rw [ha.fanouts, ha.nextFuture]; exact hc.fanouts
  futures := by rw [ha.submissions, ha.nextFuture]; exact hc.futures
  handles := by rw [ha.submissions, ha.versions]; exact hc.handles
  stage := by rw [ha.submissions]; exact hc.stage
  absent := by rw [ha.submissions]; exact hc.absent

/-- After its turn the submission's number belongs to it, and the others to whom they did. -/
theorem Coherent.registry_step {h : Handle} {c : Submission}
    {x : Submission × List SubmissionAction} {r : Node × List Effect} (hc : n.Coherent waiting)
    (ha : AfterSubmission view n move h c x r)
    (hs : Steps h n.nextFuture (move.maps && c.launches view.topology) c x)
    (hown : ∀ k, n.registry.get? k = some (.submission h) ↔ c.future = some k) (k : FutureId)
    (who : Registered) : r.1.registry.get? k = some who ↔
      if who = .submission h then x.1.future = some k else n.registry.get? k = some who := by
  have hreg : r.1.registry.get? k =
      if x.1.future = some k then some (.submission h)
      else if c.future = some k then none else n.registry.get? k := by
    rw [ha.registry]
    exact hs.registry _ k (hown k).2 hc.fresh
  -- what a number belonged to that is now the submission's
  have hold (hx : x.1.future = some k) (hr : n.registry.get? k = some who) :
      who = .submission h := by
    rcases hs.future k hx with hk | ⟨rfl, -⟩
    · exact Option.some_inj.1 (hr.symm.trans ((hown k).2 hk))
    · simp [hc.fresh] at hr
  rw [hreg]
  by_cases hx : x.1.future = some k
  · rw [if_pos hx, Option.some_inj]
    split
    next hw => exact iff_of_true hw.symm hx
    next hw => exact iff_of_false (fun he => hw he.symm) fun hr => hw (hold hx hr)
  · rw [if_neg hx]
    by_cases hk : c.future = some k
    · rw [if_pos hk, (hown k).2 hk, Option.some_inj]
      split
      next => exact iff_of_false nofun hx
      next hw => exact iff_of_false nofun fun he => hw he.symm
    · rw [if_neg hk]
      split
      next hw => exact iff_of_false (fun hr => hk ((hown k).1 (hw ▸ hr))) hx
      next => exact Iff.rfl

theorem Coherent.submissionStep {h : Handle} {c : Submission}
    {x : Submission × List SubmissionAction} {r : Node × List Effect} (hc : n.Coherent waiting)
    (ha : AfterSubmission view n move h c x r)
    (hs : Steps h n.nextFuture (move.maps && c.launches view.topology) c x)
    (hcur : n.submissions.get? h = some c ∧ move.submits = false ∨
      c.future = none ∧ h = n.versions.issued + 1 ∧ move.submits = true)
    (hroom : n.nextFuture.toNat + 1 < UInt64.size)
    (hroom' : n.versions.issued.toNat + 1 < UInt64.size) :
    r.1.Coherent fun h' =>
      if h' = h then (x.2.filterMap SubmissionAction.wait?).length else waiting h' := by
  have hlt (k : FutureId) (hk : c.future = some k) : k < n.nextFuture := by
    rcases hcur with ⟨hcur, -⟩ | ⟨hnone, -⟩
    · exact hc.futures h c k hcur hk
    · simp [hnone] at hk
  have hown (k : FutureId) : n.registry.get? k = some (.submission h) ↔ c.future = some k := by
    rw [hc.submission]
    rcases hcur with ⟨hcur, -⟩ | ⟨hnone, hn, -⟩
    · simp [hcur]
    · rw [hnone]
      refine iff_of_false ?_ nofun
      rintro ⟨c', hg, -⟩
      have := hc.handles h c' hg
      rw [hn] at this
      exact absurd (lt_add_one_of_room hroom') (UInt64.not_lt.2 this)
  have hsub (h' : Handle) : r.1.submissions.get? h' =
      if h' = h then some x.1 else n.submissions.get? h' := by
    rw [ha.submissions, SortedMap.get?_insert_ite]
  have hnext (k : FutureId) (hk : k < n.nextFuture) : k < r.1.nextFuture := by
    rw [ha.nextFuture]
    split
    next => exact UInt64.lt_trans hk (lt_add_one_of_room hroom)
    next => exact hk
  exact {
    submission := fun k h' => by
      rw [hc.registry_step ha hs hown, hsub]
      by_cases hh : h' = h
      · subst hh
        simp
      · rw [if_neg (fun he => hh (Registered.submission.inj he)), if_neg hh]
        exact hc.submission k h'
    fanout := fun k => by
      rw [hc.registry_step ha hs hown, if_neg nofun, ha.fanouts]
      exact hc.fanout k
    fanouts := fun k f hf => by
      rw [ha.fanouts] at hf
      obtain ⟨hi, hs, hl⟩ := hc.fanouts k f hf
      exact ⟨hi, hs, hnext k hl⟩
    futures := fun h' c' k hg hk => by
      rw [hsub] at hg
      split at hg
      next =>
        cases hg
        rcases hs.future k hk with hk | ⟨rfl, hl⟩
        · exact hnext k (hlt k hk)
        · rw [ha.nextFuture, if_pos hl]
          exact lt_add_one_of_room hroom
      next => exact hnext k (hc.futures h' c' k hg hk)
    handles := fun h' c' hg => by
      have hv : n.versions.issued ≤ r.1.versions.issued := by
        rw [ha.versions]
        split
        next => exact UInt64.le_of_lt (lt_add_one_of_room hroom')
        next => exact UInt64.le_refl _
      rw [hsub] at hg
      split at hg
      next he =>
        rcases hcur with ⟨hcur, -⟩ | ⟨-, hn, hm⟩
        · exact he ▸ UInt64.le_trans (hc.handles h c hcur) hv
        · rw [he, ha.versions, if_pos hm, hn]
          exact UInt64.le_refl _
      next => exact UInt64.le_trans (hc.handles h' c' hg) hv
    stage := fun h' c' hg => by
      rw [hsub] at hg
      split at hg
      next he =>
        cases hg
        simp only [he, if_true]
        exact hs.stage
      next he =>
        simp only [he, if_false]
        exact hc.stage h' c' hg
    absent := fun h' hg => by
      rw [hsub] at hg
      split at hg
      next => cases hg
      next he =>
        simp only [he, if_false]
        exact hc.absent h' hg }

theorem Coherent.fanoutStep {x : Fanout × List FanoutAction} {r : Node × List Effect}
    (hc : n.Coherent waiting) (ha : AfterFanout view n x r) (hs : x.1.Sound)
    (hi : n.registry.get? x.1.id = some .fanout ∨ n.registry.get? x.1.id = none)
    (hreg : ∀ k, r.1.registry.get? k =
      if k = x.1.id then (if x.1.done then none else some .fanout) else n.registry.get? k)
    (hlt : ∀ k, k < n.nextFuture ∨ k = x.1.id → k < r.1.nextFuture) : r.1.Coherent waiting where
  submission k h := by
    rw [hreg, ha.submissions, ← hc.submission]
    by_cases hk : k = x.1.id
    · rw [if_pos hk, hk]
      constructor
      · intro h
        split at h <;> cases h
      · intro h
        rcases hi with hi | hi <;> rw [hi] at h <;> cases h
    · rw [if_neg hk]
  fanout k := by
    rw [hreg, ha.fanouts, SortedMap.get?_insert_ite]
    by_cases hk : k = x.1.id
    · rw [if_pos hk, if_pos hk]
      cases hd : x.1.done <;> simp [hd]
    · rw [if_neg hk, if_neg hk]
      exact hc.fanout k
  fanouts k f hf := by
    rw [ha.fanouts, SortedMap.get?_insert_ite] at hf
    split at hf
    next hk =>
      cases hf
      exact ⟨hk.symm, hs, hlt k (.inr hk)⟩
    next =>
      obtain ⟨hi, hs, hl⟩ := hc.fanouts k f hf
      exact ⟨hi, hs, hlt k (.inl hl)⟩
  futures h c k hg hk := by
    rw [ha.submissions] at hg
    exact hlt k (.inl (hc.futures h c k hg hk))
  handles := by
    rw [ha.submissions, ha.versions]
    exact hc.handles
  stage := by
    rw [ha.submissions]
    exact hc.stage
  absent := by
    rw [ha.submissions]
    exact hc.absent

theorem Coherent.carried {sender : NodeId} {request : UpdateRequest} {r : Node × List Effect}
    (hc : n.Coherent waiting) (ha : AfterFanout view n (n.opened view sender request) r)
    (hn : r.1.nextFuture = n.nextFuture + 1) (hroom : n.nextFuture.toNat + 1 < UInt64.size) :
    r.1.Coherent waiting := by
  refine hc.fanoutStep ha opened_applied.sound ?_ ?_ ?_
  · rw [id_opened]
    exact .inr hc.fresh
  · intro k
    rw [ha.registry, registry_opened, id_opened]
  · rw [id_opened, hn]
    rintro k (hk | rfl)
    · exact UInt64.lt_trans hk (lt_add_one_of_room hroom)
    · exact lt_add_one_of_room hroom

theorem Coherent.acknowledged {id : FutureId} {f : Fanout} {o : NodeId} {lost : Bool}
    {r : Node × List Effect} (hc : n.Coherent waiting) (hf : n.fanouts.get? id = some f)
    (hreg : n.registry.get? id = some .fanout)
    (ha : AfterFanout view n ((f.register n.site o lost).1, (f.register n.site o lost).2.1) r)
    (hn : r.1.nextFuture = n.nextFuture) : r.1.Coherent waiting := by
  obtain ⟨rfl, hs, hl⟩ := hc.fanouts id f hf
  have ht := Fanout.tracks_register n.site hs o lost
  have hi : (f.register n.site o lost).1.id = f.id := Fanout.id_eq ht.toSameFanout
  have hd : f.done = false := by
    obtain ⟨f', hf', hd⟩ := (hc.fanout _).1 hreg
    rw [hf, Option.some_inj] at hf'
    exact hf' ▸ hd
  refine hc.fanoutStep ha ht.sound ?_ (fun k => ?_) ?_
  · rw [hi]
    exact .inl hreg
  · rw [ha.registry, registry_register hs (fun h => by simp [hd] at h), hi]
    by_cases hk : k = f.id
    · subst hk
      simp [hreg]
    · simp [hk]
  · rw [hi, hn]
    rintro k (hk | rfl)
    · exact hk
    · exact hl

/-! ## Moves -/

/-- The move is due: its task waits, or its coordinator has a number. -/
def Due (n : Node) (waiting : Handle → Nat) : Move → Prop
  | .resume (.remap h) _ => waiting h ≠ 0
  | .lose _ r => n.registry.get? r.1 = some r.2
  | _ => True

/-- The number of tasks that still wait to map a submission once a move is made. -/
def rest (waiting : Handle → Nat) (move : Move) (h : Handle) : Nat :=
  match move with
  | .resume (.remap h') _ => if h = h' then waiting h - 1 else waiting h
  | _ => waiting h

/-- The number of new tasks to map a submission. -/
def remaps (es : List Effect) (h : Handle) : Nat :=
  (es.filterMap Effect.wait?).countP (·.task = .remap h)

theorem wait?_transmission (receiver : NodeId) (m : Message) :
    (transmission view receiver m).wait? = none := by
  unfold transmission
  split <;> rfl

/-- A submission waits to be mapped, and for nothing else. -/
theorem wait?_submission (h : Handle) (near : Bool) (as : List SubmissionAction) :
    (as.flatMap (SubmissionAction.effects view h near)).filterMap Effect.wait? =
      (as.filterMap SubmissionAction.wait?).map fun v => ⟨v, .remap h⟩ := by
  induction as with
  | nil => rfl
  | cons a as ih =>
    rw [List.flatMap_cons, List.filterMap_append, ih]
    cases a with
    | await v => rfl
    | send receiver m =>
      rw [SubmissionAction.effects, List.filterMap_cons, wait?_transmission]
      rfl
    | writeNear key value version ttl => cases near <;> rfl
    | enlist id => rfl
    | retire id => rfl

theorem remaps_submission (h : Handle) (near : Bool) (as : List SubmissionAction) (h' : Handle) :
    remaps (as.flatMap (SubmissionAction.effects view h near)) h' =
      if h' = h then (as.filterMap SubmissionAction.wait?).length else 0 := by
  rw [remaps, wait?_submission, List.countP_map]
  split
  next hh => exact List.countP_eq_length.2 fun v _ => by simp [hh]
  next hh => exact List.countP_eq_zero.2 fun v _ => by simp [Ne.symm hh]

theorem wait?_fanout (as : List FanoutAction) :
    (as.flatMap (FanoutAction.effects view)).filterMap Effect.wait? = [] := by
  rw [List.filterMap_eq_nil_iff]
  intro e he
  obtain ⟨a, -, he⟩ := List.mem_flatMap.1 he
  cases a with
  | send receiver m =>
    obtain rfl := List.mem_singleton.1 he
    exact wait?_transmission receiver m
  | reply route r =>
    cases route with
    | node receiver =>
      obtain rfl := List.mem_singleton.1 he
      exact wait?_transmission receiver _
    | nobody => cases he
    | label name =>
      obtain rfl := List.mem_singleton.1 he
      rfl
  | notify listener success =>
    obtain rfl := List.mem_singleton.1 he
    rfl
  | enlist id => cases he
  | retire id => cases he

theorem wait?_backUp (sender : NodeId) (r : BackupRequest) :
    (n.backUp view sender r).2.filterMap Effect.wait? = [] := by
  rw [List.filterMap_eq_nil_iff]
  intro e he
  rcases mem_effects_backUp he with ⟨_, _, _, _, rfl⟩ | rfl | ⟨-, rfl⟩
  · rfl
  · exact wait?_transmission _ _
  · exact wait?_transmission _ _

theorem remaps_plain {es : List Effect} (ht : PlainTurn view n move es) (h : Handle) :
    remaps es h = 0 := by
  cases ht with
  | quiet => rfl
  | declined hm hd hc => simp [remaps, wait?_transmission]
  | deferred hm hd => simp [remaps, Effect.wait?]
  | confirmed hc => simp [remaps, confirm, reply, wait?_transmission]
  | backedUp hc =>
    rw [remaps, wait?_backUp]
    rfl

theorem Coherent.current (hc : n.Coherent waiting) {id : FutureId} {h : Handle}
    (hr : n.registry.get? id = some (.submission h)) {c : Submission}
    (hs : n.submissions.get? h = some c) :
    c.isDone = false ∧ c.future = some id ∧ (∃ a, c.attempt = some a) ∧ waiting h = 0 := by
  obtain ⟨c', hs', hf⟩ := (hc.submission id h).1 hr
  rw [hs, Option.some_inj] at hs'
  subst hs'
  have hst := hc.stage h c hs
  generalize waiting h = k at hst ⊢
  cases hst with
  | done hd hf' => simp [hf] at hf'
  | parked hd hf' => simp [hf] at hf'
  | current hd hf' ha => exact ⟨hd, hf, ⟨_, ha⟩, rfl⟩

/-- A submission for which a task waits has no attempt under way. -/
theorem Coherent.parked (hc : n.Coherent waiting) {h : Handle} {c : Submission}
    (hs : n.submissions.get? h = some c) (hw : waiting h ≠ 0) :
    c.isDone = false ∧ c.future = none ∧ c.attempt = none := by
  have hst := hc.stage h c hs
  generalize waiting h = k at hst hw
  cases hst with
  | done => exact absurd rfl hw
  | parked hd hf ha => exact ⟨hd, hf, ha⟩
  | current => exact absurd rfl hw

/-- The submission is one of the node's, or new. -/
theorem SubmissionTurn.known {h : Handle} {c : Submission}
    {x : Submission × List SubmissionAction} (ht : SubmissionTurn view n move h c x) :
    n.submissions.get? h = some c ∧ move.submits = false ∨
      c.future = none ∧ h = n.versions.issued + 1 ∧ move.submits = true := by
  cases ht with
  | submit hu hc =>
    subst hc
    exact .inr ⟨rfl, rfl, rfl⟩
  | resume hs awaited => exact .inl ⟨hs, rfl⟩
  | answer hi hr hs => exact .inl ⟨hs, rfl⟩
  | mapping hi hr hs => exact .inl ⟨hs, rfl⟩
  | notice hi hr hs => exact .inl ⟨hs, rfl⟩
  | departure hs gone => exact .inl ⟨hs, rfl⟩

theorem SubmissionTurn.registered {h : Handle} {c : Submission}
    {x : Submission × List SubmissionAction} (hc : n.Coherent waiting)
    (ht : SubmissionTurn view n move h c x) {k : FutureId} (hk : c.future = some k) :
    n.registry.get? k = some (.submission h) := by
  rcases ht.known with ⟨hs, -⟩ | ⟨hf, -⟩
  · exact (hc.submission k h).2 ⟨c, hs, hk⟩
  · simp [hf] at hk

/-- What a turn makes of a submission, with what is known of it before. -/
inductive Fares (site : Site) (view : View) (fresh : FutureId) (maps : Bool) (c : Submission) :
    Submission × List SubmissionAction → Prop
  | same (hs : Stage c 0) : Fares site view fresh maps c (c, [])
  | dropped (hd : c.isDone = false) {x : Submission × List SubmissionAction}
      (ho : Submission.Over c x) : Fares site view fresh maps c x
  | follows (hd : c.isDone = false) {id : FutureId} (hf : c.future = some id) {a : Attempt}
      {ret : Option UpdateReturn} {p : Progress} {x : Submission × List SubmissionAction}
      (ho : Submission.Follows c a ret p x) : Fares site view fresh maps c x
  | mapped (hm : maps = true) (hf : c.future = none) {x : Submission × List SubmissionAction}
      (ho : Submission.Mapped site view c fresh x) : Fares site view fresh maps c x

theorem fares_answer {site : Site} {fresh : FutureId} {maps : Bool} {c : Submission} {a : Attempt}
    {id : FutureId} (hd : c.isDone = false) (hf : c.future = some id) (ha : c.attempt = some a)
    (sender : NodeId) (r : UpdateResponse) (nodeError : Bool) :
    Fares site view fresh maps c (c.onResponse site view sender r nodeError) := by
  by_cases hw : c.Awaits a sender r
  · cases he : r.hasError with
    | true => exact .dropped hd (Submission.onResponse_over hd hw (.inl he) nodeError)
    | false =>
      cases hr : r.needsRemap with
      | true => exact .dropped hd (Submission.onResponse_over hd hw (.inr hr) nodeError)
      | false => exact .follows hd hf (Submission.onResponse_of hd hw he hr nodeError)
  · rw [Submission.onResponse_other (fun a' hw' => ?_)]
    · exact .same (.current hd hf ha)
    · have : a' = a := Option.some_inj.1 (hw'.attempt.symm.trans ha)
      exact hw (this ▸ hw')

theorem fares_turn {h : Handle} {c : Submission} {x : Submission × List SubmissionAction}
    (hc : n.Coherent waiting) (hdue : n.Due waiting move)
    (ht : SubmissionTurn view n move h c x) : Fares n.site view n.nextFuture move.maps c x := by
  cases ht with
  | submit hu hcs =>
    subst hcs
    exact .mapped rfl rfl (Submission.mapped_mapOn rfl rfl _)
  | resume hs awaited =>
    obtain ⟨-, hf, ha⟩ := hc.parked hs hdue
    exact .mapped rfl hf (Submission.mapped_resume hf ha _ awaited)
  | answer hi hr hs =>
    obtain ⟨hd, hf, ⟨a, ha⟩, -⟩ := hc.current hr hs
    exact fares_answer hd hf ha _ _ _
  | mapping hi hr hs =>
    obtain ⟨hd, hf, ⟨a, ha⟩, -⟩ := hc.current hr hs
    exact .follows hd hf (Submission.onMapping_of hd ha hf)
  | @notice _ _ sender m hi hr hs =>
    obtain ⟨hd, hf, ⟨a, ha⟩, -⟩ := hc.current hr hs
    by_cases hp : a.primary = m.primary
    · exact .follows hd hf (Submission.onNotice_of hd ha hf hp)
    · rw [Submission.onNotice_other (.inr fun a' ha' => ?_)]
      · exact .same (.current hd hf ha)
      · rw [ha, Option.some_inj] at ha'
        exact ha' ▸ hp
  | @departure id _ _ hs gone =>
    have hr : n.registry.get? id = some (.submission h) := hdue
    obtain ⟨hd, hf, ⟨a, ha⟩, -⟩ := hc.current hr hs
    cases hp : a.awaitsPrimary gone with
    | true =>
      have : c.onDeparture n.site view gone = c.onResponse n.site view gone
          (Submission.unanswered n.site a.request gone (.nodeDeparted gone)) true := by
        simp [Submission.onDeparture, ha, hp]
      rw [this]
      exact fares_answer hd hf ha _ _ _
    | false => exact .follows hd hf (Submission.onDeparture_of hd ha hp)

theorem steps_turn {h : Handle} {c : Submission} {x : Submission × List SubmissionAction}
    (hc : n.Coherent waiting) (hdue : n.Due waiting move)
    (ht : SubmissionTurn view n move h c x) :
    Steps h n.nextFuture (move.maps && c.launches view.topology) c x := by
  have hf : Fares n.site view n.nextFuture move.maps c x := fares_turn hc hdue ht
  cases hf with
  | same hs => exact Submission.steps_refl hs
  | dropped hd ho => exact Submission.steps_over hd ho
  | follows hd hf ho => exact Submission.steps_follows hd hf ho
  | mapped hm hf ho =>
    rw [hm]
    exact Submission.steps_mapped hf ho

theorem rest_self {h : Handle} {c : Submission} {x : Submission × List SubmissionAction}
    (hc : n.Coherent waiting) (hdue : n.Due waiting move)
    (ht : SubmissionTurn view n move h c x) (hroom : n.versions.issued.toNat + 1 < UInt64.size) :
    rest waiting move h = 0 := by
  cases ht with
  | submit hu hcs =>
    refine hc.absent _ ?_
    cases hs : n.submissions.get? (n.versions.issued + 1) with
    | none => rfl
    | some c' =>
      exact absurd (lt_add_one_of_room hroom) (UInt64.not_lt.2 (hc.handles _ c' hs))
  | resume hs awaited =>
    have hst := hc.stage h c hs
    have hr : rest waiting (.resume (.remap h) awaited) h = waiting h - 1 := if_pos rfl
    rw [hr]
    generalize waiting h = k at hst
    cases hst <;> rfl
  | answer hi hr hs => exact (hc.current hr hs).2.2.2
  | mapping hi hr hs => exact (hc.current hr hs).2.2.2
  | notice hi hr hs => exact (hc.current hr hs).2.2.2
  | departure hs gone => exact (hc.current hdue hs).2.2.2

theorem rest_other {h h' : Handle} {c : Submission} {x : Submission × List SubmissionAction}
    (ht : SubmissionTurn view n move h c x) (hh : h' ≠ h) : rest waiting move h' = waiting h' := by
  cases ht with
  | resume => exact if_neg hh
  | _ => rfl

/-- Every move keeps the coordinators of a node in step with its registry. -/
theorem coherent_move (hc : n.Coherent waiting) (hdue : n.Due waiting move)
    (hroom : n.nextFuture.toNat + 1 < UInt64.size)
    (hroom' : n.versions.issued.toNat + 1 < UInt64.size) :
    (n.move view move).1.Coherent fun h =>
      rest waiting move h + remaps (n.move view move).2 h := by
  have hsub {h : Handle} {c : Submission} {x : Submission × List SubmissionAction}
      (ht : SubmissionTurn view n move h c x) : (n.move view move).1.Coherent fun h' =>
        rest waiting move h' + remaps (n.move view move).2 h' := by
    have ha := submission_move ht
    have hstep := hc.submissionStep ha (steps_turn hc hdue ht) ht.known hroom hroom'
    have hw : (fun h' => rest waiting move h' + remaps (n.move view move).2 h') = fun h' =>
        if h' = h then (x.2.filterMap SubmissionAction.wait?).length else waiting h' := by
      funext h'
      rw [ha.effects, remaps_submission]
      by_cases hh : h' = h
      · subst hh
        rw [rest_self hc hdue ht hroom']
        simp
      · simp only [if_neg hh, rest_other ht hh, Nat.add_zero]
    rw [hw]
    exact hstep
  by_cases hres : ∃ h awaited, move = .resume (.remap h) awaited
  · obtain ⟨h, awaited, rfl⟩ := hres
    cases hs : n.submissions.get? h with
    | none => exact absurd (hc.absent h hs) hdue
    | some c => exact hsub (.resume hs awaited)
  · have hrest : rest waiting move = waiting := by
      funext h
      unfold rest
      split
      next h' awaited => exact absurd ⟨h', awaited, rfl⟩ hres
      next => rfl
    have hnone (hw : ∀ h, remaps (n.move view move).2 h = 0)
        (hc' : (n.move view move).1.Coherent waiting) :
        (n.move view move).1.Coherent fun h =>
          rest waiting move h + remaps (n.move view move).2 h := by
      simp only [hrest, hw, Nat.add_zero]
      exact hc'
    have ht : n.Turn view move (n.move view move) := turn_move move
    cases ht with
    | submission ht ha => exact hsub ht
    | carried hm hco ha hn hst =>
      exact hnone (fun h => by simp [remaps, ha.effects, wait?_fanout]) (hc.carried ha hn hroom)
    | acknowledged hk ha hn hst =>
      refine hnone (fun h => by simp [remaps, ha.effects, wait?_fanout]) ?_
      cases hk with
      | answer hi hr hf => exact hc.acknowledged hf hr ha hn
      | departure hf gone => exact hc.acknowledged hf hdue ha hn
    | plain ht ha => exact hnone (remaps_plain ht) (hc.plain ha)

theorem registry_submission {h : Handle} {c : Submission} {x : Submission × List SubmissionAction}
    {r : Node × List Effect} (hc : n.Coherent waiting) (hdue : n.Due waiting move)
    (ht : SubmissionTurn view n move h c x) (ha : AfterSubmission view n move h c x r)
    (k : FutureId) : r.1.registry.get? k =
      if x.1.future = some k then some (.submission h)
      else if c.future = some k then none else n.registry.get? k := by
  rw [ha.registry]
  exact (steps_turn hc hdue ht).registry _ k (ht.registered hc) hc.fresh

/-- A number belongs to somebody after a move only if it did before, or was just given. -/
theorem registry_move (hc : n.Coherent waiting) (hdue : n.Due waiting move) {k : FutureId}
    {who : Registered} (hk : (n.move view move).1.registry.get? k = some who) :
    n.registry.get? k = some who ∨
      k = n.nextFuture ∧ (n.move view move).1.nextFuture = n.nextFuture + 1 := by
  have ht : n.Turn view move (n.move view move) := turn_move move
  cases ht with
  | @submission h c x ht ha =>
    rw [registry_submission hc hdue ht ha] at hk
    split at hk
    next hx =>
      rcases (steps_turn hc hdue ht).future k hx with hf | ⟨rfl, hl⟩
      · exact .inl (hk ▸ ht.registered hc hf)
      · exact .inr ⟨rfl, by rw [ha.nextFuture, if_pos hl]⟩
    next =>
      split at hk
      · cases hk
      · exact .inl hk
  | carried hm hco ha hn hs =>
    rw [ha.registry, registry_opened] at hk
    split at hk
    next he => exact .inr ⟨he, hn⟩
    next => exact .inl hk
  | @acknowledged id f o lost hr ha hn hs =>
    have hf : n.fanouts.get? id = some f ∧ n.registry.get? id = some .fanout := by
      cases hr with
      | answer hi hr hf => exact ⟨hf, hr⟩
      | departure hf gone => exact ⟨hf, hdue⟩
    obtain ⟨rfl, hsound, -⟩ := hc.fanouts id f hf.1
    obtain ⟨f', hf', hd⟩ := (hc.fanout f.id).1 hf.2
    rw [hf.1, Option.some_inj] at hf'
    subst hf'
    rw [ha.registry, registry_register hsound (by simp [hd])] at hk
    split at hk
    · cases hk
    · exact .inl hk
  | plain ht ha => exact .inl (ha.registry ▸ hk)

/-- The news of a departure reach one coordinator, and the others keep their numbers. -/
theorem registry_lose (hc : n.Coherent waiting) {gone : NodeId} {r : FutureId × Registered}
    (hr : n.registry.get? r.1 = some r.2) {k : FutureId} (hk : k ≠ r.1) :
    (n.move view (.lose gone r)).1.registry.get? k = n.registry.get? k := by
  obtain ⟨id, who⟩ := r
  have hdue : n.Due waiting (.lose gone (id, who)) := hr
  cases who with
  | submission h =>
    obtain ⟨c, hs, hf⟩ := (hc.submission id h).1 hr
    have ht : SubmissionTurn view n (.lose gone (id, .submission h)) h c
      (c.onDeparture n.site view gone) := .departure hs gone
    have hfut : ¬ c.future = some k := fun h => hk (Option.some_inj.1 (h.symm.trans hf))
    rw [registry_submission hc hdue ht (submission_move ht), if_neg, if_neg hfut]
    intro hx
    rcases (steps_turn hc hdue ht).future k hx with h | ⟨-, h⟩
    · exact hfut h
    · cases h
  | fanout =>
    obtain ⟨f, hf, hd⟩ := (hc.fanout id).1 hr
    obtain ⟨rfl, hs, -⟩ := hc.fanouts id f hf
    have hk' : Acknowledges n (.lose gone (f.id, .fanout)) f.id f gone true := .departure hf gone
    obtain ⟨ha, -, -⟩ : AfterFanout view n _ _ ∧ _ ∧ _ := acknowledged_move hk'
    rw [ha.registry, registry_register hs (by simp [hd]), if_neg fun h => hk h.1]

theorem coherent_ofConfig (c : Config) (processors : Processors) :
    (ofConfig c processors).Coherent fun _ => 0 where
  submission := by simp [ofConfig]
  fanout := by simp [ofConfig]
  fanouts := by simp [ofConfig]
  futures := by simp [ofConfig]
  handles := by simp [ofConfig]
  stage := by simp [ofConfig]
  absent _ _ := rfl

theorem issued_move (view : View) (n : Node) (move : Move) :
    (n.move view move).1.versions.issued = n.versions.issued ∨
      (n.move view move).1.versions.issued = n.versions.issued + 1 := by
  have ht : n.Turn view move (n.move view move) := turn_move move
  cases ht with
  | submission ht ha =>
    rw [ha.versions]
    split
    next => exact .inr rfl
    next => exact .inl rfl
  | carried hm hc ha => exact .inl (congrArg _ ha.versions)
  | acknowledged hk ha => exact .inl (congrArg _ ha.versions)
  | plain ht ha => exact .inl (congrArg _ ha.versions)

theorem counters_lose (view : View) (n : Node) (gone : NodeId) (r : FutureId × Registered) :
    (n.move view (.lose gone r)).1.nextFuture = n.nextFuture ∧
      (n.move view (.lose gone r)).1.versions = n.versions := by
  have ht : n.Turn view (.lose gone r) (n.move view (.lose gone r)) := turn_move _
  cases ht with
  | submission ht ha => exact ⟨ha.nextFuture, ha.versions⟩
  | carried hm hc ha => cases hm
  | acknowledged hk ha hn => exact ⟨hn, ha.versions⟩
  | plain ht ha => exact ⟨ha.nextFuture, ha.versions⟩

/-! ## Attempts of one update -/

open Submission (SameUpdate)

theorem sameUpdate_over {c c' : Submission} {x : Submission × List SubmissionAction}
    (h : Submission.Over c' x) (hs : SameUpdate c c') : SameUpdate c x.1 := by
  cases h with
  | failed hs' e hr hf => exact hs.trans hs'
  | waits hs' hr hf ha v => exact hs.trans hs'

/-- Whatever a submission hears, it stays a submission of the same update. -/
theorem sameUpdate_fares {site : Site} {fresh : FutureId} {maps : Bool} {c : Submission}
    {x : Submission × List SubmissionAction} (h : Fares site view fresh maps c x) :
    SameUpdate c x.1 := by
  cases h with
  | same hs => exact .refl c
  | dropped hd ho => exact sameUpdate_over ho (.refl c)
  | follows hd hf ho =>
    cases ho with
    | pending => exact ⟨rfl, rfl, rfl⟩
    | unconfirmed => exact ⟨rfl, rfl, rfl⟩
    | finished hn => exact ⟨rfl, rfl, rfl⟩
  | mapped hm hf ho =>
    cases ho with
    | done hd => exact .refl c
    | ended hd ho => exact sameUpdate_over ho (.refl c)
    | @ownerless hl hp y ho =>
      exact sameUpdate_over (x := y) ho ⟨rfl, rfl, rfl⟩
    | @refused hl primary hp hr y ho =>
      exact sameUpdate_over (x := y) ho ⟨rfl, rfl, rfl⟩
    | async hl hp hr hs hn outcome => exact ⟨rfl, rfl, rfl⟩
    | sent hl hp hr hs => exact ⟨rfl, rfl, rfl⟩

theorem sameUpdate_move {h : Handle} {c : Submission}
    (hc : n.Coherent waiting) (hdue : n.Due waiting move)
    (hroom : n.versions.issued.toNat + 1 < UInt64.size) (hs : n.submissions.get? h = some c) :
    ∃ c', (n.move view move).1.submissions.get? h = some c' ∧ SameUpdate c c' := by
  have ht : n.Turn view move (n.move view move) := turn_move move
  cases ht with
  | @submission h' c₀ x ht ha =>
    by_cases hh : h = h'
    · subst hh
      have hknown : c₀ = c := by
        rcases ht.known with ⟨hs', -⟩ | ⟨-, hn, -⟩
        · exact Option.some_inj.1 (hs'.symm.trans hs)
        · have hle := hc.handles h c hs
          rw [hn] at hle
          exact absurd (lt_add_one_of_room hroom) (UInt64.not_lt.2 hle)
      subst hknown
      refine ⟨x.1, ?_, sameUpdate_fares (fares_turn hc hdue ht)⟩
      rw [ha.submissions, SortedMap.get?_insert_self]
    · refine ⟨c, ?_, .refl c⟩
      rw [ha.submissions, SortedMap.get?_insert_ite, if_neg hh]
      exact hs
  | carried hb hco ha => exact ⟨c, ha.submissions ▸ hs, .refl c⟩
  | acknowledged hk ha => exact ⟨c, ha.submissions ▸ hs, .refl c⟩
  | plain ht ha => exact ⟨c, ha.submissions ▸ hs, .refl c⟩

end Node

end AtomicGrid
