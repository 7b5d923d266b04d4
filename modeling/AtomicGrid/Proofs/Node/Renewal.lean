import AtomicGrid.Proofs.Node.Answers
import AtomicGrid.Proofs.Node.Outpost

/-!
# Every attempt is a new one

An update may take several attempts.  Each has a number and a topology version that no attempt before
it had, and starts from nothing: what it knows and what it has returned are the words heard since its
request was sent.

What carries the versions upwards is the wait between two attempts.  A wait is for a version that is
`Beyond` all requests so far: of a later exchange than each of them, unless the newest version that a
primary has refused keeps the submission from mapping there.  So nothing depends on the minor
versions in between.

## Results

* `Outpost.Beyond.lt`: what a wait promises once it is over.
* `Outpost.Turning.tracked_act`: what the turn of a submission preserves.
* `Outpost.Tracks.next`: what one move, or one change of topology, preserves.
* `Outpost.renewed_run`: all attempts of an update, after any events.
-/

set_option autoImplicit false

namespace AtomicGrid

/-- The first request has a greater number and is mapped on a newer topology. -/
def UpdateRequest.Renews (q q' : UpdateRequest) : Prop :=
  q'.future < q.future ∧ q'.topologyVersion < q.topologyVersion

/-- What the words have returned, the last of them first. -/
def returnedBy (operation : Operation) (ws : List Word) : Option UpdateReturn :=
  ws.foldr (fun w old => w.returned operation old) none

/-- How the current attempt of a submission came about.  Its request was sent at `t`, the last of the
submission's requests; since then it has heard the words `ws`, the last of them first, and it is
nothing but what these make of the attempt `a` as it was when its request was sent. -/
structure Sprung (log : List Moment) (h : Handle) (c : Submission) (id : FutureId) (t : Moment)
    (since before : List Moment) (q : UpdateRequest) (a : Attempt) (ws : List Word) : Prop where
  log_eq : log = since ++ t :: before
  sent : t.requests h = [q]
  last : requestsOf since h = []
  number : q.future = id
  version : c.topologyVersion = q.topologyVersion
  fresh : a.Fresh
  request : a.request = q
  shown : Node.transmission t.view a.primary (.updateRequest q) ∈ t.effects
  attempt : c.attempt = some (a.heard (ws.map Word.news))
  ret : c.ret = returnedBy c.update.operation ws
  heard : ws.Sublist (since.filterMap (·.word? id))

namespace Sprung

variable {log since before : List Moment} {t t' : Moment} {h : Handle} {c : Submission}
  {id : FutureId} {q : UpdateRequest} {a a' : Attempt} {ws : List Word} {w : Word}
  {x : Submission × List SubmissionAction}

/-- The request of the current attempt is the last one. -/
theorem head (hs : Sprung log h c id t since before q a ws) :
    requestsOf log h = q :: requestsOf before h := by
  rw [hs.log_eq, requestsOf_append, requestsOf_cons, hs.last, hs.sent]
  rfl

theorem request_of_attempt (hs : Sprung log h c id t since before q a ws)
    (ha : c.attempt = some a') : a'.request = q := by
  have he : a' = a.heard (ws.map Word.news) := Option.some_inj.1 (ha.symm.trans hs.attempt)
  rw [he, (Attempt.knows_heard hs.fresh _).request]
  exact hs.request

theorem later (hs : Sprung log h c id t since before q a ws) (hr : t'.requests h = []) :
    Sprung (t' :: log) h c id t (t' :: since) before q a ws :=
  { hs with
    log_eq := congrArg (t' :: ·) hs.log_eq
    last := by
      rw [requestsOf_cons, hr, hs.last]
      rfl
    heard := hs.heard.trans ((List.sublist_cons_self t' since).filterMap _) }

theorem told (hs : Sprung log h c id t since before q a ws) (hr : t'.requests h = [])
    (hw : t'.word? id = some w) (ha : c.attempt = some a') (hx : c.Tells a' w x)
    (hf : x.1.future ≠ none) :
    Sprung (t' :: log) h x.1 id t (t' :: since) before q a (w :: ws) := by
  obtain rfl : a' = a.heard (ws.map Word.news) := Option.some_inj.1 (ha.symm.trans hs.attempt)
  have hl := hs.later hr
  have hret : w.returned c.update.operation c.ret = returnedBy c.update.operation (w :: ws) := by
    rw [hs.ret]
    rfl
  have hheard : (w :: ws).Sublist ((t' :: since).filterMap (·.word? id)) := by
    simp only [List.filterMap_cons, hw]
    exact hs.heard.cons_cons w
  unfold Submission.Tells at hx
  generalize hp : ((a.heard (ws.map Word.news)).hear w.news).2 = p at hx
  cases hx with
  | pending => exact { hl with attempt := rfl, ret := hret, heard := hheard }
  | unconfirmed => exact { hl with attempt := rfl, ret := hret, heard := hheard }
  | finished hn => exact absurd rfl hf

end Sprung

namespace Outpost

/-! ## Waiting for a version -/

/-- No attempt that maps once the version is there repeats one of these requests. -/
def Beyond (qs : List UpdateRequest) (c : Submission) (v : TopologyVersion) : Prop :=
  ∀ q ∈ qs, q.topologyVersion.major < v.major ∨
    ∃ u, c.refused = some u ∧ q.topologyVersion ≤ u

variable {qs : List UpdateRequest} {c : Submission} {v : TopologyVersion} {t : Topology}

theorem admits_of_launches (h : c.launches t = true) : c.admits t = true := by
  simp only [Submission.launches, Bool.and_eq_true] at h
  exact h.2

/-- A submission that waited for such a version maps on a newer one than ever before. -/
theorem Beyond.lt (hb : Beyond qs c v) (hv : v.major ≤ t.version.major)
    (hl : c.launches t = true) :
    ∀ q ∈ qs, q.topologyVersion < t.version := by
  intro q hq
  rcases hb q hq with hlt | ⟨u, hu, hle⟩
  · exact TopologyVersion.lt_of_major_lt (UInt64.lt_of_lt_of_le hlt hv)
  · have ht := admits_of_launches hl
    simp only [Submission.admits, hu, Bool.and_eq_true, Option.all_some, decide_eq_true_eq] at ht
    exact TopologyVersion.lt_of_le_of_lt hle ht.2

/-- A submission that cannot map yet goes on waiting for such a version. -/
theorem Beyond.awaitedVersion (hb : Beyond qs c v) (hv : v.major ≤ t.version.major) :
    Beyond qs c (c.awaitedVersion t) := by
  have hle : t.version ≤ c.awaitedVersion t := by
    unfold Submission.awaitedVersion
    split
    · exact TopologyVersion.le_max_right _ _
    · exact TopologyVersion.le_refl _
  intro q hq
  apply (hb q hq).imp_left
  intro hlt
  exact UInt64.lt_of_lt_of_le hlt (UInt64.le_trans hv (TopologyVersion.major_le hle))

theorem await_of_retried {x : Submission × List SubmissionAction}
    (hx : Submission.Retried c v x) {w : TopologyVersion} (hw : .await w ∈ x.2) :
    w = v ∧ x.1.refused = c.refused := by
  cases hx with
  | stuck => simp at hw
  | waits =>
    refine ⟨?_, rfl⟩
    simpa using hw

/-- So does a submission whose attempt has ended. -/
theorem beyond_declined {view : View} {y : Answer} {x : Submission × List SubmissionAction}
    (hx : Submission.Declined view c y x)
    (hle : ∀ q ∈ qs, q.topologyVersion ≤ y.request.topologyVersion)
    (hroom : y.request.topologyVersion.major.toNat + 1 < UInt64.size) {w : TopologyVersion}
    (hw : .await w ∈ x.2) : Beyond qs x.1 w := by
  intro q hq
  cases hx with
  | refused hr hy =>
    obtain ⟨-, href⟩ := await_of_retried hy hw
    refine .inr ⟨_, href, TopologyVersion.le_trans (hle q hq) ?_⟩
    split
    · exact TopologyVersion.le_max_right _ _
    · exact TopologyVersion.le_refl _
  | charged hr hf hl hy =>
    obtain ⟨rfl, -⟩ := await_of_retried hy hw
    have hmajor := TopologyVersion.major_le (hle q hq)
    exact .inl (UInt64.lt_of_le_of_lt hmajor (lt_add_one_of_room hroom))
  | fatal hr hf a => simp at hw

/-! ## Requests on record -/

/-- What is known of the requests of a submission. -/
structure Ranked (o : Outpost) (h : Handle) (c : Submission) : Prop where
  version : ∀ q ∈ requestsOf o.log h, q.writeVersion = c.version
  future : ∀ q ∈ requestsOf o.log h, q.future < o.node.nextFuture
  major : ∀ q ∈ requestsOf o.log h, q.topologyVersion.major ≤ o.topology.version.major
  newer : (requestsOf o.log h).Pairwise UpdateRequest.Renews

/-- What is known of a request that the submission is about to send. -/
structure Renewing (o : Outpost) (h : Handle) (c : Submission) (q : UpdateRequest) : Prop where
  launches : c.launches o.topology = true
  version : q.writeVersion = c.version
  future : q.future = o.node.nextFuture
  topology : q.topologyVersion = o.topology.version
  newer : ∀ q' ∈ requestsOf o.log h, q'.topologyVersion < o.topology.version

variable {o o' : Outpost} {view : View} {move : Move} {h : Handle} {id : FutureId}
  {q : UpdateRequest} {x : Submission × List SubmissionAction}

theorem requestsOf_act (view : View) (o : Outpost) (move : Move) (h : Handle) :
    requestsOf (o.act view move).log h =
      (o.moment view move).requests h ++ requestsOf o.log h := rfl

theorem renewing_charted {q? : Option UpdateRequest} {y : Option Answer}
    (hx : Submission.Charted o.node.site view c o.node.nextFuture q? y x)
    (hv : view.topology = o.topology) (hle : v.major ≤ o.topology.version.major)
    (hb : Beyond (requestsOf o.log h) c v) : ∀ q ∈ q?, o.Renewing h c q := by
  have hsent (hl : c.launches view.topology = true) :
      o.Renewing h c (c.request o.node.site view o.node.nextFuture) := by
    rw [hv] at hl
    exact ⟨hl, rfl, rfl, congrArg Topology.version hv, hb.lt hle hl⟩
  intro q hq
  cases hx with
  | failed | parked | ownerless => cases hq
  | unsent hl hr hy =>
    cases hq
    exact hsent hl
  | async hl hr outcome =>
    cases hq
    exact hsent hl
  | sent hl hr =>
    cases hq
    exact hsent hl

theorem Ranked.same (hk : o.Ranked h c) (hr : o.solo.Roomy) {c' : Submission}
    (hver : c'.version = c.version) (hq : (o.moment view move).requests h = []) :
    (o.act view move).Ranked h c' := by
  have hlist : requestsOf (o.act view move).log h = requestsOf o.log h := by
    rw [requestsOf_act, hq]
    rfl
  constructor
  · rw [hlist, hver]
    exact hk.version
  · rw [hlist]
    intro q hmem
    have hlt : q.future < (o.solo.act view move).node.nextFuture :=
      Solo.nextFuture_lt_act hr (hk.future q hmem)
    rwa [← solo_act] at hlt
  · rw [hlist]
    exact hk.major
  · rw [hlist]
    exact hk.newer

theorem Ranked.sends (hk : o.Ranked h c) (hr : o.solo.Roomy) (hv : view.topology = o.topology)
    (ht : Node.SubmissionTurn view o.node move h c x) (hm : move.maps = true)
    (hver : x.1.version = c.version) (hn : o.Renewing h c q)
    (hq : (o.moment view move).requests h = [q]) : (o.act view move).Ranked h x.1 := by
  have hlist : requestsOf (o.act view move).log h = q :: requestsOf o.log h := by
    rw [requestsOf_act, hq]
    rfl
  have hnext : (o.act view move).node.nextFuture = o.node.nextFuture + 1 := by
    have hnf := (Node.submission_move ht).nextFuture
    rw [hm, hv, hn.launches] at hnf
    exact hnf
  have hlt : o.node.nextFuture < o.node.nextFuture + 1 := lt_add_one_of_room hr.futures
  constructor
  · rw [hlist, hver]
    exact List.forall_mem_cons.2 ⟨hn.version, hk.version⟩
  · rw [hlist, hnext]
    refine List.forall_mem_cons.2 ⟨hn.future ▸ hlt, ?_⟩
    intro q' hq'
    exact UInt64.lt_trans (hk.future q' hq') hlt
  · rw [hlist]
    exact List.forall_mem_cons.2 ⟨hn.topology ▸ UInt64.le_refl _, hk.major⟩
  · rw [hlist]
    refine List.pairwise_cons.2 ⟨?_, hk.newer⟩
    intro q' hq'
    exact ⟨hn.future ▸ hk.future q' hq', hn.topology ▸ hn.newer q' hq'⟩

/-! ## The invariant -/

/-- What is known of a submission and its attempts. -/
structure Tracked (o : Outpost) (h : Handle) (c : Submission) : Prop extends o.Ranked h c where
  waits : ∀ w ∈ o.waits, w.task = .remap h → Beyond (requestsOf o.log h) c w.version
  current : ∀ id, c.future = some id →
    ∃ t since before q a ws, Sprung o.log h c id t since before q a ws
  between : c.isDone = false → c.future = none → c.Blank

structure Tracks (o : Outpost) : Prop where
  known : ∀ h c, o.node.submissions.get? h = some c → o.Tracked h c
  unknown : ∀ h, o.node.submissions.get? h = none → requestsOf o.log h = []
  answered : ∀ h since t before, o.log = since ++ t :: before →
    ∀ y, t.answer? h = some y → y.request ∈ requestsOf (t :: before) h
  /-- There are no other requests than those of submissions. -/
  others : ∀ t ∈ o.log, t.move.handle? t.before = none → t.effects.filterMap Effect.request? = []

/-! ## A turn -/

theorem absent_of_submits (hs : o.Steady) (hr : o.Roomy)
    (ht : Node.SubmissionTurn view o.node move h c x) (hm : move.submits = true) :
    o.node.submissions.get? h = none := by
  rcases ht.known with ⟨-, hno⟩ | ⟨-, rfl, -⟩
  · rw [hm] at hno
    cases hno
  · cases hg : o.node.submissions.get? (o.node.versions.issued + 1) with
    | none => rfl
    | some c' =>
      have hle := hs.coherent.handles _ c' hg
      exact absurd (lt_add_one_of_room hr.solo.handles) (UInt64.not_lt.2 hle)

/-- A new submission has sent no request. -/
theorem tracked_new (hreq : requestsOf o.log h = []) (hf : c.future = none) (hb : c.Blank) :
    o.Tracked h c where
  version := by simp [hreq]
  future := by simp [hreq]
  major := by simp [hreq]
  newer := by simp [hreq]
  waits := by simp [hreq, Beyond]
  current := by simp [hf]
  between := fun _ _ => hb

theorem Tracks.before (hts : o.Tracks) (hs : o.Steady) (hr : o.Roomy)
    (ht : Node.SubmissionTurn view o.node move h c x) :
    o.Tracked h c ∧ (move.submits = true → requestsOf o.log h = []) := by
  have hnew (hm : move.submits = true) : requestsOf o.log h = [] :=
    hts.unknown h (absent_of_submits hs hr ht hm)
  refine ⟨?_, hnew⟩
  rcases ht.known with ⟨hs', -⟩ | ⟨hf, -, hm⟩
  · exact hts.known h c hs'
  · refine tracked_new (hnew hm) hf ?_
    cases ht with
    | submit hu hc =>
      subst hc
      exact ⟨rfl, rfl, rfl⟩
    | _ => cases hm

/-- The turn of a submission, with all that is known before it. -/
structure Turning (view : View) (o : Outpost) (move : Move) (h : Handle) (c : Submission)
    (x : Submission × List SubmissionAction) : Prop where
  steady : o.Steady
  roomy : o.Roomy
  sees : view.topology = o.topology
  due : o.node.Due o.solo.parked move
  reached : ∀ task awaited, move = .resume task awaited → ∃ w, o.Over task awaited w
  turn : Node.SubmissionTurn view o.node move h c x
  tracked : o.Tracked h c
  new : move.submits = true → requestsOf o.log h = []

namespace Turning

variable {q? : Option UpdateRequest} {y? : Option Answer}

/-- A submission that is mapped has waited long enough. -/
theorem ready (ht : Turning view o move h c x) (hm : move.maps = true)
    (hok : ∀ task awaited, move = .resume task awaited → ∃ v, awaited = .ok v) :
    ∃ v : TopologyVersion, v.major ≤ o.topology.version.major ∧
      Beyond (requestsOf o.log h) c v := by
  obtain ⟨-, -, -, -, hover, hturn, hk, hnew⟩ := ht
  cases hturn with
  | submit hu hc =>
    refine ⟨o.topology.version, UInt64.le_refl _, ?_⟩
    rw [hnew rfl]
    intro q hq
    cases hq
  | resume hs awaited =>
    obtain ⟨v, rfl⟩ := hok _ _ rfl
    obtain ⟨w, hw⟩ := hover _ _ rfl
    exact ⟨w.version, hw.reached v rfl, hk.waits w hw.mem hw.task⟩
  | _ => cases hm

/-- A request that is sent is a new one. -/
theorem renewing (ht : Turning view o move h c x) (hx : Node.Course view o.node move c q? y? x) :
    ∀ q ∈ q?, move.maps = true ∧ o.Renewing h c q := by
  intro q hq
  cases hx with
  | charted hm hd hf ha hok hx =>
    obtain ⟨v, hle, hb⟩ := ht.ready hm hok
    exact ⟨hm, renewing_charted hx ht.sees hle hb q hq⟩
  | _ => cases hq

/-- Nobody waits to map the submission afterwards but because of the turn. -/
theorem await_of_mem (ht : Turning view o move h c x) {w : Wait}
    (hw : w ∈ (o.act view move).waits) (hwh : w.task = .remap h) : .await w.version ∈ x.2 := by
  rcases List.mem_append.1 hw with hw | hw
  -- A submission waits once at most, and the move has used that wait up.
  · have hnone : ((o.left move).map (·.task)).count (.remap h) = 0 := by
      rw [tasks_left, Solo.count_left]
      exact Node.rest_self ht.steady.coherent ht.due ht.turn ht.roomy.solo.handles
    rw [List.count_eq_zero, ← hwh] at hnone
    exact absurd (List.mem_map_of_mem hw) hnone
  · have hturn := ht.turn
    obtain ⟨v, hmem, rfl⟩ := Moment.await_of_waits (t := o.moment view move) hturn hw
    exact hmem

/-- There is room for a version above that of a request on record. -/
theorem room (ht : Turning view o move h c x) (hle : v.major ≤ o.topology.version.major) :
    v.major.toNat + 1 < UInt64.size :=
  Nat.lt_of_le_of_lt (Nat.succ_le_succ (UInt64.le_iff_toNat_le.1 hle)) ht.roomy.major

/-- The request of the current attempt is on record, and none is newer. -/
theorem asked (ht : Turning view o move h c x) (hf : c.future = some id) {a : Attempt}
    (ha : c.attempt = some a) : a.request ∈ requestsOf o.log h ∧
      ∀ q ∈ requestsOf o.log h, q.topologyVersion ≤ a.request.topologyVersion := by
  obtain ⟨t, since, before, q, a₀, ws, hs⟩ := ht.tracked.current id hf
  have hnewer := ht.tracked.newer
  rw [hs.request_of_attempt ha]
  rw [hs.head] at hnewer ⊢
  refine ⟨List.mem_cons_self, List.forall_mem_cons.2 ⟨TopologyVersion.le_refl _, ?_⟩⟩
  intro q' hq'
  exact TopologyVersion.le_of_lt ((List.pairwise_cons.1 hnewer).1 q' hq').2

theorem beyond (ht : Turning view o move h c x) (hx : Node.Course view o.node move c q? y? x)
    (hw : .await v ∈ x.2) : Beyond (q?.toList ++ requestsOf o.log h) x.1 v := by
  have hq := ht.renewing hx
  cases hx with
  | unchanged => cases hw
  | told hd hf ha hi hw' hpos hx => exact absurd hw (Submission.Follows.no_await hx v)
  | declined hd hf ha hx =>
    obtain ⟨hmem, hle⟩ := ht.asked hf ha
    exact beyond_declined hx hle (ht.room (ht.tracked.major _ hmem)) hw
  | failed hd hf he => cases hw
  | charted hm hd hf ha hok hx =>
    cases hx with
    | failed he => cases hw
    | parked hadm =>
      obtain ⟨v₀, hle, hb⟩ := ht.ready hm hok
      obtain rfl : v = c.awaitedVersion view.topology := by simpa using hw
      rw [ht.sees]
      exact hb.awaitedVersion hle
    | ownerless hl he => simp at hw
    | @unsent hl primary e hr y hy =>
      -- The request that cannot be sent is on record already, as the newest.
      obtain ⟨-, hn⟩ := hq _ rfl
      have hmem : .await v ∈ y.2 := by simpa using hw
      refine beyond_declined hy (List.forall_mem_cons.2 ⟨TopologyVersion.le_refl _, ?_⟩) ?_ hmem
      · intro q' hq'
        exact TopologyVersion.le_of_lt (hn.topology ▸ hn.newer q' hq')
      · exact ht.room (hn.topology ▸ UInt64.le_refl _)
    | async hl hr outcome => simp at hw
    | sent hl hr => simp at hw

/-- The attempt that is sent starts from nothing. -/
theorem sprung_sent (ht : Turning view o move h c x) (hb : c.Blank) {primary : NodeId}
    (hreq : (o.moment view move).requests h =
      [c.request o.node.site view o.node.nextFuture])
    (hmem : .send primary (.updateRequest (c.request o.node.site view o.node.nextFuture)) ∈ x.2) :
    Sprung (o.moment view move :: o.log) h (c.launched o.node.site view o.node.nextFuture primary)
      o.node.nextFuture (o.moment view move) [] o.log
      (c.request o.node.site view o.node.nextFuture)
      (c.opening o.node.site view o.node.nextFuture primary) [] where
  log_eq := rfl
  sent := hreq
  last := rfl
  number := rfl
  version := rfl
  fresh := Submission.opening_fresh _ _
  request := rfl
  shown := by
    have he : (o.moment view move).effects = x.2.flatMap _ :=
      (Node.submission_move ht.turn).effects
    rw [he]
    exact List.mem_flatMap.2 ⟨_, hmem, List.mem_singleton_self _⟩
  attempt := rfl
  ret := hb.ret
  heard := List.nil_sublist _

/-- How the attempt that goes on after the turn came about. -/
theorem current (ht : Turning view o move h c x)
    (hs : (o.moment view move).Shows h c x q? y?) (hf : x.1.future = some id) :
    ∃ t since before q a ws,
      Sprung (o.moment view move :: o.log) h x.1 id t since before q a ws := by
  obtain ⟨hreq, -, hx⟩ := hs
  cases hx with
  | unchanged =>
    obtain ⟨t, since, before, q, a, ws, hsp⟩ := ht.tracked.current id hf
    exact ⟨t, _, before, q, a, ws, hsp.later hreq⟩
  | @told id' a' w x hd hf' ha hi hw hpos hx =>
    obtain ⟨t, since, before, q, a, ws, hsp⟩ := ht.tracked.current id' hf'
    have hword : (o.moment view move).word? id' = some w := by
      rw [Moment.word?, if_pos hi]
      exact hw
    have hsp' := hsp.told hreq hword ha hx (by simp [hf])
    have hid : id' = id := by
      rcases Submission.Follows.future hx with he | ⟨he, -⟩
      · exact Option.some_inj.1 (hf'.symm.trans (he.symm.trans hf))
      · rw [he] at hf
        cases hf
    exact ⟨t, _, before, q, a, w :: ws, hid ▸ hsp'⟩
  | declined hd hf' ha hx => simp [hx.blank.1] at hf
  | failed hd hf' he => cases hf
  | charted hm hd hf' ha hok hx =>
    have hb := ht.tracked.between hd hf'
    cases hx with
    | failed he => cases hf
    | parked hadm =>
      rw [hf'] at hf
      cases hf
    | ownerless hl he => cases hf
    | unsent hl hr hy => simp [hy.blank.1] at hf
    | async hl hr outcome => cases hf
    | @sent hl primary hr =>
      cases hf
      refine ⟨_, _, _, _, _, _, ht.sprung_sent hb hreq ?_⟩
      exact List.mem_cons_of_mem _ (List.mem_singleton_self _)

/-- A submission that waits after its turn has kept nothing. -/
theorem between (ht : Turning view o move h c x) (hx : Node.Course view o.node move c q? y? x)
    (hd : x.1.isDone = false) (hf : x.1.future = none) : x.1.Blank := by
  cases hx with
  | unchanged => exact ht.tracked.between hd hf
  | told hd' hf' ha hi hw hpos hx =>
    rcases Submission.Follows.future hx with he | ⟨-, hdone⟩
    · rw [he, hf'] at hf
      cases hf
    · rw [hdone] at hd
      cases hd
  | declined hd' hf' ha hx => exact hx.blank.2 hd
  | failed hd' hf' he => simp at hd
  | charted hm hd' hf' ha hok hx =>
    cases hx with
    | failed he => simp at hd
    | parked hadm => exact ht.tracked.between hd hf
    | ownerless hl he => simp at hd
    | unsent hl hr hy => exact hy.blank.2 hd
    | async hl hr outcome => simp at hd
    | sent hl hr => cases hf

theorem tracked_act (ht : Turning view o move h c x)
    (hs : (o.moment view move).Shows h c x q? y?) : (o.act view move).Tracked h x.1 := by
  have hver : x.1.version = c.version :=
    (Node.sameUpdate_fares (Node.fares_turn ht.steady.coherent ht.due ht.turn)).version
  have hlist : requestsOf (o.act view move).log h = q?.toList ++ requestsOf o.log h := by
    rw [requestsOf_act, hs.requests]
  refine { toRanked := ?_, waits := ?_, current := ?_, between := ?_ }
  · have hreq := hs.requests
    have hn := ht.renewing hs.course
    cases q? with
    | none => exact ht.tracked.same ht.roomy.solo hver hreq
    | some q =>
      obtain ⟨hm, hn⟩ := hn q rfl
      exact ht.tracked.sends ht.roomy.solo ht.sees ht.turn hm hver hn hreq
  · intro w hw hwh
    rw [hlist]
    exact ht.beyond hs.course (ht.await_of_mem hw hwh)
  · intro id hf
    exact ht.current hs hf
  · exact ht.between hs.course

/-- An answer that the submission gets is for one of its requests. -/
theorem answered (ht : Turning view o move h c x)
    (hs : (o.moment view move).Shows h c x q? y?) :
    ∀ y ∈ y?, y.request ∈ requestsOf (o.moment view move :: o.log) h := by
  intro y hy
  rw [requestsOf_cons, hs.requests, List.mem_append]
  have hx := hs.course
  cases hx with
  | unchanged => cases hy
  | @told id a w x hd hf ha hi hw hpos hx =>
    have hreq : y.request = a.request := by
      cases w with
      | answer r =>
        cases hy
        rfl
      | _ => cases hy
    rw [hreq]
    exact .inr (ht.asked hf ha).1
  | declined hd hf ha hx =>
    cases hy
    exact .inr (ht.asked hf ha).1
  | failed hd hf he => cases hy
  | charted hm hd hf ha hok hx =>
    cases hx with
    | unsent hl hr hy' =>
      cases hy
      exact .inl (List.mem_singleton_self _)
    | _ => cases hy

theorem submission_act (ht : Turning view o move h c x) :
    (o.act view move).node.submissions.get? h = some x.1 := by
  have hsub := (Node.submission_move ht.turn).submissions
  show (o.node.move view move).1.submissions.get? h = _
  rw [hsub, SortedMap.get?_insert_self]

end Turning

/-! ## Runs -/

/-- The error that ends a wait names no failed keys. -/
theorem failures?_of_over
    (hover : ∀ task awaited, move = .resume task awaited → ∃ w, o.Over task awaited w) (task : Task)
    (e : CacheError) (hm : move = .resume task (.error e)) : e.failures? = none := by
  obtain ⟨w, hw⟩ := hover task _ hm
  exact hw.error e rfl

theorem Tracked.quiet (hk : o.Tracked h c) (hr : o.Roomy) (hq : (o.moment view move).Quiet h) :
    (o.act view move).Tracked h c := by
  have hreq := Moment.requests_of_quiet hq
  have hlist : requestsOf (o.act view move).log h = requestsOf o.log h := by
    rw [requestsOf_act, hreq]
    rfl
  refine { toRanked := hk.same hr.solo rfl hreq, waits := ?_, current := ?_, between := hk.between }
  · intro w hw hwh
    rw [hlist]
    rcases List.mem_append.1 hw with hw | hw
    · exact hk.waits w (mem_left hw) hwh
    · exact absurd hwh (Moment.waits_of_quiet hq hw)
  · intro id hf
    obtain ⟨t, since, before, q, a, ws, hs⟩ := hk.current id hf
    exact ⟨t, _, before, q, a, ws, hs.later hreq⟩

theorem tracks_start (config : Config) (processors : Processors) (members : List NodeId) :
    (start config processors members).Tracks where
  known := by
    intro h c hs
    cases hs
  unknown := fun _ _ => rfl
  answered := by
    intro h since t before he
    cases since <;> cases he
  others := by
    intro t ht
    cases ht

theorem Tracks.turning (hts : o.Tracks) (hs : o.Steady) (hr : o.Roomy)
    (hv : view.topology = o.topology) (hdue : o.node.Due o.solo.parked move)
    (hover : ∀ task awaited, move = .resume task awaited → ∃ w, o.Over task awaited w)
    (h : Handle) : (o.moment view move).Quiet h ∨ ∃ c x q? y?, Turning view o move h c x ∧
      (o.moment view move).Shows h c x q? y? := by
  by_cases hq : (o.moment view move).Quiet h
  · exact .inl hq
  · right
    simp only [Moment.Quiet, not_forall, not_not] at hq
    obtain ⟨c, x, ht⟩ := hq
    obtain ⟨hk, hnew⟩ := hts.before hs hr ht
    obtain ⟨q?, y?, hx⟩ := Moment.course_turn (t := o.moment view move) hs.coherent
      hs.attends.numbered hdue (failures?_of_over hover) ht
    exact ⟨c, x, q?, y?, ⟨hs, hr, hv, hdue, hover, ht, hk, hnew⟩, hx⟩

theorem Tracks.act (hts : o.Tracks) (hs : o.Steady) (hr : o.Roomy) (hv : view.topology = o.topology)
    (hdue : o.node.Due o.solo.parked move)
    (hover : ∀ task awaited, move = .resume task awaited → ∃ w, o.Over task awaited w) :
    (o.act view move).Tracks := by
  have hcases := hts.turning hs hr hv hdue hover
  constructor
  · intro h c hc
    rcases hcases h with hq | ⟨c₀, x, q?, y?, ht, hx⟩
    · have hc : o.node.submissions.get? h = some c := (Moment.submissions_of_quiet hq).symm.trans hc
      exact (hts.known h c hc).quiet hr hq
    · obtain rfl : x.1 = c := Option.some_inj.1 (ht.submission_act.symm.trans hc)
      exact ht.tracked_act hx
  · intro h hnone
    rcases hcases h with hq | ⟨c₀, x, q?, y?, ht, hx⟩
    · have hold : o.node.submissions.get? h = none :=
        (Moment.submissions_of_quiet hq).symm.trans hnone
      rw [requestsOf_act, Moment.requests_of_quiet hq, hts.unknown h hold]
      rfl
    · rw [ht.submission_act] at hnone
      cases hnone
  · intro h since t before hlog y hy
    cases since with
    | nil =>
      cases hlog
      rcases hcases h with hq | ⟨c₀, x, q?, y?, ht, hx⟩
      · rw [Moment.answer?_of_quiet (t := o.moment view move) hdue hq] at hy
        cases hy
      · rw [hx.answer] at hy
        exact ht.answered hx y hy
    | cons t' since =>
      obtain ⟨-, hlog⟩ := List.cons.inj hlog
      exact hts.answered h since t before hlog y hy
  · intro t ht hh
    rcases List.mem_cons.1 ht with rfl | ht
    · exact Moment.handle?_of_request (t := o.moment view move) hs.coherent hs.attends.numbered
        hdue (failures?_of_over hover) hh
    · exact hts.others t ht hh

theorem Tracks.shift (hts : o.Tracks) {t : Topology}
    (ht : o.topology.version.major ≤ t.version.major) :
    (o.shift t).Tracks where
  known h c hc :=
    have hk := hts.known h c hc
    { hk with major := fun q hq => UInt64.le_trans (hk.major q hq) ht }
  unknown := hts.unknown
  answered := hts.answered
  others := hts.others

theorem Tracks.next (hts : o.Tracks) (hs : o.Steady) (hr : o.Roomy) (hn : o.Next o') :
    o'.Tracks := by
  cases hn with
  | acts hv hdue hover => exact hts.act hs hr hv hdue hover
  | shifts ht => exact hts.shift ht

theorem Reached.tracks {o₀ : Outpost} (h : Reached o₀ o) (h₀ : o₀.Tracks) : o.Tracks := by
  induction h with
  | start => exact h₀
  | next h hs hr hn ih => exact ih.next hs hr hn

/-- What holds of all attempts of an update. -/
structure Renewed (o : Outpost) (h : Handle) (c : Submission) : Prop where
  /-- All requests have the one identity of the update. -/
  version : ∀ q ∈ requestsOf o.log h, q.writeVersion = c.version
  /-- Numbers and topology versions go up from each request to all later ones. -/
  newer : (requestsOf o.log h).Pairwise UpdateRequest.Renews
  /-- Once a primary has refused the version of a request, all requests are newer than that. -/
  refused : ∀ since t before y, o.log = since ++ t :: before → t.answer? h = some y →
    y.response.needsRemap = true →
      ∀ q ∈ requestsOf since h, y.request.topologyVersion < q.topologyVersion
  /-- No attempt but the last has its number on the node. -/
  registered : ∀ id, o.node.registry.get? id = some (.submission h) →
    ∃ q ∈ (requestsOf o.log h).head?, q.future = id
  /-- The current attempt is what has come since its own request. -/
  current : ∀ id, c.future = some id →
    ∃ t since before q a ws, Sprung o.log h c id t since before q a ws
  between : c.isDone = false → c.future = none → c.Blank

theorem Tracks.renewed (hts : o.Tracks) (hs : o.Steady)
    (hc : o.node.submissions.get? h = some c) : o.Renewed h c := by
  have hk := hts.known h c hc
  refine ⟨hk.version, hk.newer, ?_, ?_, hk.current, hk.between⟩
  · intro since t before y hlog hy _ q hq
    have hmem := hts.answered h since t before hlog y hy
    have hnewer := hk.newer
    rw [hlog, requestsOf_append, List.pairwise_append] at hnewer
    exact (hnewer.2.2 q hq y.request hmem).2
  · intro id hr
    obtain ⟨c', hc', hf⟩ := (hs.coherent.submission id h).1 hr
    obtain rfl : c = c' := Option.some_inj.1 (hc.symm.trans hc')
    obtain ⟨t, since, before, q, a, ws, hsp⟩ := hk.current id hf
    rw [hsp.head]
    exact ⟨q, rfl, hsp.number⟩

/-- After any events, every attempt of an update was a new one, and no other requests were sent than
those of attempts. -/
theorem renewed_run (config : Config) (processors : Processors) (members : List NodeId)
    (es : List Happening) (hlen : es.length + 1 < UInt64.size) :
    (∀ h c, ((start config processors members).run es).node.submissions.get? h = some c →
      ((start config processors members).run es).Renewed h c) ∧
    ∀ t ∈ ((start config processors members).run es).log, t.move.handle? t.before = none →
      t.effects.filterMap Effect.request? = [] := by
  obtain ⟨hr, hs⟩ := reached_run config processors members es hlen
  have hts := hr.tracks (tracks_start config processors members)
  exact ⟨fun h c hc => hts.renewed hs hc, hts.others⟩

/-- Node 2 owns all keys. -/
def ofSecond : Occurrence → Happening := .node (.pinned [⟨2⟩]) fun _ => none

/-- Node 2 refuses the version of a first request and says that it has none itself. -/
def refusal : Message :=
  .updateResponse
    { UpdateResponse.plain ⟨cacheIdOf "default", 0, 1⟩ ⟨2⟩ with remapKeys := [[1]] }

/-- Node 1 stores a value.  Its request is refused, and the version it has will not do; an exchange
brings another. -/
def refusedOnce : List Happening :=
  [ofSecond (.submit (.put [1] [2])), ofSecond (.receive ⟨2⟩ refusal),
    ofSecond (.resume (.remap 1) (.ok ⟨1, 0⟩)), .exchange [⟨1⟩, ⟨2⟩], .settle,
    ofSecond (.resume (.remap 1) (.ok ⟨2, 0⟩))]

theorem renewed_refusedOnce :
    let o := (start { nodeId := 1 } Processor.none [⟨1⟩, ⟨2⟩]).run refusedOnce
    (requestsOf o.log 1).map (fun q => (q.future, q.topologyVersion)) =
      [(2, ⟨2, 0⟩), (1, ⟨1, 0⟩)] ∧ ∃ c, o.Renewed 1 c := by
  refine ⟨by decide +kernel, ?_⟩
  obtain ⟨c, hc⟩ := Option.isSome_iff_exists.1 (by decide +kernel :
    (((start { nodeId := 1 } Processor.none [⟨1⟩, ⟨2⟩]).run
      refusedOnce).node.submissions.get? 1).isSome = true)
  exact ⟨c, (renewed_run { nodeId := 1 } Processor.none [⟨1⟩, ⟨2⟩] refusedOnce
    (by decide)).1 1 c hc⟩

end Outpost

end AtomicGrid
