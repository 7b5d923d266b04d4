import AtomicGrid.Proofs.Node.Renewal

/-!
# The budget of attempts

An update may be tried again a fixed number of times.  An attempt is charged for if it ends with
failed keys and trying again can help; an answer that asks to map the request again costs nothing.
The failures of all attempts are kept, for each key the one reported last, and make up the error of
an update that has failed.

An `Account` relates the counters and the record of a submission to the answers it got: how many of
them are failures that trying again can help, and what they report.

## Results

* `Account.declined`: what a negative answer makes of an account.
* `Outpost.Turning.account`: what the turn of a submission makes of it.
* `Outpost.accounted_run`: budget, failures and error of an update, after any events.
-/

set_option autoImplicit false

namespace AtomicGrid

/-! ## What answers amount to -/

/-- The number of attempts that failed in a way that trying again can help. -/
def failing (ys : List Answer) : Nat := ys.countP Answer.fails

/-- The failures that the answers report, the last one first. -/
def reported (ys : List Answer) : List (Key × KeyFailure) := ys.flatMap fun y => y.reports.reverse

theorem failing_cons (y : Answer) (ys : List Answer) :
    failing (y :: ys) = failing ys + if y.fails then 1 else 0 := List.countP_cons

theorem failing_cons_of_not {y : Answer} (h : y.fails = false) (ys : List Answer) :
    failing (y :: ys) = failing ys := by
  rw [failing_cons, h]
  rfl

theorem reported_cons (y : Answer) (ys : List Answer) :
    reported (y :: ys) = y.reports.reverse ++ reported ys := rfl

theorem reported_cons_of_nil {y : Answer} (h : y.reports = []) (ys : List Answer) :
    reported (y :: ys) = reported ys := by
  rw [reported_cons, h]
  rfl

/-- Every failure is reported on the version of the request that was answered. -/
theorem exists_of_mem_reported {ys : List Answer} {e : Key × KeyFailure} (he : e ∈ reported ys) :
    ∃ y ∈ ys, e.2.topologyVersion = y.request.topologyVersion := by
  obtain ⟨y, hy, he⟩ := List.mem_flatMap.1 he
  exact ⟨y, hy, Answer.topologyVersion_of_reports (List.mem_reverse.1 he)⟩

/-- The set has the keys of the reports and no others, each as it is reported first in the list. -/
def FailureSet.Lists (s : FailureSet) (rs : List (Key × KeyFailure)) : Prop :=
  ∀ k, s.get? k = rs.lookup k

namespace FailureSet

variable {s : FailureSet} {rs : List (Key × KeyFailure)} {v : TopologyVersion}

theorem Lists.until (h : s.Lists rs) (hv : ∀ e ∈ rs, e.2.topologyVersion ≤ v) : s.Until v := by
  intro k f hk
  rw [h k] at hk
  obtain ⟨l₁, l₂, rfl, -⟩ := List.lookup_eq_some_iff.1 hk
  exact hv (k, f) (List.mem_append_right _ List.mem_cons_self)

/-- The failures of another attempt replace those of attempts before it. -/
theorem Lists.merge (h : s.Lists rs) (y : Answer)
    (hv : ∀ e ∈ rs, e.2.topologyVersion ≤ y.request.topologyVersion) :
    (s.merge y.failures).Lists (y.reports.reverse ++ rs) := by
  intro k
  rw [get?_merge (h.until hv) y.at_failures, Answer.get?_failures, List.lookup_append, h k]

end FailureSet

/-! ## Accounts -/

/-- What a result says of the budget `N`, after `n` failures that trying again can help and the
reports `rs`. -/
structure Settles (N : UInt32) (n : Nat) (rs : List (Key × KeyFailure))
    (r : Except CacheError UpdateOutcome) : Prop where
  exhausted : (∃ k F, r = .error (.attemptsExhausted k F)) ↔ 0 < N ∧ n = N.toNat + 1
  remaps : ∀ k F, r = .error (.attemptsExhausted k F) → k = N
  failures : ∀ e F, r = .error e → e.failures? = some F → F.Lists rs

/-- How a submission stands with the budget `N`, after `n` failures that trying again can help and
the reports `rs`. -/
structure Account (N : UInt32) (n : Nat) (rs : List (Key × KeyFailure)) (c : Submission) :
    Prop where
  total : c.remapsDone.toNat + c.remapsLeft.toNat = N.toNat
  done : c.remapsDone.toNat = min n N.toNat
  result : c.result = {} ∧ n ≤ N.toNat ∧ c.history.Lists rs ∨
    ∃ r, c.result = (({} : Latch (Except CacheError UpdateOutcome)).complete r).1 ∧ Settles N n rs r

variable {N : UInt32} {n : Nat} {rs : List (Key × KeyFailure)} {c : Submission} {y : Answer}
  {view : View} {x : Submission × List SubmissionAction}

/-- An update that ends without failed keys has not run out of attempts. -/
theorem settles_plain {r : Except CacheError UpdateOutcome} (hn : n ≤ N.toNat)
    (hr : ∀ e, r = .error e → e.failures? = none) : Settles N n rs r where
  exhausted := by
    constructor
    · rintro ⟨k, F, rfl⟩
      cases hr _ rfl
    · rintro ⟨-, rfl⟩
      exact absurd hn (Nat.not_succ_le_self _)
  remaps := by
    rintro k F rfl
    cases hr _ rfl
  failures := by
    rintro e F rfl he
    rw [hr e rfl] at he
    cases he

/-- Nor has one that ends with failed keys sooner or later than that. -/
theorem settles_partialFailure {F : FailureSet} (hn : ¬ (0 < N ∧ n = N.toNat + 1))
    (hF : F.Lists rs) : Settles N n rs (.error (.partialFailure F)) where
  exhausted := by
    refine iff_of_false ?_ hn
    rintro ⟨k, F', he⟩
    cases he
  remaps := by
    intro k F' he
    cases he
  failures := by
    intro e F' he hF'
    cases he
    cases hF'
    exact hF

/-- An update that has failed once more than it may be tried again has run out of attempts. -/
theorem settles_exhausted {F : FailureSet} (hN : 0 < N) (hn : n = N.toNat + 1) (hF : F.Lists rs) :
    Settles N n rs (.error (.attemptsExhausted N F)) where
  exhausted := iff_of_true ⟨N, F, rfl⟩ ⟨hN, hn⟩
  remaps := by
    intro k F' he
    cases he
    rfl
  failures := by
    intro e F' he hF'
    cases he
    cases hF'
    exact hF

namespace Account

theorem start (site : Site) (u : Update) (version : WriteVersion) :
    Account site.settings.remapCount 0 [] (.start site u version) where
  total := Nat.zero_add _
  done := (Nat.zero_min _).symm
  result := .inl ⟨rfl, Nat.zero_le _, fun _ => rfl⟩

/-- A submission without a result has not been charged for too many attempts. -/
theorem undone (ha : Account N n rs c) (hd : c.isDone = false) :
    c.result = {} ∧ n ≤ N.toNat ∧ c.history.Lists rs := by
  rcases ha.result with h | ⟨r, hr, -⟩
  · exact h
  · rw [Submission.isDone, hr, Latch.complete_isDone] at hd
    cases hd

theorem ended (ha : Account N n rs c) (hd : c.isDone = false) {r : Except CacheError UpdateOutcome}
    (hr : ∀ e, r = .error e → e.failures? = none) : Account N n rs (c.ended r) := by
  obtain ⟨hres, hn, -⟩ := ha.undone hd
  refine ⟨ha.total, ha.done, .inr ⟨r, ?_, settles_plain hn hr⟩⟩
  rw [← hres]
  rfl

theorem failed (ha : Account N n rs c) (hd : c.isDone = false) {e : CacheError}
    (he : e.failures? = none) : Account N n rs (c.ended (.error e)) := by
  refine ha.ended hd ?_
  intro e' he'
  cases he'
  exact he

theorem succeeded (ha : Account N n rs c) (hd : c.isDone = false) (outcome : UpdateOutcome) :
    Account N n rs (c.ended (.ok outcome)) := by
  refine ha.ended hd ?_
  intro e he
  cases he

theorem retried (ha : Account N n rs c) (hd : c.isDone = false) {v : TopologyVersion}
    (hx : Submission.Retried c v x) : Account N n rs x.1 := by
  have hdet : Account N n rs c.detach.1 := ⟨ha.total, ha.done, ha.result⟩
  cases hx with
  | waits => exact hdet
  | stuck => exact hdet.failed hd rfl

/-- One more attempt is paid for. -/
theorem charged (ha : Account N n rs c) (hd : c.isDone = false) (hl : 0 < c.remapsLeft)
    (hv : ∀ e ∈ rs, e.2.topologyVersion ≤ y.request.topologyVersion) :
    Account N (n + 1) (y.reports.reverse ++ rs) (c.charged y) := by
  obtain ⟨hres, hn, hh⟩ := ha.undone hd
  have htotal := ha.total
  have hdone := ha.done
  have hsize := N.toNat_lt
  have hpos : 0 < c.remapsLeft.toNat := UInt32.lt_iff_toNat_lt.1 hl
  have hleft : (c.remapsLeft - 1).toNat = c.remapsLeft.toNat - 1 :=
    UInt32.toNat_sub_of_le _ _ (UInt32.le_iff_toNat_le.2 hpos)
  -- No counter overflows: together they make up `N`.
  have hdone' : (c.remapsDone + 1).toNat = c.remapsDone.toNat + 1 := by
    rw [UInt32.toNat_add, UInt32.toNat_one, Nat.mod_eq_of_lt]
    omega
  refine ⟨?_, ?_, .inl ⟨hres, ?_, hh.merge y hv⟩⟩
  · show (c.remapsDone + 1).toNat + (c.remapsLeft - 1).toNat = N.toNat
    omega
  · show (c.remapsDone + 1).toNat = min (n + 1) N.toNat
    omega
  · omega

theorem settles_fatality (ha : Account N n rs c) (hd : c.isDone = false)
    (hf : ¬ (y.fails = true ∧ 0 < c.remapsLeft))
    (hv : ∀ e ∈ rs, e.2.topologyVersion ≤ y.request.topologyVersion) :
    Settles N (n + if y.fails then 1 else 0) (y.reports.reverse ++ rs)
      (.error (c.fatality y)) := by
  obtain ⟨-, hn, hh⟩ := ha.undone hd
  have htotal := ha.total
  have hdone := ha.done
  have hmerge := hh.merge y hv
  have hleft (hy : y.fails = true) : c.remapsLeft.toNat = 0 := by
    have hnot : ¬ 0 < c.remapsLeft.toNat := fun hpos => hf ⟨hy, UInt32.lt_iff_toNat_lt.2 hpos⟩
    omega
  -- The counters tell the three errors apart: once nothing is left, `remapsDone` is `N`.
  rcases c.fatality_cases y with ⟨hk, m, he⟩ | ⟨hy, he⟩ | ⟨hy, he⟩
  · rw [he, Answer.fails_of_reports hk]
    refine settles_plain hn ?_
    intro e he
    cases he
    rfl
  · have hzero := hleft hy.1
    have hpos : 0 < c.remapsDone.toNat := UInt32.lt_iff_toNat_lt.1 hy.2
    have hN : c.remapsDone = N := UInt32.toNat_inj.1 (by omega)
    rw [he, hy.1, hN]
    refine settles_exhausted (hN ▸ hy.2) ?_ hmerge
    show n + 1 = N.toNat + 1
    omega
  · rw [he]
    refine settles_partialFailure ?_ hmerge
    rintro ⟨hN, hcount⟩
    have hpos : 0 < N.toNat := UInt32.lt_iff_toNat_lt.1 hN
    split at hcount
    next hfails =>
      have hzero := hleft hfails
      have hspent : 0 < c.remapsDone.toNat := by omega
      exact hy ⟨hfails, UInt32.lt_iff_toNat_lt.2 hspent⟩
    next => omega

theorem fatal (ha : Account N n rs c) (hd : c.isDone = false)
    (hf : ¬ (y.fails = true ∧ 0 < c.remapsLeft)) (a : Option Attempt)
    (hv : ∀ e ∈ rs, e.2.topologyVersion ≤ y.request.topologyVersion) :
    Account N (n + if y.fails then 1 else 0) (y.reports.reverse ++ rs)
      (({ c with attempt := a } : Submission).ended (.error (c.fatality y))) := by
  have hs := ha.settles_fatality hd hf hv
  obtain ⟨hres, hn, -⟩ := ha.undone hd
  have htotal := ha.total
  have hdone := ha.done
  refine ⟨ha.total, ?_, .inr ⟨_, ?_, hs⟩⟩
  · show c.remapsDone.toNat = min _ _
    split
    next hy =>
      have hleft : ¬ 0 < c.remapsLeft.toNat := fun hpos => hf ⟨hy, UInt32.lt_iff_toNat_lt.2 hpos⟩
      omega
    next => exact hdone
  · rw [← hres]
    rfl

theorem declined (ha : Account N n rs c) (hd : c.isDone = false)
    (hx : Submission.Declined view c y x)
    (hv : ∀ e ∈ rs, e.2.topologyVersion ≤ y.request.topologyVersion) :
    Account N (n + if y.fails then 1 else 0) (y.reports.reverse ++ rs) x.1 := by
  cases hx with
  | refused hr hy =>
    rw [Answer.fails_of_reports (Answer.reports_of_needsRemap hr), Answer.reports_of_needsRemap hr]
    have hc : Account N n rs (c.refusing y.request) := ⟨ha.total, ha.done, ha.result⟩
    exact hc.retried hd hy
  | charged hr hf hl hy =>
    rw [hf]
    exact (ha.charged hd hl hv).retried hd hy
  | fatal hr hf a => exact ha.fatal hd hf (some a) hv

theorem follows (ha : Account N n rs c) (hd : c.isDone = false) {a : Attempt}
    {ret : Option UpdateReturn} {p : Progress} (hx : Submission.Follows c a ret p x) :
    Account N n rs x.1 := by
  cases hx with
  | pending => exact ⟨ha.total, ha.done, ha.result⟩
  | unconfirmed => exact ⟨ha.total, ha.done, ha.result⟩
  | finished hn =>
    have ha' : Account N n rs { c with attempt := some a, ret := none } :=
      ⟨ha.total, ha.done, ha.result⟩
    exact ha'.succeeded hd _

theorem launched (ha : Account N n rs c) (site : Site) (view : View) (id : FutureId)
    (primary : NodeId) : Account N n rs (c.launched site view id primary) :=
  ⟨ha.total, ha.done, ha.result⟩

end Account

namespace Outpost

/-! ## A turn -/

/-- How a submission stands with the budget of its node, by the answers it got. -/
def Balanced (o : Outpost) (h : Handle) (c : Submission) : Prop :=
  Account o.node.site.settings.remapCount (failing (answersOf o.log h))
    (reported (answersOf o.log h)) c

variable {o o' : Outpost} {move : Move} {h : Handle} {q? : Option UpdateRequest}
  {y? : Option Answer} {v : TopologyVersion}

/-- What was reported was reported on a version that some request has. -/
theorem Tracks.mem_requestsOf (hts : o.Tracks) {e : Key × KeyFailure}
    (he : e ∈ reported (answersOf o.log h)) :
    ∃ q ∈ requestsOf o.log h, e.2.topologyVersion = q.topologyVersion := by
  obtain ⟨y, hy, hv⟩ := exists_of_mem_reported he
  obtain ⟨t, ht, hy⟩ := List.mem_filterMap.1 hy
  obtain ⟨since, before, hlog⟩ := List.append_of_mem ht
  refine ⟨y.request, ?_, hv⟩
  rw [hlog, requestsOf_append]
  exact List.mem_append_right _ (hts.answered h since t before hlog y hy)

theorem site_act (view : View) (o : Outpost) (move : Move) :
    (o.act view move).node.site = o.node.site :=
  (Node.site_move view o.node move).1

theorem answersOf_act (view : View) (o : Outpost) (move : Move) (h : Handle) :
    answersOf (o.act view move).log h =
      ((o.moment view move).answer? h).toList ++ answersOf o.log h := answersOf_cons _ _ _

theorem Turning.account (ht : Turning view o move h c x) (hts : o.Tracks)
    (hx : Node.Course view o.node move c q? y? x) (ha : o.Balanced h c) :
    Account o.node.site.settings.remapCount (failing (y?.toList ++ answersOf o.log h))
      (reported (y?.toList ++ answersOf o.log h)) x.1 := by
  -- Requests only get newer, so the reports of an answer replace all those before it.
  have hreported {v : TopologyVersion} (hv : ∀ q ∈ requestsOf o.log h, q.topologyVersion ≤ v) :
      ∀ e ∈ reported (answersOf o.log h), e.2.topologyVersion ≤ v := by
    intro e he
    obtain ⟨q, hq, heq⟩ := hts.mem_requestsOf he
    rw [heq]
    exact hv q hq
  have hsent := ht.renewing hx
  cases hx with
  | unchanged => exact ha
  | @told id a w x hd hf ha' hi hw hpos hx =>
    have hacc := ha.follows hd hx
    cases w with
    | answer r =>
      have hnil : (Answer.mk a.request r).reports = [] :=
        Answer.reports_of_not_hasError (hpos r rfl)
      show Account _ (failing (_ :: _)) (reported (_ :: _)) x.1
      rw [failing_cons_of_not (Answer.fails_of_reports hnil), reported_cons_of_nil hnil]
      exact hacc
    | _ => exact hacc
  | @declined id a r x hd hf ha' hx =>
    show Account _ (failing (_ :: _)) (reported (_ :: _)) x.1
    rw [failing_cons, reported_cons]
    exact ha.declined hd hx (hreported (ht.asked hf ha').2)
  | failed hd hf he => exact ha.failed hd he
  | charted hm hd hf ha' hok hx =>
    cases hx with
    | failed he => exact ha.failed hd he
    | parked hadm => exact ha
    | ownerless hl he =>
      have hacc : o.Balanced h { c with topologyVersion := view.topology.version } :=
        ⟨ha.total, ha.done, ha.result⟩
      exact hacc.failed hd he
    | @unsent hl primary e hr x hy =>
      obtain ⟨-, hn⟩ := hsent _ rfl
      have hacc := ha.launched o.node.site view o.node.nextFuture primary
      show Account _ (failing (_ :: _)) (reported (_ :: _)) x.1
      rw [failing_cons, reported_cons]
      refine hacc.declined hd hy (hreported ?_)
      intro q hq
      exact TopologyVersion.le_of_lt (hn.topology ▸ hn.newer q hq)
    | @async hl primary hr outcome =>
      have hacc := ha.launched o.node.site view o.node.nextFuture primary
      exact hacc.succeeded hd outcome
    | @sent hl primary hr => exact ha.launched o.node.site view o.node.nextFuture primary

/-! ## Runs -/

structure Balances (o : Outpost) : Prop where
  known : ∀ h c, o.node.submissions.get? h = some c → o.Balanced h c
  unknown : ∀ h, o.node.submissions.get? h = none → answersOf o.log h = []

theorem balances_start (config : Config) (processors : Processors) (members : List NodeId) :
    (start config processors members).Balances where
  known := by
    intro h c hs
    cases hs
  unknown := fun _ _ => rfl

theorem Balances.before (hb : o.Balances) (ht : Turning view o move h c x) : o.Balanced h c := by
  rcases ht.turn.known with ⟨hs, -⟩ | ⟨-, -, hm⟩
  · exact hb.known h c hs
  · have hnone := absent_of_submits ht.steady ht.roomy ht.turn hm
    have hturn := ht.turn
    unfold Balanced
    rw [hb.unknown h hnone]
    cases hturn with
    | submit hu hc =>
      subst hc
      exact Account.start _ _ _
    | _ => cases hm

theorem Balances.act (hb : o.Balances) (hts : o.Tracks) (hs : o.Steady) (hr : o.Roomy)
    (hv : view.topology = o.topology) (hdue : o.node.Due o.solo.parked move)
    (hover : ∀ task awaited, move = .resume task awaited → ∃ w, o.Over task awaited w) :
    (o.act view move).Balances := by
  have hquiet {h : Handle} (hq : (o.moment view move).Quiet h) :
      answersOf (o.act view move).log h = answersOf o.log h := by
    rw [answersOf_act, Moment.answer?_of_quiet (t := o.moment view move) hdue hq]
    rfl
  constructor
  · intro h c hc
    unfold Balanced
    rw [site_act]
    rcases hts.turning hs hr hv hdue hover h with hq | ⟨c₀, x, q?, y?, ht, hx⟩
    · rw [hquiet hq]
      exact hb.known h c ((Moment.submissions_of_quiet hq).symm.trans hc)
    · obtain rfl : x.1 = c := Option.some_inj.1 (ht.submission_act.symm.trans hc)
      rw [answersOf_act, hx.answer]
      exact ht.account hts hx.course (hb.before ht)
  · intro h hnone
    rcases hts.turning hs hr hv hdue hover h with hq | ⟨c₀, x, q?, y?, ht, hx⟩
    · rw [hquiet hq]
      exact hb.unknown h ((Moment.submissions_of_quiet hq).symm.trans hnone)
    · rw [ht.submission_act] at hnone
      cases hnone

theorem Balances.next (hb : o.Balances) (hts : o.Tracks) (hs : o.Steady) (hr : o.Roomy)
    (hn : o.Next o') : o'.Balances := by
  cases hn with
  | acts hv hdue hover => exact hb.act hts hs hr hv hdue hover
  | shifts ht => exact ⟨hb.known, hb.unknown⟩

theorem Reached.balances {o₀ : Outpost} (h : Reached o₀ o) (h₀ : o₀.Tracks) (hb₀ : o₀.Balances) :
    o.Balances := by
  induction h with
  | start => exact hb₀
  | next h hs hr hn ih => exact ih.next (h.tracks h₀) hs hr hn

theorem Reached.site {o₀ : Outpost} (h : Reached o₀ o) : o.node.site = o₀.node.site := by
  induction h with
  | start => rfl
  | next h hs hr hn ih =>
    cases hn with
    | acts hv hdue hover => exact (site_act _ _ _).trans ih
    | shifts ht => exact ih

/-- What holds of the budget of an update and of its failures. -/
structure Accounted (o : Outpost) (N : UInt32) (h : Handle) (c : Submission) : Prop where
  /-- The attempts that were added and those that may be added make up the budget. -/
  total : c.remapsDone.toNat + c.remapsLeft.toNat = N.toNat
  /-- An attempt is added for each that failed, until the budget is spent. -/
  done : c.remapsDone.toNat = min (failing (answersOf o.log h)) N.toNat
  /-- An answer that asks to map the request again is not charged for and reports nothing. -/
  remaps : ∀ y ∈ answersOf o.log h, y.response.needsRemap = true →
    y.fails = false ∧ y.reports = []
  /-- The update runs out of attempts if it fails once more than the budget allows. -/
  exhausted : (∃ k F, o.node.result? h = some (.error (.attemptsExhausted k F))) ↔
    0 < N ∧ failing (answersOf o.log h) = N.toNat + 1
  budget : ∀ k F, o.node.result? h = some (.error (.attemptsExhausted k F)) → k = N
  /-- An error that names failed keys names those that were reported, as they were reported last. -/
  failures : ∀ e F, o.node.result? h = some (.error e) → e.failures? = some F →
    F.Lists (reported (answersOf o.log h))

theorem Balances.accounted (hb : o.Balances) (hc : o.node.submissions.get? h = some c) :
    o.Accounted o.node.site.settings.remapCount h c := by
  have ha := hb.known h c hc
  have hres : o.node.result? h = c.result.waiting := by
    rw [Node.result?, hc, Option.bind_some]
  have hremaps : ∀ y ∈ answersOf o.log h, y.response.needsRemap = true →
      y.fails = false ∧ y.reports = [] := by
    intro y _ hy
    have hnil := Answer.reports_of_needsRemap hy
    exact ⟨Answer.fails_of_reports hnil, hnil⟩
  rcases ha.result with ⟨hopen, hn, -⟩ | ⟨r, hr, hs⟩
  · have hnone : o.node.result? h = none := by
      rw [hres, hopen]
    refine ⟨ha.total, ha.done, hremaps, ?_, ?_, ?_⟩
    · rw [hnone]
      constructor
      · rintro ⟨k, F, he⟩
        cases he
      · rintro ⟨-, hcount⟩
        omega
    · rw [hnone]
      intro k F he
      cases he
    · rw [hnone]
      intro e F he
      cases he
  · have hsome (r' : Except CacheError UpdateOutcome) : o.node.result? h = some r' ↔ r = r' := by
      rw [hres, hr]
      exact Option.some_inj
    refine ⟨ha.total, ha.done, hremaps, ?_, ?_, ?_⟩
    · simp only [hsome]
      exact hs.exhausted
    · simp only [hsome]
      exact hs.remaps
    · simp only [hsome]
      exact hs.failures

/-- After any events, an update has used up its budget by the failures of its attempts alone, and its
error has all of them. -/
theorem accounted_run (config : Config) (processors : Processors) (members : List NodeId)
    (es : List Happening) (hlen : es.length + 1 < UInt64.size)
    (h : Handle) (c : Submission)
    (hc : ((start config processors members).run es).node.submissions.get? h = some c) :
    ((start config processors members).run es).Accounted config.atomic.remapCount h c := by
  obtain ⟨hr, -⟩ := reached_run config processors members es hlen
  have hb := hr.balances (tracks_start config processors members)
    (balances_start config processors members)
  have hsite : ((start config processors members).run es).node.site = .ofConfig config := hr.site
  have ha := hb.accounted hc
  rw [hsite] at ha
  exact ha

/-- Node 2 lets the attempt with this number fail for the topology's sake. -/
def failure (id : FutureId) : Message :=
  .updateResponse
    { UpdateResponse.plain ⟨cacheIdOf "default", 0, id⟩ ⟨2⟩ with
      failedKeys := [([1], .topologyChanged "moved")] }

/-- Node 1 stores a value.  Its request fails, and so does the one after an exchange. -/
def failedTwice : List Happening :=
  [ofSecond (.submit (.put [1] [2])), ofSecond (.receive ⟨2⟩ (failure 1)),
    .exchange [⟨1⟩, ⟨2⟩], .settle, ofSecond (.resume (.remap 1) (.ok ⟨2, 0⟩)),
    ofSecond (.receive ⟨2⟩ (failure 2))]

theorem accounted_failedTwice :
    let o := (start { nodeId := 1, atomic := { remapCount := 1 } } Processor.none
      [⟨1⟩, ⟨2⟩]).run failedTwice
    failing (answersOf o.log 1) = 2 ∧ ∃ c, o.Accounted 1 1 c := by
  refine ⟨by decide +kernel, ?_⟩
  obtain ⟨c, hc⟩ := Option.isSome_iff_exists.1 (by decide +kernel :
    (((start { nodeId := 1, atomic := { remapCount := 1 } } Processor.none
      [⟨1⟩, ⟨2⟩]).run failedTwice).node.submissions.get? 1).isSome = true)
  exact ⟨c, accounted_run { nodeId := 1, atomic := { remapCount := 1 } } Processor.none
    [⟨1⟩, ⟨2⟩] failedTwice (by decide) 1 c hc⟩

end Outpost

end AtomicGrid
