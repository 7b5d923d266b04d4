import AtomicGrid.Proofs.Failure
import AtomicGrid.Proofs.Submission.Outcome

/-!
# How an attempt ends

An attempt ends with an answer to its request.  The primary gives it, or it is made up because the
primary cannot be reached or is gone.  An answer that asks to map the request again is no failure;
one that names failed keys is charged to the update if trying again can help and attempts are left.

Before that the current attempt hears words, each of which changes what is known of it and what it
has returned so far.

## Results

* `Submission.declined_onResponse`: all that a negative answer changes.
* `Submission.tells_onResponse`, `tells_onMapping`, `tells_onNotice`, `tells_onDeparture`: all that a
  word changes.
* `Submission.charted_mapOn`: all that mapping changes.
-/

set_option autoImplicit false

namespace AtomicGrid

/-! ## Answers -/

/-- A request and the answer to it, the primary's own or one made up in its place. -/
structure Answer where
  request : UpdateRequest
  response : UpdateResponse

namespace Answer

/-- The failures an answer reports, in order.  One that asks to map the request again reports none. -/
def reports (x : Answer) : List (Key × KeyFailure) :=
  if x.response.needsRemap then []
  else x.response.failedKeys.map fun f => (f.1, ⟨f.2, x.request.topologyVersion⟩)

/-- The failures of the attempt that the answer ends. -/
def failures (x : Answer) : FailureSet := (∅ : FailureSet).recordAll x.reports

/-- Whether the attempt has failed in a way that trying again can help. -/
def fails (x : Answer) : Bool := x.failures.isRetryable

theorem fails_of_reports {x : Answer} (h : x.reports = []) : x.fails = false := by
  rw [fails, failures, h]
  rfl

theorem reports_of_needsRemap {x : Answer} (h : x.response.needsRemap = true) : x.reports = [] := by
  rw [reports, if_pos h]

theorem reports_of_failedKeys {x : Answer} (h : x.response.failedKeys = []) : x.reports = [] := by
  rw [reports, h]
  split <;> rfl

theorem reports_of_not_hasError {x : Answer} (h : x.response.hasError = false) : x.reports = [] := by
  simp only [UpdateResponse.hasError, Bool.or_eq_false_iff, Bool.not_eq_false',
    List.isEmpty_iff] at h
  exact reports_of_failedKeys h.2

theorem failures_eq {x : Answer} (h : x.response.needsRemap = false) :
    x.failures = x.response.failedKeys.foldl
      (fun s f => s.record f.1 ⟨f.2, x.request.topologyVersion⟩) (∅ : FailureSet) := by
  simp only [failures, reports, h, FailureSet.recordAll, Bool.false_eq_true, if_false,
    List.foldl_map]

theorem topologyVersion_of_reports {x : Answer} {e : Key × KeyFailure} (he : e ∈ x.reports) :
    e.2.topologyVersion = x.request.topologyVersion := by
  unfold reports at he
  split at he
  · cases he
  · obtain ⟨f, -, rfl⟩ := List.mem_map.1 he
    rfl

theorem at_failures (x : Answer) : x.failures.At x.request.topologyVersion :=
  FailureSet.at_recordAll (fun _ he => topologyVersion_of_reports he) (FailureSet.at_empty _)

theorem get?_failures (x : Answer) (k : Key) : x.failures.get? k = x.reports.reverse.lookup k := by
  rw [failures, FailureSet.get?_recordAll (fun _ he => topologyVersion_of_reports he)
    (FailureSet.at_empty _).until, FailureSet.get?_empty, Option.or_none]

end Answer

/-! ## Words -/

/-- What a current attempt can be told. -/
inductive Word where
  /-- The primary has carried the update out. -/
  | answer (r : UpdateResponse)
  | mapping (nodes : List NodeId)
  | notice (sender : NodeId) (m : BackupNotice)
  | departure (n : NodeId)

namespace Word

/-- What the word says about whom to hear. -/
def news : Word → News
  | .answer r => .answer r.mapping
  | .mapping nodes => .mapping nodes
  | .notice sender m => .notice sender m
  | .departure n => .departure n

/-- What the attempt has returned after the word, if it had returned `old` before. -/
def returned (operation : Operation) (old : Option UpdateReturn) : Word → Option UpdateReturn
  | .answer r =>
    match r.ret with
    | some ret =>
      match old with
      | some old => some (if operation = .transform then old.merge ret else ret)
      | none => some ret
    | none => old
  | .notice _ m => old.or (m.result?.map .flag)
  | .mapping _ => old
  | .departure _ => old

/-- The word as an answer to a request. -/
def answer? (request : UpdateRequest) : Word → Option Answer
  | .answer r => some ⟨request, r⟩
  | _ => none

end Word

namespace Submission

variable {c : Submission} {a : Attempt} {site : Site} {view : View} {w : Word}
  {x : Submission × List SubmissionAction}

/-- What a word makes of a submission whose current attempt is `a`. -/
def Tells (c : Submission) (a : Attempt) (w : Word) (x : Submission × List SubmissionAction) :
    Prop :=
  Follows c (a.hear w.news).1 (w.returned c.update.operation c.ret) (a.hear w.news).2 x

/-- The current attempt goes on, or there is a result. -/
theorem Follows.future {ret : Option UpdateReturn} {p : Progress} (h : Follows c a ret p x) :
    x.1.future = c.future ∨ x.1.future = none ∧ x.1.isDone = true := by
  cases h with
  | pending => exact .inl rfl
  | unconfirmed => exact .inl rfl
  | finished hn => exact .inr ⟨rfl, Latch.complete_isDone _ _⟩

/-- What a submission makes of a word for its current attempt `a`, near cache and all. -/
def tell (c : Submission) (a : Attempt) : Word → Submission × List SubmissionAction
  | .answer r =>
    { c with attempt := some { a with responded := true } }.onSuccess { a with responded := true }
      r false
  | w =>
    { c with
      attempt := some (a.hear w.news).1
      ret := w.returned c.update.operation c.ret }.follow (a.hear w.news).1 (a.hear w.news).2

theorem onResponse_eq_tell {sender : NodeId} {r : UpdateResponse} (hw : c.Awaits a sender r)
    (he : r.hasError = false) (hr : r.needsRemap = false) :
    c.onResponse site view sender r false = c.tell a (.answer r) := by
  rw [onResponse_eq hw, he, hr]
  rfl

theorem onMapping_eq_tell {m : MappingNotice} (ha : c.attempt = some a)
    (hf : c.future = some m.future) : c.onMapping m = c.tell a (.mapping m.mapping) := by
  unfold onMapping
  rw [ha]
  exact if_pos hf

theorem onNotice_eq_tell {sender : NodeId} {m : BackupNotice} (ha : c.attempt = some a)
    (hf : c.future = some m.future) (hp : a.primary = m.primary) :
    c.onNotice sender m = c.tell a (.notice sender m) := by
  unfold onNotice
  rw [ha]
  exact if_pos ⟨hf, hp⟩

theorem onDeparture_eq_tell {n : NodeId} (ha : c.attempt = some a)
    (hp : a.awaitsPrimary n = false) :
    c.onDeparture site view n = c.tell a (.departure n) := by
  unfold onDeparture
  rw [ha]
  exact if_neg (by simp [hp])

theorem tells_onMapping {m : MappingNotice} (hd : c.isDone = false) (ha : c.attempt = some a)
    (hf : c.future = some m.future) : c.Tells a (.mapping m.mapping) (c.onMapping m) :=
  onMapping_of hd ha hf

theorem tells_onNotice {sender : NodeId} {m : BackupNotice} (hd : c.isDone = false)
    (ha : c.attempt = some a) (hf : c.future = some m.future) (hp : a.primary = m.primary) :
    c.Tells a (.notice sender m) (c.onNotice sender m) :=
  onNotice_of hd ha hf hp

theorem tells_onDeparture {n : NodeId} (hd : c.isDone = false) (ha : c.attempt = some a)
    (hp : a.awaitsPrimary n = false) :
    c.Tells a (.departure n) (c.onDeparture site view n) :=
  onDeparture_of hd ha hp

theorem tells_onResponse {sender : NodeId} {r : UpdateResponse} (hd : c.isDone = false)
    (hw : c.Awaits a sender r) (he : r.hasError = false) (hr : r.needsRemap = false)
    (nodeError : Bool) :
    c.Tells a (.answer r) (c.onResponse site view sender r nodeError) :=
  onResponse_of hd hw he hr nodeError

/-! ## Negative answers -/

/-- The submission once a primary has refused the version of a request. -/
def refusing (c : Submission) (q : UpdateRequest) : Submission :=
  { c with
    refused := some (match c.refused with
      | some v => v.max q.topologyVersion
      | none => q.topologyVersion) }

/-- The submission with the failures of one more attempt, and one attempt less to come. -/
def charged (c : Submission) (x : Answer) : Submission :=
  { c with
    history := c.history.merge x.failures
    remapsLeft := c.remapsLeft - 1
    remapsDone := c.remapsDone + 1 }

/-- The error of an update that is not tried again. -/
def fatality (c : Submission) (x : Answer) : CacheError :=
  match x.response.error, x.response.failedKeys with
  | some cause, [] => .remote cause.message
  | _, _ =>
    if x.fails ∧ 0 < c.remapsDone then
      .attemptsExhausted c.remapsDone (c.history.merge x.failures)
    else .partialFailure (c.history.merge x.failures)

theorem fatality_cases (c : Submission) (y : Answer) :
    (y.reports = [] ∧ ∃ m, c.fatality y = .remote m) ∨
    ((y.fails = true ∧ 0 < c.remapsDone) ∧
      c.fatality y = .attemptsExhausted c.remapsDone (c.history.merge y.failures)) ∨
    (¬ (y.fails = true ∧ 0 < c.remapsDone) ∧
      c.fatality y = .partialFailure (c.history.merge y.failures)) := by
  unfold fatality
  split
  next cause _ hk => exact .inl ⟨Answer.reports_of_failedKeys hk, _, rfl⟩
  next =>
    split
    next hf => exact .inr (.inl ⟨hf, rfl⟩)
    next hf => exact .inr (.inr ⟨hf, rfl⟩)

def ended (c : Submission) (r : Except CacheError UpdateOutcome) : Submission :=
  { c with result := (c.result.complete r).1, future := none }

/-- Nothing is left of earlier attempts. -/
structure Blank (c : Submission) : Prop where
  attempt : c.attempt = none
  ret : c.ret = none
  topologyVersion : c.topologyVersion = .zero

/-- The current attempt is dropped: the submission waits for the version, or may not wait. -/
inductive Retried (c : Submission) (v : TopologyVersion) : Submission × List SubmissionAction → Prop
  | waits : Retried c v (c.detach.1, c.future.toList.map .retire ++ [.await v])
  | stuck : Retried c v
      (c.detach.1.ended (.error (.topologyMoved v (some c.update.key))),
        c.future.toList.map .retire)

/-- All that a negative answer to the current attempt changes. -/
inductive Declined (view : View) (c : Submission) (x : Answer) :
    Submission × List SubmissionAction → Prop
  | refused (hr : x.response.needsRemap = true) {y : Submission × List SubmissionAction}
      (hy : Retried (c.refusing x.request)
        (view.topology.version.max x.response.remapTopologyVersion) y) : Declined view c x y
  | charged (hr : x.response.needsRemap = false) (hf : x.fails = true) (hl : 0 < c.remapsLeft)
      {y : Submission × List SubmissionAction}
      (hy : Retried (c.charged x) x.request.topologyVersion.nextMajor y) : Declined view c x y
  | fatal (hr : x.response.needsRemap = false) (hf : ¬ (x.fails = true ∧ 0 < c.remapsLeft))
      (a : Attempt) : Declined view c x
        ({ c with attempt := some a }.ended (.error (c.fatality x)),
          c.future.toList.map .retire)

@[simp] theorem isDone_ended (c : Submission) (r : Except CacheError UpdateOutcome) :
    (c.ended r).isDone = true := Latch.complete_isDone _ _

theorem Retried.blank {v : TopologyVersion} (h : Retried c v x) :
    x.1.future = none ∧ (x.1.isDone = false → x.1.Blank) := by
  cases h with
  | waits => exact ⟨rfl, fun _ => ⟨rfl, rfl, rfl⟩⟩
  | stuck => exact ⟨rfl, by simp⟩

/-- Nothing is left of the attempt that a negative answer ends. -/
theorem Declined.blank {y : Answer} (h : Declined view c y x) :
    x.1.future = none ∧ (x.1.isDone = false → x.1.Blank) := by
  cases h with
  | refused hr hy => exact hy.blank
  | charged hr hf hl hy => exact hy.blank
  | fatal hr hf a => exact ⟨rfl, by simp⟩

theorem retried_retryOn (hd : c.isDone = false) (v : TopologyVersion) :
    Retried c v (c.retryOn site v) := by
  have hd' : c.detach.1.isDone = false := hd
  have hr : c.retryOn site v =
      ((c.detach.1.remap site v).1,
        c.future.toList.map .retire ++ (c.detach.1.remap site v).2) := rfl
  rw [hr, remap]
  split
  · exact .waits
  · have hx := @Retried.stuck c v
    rw [complete_eq hd']
    simpa [ended, detach] using hx

/-- What the current attempt has come to does not matter once it is dropped. -/
theorem Retried.of_attempt {v : TopologyVersion} {b : Option Attempt}
    (h : Retried { c with attempt := b } v x) : Retried c v x := by
  cases h with
  | waits => exact .waits
  | stuck => exact .stuck

theorem declined_onRefusal (hd : c.isDone = false) (b : Option Attempt) {y : Answer}
    (hr : y.response.needsRemap = true) :
    Declined view c y
      (({ c with attempt := b } : Submission).onRefusal site view y.request y.response) := by
  have hd' : (({ c with attempt := b } : Submission).refusing y.request).isDone = false := hd
  exact .refused hr (Retried.of_attempt (b := b) (retried_retryOn hd' _))

theorem declined_onFailure (hd : c.isDone = false) (b : Attempt) {y : Answer}
    (hr : y.response.needsRemap = false) :
    Declined view c y
      (({ c with attempt := some b } : Submission).onFailure site y.request y.response) := by
  let c₁ : Submission := { c with attempt := some b }
  have hd₁ : c₁.isDone = false := hd
  have hv : y.failures.topologyVersion?.getD y.request.topologyVersion =
      y.request.topologyVersion := FailureSet.topologyVersion?_at y.at_failures
  unfold onFailure
  simp only [← Answer.failures_eq hr, hv]
  split
  next hf =>
    have hd' : (c₁.charged y).isDone = false := hd
    exact .charged hr hf.1 hf.2 (Retried.of_attempt (b := some b) (retried_retryOn hd' _))
  next hf =>
    have hfatal : Declined view c y (c₁.complete (.error (c.fatality y))) := by
      rw [complete_eq hd₁]
      exact .fatal hr hf b
    have he : c₁.complete (.error (c.fatality y)) =
        match y.response.error, y.response.failedKeys with
        | some cause, [] => c₁.complete (.error (.remote cause.message))
        | _, _ =>
          if y.failures.isRetryable = true ∧ 0 < c₁.remapsDone then
            c₁.complete (.error (.attemptsExhausted c₁.remapsDone (c₁.history.merge y.failures)))
          else c₁.complete (.error (.partialFailure (c₁.history.merge y.failures))) := by
      unfold fatality
      split
      · rfl
      · exact apply_ite (fun e => c₁.complete (.error e)) _ _ _
    rw [he] at hfatal
    exact hfatal

theorem declined_onResponse (hd : c.isDone = false) {sender : NodeId} {r : UpdateResponse}
    (hw : c.Awaits a sender r) (hn : r.hasError = true ∨ r.needsRemap = true) (nodeError : Bool) :
    Declined view c ⟨a.request, r⟩ (c.onResponse site view sender r nodeError) := by
  rw [onResponse_eq hw]
  simp only
  split
  next hr => exact declined_onRefusal (y := ⟨a.request, r⟩) hd _ hr
  next hr =>
    rw [if_pos (hn.resolve_right hr)]
    exact declined_onFailure (y := ⟨a.request, r⟩) hd _ (Bool.not_eq_true _ ▸ hr)

/-! ## Mapping -/

/-- The answer made up for a primary to which the request cannot be sent. -/
def bounced (site : Site) (request : UpdateRequest) (primary : NodeId) (e : SendError) : Answer :=
  ⟨request, unanswered site request primary (sendFailure e)⟩

/-- All that mapping under the number `id` changes, with the request that is sent and the answer that
is made up at once. -/
inductive Charted (site : Site) (view : View) (c : Submission) (id : FutureId) :
    Option UpdateRequest → Option Answer → Submission × List SubmissionAction → Prop
  /-- The update has failed. -/
  | failed {e : CacheError} (he : e.failures? = none) :
      Charted site view c id none none (c.ended (.error e), [])
  /-- The submission waits for a topology that will do. -/
  | parked (ht : c.admits view.topology = false) :
      Charted site view c id none none (c, [.await (c.awaitedVersion view.topology)])
  /-- The key belongs to nobody. -/
  | ownerless (hl : c.launches view.topology = true) {e : CacheError} (he : e.failures? = none) :
      Charted site view c id none none
        ({ c with topologyVersion := view.topology.version }.ended (.error e),
          [.enlist id, .retire id])
  /-- The request cannot be sent. -/
  | unsent (hl : c.launches view.topology = true) {primary : NodeId} {e : SendError}
      (hr : view.refusal primary = some e) {y : Submission × List SubmissionAction}
      (hy : Declined view (c.launched site view id primary)
        (bounced site (c.request site view id) primary e) y) :
      Charted site view c id (some (c.request site view id))
        (some (bounced site (c.request site view id) primary e))
        (y.1, .enlist id :: .send primary (.updateRequest (c.request site view id)) :: y.2)
  /-- The request is sent, and nobody waits for its answer. -/
  | async (hl : c.launches view.topology = true) {primary : NodeId}
      (hr : view.refusal primary = none) (outcome : UpdateOutcome) :
      Charted site view c id (some (c.request site view id)) none
        ((c.launched site view id primary).ended (.ok outcome),
          [.enlist id, .send primary (.updateRequest (c.request site view id)), .retire id])
  /-- The request is sent. -/
  | sent (hl : c.launches view.topology = true) {primary : NodeId}
      (hr : view.refusal primary = none) :
      Charted site view c id (some (c.request site view id)) none
        (c.launched site view id primary,
          [.enlist id, .send primary (.updateRequest (c.request site view id))])

/-- A submission without a number ends quietly. -/
theorem complete_idle (hd : c.isDone = false) (hf : c.future = none)
    (r : Except CacheError UpdateOutcome) : c.complete r = (c.ended r, []) := by
  rw [complete_eq hd, hf]
  rfl

theorem charted_failed (hd : c.isDone = false) (hf : c.future = none) (id : FutureId)
    {e : CacheError} (he : e.failures? = none) :
    Charted site view c id none none (c.complete (.error e)) := by
  rw [complete_idle hd hf]
  exact .failed he

theorem charted_launch (hd : c.isDone = false) (hl : c.launches view.topology = true)
    (id : FutureId) : ∃ q y, Charted site view c id q y (c.launch site view id) := by
  unfold launch
  cases hp : view.primary c.update.key view.topology.version with
  | none =>
    let c₀ : Submission := { c with future := some id, topologyVersion := view.topology.version }
    have hd₀ : c₀.isDone = false := hd
    refine ⟨none, none, ?_⟩
    simp only [hp]
    rw [complete_eq (c := c₀) hd₀]
    exact .ownerless hl rfl
  | some primary =>
    let c₁ := c.launched site view id primary
    have hd₁ : c₁.isDone = false := hd
    refine ⟨some (c.request site view id), ?_⟩
    simp only [hp, sendRequest]
    cases hr : view.refusal primary with
    | none =>
      simp only
      split
      next hs =>
        let o := c₁.outcome (some (.flag true))
        have hx : c₁.complete (.ok o) = (c₁.ended (.ok o), [.retire id]) := by
          rw [complete_eq hd₁]
          rfl
        refine ⟨none, ?_⟩
        show Charted site view c id _ _ ((c₁.complete (.ok o)).1,
          .enlist id :: .send primary (.updateRequest (c.request site view id)) ::
            (c₁.complete (.ok o)).2)
        rw [hx]
        exact .async hl hr o
      next hs => exact ⟨none, .sent hl hr⟩
    | some e =>
      let r := unanswered site (c.request site view id) primary (sendFailure e)
      have hw : c₁.Awaits (c.opening site view id primary) primary r := ⟨rfl, rfl, rfl, rfl⟩
      have he : r.hasError = true := hasError_unanswered id primary _
      exact ⟨_, .unsent hl hr (declined_onResponse hd₁ hw (.inl he) true)⟩

theorem charted_mapOn (hd : c.isDone = false) (hf : c.future = none) (id : FutureId) :
    ∃ q y, Charted site view c id q y (c.mapOn site view id) := by
  unfold mapOn
  simp only [hd, Bool.false_eq_true, if_false]
  split
  next => exact ⟨none, none, charted_failed hd hf id rfl⟩
  next hs =>
    split
    next ht => exact charted_launch hd (by simp [launches, hd, hs, ht]) id
    next ht =>
      rw [Bool.not_eq_true] at ht
      refine ⟨none, none, ?_⟩
      unfold remap
      split
      next => exact .parked ht
      next => exact charted_failed hd hf id rfl

/-- A submission that hears of an error while it waits has failed. -/
theorem resume_error (hd : c.isDone = false) (hf : c.future = none) (id : FutureId)
    {e : CacheError} (he : e.failures? = none) :
    ∃ e', e'.failures? = none ∧ c.resume site view id (.error e) = (c.ended (.error e'), []) := by
  unfold resume
  split
  next h => cases h
  next => exact ⟨_, rfl, complete_idle hd hf _⟩
  next e' _ h =>
    cases h
    exact ⟨_, he, complete_idle hd hf _⟩

end Submission

end AtomicGrid
