import AtomicGrid.Proofs.Submission.News
import AtomicGrid.Submission

/-!
# What becomes of a submission

Whatever a submission hears, its current attempt goes on, finishes the update, or is over; then the
update has failed or waits for the topology.  Mapping starts a new attempt, or ends in the same
ways.  These are all there is to know of a submission without looking into it.

## Results

* `Submission.onMapping_of`, `onNotice_of`, `onDeparture_of`, `onResponse_of`: news of the current
  attempt.
* `Submission.onResponse_over`: a negative answer.
* `Submission.mapped_mapOn`: mapping.
-/

set_option autoImplicit false

namespace AtomicGrid

theorem UpdateResponse.hasError_addFailedKeys (r : UpdateResponse) {keys : List Key}
    (h : keys ≠ []) (cause : FailureCause) : (r.addFailedKeys keys cause).hasError = true := by
  simp [hasError, addFailedKeys, h]

end AtomicGrid

namespace AtomicGrid.Submission

/-- The same update under the same name. -/
structure SameUpdate (c c' : Submission) : Prop where
  update : c'.update = c.update
  syncMode : c'.syncMode = c.syncMode
  version : c'.version = c.version

theorem SameUpdate.refl (c : Submission) : SameUpdate c c := ⟨rfl, rfl, rfl⟩

theorem SameUpdate.trans {c c' c'' : Submission} (h : SameUpdate c c') (h' : SameUpdate c' c'') :
    SameUpdate c c'' :=
  ⟨h'.update.trans h.update, h'.syncMode.trans h.syncMode, h'.version.trans h.version⟩

/-- The attempt is over: the update has failed, or waits for the topology. -/
inductive Over (c : Submission) : Submission × List SubmissionAction → Prop
  | failed {c' : Submission} (hs : SameUpdate c c') (e : CacheError)
      (hr : c'.result = (c.result.complete (.error e)).1) (hf : c'.future = none) :
      Over c (c', c.future.toList.map .retire)
  | waits {c' : Submission} (hs : SameUpdate c c') (hr : c'.result = c.result)
      (hf : c'.future = none) (ha : c'.attempt = none) (v : TopologyVersion) :
      Over c (c', c.future.toList.map .retire ++ [.await v])

variable {c : Submission} {site : Site} {view : View}

/-- Nothing but the bookkeeping of attempts differs. -/
structure SameAttempt (c c' : Submission) : Prop extends SameUpdate c c' where
  result : c'.result = c.result
  future : c'.future = c.future

theorem Over.of_same {c' : Submission} {x : Submission × List SubmissionAction} (h : Over c' x)
    (hs : SameAttempt c c') : Over c x := by
  cases h with
  | failed hs' e hr hf =>
    rw [hs.future]
    exact .failed (hs.toSameUpdate.trans hs') e (hs.result ▸ hr) hf
  | waits hs' hr hf ha v =>
    rw [hs.future]
    exact .waits (hs.toSameUpdate.trans hs') (hr.trans hs.result) hf ha v

theorem complete_eq (h : c.isDone = false) (r : Except CacheError UpdateOutcome) :
    c.complete r = ({ c with result := (c.result.complete r).1, future := none },
      c.future.toList.map .retire) := by
  simp [complete, h]

theorem over_complete (h : c.isDone = false) (e : CacheError) : Over c (c.complete (.error e)) := by
  rw [complete_eq h]
  exact .failed ⟨rfl, rfl, rfl⟩ e rfl rfl

theorem over_remap (h : c.isDone = false) (hf : c.future = none) (ha : c.attempt = none)
    (v : TopologyVersion) : Over c (c.remap site v) := by
  unfold remap
  split
  · have := Over.waits (SameUpdate.refl c) rfl hf ha v
    simpa [hf] using this
  · exact over_complete h _

theorem over_retryOn (h : c.isDone = false) (v : TopologyVersion) : Over c (c.retryOn site v) := by
  let c' := c.detach.1
  have hr : c.retryOn site v =
      ((c'.remap site v).1, c.future.toList.map .retire ++ (c'.remap site v).2) := rfl
  have hd : c'.isDone = false := h
  have ho : Over c' (c'.remap site v) := over_remap hd rfl rfl v
  rw [hr]
  generalize c'.remap site v = x at ho ⊢
  cases ho with
  | failed hs e hr hf =>
    have := Over.failed (c := c) ⟨hs.update, hs.syncMode, hs.version⟩ e hr hf
    simpa [c', detach] using this
  | waits hs hr hf ha v =>
    have := Over.waits (c := c) ⟨hs.update, hs.syncMode, hs.version⟩ hr hf ha v
    simpa [c', detach] using this

theorem over_onRefusal (h : c.isDone = false) (request : UpdateRequest) (r : UpdateResponse) :
    Over c (c.onRefusal site view request r) := by
  unfold onRefusal
  exact Over.of_same (over_retryOn (by exact h) _) ⟨⟨rfl, rfl, rfl⟩, rfl, rfl⟩

theorem over_onFailure (h : c.isDone = false) (request : UpdateRequest) (r : UpdateResponse) :
    Over c (c.onFailure site request r) := by
  unfold onFailure
  simp only
  split
  · exact Over.of_same (over_retryOn (by exact h) _) ⟨⟨rfl, rfl, rfl⟩, rfl, rfl⟩
  · split
    · exact over_complete h _
    · split
      · exact over_complete h _
      · exact over_complete h _

/-! ## News -/

/-- What follows from the progress of the current attempt, which has become `a`. -/
inductive Follows (c : Submission) (a : Attempt) (ret : Option UpdateReturn) :
    Progress → Submission × List SubmissionAction → Prop
  | pending : Follows c a ret .pending ({ c with attempt := some a, ret }, [])
  | unconfirmed : Follows c a ret .unconfirmed ({ c with attempt := some a, ret },
      [.send a.primary (.checkRequest ⟨a.request.toEnvelope, some a.request⟩)])
  | finished {near : List SubmissionAction}
      (hn : ∀ x ∈ near, ∃ key value version ttl, x = .writeNear key value version ttl) :
      Follows c a ret .finished
        ({ c with
            attempt := some a, ret := none, future := none
            result := (c.result.complete (.ok (c.outcome ret))).1 },
          near ++ c.future.toList.map .retire)

theorem mem_writeOwnValue (version : WriteVersion) :
    ∀ x ∈ c.writeOwnValue version, ∃ key value version ttl, x = .writeNear key value version ttl := by
  unfold writeOwnValue
  split <;> simp

theorem mem_writeReported (r : UpdateResponse) :
    ∀ x ∈ c.writeReported r, ∃ key value version ttl, x = .writeNear key value version ttl := by
  unfold writeReported
  simp only
  split
  · simp
  · split
    · exact mem_writeOwnValue _
    · simp

theorem follows_follow (h : c.isDone = false) (a : Attempt) (ret : Option UpdateReturn)
    (p : Progress) :
    Follows c a ret p (({ c with attempt := some a, ret } : Submission).follow a p) := by
  cases p with
  | pending => exact .pending
  | unconfirmed => exact .unconfirmed
  | finished =>
    let c₁ : Submission := { c with attempt := some a, ret := none }
    have hd : c₁.isDone = false := h
    simp only [follow]
    rw [show ({ c with attempt := some a, ret := none } : Submission) = c₁ from rfl,
      complete_eq hd]
    refine .finished fun x hx => ?_
    split at hx
    · exact mem_writeOwnValue _ x hx
    · cases hx

variable {a : Attempt}

theorem onMapping_of {m : MappingNotice} (h : c.isDone = false) (ha : c.attempt = some a)
    (hf : c.future = some m.future) :
    Follows c (a.hear (.mapping m.mapping)).1 c.ret (a.hear (.mapping m.mapping)).2
      (c.onMapping m) := by
  unfold onMapping
  rw [ha]
  simp only [if_pos hf]
  exact follows_follow h _ c.ret _

theorem onNotice_of {sender : NodeId} {m : BackupNotice} (h : c.isDone = false)
    (ha : c.attempt = some a) (hf : c.future = some m.future) (hp : a.primary = m.primary) :
    Follows c (a.hear (.notice sender m)).1 (c.ret.or (m.result?.map .flag))
      (a.hear (.notice sender m)).2 (c.onNotice sender m) := by
  unfold onNotice
  rw [ha]
  simp only [if_pos (And.intro hf hp)]
  exact follows_follow h _ _ _

theorem onNotice_other {sender : NodeId} {m : BackupNotice}
    (h : c.future ≠ some m.future ∨ ∀ a, c.attempt = some a → a.primary ≠ m.primary) :
    c.onNotice sender m = (c, []) := by
  unfold onNotice
  split
  next => rfl
  next a ha =>
    refine if_neg fun hc => ?_
    rcases h with h | h
    · exact h hc.1
    · exact h a ha hc.2

theorem onDeparture_of {n : NodeId} (h : c.isDone = false) (ha : c.attempt = some a)
    (hp : a.awaitsPrimary n = false) :
    Follows c (a.hear (.departure n)).1 c.ret (a.hear (.departure n)).2
      (c.onDeparture site view n) := by
  unfold onDeparture
  rw [ha]
  simp only [hp, Bool.false_eq_true, if_false]
  exact follows_follow h _ c.ret _

/-! ## Answers -/

/-- What the submission has to return after a positive answer. -/
def retWith (c : Submission) (r : UpdateResponse) : Option UpdateReturn :=
  match r.ret with
  | some ret =>
    match c.ret with
    | some old => some (if c.update.operation = .transform then old.merge ret else ret)
    | none => some ret
  | none => c.ret

/-- Whether a response is the answer the submission waits for. -/
structure Awaits (c : Submission) (a : Attempt) (sender : NodeId) (r : UpdateResponse) : Prop where
  attempt : c.attempt = some a
  future : c.future = some r.future
  primary : a.primary = sender
  responded : a.responded = false

theorem awaitsPrimary_iff {n : NodeId} :
    a.awaitsPrimary n = true ↔ a.primary = n ∧ a.responded = false := by
  simp [Attempt.awaitsPrimary]

theorem onResponse_eq {sender : NodeId} {r : UpdateResponse} (hw : c.Awaits a sender r)
    (nodeError : Bool) :
    c.onResponse site view sender r nodeError =
      let a := { a with responded := true }
      let c := { c with attempt := some a }
      if r.needsRemap then c.onRefusal site view a.request r
      else if r.hasError then c.onFailure site a.request r
      else c.onSuccess a r nodeError := by
  unfold onResponse
  rw [hw.attempt]
  exact if_pos ⟨hw.future, awaitsPrimary_iff.2 ⟨hw.primary, hw.responded⟩⟩

theorem onResponse_of {sender : NodeId} {r : UpdateResponse} (h : c.isDone = false)
    (hw : c.Awaits a sender r) (he : r.hasError = false) (hr : r.needsRemap = false)
    (nodeError : Bool) :
    Follows c (a.hear (.answer r.mapping)).1 (c.retWith r) (a.hear (.answer r.mapping)).2
      (c.onResponse site view sender r nodeError) := by
  let b : Attempt × Progress := { a with responded := true }.onAnswer r.mapping
  have hb : a.hear (.answer r.mapping) = b := by simp [Attempt.hear, hw.responded, b]
  let c₁ : Submission := { c with attempt := some b.1, ret := c.retWith r }
  have hc : c.onResponse site view sender r nodeError =
      if b.2 = .finished then
        let near := if nodeError then [] else c₁.writeReported r
        let x := ({ c₁ with ret := none } : Submission).complete (.ok (c₁.outcome c₁.ret))
        (x.1, near ++ x.2)
      else (c₁, []) := by
    rw [onResponse_eq hw, he, hr]
    rfl
  have hd : ({ c₁ with ret := none } : Submission).isDone = false := h
  rw [hc, hb]
  have hp : b.2 ≠ .unconfirmed := by
    simp only [b, Attempt.onAnswer]
    split
    next nodes =>
      unfold Attempt.progress
      split
      · split
        · split <;> simp
        · simp
      · simp
    next => simp
  split
  next hfin =>
    rw [complete_eq hd, hfin]
    refine .finished fun x hx => ?_
    split at hx
    · cases hx
    · exact mem_writeReported r x hx
  next hfin =>
    have : b.2 = .pending := by cases hb2 : b.2 <;> simp_all
    rw [this]
    exact .pending

theorem onResponse_over {sender : NodeId} {r : UpdateResponse} (h : c.isDone = false)
    (hw : c.Awaits a sender r) (hn : r.hasError = true ∨ r.needsRemap = true) (nodeError : Bool) :
    Over c (c.onResponse site view sender r nodeError) := by
  rw [onResponse_eq hw]
  simp only
  split
  next => exact Over.of_same (over_onRefusal (by exact h) _ _) ⟨⟨rfl, rfl, rfl⟩, rfl, rfl⟩
  next hr =>
    rw [if_pos (hn.resolve_right hr)]
    exact Over.of_same (over_onFailure (by exact h) _ _) ⟨⟨rfl, rfl, rfl⟩, rfl, rfl⟩

theorem onResponse_other {sender : NodeId} {r : UpdateResponse}
    (hw : ∀ a, ¬ c.Awaits a sender r) (nodeError : Bool) :
    c.onResponse site view sender r nodeError = (c, []) := by
  unfold onResponse
  split
  next => rfl
  next a ha =>
    refine if_neg fun hc => hw a ?_
    obtain ⟨hp, hr⟩ := awaitsPrimary_iff.1 hc.2
    exact ⟨ha, hc.1, hp, hr⟩

/-! ## Mapping -/

/-- The attempt that a request to `primary` starts. -/
def opening (site : Site) (view : View) (c : Submission) (id : FutureId) (primary : NodeId) :
    Attempt where
  request := c.request site view id
  primary := primary
  relayed := c.syncMode = .fullSync && site.settings.nearRelay = .backups

def launched (site : Site) (view : View) (c : Submission) (id : FutureId) (primary : NodeId) :
    Submission :=
  { c with
    future := some id
    topologyVersion := view.topology.version
    attempt := some (c.opening site view id primary) }

theorem opening_fresh (id : FutureId) (primary : NodeId) :
    (c.opening site view id primary).Fresh := ⟨rfl, rfl, rfl, rfl, rfl⟩

/-- What mapping under the number `id` leads to. -/
inductive Mapped (site : Site) (view : View) (c : Submission) (id : FutureId) :
    Submission × List SubmissionAction → Prop
  | done (h : c.isDone = true) : Mapped site view c id (c, [])
  /-- No attempt is started. -/
  | ended (h : c.isDone = false) {x : Submission × List SubmissionAction} (ho : Over c x) :
      Mapped site view c id x
  /-- The key belongs to nobody. -/
  | ownerless (hl : c.launches view.topology = true)
      (hp : view.primary c.update.key view.topology.version = none)
      {x : Submission × List SubmissionAction}
      (ho : Over { c with future := some id, topologyVersion := view.topology.version } x) :
      Mapped site view c id (x.1, .enlist id :: x.2)
  /-- The request cannot be sent. -/
  | refused (hl : c.launches view.topology = true) {primary : NodeId}
      (hp : view.primary c.update.key view.topology.version = some primary)
      (hr : (view.refusal primary).isSome = true) {x : Submission × List SubmissionAction}
      (ho : Over (c.launched site view id primary) x) :
      Mapped site view c id
        (x.1, .enlist id :: .send primary (.updateRequest (c.request site view id)) :: x.2)
  /-- The request is sent, and nobody waits for its answer. -/
  | async (hl : c.launches view.topology = true) {primary : NodeId}
      (hp : view.primary c.update.key view.topology.version = some primary)
      (hr : view.refusal primary = none) (hs : c.syncMode = .fullAsync) (hn : primary ≠ site.node)
      (outcome : UpdateOutcome) :
      Mapped site view c id
        ({ c.launched site view id primary with
            result := (c.result.complete (.ok outcome)).1, future := none },
          [.enlist id, .send primary (.updateRequest (c.request site view id)), .retire id])
  /-- The request is sent. -/
  | sent (hl : c.launches view.topology = true) {primary : NodeId}
      (hp : view.primary c.update.key view.topology.version = some primary)
      (hr : view.refusal primary = none) (hs : c.syncMode = .fullAsync → primary = site.node) :
      Mapped site view c id
        (c.launched site view id primary,
          [.enlist id, .send primary (.updateRequest (c.request site view id))])

end AtomicGrid.Submission

namespace AtomicGrid.Update

/-- An update travels as a single entry. -/
theorem entries_payload (u : Update) : ∃ e, u.payload.entries = [e] ∧ e.key = u.key := by
  unfold payload UpdatePayload.build
  simp only [UpdateEntry.plain]
  split
  next e he =>
    cases he
    split
    next p hp => exact ⟨_, rfl, rfl⟩
    next hp =>
      split
      · exact ⟨_, rfl, rfl⟩
      · exact ⟨_, rfl, rfl⟩
  next => exact ⟨_, rfl, rfl⟩

theorem keys_payload (u : Update) : u.payload.keys = [u.key] := by
  unfold payload UpdatePayload.build
  simp only [UpdateEntry.plain]
  split
  next e he =>
    cases he
    split
    next => rfl
    next =>
      split
      · rfl
      · rfl
  next => rfl

end AtomicGrid.Update

namespace AtomicGrid.Submission

variable {c : Submission} {site : Site} {view : View}

/-- Without an answer of the primary the attempt has failed. -/
theorem hasError_unanswered (id : FutureId) (primary : NodeId) (cause : FailureCause) :
    (unanswered site (c.request site view id) primary cause).hasError = true := by
  refine UpdateResponse.hasError_addFailedKeys _ ?_ _
  show c.update.payload.keys ≠ []
  simp [Update.keys_payload]

theorem mapped_launch (hl : c.launches view.topology = true) (id : FutureId) :
    Mapped site view c id (c.launch site view id) := by
  have hd : c.isDone = false := by
    simp only [launches, Bool.and_eq_true, Bool.not_eq_true'] at hl
    exact hl.1.1
  let c₀ : Submission := { c with future := some id, topologyVersion := view.topology.version }
  have hd₀ : c₀.isDone = false := hd
  unfold launch
  cases hp : view.primary c.update.key view.topology.version with
  | none =>
    simp only [hp]
    exact .ownerless hl hp (over_complete hd₀ _)
  | some primary =>
    let c₁ := c.launched site view id primary
    have hd₁ : c₁.isDone = false := hd
    simp only [hp, sendRequest]
    cases hr : view.refusal primary with
    | none =>
      simp only
      split
      next hs =>
        let r : Except CacheError UpdateOutcome := .ok (c₁.outcome (some (.flag true)))
        show Mapped site view c id ((c₁.complete r).1,
          .enlist id :: .send primary (.updateRequest (c.request site view id)) ::
            (c₁.complete r).2)
        rw [complete_eq hd₁]
        exact .async hl hp hr hs.1 hs.2 _
      next hs =>
        exact .sent hl hp hr fun h => Decidable.byContradiction fun hn => hs ⟨h, hn⟩
    | some e =>
      let r := unanswered site (c.request site view id) primary (sendFailure e)
      have hw : c₁.Awaits (c.opening site view id primary) primary r := ⟨rfl, rfl, rfl, rfl⟩
      have he : r.hasError = true := hasError_unanswered id primary _
      exact .refused hl hp (by simp [hr]) (onResponse_over hd₁ hw (.inl he) true)

theorem mapped_mapOn (hf : c.future = none) (ha : c.attempt = none) (id : FutureId) :
    Mapped site view c id (c.mapOn site view id) := by
  unfold mapOn
  simp only
  split
  next h => exact .done h
  next h =>
    have h : c.isDone = false := by simpa using h
    split
    next => exact .ended h (over_complete h _)
    next hs =>
      split
      next hc => exact mapped_launch (by simp [launches, h, hs, hc]) id
      next => exact .ended h (over_remap h hf ha _)

theorem mapped_resume (hf : c.future = none) (ha : c.attempt = none) (id : FutureId)
    (awaited : Except CacheError TopologyVersion) :
    Mapped site view c id (c.resume site view id awaited) := by
  cases hd : c.isDone with
  | true =>
    have he : c.resume site view id awaited = (c, []) := by
      unfold resume
      split
      · simp [mapOn, hd]
      · exact complete_of_isDone hd _
      · exact complete_of_isDone hd _
    rw [he]
    exact .done hd
  | false =>
    unfold resume
    split
    · exact mapped_mapOn hf ha id
    · exact .ended hd (over_complete hd _)
    · exact .ended hd (over_complete hd _)

end AtomicGrid.Submission
