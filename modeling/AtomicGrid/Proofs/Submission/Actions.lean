import AtomicGrid.Proofs.Node.Turns

/-!
# What submissions ask for

Whatever a submission hears, it asks for little: to be rid of a number, to wait, to write to the near
cache, or to check on an update.  Only mapping starts an attempt, which takes a number and sends a
request, and only on a topology that is ready.

## Results

* `Submission.abides_turn`: all that a submission asks for, whatever it hears.
-/

set_option autoImplicit false

namespace AtomicGrid

/-- What a submission may ask for on a topology. -/
inductive SubmissionAction.Permitted (t : Topology) : SubmissionAction → Prop
  | retire (id : FutureId) : Permitted t (.retire id)
  | await (v : TopologyVersion) : Permitted t (.await v)
  | writeNear (key : Key) (value : Option Value) (version : WriteVersion) (ttl : Int64) :
      Permitted t (.writeNear key value version ttl)
  | check (primary : NodeId) (r : CheckRequest) : Permitted t (.send primary (.checkRequest r))
  | enlist (hr : t.ready = true) (id : FutureId) : Permitted t (.enlist id)
  | request (hr : t.ready = true) (primary : NodeId) (q : UpdateRequest) :
      Permitted t (.send primary (.updateRequest q))

namespace Submission

variable {c : Submission} {x : Submission × List SubmissionAction} {t : Topology} {view : View}

/-- The submission asks for what it may. -/
def Abides (t : Topology) (x : Submission × List SubmissionAction) : Prop := ∀ a ∈ x.2, a.Permitted t

theorem abides_nil (c : Submission) : Abides t (c, []) := fun _ ha => nomatch ha

theorem Abides.cons {a : SubmissionAction} (ha : a.Permitted t) (hx : Abides t x) :
    Abides t (x.1, a :: x.2) := by
  intro b hb
  rcases List.mem_cons.1 hb with rfl | hb
  · exact ha
  · exact hx b hb

theorem Abides.append {as : List SubmissionAction} (has : ∀ a ∈ as, a.Permitted t)
    (hx : Abides t x) : Abides t (x.1, as ++ x.2) := by
  intro a ha
  rcases List.mem_append.1 ha with ha | ha
  · exact has a ha
  · exact hx a ha

theorem permitted_retire (id : Option FutureId) :
    ∀ a ∈ id.toList.map SubmissionAction.retire, a.Permitted t := by
  intro a ha
  obtain ⟨i, -, rfl⟩ := List.mem_map.1 ha
  exact .retire i

theorem permitted_writeOwnValue (c : Submission) (version : WriteVersion) :
    ∀ a ∈ c.writeOwnValue version, a.Permitted t := by
  intro a ha
  obtain ⟨key, value, v, ttl, rfl⟩ := mem_writeOwnValue version a ha
  exact .writeNear key value v ttl

theorem permitted_writeReported (c : Submission) (r : UpdateResponse) :
    ∀ a ∈ c.writeReported r, a.Permitted t := by
  intro a ha
  obtain ⟨key, value, v, ttl, rfl⟩ := mem_writeReported r a ha
  exact .writeNear key value v ttl

theorem abides_complete (c : Submission) (r : Except CacheError UpdateOutcome) :
    Abides t (c.complete r) := by
  unfold complete
  split
  · exact abides_nil c
  · exact permitted_retire c.future

theorem abides_remap (site : Site) (c : Submission) (v : TopologyVersion) :
    Abides t (c.remap site v) := by
  unfold remap
  split
  · intro a ha
    rw [List.mem_singleton.1 ha]
    exact .await v
  · exact abides_complete c _

theorem abides_retryOn (site : Site) (c : Submission) (v : TopologyVersion) :
    Abides t (c.retryOn site v) :=
  (abides_remap site _ v).append (permitted_retire c.future)

theorem abides_onFailure (site : Site) (c : Submission) (request : UpdateRequest)
    (r : UpdateResponse) : Abides t (c.onFailure site request r) := by
  unfold onFailure
  simp only
  split
  · exact abides_retryOn site _ _
  · split
    · exact abides_complete c _
    · split
      · exact abides_complete c _
      · exact abides_complete c _

theorem abides_onSuccess (c : Submission) (a : Attempt) (r : UpdateResponse) (nodeError : Bool) :
    Abides t (c.onSuccess a r nodeError) := by
  unfold onSuccess
  simp only
  split
  · refine (abides_complete _ _).append ?_
    split
    · exact fun _ ha => nomatch ha
    · exact permitted_writeReported _ r
  · exact abides_nil _

theorem abides_onResponse (site : Site) (view : View) (c : Submission) (sender : NodeId)
    (r : UpdateResponse) (nodeError : Bool) :
    Abides t (c.onResponse site view sender r nodeError) := by
  unfold onResponse
  split
  · exact abides_nil c
  · simp only
    split
    · split
      · exact abides_retryOn site _ _
      · split
        · exact abides_onFailure site _ _ r
        · exact abides_onSuccess _ _ r nodeError
    · exact abides_nil c

theorem abides_follow (c : Submission) (a : Attempt) (p : Progress) : Abides t (c.follow a p) := by
  cases p with
  | pending => exact abides_nil c
  | finished =>
    refine (abides_complete _ _).append ?_
    split
    · exact permitted_writeOwnValue c c.version
    · exact fun _ ha => nomatch ha
  | unconfirmed =>
    intro b hb
    rw [List.mem_singleton.1 hb]
    exact .check _ _

theorem abides_onMapping (c : Submission) (m : MappingNotice) : Abides t (c.onMapping m) := by
  unfold onMapping
  split
  · exact abides_nil c
  · split
    · exact abides_follow _ _ _
    · exact abides_nil c

theorem abides_onNotice (c : Submission) (sender : NodeId) (m : BackupNotice) :
    Abides t (c.onNotice sender m) := by
  unfold onNotice
  split
  · exact abides_nil c
  · split
    · exact abides_follow _ _ _
    · exact abides_nil c

theorem abides_onDeparture (site : Site) (view : View) (c : Submission) (gone : NodeId) :
    Abides t (c.onDeparture site view gone) := by
  unfold onDeparture
  split
  · exact abides_nil c
  · split
    · exact abides_onResponse site view c gone _ true
    · exact abides_follow _ _ _

theorem abides_sendRequest (hr : t.ready = true) (site : Site) (view : View) (c : Submission)
    (id : FutureId) (primary : NodeId) : Abides t (c.sendRequest site view id primary) := by
  unfold sendRequest
  refine Abides.cons (.request hr primary _) ?_
  split
  · split
    · exact abides_complete _ _
    · exact abides_nil _
  · exact abides_onResponse site view _ primary _ true

theorem abides_launch (hr : t.ready = true) (site : Site) (view : View) (c : Submission)
    (id : FutureId) : Abides t (c.launch site view id) := by
  unfold launch
  refine Abides.cons (.enlist hr id) ?_
  split
  · exact abides_sendRequest hr site view _ id _
  · exact abides_complete _ _

/-- A submission is mapped on a topology that is ready. -/
theorem abides_mapOn (site : Site) (view : View) (c : Submission) (id : FutureId) :
    Abides view.topology (c.mapOn site view id) := by
  unfold mapOn
  simp only
  split
  · exact abides_nil c
  · split
    · exact abides_complete c _
    · split
      next ha =>
        rw [admits, Bool.and_eq_true] at ha
        exact abides_launch ha.1 site view c id
      next => exact abides_remap site c _

theorem abides_resume (site : Site) (view : View) (c : Submission) (id : FutureId)
    (awaited : Except CacheError TopologyVersion) :
    Abides view.topology (c.resume site view id awaited) := by
  unfold resume
  split
  · exact abides_mapOn site view c id
  · exact abides_complete c _
  · exact abides_complete c _

/-- Whatever a submission hears, it asks for what it may. -/
theorem abides_turn {n : Node} {move : Move} {h : Handle}
    (ht : Node.SubmissionTurn view n move h c x) : Abides view.topology x := by
  cases ht with
  | submit hu hc => exact abides_mapOn _ view c _
  | resume hc awaited => exact abides_resume _ view c _ awaited
  | answer hi hr hc => exact abides_onResponse _ view c _ _ false
  | mapping hi hr hc => exact abides_onMapping c _
  | notice hi hr hc => exact abides_onNotice c _ _
  | departure hc gone => exact abides_onDeparture _ view c gone

end Submission

end AtomicGrid
