import AtomicGrid.Proofs.Grid
import AtomicGrid.Proofs.Submission.Outcome

/-!
# What a move does

Every move either hands one event to one coordinator, or touches no coordinator at all.  A
`SubmissionTurn` is an event handed to a submission; what the coordinator asks for is all that the
node does.

## Results

* `Node.turn_move`: every move is the turn of one coordinator, or of none.
* `Node.messages_effects`, `Node.message_of_fanout`, `Node.message_of_plain`: the messages of a turn.
-/

set_option autoImplicit false

namespace AtomicGrid

/-- What a message looks like on its way: handed on, or refused. -/
def SubmissionAction.effects (view : View) (h : Handle) (near : Bool) :
    SubmissionAction → List Effect
  | .send receiver m => [Node.transmission view receiver m]
  | .await v => [.waits ⟨v, .remap h⟩]
  | .writeNear key value version ttl => if near then [.nearWritten key value version ttl] else []
  | .enlist _ => []
  | .retire _ => []

/-- What an action of a submission does to the registry. -/
def SubmissionAction.onRegistry (h : Handle) (r : SortedMap FutureId Registered) :
    SubmissionAction → SortedMap FutureId Registered
  | .enlist id => r.insert id (.submission h)
  | .retire id => r.erase id
  | _ => r

def FanoutAction.effects (view : View) : FanoutAction → List Effect
  | .send receiver m => [Node.transmission view receiver m]
  | .reply route r => Node.reply view route r
  | .notify listener success => [.notified listener success]
  | .enlist _ => []
  | .retire _ => []

def FanoutAction.onRegistry (r : SortedMap FutureId Registered) :
    FanoutAction → SortedMap FutureId Registered
  | .enlist id => r.insert id .fanout
  | .retire id => r.erase id
  | _ => r

/-- The message that an effect shows, and to whom, whether it was handed on or refused. -/
def Effect.message? : Effect → Option (NodeId × Message)
  | .sent receiver m => some (receiver, m)
  | .refused receiver m => some (receiver, m)
  | _ => none

/-- The message that an action sends, and to whom. -/
def SubmissionAction.message? : SubmissionAction → Option (NodeId × Message)
  | .send receiver m => some (receiver, m)
  | _ => none

def Move.maps : Move → Bool
  | .submit _ => true
  | .resume (.remap _) _ => true
  | _ => false

theorem lt_add_one_of_room {x : UInt64} (h : x.toNat + 1 < UInt64.size) : x < x + 1 := by
  rw [UInt64.lt_iff_toNat_lt, UInt64.toNat_add, UInt64.toNat_one, Nat.mod_eq_of_lt h]
  omega

def Move.submits : Move → Bool
  | .submit _ => true
  | _ => false

namespace Node

variable {view : View} {n : Node}

/-! ## Actions -/

/-- The same node with other registry and near cache. -/
structure SameBut (n n' : Node) (registry : SortedMap FutureId Registered) : Prop where
  site : n'.site = n.site
  processors : n'.processors = n.processors
  versions : n'.versions = n.versions
  nextFuture : n'.nextFuture = n.nextFuture
  registry : n'.registry = registry
  submissions : n'.submissions = n.submissions
  fanouts : n'.fanouts = n.fanouts
  store : n'.store = n.store
  faults : n'.faults = n.faults
  nearCache : n'.nearCache.isSome = n.nearCache.isSome

theorem each_performSubmission (h : Handle) (as : List SubmissionAction) :
    ∀ n : Node, (each (performSubmission view h) n as).2 =
        as.flatMap (SubmissionAction.effects view h n.nearCache.isSome) ∧
      SameBut n (each (performSubmission view h) n as).1
        (as.foldl (SubmissionAction.onRegistry h) n.registry) := by
  induction as with
  | nil => exact fun n => ⟨rfl, ⟨rfl, rfl, rfl, rfl, rfl, rfl, rfl, rfl, rfl, rfl⟩⟩
  | cons a as ih =>
    intro n
    have ha : (performSubmission view h n a).2 = a.effects view h n.nearCache.isSome ∧
        SameBut n (performSubmission view h n a).1 (a.onRegistry h n.registry) := by
      cases a with
      | writeNear key value version ttl =>
        cases hn : n.nearCache with
        | none =>
          simp only [performSubmission, writeNear, hn]
          exact ⟨rfl, ⟨rfl, rfl, rfl, rfl, rfl, rfl, rfl, rfl, rfl, by rw [hn]⟩⟩
        | some near =>
          simp only [performSubmission, writeNear, hn]
          exact ⟨rfl, ⟨rfl, rfl, rfl, rfl, rfl, rfl, rfl, rfl, rfl, by rw [hn]; rfl⟩⟩
      | _ => exact ⟨rfl, ⟨rfl, rfl, rfl, rfl, rfl, rfl, rfl, rfl, rfl, rfl⟩⟩
    obtain ⟨he, hs⟩ := ha
    obtain ⟨he', hs'⟩ := ih (performSubmission view h n a).1
    simp only [each, List.flatMap_cons, List.foldl_cons]
    refine ⟨by rw [he, he', hs.nearCache], ?_⟩
    exact ⟨hs'.site.trans hs.site, hs'.processors.trans hs.processors,
      hs'.versions.trans hs.versions, hs'.nextFuture.trans hs.nextFuture,
      by rw [hs'.registry, hs.registry], hs'.submissions.trans hs.submissions,
      hs'.fanouts.trans hs.fanouts, hs'.store.trans hs.store, hs'.faults.trans hs.faults,
      hs'.nearCache.trans hs.nearCache⟩

theorem each_performFanout (as : List FanoutAction) :
    ∀ n : Node, each (performFanout view) n as =
      ({ n with registry := as.foldl FanoutAction.onRegistry n.registry },
        as.flatMap (FanoutAction.effects view)) := by
  induction as with
  | nil => exact fun _ => rfl
  | cons a as ih =>
    intro n
    have ha : performFanout view n a =
        ({ n with registry := a.onRegistry n.registry }, a.effects view) := by
      cases a <;> rfl
    simp only [each, ha, ih, List.flatMap_cons, List.foldl_cons]

/-! ## Requests -/

/-- What the entries of a request come to on this node as primary. -/
def applied (view : View) (n : Node) (sender : NodeId) (request : UpdateRequest) : Applied :=
  request.payload.entries.foldl (n.freshFuture.1.applyEntry view sender request)
    { store := n.store, fanout := .start n.site sender request n.nextFuture }

theorem store_applyEntry {sender : NodeId} {request : UpdateRequest} (s : Applied)
    (e : UpdateEntry) : (n.applyEntry view sender request s e).store =
      (n.applyWrite s.store request.partition (request.writeCommand e)).1 := by
  unfold applyEntry
  split
  next h => rw [h]
  next h =>
    rw [h]
    simp only
    split
    · rfl
    · rfl

/-- The primary's answer to a request it carries out. -/
def positive (view : View) (n : Node) (sender : NodeId) (request : UpdateRequest) :
    UpdateResponse :=
  let s := n.applied view sender request
  { n.answerTo request.toEnvelope with
    failedKeys := s.failedKeys
    ret := some s.ret
    nearVersion := some request.writeVersion
    nearValues := s.nearValues }

/-- Who gets the primary's answer. -/
def route (n : Node) (sender : NodeId) (request : UpdateRequest) : ReplyRoute :=
  if request.syncMode = .fullAsync ∧ sender ≠ n.id then .nobody else .node sender

/-- The fan-out of a request that is carried out, with what it asks for. -/
def opened (view : View) (n : Node) (sender : NodeId) (request : UpdateRequest) :
    Fanout × List FanoutAction :=
  let s := n.applied view sender request
  s.fanout.map n.site view (n.positive view sender request) s.ret (n.route sender request)

theorem carryOut_eq (sender : NodeId) (request : UpdateRequest) :
    n.carryOut view sender request =
      { n.freshFuture.1 with store := (n.applied view sender request).store }.putFanout view
        (n.opened view sender request) := rfl

structure CarriesOut (view : View) (n : Node) (request : UpdateRequest) : Prop where
  running : view.topology.stopping = false
  ready : request.flags.topologyLocked = false →
    view.topology.ready = true ∧ request.topologyVersion = view.topology.version
  primary : ∀ key ∈ request.keys, view.primary key view.topology.version = some n.id

structure Defers (view : View) (request : UpdateRequest) : Prop where
  unlocked : request.flags.topologyLocked = false
  early : view.topology.version < request.topologyVersion ∨ view.topology.ready = false

structure Declines (request : UpdateRequest) (r : UpdateResponse) : Prop where
  future : r.future = request.future
  negative : request.keys ≠ [] → r.hasError = true ∨ r.needsRemap = true

/-- What a node does about a request. -/
inductive Processed (view : View) (n : Node) (sender : NodeId) (request : UpdateRequest) :
    Node × List Effect → Prop
  | carriedOut (h : n.CarriesOut view request) :
      Processed view n sender request (n.carryOut view sender request)
  | deferred (h : Defers view request) : Processed view n sender request
      (n, [.waits ⟨request.topologyVersion, .process sender request⟩])
  | declined {r : UpdateResponse} (h : Declines request r)
      (hc : r.cacheId = n.site.cacheId) :
      Processed view n sender request (n, [transmission view sender (.updateResponse r)])

theorem processed_process (sender : NodeId) (request : UpdateRequest) :
    Processed view n sender request (n.process view sender request) := by
  unfold process
  simp only
  split
  · exact .declined ⟨rfl, fun _ => .inl rfl⟩ rfl
  · rename_i hs
    split
    · rename_i hw
      simp only [Bool.and_eq_true, Bool.not_eq_true', Bool.or_eq_true, decide_eq_true_eq] at hw
      exact .deferred ⟨hw.1, hw.2⟩
    · rename_i hw
      split
      · refine .declined ⟨rfl, fun hk => .inr ?_⟩ rfl
        simpa [UpdateResponse.needsRemap] using hk
      · rename_i hr
        split
        · rename_i hp
          refine .carriedOut ⟨by simpa using hs, fun hl => ?_, by simpa using hp⟩
          simp only [hl, Bool.not_false, Bool.true_and, Bool.or_eq_true, decide_eq_true_eq,
            Bool.not_eq_true', not_or, Bool.not_eq_false] at hw hr
          exact ⟨hw.2, by simpa using hr.1⟩
        · exact .declined ⟨rfl, fun hk => .inl (UpdateResponse.hasError_addFailedKeys _ hk _)⟩ rfl

theorem process_of_carriesOut {sender : NodeId} {request : UpdateRequest}
    (h : n.CarriesOut view request) :
    n.process view sender request = n.carryOut view sender request := by
  have hp : (request.keys.all fun key => view.primary key view.topology.version = some n.id) =
      true := by
    rw [List.all_eq_true]
    exact fun key hk => decide_eq_true (h.primary key hk)
  unfold process
  simp only [h.running, hp, Bool.false_eq_true, if_false, if_true]
  cases hl : request.flags.topologyLocked with
  | true => simp
  | false =>
    obtain ⟨hr, hv⟩ := h.ready hl
    have : ¬ view.topology.version < view.topology.version :=
      fun hlt => by
        have := (TopologyVersion.lt_iff.1 hlt)
        simp [UInt64.lt_irrefl, UInt32.lt_irrefl] at this
    simp [hr, hv, this]

/-! ## Events for coordinators -/

/-- The move brings a request to be processed. -/
inductive Brings (n : Node) (sender : NodeId) (request : UpdateRequest) : Move → Prop
  | received (hc : request.cacheId = n.site.cacheId) :
      Brings n sender request (.receive sender (.updateRequest request))
  | resumed (v : TopologyVersion) :
      Brings n sender request (.resume (.process sender request) (.ok v))

/-- The move hands an event to the submission `h`, until then `c`, with this outcome. -/
inductive SubmissionTurn (view : View) (n : Node) :
    Move → Handle → Submission → Submission × List SubmissionAction → Prop
  | submit {u : Update} (hu : u.fault? = none) {c : Submission}
      (hc : c = .start n.site u (n.versions.next view.topology.version).2) :
      SubmissionTurn view n (.submit u) (n.versions.issued + 1) c
        (c.mapOn n.site view n.nextFuture)
  | resume {h : Handle} {c : Submission} (hc : n.submissions.get? h = some c)
      (awaited : Except CacheError TopologyVersion) :
      SubmissionTurn view n (.resume (.remap h) awaited) h c
        (c.resume n.site view n.nextFuture awaited)
  | answer {h : Handle} {c : Submission} {sender : NodeId} {r : UpdateResponse}
      (hi : r.cacheId = n.site.cacheId)
      (hr : n.registry.get? r.future = some (.submission h)) (hc : n.submissions.get? h = some c) :
      SubmissionTurn view n (.receive sender (.updateResponse r)) h c
        (c.onResponse n.site view sender r false)
  | mapping {h : Handle} {c : Submission} {sender : NodeId} {m : MappingNotice}
      (hi : m.cacheId = n.site.cacheId)
      (hr : n.registry.get? m.future = some (.submission h)) (hc : n.submissions.get? h = some c) :
      SubmissionTurn view n (.receive sender (.mappingNotice m)) h c (c.onMapping m)
  | notice {h : Handle} {c : Submission} {sender : NodeId} {m : BackupNotice}
      (hi : m.cacheId = n.site.cacheId)
      (hr : n.registry.get? m.future = some (.submission h)) (hc : n.submissions.get? h = some c) :
      SubmissionTurn view n (.receive sender (.backupNotice m)) h c (c.onNotice sender m)
  | departure {id : FutureId} {h : Handle} {c : Submission} (hc : n.submissions.get? h = some c)
      (gone : NodeId) :
      SubmissionTurn view n (.lose gone (id, .submission h)) h c (c.onDeparture n.site view gone)

/-- The move has the fan-out `f` record a node, or its loss. -/
inductive Acknowledges (n : Node) : Move → FutureId → Fanout → NodeId → Bool → Prop
  | answer {sender : NodeId} {r : UpdateResponse} {f : Fanout} (hi : r.cacheId = n.site.cacheId)
      (hr : n.registry.get? r.future = some .fanout) (hf : n.fanouts.get? r.future = some f) :
      Acknowledges n (.receive sender (.updateResponse r)) r.future f sender false
  | departure {id : FutureId} {f : Fanout} (hf : n.fanouts.get? id = some f) (gone : NodeId) :
      Acknowledges n (.lose gone (id, .fanout)) id f gone true

theorem Acknowledges.get? {move : Move} {id : FutureId} {f : Fanout} {o : NodeId} {lost : Bool}
    (hk : Acknowledges n move id f o lost) : n.fanouts.get? id = some f := by
  cases hk with
  | answer hi hr hf => exact hf
  | departure hf gone => exact hf

/-- The move hands no event to any coordinator, and has these effects. -/
inductive PlainTurn (view : View) (n : Node) : Move → List Effect → Prop
  | quiet {move : Move} : PlainTurn view n move []
  | declined {sender : NodeId} {request : UpdateRequest} {r : UpdateResponse} {move : Move}
      (hm : Brings n sender request move ∨
        ∃ e, move = .resume (.process sender request) (.error e))
      (h : Declines request r) (hc : r.cacheId = n.site.cacheId) :
      PlainTurn view n move [transmission view sender (.updateResponse r)]
  | deferred {sender : NodeId} {request : UpdateRequest} {move : Move}
      (hm : Brings n sender request move) (h : Defers view request) :
      PlainTurn view n move [.waits ⟨request.topologyVersion, .process sender request⟩]
  | confirmed {sender : NodeId} {m : CheckRequest} (hc : m.cacheId = n.site.cacheId) :
      PlainTurn view n (.receive sender (.checkRequest m)) (n.confirm view sender m)
  | backedUp {sender : NodeId} {r : BackupRequest} (hc : r.cacheId = n.site.cacheId) :
      PlainTurn view n (.receive sender (.backupRequest r)) (n.backUp view sender r).2

/-! ## What comes of it -/

/-- The node `n` has handed an event to the submission `h`, until then `c`. -/
structure AfterSubmission (view : View) (n : Node) (move : Move) (h : Handle) (c : Submission)
    (x : Submission × List SubmissionAction) (r : Node × List Effect) : Prop where
  effects : r.2 = x.2.flatMap (SubmissionAction.effects view h n.nearCache.isSome)
  submissions : r.1.submissions = n.submissions.insert h x.1
  registry : r.1.registry = x.2.foldl (SubmissionAction.onRegistry h) n.registry
  nextFuture : r.1.nextFuture =
    if move.maps && c.launches view.topology then n.nextFuture + 1 else n.nextFuture
  versions : r.1.versions =
    if move.submits then (n.versions.next view.topology.version).1 else n.versions
  site : r.1.site = n.site
  processors : r.1.processors = n.processors
  fanouts : r.1.fanouts = n.fanouts
  store : r.1.store = n.store
  faults : r.1.faults = n.faults
  nearCache : r.1.nearCache.isSome = n.nearCache.isSome

/-- The node `n` has handed an event to a fan-out. -/
structure AfterFanout (view : View) (n : Node) (x : Fanout × List FanoutAction)
    (r : Node × List Effect) : Prop where
  effects : r.2 = x.2.flatMap (FanoutAction.effects view)
  fanouts : r.1.fanouts = n.fanouts.insert x.1.id x.1
  registry : r.1.registry = x.2.foldl FanoutAction.onRegistry n.registry
  versions : r.1.versions = n.versions
  site : r.1.site = n.site
  processors : r.1.processors = n.processors
  submissions : r.1.submissions = n.submissions
  faults : r.1.faults = n.faults
  nearCache : r.1.nearCache = n.nearCache

/-- No coordinator has heard of anything. -/
structure AfterPlain (n n' : Node) : Prop where
  registry : n'.registry = n.registry
  nextFuture : n'.nextFuture = n.nextFuture
  versions : n'.versions = n.versions
  site : n'.site = n.site
  processors : n'.processors = n.processors
  submissions : n'.submissions = n.submissions
  fanouts : n'.fanouts = n.fanouts
  nearCache : n'.nearCache.isSome = n.nearCache.isSome

/-- What a move comes to. -/
inductive Turn (view : View) (n : Node) (move : Move) (r : Node × List Effect) : Prop
  | submission {h : Handle} {c : Submission} {x : Submission × List SubmissionAction}
      (ht : SubmissionTurn view n move h c x) (ha : AfterSubmission view n move h c x r)
  | carried {sender : NodeId} {request : UpdateRequest} (hm : Brings n sender request move)
      (hc : n.CarriesOut view request)
      (ha : AfterFanout view n (n.opened view sender request) r)
      (hn : r.1.nextFuture = n.nextFuture + 1)
      (hs : r.1.store = (n.applied view sender request).store)
  | acknowledged {id : FutureId} {f : Fanout} {o : NodeId} {lost : Bool}
      (hk : Acknowledges n move id f o lost)
      (ha : AfterFanout view n ((f.register n.site o lost).1, (f.register n.site o lost).2.1) r)
      (hn : r.1.nextFuture = n.nextFuture) (hs : r.1.store = n.store)
  | plain (ht : PlainTurn view n move r.2) (ha : AfterPlain n r.1)

theorem AfterPlain.refl (n : Node) : AfterPlain n n := ⟨rfl, rfl, rfl, rfl, rfl, rfl, rfl, rfl⟩

theorem after_putSubmission {h : Handle} {c : Submission}
    {x : Submission × List SubmissionAction} {move : Move} (hm : move.maps = false)
    (hs : move.submits = false) :
    AfterSubmission view n move h c x (n.putSubmission view h x) := by
  obtain ⟨he, hb⟩ := each_performSubmission h x.2
    { n with submissions := n.submissions.insert h x.1 }
  exact ⟨he, hb.submissions, hb.registry, by rw [hm]; exact hb.nextFuture,
    by rw [hs]; exact hb.versions, hb.site, hb.processors, hb.fanouts, hb.store, hb.faults,
    hb.nearCache⟩

theorem after_onMapping {h : Handle} {c : Submission} (hc : n.submissions.get? h = some c)
    {f : Submission → FutureId → Submission × List SubmissionAction} {move : Move}
    (hm : move.maps = true) (hs : move.submits = false) :
    AfterSubmission view n move h c (f c n.nextFuture) (n.onMapping view h f) := by
  let n' : Node := if c.launches view.topology then n.freshFuture.1 else n
  have hn : n.onMapping view h f = n'.putSubmission view h (f c n.nextFuture) := by
    simp only [onMapping, hc]
    rfl
  have hn' : n'.nextFuture =
      if c.launches view.topology then n.nextFuture + 1 else n.nextFuture := by
    simp only [n', freshFuture]
    split <;> rfl
  have hsame : n' = { n with nextFuture := n'.nextFuture } := by
    simp only [n', freshFuture]
    split <;> rfl
  rw [hn]
  obtain ⟨he, hb⟩ := each_performSubmission h (f c n.nextFuture).2
    { n' with submissions := n'.submissions.insert h (f c n.nextFuture).1 }
  rw [hsame] at he hb ⊢
  exact ⟨he, hb.submissions, hb.registry, by rw [hm, Bool.true_and, ← hn']; exact hb.nextFuture,
    by rw [hs]; exact hb.versions, hb.site, hb.processors, hb.fanouts, hb.store, hb.faults,
    hb.nearCache⟩

theorem after_putFanout (x : Fanout × List FanoutAction) :
    AfterFanout view n x (n.putFanout view x) ∧ (n.putFanout view x).1.nextFuture = n.nextFuture ∧
      (n.putFanout view x).1.store = n.store := by
  unfold putFanout
  rw [each_performFanout]
  exact ⟨⟨rfl, rfl, rfl, rfl, rfl, rfl, rfl, rfl, rfl⟩, rfl, rfl⟩

theorem onSubmission_eq {h : Handle} {c : Submission} (hc : n.submissions.get? h = some c)
    (f : Submission → Submission × List SubmissionAction) :
    n.onSubmission view h f = n.putSubmission view h (f c) := by
  simp [onSubmission, hc]

theorem onFanout_eq {id : FutureId} {f : Fanout} (hf : n.fanouts.get? id = some f)
    (g : Fanout → Fanout × List FanoutAction) :
    n.onFanout view id g = n.putFanout view (g f) := by
  simp [onFanout, hf]

theorem submissionAt?_of {id : FutureId} {h : Handle}
    (hr : n.registry.get? id = some (.submission h)) : n.submissionAt? id = some h := by
  simp [submissionAt?, hr]

theorem of_submissionAt? {id : FutureId} {h : Handle} (hr : n.submissionAt? id = some h) :
    n.registry.get? id = some (.submission h) := by
  unfold submissionAt? at hr
  split at hr
  next h' hr' =>
    cases hr
    exact hr'
  next => cases hr

theorem after_submit {u : Update} (hu : u.fault? = none) :
    let c := Submission.start n.site u (n.versions.next view.topology.version).2
    AfterSubmission view n (.submit u) (n.versions.issued + 1) c
      (c.mapOn n.site view n.nextFuture) (n.move view (.submit u)) := by
  intro c
  let h : Handle := n.versions.issued + 1
  let n₁ : Node := { n with
    versions := (n.versions.next view.topology.version).1
    submissions := n.submissions.insert h c }
  have hn : n.move view (.submit u) =
      n₁.onMapping view h fun c id => c.mapOn n.site view id := by
    simp only [move, submit, hu]
    rfl
  -- mapping for the first time is like mapping again
  have ha : AfterSubmission view n₁ (.resume (.remap h) (.ok .zero)) h c
      (c.mapOn n.site view n.nextFuture) (n.move view (.submit u)) := by
    rw [hn]
    exact after_onMapping (n := n₁) (SortedMap.get?_insert_self _ _ _) rfl rfl
  exact {
    effects := ha.effects
    submissions := ha.submissions.trans (SortedMap.insert_insert _ _ _ _)
    registry := ha.registry
    nextFuture := ha.nextFuture
    versions := ha.versions
    site := ha.site
    processors := ha.processors
    fanouts := ha.fanouts
    store := ha.store
    faults := ha.faults
    nearCache := ha.nearCache }

theorem submission_move {move : Move} {h : Handle} {c : Submission}
    {x : Submission × List SubmissionAction} (ht : SubmissionTurn view n move h c x) :
    AfterSubmission view n move h c x (n.move view move) := by
  cases ht with
  | submit hu hc =>
    subst hc
    exact after_submit hu
  | @resume h _ hc awaited =>
    have hm : (Move.resume (.remap h) awaited).maps = true := rfl
    exact after_onMapping (f := fun c id => c.resume n.site view id awaited) hc hm rfl
  | answer hi hr hc =>
    simp only [Node.move, receive, Message.envelope, hi, ne_eq, not_true_eq_false, if_false, hr,
      onSubmission_eq hc]
    exact after_putSubmission rfl rfl
  | mapping hi hr hc =>
    simp only [Node.move, receive, Message.envelope, hi, ne_eq, not_true_eq_false, if_false,
      submissionAt?_of hr, onSubmission_eq hc]
    exact after_putSubmission rfl rfl
  | notice hi hr hc =>
    simp only [Node.move, receive, Message.envelope, hi, ne_eq, not_true_eq_false, if_false,
      submissionAt?_of hr, onSubmission_eq hc]
    exact after_putSubmission rfl rfl
  | departure hc gone =>
    simp only [Node.move, tellDeparture, onSubmission_eq hc]
    exact after_putSubmission rfl rfl

theorem acknowledged_move {move : Move} {id : FutureId} {f : Fanout} {o : NodeId} {lost : Bool}
    (hk : Acknowledges n move id f o lost) :
    AfterFanout view n ((f.register n.site o lost).1, (f.register n.site o lost).2.1)
        (n.move view move) ∧
      (n.move view move).1.nextFuture = n.nextFuture ∧ (n.move view move).1.store = n.store := by
  cases hk with
  | answer hi hr hf =>
    simp only [Node.move, receive, Message.envelope, hi, ne_eq, not_true_eq_false, if_false, hr,
      onFanout_eq hf]
    exact after_putFanout _
  | departure hf gone =>
    simp only [Node.move, tellDeparture, onFanout_eq hf]
    exact after_putFanout _

theorem move_of_brings {move : Move} {sender : NodeId} {request : UpdateRequest}
    (hm : Brings n sender request move) : n.move view move = n.process view sender request := by
  cases hm with
  | received hc =>
    simp only [Node.move, receive, Message.envelope, hc, ne_eq, not_true_eq_false, if_false]
  | resumed v => rfl

theorem processed_move {move : Move} {sender : NodeId} {request : UpdateRequest}
    (hm : Brings n sender request move) :
    Processed view n sender request (n.move view move) := by
  rw [move_of_brings hm]
  exact processed_process sender request

theorem after_carryOut (sender : NodeId) (request : UpdateRequest) :
    AfterFanout view n (n.opened view sender request) (n.carryOut view sender request) ∧
      (n.carryOut view sender request).1.nextFuture = n.nextFuture + 1 ∧
      (n.carryOut view sender request).1.store = (n.applied view sender request).store := by
  rw [carryOut_eq]
  obtain ⟨ha, hn, hs⟩ :=
    after_putFanout (n := { n.freshFuture.1 with store := (n.applied view sender request).store })
      (n.opened view sender request)
  exact ⟨⟨ha.effects, ha.fanouts, ha.registry, ha.versions, ha.site, ha.processors, ha.submissions,
    ha.faults, ha.nearCache⟩, hn, hs⟩

theorem turn_of_brings {move : Move} {sender : NodeId} {request : UpdateRequest}
    (hm : Brings n sender request move) : Turn view n move (n.move view move) := by
  have hp : Processed view n sender request (n.move view move) := processed_move hm
  generalize n.move view move = r at hp ⊢
  cases hp with
  | carriedOut h =>
    obtain ⟨ha, hn, hs⟩ := after_carryOut sender request
    exact .carried hm h ha hn hs
  | deferred h => exact .plain (.deferred hm h) (.refl n)
  | declined h hc => exact .plain (.declined (.inl hm) h hc) (.refl n)

theorem plain_each_writeNear (version : WriteVersion) (es : List NearEntry) : ∀ n : Node,
    AfterPlain n
        (each (fun n (e : NearEntry) => n.writeNear e.key e.value version e.ttl) n es).1 ∧
      ∀ e ∈ (each (fun n (e : NearEntry) => n.writeNear e.key e.value version e.ttl) n es).2,
        ∃ key value version ttl, e = .nearWritten key value version ttl := by
  induction es with
  | nil =>
    intro n
    refine ⟨.refl n, fun e he => ?_⟩
    simp [each] at he
  | cons e es ih =>
    intro n
    obtain ⟨h₂, he⟩ := ih (n.writeNear e.key e.value version e.ttl).1
    obtain ⟨h₁, he₁⟩ : AfterPlain n (n.writeNear e.key e.value version e.ttl).1 ∧
        ∀ x ∈ (n.writeNear e.key e.value version e.ttl).2,
          ∃ key value version ttl, x = .nearWritten key value version ttl := by
      cases hn : n.nearCache with
      | none =>
        simp only [writeNear, hn]
        exact ⟨.refl n, by simp⟩
      | some near =>
        simp only [writeNear, hn]
        exact ⟨⟨rfl, rfl, rfl, rfl, rfl, rfl, rfl, by rw [hn]; rfl⟩, by simp⟩
    refine ⟨⟨h₂.registry.trans h₁.registry, h₂.nextFuture.trans h₁.nextFuture,
      h₂.versions.trans h₁.versions, h₂.site.trans h₁.site, h₂.processors.trans h₁.processors,
      h₂.submissions.trans h₁.submissions, h₂.fanouts.trans h₁.fanouts,
      h₂.nearCache.trans h₁.nearCache⟩, fun x hx => ?_⟩
    rcases List.mem_append.1 hx with hx | hx
    · exact he₁ x hx
    · exact he x hx

/-- The store of a backup that repeats the outcome of an update. -/
def backedUp (n : Node) (r : BackupRequest) : Store :=
  r.entries.foldl (fun s e => s.applyBackup r.partition e r.writeVersion) n.store

def acknowledgement (n : Node) (r : BackupRequest) : UpdateResponse :=
  .plain ⟨n.site.cacheId, r.partition, r.future⟩ n.id

theorem plain_backUp (sender : NodeId) (r : BackupRequest) :
    AfterPlain n (n.backUp view sender r).1 := by
  obtain ⟨h, -⟩ := plain_each_writeNear r.writeVersion r.nearEntries
    { n with store := n.backedUp r }
  exact ⟨h.registry, h.nextFuture, h.versions, h.site, h.processors, h.submissions, h.fanouts,
    h.nearCache⟩

theorem effects_backUp (sender : NodeId) (r : BackupRequest) :
    ∃ near : List Effect, (∀ e ∈ near, ∃ key value version ttl, e = .nearWritten key value version ttl) ∧
      (n.backUp view sender r).2 =
        near ++ transmission view sender (.updateResponse (n.acknowledgement r)) ::
          (if r.flags.nearReply then
            [transmission view r.nearNode (.backupNotice (r.notice n.site sender))]
          else []) := by
  obtain ⟨h, he⟩ := plain_each_writeNear r.writeVersion r.nearEntries
    { n with store := n.backedUp r }
  refine ⟨_, he, ?_⟩
  have hs := h.site
  unfold backUp acknowledgement Node.id
  simp only [backedUp] at hs
  simp only [hs]
  rfl

/-- A backup writes to its near cache, acknowledges, and tells the caller's node if it is to. -/
theorem mem_effects_backUp {sender : NodeId} {r : BackupRequest} {e : Effect}
    (he : e ∈ (n.backUp view sender r).2) :
    (∃ key value version ttl, e = .nearWritten key value version ttl) ∨
      e = transmission view sender (.updateResponse (n.acknowledgement r)) ∨
      r.flags.nearReply = true ∧
        e = transmission view r.nearNode (.backupNotice (r.notice n.site sender)) := by
  obtain ⟨near, hnear, hes⟩ := @effects_backUp view n sender r
  rw [hes, List.mem_append, List.mem_cons] at he
  rcases he with he | he | he
  · exact .inl (hnear e he)
  · exact .inr (.inl he)
  · split at he
    next hf => exact .inr (.inr ⟨hf, List.mem_singleton.1 he⟩)
    next => cases he

theorem turn_quiet {move : Move} (hm : n.move view move = (n, [])) : Turn view n move (n.move view move) := by
  rw [hm]
  exact .plain .quiet (.refl n)

/-- A move that is for the submission `h`, if there still is one. -/
theorem turn_onSubmission {move : Move} {h : Handle}
    {f : Submission → Submission × List SubmissionAction}
    (hm : n.move view move = n.onSubmission view h f)
    (ht : ∀ c, n.submissions.get? h = some c → SubmissionTurn view n move h c (f c)) :
    Turn view n move (n.move view move) := by
  cases hs : n.submissions.get? h with
  | none => exact turn_quiet (by simp [hm, onSubmission, hs])
  | some c => exact .submission (ht c hs) (submission_move (ht c hs))

/-- A message that is for the submission whose attempt has the number `id`, if there is one. -/
theorem turn_submissionAt? {move : Move} {id : FutureId}
    {f : Submission → Submission × List SubmissionAction}
    (hm : n.move view move = match n.submissionAt? id with
      | some h => n.onSubmission view h f
      | none => (n, []))
    (ht : ∀ h c, n.registry.get? id = some (.submission h) → n.submissions.get? h = some c →
      SubmissionTurn view n move h c (f c)) : Turn view n move (n.move view move) := by
  cases hr : n.submissionAt? id with
  | none => exact turn_quiet (by rw [hm, hr])
  | some h => exact turn_onSubmission (by rw [hm, hr]) (ht h · (of_submissionAt? hr))

/-- A move that tells the fan-out with the number `id`, if there still is one, of the node `o`. -/
theorem turn_onFanout {move : Move} {id : FutureId} {o : NodeId} {lost : Bool}
    (hm : n.move view move = n.onFanout view id fun f =>
      ((f.register n.site o lost).1, (f.register n.site o lost).2.1))
    (hk : ∀ f, n.fanouts.get? id = some f → Acknowledges n move id f o lost) :
    Turn view n move (n.move view move) := by
  cases hf : n.fanouts.get? id with
  | none => exact turn_quiet (by simp [hm, onFanout, hf])
  | some f =>
    obtain ⟨ha, hn, hs⟩ := acknowledged_move (hk f hf)
    exact .acknowledged (hk f hf) ha hn hs

theorem turn_updateResponse {sender : NodeId} {r : UpdateResponse}
    (hc : r.cacheId = n.site.cacheId) : Turn view n (.receive sender (.updateResponse r))
      (n.move view (.receive sender (.updateResponse r))) := by
  cases hr : n.registry.get? r.future with
  | none => exact turn_quiet (by simp [Node.move, receive, Message.envelope, hc, hr])
  | some who =>
    cases who with
    | submission h =>
      exact turn_onSubmission (by simp [Node.move, receive, Message.envelope, hc, hr])
        fun c hs => .answer hc hr hs
    | fanout =>
      exact turn_onFanout (by simp [Node.move, receive, Message.envelope, hc, hr])
        fun f hf => .answer hc hr hf

theorem turn_receive (sender : NodeId) (m : Message) :
    Turn view n (.receive sender m) (n.move view (.receive sender m)) := by
  by_cases hc : m.envelope.cacheId = n.site.cacheId
  · cases m with
    | updateRequest r => exact turn_of_brings (.received hc)
    | backupRequest r =>
      have : n.move view (.receive sender (.backupRequest r)) = n.backUp view sender r := by
        simp [Node.move, receive, hc]
      rw [this]
      exact .plain (.backedUp hc) (plain_backUp sender r)
    | checkRequest r =>
      have : n.move view (.receive sender (.checkRequest r)) = (n, n.confirm view sender r) := by
        simp [Node.move, receive, hc]
      rw [this]
      exact .plain (.confirmed hc) (.refl n)
    | updateResponse r => exact turn_updateResponse hc
    | mappingNotice r =>
      exact turn_submissionAt? (if_neg (not_not_intro hc)) fun h c hr hs => .mapping hc hr hs
    | backupNotice r =>
      exact turn_submissionAt? (if_neg (not_not_intro hc)) fun h c hr hs => .notice hc hr hs
  · exact turn_quiet (by simp [Node.move, receive, hc])

/-- A move hands an event to one coordinator, or to none. -/
theorem turn_move (move : Move) : Turn view n move (n.move view move) := by
  cases move with
  | submit u =>
    cases hu : u.fault? with
    | some e => exact turn_quiet (by simp [Node.move, submit, hu])
    | none =>
      exact .submission (.submit hu rfl) (submission_move (.submit hu rfl))
  | receive sender m => exact turn_receive sender m
  | resume task awaited =>
    cases task with
    | remap h =>
      cases hs : n.submissions.get? h with
      | none => exact turn_quiet (by simp [Node.move, resume, onMapping, hs])
      | some c =>
        exact .submission (.resume hs awaited) (submission_move (.resume hs awaited))
    | process sender request =>
      cases awaited with
      | ok v => exact turn_of_brings (.resumed v)
      | error e =>
        exact .plain (.declined (.inr ⟨e, rfl⟩) ⟨rfl, fun _ => .inl rfl⟩ rfl) (.refl n)
  | lose gone r =>
    obtain ⟨id, who⟩ := r
    cases who with
    | submission h => exact turn_onSubmission rfl fun c hs => .departure hs gone
    | fanout => exact turn_onFanout rfl fun f hf => .departure hf gone
  | watch key reader => exact .plain .quiet ⟨rfl, rfl, rfl, rfl, rfl, rfl, rfl, rfl⟩
  | refuse key cause => exact .plain .quiet ⟨rfl, rfl, rfl, rfl, rfl, rfl, rfl, rfl⟩

/-! ## Messages -/

section

variable {h : Handle} {near : Bool}

theorem message?_transmission (receiver : NodeId) (m : Message) :
    (transmission view receiver m).message? = some (receiver, m) := by
  unfold transmission
  split <;> rfl

/-- The messages that actions send can be seen. -/
theorem messages_effects (as : List SubmissionAction) :
    (as.flatMap (SubmissionAction.effects view h near)).filterMap Effect.message? =
      as.filterMap SubmissionAction.message? := by
  have ha (a : SubmissionAction) :
      (a.effects view h near).filterMap Effect.message? = a.message?.toList := by
    cases a with
    | send receiver m =>
      rw [SubmissionAction.effects, List.filterMap_cons, message?_transmission]
      rfl
    | writeNear key value version ttl => cases near <;> rfl
    | _ => rfl
  induction as with
  | nil => rfl
  | cons a as ih =>
    rw [List.flatMap_cons, List.filterMap_append, ha, ih, List.filterMap_cons]
    cases a.message? <;> rfl

theorem message_of_fanout {as : List FanoutAction} {x : NodeId × Message}
    (hx : x ∈ (as.flatMap (FanoutAction.effects view)).filterMap Effect.message?) :
    .send x.1 x.2 ∈ as ∨ ∃ r, x.2 = .updateResponse r := by
  obtain ⟨e, he, hx⟩ := List.mem_filterMap.1 hx
  obtain ⟨a, ha, he⟩ := List.mem_flatMap.1 he
  cases a with
  | send receiver m =>
    cases List.mem_singleton.1 he
    cases (message?_transmission receiver m).symm.trans hx
    exact .inl ha
  | reply route r =>
    cases route with
    | node receiver =>
      cases List.mem_singleton.1 he
      cases (message?_transmission receiver _).symm.trans hx
      exact .inr ⟨r, rfl⟩
    | nobody => cases he
    | label name =>
      cases List.mem_singleton.1 he
      cases hx
  | notify listener success =>
    cases List.mem_singleton.1 he
    cases hx
  | enlist id => cases he
  | retire id => cases he

/-- A node that no coordinator tells to sends answers and notices, and nothing else. -/
theorem message_of_plain {move : Move} {es : List Effect} (hp : PlainTurn view n move es)
    {x : NodeId × Message} (hx : x ∈ es.filterMap Effect.message?) :
    (∃ r, x.2 = .updateResponse r) ∨ ∃ b, x.2 = .backupNotice b := by
  have hsent {receiver : NodeId} {m : Message}
      (hx : (transmission view receiver m).message? = some x) : x.2 = m := by
    rw [message?_transmission] at hx
    cases hx
    rfl
  obtain ⟨e, he, hx⟩ := List.mem_filterMap.1 hx
  cases hp with
  | quiet => cases he
  | declined hm hd hc =>
    cases List.mem_singleton.1 he
    exact .inl ⟨_, hsent hx⟩
  | deferred hm hd =>
    cases List.mem_singleton.1 he
    cases hx
  | confirmed hc =>
    cases List.mem_singleton.1 he
    exact .inl ⟨_, hsent hx⟩
  | backedUp hc =>
    rcases mem_effects_backUp he with ⟨_, _, _, _, rfl⟩ | rfl | ⟨-, rfl⟩
    · cases hx
    · exact .inl ⟨_, hsent hx⟩
    · exact .inr ⟨_, hsent hx⟩

end

end Node

end AtomicGrid
