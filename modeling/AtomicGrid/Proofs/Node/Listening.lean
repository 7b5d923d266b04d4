import AtomicGrid.Proofs.Grid.Origins
import AtomicGrid.Proofs.Node.Life

/-!
# Callers that listen

A caller that goes on listening finds the result of its update once there is one.  While a node only
reads messages and hears of departures, no submission comes in, and none but those that were not done
before can be without a result.

## Results

* `Node.isSome_result?`: the result of a submission is there if, and only if, it is done.
* `Node.pending_move`: which submissions of a node may be without a result.
* `Node.nextFuture_receive`, `Node.versions_receive`: what a message changes of the counters.
-/

set_option autoImplicit false

namespace AtomicGrid

/-- The caller listens, and finds the result once there is one. -/
structure Submission.Heard (c : Submission) : Prop where
  opened : c.result.open? = true
  waiting : c.result.waiting.isSome = c.isDone

theorem Submission.Heard.of_same {c c' : Submission} (h : c.Heard) (hr : c'.result = c.result) :
    c'.Heard where
  opened := hr ▸ h.opened
  waiting := by
    rw [isDone, hr]
    exact h.waiting

theorem Submission.Heard.of_complete {c c' : Submission} (h : c.Heard)
    {r : Except CacheError UpdateOutcome} (hr : c'.result = (c.result.complete r).1) : c'.Heard := by
  unfold Latch.complete at hr
  split at hr
  next => exact h.of_same hr
  next =>
    refine ⟨hr ▸ h.opened, ?_⟩
    rw [isDone, hr]
    simp [h.opened]

namespace Node

variable {view : View} {n : Node} {move : Move} {waiting : Handle → Nat}

/-- All callers of the node listen. -/
def Heeded (n : Node) : Prop := ∀ h c, n.submissions.get? h = some c → c.Heard

theorem heeded_move (hl : n.Heeded) (hc : n.Coherent waiting) (hdue : n.Due waiting move) :
    (n.move view move).1.Heeded := by
  intro h c hs
  have ht : n.Turn view move (n.move view move) := turn_move move
  cases ht with
  | @submission h' c' x ht ha =>
    have hbefore : c'.Heard := by
      cases ht with
      | submit hu hstart =>
        subst hstart
        exact ⟨rfl, rfl⟩
      | resume hs => exact hl _ _ hs
      | answer _ _ hs => exact hl _ _ hs
      | mapping _ _ hs => exact hl _ _ hs
      | notice _ _ hs => exact hl _ _ hs
      | departure hs => exact hl _ _ hs
    rw [ha.submissions, SortedMap.get?_insert_ite] at hs
    split at hs
    next =>
      cases hs
      rcases result_fares (fares_turn hc hdue ht) with hr | ⟨r, hr⟩
      · exact hbefore.of_same hr
      · exact hbefore.of_complete hr
    next => exact hl h c hs
  | carried hb hco ha => exact hl h c (ha.submissions ▸ hs)
  | acknowledged hk ha => exact hl h c (ha.submissions ▸ hs)
  | plain ht ha => exact hl h c (ha.submissions ▸ hs)

/-- The result of a submission is there if, and only if, it is done. -/
theorem isSome_result? (hl : n.Heeded) {h : Handle} {c : Submission}
    (hs : n.submissions.get? h = some c) : (n.result? h).isSome = c.isDone := by
  rw [result?, hs]
  exact (hl h c hs).waiting

/-- Only the submissions under the handles `P` may be without a result. -/
def Pending (P : Handle → Prop) (n : Node) : Prop :=
  ∀ h c, n.submissions.get? h = some c → c.isDone = true ∨ P h

theorem Pending.mono {P P' : Handle → Prop} (h : n.Pending P) (hp : ∀ h, P h → P' h) :
    n.Pending P' :=
  fun k c hs => (h k c hs).imp_right (hp k)

theorem pending_move {P : Handle → Prop} (hp : n.Pending P) (hc : n.Coherent waiting)
    (hdue : n.Due waiting move) (hroom : n.versions.issued.toNat + 1 < UInt64.size)
    (hm : move.submits = true → P (n.versions.issued + 1)) : (n.move view move).1.Pending P := by
  intro h c hs
  have ht : n.Turn view move (n.move view move) := turn_move move
  cases ht with
  | @submission h' c' x ht ha =>
    rw [ha.submissions, SortedMap.get?_insert_ite] at hs
    split at hs
    next he =>
      subst he
      have known (hk : n.submissions.get? h = some c') : P h :=
        (hp h c' hk).resolve_left fun hd => not_turn_of_isDone hc hdue hroom hk hd ht
      refine .inr ?_
      cases ht with
      | submit => exact hm rfl
      | resume hk => exact known hk
      | answer _ _ hk => exact known hk
      | mapping _ _ hk => exact known hk
      | notice _ _ hk => exact known hk
      | departure hk => exact known hk
    next => exact hp h c hs
  | carried hb hco ha => exact hp h c (ha.submissions ▸ hs)
  | acknowledged hk ha => exact hp h c (ha.submissions ▸ hs)
  | plain ht ha => exact hp h c (ha.submissions ▸ hs)

/-! ## What a message changes -/

/-- A number is given to a request that comes in, and for no other message. -/
theorem nextFuture_receive (sender : NodeId) (m : Message) :
    (n.move view (.receive sender m)).1.nextFuture = n.nextFuture ∨
      (∃ q, m = .updateRequest q) ∧
        (n.move view (.receive sender m)).1.nextFuture = n.nextFuture + 1 := by
  have ht : n.Turn view _ (n.move view (.receive sender m)) := turn_receive sender m
  cases ht with
  | submission ht ha => exact .inl ha.nextFuture
  | carried hb hc ha hn =>
    cases hb with
    | received => exact .inr ⟨⟨_, rfl⟩, hn⟩
  | acknowledged hk ha hn => exact .inl hn
  | plain ht ha => exact .inl ha.nextFuture

theorem versions_receive (sender : NodeId) (m : Message) :
    (n.move view (.receive sender m)).1.versions = n.versions := by
  have ht : n.Turn view _ (n.move view (.receive sender m)) := turn_receive sender m
  cases ht with
  | submission ht ha => exact ha.versions
  | carried hb hc ha => exact ha.versions
  | acknowledged hk ha => exact ha.versions
  | plain ht ha => exact ha.versions

/-- Messages are sent to nodes that can be reached. -/
theorem reaches_of_sent {r : NodeId} {m : Message} (hs : .sent r m ∈ (n.move view move).2) :
    view.reaches r = true := by
  have htransmission {r' : NodeId} {m' : Message} (h : Effect.sent r m = transmission view r' m') :
      view.reaches r = true := by
    unfold transmission at h
    split at h
    next hr =>
      cases h
      exact hr
    next => cases h
  have ht : n.Turn view move (n.move view move) := turn_move move
  generalize n.move view move = x at ht hs
  cases ht with
  | submission ht ha => exact (sent_of_submission (ha.effects ▸ hs)).2
  | carried hb hc ha => exact (sent_of_fanout (ha.effects ▸ hs)).1
  | acknowledged hk ha => exact (sent_of_fanout (ha.effects ▸ hs)).1
  | plain ht ha =>
    generalize x.2 = es at ht hs
    cases ht with
    | quiet => cases hs
    | declined => exact htransmission (List.mem_singleton.1 hs)
    | deferred => cases List.mem_singleton.1 hs
    | confirmed => exact htransmission (List.mem_singleton.1 hs)
    | backedUp hc =>
      rcases mem_effects_backUp hs with ⟨_, _, _, _, h⟩ | h | ⟨-, h⟩
      · cases h
      · exact htransmission h
      · exact htransmission h

end Node

end AtomicGrid
