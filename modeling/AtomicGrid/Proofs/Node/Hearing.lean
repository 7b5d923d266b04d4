import AtomicGrid.Proofs.Node.Coherent

/-!
# What a submission hears

A move is about a number if it brings news for it.  If the number is that of a submission's current
attempt, the attempt hears the news, or they end it; other submissions do not notice.

## Results

* `Node.treats_turn`: what the turn of a submission is.
* `Node.dealt_move`: what a move is to the submissions of a node.
-/

set_option autoImplicit false

namespace AtomicGrid

/-- The number for which the move brings news. -/
def Move.about? : Move → Option FutureId
  | .receive _ (.updateResponse r) => some r.future
  | .receive _ (.mappingNotice m) => some m.future
  | .receive _ (.backupNotice m) => some m.future
  | .lose _ r => some r.1
  | _ => none

/-- The news for an attempt.  The answer of a primary that did not carry the update out is none. -/
def Move.news? : Move → Option News
  | .receive _ (.updateResponse r) =>
    if r.hasError || r.needsRemap then none else some (.answer r.mapping)
  | .receive _ (.mappingNotice m) => some (.mapping m.mapping)
  | .receive sender (.backupNotice m) => some (.notice sender m)
  | .lose gone _ => some (.departure gone)
  | _ => none

/-- The news for an attempt are from those it waits for. -/
structure Move.Concerns (move : Move) (a : Attempt) : Prop where
  answer : ∀ sender r, move = .receive sender (.updateResponse r) → a.primary = sender
  notice : ∀ sender m, move = .receive sender (.backupNotice m) → a.primary = m.primary

namespace Submission

/-- What a submission makes of news for its current attempt `a`. -/
inductive Heeds (c : Submission) (a : Attempt) (move : Move)
    (x : Submission × List SubmissionAction) : Prop
  | ended (ho : Over c x)
  | ignored (hx : x = (c, []))
      (hc : move.Concerns a → a.responded = true ∧ move.news? = none)
  | heard {e : News} {ret : Option UpdateReturn} (he : move.news? = some e)
      (hx : Follows c (a.hear e).1 ret (a.hear e).2 x)
      (answered : ∀ sender r, move = .receive sender (.updateResponse r) →
        (a.hear e).1.responded = true ∧ (a.responded = false → ret = c.retWith r))
      (lost : ∀ r, move = .lose a.primary r → a.responded = true)

variable {c : Submission} {a : Attempt} {id : FutureId} {site : Site} {view : View}

theorem heeds_answer (hd : c.isDone = false) (hf : c.future = some id) (ha : c.attempt = some a)
    {sender : NodeId} {r : UpdateResponse} (hr : r.future = id) :
    c.Heeds a (.receive sender (.updateResponse r)) (c.onResponse site view sender r false) := by
  have hother (hw : ¬ c.Awaits a sender r) :
      c.onResponse site view sender r false = (c, []) :=
    onResponse_other (fun a' hw' => hw
      (Option.some_inj.1 (hw'.attempt.symm.trans ha) ▸ hw')) false
  by_cases hneg : r.hasError = true ∨ r.needsRemap = true
  · by_cases hw : c.Awaits a sender r
    · exact .ended (onResponse_over hd hw hneg false)
    · refine .ignored (hother hw) fun hc => ⟨?_, ?_⟩
      · rw [← Bool.not_eq_false]
        exact fun h => hw ⟨ha, hr ▸ hf, hc.answer _ _ rfl, h⟩
      · exact if_pos (by simpa using hneg)
  · have hpos : r.hasError = false ∧ r.needsRemap = false := by simpa using hneg
    have hnews : (Move.receive sender (.updateResponse r)).news? = some (.answer r.mapping) :=
      if_neg (by simpa using hneg)
    by_cases hw : c.Awaits a sender r
    · refine .heard hnews (onResponse_of hd hw hpos.1 hpos.2 false) (fun s r' he => ?_)
        (fun r' he => nomatch he)
      cases he
      exact ⟨by simp [Attempt.responded_hear, News.answers], fun _ => rfl⟩
    · cases hresp : a.responded with
      | false =>
        refine .ignored (hother hw) fun hc => ?_
        exact absurd ⟨ha, hr ▸ hf, hc.answer _ _ rfl, hresp⟩ hw
      | true =>
        have hhear : a.hear (.answer r.mapping) = (a, .pending) := by
          simp [Attempt.hear, hresp]
        have hc : ({ c with attempt := some a, ret := c.ret } : Submission) = c := by
          rw [← ha]
        have hfol : c.Follows a c.ret .pending (c, []) := by
          have := @Follows.pending c a c.ret
          rwa [hc] at this
        refine @Heeds.heard _ _ _ _ _ c.ret hnews ?_
          (fun s r' he => ⟨by simp [Attempt.responded_hear, News.answers], fun h => ?_⟩) (fun r' he => nomatch he)
        · rwa [hhear, hother hw]
        · exact absurd h (by simp [hresp])

theorem heeds_mapping (hd : c.isDone = false) (hf : c.future = some id) (ha : c.attempt = some a)
    {sender : NodeId} {m : MappingNotice} (hm : m.future = id) :
    c.Heeds a (.receive sender (.mappingNotice m)) (c.onMapping m) :=
  .heard rfl (onMapping_of hd ha (hm ▸ hf)) (fun _ _ he => nomatch he) (fun _ he => nomatch he)

theorem heeds_notice (hd : c.isDone = false) (hf : c.future = some id) (ha : c.attempt = some a)
    {sender : NodeId} {m : BackupNotice} (hm : m.future = id) :
    c.Heeds a (.receive sender (.backupNotice m)) (c.onNotice sender m) := by
  by_cases hp : a.primary = m.primary
  · exact .heard rfl (onNotice_of hd ha (hm ▸ hf) hp) (fun _ _ he => nomatch he)
      (fun _ he => nomatch he)
  · refine .ignored (onNotice_other (.inr fun a' ha' => ?_)) fun hc => absurd (hc.notice _ _ rfl) hp
    rw [ha, Option.some_inj] at ha'
    exact ha' ▸ hp

theorem heeds_departure (hd : c.isDone = false) (hf : c.future = some id) (ha : c.attempt = some a)
    (hreq : a.request.future = id) (hk : a.request.keys ≠ []) (gone : NodeId) (who : Registered) :
    c.Heeds a (.lose gone (id, who)) (c.onDeparture site view gone) := by
  cases hp : a.awaitsPrimary gone with
  | false =>
    refine .heard rfl (onDeparture_of hd ha hp) (fun _ _ he => nomatch he) fun r he => ?_
    cases he
    simpa [Attempt.awaitsPrimary] using hp
  | true =>
    let r := unanswered site a.request gone (.nodeDeparted gone)
    have he : c.onDeparture site view gone = c.onResponse site view gone r true := by
      simp [onDeparture, ha, hp, r]
    obtain ⟨hprim, hresp⟩ := awaitsPrimary_iff.1 hp
    have hw : c.Awaits a gone r := ⟨ha, hreq ▸ hf, hprim, hresp⟩
    rw [he]
    exact .ended (onResponse_over hd hw
      (.inl (UpdateResponse.hasError_addFailedKeys _ hk _)) true)

end Submission

namespace Node

open Submission (Heeds Mapped)

variable {n : Node} {waiting : Handle → Nat} {view : View} {move : Move}

/-- The current attempts are about the numbers of their submissions. -/
def Numbered (n : Node) : Prop :=
  ∀ h c id a, n.submissions.get? h = some c → c.future = some id → c.attempt = some a →
    a.request.future = id ∧ a.request.keys ≠ []

/-- What the turn of a submission is: it is mapped, the first time or again, or its current attempt
hears something. -/
inductive Treats (view : View) (n : Node) (move : Move) (h : Handle) (c : Submission)
    (x : Submission × List SubmissionAction) : Prop
  | mapped (hm : move.maps = true) (hf : c.future = none) (ha : c.attempt = none)
      (hx : Mapped n.site view c n.nextFuture x)
  | heard {id : FutureId} {a : Attempt} (hs : n.submissions.get? h = some c)
      (hd : c.isDone = false) (hf : c.future = some id) (ha : c.attempt = some a)
      (hi : move.about? = some id) (hx : c.Heeds a move x)

theorem treats_turn {h : Handle} {c : Submission} {x : Submission × List SubmissionAction}
    (hc : n.Coherent waiting) (hn : n.Numbered) (hdue : n.Due waiting move)
    (ht : SubmissionTurn view n move h c x) : Treats view n move h c x := by
  cases ht with
  | submit hu hcs =>
    subst hcs
    exact .mapped rfl rfl rfl (Submission.mapped_mapOn rfl rfl _)
  | resume hs awaited =>
    obtain ⟨-, hf, ha⟩ := hc.parked hs hdue
    exact .mapped rfl hf ha (Submission.mapped_resume hf ha _ awaited)
  | answer hi hr hs =>
    obtain ⟨hd, hf, ⟨a, ha⟩, -⟩ := hc.current hr hs
    exact .heard hs hd hf ha rfl (Submission.heeds_answer hd hf ha rfl)
  | mapping hi hr hs =>
    obtain ⟨hd, hf, ⟨a, ha⟩, -⟩ := hc.current hr hs
    exact .heard hs hd hf ha rfl (Submission.heeds_mapping hd hf ha rfl)
  | notice hi hr hs =>
    obtain ⟨hd, hf, ⟨a, ha⟩, -⟩ := hc.current hr hs
    exact .heard hs hd hf ha rfl (Submission.heeds_notice hd hf ha rfl)
  | departure hs gone =>
    obtain ⟨hd, hf, ⟨a, ha⟩, -⟩ := hc.current hdue hs
    obtain ⟨hreq, hk⟩ := hn h c _ a hs hf ha
    exact .heard hs hd hf ha rfl (Submission.heeds_departure hd hf ha hreq hk gone _)

/-- What a move is to the submissions of a node. -/
inductive Dealt (view : View) (n : Node) (move : Move) : Prop
  | noticed {h : Handle} {c : Submission} {x : Submission × List SubmissionAction}
      (ht : SubmissionTurn view n move h c x) (hx : Treats view n move h c x)
  /-- No submission notices. -/
  | unnoticed (hs : (n.move view move).1.submissions = n.submissions)
      (hi : (∀ s m, move = .receive s m → m.envelope.cacheId = n.site.cacheId) →
        ∀ id h, move.about? = some id → n.registry.get? id ≠ some (.submission h))

/-- News for the number of a submission make it that submission's turn. -/
theorem turn_about (hc : n.Coherent waiting) {id : FutureId} {h : Handle}
    (hi : move.about? = some id) (hr : n.registry.get? id = some (.submission h))
    (hcache : ∀ s m, move = .receive s m → m.envelope.cacheId = n.site.cacheId)
    (hdue : n.Due waiting move) : ∃ c x, SubmissionTurn view n move h c x := by
  obtain ⟨c, hs, hf⟩ := (hc.submission id h).1 hr
  cases move with
  | receive sender m =>
    have hm := hcache _ _ rfl
    cases m with
    | updateResponse r =>
      cases hi
      exact ⟨c, _, .answer hm hr hs⟩
    | mappingNotice m =>
      cases hi
      exact ⟨c, _, .mapping hm hr hs⟩
    | backupNotice m =>
      cases hi
      exact ⟨c, _, .notice hm hr hs⟩
    | _ => cases hi
  | lose gone r =>
    obtain ⟨id', who⟩ := r
    cases hi
    cases Option.some_inj.1 (hr.symm.trans hdue)
    exact ⟨c, _, .departure hs gone⟩
  | _ => cases hi

theorem dealt_move (hc : n.Coherent waiting) (hn : n.Numbered) (hdue : n.Due waiting move) :
    Dealt view n move := by
  by_cases hab : ∃ id h, move.about? = some id ∧ n.registry.get? id = some (.submission h) ∧
      ∀ s m, move = .receive s m → m.envelope.cacheId = n.site.cacheId
  · obtain ⟨id, h, hi, hr, hcache⟩ := hab
    obtain ⟨c, x, ht⟩ := @turn_about n waiting view move hc id h hi hr hcache hdue
    exact .noticed ht (treats_turn hc hn hdue ht)
  · have hnone (hs : (n.move view move).1.submissions = n.submissions) : Dealt view n move :=
      .unnoticed hs fun hcache id h hi hr => hab ⟨id, h, hi, hr, hcache⟩
    have ht : n.Turn view move (n.move view move) := turn_move move
    cases ht with
    | submission ht ha => exact .noticed ht (treats_turn hc hn hdue ht)
    | carried hm hco ha hn hst => exact hnone ha.submissions
    | acknowledged hk ha hn hst => exact hnone ha.submissions
    | plain ht ha => exact hnone ha.submissions

end Node

end AtomicGrid
