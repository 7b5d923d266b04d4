import AtomicGrid.Proofs.Node.Hearing
import AtomicGrid.Proofs.Node.Life

/-!
# Messages that change nothing

Answers and notices can be late, go astray, or come more than once.  A message is `Unheeded` if it is
for a number that belongs to nobody, or from somebody from whom it is not wanted.  One that was
heeded is not heeded again: either its number is gone, or its coordinator remembers what it heard.

## Results

* `Attempt.onMapping_again`, `Attempt.onNotice_again`: news that an attempt has heard.
* `Submission.hear_again`, `Fanout.register_again`: the same for coordinators.
* `Node.receive_unheeded`: an unheeded message changes nothing.
* `Node.receive_again`: a message changes nothing the second time.
* `Solo.receive_run`: both, after any events.
-/

set_option autoImplicit false

namespace AtomicGrid

/-! ## Attempts -/

namespace Attempt

/-- The three ways progress goes: only one that asks the primary changes the attempt. -/
theorem progress_cases (a : Attempt) (afterLoss : Bool) :
    a.progress afterLoss = (a, .finished) ∨ a.progress afterLoss = (a, .pending) ∨
      a.hasResult = false ∧
        a.progress afterLoss = ({ a with checkSent := true }, .unconfirmed) := by
  unfold progress
  split
  · split
    · split
      · exact .inl rfl
      · rename_i hr
        rw [Bool.not_eq_true] at hr
        split
        · exact .inr (.inr ⟨hr, rfl⟩)
        · exact .inr (.inl rfl)
    · exact .inr (.inl rfl)
  · exact .inr (.inl rfl)

/-- An attempt that has asked the primary does not ask again. -/
theorem progress_asked {a : Attempt} (hr : a.hasResult = false) (afterLoss : Bool) :
    ({ a with checkSent := true } : Attempt).progress afterLoss =
      ({ a with checkSent := true }, .pending) := by
  unfold progress
  cases hw : a.awaited with
  | none => rfl
  | some awaited => simp [hr]

theorem progress_again {a : Attempt} {afterLoss : Bool}
    (h : (a.progress afterLoss).2 ≠ .finished) :
    (a.progress afterLoss).1.progress afterLoss = ((a.progress afterLoss).1, .pending) := by
  rcases progress_cases a afterLoss with hp | hp | ⟨hr, hp⟩
  · rw [hp] at h
    exact absurd rfl h
  · rw [hp]
    exact hp
  · rw [hp]
    exact progress_asked hr afterLoss

theorem onMapping_again {a : Attempt} {nodes : List NodeId}
    (h : (a.onMapping nodes).2 ≠ .finished) :
    (a.onMapping nodes).1.onMapping nodes = ((a.onMapping nodes).1, .pending) := by
  have hl : (a.onMapping nodes).1.learn nodes = (a.onMapping nodes).1 := by
    have hw := awaited_learn_eq a nodes
    rw [← progress_awaited (a.learn nodes) false] at hw
    exact awaited_learn hw nodes
  have hp := progress_again h
  rw [onMapping, hl]
  exact hp

/-- The attempt with all that a notice tells, but for where it stands now. -/
def noted (a : Attempt) (sender : NodeId) (m : BackupNotice) : Attempt :=
  ((if m.result?.isSome then { a with hasResult := true } else a).learn m.mapping).crossOff
    (m.about sender)

theorem onNotice_eq (a : Attempt) (sender : NodeId) (m : BackupNotice) :
    a.onNotice sender m = (a.noted sender m).progress m.failedNode.isSome := rfl

/-- An attempt knows what a notice tells. -/
structure Notes (a : Attempt) (sender : NodeId) (m : BackupNotice) : Prop where
  hasResult : m.result?.isSome = true → a.hasResult = true
  awaited : ∃ w, a.awaited = some w ∧ w.erase (m.about sender) = w
  received : a.received.add (m.about sender) = a.received

variable {a : Attempt} {sender : NodeId} {m : BackupNotice}

theorem notes_noted (a : Attempt) (sender : NodeId) (m : BackupNotice) :
    (a.noted sender m).Notes sender m := by
  let b : Attempt := if m.result?.isSome then { a with hasResult := true } else a
  have hs := learn_sameButAwaited b m.mapping
  constructor
  · intro hr
    have hb : b.hasResult = true := by simp [b, hr]
    exact hs.hasResult.trans hb
  · have he : (a.noted sender m).awaited =
        (b.learn m.mapping).awaited.map (·.erase (m.about sender)) := rfl
    rw [he, awaited_learn_eq, Option.map_some]
    exact ⟨_, rfl, SortedMap.erase_erase _ _⟩
  · exact SortedMap.insert_insert _ _ _ _

theorem Notes.progress (h : a.Notes sender m) (afterLoss : Bool) :
    (a.progress afterLoss).1.Notes sender m where
  hasResult := by
    rw [progress_hasResult]
    exact h.hasResult
  awaited := by
    rw [progress_awaited]
    exact h.awaited
  received := by
    rw [progress_received]
    exact h.received

theorem Notes.noted_eq (h : a.Notes sender m) : a.noted sender m = a := by
  obtain ⟨w, hw, he⟩ := h.awaited
  have hr : (if m.result?.isSome then { a with hasResult := true } else a) = a := by
    split
    next hr => rw [← h.hasResult hr]
    next => rfl
  rw [noted, hr, awaited_learn hw, crossOff, h.received, hw, Option.map_some, he, ← hw]

theorem onNotice_again (h : (a.onNotice sender m).2 ≠ .finished) :
    (a.onNotice sender m).1.onNotice sender m = ((a.onNotice sender m).1, .pending) := by
  have hn := ((notes_noted a sender m).progress m.failedNode.isSome).noted_eq
  rw [onNotice_eq] at h ⊢
  rw [onNotice_eq, hn]
  exact progress_again h

theorem primary_onNotice (a : Attempt) (sender : NodeId) (m : BackupNotice) :
    (a.onNotice sender m).1.primary = a.primary := by
  rw [onNotice_eq, progress_primary]
  refine (learn_sameButAwaited _ m.mapping).primary.trans ?_
  split <;> rfl

end Attempt

/-! ## Coordinators -/

/-- The message is an answer or a notice. -/
def Message.isReply : Message → Bool
  | .updateResponse _ | .mappingNotice _ | .backupNotice _ => true
  | _ => false

namespace Submission

/-- What an answer or a notice makes of a submission. -/
def hear (site : Site) (view : View) (c : Submission) (sender : NodeId) :
    Message → Submission × List SubmissionAction
  | .updateResponse r => c.onResponse site view sender r false
  | .mappingNotice m => c.onMapping m
  | .backupNotice m => c.onNotice sender m
  | _ => (c, [])

variable {site : Site} {view : View} {c : Submission} {a : Attempt} {sender : NodeId}

/-- News that do not finish the attempt leave it where it was. -/
theorem Follows.going {ret : Option UpdateReturn} {p : Progress}
    {x : Submission × List SubmissionAction} (h : Follows c a ret p x) :
    x.1.future = none ∨ x.1 = { c with attempt := some a, ret } ∧ p ≠ .finished := by
  cases h with
  | pending => exact .inr ⟨rfl, nofun⟩
  | unconfirmed => exact .inr ⟨rfl, nofun⟩
  | finished hn => exact .inl rfl

theorem onResponse_again (hd : c.isDone = false) {r : UpdateResponse}
    (hf : c.future = some r.future) :
    (c.onResponse site view sender r false).1.future = none ∨
    (c.onResponse site view sender r false).1.future = some r.future ∧
      ∀ view', (c.onResponse site view sender r false).1.onResponse site view' sender r false =
        ((c.onResponse site view sender r false).1, []) := by
  by_cases hw : ∃ a, c.Awaits a sender r
  · obtain ⟨a, hw⟩ := hw
    by_cases hn : r.hasError = true ∨ r.needsRemap = true
    · exact .inl (future_over (onResponse_over hd hw hn false))
    · rw [not_or, Bool.not_eq_true, Bool.not_eq_true] at hn
      have ho : Follows c _ _ _ (c.onResponse site view sender r false) :=
        onResponse_of hd hw hn.1 hn.2 false
      rcases ho.going with hx | ⟨hx, -⟩
      · exact .inl hx
      · right
        rw [hx]
        refine ⟨hf, ?_⟩
        intro view'
        apply onResponse_other
        intro b hb
        have hr := hb.responded
        rw [← Option.some_inj.1 hb.attempt, Attempt.responded_hear] at hr
        simp [News.answers] at hr
  · have ho (view' : View) : c.onResponse site view' sender r false = (c, []) :=
      onResponse_other (fun a ha => hw ⟨a, ha⟩) false
    rw [ho view]
    exact .inr ⟨hf, ho⟩

theorem onMapping_again (hd : c.isDone = false) (ha : c.attempt = some a) {m : MappingNotice}
    (hf : c.future = some m.future) :
    (c.onMapping m).1.future = none ∨
    (c.onMapping m).1.future = some m.future ∧
      (c.onMapping m).1.onMapping m = ((c.onMapping m).1, []) := by
  rcases (onMapping_of hd ha hf).going with hx | ⟨hx, hp⟩
  · exact .inl hx
  · right
    rw [hx]
    refine ⟨hf, ?_⟩
    have hagain : (a.onMapping m.mapping).1.onMapping m.mapping =
        ((a.onMapping m.mapping).1, .pending) := Attempt.onMapping_again hp
    simp only [onMapping, Attempt.hear, if_pos hf, hagain]
    rfl

theorem onNotice_again (hd : c.isDone = false) (ha : c.attempt = some a) {m : BackupNotice}
    (hf : c.future = some m.future) :
    (c.onNotice sender m).1.future = none ∨
    (c.onNotice sender m).1.future = some m.future ∧
      (c.onNotice sender m).1.onNotice sender m = ((c.onNotice sender m).1, []) := by
  by_cases hprim : a.primary = m.primary
  · rcases (onNotice_of hd ha hf hprim).going with hx | ⟨hx, hp⟩
    · exact .inl hx
    · right
      rw [hx]
      refine ⟨hf, ?_⟩
      have hagain : (a.onNotice sender m).1.onNotice sender m =
          ((a.onNotice sender m).1, .pending) := Attempt.onNotice_again hp
      have hprim' : (a.onNotice sender m).1.primary = m.primary :=
        (a.primary_onNotice sender m).trans hprim
      simp only [onNotice, Attempt.hear, if_pos (And.intro hf hprim'), hagain, Option.or_assoc,
        Option.or_self]
      rfl
  · have ho : c.onNotice sender m = (c, []) := by
      apply onNotice_other
      right
      intro b hb
      rw [← Option.some_inj.1 (ha.symm.trans hb)]
      exact hprim
    rw [ho]
    exact .inr ⟨hf, ho⟩

/-- A submission that hears an answer or a notice gives its number up, or makes nothing of the same
message when it comes again. -/
theorem hear_again (hd : c.isDone = false) (ha : c.attempt = some a) {m : Message}
    (hf : c.future = some m.envelope.future) :
    (c.hear site view sender m).1.future = none ∨
    (c.hear site view sender m).1.future = some m.envelope.future ∧
      ∀ view', (c.hear site view sender m).1.hear site view' sender m =
        ((c.hear site view sender m).1, []) := by
  cases m with
  | updateResponse r => exact onResponse_again hd hf
  | mappingNotice m => exact (onMapping_again hd ha hf).imp_right fun h => ⟨h.1, fun _ => h.2⟩
  | backupNotice m => exact (onNotice_again hd ha hf).imp_right fun h => ⟨h.1, fun _ => h.2⟩
  | updateRequest r => exact .inr ⟨hf, fun _ => rfl⟩
  | backupRequest r => exact .inr ⟨hf, fun _ => rfl⟩
  | checkRequest r => exact .inr ⟨hf, fun _ => rfl⟩

end Submission

/-- A fan-out that has recorded a node does not record it again. -/
theorem Fanout.register_again {site : Site} {f : Fanout} (hs : f.Sound) (o : NodeId)
    (lost : Bool) :
    (f.register site o lost).1.register site o lost = ((f.register site o lost).1, [], false) := by
  have hrec (g : Fanout) (r : Receiver) (hg : g.receivers = (f.record o r).receivers) :
      g.register site o lost = (g, [], false) := by
    have hget : g.receivers.get? o = some { r with responded := true } := by
      rw [hg]
      exact SortedMap.get?_insert_self _ _ _
    exact register_recorded hget rfl lost
  have hr := recorded_register site hs o lost
  generalize hx : (f.register site o lost).1 = x at hr ⊢
  generalize (f.register site o lost).2.1 = as at hr
  cases hr with
  | ignored h =>
    cases hget : f.receivers.get? o with
    | none => exact register_unmapped hget lost
    | some r => exact register_recorded hget (h r hget) lost
  | @counted r h hr hm => exact hrec _ r rfl
  | @finished r h hr hm => exact hrec _ r rfl

/-! ## Nodes -/

namespace Node

variable {n : Node} {waiting : Handle → Nat} {view : View} {sender : NodeId}

/-- The message is for nobody, or not wanted from its sender. -/
inductive Unheeded (n : Node) (sender : NodeId) : Message → Prop
  /-- An answer or a notice for a number that is nobody's at present. -/
  | unknown {m : Message} (hm : m.isReply = true)
      (hr : n.registry.get? m.envelope.future = none) : Unheeded n sender m
  /-- A mapping for a number that is not a submission's. -/
  | unmapped {m : MappingNotice} (hr : n.submissionAt? m.future = none) :
      Unheeded n sender (.mappingNotice m)
  /-- A notice for a number that is not a submission's. -/
  | unnoticed {m : BackupNotice} (hr : n.submissionAt? m.future = none) :
      Unheeded n sender (.backupNotice m)
  /-- An answer from another node than the primary of the attempt. -/
  | stranger {r : UpdateResponse} {h : Handle} {c : Submission} {a : Attempt}
      (hr : n.registry.get? r.future = some (.submission h)) (hs : n.submissions.get? h = some c)
      (ha : c.attempt = some a) (hp : a.primary ≠ sender) : Unheeded n sender (.updateResponse r)
  /-- A notice that names another primary than that of the attempt. -/
  | misnamed {m : BackupNotice} {h : Handle} {c : Submission} {a : Attempt}
      (hr : n.registry.get? m.future = some (.submission h)) (hs : n.submissions.get? h = some c)
      (ha : c.attempt = some a) (hp : a.primary ≠ m.primary) : Unheeded n sender (.backupNotice m)
  /-- An acknowledgement from a node to which the fan-out sent nothing, or that it has recorded. -/
  | recorded {r : UpdateResponse} {f : Fanout} (hr : n.registry.get? r.future = some .fanout)
      (hf : n.fanouts.get? r.future = some f)
      (ho : ∀ o, f.receivers.get? sender = some o → o.responded = true) :
      Unheeded n sender (.updateResponse r)

theorem putSubmission_self {h : Handle} {c : Submission} (hs : n.submissions.get? h = some c) :
    n.putSubmission view h (c, []) = (n, []) := by
  simp only [putSubmission, each, SortedMap.insert_of_get? hs]

theorem putFanout_self {f : Fanout} (hf : n.fanouts.get? f.id = some f) :
    n.putFanout view (f, []) = (n, []) := by
  simp only [putFanout, each, SortedMap.insert_of_get? hf]

theorem receive_submission {m : Message} (hm : m.isReply = true)
    (hi : m.envelope.cacheId = n.site.cacheId) {h : Handle}
    (hr : n.registry.get? m.envelope.future = some (.submission h)) {c : Submission}
    (hs : n.submissions.get? h = some c) :
    n.receive view sender m = n.putSubmission view h (c.hear n.site view sender m) := by
  cases m with
  | updateResponse r =>
    have hr : n.registry.get? r.future = some (.submission h) := hr
    simp only [receive, hi, ne_eq, not_true_eq_false, if_false, hr, onSubmission_eq hs]
    rfl
  | mappingNotice m =>
    have hr : n.registry.get? m.future = some (.submission h) := hr
    simp only [receive, hi, ne_eq, not_true_eq_false, if_false, submissionAt?_of hr,
      onSubmission_eq hs]
    rfl
  | backupNotice m =>
    have hr : n.registry.get? m.future = some (.submission h) := hr
    simp only [receive, hi, ne_eq, not_true_eq_false, if_false, submissionAt?_of hr,
      onSubmission_eq hs]
    rfl
  | updateRequest r | backupRequest r | checkRequest r => cases hm

theorem receive_fanout {r : UpdateResponse} (hi : r.cacheId = n.site.cacheId)
    (hr : n.registry.get? r.future = some .fanout) {f : Fanout}
    (hf : n.fanouts.get? r.future = some f) :
    n.receive view sender (.updateResponse r) = n.putFanout view
      ((f.register n.site sender false).1, (f.register n.site sender false).2.1) := by
  simp only [receive, Message.envelope, hi, ne_eq, not_true_eq_false, if_false, hr, onFanout_eq hf]

theorem receive_unknown {m : Message} (hm : m.isReply = true)
    (hr : n.registry.get? m.envelope.future = none) : n.receive view sender m = (n, []) := by
  have hat : n.submissionAt? m.envelope.future = none := by
    simp only [submissionAt?, hr]
  by_cases hi : m.envelope.cacheId = n.site.cacheId
  · cases m with
    | updateResponse r =>
      have hr : n.registry.get? r.future = none := hr
      simp only [receive, hr, ite_self]
    | mappingNotice m =>
      have hat : n.submissionAt? m.future = none := hat
      simp only [receive, hat, ite_self]
    | backupNotice m =>
      have hat : n.submissionAt? m.future = none := hat
      simp only [receive, hat, ite_self]
    | updateRequest r | backupRequest r | checkRequest r => cases hm
  · exact receive_foreign hi view sender

/-- An unheeded message changes nothing, and nothing is sent. -/
theorem receive_unheeded (hc : n.Coherent waiting) {m : Message} (hu : n.Unheeded sender m)
    (view : View) : n.receive view sender m = (n, []) := by
  by_cases hi : m.envelope.cacheId = n.site.cacheId
  · cases hu with
    | unknown hm hr => exact receive_unknown hm hr
    | unmapped hr => simp only [receive, hr, ite_self]
    | unnoticed hr => simp only [receive, hr, ite_self]
    | @stranger r h c a hr hs ha hp =>
      have hx : c.hear n.site view sender (.updateResponse r) = (c, []) := by
        apply Submission.onResponse_other
        intro b hb
        rw [← Option.some_inj.1 (ha.symm.trans hb.attempt)] at hb
        exact hp hb.primary
      rw [receive_submission rfl hi hr hs, hx]
      exact putSubmission_self hs
    | @misnamed m h c a hr hs ha hp =>
      have hx : c.hear n.site view sender (.backupNotice m) = (c, []) := by
        apply Submission.onNotice_other
        right
        intro b hb
        rw [← Option.some_inj.1 (ha.symm.trans hb)]
        exact hp
      rw [receive_submission rfl hi hr hs, hx]
      exact putSubmission_self hs
    | @recorded r f hr hf ho =>
      have hx : f.register n.site sender false = (f, [], false) := by
        cases hget : f.receivers.get? sender with
        | none => exact Fanout.register_unmapped hget false
        | some o => exact Fanout.register_recorded hget (ho o hget) false
      rw [receive_fanout hi hr hf, hx]
      apply putFanout_self
      rw [(hc.fanouts _ f hf).1]
      exact hf
  · exact receive_foreign hi view sender

/-- A reply for a submission changes nothing when it comes again. -/
theorem receive_submission_again (hc : n.Coherent waiting) {m : Message}
    (hm : m.isReply = true) (hi : m.envelope.cacheId = n.site.cacheId) {h : Handle}
    (hr : n.registry.get? m.envelope.future = some (.submission h)) (view view' : View) :
    (n.receive view sender m).1.receive view' sender m = ((n.receive view sender m).1, []) := by
  obtain ⟨c, hs, hf⟩ := (hc.submission _ h).1 hr
  obtain ⟨hd, -, ⟨a, ha⟩, -⟩ := hc.current hr hs
  have hturn : SubmissionTurn view n (.receive sender m) h c (c.hear n.site view sender m) := by
    cases m with
    | updateResponse r => exact .answer hi hr hs
    | mappingNotice m => exact .mapping hi hr hs
    | backupNotice m => exact .notice hi hr hs
    | updateRequest r | backupRequest r | checkRequest r => cases hm
  have hafter := submission_move hturn
  have hdue : n.Due waiting (.receive sender m) := trivial
  have hreg := registry_submission hc hdue hturn hafter m.envelope.future
  have hget : (n.receive view sender m).1.submissions.get? h =
      some (c.hear n.site view sender m).1 := by
    refine (congrArg (·.get? h) hafter.submissions).trans ?_
    exact SortedMap.get?_insert_self _ _ _
  have hhear : (c.hear n.site view sender m).1.future = none ∨ _ := Submission.hear_again hd ha hf
  rcases hhear with hx | ⟨hx, hagain⟩
  · apply receive_unknown hm
    rw [hx, if_neg nofun, if_pos hf] at hreg
    exact hreg
  · have hsite : (n.receive view sender m).1.site = n.site := hafter.site
    rw [if_pos hx] at hreg
    rw [receive_submission hm (hi.trans (congrArg Site.cacheId hsite).symm) hreg hget, hsite,
      hagain view']
    exact putSubmission_self hget

/-- An acknowledgement changes nothing when it comes again. -/
theorem receive_fanout_again (hc : n.Coherent waiting) {r : UpdateResponse}
    (hi : r.cacheId = n.site.cacheId) (hr : n.registry.get? r.future = some .fanout)
    (view view' : View) :
    (n.receive view sender (.updateResponse r)).1.receive view' sender (.updateResponse r) =
      ((n.receive view sender (.updateResponse r)).1, []) := by
  obtain ⟨f, hf, hd⟩ := (hc.fanout _).1 hr
  obtain ⟨hid, hsound, -⟩ := hc.fanouts _ f hf
  have hk : Acknowledges n (.receive sender (.updateResponse r)) r.future f sender false :=
    .answer hi hr hf
  obtain ⟨hafter, -, -⟩ : AfterFanout view n _ _ ∧ _ ∧ _ := acknowledged_move hk
  have hid' : (f.register n.site sender false).1.id = r.future :=
    (Fanout.id_eq (Fanout.tracks_register n.site hsound sender false).toSameFanout).trans hid
  have hsite : (n.receive view sender (.updateResponse r)).1.site = n.site := hafter.site
  have hget : (n.receive view sender (.updateResponse r)).1.fanouts.get? r.future =
      some (f.register n.site sender false).1 := by
    refine (congrArg (·.get? r.future) hafter.fanouts).trans ?_
    rw [hid']
    exact SortedMap.get?_insert_self _ _ _
  have hreg : (n.receive view sender (.updateResponse r)).1.registry.get? r.future = none ∨
      (n.receive view sender (.updateResponse r)).1.registry.get? r.future = some .fanout := by
    have h := registry_register (n := n) (r := n.registry) hsound (by simp [hd]) sender false
      r.future
    rw [← hafter.registry] at h
    rw [← hr]
    by_cases hfin : r.future = f.id ∧ (f.register n.site sender false).1.done = true
    · exact .inl (h.trans (if_pos hfin))
    · exact .inr (h.trans (if_neg hfin))
  rcases hreg with hreg | hreg
  · exact receive_unknown rfl hreg
  · rw [receive_fanout (hi.trans (congrArg Site.cacheId hsite).symm) hreg hget, hsite,
      Fanout.register_again hsound]
    apply putFanout_self
    rw [hid']
    exact hget

/-- An answer or a notice changes nothing when it comes again, and nothing is sent. -/
theorem receive_again (hc : n.Coherent waiting) {m : Message} (hm : m.isReply = true)
    (view view' : View) (sender : NodeId) :
    (n.receive view sender m).1.receive view' sender m = ((n.receive view sender m).1, []) := by
  have hsame (h : ∀ view, n.receive view sender m = (n, [])) :
      (n.receive view sender m).1.receive view' sender m = ((n.receive view sender m).1, []) := by
    rw [h view]
    exact h view'
  by_cases hi : m.envelope.cacheId = n.site.cacheId
  · cases hr : n.registry.get? m.envelope.future with
    | none => exact hsame fun view => receive_unknown hm hr
    | some who =>
      cases who with
      | submission h => exact receive_submission_again hc hm hi hr view view'
      | fanout =>
        have hat : n.submissionAt? m.envelope.future = none := by
          simp only [submissionAt?, hr]
        cases m with
        | updateResponse r => exact receive_fanout_again hc hi hr view view'
        | mappingNotice m => exact hsame fun view => receive_unheeded hc (.unmapped hat) view
        | backupNotice m => exact hsame fun view => receive_unheeded hc (.unnoticed hat) view
        | updateRequest r | backupRequest r | checkRequest r => cases hm
  · exact hsame fun view => receive_foreign hi view sender

end Node

/-! ## Runs -/

namespace Solo

/-- Whatever has happened to a node, a message that is for nobody or from the wrong node leaves it
entirely as it is, and so does an answer or a notice that comes a second time; nothing is sent. -/
theorem receive_run (config : Config) (processors : Processors) (es : List (View × Occurrence))
    (hlen : es.length + 1 < UInt64.size) (sender : NodeId) (m : Message) :
    let n := ((start config processors).run es).node
    (n.Unheeded sender m → ∀ view, n.receive view sender m = (n, [])) ∧
    (m.isReply = true → ∀ view view',
      (n.receive view sender m).1.receive view' sender m = ((n.receive view sender m).1, [])) := by
  intro n
  have hc := (orderly_run config processors es hlen).coherent
  constructor
  · intro hu view
    exact Node.receive_unheeded hc hu view
  · intro hm view view'
    exact Node.receive_again hc hm view view' sender

/-- Node 1 stores a value.  It makes nothing of a mapping for a number it never gave, and takes the
answer of node 2 once. -/
theorem receive_confirmed :
    let n := ((start { nodeId := 1 } Processor.none).run [(ofTwo, .submit (.put [1] [2]))]).node
    let stray : Message := .mappingNotice
      { cacheId := cacheIdOf "default", partition := 0, future := 7, mapping := [] }
    n.receive ofTwo ⟨2⟩ stray = (n, []) ∧
      (n.receive ofTwo ⟨2⟩ (firstAnswer true)).1.result? 1 = some (.ok (.success true)) ∧
      (n.receive ofTwo ⟨2⟩ (firstAnswer true)).1.receive ofTwo ⟨2⟩ (firstAnswer true) =
        ((n.receive ofTwo ⟨2⟩ (firstAnswer true)).1, []) := by
  intro n stray
  have h := receive_run { nodeId := 1 } Processor.none [(ofTwo, .submit (.put [1] [2]))]
    (by decide) ⟨2⟩
  refine ⟨?_, by decide +kernel, ?_⟩
  · exact (h stray).1 (.unknown rfl (by decide +kernel)) ofTwo
  · exact (h (firstAnswer true)).2 rfl ofTwo ofTwo

end Solo

end AtomicGrid
