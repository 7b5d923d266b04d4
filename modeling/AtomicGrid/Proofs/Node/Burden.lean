import AtomicGrid.Proofs.Node.Coherent

/-!
# How much work a message brings

Messages make nodes send further ones, but not for ever.  Each kind of message is given a weight that
covers its own reading and all that may come of it: a request goes to so many receivers, each of which
answers and tells the caller's node; a notice may make this one ask the primary.  A fan-out that is
not done has credit for the answer that it still holds back.

## Results

* `Fanout.burden_map`: what opening a fan-out asks for.
* `Node.burden_receive`: what a node sends as it reads a message, with the credit of its fan-outs,
  weighs less than the message.
-/

set_option autoImplicit false

namespace AtomicGrid

/-- The weight of a message of a kind, if updates go to `reach` receivers at most. -/
def MessageKind.weight (reach : Nat) : MessageKind → Nat
  | .updateResponse => 1
  | .checkRequest => 3
  | .mappingNotice => 5
  | .backupNotice => 5
  | .backupRequest => 9
  | .updateRequest => 16 * reach + 11

theorem MessageKind.weight_le (reach : Nat) (k : MessageKind) :
    k.weight reach ≤ 16 * reach + 11 := by
  cases k <;> simp only [weight] <;> omega

/-- What a message that is sent brings: its weight, and a turn for its receiver. -/
def Effect.burden (reach : Nat) : Effect → Nat
  | .sent _ m => m.kind.weight reach + 1
  | _ => 0

/-- What effects bring, one with another. -/
def burden (reach : Nat) (es : List Effect) : Nat := (es.map (Effect.burden reach)).sum

/-- What an action of a fan-out brings, at most. -/
def FanoutAction.burden (reach : Nat) : FanoutAction → Nat
  | .send _ m => m.kind.weight reach + 1
  | .reply _ _ => 2
  | _ => 0

/-- What is set aside for a fan-out until it is done: the answer that it may hold back. -/
def Fanout.credit (f : Fanout) : Nat := if f.done then 0 else 2

/-- What is set aside for the fan-outs of a node. -/
def Node.credit (n : Node) : Nat := n.fanouts.total Fanout.credit

variable {reach : Nat}

@[simp] theorem burden_nil : burden reach [] = 0 := rfl

@[simp] theorem burden_cons (e : Effect) (es : List Effect) :
    burden reach (e :: es) = e.burden reach + burden reach es := rfl

@[simp] theorem burden_append (es es' : List Effect) :
    burden reach (es ++ es') = burden reach es + burden reach es' := by
  simp [burden]

variable (reach) in
theorem burden_transmission_le (view : View) (receiver : NodeId) (m : Message) :
    (Node.transmission view receiver m).burden reach ≤ m.kind.weight reach + 1 := by
  unfold Node.transmission
  split
  · exact Nat.le_refl _
  · exact Nat.zero_le _

theorem burden_eq_zero {es : List Effect} (h : ∀ e ∈ es, e.burden reach = 0) : burden reach es = 0 := by
  induction es with
  | nil => rfl
  | cons e es ih =>
    rw [burden_cons, h e List.mem_cons_self, ih fun e' he => h e' (List.mem_cons_of_mem _ he)]

/-! ## Fan-outs -/

namespace Fanout

variable {f : Fanout} {site : Site} {view : View}

/-- What actions of a fan-out bring, one with another, at most. -/
def burden (reach : Nat) (as : List FanoutAction) : Nat := (as.map (FanoutAction.burden reach)).sum

@[simp] theorem burden_nil : burden reach [] = 0 := rfl

@[simp] theorem burden_cons (a : FanoutAction) (as : List FanoutAction) :
    burden reach (a :: as) = a.burden reach + burden reach as := rfl

@[simp] theorem burden_append (as as' : List FanoutAction) :
    burden reach (as ++ as') = burden reach as + burden reach as' := by
  simp [burden]

variable (reach view) in
/-- The effects of actions bring no more than the actions. -/
theorem burden_effects_le (as : List FanoutAction) :
    AtomicGrid.burden reach (as.flatMap (FanoutAction.effects view)) ≤ burden reach as := by
  induction as with
  | nil => exact Nat.le_refl _
  | cons a as ih =>
    have ha : AtomicGrid.burden reach (a.effects view) ≤ a.burden reach := by
      cases a with
      | enlist id => exact Nat.le_refl _
      | retire id => exact Nat.le_refl _
      | send receiver m => exact burden_transmission_le reach view receiver m
      | notify listener success => exact Nat.le_refl _
      | reply route r =>
        cases route with
        | node receiver => exact burden_transmission_le reach view receiver (.updateResponse r)
        | nobody => exact Nat.zero_le _
        | label name => exact Nat.zero_le _
    rw [List.flatMap_cons, AtomicGrid.burden_append, burden_cons]
    exact Nat.add_le_add ha ih

variable (reach f site) in
theorem burden_losses_le (n : NodeId) (lost : Bool) :
    burden reach (f.losses site n lost) ≤ if lost then 6 else 0 := by
  unfold losses
  cases lost with
  | false => exact Nat.le_refl _
  | true =>
    cases f.repliedToNear with
    | false => exact Nat.le_refl _
    | true => exact Nat.zero_le _

theorem burden_notifications (listeners : List String) (success : Bool) :
    burden reach (listeners.map (.notify · success)) = 0 := by
  induction listeners with
  | nil => rfl
  | cons l ls ih => simp [FanoutAction.burden, ih]

variable (reach f) in
theorem burden_endings_le : burden reach f.endings ≤ 2 := by
  rw [endings, burden_append, burden_cons, burden_notifications]
  cases f.deferred with
  | none => exact Nat.zero_le _
  | some d => exact Nat.le_refl _

variable (reach site) in
/-- Recording a receiver brings the news of its loss, and the answer that was held back. -/
theorem burden_register (hs : f.Sound) (n : NodeId) (lost : Bool) :
    burden reach (f.register site n lost).2.1 + (f.register site n lost).1.credit ≤
      f.credit + if lost then 6 else 0 := by
  have hrec := recorded_register site hs n lost
  have hloss := burden_losses_le reach f site n lost
  generalize (f.register site n lost).1 = f' at hrec ⊢
  generalize (f.register site n lost).2.1 = as at hrec ⊢
  cases hrec with
  | ignored h => simp
  | @counted r h hr hm =>
    have : (f.record n r).credit = f.credit := rfl
    simp only [this]
    omega
  | @finished r h hr hm =>
    have hend := burden_endings_le reach (f.record n r)
    have : (f.record n r).ended.credit = 0 := rfl
    have : f.credit = 2 := by simp [credit, done_of_unresponded hs h hr]
    simp only [burden_append]
    omega

variable (reach site view) in
/-- Sending requests brings each of them, or the news of a loss. -/
theorem burden_sendRequests (rs : List (NodeId × BackupRequest)) : ∀ {f : Fanout}, f.Sound →
    burden reach (f.sendRequests site view rs).2 + (f.sendRequests site view rs).1.credit ≤
      f.credit + 16 * rs.length := by
  induction rs with
  | nil =>
    intro f _
    simp [sendRequests]
  | cons e rs ih =>
    intro f hs
    obtain ⟨n, b⟩ := e
    have hb : FanoutAction.burden reach (.send n (.backupRequest b)) = 10 := rfl
    cases hv : view.reaches n with
    | true =>
      have := ih hs
      rw [sendRequests_reached hv]
      simp only [burden_cons, hb, List.length_cons]
      omega
    | false =>
      have hrest := ih (tracks_register site hs n true).sound
      have hlost := burden_register reach site hs n true
      rw [if_pos rfl] at hlost
      rw [sendRequests_lost hv]
      simp only [burden_cons, burden_append, hb, List.length_cons]
      omega

theorem length_requests_prepared (response : UpdateResponse) (ret : UpdateReturn)
    (route : ReplyRoute) :
    (f.prepared site response ret route).requests.length = f.receivers.size := by
  unfold requests prepared
  rw [List.length_map]
  split
  · simp [SortedMap.mapValues, SortedMap.size]
  · rfl

variable (reach f site) in
theorem burden_sequel_le (response : UpdateResponse) (ret : UpdateReturn) (route : ReplyRoute) :
    burden reach (f.sequel site response ret route) ≤ 8 := by
  have hm : burden reach (f.mappings site ret) ≤ 6 := by
    unfold mappings
    split
    · exact Nat.le_refl _
    · exact Nat.zero_le _
  have hp : burden reach (f.promptly site response ret route) ≤ 2 := by
    unfold promptly
    split
    · exact Nat.le_refl _
    · exact Nat.zero_le _
  rw [sequel, burden_append]
  omega

variable (reach site view) in
/-- Opening a fan-out brings the requests, the mapping and the answer. -/
theorem burden_map (hu : f.Unsent) (response : UpdateResponse) (ret : UpdateReturn)
    (route : ReplyRoute) :
    burden reach (f.map site view response ret route).2 +
        (f.map site view response ret route).1.credit ≤ 16 * f.receivers.size + 10 := by
  cases he : f.receivers.isEmpty with
  | true =>
    rw [map_empty he hu]
    show 2 + (0 + 0) + 0 ≤ _
    omega
  | false =>
    have hp : (f.prepared site response ret route).Sound := sound_prepared hu he
    have hs := burden_sendRequests reach site view (f.prepared site response ret route).requests hp
    rw [length_requests_prepared] at hs
    have hq := burden_sequel_le reach f site response ret route
    have hc : (f.prepared site response ret route).credit ≤ 2 := by
      unfold credit
      split <;> omega
    rw [map_sends he hu]
    simp only [burden_cons, burden_append]
    show 0 + _ + _ ≤ _
    omega

end Fanout

/-! ## Submissions -/

namespace Submission

variable {c : Submission} {view : View} {h : Handle} {near : Bool}

/-- Actions that send nothing bring nothing. -/
theorem burden_effects_eq_zero {as : List SubmissionAction} (ha : ∀ r m, .send r m ∉ as) :
    burden reach (as.flatMap (SubmissionAction.effects view h near)) = 0 := by
  refine burden_eq_zero fun e he => ?_
  obtain ⟨a, hmem, he⟩ := List.mem_flatMap.1 he
  cases a with
  | send r m => exact absurd hmem (ha r m)
  | enlist id => cases he
  | retire id => cases he
  | await v =>
    rw [List.mem_singleton.1 he]
    rfl
  | writeNear key value version ttl =>
    simp only [SubmissionAction.effects] at he
    split at he
    · rw [List.mem_singleton.1 he]
      rfl
    · cases he

theorem not_send_finished {near : List SubmissionAction}
    (hn : ∀ x ∈ near, ∃ key value version ttl, x = .writeNear key value version ttl) (r : NodeId)
    (m : Message) : .send r m ∉ near ++ c.future.toList.map .retire := by
  intro hmem
  rcases List.mem_append.1 hmem with hmem | hmem
  · obtain ⟨_, _, _, _, hx⟩ := hn _ hmem
    cases hx
  · simp at hmem

theorem burden_over {x : Submission × List SubmissionAction} (ho : Over c x) :
    burden reach (x.2.flatMap (SubmissionAction.effects view h near)) = 0 := by
  refine burden_effects_eq_zero fun r m hmem => ?_
  cases ho with
  | failed hs e hr hf => simp at hmem
  | waits hs hr hf ha v => simp at hmem

variable (reach view h near) in
/-- At most the primary is asked about an attempt. -/
theorem burden_follows {a : Attempt} {ret : Option UpdateReturn} {p : Progress}
    {x : Submission × List SubmissionAction} (ho : Follows c a ret p x) :
    burden reach (x.2.flatMap (SubmissionAction.effects view h near)) ≤
      if p = .unconfirmed then 4 else 0 := by
  cases ho with
  | pending => exact Nat.le_refl _
  | unconfirmed =>
    exact burden_transmission_le reach view a.primary
      (.checkRequest ⟨a.request.toEnvelope, some a.request⟩)
  | finished hn => exact Nat.le_of_eq (burden_effects_eq_zero (not_send_finished hn))

/-- An answer brings nothing. -/
theorem burden_onResponse {site : Site} (hd : c.isDone = false) (sender : NodeId)
    (r : UpdateResponse) :
    burden reach ((c.onResponse site view sender r false).2.flatMap
      (SubmissionAction.effects view h near)) = 0 := by
  by_cases hw : ∃ a, c.Awaits a sender r
  · obtain ⟨a, hw⟩ := hw
    by_cases hn : r.hasError = true ∨ r.needsRemap = true
    · exact burden_over (onResponse_over hd hw hn false)
    · simp only [not_or, Bool.not_eq_true] at hn
      have hf := burden_follows reach view h near (x := c.onResponse site view sender r false)
        (onResponse_of hd hw hn.1 hn.2 false)
      rw [if_neg] at hf
      · exact Nat.le_zero.1 hf
      · intro hu
        cases (Attempt.unconfirmed_hear hu).2.2
  · rw [onResponse_other (fun a ha => hw ⟨a, ha⟩)]
    rfl

end Submission

/-! ## Nodes -/

namespace Node

variable {view : View} {n : Node} {sender : NodeId}

theorem credit_insert (fs : SortedMap FutureId Fanout) (id : FutureId) (f : Fanout) :
    (fs.insert id f).total Fanout.credit + (fs.get? id).elim 0 Fanout.credit =
      fs.total Fanout.credit + f.credit :=
  fs.total_insert Fanout.credit id f

theorem burden_backUp (r : BackupRequest) : burden reach (n.backUp view sender r).2 ≤ 8 := by
  obtain ⟨near, hn, he⟩ := @effects_backUp view n sender r
  have hnear : burden reach near = 0 := by
    refine burden_eq_zero fun e hmem => ?_
    obtain ⟨_, _, _, _, rfl⟩ := hn e hmem
    rfl
  have hack := burden_transmission_le reach view sender
    (.updateResponse (n.acknowledgement r))
  have hnotice := burden_transmission_le reach view r.nearNode
    (.backupNotice (r.notice n.site sender))
  rw [he, burden_append, hnear, burden_cons]
  simp only [Message.kind, MessageKind.weight] at hack hnotice
  split
  · simp only [burden_cons, burden_nil]
    omega
  · simp only [burden_nil]
    omega

variable (reach view n sender) in
theorem burden_opened (q : UpdateRequest) :
    burden reach ((n.opened view sender q).2.flatMap (FanoutAction.effects view)) +
        (n.opened view sender q).1.credit ≤
      16 * (n.applied view sender q).fanout.receivers.size + 10 := by
  have hg : Fanout.Gathers (n.backupBase sender q) (n.applied view sender q).fanout :=
    gathers_applied
  have hmap : Fanout.burden reach (n.opened view sender q).2 + (n.opened view sender q).1.credit ≤
      16 * (n.applied view sender q).fanout.receivers.size + 10 :=
    Fanout.burden_map reach n.site view hg.toUnsent _ _ _
  have heff := Fanout.burden_effects_le reach view (n.opened view sender q).2
  omega

variable (reach) in
theorem burden_submission {waiting : Handle → Nat} (hc : n.Coherent waiting) {m : Message}
    {h : Handle} {c : Submission} {x : Submission × List SubmissionAction}
    (ht : SubmissionTurn view n (.receive sender m) h c x) (near : Bool) :
    burden reach (x.2.flatMap (SubmissionAction.effects view h near)) + 1 ≤
      m.kind.weight reach := by
  have hdue : n.Due waiting (.receive sender m) := trivial
  have hfares : Fares n.site view n.nextFuture false c x := fares_turn hc hdue ht
  have hle : burden reach (x.2.flatMap (SubmissionAction.effects view h near)) ≤ 4 := by
    cases hfares with
    | same hs => exact Nat.zero_le _
    | dropped hd ho => exact Nat.le_trans (Nat.le_of_eq (Submission.burden_over ho)) (Nat.zero_le _)
    | follows hd hf ho =>
      refine Nat.le_trans (Submission.burden_follows reach view h near ho) ?_
      split <;> omega
    | mapped hm hf ho => cases hm
  cases ht with
  | answer hi hr hs =>
    rw [Submission.burden_onResponse (hc.current hr hs).1]
    exact Nat.le_refl _
  | mapping hi hr hs => exact Nat.succ_le_succ hle
  | notice hi hr hs => exact Nat.succ_le_succ hle

variable (reach) in
/-- What a node answers to a message that is for none of its coordinators weighs less than the
message. -/
theorem burden_plain {m : Message} {es : List Effect}
    (ht : PlainTurn view n (.receive sender m) es) :
    burden reach es + 1 ≤ m.kind.weight reach := by
  cases ht with
  | quiet => cases m <;> simp [Message.kind, MessageKind.weight]
  | @declined _ q resp _ hm h hi =>
    rcases hm with hm | ⟨e, he⟩
    · cases hm with
      | received hq =>
        have := burden_transmission_le reach view sender (.updateResponse resp)
        simp only [Message.kind, MessageKind.weight] at this
        simp only [burden_cons, burden_nil, Message.kind, MessageKind.weight]
        omega
    · cases he
  | deferred hm h =>
    cases hm with
    | received hq =>
      simp only [burden_cons, burden_nil, Effect.burden, Message.kind, MessageKind.weight]
      omega
  | @confirmed _ check hi =>
    have := burden_transmission_le reach view sender
      (.updateResponse { n.answerTo check.toEnvelope with ret := some (.flag true) })
    simp only [Message.kind, MessageKind.weight] at this
    simp only [confirm, reply, burden_cons, burden_nil, Message.kind, MessageKind.weight]
    omega
  | backedUp hi => exact Nat.succ_le_succ (burden_backUp _)

/-- What a node sends as it reads a message, with the credit of its fan-outs, weighs less than the
message and what was set aside before. -/
theorem burden_receive {waiting : Handle → Nat} (hc : n.Coherent waiting) {m : Message}
    (hreach : ∀ q, m = .updateRequest q → n.CarriesOut view q →
      (n.applied view sender q).fanout.receivers.size ≤ reach) :
    burden reach (n.move view (.receive sender m)).2 +
        (n.move view (.receive sender m)).1.credit + 1 ≤ m.kind.weight reach + n.credit := by
  have ht : n.Turn view (.receive sender m) (n.move view (.receive sender m)) := turn_move _
  generalize hr : n.move view (.receive sender m) = r at ht
  unfold credit
  cases ht with
  | submission ht ha =>
    have := burden_submission reach hc ht n.nearCache.isSome
    rw [ha.effects, ha.fanouts]
    omega
  | @carried s q hm hco ha hn hs =>
    cases hm with
    | received hi =>
      have hopen := burden_opened reach view n sender q
      have hcre := credit_insert n.fanouts (n.opened view sender q).1.id
        (n.opened view sender q).1
      have hsize := hreach q rfl hco
      rw [ha.effects, ha.fanouts]
      simp only [Message.kind, MessageKind.weight]
      omega
  | @acknowledged id f o lost hk ha hn hs =>
    cases hk with
    | answer hi hreg hf =>
      obtain ⟨hid, hsound, -⟩ := hc.fanouts _ f hf
      have hregister := Fanout.burden_register reach n.site hsound sender false
      have heff := Fanout.burden_effects_le reach view
        (f.register n.site sender false).2.1
      have hcre := credit_insert n.fanouts (f.register n.site sender false).1.id
        (f.register n.site sender false).1
      rw [Fanout.id_eq (Fanout.tracks_register n.site hsound sender false).toSameFanout, hid, hf]
        at hcre
      rw [ha.effects, ha.fanouts]
      simp only [Fanout.id_eq (Fanout.tracks_register n.site hsound sender false).toSameFanout,
        hid, Message.kind, MessageKind.weight]
      simp only [Option.elim_some] at hcre
      simp only [Bool.false_eq_true, if_false] at hregister
      omega
  | plain ht ha =>
    rw [ha.fanouts]
    have := burden_plain reach ht
    omega

end Node

end AtomicGrid
