import AtomicGrid.Proofs.Grid.Conclusions
import AtomicGrid.Proofs.Grid.Success
import AtomicGrid.Proofs.Node.Rejections

/-!
# What an update returns

A grid is untroubled as long as every message can be handed on and nobody hears of a departure.
Then no primary is ever asked about an update whose backups are lost, so whatever a caller's node
learns of the result has come from the primary that carried the request out: by its own answer, with
all there is to return, or by the backups, which tell no more than whether the update succeeded.

## Results

* `Grid.Untroubled.keeps`: nobody is told of a loss.
* `Grid.Reached.answered`: where answers come from.
* `Grid.Reached.earned`: what the current attempts have returned, now and at every move.
* `Grid.Reached.returned`: what an update has returned as it ends.
-/

set_option autoImplicit false

namespace AtomicGrid

namespace Node

variable {n : Node} {q : UpdateRequest} {e : UpdateEntry}

/-- A request with a single entry is refused if the entry is. -/
theorem rejections_single (he : q.payload.entries = [e]) : n.rejections q =
    match (n.applyWrite n.store q.partition (q.writeCommand e)).2 with
    | .error cause => [(e.key, cause)]
    | .ok _ => [] := by
  unfold rejections
  rw [he, refused]
  generalize n.applyWrite n.store q.partition (q.writeCommand e) = x
  obtain ⟨store, applied⟩ := x
  cases applied <;> rfl

theorem rejections_of_written (he : q.payload.entries = [e]) {w : Write}
    (hw : n.written q e = some w) : n.rejections q = [] := by
  rw [rejections_single he]
  unfold written at hw
  split at hw
  next a ha => rw [ha]
  next => cases hw

end Node

/-! ## Runs without trouble -/

/-- The effect is that a message could not be handed on. -/
def Effect.fails : Effect → Bool
  | .refused _ _ => true
  | _ => false

/-- The move is news of a departure. -/
def Move.loses : Move → Bool
  | .lose _ _ => true
  | _ => false

/-- The move is no news of a departure, and its messages are handed on. -/
def Moment.Untroubled (t : Moment) : Prop :=
  t.move.loses = false ∧ ∀ e ∈ t.effects, e.fails = false

instance (t : Moment) : Decidable t.Untroubled := inferInstanceAs (Decidable (_ ∧ _))

namespace Moment

variable {t : Moment} {near o : NodeId} {q : UpdateRequest}

theorem Untroubled.reaches (hu : t.Untroubled) (hc : t.CarriesOut near q) {rec : Receiver}
    (hr : (t.gathered near q).receivers.get? o = some rec) : t.view.reaches o = true := by
  rw [← Bool.not_eq_false]
  intro hv
  obtain ⟨rec', hr'⟩ := (Fanout.receiver_prepared o).2 ⟨rec, hr⟩
  have hfail := hu.2 _ (hc.requests hr')
  rw [Node.transmission, if_neg (by simp [hv])] at hfail
  cases hfail

/-! ## What is reported -/

/-- What the caller's node `near` is told of the return of a request that is carried out at `t`: all
of it by the primary, or no more than whether it is a success by the backups. -/
def reported (t : Moment) (near : NodeId) (q : UpdateRequest) : UpdateReturn :=
  if t.Direct near q then (t.before.applied t.view near q).ret
  else .flag (t.before.applied t.view near q).ret.success

theorem direct_of_answers {L : List Moment} (ha : Grid.Answers L t near q) : t.Direct near q :=
  ha.imp_right fun h => h.imp_right fun h => h.1

/-- Backups know the result only if it is left to them to report it. -/
theorem reported_of_result {rec : Receiver} {success : Bool}
    (hr : (t.prepared near q).receivers.get? o = some rec)
    (hs : rec.request.result? = some success) :
    ¬ t.Direct near q ∧ t.reported near q = .flag success := by
  have hg : Fanout.Gathers (t.before.backupBase near q) (t.gathered near q) := Node.gathers_applied
  rw [prepared, Fanout.receivers_prepared] at hr
  obtain ⟨rec₀, h₀, rfl⟩ := Option.map_eq_some_iff.1 hr
  have hne := SortedMap.not_isEmpty_of_get? h₀
  -- a request as it is gathered carries no result
  have hflags : rec₀.request.flags.hasResult = false :=
    congrArg (fun b : BackupRequest => b.flags.hasResult) (hg.alike o rec₀ h₀)
  cases hrel : (t.gathered near q).relays t.before.site with
  | false => simp [hrel, BackupRequest.result?, hflags] at hs
  | true =>
    cases hat : (t.gathered near q).repliesAtOnce t.before.site
        (t.before.applied t.view near q).ret with
    | true =>
      simp [hrel, Fanout.relayed, Fanout.carried, hat, BackupRequest.result?, hflags] at hs
    | false =>
      have hnot : ¬ t.Direct near q := by simp [Direct, hne, hat, hrel]
      refine ⟨hnot, ?_⟩
      rw [reported, if_neg hnot]
      simp only [hrel, if_true, Fanout.relayed, Fanout.carried, hat, Bool.false_eq_true, if_false,
        BackupRequest.withResult, BackupRequest.result?, Option.some_inj] at hs
      rw [hs]

end Moment

namespace Grid

variable {config : Config} {affinity : Affinity} {processors : Processors} {ids : List NodeId}
  {g g' : Grid} {n s : NodeId} {hd : Handle} {id : FutureId} {t t₀ : Moment} {c c₀ : Submission}
  {a : Attempt} {w : Word} {es : List News}

/-- Nothing has gone wrong so far. -/
def Untroubled (g : Grid) : Prop := ∀ t ∈ g.log, t.Untroubled

instance (g : Grid) : Decidable g.Untroubled := inferInstanceAs (Decidable (∀ _ ∈ _, _))

/-- Nobody is told of a loss. -/
theorem Untroubled.keeps (hu : g.Untroubled)
    (h : Reached (start ids config affinity processors) g) (ht : t ∈ g.log) {e : News}
    (htell : t.Tells id e) : e.loses = false := by
  cases e with
  | answer mapping => rfl
  | mapping nodes => rfl
  | departure o =>
    obtain ⟨who, hm⟩ := htell.departure
    have := (hu t ht).1
    rw [hm] at this
    cases this
  | notice sender m =>
    obtain ⟨hm, rfl⟩ := htell.notice
    obtain ⟨t₁, q, o, hc, ⟨rec, hr⟩, -, -, hnoticed⟩ := h.notice_source (h.sent_of_move ht hm)
    cases hnoticed with
    | repeated hf hr' hb hrec hres =>
      show m.failedNode.isSome = false
      rw [hf]
      rfl
    | lost hf hs hl =>
      rcases hl with hv | ⟨t₂, ht₂, -, who, hm₂⟩
      · rw [(hu t₁ hc.mem).reaches hc.carries hr] at hv
        cases hv
      · have := (hu t₂ ht₂).1
        rw [hm₂] at this
        cases this

/-- No primary is asked about an update. -/
theorem Untroubled.not_checked (hu : g.Untroubled)
    (h : Reached (start ids config affinity processors) g)
    (hw : Underway g.log n hd c id a t₀ c₀ es) : a.checkSent = false := by
  rw [← Bool.not_eq_true]
  intro hsent
  have hfresh : (t₀.opening c₀ a.primary).Fresh := t₀.opening_fresh _ _
  rw [hw.attempt] at hsent
  obtain ⟨e, he, hl⟩ := Attempt.loses_of_checkSent hfresh hsent
  obtain ⟨t, ht, -, htell⟩ := hw.told e he
  rw [hu.keeps h ht htell] at hl
  cases hl

/-- A positive answer is that of a primary that has carried the request out. -/
theorem Reached.answered (h : Reached (start ids config affinity processors) g)
    (hu : g.Untroubled) {p : NodeId} (hl : g.Launched n id p) {r : UpdateResponse}
    (hs : g.Sent s n (.updateResponse r)) (hi : r.future = id) (he : r.hasError = false)
    (hr : r.needsRemap = false) :
    ∃ t q, g.Carried n id p t q ∧ t.Direct n q ∧ r = t.answer n q := by
  have hanswered := (h.answer_source hl hs hi).2 he hr
  cases hanswered with
  | carried hc ha => exact ⟨_, _, hc, Moment.direct_of_answers ha, rfl⟩
  | confirmed hw hd hmap hsent hnear =>
    rw [hu.not_checked h hw] at hsent
    cases hsent

/-- What is handed on was not refused. -/
theorem Reached.accepted_of_receiver (h : Reached (start ids config affinity processors) g)
    {p : NodeId} {q : UpdateRequest} (hc : g.Carried n id p t q)
    (hne : (t.gathered n q).receivers.isEmpty = false) : t.before.rejections q = [] := by
  obtain ⟨t₀, -, hd, c, hs⟩ := h.served t hc.mem n q hc.carries
  obtain ⟨e, he, -⟩ := c.update.entries_payload
  have he : q.payload.entries = [e] := by
    rw [hs.request]
    exact he
  obtain ⟨w, hw⟩ := Moment.written_of_receiver he hne
  exact Node.rejections_of_written he hw

/-! ## What attempts have returned -/

/-- The return `r` was reported of the request of the attempt `a` of `n`, with the number `id`,
which the primary has carried out at `t`. -/
structure Reports (g : Grid) (n : NodeId) (id : FutureId) (a : Attempt) (r : UpdateReturn)
    (p : NodeId) (t : Moment) (q : UpdateRequest) : Prop extends g.Carried n id p t q where
  accepted : t.before.rejections q = []
  ret : r = t.reported n q
  answered : t.Direct n q → a.responded = true

/-- The attempt `a` of `n`, with the number `id`, has returned `ret`: what was reported of its
request, if the result is known. -/
structure Gained (g : Grid) (n : NodeId) (id : FutureId) (a : Attempt) (ret : Option UpdateReturn) :
    Prop where
  known : a.hasResult = true → ret.isSome = true
  reported : ∀ r, ret = some r → ∃ p t q, g.Reports n id a r p t q

/-- What a submission of `n` has returned, it has by its current attempt. -/
structure Gains (g : Grid) (n : NodeId) (c : Submission) : Prop where
  idle : c.isDone = false → c.future = none → c.ret = none
  current : ∀ id a, c.future = some id → c.attempt = some a → g.Gained n id a c.ret

theorem Gained.mono {ret : Option UpdateReturn} (hg : g.Gained n id a ret)
    (hL : g.log ⊆ g'.log) : g'.Gained n id a ret where
  known := hg.known
  reported r hr :=
    let ⟨p, t, q, hr⟩ := hg.reported r hr
    ⟨p, t, q, { hr with mem := hL hr.mem }⟩

theorem Gains.mono (hg : g.Gains n c) (hL : g.log ⊆ g'.log) : g'.Gains n c where
  idle := hg.idle
  current id a hf ha := (hg.current id a hf ha).mono hL

theorem gained_none (h : a.hasResult = false) : g.Gained n id a none where
  known hr := absurd hr (by simp [h])
  reported r hr := nomatch hr

theorem Gained.hear {ret : Option UpdateReturn} (hg : g.Gained n id a ret) {e : News}
    (hr : (a.hear e).1.hasResult = true → a.hasResult = true) :
    g.Gained n id (a.hear e).1 ret where
  known h := hg.known (hr h)
  reported r he := by
    obtain ⟨p, t, q, hr⟩ := hg.reported r he
    have hans (hd : t.Direct n q) : (a.hear e).1.responded = true := by
      rw [Attempt.responded_hear, hr.answered hd, Bool.true_or]
    exact ⟨p, t, q, { hr with answered := hans }⟩

/-- The primary's answer is all that was ever reported. -/
theorem Gained.answer (hg : g.Gained n id a c.ret)
    (h : Reached (start ids config affinity processors) g) (hu : g.Untroubled) {p : NodeId}
    (hl : g.Launched n id p) {r : UpdateResponse} (hs : g.Sent s n (.updateResponse r))
    (hi : r.future = id) (he : r.hasError = false) (hr : r.needsRemap = false)
    (hnew : a.responded = false) :
    g.Gained n id (a.hear (.answer r.mapping)).1
      ((Word.answer r).returned c.update.operation c.ret) := by
  obtain ⟨t, q, hc, hdir, rfl⟩ := h.answered hu hl hs hi he hr
  have hret : (t.answer n q).ret = some (t.before.applied t.view n q).ret := by
    rw [Moment.answer_eq]
    rfl
  -- what the backups report, the primary does not answer
  have hnone : c.ret = none := by
    cases hold : c.ret with
    | none => rfl
    | some old =>
      obtain ⟨p', t', q', hr'⟩ := hg.reported old hold
      obtain ⟨rfl, rfl⟩ := h.carried_unique hc hr'.toCarried
      rw [hr'.answered hdir] at hnew
      cases hnew
  have hreturned : (Word.answer (t.answer n q)).returned c.update.operation c.ret =
      some (t.reported n q) := by
    simp only [Word.returned, hret, hnone, Moment.reported, if_pos hdir]
  have hresp : (a.hear (.answer (t.answer n q).mapping)).1.responded = true := by
    simp [Attempt.responded_hear, News.answers]
  have haccepted : t.before.rejections q = [] := by
    rw [← Node.failedKeys_applied t.view t.before n q]
    rw [Moment.answer_eq] at he
    unfold UpdateResponse.hasError at he
    simp only [Bool.or_eq_false_iff, Bool.not_eq_false', List.isEmpty_iff] at he
    exact he.2
  rw [hreturned]
  refine ⟨fun _ => rfl, fun r' hr' => ⟨p, t, q, hc, haccepted, ?_, fun _ => hresp⟩⟩
  exact (Option.some_inj.1 hr').symm

/-- A notice tells the result, or not. -/
theorem Gained.notice (hg : g.Gained n id a c.ret)
    (h : Reached (start ids config affinity processors) g) (hu : g.Untroubled) {m : BackupNotice}
    (ht : t ∈ g.log) (hn : t.node = n) (hi : m.future = id)
    (hm : t.move = .receive s (.backupNotice m)) :
    g.Gained n id (a.hear (.notice s m)).1
      ((Word.notice s m).returned c.update.operation c.ret) := by
  cases hres : m.result? with
  | none =>
    have hsame : (Word.notice s m).returned c.update.operation c.ret = c.ret := by
      simp [Word.returned, hres]
    rw [hsame]
    exact hg.hear fun hr =>
      (Attempt.hasResult_hear hr).resolve_right (by simp [News.hasResult, hres])
  | some success =>
    have hsent := h.sent_of_move ht hm
    rw [hn] at hsent
    obtain ⟨t₁, q, o, hc, ⟨rec, hrec⟩, -, -, hnoticed⟩ := h.notice_source hsent
    have haccepted := h.accepted_of_receiver hc (SortedMap.not_isEmpty_of_get? hrec)
    have htell : t.Tells id (.notice s m) :=
      ⟨by rw [hm]; exact congrArg some hi, by rw [hm]; rfl⟩
    have hloses : m.failedNode.isSome = false := hu.keeps h ht htell
    obtain ⟨hnot, hrep⟩ : ¬ t₁.Direct n q ∧ t₁.reported n q = .flag success := by
      cases hnoticed with
      | lost hf hs hl =>
        rw [hf] at hloses
        cases hloses
      | repeated hf hr hb hrec hres' =>
        subst hb
        exact Moment.reported_of_result hr (hres'.symm.trans hres)
    rw [hi] at hc
    constructor
    · intro _
      simp only [Word.returned, hres, Option.map_some]
      cases c.ret <;> rfl
    · intro r hr
      cases hold : c.ret with
      | none =>
        simp only [Word.returned, hres, hold, Option.map_some, Option.none_or,
          Option.some_inj] at hr
        exact ⟨m.primary, t₁, q, hc, haccepted, hr.symm.trans hrep.symm, fun hd => absurd hd hnot⟩
      | some old =>
        obtain ⟨p, t', q', hr'⟩ := hg.reported old hold
        obtain ⟨rfl, rfl⟩ := h.carried_unique hc hr'.toCarried
        simp only [Word.returned, hres, hold, Option.some_or, Option.some_inj] at hr
        exact ⟨p, _, _, hr'.toCarried, haccepted, hr.symm.trans hr'.ret, fun hd => absurd hd hnot⟩

/-- What a word adds to what an attempt has returned. -/
theorem Gained.word (hg : g.Gained t.node id a c.ret)
    (h : Reached (start ids config affinity processors) g) (hu : g.Untroubled) (ht : t ∈ g.log)
    (hl : g.Launched t.node id a.primary) (hw : t.word? id = some w)
    (hans : ∀ r, w = .answer r → r.hasError = false ∧ a.responded = false) :
    g.Gained t.node id (a.hear w.news).1 (w.returned c.update.operation c.ret) := by
  obtain ⟨hanswer, hnotice⟩ := Moment.receives_of_word hw
  cases w with
  | answer r =>
    obtain ⟨hr, hi, s, hm⟩ := hanswer r rfl
    obtain ⟨he, hnew⟩ := hans r rfl
    exact hg.answer h hu hl (h.sent_of_move ht hm) hi he hr hnew
  | notice s m =>
    obtain ⟨hi, hm⟩ := hnotice s m rfl
    exact hg.notice h hu ht rfl hi hm
  | mapping nodes =>
    exact hg.hear fun hr => (Attempt.hasResult_hear hr).resolve_right Bool.false_ne_true
  | departure o =>
    exact hg.hear fun hr => (Attempt.hasResult_hear hr).resolve_right Bool.false_ne_true

/-! ## Turns -/

/-- A submission without an attempt has returned nothing. -/
theorem gains_between (hf : c.future = none) (hr : c.isDone = false → c.ret = none) :
    g.Gains n c where
  idle hd _ := hr hd
  current id a hf' _ := by
    rw [hf] at hf'
    cases hf'

theorem Gains.course {x : Submission × List SubmissionAction} {q : Option UpdateRequest}
    {y : Option Answer} (hg : g.Gains t.node c)
    (h : Reached (start ids config affinity processors) g) (hu : g.Untroubled) (ht : t ∈ g.log)
    (hl : ∀ id a, c.future = some id → c.attempt = some a → g.Launched t.node id a.primary)
    (hx : Node.Course t.view t.before t.move c q y x) : g.Gains t.node x.1 := by
  have hover {z : Submission × List SubmissionAction}
      (hb : z.1.future = none ∧ (z.1.isDone = false → z.1.Blank)) : g.Gains t.node z.1 :=
    gains_between hb.1 fun hd => (hb.2 hd).ret
  cases hx with
  | unchanged => exact hg
  | declined hd hf ha hx => exact hover hx.blank
  | failed hd hf he => exact gains_between rfl (by simp)
  | @told id a w x hd hf ha hi hw hpos hx hnew htell =>
    have hword : t.word? id = some w := by
      rw [Moment.word?, if_pos hi]
      exact hw
    have hgained := (hg.current id a hf ha).word h hu ht (hl id a hf ha) hword
      fun r he => ⟨hpos r he, hnew r he⟩
    have hgoes (b : Attempt) (ret : Option UpdateReturn) (hb : g.Gained t.node id b ret) :
        g.Gains t.node { c with attempt := some b, ret } := by
      constructor
      · intro _ hnone
        rw [hf] at hnone
        cases hnone
      · intro id' b' hf' hb'
        cases Option.some_inj.1 (hf.symm.trans hf')
        cases hb'
        exact hb
    unfold Submission.Tells at hx
    generalize (a.hear w.news).2 = p at hx
    cases hx with
    | pending => exact hgoes _ _ hgained
    | unconfirmed => exact hgoes _ _ hgained
    | finished hn => exact gains_between rfl fun _ => rfl
  | charted hm hd hf ha hok hx =>
    cases hx with
    | failed he => exact gains_between rfl (by simp)
    | parked hadm => exact hg
    | ownerless hl he => exact gains_between rfl (by simp)
    | unsent hl hr hy => exact hover hy.blank
    | async hl hr outcome => exact gains_between rfl (by simp)
    | @sent hl primary hr =>
      constructor
      · intro _ hnone
        cases hnone
      · intro id' b hf' hb
        cases hb
        have hret : c.ret = none := hg.idle hd hf
        show g.Gained t.node id' _ c.ret
        rw [hret]
        exact gained_none rfl

/-- All submissions of a node have returned what was reported. -/
def Earns (g : Grid) (n : NodeId) (x : Node) : Prop :=
  ∀ hd c, x.submissions.get? hd = some c → g.Gains n c

/-- All submissions, of all times, have returned what was reported. -/
structure Earned (g : Grid) : Prop where
  now : ∀ n, g.Earns n (g.nodes n)
  before : ∀ t ∈ g.log, g.Earns t.node t.before

theorem Earns.mono {x : Node} (hx : g.Earns n x) (hL : g.log ⊆ g'.log) : g'.Earns n x :=
  fun hd c hs => (hx hd c hs).mono hL

/-- Steps that are no moves of nodes change nothing. -/
theorem Earned.same (he : g.Earned) (hlog : g'.log = g.log) (hnodes : g'.nodes = g.nodes) :
    g'.Earned where
  now n := hnodes ▸ (he.now n).mono (hlog ▸ List.Subset.refl _)
  before t ht := (he.before t (hlog ▸ ht)).mono (hlog ▸ List.Subset.refl _)

theorem Earns.moment (hx : g.Earns t.node t.before)
    (h : Reached (start ids config affinity processors) g) (hu : g.Untroubled) (ht : t ∈ g.log) :
    g.Earns t.node t.after := by
  intro hd c hs
  have hturn : t.before.Turn t.view t.move (t.before.move t.view t.move) := Node.turn_move t.move
  cases hturn with
  | carried hb hco ha => exact hx hd c (ha.submissions ▸ hs)
  | acknowledged hk ha => exact hx hd c (ha.submissions ▸ hs)
  | plain hp ha => exact hx hd c (ha.submissions ▸ hs)
  | @submission hd' c₀ x hturn ha =>
    rw [Moment.after, ha.submissions, SortedMap.get?_insert_ite] at hs
    split at hs
    next he =>
      rw [Option.some_inj] at hs
      subst hs
      have ho := h.orderly t ht
      obtain ⟨waiting, hc, hdue⟩ := ho.coherent
      obtain ⟨q, y, -, -, hcourse⟩ := Moment.course_turn hc (h.attended.before t ht).numbered hdue
        (fun task e hm => absurd hm (ho.awaited task e)) hturn
      obtain ⟨hg, hl⟩ : g.Gains t.node c₀ ∧ ∀ id a, c₀.future = some id → c₀.attempt = some a →
          g.Launched t.node id a.primary := by
        rcases hturn.known with ⟨hs₀, -⟩ | ⟨hf, -, hsub⟩
        · refine ⟨hx hd' c₀ hs₀, fun id a hf ha => ?_⟩
          obtain ⟨t₀, c₁, es, hw⟩ := h.attended.before t ht hd' c₀ id a hs₀ hf ha
          exact hw.launched
        · -- a submission that is new has returned nothing
          have hret : c₀.ret = none := by
            generalize t.move = move at hturn hsub
            cases hturn with
            | submit hfault hc => rw [hc]; rfl
            | _ => cases hsub
          refine ⟨gains_between hf fun _ => hret, fun id a hf' => ?_⟩
          rw [hf] at hf'
          cases hf'
      exact hg.course h hu ht hl hcourse
    next hne => exact hx hd c hs

theorem Reached.earned (h : Reached (start ids config affinity processors) g)
    (hu : g.Untroubled) : g.Earned := by
  induction h with
  | init => exact ⟨fun n hd c hs => (nomatch hs), fun t ht => (nomatch ht)⟩
  | @next g g' h hr hx ih =>
    have h' := h.next hr hx
    cases hx with
    | @act n move g₀ ho =>
      have hs := ho.same
      have hlog : (g₀.act n move).log = g.moment n move :: g.log := hs.log_act
      have hL : g.log ⊆ (g₀.act n move).log := hlog ▸ List.subset_cons_self _ _
      have ht : g.moment n move ∈ (g₀.act n move).log := hlog ▸ List.mem_cons_self
      have he := ih fun t ht => hu t (hL ht)
      have hbefore : (g₀.act n move).Earns n (g.nodes n) := (he.now n).mono hL
      constructor
      · intro m
        rw [hs.nodes_act]
        split
        next hmn =>
          subst hmn
          exact Earns.moment (t := g.moment m move) hbefore h' hu ht
        next => exact (he.now m).mono hL
      · intro t ht
        rw [hlog] at ht
        rcases List.mem_cons.1 ht with rfl | ht
        · exact hbefore
        · exact (he.before t ht).mono hL
    | depart hn => exact (ih hu).same rfl rfl
    | told hi ht => exact (ih hu).same rfl rfl
    | exchange members => exact (ih hu).same rfl rfl
    | settle => exact (ih hu).same rfl rfl

/-- An update that has ended well has returned what was reported of the request of its last
attempt. -/
theorem Reached.returned (h : Reached (start ids config affinity processors) g)
    (hu : g.Untroubled) {u : UpdateOutcome} (ht : t ∈ g.log)
    (hcon : t.Concludes hd c u id a w) :
    ∃ p t₁ q, g.Carried t.node id p t₁ q ∧ t₁.before.rejections q = [] ∧
      u = c.outcome (some (t₁.reported t.node q)) := by
  obtain ⟨t₀, c₀, es, hw⟩ := h.attended.before t ht hd c id a hcon.before hcon.future hcon.attempt
  have hg := (h.earned hu).before t ht hd c hcon.before
  have hgained := (hg.current id a hcon.future hcon.attempt).word h hu ht hw.launched hcon.word
    hcon.answer
  have hresult : (a.hear w.news).1.hasResult = true := by
    rcases Attempt.finished_hear hcon.finished with he | hcomplete
    · refine (hw.knows_hear w.news).hasResult.2 (.inl ⟨none, ?_⟩)
      rw [he]
      exact List.mem_cons_self
    · exact hcomplete.1
  obtain ⟨ret, hret⟩ := Option.isSome_iff_exists.1 (hgained.known hresult)
  obtain ⟨p, t₁, q, hr⟩ := hgained.reported ret hret
  refine ⟨p, t₁, q, hr.toCarried, hr.accepted, ?_⟩
  rw [hcon.outcome, hret, hr.ret]

end Grid

end AtomicGrid
