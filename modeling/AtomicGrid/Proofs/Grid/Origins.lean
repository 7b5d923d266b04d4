import AtomicGrid.Proofs.Grid.Attempts
import AtomicGrid.Proofs.Grid.Fanouts

/-!
# Where messages come from

Every message goes back to an attempt that was launched, or to a request that was carried out,
declined, confirmed or backed up.

## Results

* `Grid.Reached.origin`: where a message comes from.
-/

set_option autoImplicit false

namespace AtomicGrid

namespace Node

variable {view : View} {h : Handle} {near : Bool} {r : NodeId} {m : Message}

theorem sent_of_submission {as : List SubmissionAction}
    (he : .sent r m ∈ as.flatMap (SubmissionAction.effects view h near)) :
    .send r m ∈ as ∧ view.reaches r = true := by
  obtain ⟨a, ha, he⟩ := List.mem_flatMap.1 he
  cases a with
  | send r' m' =>
    obtain ⟨hr, rfl, rfl⟩ := sent_transmission (List.mem_singleton.1 he)
    exact ⟨ha, hr⟩
  | await v => cases List.mem_singleton.1 he
  | writeNear key value version ttl =>
    rw [SubmissionAction.effects] at he
    split at he
    · cases List.mem_singleton.1 he
    · cases he
  | enlist => cases he
  | retire => cases he

theorem sent_of_fanout {as : List FanoutAction}
    (he : .sent r m ∈ as.flatMap (FanoutAction.effects view)) : view.reaches r = true ∧
      (.send r m ∈ as ∨ ∃ resp, .reply (.node r) resp ∈ as ∧ m = .updateResponse resp) := by
  obtain ⟨a, ha, he⟩ := List.mem_flatMap.1 he
  cases a with
  | send r' m' =>
    obtain ⟨hr, rfl, rfl⟩ := sent_transmission (List.mem_singleton.1 he)
    exact ⟨hr, .inl ha⟩
  | reply route resp =>
    cases route with
    | node r' =>
      obtain ⟨hr, rfl, rfl⟩ := sent_transmission (List.mem_singleton.1 he)
      exact ⟨hr, .inr ⟨resp, ha, rfl⟩⟩
    | nobody => cases he
    | label name => cases List.mem_singleton.1 he
  | notify listener success => cases List.mem_singleton.1 he
  | enlist => cases he
  | retire => cases he

/-- A node that no coordinator tells to sends answers and notices, and nothing else. -/
theorem sent_of_plain {n : Node} {move : Move} {es : List Effect} (hp : PlainTurn view n move es)
    (he : .sent r m ∈ es) : (∃ resp, m = .updateResponse resp) ∨ ∃ b, m = .backupNotice b :=
  message_of_plain hp (List.mem_filterMap.2 ⟨_, he, rfl⟩)

end Node

theorem Submission.not_send_over {c : Submission} {x : Submission × List SubmissionAction}
    (ho : c.Over x) {r : NodeId} {m : Message} : .send r m ∉ x.2 := by
  cases ho with
  | failed => simp
  | waits => simp

/-- Only a loss is told to anybody. -/
theorem Fanout.not_send_register {f : Fanout} {site : Site} (hs : f.Sound) {n r : NodeId}
    {m : Message} : .send r m ∉ (f.register site n false).2.1 := by
  have hr := Fanout.recorded_register site hs n false
  generalize f.register site n false = x at hr ⊢
  obtain ⟨f', as, b⟩ := x
  cases hr with
  | ignored => simp
  | counted => simp
  | finished => simp

/-- The submission `c` asks the primary `r` of its attempt about it, and becomes `c'`. -/
structure Submission.Checks (c c' : Submission) (r : NodeId) (m : Message) (id : FutureId)
    (a : Attempt) : Prop where
  future : c.future = some id
  after : ∃ ret, c' = { c with attempt := some a, ret }
  deserted : a.Deserted
  checked : a.checkSent = true
  primary : r = a.primary
  message : m = .checkRequest ⟨a.request.toEnvelope, some a.request⟩

/-- A submission sends the request of the attempt that it launches, and nothing else to its primary,
or asks a primary about it. -/
theorem Moment.sends_submission {t : Moment} (ho : t.Orderly) (hn : t.before.Numbered) {h : Handle}
    {c : Submission} {x : Submission × List SubmissionAction}
    (hturn : Node.SubmissionTurn t.view t.before t.move h c x) {r : NodeId} {m : Message}
    (hs : .send r m ∈ x.2) (hv : t.view.reaches r = true) :
    (m = .updateRequest (t.request c) ∧ t.Launches h c r ∧ t.sentTo r = [m]) ∨
      ∃ id a, c.Checks x.1 r m id a := by
  obtain ⟨waiting, hcoh, hdue⟩ := ho.coherent
  have hsent : t.sentTo r = (x.2.flatMap
      (SubmissionAction.effects t.view h t.before.nearCache.isSome)).filterMap
        (Effect.sentTo? r) :=
    congrArg (·.filterMap (Effect.sentTo? r)) (Node.submission_move hturn).effects
  cases Node.treats_turn hcoh hn hdue hturn with
  | mapped hmaps hf ha hx =>
    cases hx with
    | done => cases hs
    | ended _ hov => exact absurd hs (Submission.not_send_over hov)
    | ownerless _ _ hov =>
      rcases List.mem_cons.1 hs with hs | hs
      · cases hs
      · exact absurd hs (Submission.not_send_over hov)
    | refused hl hp hr hov =>
      rcases List.mem_cons.1 hs with hs | hs
      · cases hs
      rcases List.mem_cons.1 hs with hs | hs
      · cases hs
        simp [Option.isNone_iff_eq_none.1 hv] at hr
      · exact absurd hs (Submission.not_send_over hov)
    | @async hl primary hp hr hsync hne outcome =>
      have hm : r = primary ∧ m = .updateRequest (t.request c) := by
        simpa [Moment.request, Moment.number] using hs
      obtain ⟨rfl, rfl⟩ := hm
      refine .inl ⟨rfl, launches_of_turn hturn hmaps hl hp hr hs, ?_⟩
      rw [hsent]
      simp [SubmissionAction.effects, Node.transmission, hv, Effect.sentTo?, Message.received,
        Moment.request, Moment.number]
    | @sent hl primary hp hr hsync =>
      have hm : r = primary ∧ m = .updateRequest (t.request c) := by
        simpa [Moment.request, Moment.number] using hs
      obtain ⟨rfl, rfl⟩ := hm
      refine .inl ⟨rfl, launches_of_turn hturn hmaps hl hp hr hs, ?_⟩
      rw [hsent]
      simp [SubmissionAction.effects, Node.transmission, hv, Effect.sentTo?, Message.received,
        Moment.request, Moment.number]
  | @heard id a hsub hd hf ha hi hx =>
    cases hx with
    | ended hov => exact absurd hs (Submission.not_send_over hov)
    | ignored hx =>
      subst hx
      cases hs
    | @heard e ret he hfol hans hlost =>
      generalize hp : (a.hear e).2 = progress at hfol
      cases hfol with
      | pending => cases hs
      | unconfirmed =>
        cases List.mem_singleton.1 hs
        exact .inr ⟨id, (a.hear e).1, hf, ⟨ret, rfl⟩, (Attempt.unconfirmed_hear hp).1,
          (Attempt.unconfirmed_hear hp).2.1, rfl, rfl⟩
      | finished hn =>
        rcases List.mem_append.1 hs with hs | hs
        · obtain ⟨_, _, _, _, hx⟩ := hn _ hs
          cases hx
        · simp at hs

namespace Grid

variable {config : Config} {affinity : Affinity} {processors : Processors} {ids : List NodeId}
  {g : Grid}

/-- Why the primary answers: nobody has to be heard first, or everybody was. -/
def Answers (L : List Moment) (t : Moment) (near : NodeId) (q : UpdateRequest) : Prop :=
  (t.gathered near q).receivers.isEmpty = true ∨
    (t.gathered near q).repliesAtOnce t.before.site (t.before.applied t.view near q).ret = true ∨
    (t.gathered near q).relays t.before.site = false ∧
      ∀ o r, (t.gathered near q).receivers.get? o = some r →
        t.view.reaches o = false ∨ Recorded L t.node t.number (t.opened near q) o

/-- Where a message from `s` to `r` comes from. -/
inductive Origin (L : List Moment) (s r : NodeId) : Message → Prop
  | request {t : Moment} {h : Handle} {c : Submission} (ht : t ∈ L) (hn : t.node = s)
      (hl : t.Launches h c r) : Origin L s r (.updateRequest (t.request c))
  | check {h : Handle} {c : Submission} {id : FutureId} {a : Attempt} {t : Moment}
      {c₀ : Submission} {es : List News} (hu : Underway L s h c id a t c₀ es)
      (hp : a.primary = r) (hd : a.Deserted) (hsent : a.checkSent = true) :
      Origin L s r (.checkRequest ⟨a.request.toEnvelope, none⟩)
  | backup {t : Moment} {near : NodeId} {q : UpdateRequest} {rec : Receiver} (ht : t ∈ L)
      (hn : t.node = s) (hc : t.CarriesOut near q)
      (hr : (t.prepared near q).receivers.get? r = some rec) (hv : t.view.reaches r = true) :
      Origin L s r (.backupRequest rec.request)
  | mapping {t : Moment} {q : UpdateRequest} (ht : t ∈ L) (hn : t.node = s)
      (hc : t.CarriesOut r q) (hv : t.view.reaches r = true)
      (hr : (t.gathered r q).relays t.before.site = true)
      (hne : (t.gathered r q).receivers.isEmpty = false) {m : MappingNotice}
      (hm : m = ⟨⟨t.before.site.cacheId, (t.gathered r q).base.partition, q.future⟩,
        (t.gathered r q).nodes⟩) : Origin L s r (.mappingNotice m)
  | loss {t : Moment} {q : UpdateRequest} {o : NodeId} {rec : Receiver} (ht : t ∈ L)
      (hn : t.node = s) (hc : t.CarriesOut r q) (hv : t.view.reaches r = true)
      (hr : (t.gathered r q).receivers.get? o = some rec) (hs : q.syncMode = .fullSync)
      (hl : t.view.reaches o = false ∨
        ∃ t' ∈ L, t'.node = s ∧ ∃ who, t'.move = .lose o (t.number, who))
      {m : BackupNotice}
      (hm : (t.gathered r q).lossNotice t.before.site o = .send r (.backupNotice m)) :
      Origin L s r (.backupNotice m)
  | answer {t : Moment} {near : NodeId} {q : UpdateRequest} (ht : t ∈ L) (hn : t.node = s)
      (hc : t.CarriesOut near q) (hr : t.before.route near q = .node r)
      (hv : t.view.reaches r = true) (ha : Answers L t near q) :
      Origin L s r (.updateResponse (t.answer near q))
  | declined {t : Moment} {q : UpdateRequest} {resp : UpdateResponse} (ht : t ∈ L)
      (hn : t.node = s) (hd : t.Declines r q resp) : Origin L s r (.updateResponse resp)
  | confirmed {t : Moment} {m : CheckRequest} (ht : t ∈ L) (hn : t.node = s)
      (hm : t.move = .receive r (.checkRequest m)) : Origin L s r
        (.updateResponse { t.before.answerTo m.toEnvelope with ret := some (.flag true) })
  | acknowledged {t : Moment} {b : BackupRequest} (ht : t ∈ L) (hn : t.node = s)
      (hm : t.move = .receive r (.backupRequest b)) :
      Origin L s r (.updateResponse (t.before.acknowledgement b))
  | notice {t : Moment} {b : BackupRequest} {p : NodeId} (ht : t ∈ L) (hn : t.node = s)
      (hm : t.move = .receive p (.backupRequest b)) (hf : b.flags.nearReply = true)
      (hr : b.nearNode = r) : Origin L s r (.backupNotice (b.notice t.before.site p))

theorem base_gathered (t : Moment) (near : NodeId) (q : UpdateRequest) :
    (t.gathered near q).base = t.before.backupBase near q := Node.base_applied

theorem origin_submission {L : List Moment} {t : Moment} (ht : t ∈ L)
    (hbefore : Attends L t.node t.before) (hafter : Attends L t.node t.after) (ho : t.Orderly)
    {h : Handle} {c : Submission} {x : Submission × List SubmissionAction}
    (hturn : Node.SubmissionTurn t.view t.before t.move h c x) {r : NodeId} {m : Message}
    (hs : .send r m ∈ x.2) (hv : t.view.reaches r = true) : Origin L t.node r m.received := by
  rcases Moment.sends_submission ho hbefore.numbered hturn hs hv with ⟨rfl, hl, -⟩ | ⟨id, a, hk⟩
  · exact .request ht rfl hl
  · obtain ⟨ret, hret⟩ := hk.after
    have hcur : t.after.submissions.get? h = some { c with attempt := some a, ret } := by
      rw [Moment.after, (Node.submission_move hturn).submissions, SortedMap.get?_insert_self, hret]
    obtain ⟨t₀, c₀, es, hu⟩ := hafter h _ id a hcur hk.future rfl
    rw [hk.message]
    exact .check hu hk.primary.symm hk.deserted hk.checked

theorem origin_opened {L : List Moment} {t : Moment} (ht : t ∈ L) {near : NodeId}
    {q : UpdateRequest} (hc : t.CarriesOut near q) {r : NodeId} (hv : t.view.reaches r = true)
    {act : FanoutAction} (ha : act ∈ (t.before.opened t.view near q).2) {m : Message}
    (hm : act = .send r m ∨ ∃ resp, act = .reply (.node r) resp ∧ m = .updateResponse resp) :
    Origin L t.node r m.received := by
  have ho := t.opened_gathered near q
  have hask := ho.asks act ha
  have hbase := base_gathered t near q
  cases hask with
  | enlist => simp at hm
  | retire => simp at hm
  | @request o rec h =>
    simp only [FanoutAction.send.injEq, reduceCtorEq, false_and, exists_false, or_false] at hm
    obtain ⟨rfl, rfl⟩ := hm
    exact .backup ht rfl hc h hv
  | @loss o rec h hvo hs =>
    have hm : (t.gathered near q).lossNotice t.before.site o = .send r m := by
      simpa [Fanout.lossNotice] using hm
    have hnear : near = r := by
      simp only [Fanout.lossNotice, FanoutAction.send.injEq, hbase] at hm
      exact hm.1
    subst hnear
    have hs : q.syncMode = .fullSync := by rw [← hs, hbase]; rfl
    cases m with
    | backupNotice m => exact .loss ht rfl hc hv h hs (.inl hvo) hm
    | _ => simp [Fanout.lossNotice] at hm
  | mapping hr hne =>
    simp only [FanoutAction.send.injEq, reduceCtorEq, false_and, exists_false, or_false, hbase] at hm
    obtain ⟨hnear, rfl⟩ := hm
    have hnear : near = r := hnear
    subst hnear
    exact .mapping ht rfl hc hv hr hne (by rw [hbase]; rfl)
  | reply h =>
    simp only [reduceCtorEq, FanoutAction.reply.injEq, false_or] at hm
    obtain ⟨resp, ⟨hroute, rfl⟩, rfl⟩ := hm
    refine .answer ht rfl hc hroute hv (h.imp_right fun h => h.imp_right fun h => ⟨h.1, ?_⟩)
    intro o rec hrec
    have hall := (ho.sound.done.1 h.2).2
    obtain ⟨rec', hrec'⟩ := (Fanout.receiver_iff ho.same o).2
      ((Fanout.receiver_prepared o).2 ⟨rec, hrec⟩)
    exact .inl ((ho.responded o).1 ⟨rec', hrec', hall o rec' hrec'⟩).2
  | notify => simp at hm

/-- An answer that a fan-out holds back was held back as the request was carried out. -/
theorem Handing.deferred_prepared {L : List Moment} {n near : NodeId} {id : FutureId} {f : Fanout}
    {t : Moment} {q : UpdateRequest} (h : Handing L n id f t near q)
    {d : ReplyRoute × UpdateResponse} (hd : f.deferred = some d) :
    (t.prepared near q).deferred = some d := by
  have hopened : (t.opened near q).deferred = some d := by
    have := h.deferred
    rw [hd] at this
    split at this
    · cases this
    · exact this.symm
  have := (t.opened_gathered near q).deferred
  rw [show (t.before.opened t.view near q).1.deferred = _ from hopened] at this
  split at this
  · cases this
  · exact this.symm

/-- The caller's node is told of the loss of a receiver. -/
theorem origin_loss {L : List Moment} {t : Moment} (ht : t ∈ L) {id : FutureId} {f : Fanout}
    {o : NodeId} {t₁ : Moment} {near : NodeId} {q : UpdateRequest}
    (h : Handing L t.node id f t₁ near q) (hs : t₁.before.site = t.before.site)
    (hn : ∃ r, f.receivers.get? o = some r) (hr : f.repliedToNear = false)
    (hlost : ∃ who, t.move = .lose o (id, who)) {r : NodeId} (hv : t₁.view.reaches r = true)
    {m : Message} (hm : f.lossNotice t.before.site o = .send r m) :
    Origin L t.node r m.received := by
  have ho := t₁.opened_gathered near q
  have hbase := base_gathered t₁ near q
  rw [Fanout.lossNotice_eq h.same, ← hs, t₁.lossNotice_opened] at hm
  have hnear : near = r := by
    simp only [Fanout.lossNotice, FanoutAction.send.injEq, hbase] at hm
    exact hm.1
  subst hnear
  obtain ⟨rec, hrec⟩ := (Fanout.receiver_prepared o).1
    ((Fanout.receiver_iff (ho.same.trans h.same) o).1 hn)
  have hsync : q.syncMode = .fullSync := by
    have hfbase : f.base = (t₁.gathered near q).base := h.same.base.trans ho.same.base
    have := h.repliedToNear.1 hr
    rw [hfbase, hbase] at this
    exact this
  cases m with
  | backupNotice m =>
    exact .loss h.mem h.node h.carries hv hrec hsync
      (.inr ⟨t, ht, rfl, by rw [h.number]; exact hlost⟩) hm
  | _ => simp [Fanout.lossNotice] at hm

theorem origin_acknowledged {L : List Moment} {t : Moment} (ht : t ∈ L)
    (hsite : ∀ t' ∈ L, t'.node = t.node → t'.before.site = t.before.site)
    (hsince : ∀ t' ∈ L, t'.node = t.node → t'.number < t.number →
      ∀ o, t.view.reaches o = true → t'.view.reaches o = true)
    (ho' : t.Orderly) (hbefore : Hands L t.node t.before) {id : FutureId} {f : Fanout}
    {o : NodeId} {lost : Bool}
    (hk : t.before.Acknowledges t.move id f o lost)
    (ha : Node.AfterFanout t.view t.before
      ((f.register t.before.site o lost).1, (f.register t.before.site o lost).2.1)
      (t.before.move t.view t.move)) {r : NodeId} (hv : t.view.reaches r = true)
    {act : FanoutAction} (hact : act ∈ (f.register t.before.site o lost).2.1) {m : Message}
    (hm : act = .send r m ∨ ∃ resp, act = .reply (.node r) resp ∧ m = .updateResponse resp) :
    Origin L t.node r m.received := by
  obtain ⟨t₁, near, q, h⟩ := hbefore id f hk.get?
  have hs := hsite t₁ h.mem h.node
  have hv₁ : t₁.view.reaches r = true := by
    obtain ⟨waiting, hc, -⟩ := ho'.coherent
    refine hsince t₁ h.mem h.node ?_ r hv
    rw [h.number]
    exact (hc.fanouts id f hk.get?).2.2
  have ho := t₁.opened_gathered near q
  have hb := Fanout.brings_register h.sound hact
  generalize hf' : (f.register t.before.site o lost).1 = f' at hb
  cases hb with
  | retire => simp at hm
  | notify => simp at hm
  | loss hn hr =>
    cases lost with
    | false =>
      rw [Fanout.lossNotice] at hact
      exact absurd hact (Fanout.not_send_register h.sound)
    | true =>
      have hlost : ∃ who, t.move = .lose o (id, who) := by
        generalize t.move = move at hk
        cases hk with
        | departure hf gone => exact ⟨_, rfl⟩
      exact origin_loss ht h hs hn hr hlost hv₁ (by simpa [Fanout.lossNotice] using hm)
  | @reply hdone route response hd =>
    simp only [reduceCtorEq, FanoutAction.reply.injEq, false_or] at hm
    obtain ⟨resp, ⟨hroute, rfl⟩, rfl⟩ := hm
    obtain ⟨he, hrel⟩ := Fanout.deferred_prepared (h.deferred_prepared hd)
    cases he
    -- the fan-out is done, so everybody was recorded
    have h' : Handing L t.node id f' t₁ near q :=
      hf' ▸ (h.register rfl hk ha).mono (List.cons_subset.2 ⟨ht, List.Subset.refl L⟩)
    refine .answer h.mem h.node h.carries hroute hv₁ (.inr (.inr ⟨hrel, fun o' rec hrec => ?_⟩))
    obtain ⟨rec', hrec'⟩ := (Fanout.receiver_iff (ho.same.trans h'.same) o').2
      ((Fanout.receiver_prepared o').2 ⟨rec, hrec⟩)
    have hresp := (h'.sound.done.1 hdone).2 o' rec' hrec'
    rw [h'.node, h'.number]
    exact h'.recorded o' ⟨rec', hrec', hresp⟩

theorem origin_moment {L : List Moment} {t : Moment} (ht : t ∈ L)
    (hsite : ∀ t' ∈ L, t'.node = t.node → t'.before.site = t.before.site)
    (hsince : ∀ t' ∈ L, t'.node = t.node → t'.number < t.number →
      ∀ o, t.view.reaches o = true → t'.view.reaches o = true)
    (hatt : Attends L t.node t.before) (hhand : Hands L t.node t.before) (ho : t.Orderly)
    {r : NodeId} {m : Message} (hm : m ∈ t.sentTo r) : Origin L t.node r m := by
  obtain ⟨m, he, rfl⟩ := Moment.mem_sentTo.1 hm
  obtain ⟨waiting, hc, hdue⟩ := ho.coherent
  have hsub : t :: L ⊆ L := List.cons_subset.2 ⟨ht, List.Subset.refl L⟩
  have hturn : t.before.Turn t.view t.move (t.before.move t.view t.move) := Node.turn_move t.move
  have he : .sent r m ∈ (t.before.move t.view t.move).2 := he
  cases hturn with
  | submission hturn ha =>
    rw [ha.effects] at he
    obtain ⟨hs, hv⟩ := Node.sent_of_submission he
    exact origin_submission ht hatt ((attends_moment hatt hc hdue).mono hsub) ho hturn hs hv
  | carried hb hco ha =>
    rw [ha.effects] at he
    obtain ⟨hv, hs | ⟨resp, hs, rfl⟩⟩ := Node.sent_of_fanout he
    · exact origin_opened ht ⟨hb, hco⟩ hv hs (.inl rfl)
    · exact origin_opened ht ⟨hb, hco⟩ hv hs (.inr ⟨resp, rfl, rfl⟩)
  | acknowledged hk ha =>
    rw [ha.effects] at he
    obtain ⟨hv, hs | ⟨resp, hs, rfl⟩⟩ := Node.sent_of_fanout he
    · exact origin_acknowledged ht hsite hsince ho hhand hk ha hv hs (.inl rfl)
    · exact origin_acknowledged ht hsite hsince ho hhand hk ha hv hs (.inr ⟨resp, rfl, rfl⟩)
  | plain hp ha =>
    have heff : t.effects = (t.before.move t.view t.move).2 := rfl
    generalize (t.before.move t.view t.move).2 = es at hp he heff
    generalize hmove : t.move = move at hp
    cases hp with
    | quiet => cases he
    | @declined sender q resp _ hb hd hcache =>
      obtain ⟨-, rfl, rfl⟩ := Node.sent_transmission (List.mem_singleton.1 he)
      refine .declined (q := q) ht rfl ⟨?_, hd, hcache, ?_⟩
      · rcases hb with hb | ⟨e, he⟩
        · exact hmove ▸ hb
        · exact absurd (hmove.trans he) (ho.awaited _ e)
      · rw [heff]
        exact List.mem_singleton_self _
    | deferred hb hd => cases List.mem_singleton.1 he
    | confirmed hcache =>
      obtain ⟨-, rfl, rfl⟩ := Node.sent_transmission (List.mem_singleton.1 he)
      exact .confirmed ht rfl hmove
    | backedUp hcache =>
      rcases Node.mem_effects_backUp he with ⟨_, _, _, _, hx⟩ | he | ⟨hf, he⟩
      · cases hx
      · obtain ⟨-, rfl, rfl⟩ := Node.sent_transmission he
        exact .acknowledged ht rfl hmove
      · obtain ⟨-, hr, rfl⟩ := Node.sent_transmission he
        exact .notice ht rfl hmove hf hr

theorem Reached.origin (h : Reached (start ids config affinity processors) g) {s r : NodeId}
    {m : Message} (hm : g.Sent s r m) : Origin g.log s r m := by
  obtain ⟨t, ht, rfl, hm⟩ := hm
  refine origin_moment ht (fun t' ht' hn => ?_)
    (fun t' ht' hn hlt => h.ordered.since t' ht' t ht hn hlt) (h.attended.before t ht)
    (h.handed.before t ht) (h.orderly t ht) hm
  rw [(h.framed.common t' ht').site, (h.framed.common t ht).site, hn]

end Grid

end AtomicGrid
