import AtomicGrid.Proofs.Grid.Origins

/-!
# Whose news they are

A request that is carried out was sent by an attempt on its caller's node, and news of it are news
for this attempt, from those it waits for.

## Results

* `Grid.Reached.served`: whose requests are carried out.
* `Grid.Reached.concerns`: news for an attempt are from those it waits for.
* `Grid.Reached.named`: whom an attempt is told to hear.
-/

set_option autoImplicit false

namespace AtomicGrid

/-- The request that a backup gets when `q`, from `near`, is carried out at `t`. -/
structure Moment.Repeats (t : Moment) (near : NodeId) (q : UpdateRequest) (b : BackupRequest) :
    Prop where
  cacheId : b.cacheId = t.before.site.cacheId
  future : b.future = t.number
  nearFuture : b.nearFuture = q.future
  nearNode : b.nearNode = near
  writeVersion : b.writeVersion = q.writeVersion
  relayed : (t.gathered near q).relays t.before.site = true →
    b.mapping = some (t.gathered near q).nodes ∧ b.flags.nearReply = true
  result : (t.gathered near q).relays t.before.site = true →
    (t.gathered near q).repliesAtOnce t.before.site (t.before.applied t.view near q).ret = false →
    b.result?.isSome = true
  plain : (t.gathered near q).relays t.before.site = false → b.flags.nearReply = false

namespace Moment

variable {t : Moment} {near : NodeId} {q : UpdateRequest}

/-- What all receivers get alike. -/
theorem repeats_of_blank {r : BackupRequest}
    (h : Fanout.blank r = Fanout.blank (t.before.backupBase near q)) :
    r.cacheId = t.before.site.cacheId ∧ r.future = t.number ∧ r.nearFuture = q.future ∧
      r.nearNode = near ∧ r.writeVersion = q.writeVersion ∧ r.flags.nearReply = false := by
  have hf {α : Type} (f : BackupRequest → α) : f (Fanout.blank r) =
      f (Fanout.blank (t.before.backupBase near q)) := congrArg f h
  exact ⟨hf (·.cacheId), hf (·.future), hf (·.nearFuture), hf (·.nearNode), hf (·.writeVersion),
    hf (·.flags.nearReply)⟩

theorem repeats_prepared {o : NodeId} {rec : Receiver}
    (hr : (t.prepared near q).receivers.get? o = some rec) : t.Repeats near q rec.request := by
  have hg : Fanout.Gathers (t.before.backupBase near q) (t.gathered near q) := Node.gathers_applied
  rw [prepared, Fanout.receivers_prepared] at hr
  obtain ⟨rec₀, h₀, rfl⟩ := Option.map_eq_some_iff.1 hr
  obtain ⟨h1, h2, h3, h4, h5, h6⟩ := repeats_of_blank (hg.alike o rec₀ h₀)
  cases hrel : (t.gathered near q).relays t.before.site with
  | false =>
    simp only [Bool.false_eq_true, if_false]
    exact ⟨h1, h2, h3, h4, h5, fun h => absurd h (by simp [hrel]),
      fun h => absurd h (by simp [hrel]), fun _ => h6⟩
  | true =>
    simp only [if_true]
    cases hc : (t.gathered near q).carried t.before.site (t.before.applied t.view near q).ret with
    | none =>
      simp only [Fanout.relayed]
      refine ⟨h1, h2, h3, h4, h5, fun _ => ⟨rfl, rfl⟩, fun _ hat => ?_,
        fun h => absurd h (by simp [hrel])⟩
      simp [Fanout.carried, hat] at hc
    | some success =>
      exact ⟨h1, h2, h3, h4, h5, fun _ => ⟨rfl, rfl⟩, fun _ _ => rfl,
        fun h => absurd h (by simp [hrel])⟩

/-! ## What moves tell -/

variable {id : FutureId}

theorem Tells.answer {mapping : Option (List NodeId)} (h : t.Tells id (.answer mapping)) :
    ∃ s r, t.move = .receive s (.updateResponse r) ∧ r.future = id ∧ r.hasError = false ∧
      r.needsRemap = false ∧ r.mapping = mapping := by
  obtain ⟨hab, hn⟩ := h
  generalize t.move = move at hab hn
  unfold Move.news? at hn
  split at hn
  next s r =>
    split at hn
    · cases hn
    next hneg =>
      simp only [Bool.or_eq_true, not_or, Bool.not_eq_true] at hneg
      exact ⟨s, r, rfl, Option.some_inj.1 hab, hneg.1, hneg.2, News.answer.inj (Option.some_inj.1 hn)⟩
  all_goals cases hn

theorem Tells.mapping {nodes : List NodeId} (h : t.Tells id (.mapping nodes)) :
    ∃ s m, t.move = .receive s (.mappingNotice m) ∧ m.future = id ∧ m.mapping = nodes := by
  obtain ⟨hab, hn⟩ := h
  generalize t.move = move at hab hn
  unfold Move.news? at hn
  split at hn
  next => split at hn <;> cases hn
  next s m => exact ⟨s, m, rfl, Option.some_inj.1 hab, News.mapping.inj (Option.some_inj.1 hn)⟩
  all_goals cases hn

theorem Tells.notice {s : NodeId} {m : BackupNotice} (h : t.Tells id (.notice s m)) :
    t.move = .receive s (.backupNotice m) ∧ m.future = id := by
  obtain ⟨hab, hn⟩ := h
  generalize t.move = move at hab hn
  unfold Move.news? at hn
  split at hn
  next => split at hn <;> cases hn
  next => cases hn
  next s' m' =>
    cases hn
    exact ⟨rfl, Option.some_inj.1 hab⟩
  all_goals cases hn

theorem Tells.departure {o : NodeId} (h : t.Tells id (.departure o)) :
    ∃ who, t.move = .lose o (id, who) := by
  obtain ⟨hab, hn⟩ := h
  generalize t.move = move at hab hn
  unfold Move.news? at hn
  split at hn
  next => split at hn <;> cases hn
  next => cases hn
  next => cases hn
  next gone who =>
    cases hn
    cases hab
    exact ⟨_, rfl⟩
  all_goals cases hn

end Moment

namespace Grid

variable {config : Config} {affinity : Affinity} {processors : Processors} {ids : List NodeId}
  {g : Grid} {s r n : NodeId} {m : Message}

theorem route_eq_node {t : Moment} {near r : NodeId} {q : UpdateRequest}
    (h : t.before.route near q = .node r) : near = r := by
  unfold Node.route at h
  split at h
  · cases h
  · exact ReplyRoute.node.inj h

theorem Reached.cacheId (h : Reached (start ids config affinity processors) g) (hm : g.Sent s r m) :
    m.envelope.cacheId = config.cacheId := by
  have hsite {t : Moment} (ht : t ∈ g.log) : t.before.site.cacheId = config.cacheId := by
    rw [(h.framed.common t ht).site]
    rfl
  have ho := h.origin hm
  cases ho with
  | request ht hn hl => exact hsite ht
  | check hu hp hd =>
    show _ = _
    rw [hu.request]
    exact hsite hu.mem
  | backup ht hn hc hr hv => exact (Moment.repeats_prepared hr).cacheId.trans (hsite ht)
  | mapping ht hn hc hv hr hne he =>
    subst he
    exact hsite ht
  | loss ht hn hc hv hr hs hl he =>
    simp only [Fanout.lossNotice, FanoutAction.send.injEq, Message.backupNotice.injEq] at he
    obtain ⟨-, rfl⟩ := he
    exact hsite ht
  | @answer t near q ht hn hc hr hv ha =>
    show (t.answer near q).cacheId = _
    rw [Moment.answer_eq]
    exact hsite ht
  | declined ht hn hd => exact hd.cacheId.trans (hsite ht)
  | confirmed ht hn hm => exact hsite ht
  | acknowledged ht hn hm => exact hsite ht
  | @notice t b p ht hn hm hf hr =>
    show (b.notice t.before.site p).cacheId = _
    rw [BackupRequest.cacheId_notice]
    exact hsite ht

/-- A message that a node received is about its cache. -/
theorem Reached.cacheId_received (h : Reached (start ids config affinity processors) g) {t : Moment}
    (ht : t ∈ g.log) (hm : t.move = .receive s m) :
    m.envelope.cacheId = t.before.site.cacheId := by
  rw [h.cacheId (h.linked.received s t.node m ⟨t, ht, rfl, hm⟩), (h.framed.common t ht).site]
  rfl

/-- The request was sent by an attempt launched at `t₀`, and carried out at `t`. -/
structure Serves (t t₀ : Moment) (h : Handle) (c : Submission) (near : NodeId) (q : UpdateRequest) :
    Prop where
  node : t₀.node = near
  launches : t₀.Launches h c t.node
  request : q = t₀.request c
  filed : t₀.view.topology.Filed
  later : t₀.view.topology.Later t.view.topology
  /-- Whom the primary can reach, the caller's node could have reached. -/
  since : ∀ o, t.view.reaches o = true → t₀.view.reaches o = true

theorem not_launches_of_brings {t : Moment} {near p : NodeId} {q : UpdateRequest} {h : Handle}
    {c : Submission} (hb : t.before.Brings near q t.move) : ¬ t.Launches h c p := by
  intro hl
  have hm := hl.maps
  generalize t.move = move at hb hm
  cases hb with
  | received hc => cases hm
  | resumed v => cases hm

/-- A request that is brought was sent by an attempt. -/
theorem Reached.brought (h : Reached (start ids config affinity processors) g) {t : Moment}
    (ht : t ∈ g.log) {near : NodeId} {q : UpdateRequest} (hb : t.before.Brings near q t.move) :
    ∃ t₀ ∈ g.log, ∃ hd c, t₀.node = near ∧ t₀.Launches hd c t.node ∧ q = t₀.request c := by
  have hrec := h.linked.brought t ht near q hb
  generalize hm : Message.updateRequest q = m at hrec
  have ho := h.origin (h.linked.received _ _ _ hrec)
  cases ho with
  | @request t₀ hd c ht₀ hn hl =>
    cases hm
    exact ⟨t₀, ht₀, hd, c, hn, hl, rfl⟩
  | _ => cases hm

theorem Reached.served (h : Reached (start ids config affinity processors) g) :
    ∀ t ∈ g.log, ∀ near q, t.CarriesOut near q →
      ∃ t₀ ∈ g.log, ∃ hd c, Serves t t₀ hd c near q := by
  induction h with
  | init => exact fun t ht => (nomatch ht)
  | @next g g' h hr hn ih =>
    have hstay (hlog : g'.log = g.log) : ∀ t ∈ g'.log, ∀ near q, t.CarriesOut near q →
        ∃ t₀ ∈ g'.log, ∃ hd c, Serves t t₀ hd c near q := by
      rw [hlog]
      exact ih
    have h' := h.next hr hn
    cases hn with
    | @act n move g₀ ho =>
      have hlog : (g₀.act n move).log = g.moment n move :: g.log := by
        rw [ho.same.log_act]
      intro t ht near q hc
      have ht' := ht
      rw [hlog] at ht
      rcases List.mem_cons.1 ht with rfl | ht
      · obtain ⟨t₀, ht₀, hd, c, hnear, hl, rfl⟩ := h'.brought ht' hc.brings
        have hmem := ht₀
        rw [hlog] at hmem
        rcases List.mem_cons.1 hmem with rfl | hold
        · exact absurd hl (not_launches_of_brings hc.brings)
        · obtain ⟨hfiled, hlater⟩ := h.traced.later t₀ hold
          refine ⟨t₀, ht₀, hd, c, hnear, hl, rfl, hfiled, hlater, fun o ho => ?_⟩
          -- whoever is there now was there when the attempt was launched
          obtain ⟨attached, ha, hs⟩ := (h.framed.common t₀ hold).refusal
          have hself : attached.contains t₀.node = true := by
            have := hl.reaches
            rw [View.reaches, ha, Option.isNone_iff_eq_none, refusal_eq_none] at this
            exact this.1
          rw [View.reaches, ha, refusal_eq_none.2 ⟨hself, hs o (reaches_view.1 ho).2⟩]
          rfl
      · obtain ⟨t₀, ht₀, hd, c, hserve⟩ := ih t ht near q hc
        exact ⟨t₀, by rw [hlog]; exact List.mem_cons_of_mem _ ht₀, hd, c, hserve⟩
    | depart hn => exact hstay rfl
    | told hi ht => exact hstay rfl
    | exchange members => exact hstay rfl
    | settle => exact hstay rfl

/-! ## News -/

def Launched (g : Grid) (n : NodeId) (id : FutureId) (p : NodeId) : Prop :=
  ∃ t ∈ g.log, ∃ h c, t.node = n ∧ t.number = id ∧ t.Launches h c p

theorem Reached.launched_of_brings (h : Reached (start ids config affinity processors) g)
    {t : Moment} (ht : t ∈ g.log) {near : NodeId} {q : UpdateRequest}
    (hb : t.before.Brings near q t.move) : g.Launched near q.future t.node := by
  obtain ⟨t₀, ht₀, hd, c, hn, hl, rfl⟩ := h.brought ht hb
  exact ⟨t₀, ht₀, hd, c, hn, rfl, hl⟩

theorem Reached.lt_of_launched (h : Reached (start ids config affinity processors) g)
    {id : FutureId} {p : NodeId} (hl : g.Launched n id p) : id < (g.nodes n).nextFuture := by
  obtain ⟨t, ht, hd, c, rfl, rfl, hl⟩ := hl
  exact h.counted.allots t ht hl.allots

theorem Reached.sent_of_move (h : Reached (start ids config affinity processors) g) {t : Moment}
    (ht : t ∈ g.log) (hm : t.move = .receive s m) : g.Sent s t.node m :=
  h.linked.received s t.node m ⟨t, ht, rfl, hm⟩

/-- A node that is asked whether an attempt was heard is asked for an attempt on the sender's node. -/
theorem Reached.check_source (h : Reached (start ids config affinity processors) g) {t : Moment}
    (ht : t ∈ g.log) {m : CheckRequest} (hm : t.move = .receive s (.checkRequest m)) :
    ∃ hd c id a t₀ c₀ es, Underway g.log s hd c id a t₀ c₀ es ∧ a.primary = t.node ∧ a.Deserted ∧
      a.checkSent = true ∧ m = ⟨a.request.toEnvelope, none⟩ := by
  have hs := h.sent_of_move ht hm
  generalize hm' : Message.checkRequest m = m' at hs
  have ho := h.origin hs
  cases ho with
  | check hu hp hd hsent =>
    cases hm'
    exact ⟨_, _, _, _, _, _, _, hu, hp, hd, hsent, rfl⟩
  | _ => cases hm'

/-- What a backup is asked to repeat was carried out on the sender's node. -/
theorem Reached.backup_source (h : Reached (start ids config affinity processors) g) {t : Moment}
    (ht : t ∈ g.log) {b : BackupRequest} (hm : t.move = .receive s (.backupRequest b)) :
    ∃ t₁ ∈ g.log, ∃ near q rec, t₁.node = s ∧ t₁.CarriesOut near q ∧
      (t₁.prepared near q).receivers.get? t.node = some rec ∧ t₁.view.reaches t.node = true ∧
      b = rec.request := by
  have hs := h.sent_of_move ht hm
  generalize hm' : Message.backupRequest b = m' at hs
  have ho := h.origin hs
  cases ho with
  | @backup t₁ near q rec ht₁ hn hc hr hv =>
    cases hm'
    exact ⟨t₁, ht₁, near, q, rec, hn, hc, hr, hv, rfl⟩
  | _ => cases hm'

theorem future_answer (t : Moment) (near : NodeId) (q : UpdateRequest) :
    (t.answer near q).future = q.future := by
  rw [Moment.answer_eq]
  rfl

/-- The receiver `o` has repeated what was carried out at `t`. -/
def Repeated (g : Grid) (t : Moment) (near : NodeId) (q : UpdateRequest) (o : NodeId) : Prop :=
  ∃ t₁ ∈ g.log, ∃ rec, t₁.node = o ∧ (t.prepared near q).receivers.get? o = some rec ∧
    t₁.move = .receive t.node (.backupRequest rec.request)

/-- An answer is for an attempt, or for the fan-out of a request that was carried out. -/
theorem Reached.responds (h : Reached (start ids config affinity processors) g)
    {resp : UpdateResponse} (hs : g.Sent s n (.updateResponse resp)) :
    g.Launched n resp.future s ∨
      ∃ t ∈ g.log, t.node = n ∧ t.number = resp.future ∧
        ∃ near q, t.CarriesOut near q ∧ g.Repeated t near q s := by
  generalize hm : Message.updateResponse resp = m at hs
  have ho := h.origin hs
  cases ho with
  | @answer t near q ht hn hc hr hv ha =>
    cases hm
    cases route_eq_node hr
    rw [future_answer, ← hn]
    exact .inl (h.launched_of_brings ht hc.brings)
  | declined ht hn hd =>
    cases hm
    rw [hd.declines.future, ← hn]
    exact .inl (h.launched_of_brings ht hd.brings)
  | @confirmed t m ht hn hmove =>
    cases hm
    subst hn
    obtain ⟨_, _, _, _, _, _, _, hu, hp, -, -, rfl⟩ := h.check_source ht hmove
    exact .inl ⟨_, hu.mem, _, _, hu.node, congrArg (·.future) hu.request.symm, hp ▸ hu.launches⟩
  | @acknowledged t b ht hn hmove =>
    cases hm
    subst hn
    obtain ⟨t₁, ht₁, near, q, rec, hn₁, hc, hr, -, rfl⟩ := h.backup_source ht hmove
    exact .inr ⟨t₁, ht₁, hn₁, (Moment.repeats_prepared hr).future.symm, near, q, hc,
      t, ht, rec, rfl, hr, hn₁ ▸ hmove⟩
  | _ => cases hm

/-- Attempts and fan-outs do not share numbers. -/
theorem Reached.not_carried (h : Reached (start ids config affinity processors) g) {id : FutureId}
    {p : NodeId} (hl : g.Launched n id p) {t : Moment} (ht : t ∈ g.log) (hn : t.node = n)
    (hi : t.number = id) {near : NodeId} {q : UpdateRequest} (hc : t.CarriesOut near q) : False := by
  obtain ⟨t₀, ht₀, hd, c, hn₀, hi₀, hl⟩ := hl
  have := h.counted.unique t ht t₀ ht₀ (hn.trans hn₀.symm) hc.after.2 hl.allots (hi.trans hi₀.symm)
  subst this
  exact not_launches_of_brings hc.brings hl

theorem Reached.launched_unique (h : Reached (start ids config affinity processors) g)
    {id : FutureId} {p p' : NodeId} (hl : g.Launched n id p) (hl' : g.Launched n id p') :
    p = p' := by
  obtain ⟨t, ht, hd, c, hn, hi, hl⟩ := hl
  obtain ⟨t', ht', hd', c', hn', hi', hl'⟩ := hl'
  have := h.counted.unique t ht t' ht' (hn.trans hn'.symm) hl.allots hl'.allots (hi.trans hi'.symm)
  subst this
  exact (hl.unique hl').2.2

/-- A receiver that has acknowledged has repeated what was carried out. -/
theorem Reached.repeated_of_acknowledged (h : Reached (start ids config affinity processors) g)
    {t t₁ : Moment} {near o : NodeId} {q : UpdateRequest} {r : UpdateResponse} (ht : t ∈ g.log)
    (hc : t.CarriesOut near q) (ht₁ : t₁ ∈ g.log) (hn₁ : t₁.node = t.node)
    (hm : t₁.move = .receive o (.updateResponse r)) (hi : r.future = t.number) :
    g.Repeated t near q o := by
  have hs := h.sent_of_move ht₁ hm
  rw [hn₁] at hs
  rcases h.responds hs with hl | ⟨t₂, ht₂, hn₂, hi₂, near', q', hc₂, hrep⟩
  · exact (h.not_carried hl ht rfl hi.symm hc).elim
  · have := h.counted.unique t ht t₂ ht₂ hn₂.symm hc.after.2 hc₂.after.2 (hi.symm.trans hi₂.symm)
    subst this
    obtain ⟨rfl, rfl⟩ := hc.unique hc₂
    exact hrep

/-- The primary `p` has carried out, at `t`, the request of the attempt with the number `id` on
`n`. -/
structure Carried (g : Grid) (n : NodeId) (id : FutureId) (p : NodeId) (t : Moment)
    (q : UpdateRequest) : Prop where
  mem : t ∈ g.log
  node : t.node = p
  carries : t.CarriesOut n q
  future : q.future = id
  present : t.view.reaches t.node = true

theorem Reached.launched_of_carried (h : Reached (start ids config affinity processors) g)
    {id : FutureId} {p : NodeId} {t : Moment} {q : UpdateRequest} (hc : g.Carried n id p t q) :
    g.Launched n id p := by
  rw [← hc.future, ← hc.node]
  exact h.launched_of_brings hc.mem hc.carries.brings

/-- The request of an attempt that is carried out is the one that was sent as it was launched. -/
theorem Reached.serves_of_carried (h : Reached (start ids config affinity processors) g)
    {id : FutureId} {p p' : NodeId} {t t₀ : Moment} {hd : Handle} {c₀ : Submission}
    {q : UpdateRequest} (hc : g.Carried n id p t q) (ht₀ : t₀ ∈ g.log) (hn : t₀.node = n)
    (hi : t₀.number = id) (hl : t₀.Launches hd c₀ p') : Serves t t₀ hd c₀ n q := by
  obtain ⟨t₁, ht₁, hd₁, c₁, hs⟩ := h.served t hc.mem n q hc.carries
  have hi₁ : t₁.number = id := by
    rw [← hc.future, hs.request]
    rfl
  have := h.counted.unique t₁ ht₁ t₀ ht₀ (hs.node.trans hn.symm) hs.launches.allots hl.allots
    (hi₁.trans hi.symm)
  subst this
  obtain ⟨rfl, rfl, -⟩ := hs.launches.unique hl
  exact hs

theorem Reached.mapping_source (h : Reached (start ids config affinity processors) g)
    {m : MappingNotice} (hs : g.Sent s n (.mappingNotice m)) :
    ∃ t q, g.Carried n m.future s t q ∧ m.mapping = (t.gathered n q).nodes ∧
      (t.gathered n q).receivers.isEmpty = false := by
  generalize hm : Message.mappingNotice m = m' at hs
  have ho := h.origin hs
  cases ho with
  | @mapping t q ht hn hc hv hr hne m' he =>
    cases hm
    subst he
    exact ⟨t, q, ⟨ht, hn, hc, rfl, (h.framed.common t ht).reaches_self hv⟩, rfl, hne⟩
  | _ => cases hm

/-- Why a notice about the receiver `o` was sent: the primary has lost it, or it has repeated what
the primary did. -/
inductive Noticed (g : Grid) (n : NodeId) (t : Moment) (q : UpdateRequest) (o : NodeId) :
    NodeId → BackupNotice → Prop
  | lost {m : BackupNotice} (hf : m.failedNode = some o) (hs : q.syncMode = .fullSync)
      (hl : t.view.reaches o = false ∨
        ∃ t' ∈ g.log, t'.node = t.node ∧ ∃ who, t'.move = .lose o (t.number, who)) :
      Noticed g n t q o t.node m
  | repeated {m : BackupNotice} {b : BackupRequest} {rec : Receiver} (hf : m.failedNode = none)
      (hr : (t.prepared n q).receivers.get? o = some rec) (hb : rec.request = b)
      (hrec : g.Received t.node o (.backupRequest b)) (hres : m.result? = b.result?) :
      Noticed g n t q o o m

theorem Reached.notice_source (h : Reached (start ids config affinity processors) g)
    {m : BackupNotice} (hs : g.Sent s n (.backupNotice m)) :
    ∃ t q o, g.Carried n m.future m.primary t q ∧
      (∃ rec, (t.gathered n q).receivers.get? o = some rec) ∧
      m.about s = o ∧ m.mapping = (t.gathered n q).nodes ∧ Noticed g n t q o s m := by
  generalize hm : Message.backupNotice m = m' at hs
  have ho := h.origin hs
  cases ho with
  | @loss t q o rec ht hn hc hv hr hsync hl m' he =>
    cases hm
    simp only [Fanout.lossNotice, FanoutAction.send.injEq, Message.backupNotice.injEq] at he
    obtain ⟨-, rfl⟩ := he
    have hsite := (h.framed.common t ht).site
    refine ⟨t, q, o, ⟨ht, by rw [hsite]; rfl, hc, ?_, (h.framed.common t ht).reaches_self hv⟩,
      ⟨rec, hr⟩, rfl, rfl, ?_⟩
    · rw [base_gathered]
      rfl
    · rw [← hn]
      exact .lost rfl hsync (hn ▸ hl)
  | @notice t b p ht hn hmove hf hr =>
    cases hm
    subst hn
    obtain ⟨t₁, ht₁, near, q, rec, hn₁, hc, hrec, hv, rfl⟩ := h.backup_source ht hmove
    have hrep := Moment.repeats_prepared hrec
    have hnear : near = n := hrep.nearNode.symm.trans hr
    subst hnear
    have hrel : (t₁.gathered near q).relays t₁.before.site = true := by
      rw [← Bool.not_eq_false]
      intro hrel
      rw [hrep.plain hrel] at hf
      cases hf
    refine ⟨t₁, q, t.node, ⟨ht₁, by simpa using hn₁, hc, by simp [hrep.nearFuture],
        (h.framed.common t₁ ht₁).reaches_self hv⟩,
      (Fanout.receiver_prepared t.node).1 ⟨rec, hrec⟩, by simp [BackupNotice.about],
      by simp [(hrep.relayed hrel).1], ?_⟩
    exact .repeated (BackupRequest.failedNode_notice ..) hrec rfl
      ⟨t, ht, rfl, by rw [hn₁]; exact hmove⟩ (BackupRequest.result?_notice ..)
  | _ => cases hm

/-- Where a positive answer comes from. -/
inductive Answered (g : Grid) (n : NodeId) (id : FutureId) (p : NodeId) : UpdateResponse → Prop
  | carried {t : Moment} {q : UpdateRequest} (hc : g.Carried n id p t q)
      (ha : Answers g.log t n q) : Answered g n id p (t.answer n q)
  | confirmed {h : Handle} {c : Submission} {a : Attempt} {t : Moment} {c₀ : Submission}
      {es : List News} {r : UpdateResponse} (hu : Underway g.log n h c id a t c₀ es)
      (hd : a.Deserted) (hr : r.mapping = none) (hsent : a.checkSent = true)
      (hnear : r.nearVersion = none ∧ r.nearValues = []) : Answered g n id p r

theorem Reached.answer_source (h : Reached (start ids config affinity processors) g)
    {id : FutureId} {p : NodeId} (hl : g.Launched n id p) {r : UpdateResponse}
    (hs : g.Sent s n (.updateResponse r)) (hi : r.future = id) :
    s = p ∧ (r.hasError = false → r.needsRemap = false → g.Answered n id p r) := by
  have hsp : s = p := by
    rcases h.responds hs with hl' | ⟨t, ht, hn, hid, near, q, hc, -⟩
    · exact h.launched_unique (hi ▸ hl') hl
    · exact (h.not_carried hl ht hn (hid.trans hi) hc).elim
  refine ⟨hsp, fun he hr => ?_⟩
  subst hsp
  generalize hm : Message.updateResponse r = m at hs
  have ho := h.origin hs
  cases ho with
  | @answer t near q ht hn hc hroute hv ha =>
    cases hm
    cases route_eq_node hroute
    exact .carried ⟨ht, hn, hc, (future_answer t _ q).symm.trans hi,
      (h.framed.common t ht).reaches_self hv⟩ ha
  | @declined t q resp ht hn hd =>
    cases hm
    obtain ⟨t₀, -, -, c, -, -, rfl⟩ := h.brought ht hd.brings
    have := hd.declines.negative (by rw [Moment.request_keys]; simp)
    rw [he, hr] at this
    simp at this
  | @confirmed t m ht hn hmove =>
    cases hm
    subst hn
    obtain ⟨_, _, id', _, _, _, _, hu, -, hd, hasked, rfl⟩ := h.check_source ht hmove
    have : id' = id := by
      rw [← hi, ← hu.number]
      exact congrArg (·.future) hu.request.symm
    subst this
    exact .confirmed hu hd rfl hasked ⟨rfl, rfl⟩
  | @acknowledged t b ht hn hmove =>
    cases hm
    subst hn
    obtain ⟨t₁, ht₁, near, q, rec, hn₁, hc, hrec, -, rfl⟩ := h.backup_source ht hmove
    exact (h.not_carried hl ht₁ hn₁
      ((Moment.repeats_prepared hrec).future.symm.trans hi) hc).elim
  | _ => cases hm

theorem Underway.launched {h : Handle} {c : Submission} {id : FutureId} {a : Attempt} {t : Moment}
    {c₀ : Submission} {es : List News} (hu : Underway g.log n h c id a t c₀ es) :
    g.Launched n id a.primary :=
  ⟨t, hu.mem, h, c₀, hu.node, hu.number, hu.launches⟩

/-- News for an attempt are from those it waits for. -/
theorem Reached.concerns (h : Reached (start ids config affinity processors) g) {t : Moment}
    (ht : t ∈ g.log) {hd : Handle} {c : Submission} {id : FutureId} {a : Attempt} {t₀ : Moment}
    {c₀ : Submission} {es : List News} (hu : Underway g.log t.node hd c id a t₀ c₀ es)
    (hi : t.move.about? = some id) : t.move.Concerns a where
  answer sender r hm := by
    have hs := h.sent_of_move ht hm
    rw [hm] at hi
    exact (h.answer_source hu.launched hs (Option.some_inj.1 hi)).1.symm
  notice sender m hm := by
    have hs := h.sent_of_move ht hm
    rw [hm] at hi
    obtain ⟨t₁, q, o, hc, -⟩ := h.notice_source hs
    have hl := h.launched_of_carried hc
    rw [show m.future = id from Option.some_inj.1 hi] at hl
    exact h.launched_unique hu.launched hl

/-- All these news were told to the attempt with the number `id` on `n`. -/
def Told (g : Grid) (n : NodeId) (id : FutureId) (es : List News) : Prop :=
  ∀ e ∈ es, ∃ t ∈ g.log, t.node = n ∧ t.Tells id e

/-- Nodes that are named are the receivers of a request that was carried out. -/
theorem Reached.named (h : Reached (start ids config affinity processors) g) {id : FutureId}
    {p : NodeId} (hl : g.Launched n id p) {es : List News} (ht : g.Told n id es)
    {nodes : List NodeId} (hn : Attempt.Names es nodes) :
    ∃ t q, g.Carried n id p t q ∧ nodes = (t.gathered n q).nodes ∧
      (t.gathered n q).receivers.isEmpty = false := by
  have hprim {p' : NodeId} {t : Moment} {q : UpdateRequest} (hc : g.Carried n id p' t q) :
      g.Carried n id p t q := by
    rwa [h.launched_unique hl (h.launched_of_carried hc)]
  rcases hn with he | he | ⟨x, m, he, rfl⟩
  · obtain ⟨t', ht', hn', htell⟩ := ht _ he
    obtain ⟨s, r, hm, hi, hpos, hpos', hmap⟩ := htell.answer
    have hs := h.sent_of_move ht' hm
    rw [hn'] at hs
    cases (h.answer_source hl hs hi).2 hpos hpos' with
    | @carried t q hc ha =>
      obtain ⟨-, hne, hnodes⟩ := Moment.named_of_answer hmap
      exact ⟨t, q, hc, hnodes, hne⟩
    | confirmed hu' hd' hr =>
      rw [hr] at hmap
      cases hmap
  · obtain ⟨t', ht', hn', htell⟩ := ht _ he
    obtain ⟨s, m, hm, hi, rfl⟩ := htell.mapping
    have hs := h.sent_of_move ht' hm
    rw [hn'] at hs
    obtain ⟨t, q, hc, hmap, hne⟩ := h.mapping_source hs
    exact ⟨t, q, hprim (hi ▸ hc), hmap, hne⟩
  · obtain ⟨t', ht', hn', htell⟩ := ht _ he
    obtain ⟨hm, hi⟩ := htell.notice
    have hs := h.sent_of_move ht' hm
    rw [hn'] at hs
    obtain ⟨t, q, o, hc, ⟨rec, hrec⟩, -, hmap, -⟩ := h.notice_source hs
    exact ⟨t, q, hprim (hi ▸ hc), hmap, SortedMap.not_isEmpty_of_get? hrec⟩

end Grid

end AtomicGrid
