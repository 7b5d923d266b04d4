import AtomicGrid.Proofs.Grid.Arrivals

/-!
# No update is left hanging

When nothing is under way, every submission of a node that is there is done, or waits for a topology
version to come.  Suppose that it has an attempt under way.  If the primary has answered, it named
the backups, and each of them has been heard, or is known to be lost.  If it has not, it is still
there and has carried the request out; then it has answered by now, or left that to the backups,
which were heard, or lost.  If all were lost the primary was asked, and has confirmed.

## Results

* `Grid.settled_of_quiet`: in a quiet grid every submission is done, or waits for a version to come.
-/

set_option autoImplicit false

namespace AtomicGrid.Grid

open Submission (SameUpdate)

variable {config : Config} {affinity : Affinity} {processors : Processors} {ids : List NodeId}
  {g : Grid} {n o : NodeId} {hd : Handle} {c c₀ : Submission} {id : FutureId} {a : Attempt}
  {t t₀ : Moment} {es : List News} {q : UpdateRequest}

/-- An attempt under way on a node that is there, when nothing else is under way. -/
structure Hanging (g : Grid) (n : NodeId) (hd : Handle) (c : Submission) (id : FutureId)
    (a : Attempt) (t₀ : Moment) (c₀ : Submission) (es : List News) : Prop where
  quiet : g.Quiet
  attached : g.attached.contains n = true
  number : (g.nodes n).registry.get? id = some (.submission hd)
  underway : Underway g.log n hd c id a t₀ c₀ es
  abreast : Abreast g.log n id a es

theorem Hanging.carried (hh : Hanging g n hd c id a t₀ c₀ es)
    (h : Reached (start ids config affinity processors) g) {p : NodeId}
    (hc : g.Carried n id p t q) : p = a.primary ∧ q = t₀.request c₀ ∧
      ∀ o, t.view.reaches o = true → t₀.view.reaches o = true := by
  have hp := h.launched_unique (h.launched_of_carried hc) hh.underway.launched
  have hu := hh.underway
  have hs := h.serves_of_carried hc hu.mem hu.node hu.number hu.launches
  exact ⟨hp, hs.request, hs.since⟩

theorem relays_iff (h : Reached (start ids config affinity processors) g) {near : NodeId}
    (ht : t ∈ g.log) : (t.gathered near q).relays t.before.site =
      (decide (q.syncMode = .fullSync) && decide (config.atomic.nearRelay = .backups)) := by
  unfold Fanout.relays
  rw [base_gathered, (h.framed.common t ht).site]
  rfl

theorem Hanging.relays (hh : Hanging g n hd c id a t₀ c₀ es)
    (h : Reached (start ids config affinity processors) g) {p : NodeId}
    (hc : g.Carried n id p t q) : (t.gathered n q).relays t.before.site = a.relayed := by
  obtain ⟨-, rfl, -⟩ := hh.carried h hc
  rw [relays_iff h hc.mem, hh.underway.knows.relayed]
  show _ = (decide (c₀.syncMode = .fullSync) &&
    decide (t₀.before.site.settings.nearRelay = .backups))
  rw [(h.framed.common t₀ hh.underway.mem).site]
  rfl

theorem Hanging.heard_notice (hh : Hanging g n hd c id a t₀ c₀ es) {s : NodeId} {m : BackupNotice}
    (hr : g.Received s n (.backupNotice m)) (hm : m.future = id) : .notice s m ∈ es := by
  obtain ⟨t, ht, hn, hmove⟩ := hr
  exact hh.abreast.news t ht hn _ ⟨by rw [hmove]; exact congrArg some hm, by rw [hmove]; rfl⟩

theorem Hanging.heard_answer (hh : Hanging g n hd c id a t₀ c₀ es) {s : NodeId} {r : UpdateResponse}
    (hr : g.Received s n (.updateResponse r)) (hm : r.future = id) : a.responded = true := by
  obtain ⟨t, ht, hn, hmove⟩ := hr
  exact hh.abreast.answered t ht hn s r hmove hm

/-- The news that the primary has lost a receiver arrive. -/
theorem Hanging.heard_loss (hh : Hanging g n hd c id a t₀ c₀ es)
    (h : Reached (start ids config affinity processors) g) {p : NodeId} (hc : g.Carried n id p t q)
    {t' : Moment} (ht' : t' ∈ g.log) (hv : t'.view.reaches t'.node = true)
    (he : ∀ e ∈ ((t.gathered n q).lossNotice t.before.site o).effects t'.view, e ∈ t'.effects) :
    ∃ x m, .notice x m ∈ es ∧ m.about x = o := by
  have hbase := base_gathered t n q
  have hnear : (t.gathered n q).base.nearNode = n := by rw [hbase]; rfl
  have hr := hh.quiet.received h ht' hh.attached hv (he _ (by
    rw [Fanout.lossNotice, hnear]
    exact List.mem_singleton_self _))
  refine ⟨_, _, hh.heard_notice hr ?_, rfl⟩
  rw [← hc.future]
  show (t.gathered n q).base.nearFuture = _
  rw [hbase]
  rfl

/-- The notice of a backup arrives. -/
theorem Hanging.heard_backup (hh : Hanging g n hd c id a t₀ c₀ es)
    (h : Reached (start ids config affinity processors) g) {p : NodeId} (hc : g.Carried n id p t q)
    (hrel : (t.gathered n q).relays t.before.site = true) {rec : Receiver}
    (hr : (t.prepared n q).receivers.get? o = some rec) {t' : Moment} (ht' : t' ∈ g.log)
    (hn' : t'.node = o) (hm' : t'.move = .receive p (.backupRequest rec.request)) :
    ∃ x m, .notice x m ∈ es ∧ m.about x = o := by
  have hrep := Moment.repeats_prepared hr
  have he := (Moment.effects_backUp hm' (h.cacheId_received ht' hm')).2 (hrep.relayed hrel).2
  rw [hrep.nearNode] at he
  have hrec := hh.quiet.received h ht' hh.attached ((h.orderly t' ht').present _ _ hm') he
  refine ⟨_, _, hh.heard_notice hrec ?_, ?_⟩
  · rw [BackupRequest.future_notice, hrep.nearFuture, hc.future]
  · rw [BackupNotice.about, BackupRequest.failedNode_notice]
    exact hn'

theorem relays_fullSync {near : NodeId} (hrel : (t.gathered near q).relays t.before.site = true) :
    q.syncMode = .fullSync := by
  unfold Fanout.relays at hrel
  rw [base_gathered] at hrel
  simp only [Bool.and_eq_true, decide_eq_true_eq] at hrel
  exact hrel.1

/-- Every receiver of a relayed update is accounted for. -/
theorem Hanging.accounted (hh : Hanging g n hd c id a t₀ c₀ es)
    (h : Reached (start ids config affinity processors) g) {p : NodeId} (hc : g.Carried n id p t q)
    (hrel : (t.gathered n q).relays t.before.site = true) {rec : Receiver}
    (hr : (t.gathered n q).receivers.get? o = some rec) : Attempt.Accounted es o := by
  cases hv : t.view.reaches o with
  | false =>
    exact .inl (hh.heard_loss h hc hc.mem hc.present fun e he =>
      hc.carries.tells_loss hr hv (relays_fullSync hrel) he)
  | true =>
    obtain ⟨rec', hr'⟩ := (Fanout.receiver_prepared o).2 ⟨rec, hr⟩
    by_cases ho : g.attached.contains o = true
    · obtain ⟨t', ht', hn', hm'⟩ := hh.quiet.received h hc.mem ho hc.present (hc.carries.requests hr')
      rw [hc.node] at hm'
      exact .inl (hh.heard_backup h hc hrel hr' ht' hn' hm')
    · -- whoever could be reached then has left since the attempt was launched
      rw [Bool.not_eq_true] at ho
      have hu := hh.underway
      obtain ⟨t', ht', hn', hm'⟩ := hh.quiet.hears h hh.attached hh.number ho hu.mem hu.node
        hu.launches.allots hu.number ((hh.carried h hc).2.2 o hv)
      exact .inr (hh.abreast.news t' ht' hn' _ ⟨by rw [hm']; rfl, by rw [hm']; rfl⟩)

theorem Attempt.not_complete {b b' : Attempt} (hf : b.Fresh) (hg : b.Going es)
    (hb : b' = b.heard es) : ¬ b'.Complete := hb ▸ hg.not_complete hf

/-- Once somebody was named, nobody is awaited any more. -/
theorem Hanging.deserted (hh : Hanging g n hd c id a t₀ c₀ es)
    (h : Reached (start ids config affinity processors) g) (hrel : a.relayed = true) {w : NodeSet}
    (hw : a.awaited = some w) : ∀ o, w.contains o = false := by
  intro o
  rw [← Bool.not_eq_true]
  intro ho
  have hk := hh.underway.knows
  obtain ⟨nodes, hn, -, hin⟩ := hk.awaited w hw
  obtain ⟨t, q, hc, rfl, -⟩ := h.named hh.underway.launched hh.underway.told hn
  obtain ⟨rec, hr⟩ : ∃ rec, (t.gathered n q).receivers.get? o = some rec :=
    Option.isSome_iff_exists.1 (SortedMap.mem_keys_iff.1 (hin o ho))
  have hacc := hh.accounted h hc ((hh.relays h hc).trans hrel) hr
  have hoff := (Attempt.crossedOff_iff hw).1 (hk.crossedOff o hacc)
  rw [ho] at hoff
  cases hoff

/-- An attempt whose primary has answered does not hang. -/
theorem Hanging.not_responded (hh : Hanging g n hd c id a t₀ c₀ es)
    (h : Reached (start ids config affinity processors) g) : a.responded = false := by
  rw [← Bool.not_eq_true]
  intro hresp
  have hu := hh.underway
  have hfresh : (t₀.opening c₀ a.primary).Fresh := t₀.opening_fresh _ _
  have hheard : (Attempt.heard (t₀.opening c₀ a.primary) es).responded = true := hu.attempt ▸ hresp
  obtain ⟨nodes, hn⟩ := hu.going.answer_some hfresh hheard
  obtain ⟨w, hw⟩ := Option.isSome_iff_exists.1 (hu.going.awaited hfresh hheard)
  rw [← hu.attempt] at hw
  have hk := hu.knows
  -- the answer names the backups because they tell of the update themselves
  have hrel : a.relayed = true := by
    obtain ⟨t', ht', hn', htell⟩ := hu.told _ hn
    obtain ⟨s, r, hm, hi, hpos, hpos', hmap⟩ := htell.answer
    have hs := h.sent_of_move ht' hm
    rw [hn'] at hs
    cases (h.answer_source hu.launched hs hi).2 hpos hpos' with
    | @carried t q hc ha =>
      exact (hh.relays h hc).symm.trans (Moment.named_of_answer hmap).1
    | confirmed hu' hd' hr =>
      rw [hr] at hmap
      cases hmap
  refine Attempt.not_complete hfresh hu.going hu.attempt ⟨?_, w, hw, hh.deserted h hrel hw⟩
  exact hk.hasResult.2 (.inl ⟨_, hn⟩)

/-- The primary of an attempt that hangs is still there. -/
theorem Hanging.primary_attached (hh : Hanging g n hd c id a t₀ c₀ es)
    (h : Reached (start ids config affinity processors) g) :
    g.attached.contains a.primary = true := by
  rw [← Bool.not_eq_false]
  intro hgone
  have hu := hh.underway
  obtain ⟨t', ht', hn', hm'⟩ := hh.quiet.hears h hh.attached hh.number hgone hu.mem hu.node
    hu.launches.allots hu.number hu.launches.reaches
  have := hh.abreast.lost t' ht' hn' _ hm'
  rw [hh.not_responded h] at this
  cases this

theorem awaited_of_ready {t : Topology} (hs : t.stopping = false) (hr : t.ready = true)
    {v : TopologyVersion} (hv : v ≤ t.version) : t.awaited v = some (.ok t.version) := by
  unfold Topology.awaited
  rw [if_neg (by simp [hs]), if_pos ⟨hr, hv⟩]

theorem Hanging.carriesOut (hh : Hanging g n hd c id a t₀ c₀ es)
    (h : Reached (start ids config affinity processors) g) :
    ∃ t, g.Carried n id a.primary t (t₀.request c₀) := by
  have hu := hh.underway
  have hp := hh.primary_attached h
  have hresp := hh.not_responded h
  have hview : t₀.view.reaches a.primary = true := hu.launches.reaches
  have hsent := hh.quiet.received h hu.mem hp hview hu.launches.sent
  rw [hu.node] at hsent
  obtain ⟨t, ht, hn, hm⟩ := hsent
  have hb : t.before.Brings n (t₀.request c₀) t.move := by
    rw [hm]
    exact .received (h.cacheId_received ht hm)
  rcases h.linked.handled t ht n _ hb with htask | ⟨t', ht', hn', hhand⟩
  · -- a request cannot be waiting for a version that was there when it was sent
    have hnone := hh.quiet.tasks _ htask
    have hsome := awaited_of_ready h.framed.running hh.quiet.ready (h.version_le t₀ hu.mem)
    cases hsome.symm.trans hnone
  · have hself : t'.view.reaches t'.node = true := by
      refine h.reaches_self ht' ?_
      rw [hn', hn]
      exact hp
    rcases hhand with hco | ⟨r, hdec⟩
    · exact ⟨t', ht', hn'.trans hn, hco, hu.number, hself⟩
    · have hrec := hh.quiet.received h ht' hh.attached hself hdec.sent
      have := hh.heard_answer hrec (hdec.declines.future.trans hu.number)
      rw [hresp] at this
      cases this

/-- The answer to an attempt that hangs was not sent. -/
theorem Hanging.not_answered (hh : Hanging g n hd c id a t₀ c₀ es)
    (h : Reached (start ids config affinity processors) g) {p : NodeId} (hc : g.Carried n id p t q)
    {t' : Moment} (ht' : t' ∈ g.log) (hv : t'.view.reaches t'.node = true)
    (he : ∀ e ∈ Node.reply t'.view (t.before.route n q) (t.answer n q), e ∈ t'.effects) : False := by
  have hroute : t.before.route n q = .node n := by
    unfold Node.route
    refine if_neg fun hasync => ?_
    obtain ⟨hp, rfl, -⟩ := hh.carried h hc
    have hu := hh.underway
    have hhome := hu.home (hu.same.syncMode.trans hasync.1)
    rw [(h.framed.common t₀ hu.mem).site, hu.node] at hhome
    refine hasync.2 ?_
    show n = t.before.site.node
    rw [(h.framed.common t hc.mem).site, hc.node, hp]
    exact hhome.symm
  rw [hroute] at he
  have hrec := hh.quiet.received h ht' hh.attached hv (he _ (List.mem_singleton_self _))
  have := hh.heard_answer hrec ((future_answer t n q).trans hc.future)
  rw [hh.not_responded h] at this
  cases this

/-- The primary has left it to the backups to tell of the update. -/
theorem Hanging.relayed (hh : Hanging g n hd c id a t₀ c₀ es)
    (h : Reached (start ids config affinity processors) g) {p : NodeId}
    (hc : g.Carried n id p t q) : (t.gathered n q).receivers.isEmpty = false ∧
      (t.gathered n q).repliesAtOnce t.before.site (t.before.applied t.view n q).ret = false ∧
      a.relayed = true := by
  have ho := t.opened_gathered n q
  have hself := hc.present
  have hsent (hans : (t.gathered n q).receivers.isEmpty = true ∨
      (t.gathered n q).repliesAtOnce t.before.site (t.before.applied t.view n q).ret = true ∨
      (t.gathered n q).relays t.before.site = false ∧ (t.opened n q).done = true) : False :=
    hh.not_answered h hc hc.mem hself fun e he => hc.carries.effect (ho.answered hans) he
  have hempty : (t.gathered n q).receivers.isEmpty = false := by
    rw [← Bool.not_eq_true]
    exact fun he => hsent (.inl he)
  have hatonce :
      (t.gathered n q).repliesAtOnce t.before.site (t.before.applied t.view n q).ret = false := by
    rw [← Bool.not_eq_true]
    exact fun he => hsent (.inr (.inl he))
  refine ⟨hempty, hatonce, ?_⟩
  rw [← hh.relays h hc, ← Bool.not_eq_false]
  intro hrel
  -- the answer was held back, and the fan-out is done
  have hp := (hh.carried h hc).1
  obtain ⟨f, hf, hdone⟩ := hh.quiet.done_of_carriesOut h hc.mem
    (by rw [hc.node, hp]; exact hh.primary_attached h) hc.carries
  have hnotdone : (t.opened n q).done = false := by
    rw [← Bool.not_eq_true]
    exact fun hd => hsent (.inr (.inr ⟨hrel, hd⟩))
  have hdef : (t.opened n q).deferred = some (t.before.route n q, t.answer n q) := by
    have := ho.deferred
    rw [show (t.before.opened t.view n q).1.done = false from hnotdone] at this
    refine Eq.trans this ?_
    unfold Fanout.prepared Fanout.holds
    simp [hrel, hatonce, hempty, Moment.answer, Fanout.answer]
  obtain ⟨t', ht', hn', he⟩ := hf.answered hdone _ hdef
  refine hh.not_answered h hc ht' (h.reaches_self ht' ?_) he
  rw [hn', hc.node, hp]
  exact hh.primary_attached h

/-- Every receiver was heard, or the primary has told of its loss. -/
theorem Hanging.noticed (hh : Hanging g n hd c id a t₀ c₀ es)
    (h : Reached (start ids config affinity processors) g) {p : NodeId} (hc : g.Carried n id p t q)
    {rec : Receiver} (hr : (t.gathered n q).receivers.get? o = some rec) :
    ∃ x m, .notice x m ∈ es ∧ m.about x = o := by
  have hp := (hh.carried h hc).1
  have hatt : g.attached.contains t.node = true := by
    rw [hc.node, hp]
    exact hh.primary_attached h
  have hrel := (hh.relays h hc).trans (hh.relayed h hc).2.2
  have hsync := relays_fullSync hrel
  obtain ⟨f, hf, hdone⟩ := hh.quiet.done_of_carriesOut h hc.mem hatt hc.carries
  have ho := t.opened_gathered n q
  obtain ⟨rec', hr'⟩ := (Fanout.receiver_prepared o).2 ⟨rec, hr⟩
  obtain ⟨rec₁, hr₁⟩ := (Fanout.receiver_iff (ho.same.trans hf.same) o).2 ⟨rec', hr'⟩
  rcases hf.recorded o ⟨rec₁, hr₁, (hf.sound.done.1 hdone).2 o rec₁ hr₁⟩ with hv | hrec
  · exact hh.heard_loss h hc hc.mem hc.present fun e he => hc.carries.tells_loss hr hv hsync he
  · cases hrec with
    | @acknowledged t₁ ht₁ hn₁ r hm hfut =>
      -- the backup has told the caller's node as it acknowledged
      obtain ⟨t₂, ht₂, rec₂, hn₂, hr₂, hm₂⟩ :=
        h.repeated_of_acknowledged hc.mem hc.carries ht₁ hn₁ hm hfut
      exact hh.heard_backup h hc hrel hr₂ ht₂ hn₂ (hc.node ▸ hm₂)
    | @lost t₁ ht₁ hn₁ who hm hs =>
      have hsite : t₁.before.site = t.before.site := by
        rw [(h.framed.common t₁ ht₁).site, (h.framed.common t hc.mem).site, hn₁]
      have hbase : (t.opened n q).base.syncMode = .fullSync := by
        rw [Moment.opened, ho.same.base]
        exact (congrArg (·.syncMode) (base_gathered t n q)).trans hsync
      refine hh.heard_loss h hc ht₁ (h.reaches_self ht₁ (hn₁ ▸ hatt)) fun e he => hs hbase e ?_
      rwa [hsite, t.lossNotice_opened]

/-- No attempt hangs. -/
theorem Hanging.elim (hh : Hanging g n hd c id a t₀ c₀ es)
    (h : Reached (start ids config affinity processors) g) : False := by
  have hu := hh.underway
  have hk := hu.knows
  have hfresh : (t₀.opening c₀ a.primary).Fresh := t₀.opening_fresh _ _
  obtain ⟨t, hc⟩ := hh.carriesOut h
  obtain ⟨hne, -, hrel⟩ := hh.relayed h hc
  obtain ⟨o, rec, hr⟩ := SortedMap.exists_get?_of_not_isEmpty hne
  obtain ⟨x, m, hm, -⟩ := hh.noticed h hc hr
  obtain ⟨w, hw⟩ := Option.isSome_iff_exists.1 (hk.named (.inr ⟨x, m, hm⟩))
  have hempty := hh.deserted h hrel hw
  have hresult : a.hasResult = false := by
    rw [← Bool.not_eq_true]
    exact fun hres => Attempt.not_complete hfresh hu.going hu.attempt ⟨hres, w, hw, hempty⟩
  -- backups that have repeated the update would have told its result
  have hnotice : ∀ x m, .notice x m ∈ es → m.failedNode = none → m.result?.isSome = true := by
    intro x m hm hnone
    obtain ⟨t', ht', hn', htell⟩ := hu.told _ hm
    obtain ⟨hmove, hi⟩ := htell.notice
    have hs := h.sent_of_move ht' hmove
    rw [hn'] at hs
    obtain ⟨t₁, q, o, hc₁, -, -, -, hnot⟩ := h.notice_source hs
    rw [hi] at hc₁
    cases hnot with
    | lost hf hs hl =>
      rw [hnone] at hf
      cases hf
    | repeated hf hr hb hrec hres =>
      subst hb
      rw [hres]
      exact (Moment.repeats_prepared hr).result ((hh.relays h hc₁).trans hrel)
        (hh.relayed h hc₁).2.1
  have hlost : m.failedNode.isSome = true := by
    rw [← Bool.not_eq_false]
    intro hnone
    have hres := hnotice x m hm (by simpa using hnone)
    rw [hk.hasResult.2 (.inr ⟨x, m, hm, hres⟩)] at hresult
    cases hresult
  -- so the primary was asked, and has confirmed
  have hsync : (t₀.opening c₀ a.primary).request.syncMode = .fullSync :=
    relays_fullSync ((hh.relays h hc).trans hrel)
  have hasked := Attempt.checkSent_heard hfresh (hk.relayed.symm.trans hrel) hsync hnotice
    ⟨x, m, hm, hlost⟩ (w := w) (by rw [← hu.attempt]; exact hw) hempty
    (by rw [← hu.attempt]; exact hresult)
  rw [← hu.attempt] at hasked
  obtain ⟨t₁, ht₁, hn₁, he₁⟩ := hu.asked hasked
  have hp := hh.primary_attached h
  obtain ⟨t₂, ht₂, hn₂, hm₂⟩ := hh.quiet.received h ht₁ hp
    (h.reaches_self ht₁ (hn₁ ▸ hh.attached)) he₁
  rw [hn₁] at hm₂
  have he₂ := Moment.effects_confirm hm₂ (h.cacheId_received ht₂ hm₂)
  have hrec := hh.quiet.received h ht₂ hh.attached (h.reaches_self ht₂ (hn₂ ▸ hp)) he₂
  have hresp := hh.heard_answer hrec ((congrArg (·.future) hu.request).trans hu.number)
  rw [hh.not_responded h] at hresp
  cases hresp

theorem lt_of_not_awaited {t : Topology} (hs : t.stopping = false) (hr : t.ready = true)
    {v : TopologyVersion} (hv : t.awaited v = none) : t.version < v := by
  have hle : ¬ v ≤ t.version := by
    intro hle
    cases (awaited_of_ready hs hr hle).symm.trans hv
  show compare t.version v = .lt
  rw [← Std.OrientedCmp.gt_iff_lt]
  exact Ordering.isLE_eq_false.1 (Bool.eq_false_iff.2 hle)

/-- The submission waits to be mapped on a version to come. -/
structure Parked (g : Grid) (n : NodeId) (hd : Handle) (c : Submission) : Prop where
  future : c.future = none
  attempt : c.attempt = none
  waits : ∃ w, (n, w) ∈ g.tasks ∧ w.task = .remap hd ∧ g.topology.version < w.version

theorem Quiet.settled (hq : g.Quiet) (h : Reached (start ids config affinity processors) g)
    (hn : g.attached.contains n = true) (hs : (g.nodes n).submissions.get? hd = some c) :
    c.isDone = true ∨ g.Parked n hd c := by
  have hst := (h.coherent n).stage hd c hs
  generalize hk : g.parked n hd = k at hst
  cases hst with
  | done hdone hf => exact .inl hdone
  | parked hdone hf ha =>
    refine .inr ⟨hf, ha, ?_⟩
    have hpos : 0 < g.parked n hd := by omega
    obtain ⟨⟨n', w⟩, hw, hp⟩ := List.countP_pos_iff.1 hpos
    simp only [decide_eq_true_eq] at hp
    obtain ⟨rfl, htask⟩ := hp
    exact ⟨w, hw, htask, lt_of_not_awaited h.framed.running hq.ready (hq.tasks _ hw)⟩
  | current hdone hf ha =>
    obtain ⟨t₀, c₀, es, hu, hab⟩ := h.noted.attempts n hd c _ _ hs hf ha
    have hnum := ((h.coherent n).submission _ hd).2 ⟨c, hs, hf⟩
    exact (Hanging.elim ⟨hq, hn, hnum, hu, hab⟩ h).elim

/-! ## Submissions -/

/-- An update was submitted on a node, under the handle `hd`. -/
def Submitted (g : Grid) (n : NodeId) (hd : Handle) : Prop :=
  ∃ t ∈ g.log, t.node = n ∧ ∃ u, t.move = .submit u ∧ (t.before.submit t.view u).2.2 = .ok hd

theorem known_submitted {u : Update} (hm : t.move = .submit u)
    (hs : (t.before.submit t.view u).2.2 = .ok hd) :
    ∃ c, t.after.submissions.get? hd = some c := by
  unfold Node.submit at hs
  split at hs
  · cases hs
  next hu =>
    have he : t.before.versions.issued + 1 = hd := Except.ok.inj hs
    have ha := (@Node.after_submit t.view t.before u hu).submissions
    rw [Moment.after, hm, ha, he]
    exact ⟨_, SortedMap.get?_insert_self _ _ _⟩

/-- What an event submits is submitted for good. -/
theorem submitted_run {u : Update} (hn : g.attached.contains n = true)
    (hok : ((g.nodes n).submit (g.view n) u).2.2 = .ok hd) (es : List Event) :
    (g.run (.submit n u :: es)).Submitted n hd := by
  refine ⟨g.moment n (.submit u), mem_log_run es ?_, rfl, u, rfl, hok⟩
  simp only [step, hn, if_true]
  exact List.mem_cons_self

/-- No move forgets a submission. -/
theorem known_moment (hs : t.before.submissions.get? hd = some c) :
    ∃ c, t.after.submissions.get? hd = some c := by
  have ht : t.before.Turn t.view t.move (t.before.move t.view t.move) := Node.turn_move t.move
  cases ht with
  | @submission hd' c' x hturn ha =>
    rw [Moment.after, ha.submissions, SortedMap.get?_insert_ite]
    split
    next => exact ⟨_, rfl⟩
    next => exact ⟨c, hs⟩
  | carried hb hco ha => exact ⟨c, by rw [Moment.after, ha.submissions, hs]⟩
  | acknowledged hk ha => exact ⟨c, by rw [Moment.after, ha.submissions, hs]⟩
  | plain hp ha => exact ⟨c, by rw [Moment.after, ha.submissions, hs]⟩

/-- What was submitted is known to its node. -/
theorem Reached.known (h : Reached (start ids config affinity processors) g)
    (hs : g.Submitted n hd) : ∃ c, (g.nodes n).submissions.get? hd = some c := by
  induction h with
  | init =>
    obtain ⟨t, ht, -⟩ := hs
    cases ht
  | next h hr hn ih =>
    cases hn with
    | @act m move g₀ ho =>
      obtain ⟨t, ht, rfl, u, hm, hok⟩ := hs
      rw [ho.same.log_act] at ht
      rw [ho.same.nodes_act]
      rcases List.mem_cons.1 ht with rfl | ht
      · rw [if_pos (by rfl)]
        exact known_submitted hm hok
      · obtain ⟨c, hc⟩ := ih ⟨t, ht, rfl, u, hm, hok⟩
        split
        next he => exact known_moment (he ▸ hc)
        next => exact ⟨c, hc⟩
    | depart hn => exact ih hs
    | told hi ht => exact ih hs
    | exchange members => exact ih hs
    | settle => exact ih hs

/-- Links from nodes that have done nothing are empty. -/
theorem Reached.links_eq_nil (h : Reached (start ids config affinity processors) g)
    (nodes : List NodeId) (hlog : ∀ t ∈ g.log, t.node ∈ nodes)
    (hl : ∀ s ∈ nodes, ∀ r ∈ g.attached.toList, g.links s r = []) (s r : NodeId)
    (hr : g.attached.contains r = true) : g.links s r = [] := by
  cases hm : g.links s r with
  | nil => rfl
  | cons m ms =>
    obtain ⟨t, ht, rfl, -⟩ := h.linked.sent s r m (hm ▸ List.mem_cons_self)
    have := hl t.node (hlog t ht) r (SortedMap.mem_keys_iff.2 hr)
    rw [hm] at this
    cases this

/-- No update is left hanging: when nothing is under way in a run, every update submitted on a node
that is there is done, or waits for a version to come. -/
theorem settled_of_quiet {events : List Event} (hlen : events.length + 1 < UInt64.size)
    (hq : ((start ids config affinity processors).run events).Quiet)
    (hn : ((start ids config affinity processors).run events).attached.contains n = true)
    (hs : ((start ids config affinity processors).run events).Submitted n hd) :
    ∃ c, (((start ids config affinity processors).run events).nodes n).submissions.get? hd = some c ∧
      (c.isDone = true ∨ ((start ids config affinity processors).run events).Parked n hd c) := by
  have h : Reached (start ids config affinity processors)
      ((start ids config affinity processors).run events) := reached_run hlen
  obtain ⟨c, hc⟩ := h.known hs
  exact ⟨c, hc, hq.settled h hn hc⟩

/-- Node 1 stores a value on node 2, which is to tell node 3; node 3 departs instead, and when both
others have heard of it node 1 asks node 2. -/
def backupDeparts : List Event :=
  [.submit ⟨1⟩ (.put [1] [2]), .deliver ⟨1⟩ ⟨2⟩, .depart ⟨3⟩, .tell 0, .tell 0, .deliver ⟨2⟩ ⟨1⟩,
    .deliver ⟨1⟩ ⟨2⟩, .deliver ⟨2⟩ ⟨1⟩]

theorem settled_backupDeparts :
    let g := (start [⟨1⟩, ⟨2⟩, ⟨3⟩] { nodeId := 0, atomic := { nearRelay := .backups } }
      (.pinned [⟨2⟩, ⟨3⟩]) Processor.none).run backupDeparts
    ∃ c, (g.nodes ⟨1⟩).submissions.get? 1 = some c ∧ (c.isDone = true ∨ g.Parked ⟨1⟩ 1 c) := by
  have hlen : backupDeparts.length + 1 < UInt64.size := by decide
  refine settled_of_quiet hlen ⟨(reached_run hlen).links_eq_nil [⟨1⟩, ⟨2⟩] ?_ ?_, ?_, ?_, ?_⟩ ?_ ?_
  · decide +kernel
  · decide +kernel
  · decide +kernel
  · decide +kernel
  · decide +kernel
  · decide +kernel
  · exact submitted_run (by decide +kernel) (by decide +kernel) _

end AtomicGrid.Grid
