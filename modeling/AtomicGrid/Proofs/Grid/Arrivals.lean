import AtomicGrid.Proofs.Grid.Notes

/-!
# When nothing is under way

A grid is quiet if all links to those who are there are empty, all departures are known, the
topology is ready, and no task can go on.  Then whatever was sent to those who are there was
received, so the fan-outs of those who are there are done.

## Results

* `Grid.Quiet.received`: what was sent has arrived.
* `Grid.Quiet.done_of_carriesOut`: the fan-outs are done.
-/

set_option autoImplicit false

namespace AtomicGrid

namespace Moment

variable {t : Moment} {p : NodeId} {b : BackupRequest} {near : NodeId} {q : UpdateRequest}

/-- A backup acknowledges, and tells the caller's node if it is to. -/
theorem effects_backUp (hm : t.move = .receive p (.backupRequest b))
    (hc : b.cacheId = t.before.site.cacheId) :
    Node.transmission t.view p (.updateResponse (t.before.acknowledgement b)) ∈ t.effects ∧
      (b.flags.nearReply = true → Node.transmission t.view b.nearNode
        (.backupNotice (b.notice t.before.site p)) ∈ t.effects) := by
  have he : t.effects = (t.before.backUp t.view p b).2 := by
    unfold effects
    rw [hm]
    simp [Node.move, Node.receive, Message.envelope, hc]
  obtain ⟨near, -, hes⟩ := @Node.effects_backUp t.view t.before p b
  rw [he, hes]
  refine ⟨List.mem_append_right _ List.mem_cons_self, fun hf => ?_⟩
  rw [if_pos hf]
  exact List.mem_append_right _ (List.mem_cons_of_mem _ (List.mem_singleton_self _))

theorem effects_confirm {m : CheckRequest} (hm : t.move = .receive p (.checkRequest m))
    (hc : m.cacheId = t.before.site.cacheId) : Node.transmission t.view p (.updateResponse
      { t.before.answerTo m.toEnvelope with ret := some (.flag true) }) ∈ t.effects := by
  have he : t.effects = t.before.confirm t.view p m := by
    unfold effects
    rw [hm]
    simp [Node.move, Node.receive, Message.envelope, hc]
  rw [he]
  exact List.mem_singleton_self _

theorem CarriesOut.requests (h : t.CarriesOut near q) {o : NodeId} {rec : Receiver}
    (hr : (t.prepared near q).receivers.get? o = some rec) :
    Node.transmission t.view o (.backupRequest rec.request) ∈ t.effects :=
  h.effect ((t.opened_gathered near q).requested o rec hr) (List.mem_singleton_self _)

/-- The caller's node is told of receivers that cannot be reached. -/
theorem CarriesOut.tells_loss (h : t.CarriesOut near q) {o : NodeId} {rec : Receiver}
    (hr : (t.gathered near q).receivers.get? o = some rec) (hv : t.view.reaches o = false)
    (hs : q.syncMode = .fullSync) {e : Effect}
    (he : e ∈ ((t.gathered near q).lossNotice t.before.site o).effects t.view) : e ∈ t.effects := by
  refine h.effect ((t.opened_gathered near q).lost o rec hr hv ?_) he
  show (t.gathered near q).base.syncMode = _
  rw [gathered, Node.base_applied]
  exact hs

end Moment

namespace Grid

variable {config : Config} {affinity : Affinity} {processors : Processors} {ids : List NodeId}
  {g : Grid} {n o p : NodeId} {t : Moment} {near : NodeId} {q : UpdateRequest}

/-- Nothing is under way to those who are there, and nothing can go on. -/
structure Quiet (g : Grid) : Prop where
  links : ∀ s r, g.attached.contains r = true → g.links s r = []
  told : ∀ p ∈ g.untold, g.attached.contains p.1 = false
  ready : g.topology.ready = true
  tasks : ∀ p ∈ g.tasks, g.topology.awaited p.2.version = none

/-- What a node that was there has sent to one that is there has arrived. -/
theorem Quiet.received (hq : g.Quiet) (h : Reached (start ids config affinity processors) g)
    (ht : t ∈ g.log) (hn : g.attached.contains n = true) (hv : t.view.reaches o = true) {m : Message}
    (he : Node.transmission t.view n m ∈ t.effects) : g.Received t.node n m.received := by
  have hsent := Moment.mem_sentTo_of_reaches he ((h.framed.common t ht).reaches_of_reaches hv hn)
  rcases h.linked.arrives t ht n hn _ hsent with hl | hrec
  · rw [hq.links t.node n hn] at hl
    cases hl
  · exact hrec

theorem Reached.reaches_self (h : Reached (start ids config affinity processors) g) (ht : t ∈ g.log)
    (hn : g.attached.contains t.node = true) : t.view.reaches t.node = true :=
  (h.framed.common t ht).reaches hn hn

/-- The coordinators of those who are there have heard of everybody who has left since they
started. -/
theorem Quiet.hears (hq : g.Quiet) (h : Reached (start ids config affinity processors) g)
    (hn : g.attached.contains n = true) {id : FutureId} {who : Registered}
    (hr : (g.nodes n).registry.get? id = some who) (ho : g.attached.contains o = false)
    (ht : t ∈ g.log) (htn : t.node = n) (ha : t.Allots) (hi : t.number = id)
    (hv : t.view.reaches o = true) : g.Hears n o (id, who) := by
  rcases h.informed.told n hn _ (SortedMap.get?_eq_some_iff.1 hr) o ho with hu | hh | hout
  · have := hq.told _ hu
    rw [hn] at this
    cases this
  · exact hh
  · obtain ⟨t', ht', hn', ha', hi', hv'⟩ := hout
    have := h.counted.unique t ht t' ht' (htn.trans hn'.symm) ha ha' (hi.trans hi'.symm)
    subst this
    rw [hv] at hv'
    cases hv'

theorem Quiet.acknowledges (hq : g.Quiet) (h : Reached (start ids config affinity processors) g)
    (ht : t ∈ g.log) (hn : g.attached.contains t.node = true) (hc : t.CarriesOut near q)
    {rec : Receiver} (hr : (t.prepared near q).receivers.get? o = some rec)
    (ho : g.attached.contains o = true) : ∃ t' ∈ g.log, t'.node = t.node ∧
      t'.move.Informs t.number o := by
  have hrep := Moment.repeats_prepared hr
  obtain ⟨t₁, ht₁, hn₁, hm₁⟩ := hq.received h ht ho (h.reaches_self ht hn) (hc.requests hr)
  have hack := (Moment.effects_backUp hm₁ (h.cacheId_received ht₁ hm₁)).1
  subst hn₁
  obtain ⟨t₂, ht₂, hn₂, hm₂⟩ := hq.received h ht₁ hn (h.reaches_self ht₁ ho) hack
  refine ⟨t₂, ht₂, hn₂, ?_⟩
  rw [hm₂]
  exact .acknowledged hrep.future

/-- The fan-outs of those who are there are done. -/
theorem Quiet.done_of_carriesOut (hq : g.Quiet)
    (h : Reached (start ids config affinity processors) g) (ht : t ∈ g.log)
    (hn : g.attached.contains t.node = true) (hc : t.CarriesOut near q) :
    ∃ f, Handing g.log t.node t.number f t near q ∧ f.done = true := by
  obtain ⟨f, hf⟩ := h.handed.kept t ht near q hc
  obtain ⟨t', near', q', hh⟩ := h.handed.now t.node t.number f hf
  have := h.counted.unique t ht t' hh.mem hh.node.symm hc.after.2 hh.carries.after.2 hh.number.symm
  subst this
  obtain ⟨rfl, rfl⟩ := hc.unique hh.carries
  refine ⟨f, hh, ?_⟩
  have ho := t.opened_gathered near q
  rw [← Bool.not_eq_false]
  intro hd
  have hreg := ((h.coherent t.node).fanout t.number).2 ⟨f, hf, hd⟩
  refine absurd (hh.sound.done.2 ⟨?_, fun o rec hrec => ?_⟩) (by simp [hd])
  · rw [hh.same.mapped]
    exact ho.same.mapped
  · obtain ⟨rec', hrec'⟩ := (Fanout.receiver_iff (ho.same.trans hh.same) o).1 ⟨rec, hrec⟩
    have hresp : f.Responded o := by
      by_cases hatt : g.attached.contains o = true
      · obtain ⟨t', ht', hn', hinf⟩ := hq.acknowledges h ht hn hc hrec' hatt
        exact h.noted.fanouts t.node t.number f hf t' ht' hn' o hinf ⟨rec, hrec⟩
      · rw [Bool.not_eq_true] at hatt
        cases hv : t.view.reaches o with
        | false =>
          exact hh.keeps o ((ho.responded o).2 ⟨(Fanout.receiver_prepared o).1 ⟨rec', hrec'⟩, hv⟩)
        | true =>
          obtain ⟨t', ht', hn', hm'⟩ := hq.hears h hn hreg hatt ht rfl hc.after.2 rfl hv
          exact h.noted.fanouts t.node t.number f hf t' ht' hn' o (hm' ▸ .lost _) ⟨rec, hrec⟩
    obtain ⟨rec₁, hrec₁, hr₁⟩ := hresp
    cases Option.some_inj.1 (hrec.symm.trans hrec₁)
    exact hr₁

end Grid

end AtomicGrid
