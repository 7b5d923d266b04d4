import AtomicGrid.Proofs.Grid.Applied
import AtomicGrid.Proofs.Grid.Once
import AtomicGrid.Proofs.Grid.Results

/-!
# What a success means

When the caller is told that a full-sync update has succeeded, its write is in place: the primary has
applied it, and every other owner of the key that has not left has handled the request to back it
up.  The caller's node may know so by the primary's answer, by the word of the backups, or because
the primary has confirmed what the backups can no longer tell.

The primary looks the owners up as it carries the update out.  A locked update may be carried out
long after it was mapped; the members of that time are then no longer on record, the primary finds
no other owner, and the update succeeds without a copy.

## Results

* `Grid.Reached.spread_of_deserted`, `Grid.Reached.spread_of_answers`: when all backups are settled.
* `Grid.backed_of_success`: who has the write when the caller is told of a success.
* `Grid.success_forgotten`: a success without a copy, after many departures.
-/

set_option autoImplicit false

namespace AtomicGrid

/-! ## What was applied -/

namespace Node

variable {view : View} {n : Node} {sender : NodeId} {q : UpdateRequest} {e : UpdateEntry}

/-- What was applied without failing, and not held back, is written. -/
theorem written_of_success (he : q.payload.entries = [e])
    (hf : (n.applied view sender q).failedKeys = [])
    (hs : (n.applied view sender q).ret.success = true) : ∃ w, n.written q e = some w := by
  rw [applied_eq he] at hf hs
  unfold applyEntry at hf hs
  unfold written
  have hsame : n.freshFuture.1.applyWrite n.store q.partition (q.writeCommand e) =
      n.applyWrite n.store q.partition (q.writeCommand e) := rfl
  rw [hsame] at hf hs
  generalize n.applyWrite n.store q.partition (q.writeCommand e) = x at hf hs ⊢
  obtain ⟨store, applied⟩ := x
  cases applied with
  | error cause => simp at hf
  | ok a =>
    cases hfil : a.filtered with
    | true => simp [hfil, returnOf] at hs
    | false =>
      refine ⟨⟨q.writeVersion, a.newValue⟩, ?_⟩
      simp [hfil]

end Node

namespace Moment

variable {t : Moment} {near o : NodeId} {q : UpdateRequest} {e : UpdateEntry} {key : Key} {w : Write}

/-- Only what is written is handed on. -/
theorem written_of_receiver (he : q.payload.entries = [e])
    (hne : (t.gathered near q).receivers.isEmpty = false) :
    ∃ w, t.before.written q e = some w := by
  have hh : Node.HandsOn t.view t.before q e (t.gathered near q) := Node.handsOn_applied he
  cases hh with
  | write hw => exact ⟨_, hw⟩
  | nothing hw hf =>
    obtain ⟨o, rec, hr⟩ := SortedMap.exists_get?_of_not_isEmpty hne
    have hnone := hf o
    rw [Fanout.entriesFor, hr] at hnone
    cases hnone

/-- A primary that reports a success has written. -/
theorem written_of_answer (he : q.payload.entries = [e])
    (hf : (t.answer near q).hasError = false)
    (hs : (t.before.applied t.view near q).ret.success = true) :
    ∃ w, t.before.written q e = some w := by
  refine Node.written_of_success he ?_ hs
  rw [answer_eq] at hf
  unfold UpdateResponse.hasError at hf
  simp only [Bool.or_eq_false_iff, Bool.not_eq_false', List.isEmpty_iff] at hf
  exact hf.2

/-- What the primary has written it holds. -/
theorem held_of_write? (hc : t.Regular) (hco : t.CarriesOut near q) (hw : t.write? key = some w) :
    t.after.store.held key = some w := by
  have hnone : t.move.writes key = [] := by
    have hb := hco.brings
    generalize t.move = move at hb
    cases hb with
    | received hc => rfl
    | resumed v => rfl
  rw [held_after hc, hnone, hw]
  rfl

end Moment

/-! ## What the caller is told -/

namespace UpdateOutcome

def Succeeds (u : UpdateOutcome) : Prop :=
  u = .success true ∨ ∃ ret, u = .raw ret ∧ ret.success = true

theorem success_of_succeeds {ret : UpdateReturn} {operation : Operation} {previous raw : Bool}
    (h : (ofReturn ret operation previous raw).Succeeds) : ret.success = true := by
  unfold ofReturn at h
  split at h
  · rcases h with h | ⟨ret', h, hs⟩
    · cases h
    · cases h
      exact hs
  · split at h
    · rcases h with h | ⟨ret', h, -⟩
      · cases h
      · cases h
    · split at h
      · rcases h with h | ⟨ret', h, -⟩
        · split at h
          · cases h
          · cases h
        · split at h
          · cases h
          · cases h
      · rcases h with h | ⟨ret', h, -⟩
        · exact success.inj h
        · cases h

end UpdateOutcome

namespace Submission

variable {c : Submission} {r : UpdateResponse} {ret : UpdateReturn}

/-- A success after the primary's answer is one that the primary has reported. -/
theorem success_of_retWith (hr : r.ret = some ret)
    (h : (c.outcome (c.retWith r)).Succeeds) : ret.success = true := by
  have hs := UpdateOutcome.success_of_succeeds h
  unfold retWith at hs
  rw [hr] at hs
  cases hold : c.ret with
  | none =>
    rw [hold] at hs
    exact hs
  | some old =>
    rw [hold] at hs
    simp only [Option.getD_some] at hs
    split at hs
    · unfold UpdateReturn.merge at hs
      simp only [Bool.and_eq_true] at hs
      exact hs.2
    · exact hs

end Submission

namespace Grid

open Submission (SameUpdate)

variable {config : Config} {affinity : Affinity} {processors : Processors} {ids : List NodeId}
  {g : Grid} {n o p : NodeId} {hd : Handle} {id : FutureId} {t t₀ : Moment} {c c₀ : Submission}
  {q : UpdateRequest} {es : List News} {u : UpdateOutcome}

/-! ## When all backups are settled -/

/-- The primary has carried the request out, and every receiver has handled what it was sent, or has
left. -/
structure Spread (g : Grid) (n : NodeId) (id : FutureId) (p : NodeId) (t : Moment)
    (q : UpdateRequest) : Prop extends g.Carried n id p t q where
  settled : ∀ o rec, (t.gathered n q).receivers.get? o = some rec →
    g.Repeated t n q o ∨ g.attached.contains o = false

/-- Whom the primary could not reach has left. -/
theorem Reached.gone (h : Reached (start ids config affinity processors) g)
    (hc : g.Carried n id p t q) (hv : t.view.reaches o = false) :
    g.attached.contains o = false := by
  rw [← Bool.not_eq_true]
  intro ho
  rw [(h.framed.common t hc.mem).reaches_of_reaches hc.present ho] at hv
  cases hv

/-- Who is accounted for has handled its request, or has left. -/
theorem Reached.settled_of_accounted (h : Reached (start ids config affinity processors) g)
    (hc : g.Carried n id p t q) (ht : g.Told n id es) (ho : Attempt.Accounted es o) :
    g.Repeated t n q o ∨ g.attached.contains o = false := by
  rcases ho with ⟨x, m, hm, rfl⟩ | hm
  · obtain ⟨t', ht', hn', htell⟩ := ht _ hm
    obtain ⟨hmove, rfl⟩ := htell.notice
    have hs := h.sent_of_move ht' hmove
    rw [hn'] at hs
    obtain ⟨t₁, q₁, o, hc₁, -, rfl, -, hnoticed⟩ := h.notice_source hs
    obtain ⟨rfl, rfl⟩ := h.carried_unique hc hc₁
    generalize m.about x = o at hnoticed ⊢
    cases hnoticed with
    | lost hf hs hl =>
      rcases hl with hv | ⟨t₂, ht₂, -, who, hm₂⟩
      · exact .inr (h.gone hc hv)
      · exact .inr (h.informed.gone t₂ ht₂ _ _ hm₂)
    | repeated hf hr hb hrec hres =>
      subst hb
      obtain ⟨t₂, ht₂, hn₂, hm₂⟩ := hrec
      exact .inl ⟨t₂, ht₂, _, hn₂, hr, hm₂⟩
  · obtain ⟨t', ht', -, htell⟩ := ht _ hm
    obtain ⟨who, hmove⟩ := htell.departure
    exact .inr (h.informed.gone t' ht' _ _ hmove)

/-- Who was recorded has handled its request, or has left. -/
theorem Reached.settled_of_recorded (h : Reached (start ids config affinity processors) g)
    (hc : g.Carried n id p t q) (hr : Recorded g.log t.node t.number (t.opened n q) o) :
    g.Repeated t n q o ∨ g.attached.contains o = false := by
  cases hr with
  | lost ht₁ hn₁ hm hs => exact .inr (h.informed.gone _ ht₁ _ _ hm)
  | acknowledged ht₁ hn₁ hm hi =>
    exact .inl (h.repeated_of_acknowledged hc.mem hc.carries ht₁ hn₁ hm hi)

/-- When an attempt awaits nobody any more, all receivers are settled. -/
theorem Reached.spread_of_deserted (h : Reached (start ids config affinity processors) g)
    (hl : g.Launched n id p) {a₀ a : Attempt} (hk : a₀.Knows es a) (ht : g.Told n id es)
    (hd : a.Deserted) :
    ∃ t q, g.Spread n id p t q ∧ (t.gathered n q).receivers.isEmpty = false := by
  obtain ⟨nodes, hnames, hacc⟩ := hk.accounted hd
  obtain ⟨t, q, hc, rfl, hne⟩ := h.named hl ht hnames
  refine ⟨t, q, ⟨hc, ?_⟩, hne⟩
  intro o rec hr
  have ho : o ∈ (t.gathered n q).nodes := SortedMap.mem_keys_iff.2 (by
    rw [SortedMap.contains, hr]
    rfl)
  exact h.settled_of_accounted hc ht (hacc o ho)

/-- When the primary answers and names nobody, all receivers are settled. -/
theorem Reached.spread_of_answers (h : Reached (start ids config affinity processors) g)
    (hc : g.Carried n id p t q) (hs : q.syncMode = .fullSync) (ha : Answers g.log t n q)
    (hm : (t.answer n q).mapping = none) : g.Spread n id p t q := by
  refine ⟨hc, ?_⟩
  intro o rec hr
  have hne : (t.gathered n q).receivers.isEmpty = false := SortedMap.not_isEmpty_of_get? hr
  have hrel : (t.gathered n q).relays t.before.site = false := by
    rw [← Bool.not_eq_true]
    intro hrel
    rw [Moment.answer_eq] at hm
    simp [hrel, hne] at hm
  rcases ha with hempty | hatonce | ⟨-, hall⟩
  · rw [hne] at hempty
    cases hempty
  · -- an answer given at once names the receivers
    have hsync : (t.gathered n q).base.syncMode = .fullSync := by
      rw [base_gathered]
      exact hs
    unfold Fanout.repliesAtOnce at hatonce
    unfold Fanout.relays at hrel
    simp only [hsync, Bool.and_eq_true, decide_eq_true_eq] at hatonce
    simp [hsync, hatonce.1] at hrel
  · rcases hall o rec hr with hv | hrec
    · exact .inr (h.gone hc hv)
    · exact h.settled_of_recorded hc hrec

/-! ## Successes -/

/-- The attempt that `n` has launched at `t₀`, for `c₀`, at the primary `p`, has brought the update
`hd` to the outcome `u`. -/
structure Completes (g : Grid) (n : NodeId) (hd : Handle) (u : UpdateOutcome) (t₀ : Moment)
    (c₀ : Submission) (p : NodeId) : Prop where
  mem : t₀ ∈ g.log
  node : t₀.node = n
  launches : t₀.Launches hd c₀ p
  resolved : ∃ t ∈ g.log, t.node = n ∧ ∃ c, t.before.submissions.get? hd = some c ∧
    c.isDone = false ∧ c.future = some t₀.number ∧ t.after.result? hd = some (.ok u)

/-- The primary `p` has carried the request `q` of `n` out at `t`, and has written `w`. -/
structure Wrote (g : Grid) (n p : NodeId) (t : Moment) (q : UpdateRequest) (key : Key)
    (w : Write) : Prop where
  mem : t ∈ g.log
  node : t.node = p
  carries : t.CarriesOut n q
  written : t.write? key = some w
  held : t.after.store.held key = some w

/-- The node `o` has handled a request of `p` to back the write up, and has then held nothing
older. -/
def BackedUp (g : Grid) (p o : NodeId) (key : Key) (w : Write) : Prop :=
  ∃ t ∈ g.log, t.node = o ∧ (∃ b, t.move = .receive p (.backupRequest b) ∧ w ∈ b.writes key) ∧
    ∃ w' ∈ t.after.store.held key, w.version ≤ w'.version

/-- When an attempt is finished by a success, its primary has written, and all receivers are
settled. -/
theorem Reached.spread_of_resolves (h : Reached (start ids config affinity processors) g)
    (ht : t ∈ g.log) {a : Attempt} {e : News} {ret : Option UpdateReturn}
    (hr : t.Resolves hd c u id a e ret) (hu : u.Succeeds)
    (hw : Underway g.log t.node hd c id a t₀ c₀ es) (hsync : c.syncMode = .fullSync) :
    ∃ t₁ q, g.Spread t.node id a.primary t₁ q ∧
      ∀ e, q.payload.entries = [e] → ∃ w, t₁.before.written q e = some w := by
  have hl : g.Launched t.node id a.primary := hw.launched
  rcases Attempt.finished_hear hr.finished with rfl | hcomplete
  · obtain ⟨s, r, hmove, hi, hpos, hpos', hmap⟩ := hr.tells.answer
    cases (h.answer_source hl (h.sent_of_move ht hmove) hi).2 hpos hpos' with
    | confirmed hw' hd' hr' =>
      obtain ⟨t₁, q, hs, hne⟩ := h.spread_of_deserted hl hw'.knows hw'.told hd'
      exact ⟨t₁, q, hs, fun e he => Moment.written_of_receiver he hne⟩
    | @carried t₁ q hc ha =>
      have hserves := h.serves_of_carried hc hw.mem hw.node hw.number hw.launches
      have hq : q.syncMode = .fullSync := by
        rw [hserves.request]
        exact hw.same.syncMode.symm.trans hsync
      have hresp : a.responded = false := by
        rw [← Bool.not_eq_true]
        intro hresp
        have hfin := hr.finished
        simp [Attempt.hear, hresp] at hfin
      have hret : ret = c.retWith (t₁.answer t.node q) := hr.answered s _ hmove hresp
      refine ⟨t₁, q, h.spread_of_answers hc hq ha hmap, ?_⟩
      intro e he
      refine Moment.written_of_answer he hpos ?_
      refine Submission.success_of_retWith (c := c) (r := t₁.answer t.node q) ?_ ?_
      · rw [Moment.answer_eq]
        rfl
      · rw [← hret, ← hr.outcome]
        exact hu
  · -- somebody was named, so something was handed on
    have htold : g.Told t.node id (e :: es) := by
      intro e' he'
      rcases List.mem_cons.1 he' with rfl | he'
      · exact ⟨t, ht, rfl, hr.tells⟩
      · exact hw.told e' he'
    obtain ⟨t₁, q, hs, hne⟩ := h.spread_of_deserted hl (hw.knows_hear e) htold hcomplete.2
    exact ⟨t₁, q, hs, fun e he => Moment.written_of_receiver he hne⟩

/-- Another owner of the key has handled the request to back the write up, or has left. -/
theorem Spread.backedUp (hs : g.Spread n id p t q)
    (h : Reached (start ids config affinity processors) g) {key : Key} {w : Write}
    (hw : t.write? key = some w) (ho : o ∈ t.view.owners key q.topologyVersion) (hne : o ≠ p) :
    g.BackedUp p o key w ∨ g.attached.contains o = false := by
  have hne : o ≠ t.node := hs.node ▸ hne
  obtain ⟨rec, hrec, hmem⟩ :=
    (Moment.handsOn_prepared (h.regular t hs.mem) hs.carries o key w).2 ⟨hw, ho, hne⟩
  obtain ⟨rec', hrec'⟩ := (Fanout.receiver_prepared o).1 ⟨rec, hrec⟩
  apply (hs.settled o rec' hrec').imp_left
  rintro ⟨t₁, ht₁, rec₁, hn₁, hrec₁, hmove⟩
  cases Option.some_inj.1 (hrec.symm.trans hrec₁)
  have hwrites : w ∈ t₁.move.writes key := by
    rw [hmove]
    exact hmem
  refine ⟨t₁, ht₁, hn₁, ⟨rec.request, hs.node ▸ hmove, hmem⟩, ?_⟩
  rw [Moment.held_after (h.regular t₁ ht₁)]
  exact Write.le_replay_of_mem hwrites _

/-- The primary finds the owners of a key as they were when the attempt was mapped, if the update is
not locked or few versions have come since. -/
theorem Serves.owners_eq (h : Reached (start ids config affinity processors) g) (ht : t ∈ g.log)
    (ht₀ : t₀ ∈ g.log) (hs : Serves t t₀ hd c₀ n q) (hc : t.CarriesOut n q)
    (hfew : c₀.update.topologyLocked = false ∨ t.view.topology.version.major.toNat <
      t₀.view.topology.version.major.toNat + historyLimit) (key : Key) :
    t.view.owners key t₀.view.topology.version =
      t₀.view.owners key t₀.view.topology.version := by
  have hlt : t.view.topology.version.major.toNat <
      t₀.view.topology.version.major.toNat + historyLimit := by
    rcases hfew with hlocked | hlt
    · have hver : q.topologyVersion = t.view.topology.version := by
        refine (hc.suits.ready ?_).2
        rw [hs.request]
        exact hlocked
      rw [hs.request] at hver
      have hver : t₀.view.topology.version = t.view.topology.version := hver
      rw [hver]
      exact Nat.lt_add_of_pos_right (by decide)
    · exact hlt
  unfold View.owners
  rw [(h.framed.common t ht).affinity_eq, (h.framed.common t₀ ht₀).affinity_eq]
  exact hs.later.keyOwners hs.filed hlt affinity key

/-- When the caller is told that a full-sync update has succeeded, the primary of the attempt that
has come to this has written the update's value, and every other owner of the key, as the primary
finds them at the version the attempt was mapped on, has handled the request to back the write up, or
has left.  These are the owners as they were when the attempt was mapped, unless the update is locked
and the members of that time are no longer on record.

All nodes share one topology, that of the grid: what one of them finds on record is what every other
finds at that moment. -/
theorem backed_of_success {events : List Event} (hlen : events.length + 1 < UInt64.size)
    (hs : (((start ids config affinity processors).run events).nodes n).submissions.get? hd = some c)
    (hsync : c.syncMode = .fullSync)
    (hr : (((start ids config affinity processors).run events).nodes n).result? hd = some (.ok u))
    (hu : u.Succeeds) :
    ∃ t₀ c₀ p t w,
      Completes ((start ids config affinity processors).run events) n hd u t₀ c₀ p ∧
      SameUpdate c₀ c ∧
      Wrote ((start ids config affinity processors).run events) n p t (t₀.request c₀) c.update.key w ∧
      (∀ o ∈ t.view.owners c.update.key t₀.view.topology.version, o ≠ p →
        BackedUp ((start ids config affinity processors).run events) p o c.update.key w ∨
          ((start ids config affinity processors).run events).attached.contains o = false) ∧
      (c.update.topologyLocked = false ∨ t.view.topology.version.major.toNat <
          t₀.view.topology.version.major.toNat + historyLimit →
        t.view.owners c.update.key t₀.view.topology.version =
          t₀.view.owners c.update.key t₀.view.topology.version) := by
  have h : Reached (start ids config affinity processors)
      ((start ids config affinity processors).run events) := reached_run hlen
  generalize (start ids config affinity processors).run events = g at hs hr h ⊢
  have hwaiting : c.result.waiting = some (.ok u) := by
    rw [Node.result?, hs] at hr
    exact hr
  have hne : c.syncMode ≠ .fullAsync := by
    rw [hsync]
    decide
  obtain ⟨t', ht', rfl, c', id, a, e, ret, hres, hsame'⟩ := h.resolved n hd c u hs hne hwaiting
  obtain ⟨t₀, c₀, es, hw⟩ :=
    h.attended.before t' ht' hd c' id a hres.before hres.future hres.attempt
  obtain ⟨t, q, hspread, hwritten⟩ :=
    h.spread_of_resolves ht' hres hu hw (hsame'.syncMode.symm.trans hsync)
  have hserves := h.serves_of_carried hspread.toCarried hw.mem hw.node hw.number hw.launches
  obtain rfl := hserves.request
  have hsame : SameUpdate c₀ c := hw.same.trans hsame'
  have hreg : t.Regular := h.regular t hspread.mem
  obtain ⟨e', he', hkey⟩ := c₀.update.entries_payload
  obtain ⟨w, hwrite⟩ := hwritten e' he'
  have hwrite : t.write? c.update.key = some w := by
    rw [hsame.update, ← hkey]
    exact (hspread.carries.write?_iff he').2 ⟨rfl, hwrite⟩
  refine ⟨t₀, c₀, a.primary, t, w, ?_, hsame, ?_, ?_, ?_⟩
  · refine ⟨hw.mem, hw.node, hw.launches, t', ht', rfl, c', hres.before, hres.unfinished, ?_,
      hres.after⟩
    rw [hw.number]
    exact hres.future
  · exact ⟨hspread.mem, hspread.node, hspread.carries, hwrite,
      Moment.held_of_write? hreg hspread.carries hwrite⟩
  · intro o ho hne
    exact hspread.backedUp h hwrite ho hne
  · intro hfew
    rw [hsame.update] at hfew
    exact hserves.owners_eq h hspread.mem hw.mem hspread.carries hfew _

/-- Three nodes of which two own every key, and the backup tells the caller's node itself. -/
def relayingNodes : Grid :=
  start [⟨1⟩, ⟨2⟩, ⟨3⟩] { nodeId := 0, atomic := { nearRelay := .backups } } (.pinned [⟨2⟩, ⟨3⟩])
    Processor.none

/-- Node 1 puts "a".  Node 2 applies it and tells node 3, which tells node 1. -/
def putRelayed : List Event :=
  [.submit ⟨1⟩ (.put [1] [97]), .deliver ⟨1⟩ ⟨2⟩, .deliver ⟨2⟩ ⟨3⟩, .deliver ⟨3⟩ ⟨1⟩]

theorem backed_putRelayed :
    ∃ t₀ c₀ p t w, Completes (relayingNodes.run putRelayed) ⟨1⟩ 1 (.success true) t₀ c₀ p ∧
      Wrote (relayingNodes.run putRelayed) ⟨1⟩ p t (t₀.request c₀) [1] w ∧
      ∀ o ∈ t₀.view.owners [1] t₀.view.topology.version, o ≠ p →
        BackedUp (relayingNodes.run putRelayed) p o [1] w ∨
          (relayingNodes.run putRelayed).attached.contains o = false := by
  have hsome : (((relayingNodes.run putRelayed).nodes ⟨1⟩).submissions.get? 1).map
      (fun c => (c.syncMode, c.update.key, c.update.topologyLocked)) =
        some (.fullSync, [1], false) := by decide +kernel
  have hres : ((relayingNodes.run putRelayed).nodes ⟨1⟩).result? 1 = some (.ok (.success true)) := by
    decide +kernel
  obtain ⟨c, hs, hc⟩ := Option.map_eq_some_iff.1 hsome
  obtain ⟨hsync, hkey, hlocked⟩ : c.syncMode = .fullSync ∧ c.update.key = [1] ∧
      c.update.topologyLocked = false := by simpa using hc
  unfold relayingNodes at hs hres ⊢
  obtain ⟨t₀, c₀, p, t, w, hcomp, -, hwrote, hbacked, howners⟩ :=
    backed_of_success (by decide) hs hsync hres (.inl rfl)
  rw [hkey] at hwrote hbacked howners
  refine ⟨t₀, c₀, p, t, w, hcomp, hwrote, ?_⟩
  rw [← howners (.inl hlocked)]
  exact hbacked

/-- Sixty-six nodes of which two own a key. -/
def manyNodes : Grid :=
  start ((List.range 66).map fun i => ⟨i.toUInt64 + 1⟩) { nodeId := 0 } (.ranked 8 1)
    Processor.standard

/-- Node 53 puts "a" where node 35 is the primary and node 53 itself the other owner. -/
def lockedPut : List Event :=
  [.submit ⟨53⟩ { Update.put [1] [97] with topologyLocked := true }]

def othersDepart : List Event :=
  (manyNodes.attached.keys.filter (· ∉ [⟨35⟩, ⟨53⟩])).map .depart

/-- The request arrives only now, and is answered. -/
def answeredLate : List Event := [.deliver ⟨53⟩ ⟨35⟩, .deliver ⟨35⟩ ⟨53⟩]

/-- The grid when node 53 is told of a success. -/
def forgotten : Grid := manyNodes.run (lockedPut ++ othersDepart ++ answeredLate)

/-- The members at the version of the attempt are no longer on record, so node 35 finds no other
owner.  Node 53 is told of a success, though nobody was told of the write. -/
theorem success_forgotten :
    (forgotten.nodes ⟨53⟩).result? 1 = some (.ok (.success true)) ∧
      ((forgotten.nodes ⟨53⟩).submissions.get? 1).map (fun c => (c.syncMode, c.topologyVersion)) =
        some (.fullSync, ⟨1, 0⟩) ∧
      (manyNodes.view ⟨53⟩).owners [1] ⟨1, 0⟩ = [⟨35⟩, ⟨53⟩] ∧
      forgotten.attached.keys = [⟨35⟩, ⟨53⟩] ∧
      (forgotten.nodes ⟨35⟩).store.held [1] = some ⟨⟨1, 1, 53⟩, some [97]⟩ ∧
      (forgotten.nodes ⟨53⟩).store.held [1] = none ∧
      ∀ t ∈ forgotten.log, t.move.writes [1] = [] := by
  decide +kernel

end Grid

end AtomicGrid
