import AtomicGrid.Proofs.Grid.Arrivals
import AtomicGrid.Proofs.Node.Writes

/-!
# What a move applies

A move applies at most one write of a key, as the primary of the key, and tells the other owners of
it.  Nobody is told of anything else.

## Results

* `Moment.held_after`: what the node holds after the move.
* `Moment.mem_told`: who is told of what.
* `Grid.Reached.regular`: every move of a reachable grid is regular.
-/

set_option autoImplicit false

namespace AtomicGrid

theorem UpdatePayload.keys_eq (p : UpdatePayload) : p.keys = p.entries.map (·.key) := by
  cases p with
  | single key value => rfl
  | singleFilter key value filters => rfl
  | singleInvoke key processor args => rfl
  | full entries filters args expiry => rfl

namespace Moment

variable {t : Moment} {o : NodeId} {key : Key} {w : Write}

/-- The write of a key that the node applies as its primary. -/
def write? (t : Moment) (key : Key) : Option Write := t.before.write? t.view t.move key

/-- The writes of a key that another node is told of. -/
def told (t : Moment) (o : NodeId) (key : Key) : List Write :=
  (t.sentTo o).flatMap (·.writes key)

/-- The move handles nothing but what is about this cache and concerns one key. -/
structure Regular (t : Moment) : Prop where
  orderly : t.Orderly
  numbered : t.before.Numbered
  site : t.before.site.node = t.node
  cacheId : ∀ s m, t.move = .receive s m → m.envelope.cacheId = t.before.site.cacheId
  single : ∀ s q, t.before.Brings s q t.move → ∃ e, q.payload.entries = [e]

/-- What the move handles was mapped on the topology that the node sees. -/
def Timely (t : Moment) : Prop :=
  ∀ s q, t.before.Brings s q t.move → q.topologyVersion = t.view.topology.version

theorem held_after (hc : t.Regular) (key : Key) : t.after.store.held key =
    (t.move.writes key).foldl Write.replay ((t.write? key).or (t.before.store.held key)) :=
  Node.held_move hc.cacheId hc.single key

/-- What a primary applies, it applies as the primary. -/
theorem primary_of_write? (hc : t.Regular) (h : t.write? key = some w) :
    t.view.primary key t.view.topology.version = some t.node := by
  obtain ⟨s, q, e, hb, hco, he, rfl, -⟩ := Node.write?_eq_some.1 h
  have hk : e.key ∈ q.keys := by
    rw [UpdateRequest.keys, UpdatePayload.keys_eq, he]
    exact List.mem_singleton_self _
  have hp := hco.primary e.key hk
  rw [Node.id, hc.site] at hp
  exact hp

/-- Only the primary tells backups, and only as it carries a request out. -/
theorem carriesOut_of_sentTo (hc : t.Regular) {b : BackupRequest}
    (hm : .backupRequest b ∈ t.sentTo o) : ∃ near q rec, t.CarriesOut near q ∧
      (t.prepared near q).receivers.get? o = some rec ∧ rec.request = b := by
  obtain ⟨m, he, hrec⟩ := Moment.mem_sentTo.1 hm
  obtain rfl : m = .backupRequest b := by
    cases m with
    | backupRequest b' => exact hrec
    | _ => cases hrec
  obtain ⟨waiting, hcoh, -⟩ := hc.orderly.coherent
  have hturn : t.before.Turn t.view t.move (t.before.move t.view t.move) := Node.turn_move t.move
  have he : .sent o (.backupRequest b) ∈ (t.before.move t.view t.move).2 := he
  cases hturn with
  | submission hturn ha =>
    rw [ha.effects] at he
    obtain ⟨hs, hv⟩ := Node.sent_of_submission he
    rcases sends_submission hc.orderly hc.numbered hturn hs hv with ⟨hm, -⟩ | ⟨id, a, hk⟩
    · cases hm
    · cases hk.message
  | @carried near q hb hco ha =>
    rw [ha.effects] at he
    obtain ⟨-, hs | ⟨resp, hs, hx⟩⟩ := Node.sent_of_fanout he
    · cases (t.opened_gathered near q).asks _ hs with
      | request h => exact ⟨near, q, _, ⟨hb, hco⟩, h, rfl⟩
    · cases hx
  | @acknowledged id f o' lost hk ha =>
    rw [ha.effects] at he
    obtain ⟨-, hs | ⟨resp, hs, hx⟩⟩ := Node.sent_of_fanout he
    · cases Fanout.brings_register (hcoh.fanouts id f hk.get?).2.1 hs
    · cases hx
  | plain hp ha =>
    rcases Node.sent_of_plain hp he with ⟨resp, hm⟩ | ⟨b', hm⟩
    · cases hm
    · cases hm

/-- A primary that carries a request of one entry out writes what it has for this entry. -/
theorem CarriesOut.write?_iff {near : NodeId} {q : UpdateRequest} {e : UpdateEntry}
    (hco : t.CarriesOut near q) (he : q.payload.entries = [e]) :
    t.write? key = some w ↔ e.key = key ∧ t.before.written q e = some w := by
  refine Node.write?_eq_some.trans ⟨?_, ?_⟩
  · rintro ⟨s, q', e', hb, hc', he', hk, hw⟩
    obtain ⟨-, rfl⟩ := CarriesOut.unique hco ⟨hb, hc'⟩
    rw [he, List.cons.injEq] at he'
    obtain ⟨rfl, -⟩ := he'
    exact ⟨hk, hw⟩
  · rintro ⟨hk, hw⟩
    exact ⟨near, q, e, hco.brings, hco.suits, he, hk, hw⟩

/-- What the primary hands on to `o` when it carries a request out is what it applies, if `o` is
another owner of the key. -/
theorem handsOn_prepared (hc : t.Regular) {near : NodeId} {q : UpdateRequest}
    (hco : t.CarriesOut near q) (o : NodeId) (key : Key) (w : Write) :
    (∃ rec, (t.prepared near q).receivers.get? o = some rec ∧ w ∈ rec.request.writes key) ↔
      t.write? key = some w ∧ o ∈ t.view.owners key q.topologyVersion ∧ o ≠ t.node := by
  obtain ⟨e, he⟩ := hc.single near q hco.brings
  have hh : Node.HandsOn t.view t.before q e (t.gathered near q) := Node.handsOn_applied he
  have hentries (o : NodeId) : (t.prepared near q).entriesFor o = (t.gathered near q).entriesFor o :=
    Fanout.entriesFor_prepared _ _ _ _ o
  have hrec {rec : Receiver} (hr : (t.prepared near q).receivers.get? o = some rec) :
      (t.gathered near q).entriesFor o = some rec.request.entries := by
    rw [← hentries, Fanout.entriesFor, hr]
    rfl
  have hid : t.before.id = t.node := hc.site
  rw [hco.write?_iff he]
  cases hh with
  | nothing hw hf =>
    constructor
    · rintro ⟨rec, hr, -⟩
      have := hrec hr
      rw [hf] at this
      cases this
    · rintro ⟨⟨-, hw'⟩, -⟩
      rw [hw] at hw'
      cases hw'
  | @write w₀ hw b readers hb hr hf =>
    rw [hid] at hf
    have hmade : (⟨q.writeVersion, b.value⟩ : Write) = w₀ := by
      rw [hb.2, ← Node.version_of_written hw]
    rw [hw, Option.some_inj]
    constructor
    · rintro ⟨rec, hrec', hmem⟩
      obtain ⟨e', he', hk, rfl⟩ := BackupRequest.mem_writes.1 hmem
      have hfo := hrec hrec'
      rw [hf o] at hfo
      split at hfo
      next ho =>
        rw [Option.some_inj] at hfo
        rw [← hfo] at he'
        obtain rfl := List.eq_of_mem_replicate he'
        rw [List.mem_filter, decide_eq_true_eq] at ho
        rw [(repeats_prepared hrec').writeVersion, hmade]
        have hkey : e.key = key := hb.1.symm.trans hk
        exact ⟨⟨hkey, rfl⟩, hkey ▸ ho.1, ho.2⟩
      next =>
        split at hfo
        · rw [← Option.some_inj.1 hfo] at he'
          cases he'
        · cases hfo
    · rintro ⟨⟨rfl, rfl⟩, ho, hne⟩
      have hmem : o ∈ (t.view.owners e.key q.topologyVersion).filter (· ≠ t.node) :=
        List.mem_filter.2 ⟨ho, decide_eq_true hne⟩
      have hfo := hf o
      rw [if_pos hmem, ← hentries] at hfo
      obtain ⟨rec, hrec', hes⟩ := Option.map_eq_some_iff.1 hfo
      refine ⟨rec, hrec', BackupRequest.mem_writes.2 ⟨b, ?_, hb.1, ?_⟩⟩
      · rw [hes, List.mem_replicate]
        exact ⟨Nat.pos_iff_ne_zero.1 (List.count_pos_iff.2 hmem), rfl⟩
      · rw [(repeats_prepared hrec').writeVersion, hmade]

/-- Another owner that can be reached is told of what the primary applies, and nobody is told of
anything else. -/
theorem mem_told (hc : t.Regular) (htime : t.Timely) (hv : t.view.reaches o = true) :
    w ∈ t.told o key ↔
      t.write? key = some w ∧ o ∈ t.view.owners key t.view.topology.version ∧ o ≠ t.node := by
  unfold told
  rw [List.mem_flatMap]
  constructor
  · rintro ⟨m, hm, hw⟩
    cases m with
    | backupRequest b =>
      obtain ⟨near, q, rec, hco, hr, rfl⟩ := carriesOut_of_sentTo hc hm
      rw [← htime near q hco.brings]
      exact (handsOn_prepared hc hco o key w).1 ⟨rec, hr, hw⟩
    | _ => cases hw
  · intro h
    obtain ⟨near, q, e, hb, hco, -⟩ := Node.write?_eq_some.1 h.1
    have hco : t.CarriesOut near q := ⟨hb, hco⟩
    rw [← htime near q hb] at h
    obtain ⟨rec, hr, hw⟩ := (handsOn_prepared hc hco o key w).2 h
    exact ⟨.backupRequest rec.request, mem_sentTo_of_reaches (hco.requests hr) hv, hw⟩

/-- Being told of what the primary applies, often or once, is to replay it. -/
theorem replay_told (hc : t.Regular) (htime : t.Timely) (hv : t.view.reaches o = true)
    (ho : o ∈ t.view.owners key t.view.topology.version) (hne : o ≠ t.node) (held : Option Write) :
    (t.told o key).foldl Write.replay held = (t.write? key).toList.foldl Write.replay held := by
  cases hw : t.write? key with
  | none =>
    have hnil : t.told o key = [] := by
      rw [List.eq_nil_iff_forall_not_mem]
      intro w hmem
      rw [((mem_told hc htime hv).1 hmem).1] at hw
      cases hw
    rw [hnil]
    rfl
  | some w =>
    have hmem : w ∈ t.told o key := (mem_told hc htime hv).2 ⟨hw, ho, hne⟩
    refine Write.replay_all held (List.ne_nil_of_mem hmem) fun w' hw' => ?_
    rw [((mem_told hc htime hv).1 hw').1, Option.some_inj] at hw
    exact hw

end Moment

theorem Grid.Reached.regular {config : Config} {affinity : Affinity} {processors : Processors}
    {ids : List NodeId} {g : Grid} (h : Reached (start ids config affinity processors) g) :
    ∀ t ∈ g.log, t.Regular := by
  intro t ht
  exact {
    orderly := h.orderly t ht
    numbered := (h.attended.before t ht).numbered
    site := by
      rw [(h.framed.common t ht).site]
      rfl
    cacheId := fun s m hm => h.cacheId_received ht hm
    single := by
      intro s q hb
      obtain ⟨t₀, -, -, c, -, -, rfl⟩ := h.brought ht hb
      obtain ⟨e, he, -⟩ := c.update.entries_payload
      exact ⟨e, he⟩ }

end AtomicGrid
