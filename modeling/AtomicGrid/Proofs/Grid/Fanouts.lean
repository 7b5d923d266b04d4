import AtomicGrid.Proofs.Grid.Departures

/-!
# How fan-outs come about

Every fan-out belongs to a request that its node has carried out.  Whom it has recorded could not be
reached, has acknowledged, or is lost, and what its end brings has come about.

## Results

* `Grid.Reached.handed`: the request and the state of every fan-out, now and at every move.
-/

set_option autoImplicit false

namespace AtomicGrid

namespace Moment

variable {t : Moment} {near : NodeId} {q : UpdateRequest}

/-- The fan-out of a request before anything is sent. -/
def gathered (t : Moment) (near : NodeId) (q : UpdateRequest) : Fanout :=
  (t.before.applied t.view near q).fanout

/-- The fan-out of a request that is carried out now. -/
def opened (t : Moment) (near : NodeId) (q : UpdateRequest) : Fanout :=
  (t.before.opened t.view near q).1

/-- The primary's answer to a request that is carried out now. -/
def answer (t : Moment) (near : NodeId) (q : UpdateRequest) : UpdateResponse :=
  (t.gathered near q).answer t.before.site (t.before.positive t.view near q)

/-- The answer names the receivers, if they tell the caller's node themselves and there are any. -/
theorem answer_eq (t : Moment) (near : NodeId) (q : UpdateRequest) : t.answer near q =
    { t.before.positive t.view near q with
      mapping := if (t.gathered near q).relays t.before.site &&
          !(t.gathered near q).receivers.isEmpty
        then some (t.gathered near q).nodes else none } := by
  unfold answer Fanout.answer
  split
  next => rfl
  next => rfl

theorem named_of_answer {nodes : List NodeId} (h : (t.answer near q).mapping = some nodes) :
    (t.gathered near q).relays t.before.site = true ∧
      (t.gathered near q).receivers.isEmpty = false ∧ nodes = (t.gathered near q).nodes := by
  rw [answer_eq] at h
  simp only [Bool.and_eq_true, Bool.not_eq_true', Option.ite_none_right_eq_some,
    Option.some_inj] at h
  exact ⟨h.1.1, h.1.2, h.2.symm⟩

/-- What the backups get of a request that is carried out now. -/
def prepared (t : Moment) (near : NodeId) (q : UpdateRequest) : Fanout :=
  (t.gathered near q).prepared t.before.site (t.before.positive t.view near q)
    (t.before.applied t.view near q).ret (t.before.route near q)

theorem opened_gathered (t : Moment) (near : NodeId) (q : UpdateRequest) :
    (t.gathered near q).Opened t.before.site t.view (t.before.positive t.view near q)
      (t.before.applied t.view near q).ret (t.before.route near q)
      (t.before.opened t.view near q) :=
  Node.opened_applied

theorem CarriesOut.after (h : t.CarriesOut near q) :
    Node.AfterFanout t.view t.before (t.before.opened t.view near q)
        (t.before.move t.view t.move) ∧ t.Allots := by
  have he : t.before.move t.view t.move = t.before.carryOut t.view near q := by
    rw [Node.move_of_brings h.brings, Node.process_of_carriesOut h.suits]
  obtain ⟨ha, hn, -⟩ := @Node.after_carryOut t.view t.before near q
  rw [he]
  refine ⟨ha, ?_⟩
  show (t.before.move t.view t.move).1.nextFuture = _
  rw [he, hn]

/-- A request is carried out once at a time. -/
theorem CarriesOut.unique {near' : NodeId} {q' : UpdateRequest} (h : t.CarriesOut near q)
    (h' : t.CarriesOut near' q') : near = near' ∧ q = q' := by
  have hb := h.brings
  have hb' := h'.brings
  generalize t.move = move at hb hb'
  cases hb with
  | received hc =>
    cases hb' with
    | received hc' => exact ⟨rfl, rfl⟩
  | resumed v =>
    cases hb' with
    | resumed v' => exact ⟨rfl, rfl⟩

/-- What a fan-out asks for as it is opened comes about. -/
theorem CarriesOut.effect (h : t.CarriesOut near q) {act : FanoutAction}
    (ha : act ∈ (t.before.opened t.view near q).2) {e : Effect} (he : e ∈ act.effects t.view) :
    e ∈ t.effects := by
  show e ∈ (t.before.move t.view t.move).2
  rw [h.after.1.effects]
  exact List.mem_flatMap.2 ⟨act, ha, he⟩

theorem id_opened (t : Moment) (near : NodeId) (q : UpdateRequest) :
    (t.opened near q).id = t.number := Node.id_opened

theorem CarriesOut.fanouts (h : t.CarriesOut near q) :
    t.after.fanouts.get? t.number = some (t.opened near q) := by
  have hid : (t.before.opened t.view near q).1.id = t.number := t.id_opened near q
  rw [Moment.after, h.after.1.fanouts, hid]
  exact SortedMap.get?_insert_self _ _ _

theorem lossNotice_opened (t : Moment) (near : NodeId) (q : UpdateRequest) (o : NodeId) :
    (t.opened near q).lossNotice t.before.site o =
      (t.gathered near q).lossNotice t.before.site o := by
  rw [opened, Fanout.lossNotice_eq (t.opened_gathered near q).same, Fanout.lossNotice_prepared]

end Moment

namespace Grid

open Fanout (SameFanout)

variable {config : Config} {affinity : Affinity} {processors : Processors} {ids : List NodeId}
  {g g₀ : Grid} {n : NodeId} {move : Move} {L : List Moment} {id : FutureId} {f : Fanout}
  {t : Moment} {near : NodeId} {q : UpdateRequest}

/-- Why the fan-out `f` with the number `id` has recorded the receiver `o`. -/
inductive Recorded (L : List Moment) (n : NodeId) (id : FutureId) (f : Fanout) (o : NodeId) : Prop
  | acknowledged {t : Moment} (ht : t ∈ L) (hn : t.node = n) {r : UpdateResponse}
      (hm : t.move = .receive o (.updateResponse r)) (hr : r.future = id)
  | lost {t : Moment} (ht : t ∈ L) (hn : t.node = n) {who : Registered}
      (hm : t.move = .lose o (id, who)) (hs : f.base.syncMode = .fullSync →
        ∀ e ∈ (f.lossNotice t.before.site o).effects t.view, e ∈ t.effects)

/-- How the fan-out `f` came about: at `t` its node has carried a request out, and has then recorded
receivers. -/
structure Handing (L : List Moment) (n : NodeId) (id : FutureId) (f : Fanout) (t : Moment)
    (near : NodeId) (q : UpdateRequest) : Prop where
  mem : t ∈ L
  node : t.node = n
  number : t.number = id
  carries : t.CarriesOut near q
  same : SameFanout (t.opened near q) f
  sound : f.Sound
  keeps : ∀ o, (t.opened near q).Responded o → f.Responded o
  deferred : f.deferred = if f.done then none else (t.opened near q).deferred
  recorded : ∀ o, f.Responded o →
    t.view.reaches o = false ∨ Recorded L n id (t.opened near q) o
  /-- The answer held back goes out at the end. -/
  answered : f.done = true → ∀ d, (t.opened near q).deferred = some d →
    ∃ t' ∈ L, t'.node = n ∧ ∀ e ∈ Node.reply t'.view d.1 d.2, e ∈ t'.effects

/-- All fan-outs of a node have come about by the moves on record. -/
def Hands (L : List Moment) (n : NodeId) (x : Node) : Prop :=
  ∀ id f, x.fanouts.get? id = some f → ∃ t near q, Handing L n id f t near q

/-- All fan-outs, of all times, have come about by the moves on record, and are kept. -/
structure Handed (g : Grid) : Prop where
  now : ∀ n, Hands g.log n (g.nodes n)
  before : ∀ t ∈ g.log, Hands g.log t.node t.before
  kept : ∀ t ∈ g.log, ∀ near q, t.CarriesOut near q →
    ∃ f, (g.nodes t.node).fanouts.get? t.number = some f

theorem Recorded.mono {L' : List Moment} {o : NodeId} (h : Recorded L n id f o) (hL : L ⊆ L') :
    Recorded L' n id f o := by
  cases h with
  | acknowledged ht hn hm hr => exact .acknowledged (hL ht) hn hm hr
  | lost ht hn hm hs => exact .lost (hL ht) hn hm hs

theorem Handing.mono {L' : List Moment} (h : Handing L n id f t near q) (hL : L ⊆ L') :
    Handing L' n id f t near q :=
  { h with
    mem := hL h.mem
    recorded := fun o ho => (h.recorded o ho).imp_right fun hr => hr.mono hL
    answered := fun hd d hdef =>
      let ⟨t₁, ht₁, hr⟩ := h.answered hd d hdef
      ⟨t₁, hL ht₁, hr⟩ }

theorem Hands.mono {L' : List Moment} {x : Node} (hx : Hands L n x) (hL : L ⊆ L') :
    Hands L' n x :=
  fun id f hf =>
    let ⟨t, near, q, h⟩ := hx id f hf
    ⟨t, near, q, h.mono hL⟩

theorem handing_opened (h : t.CarriesOut near q) (L : List Moment) :
    Handing (t :: L) t.node t.number (t.opened near q) t near q := by
  have ho := t.opened_gathered near q
  have hd : (t.opened near q).deferred = if (t.opened near q).done then none
      else (t.opened near q).deferred := by
    split
    next hdone => exact ho.sound.held hdone
    next => rfl
  exact {
    mem := List.mem_cons_self
    node := rfl
    number := rfl
    carries := h
    same := .refl _
    sound := ho.sound
    keeps := fun _ hr => hr
    deferred := hd
    recorded := fun o hr => .inl ((ho.responded o).1 hr).2
    answered := fun hdone d hdef => by
      have hnone : (t.opened near q).deferred = none := ho.sound.held hdone
      rw [hnone] at hdef
      cases hdef }

theorem Handing.repliedToNear (h : Handing L n id f t near q) :
    f.repliedToNear = false ↔ f.base.syncMode = .fullSync := by
  rw [h.same.repliedToNear, h.same.base, Moment.opened, (t.opened_gathered near q).same.repliedToNear,
    (t.opened_gathered near q).same.base]
  simp [Fanout.prepared]

theorem Handing.register (h : Handing L n id f t near q) {t' : Moment} (hn : t'.node = n)
    {o : NodeId} {lost : Bool} (hk : t'.before.Acknowledges t'.move id f o lost)
    (ha : Node.AfterFanout t'.view t'.before
      ((f.register t'.before.site o lost).1, (f.register t'.before.site o lost).2.1)
      (t'.before.move t'.view t'.move)) :
    Handing (t' :: L) n id (f.register t'.before.site o lost).1 t near q := by
  have htr := Fanout.tracks_register t'.before.site h.sound o lost
  have heff {act : FanoutAction} (hact : act ∈ (f.register t'.before.site o lost).2.1) {e : Effect}
      (he : e ∈ act.effects t'.view) : e ∈ t'.effects := by
    show e ∈ (t'.before.move t'.view t'.move).2
    rw [ha.effects]
    exact List.mem_flatMap.2 ⟨act, hact, he⟩
  have h' := h.mono (List.subset_cons_self t' L)
  exact {
    mem := h'.mem
    node := h.node
    number := h.number
    carries := h.carries
    same := h.same.trans htr.toSameFanout
    sound := htr.sound
    keeps := fun o' ho' => (htr.responded o').2 (.inl (h.keeps o' ho'))
    deferred := by
      rw [htr.deferred, h.deferred]
      cases hd : f.done with
      | true => simp [htr.done hd]
      | false => rfl
    recorded := fun o' ho' => by
      rcases (htr.responded o').1 ho' with hold | ⟨rfl, r, hr⟩
      · exact h'.recorded o' hold
      · by_cases hresp : f.Responded o'
        · exact h'.recorded o' hresp
        · refine .inr ?_
          have hmem : t' ∈ t' :: L := List.mem_cons_self
          generalize hm : t'.move = move at hk
          cases hk with
          | answer hi hreg hf => exact .acknowledged hmem hn hm rfl
          | departure hf gone =>
            refine .lost hmem hn hm fun hs e he => ?_
            rw [← Fanout.lossNotice_eq h.same] at he
            refine heff (Fanout.loss_mem_register h.sound hr ?_ ?_) he
            · rw [Bool.eq_false_iff]
              exact fun ht => hresp ⟨r, hr, ht⟩
            · exact h.repliedToNear.2 (h.same.base ▸ hs)
    answered := fun hdone d hdef => by
      cases hd : f.done with
      | true => exact h'.answered hd d hdef
      | false =>
        have hfd : f.deferred = some d := by rw [h.deferred, hd, ← hdef]; rfl
        exact ⟨t', List.mem_cons_self, hn, fun e he =>
          heff (Fanout.reply_mem_register h.sound hfd hdone) he⟩ }

theorem hands_moment {waiting : Handle → Nat} (hx : Hands L t.node t.before)
    (hc : t.before.Coherent waiting) : Hands (t :: L) t.node t.after := by
  intro id f hf
  have hold (hf : t.before.fanouts.get? id = some f) :
      ∃ t₀ near q, Handing (t :: L) t.node id f t₀ near q :=
        hx.mono (List.subset_cons_self t L) id f hf
  have ht : t.before.Turn t.view t.move (t.before.move t.view t.move) := Node.turn_move t.move
  cases ht with
  | submission ht ha =>
    rw [Moment.after, ha.fanouts] at hf
    exact hold hf
  | plain ht ha =>
    rw [Moment.after, ha.fanouts] at hf
    exact hold hf
  | @carried near q hm hco ha hn hs =>
    rw [Moment.after, ha.fanouts, SortedMap.get?_insert_ite] at hf
    split at hf
    next he =>
      have he : id = t.number := he.trans Node.id_opened
      subst he
      cases hf
      exact ⟨t, near, q, handing_opened ⟨hm, hco⟩ L⟩
    next => exact hold hf
  | @acknowledged id' f' o lost hk ha hn hs =>
    have hf' := hk.get?
    obtain ⟨hid, hsound, -⟩ := hc.fanouts id' f' hf'
    obtain ⟨t₀, near, q, h₀⟩ := hx id' f' hf'
    rw [Moment.after, ha.fanouts, SortedMap.get?_insert_ite] at hf
    split at hf
    next he =>
      have hsame := (Fanout.tracks_register t.before.site hsound o lost).toSameFanout
      have he : id = id' := he.trans ((Fanout.id_eq hsame).trans hid)
      subst he
      cases hf
      exact ⟨t₀, near, q, h₀.register rfl hk ha⟩
    next => exact hold hf

theorem kept_moment {f : Fanout} (hf : t.before.fanouts.get? id = some f) :
    ∃ f, t.after.fanouts.get? id = some f := by
  have hins (f' : Fanout) (x : FutureId) :
      ∃ f, (t.before.fanouts.insert x f').get? id = some f := by
    rw [SortedMap.get?_insert_ite]
    split
    next => exact ⟨f', rfl⟩
    next => exact ⟨f, hf⟩
  have ht : t.before.Turn t.view t.move (t.before.move t.view t.move) := Node.turn_move t.move
  cases ht with
  | submission ht ha => exact ⟨f, by rw [Moment.after, ha.fanouts, hf]⟩
  | plain ht ha => exact ⟨f, by rw [Moment.after, ha.fanouts, hf]⟩
  | carried hm hco ha => exact ha.fanouts ▸ hins _ _
  | acknowledged hk ha => exact ha.fanouts ▸ hins _ _

theorem Handed.act (h : g.Handed) (hcoh : ∀ n, (g.nodes n).Coherent (g.parked n))
    (ho : Occasion g n move g₀) : (g₀.act n move).Handed := by
  have hs := ho.same
  have hlog : (g₀.act n move).log = g.moment n move :: g.log := hs.log_act
  refine ⟨fun m => ?_, fun t ht => ?_, fun t ht near q hc => ?_⟩
  · rw [hlog, hs.nodes_act]
    split
    next he =>
      subst he
      exact hands_moment (t := g.moment m move) (h.now m) (hcoh m)
    next => exact (h.now m).mono (List.subset_cons_self _ _)
  · rw [hlog] at ht ⊢
    rcases List.mem_cons.1 ht with rfl | ht
    · exact (h.now n).mono (List.subset_cons_self _ _)
    · exact (h.before t ht).mono (List.subset_cons_self _ _)
  · rw [hlog] at ht
    rw [hs.nodes_act]
    rcases List.mem_cons.1 ht with rfl | ht
    · refine ⟨(g.moment n move).opened near q, ?_⟩
      rw [if_pos (by rfl)]
      exact hc.fanouts
    · obtain ⟨f, hf⟩ := h.kept t ht near q hc
      split
      next he => exact kept_moment (t := g.moment n move) (he ▸ hf)
      next => exact ⟨f, hf⟩

theorem Reached.handed (h : Reached (start ids config affinity processors) g) : g.Handed := by
  induction h with
  | init =>
    exact ⟨fun _ _ _ hf => (nomatch hf), fun _ ht => (nomatch ht), fun _ ht => (nomatch ht)⟩
  | next h _ hn ih =>
    cases hn with
    | act ho => exact ih.act h.coherent ho
    | depart hn => exact ⟨ih.now, ih.before, ih.kept⟩
    | told hi ht => exact ⟨ih.now, ih.before, ih.kept⟩
    | exchange members => exact ⟨ih.now, ih.before, ih.kept⟩
    | settle => exact ⟨ih.now, ih.before, ih.kept⟩

end Grid

end AtomicGrid
