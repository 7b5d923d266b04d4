import AtomicGrid.Proofs.Grid.Arrivals

/-!
# A request is carried out once

A request is sent once.  From then on it is on its link, or waits for the topology, or was handled,
and is never in two of these places.

## Results

* `Grid.Reached.once`: where a request is.
* `Grid.Reached.carried_unique`: it is carried out once at most.
-/

set_option autoImplicit false

namespace AtomicGrid

/-- The message is the request of the attempt with the number `id`. -/
def Message.asks (id : FutureId) : Message → Bool
  | .updateRequest q => q.future = id
  | _ => false

/-- The task is to process the request of the attempt with the number `id` on `n`. -/
def Task.serves (n : NodeId) (id : FutureId) : Task → Bool
  | .process s q => s = n ∧ q.future = id
  | .remap _ => false

namespace Moment

variable {t : Moment} {n p : NodeId} {id : FutureId} {q : UpdateRequest}

/-- A request is sent by the attempt that is launched, and nothing else is sent to its primary. -/
theorem sentTo_of_request (ho : t.Orderly) (hn : t.before.Numbered)
    (hm : .updateRequest q ∈ t.sentTo p) :
    t.sentTo p = [.updateRequest q] ∧ q.future = t.number ∧ ∃ h c, t.Launches h c p := by
  obtain ⟨m, he, hrec⟩ := mem_sentTo.1 hm
  obtain rfl : m = .updateRequest q := by
    cases m with
    | updateRequest q' => exact hrec
    | _ => cases hrec
  obtain ⟨waiting, hcoh, -⟩ := ho.coherent
  have hturn : t.before.Turn t.view t.move (t.before.move t.view t.move) := Node.turn_move t.move
  have he : .sent p (.updateRequest q) ∈ (t.before.move t.view t.move).2 := he
  cases hturn with
  | @submission h c x hturn ha =>
    rw [ha.effects] at he
    obtain ⟨hs, hv⟩ := Node.sent_of_submission he
    rcases sends_submission ho hn hturn hs hv with ⟨hq, hl, hsent⟩ | ⟨id, a, hk⟩
    · cases hq
      exact ⟨hsent, rfl, h, c, hl⟩
    · cases hk.message
  | @carried near q' hb hco ha =>
    rw [ha.effects] at he
    obtain ⟨-, hs | ⟨resp, hs, hx⟩⟩ := Node.sent_of_fanout he
    · cases (t.opened_gathered near q').asks _ hs
    · cases hx
  | @acknowledged id f o lost hk ha =>
    rw [ha.effects] at he
    obtain ⟨-, hs | ⟨resp, hs, hx⟩⟩ := Node.sent_of_fanout he
    · cases Fanout.brings_register (hcoh.fanouts id f hk.get?).2.1 hs
    · cases hx
  | plain hp ha =>
    rcases Node.sent_of_plain hp he with ⟨resp, hx⟩ | ⟨b, hx⟩
    · cases hx
    · cases hx

/-- A request is brought to wait once. -/
theorem length_waits_of_brings (hb : t.before.Brings n q t.move) : t.waits.length ≤ 1 := by
  have hp : Node.Processed t.view t.before n q (t.before.move t.view t.move) :=
    Node.processed_move hb
  have he : t.waits = (t.before.move t.view t.move).2.filterMap Effect.wait? := rfl
  rw [he]
  generalize t.before.move t.view t.move = x at hp
  cases hp with
  | carriedOut hc =>
    rw [(Node.after_carryOut n q).1.effects, Node.wait?_fanout]
    exact Nat.zero_le 1
  | deferred hd => exact Nat.le_refl 1
  | declined hd hc => exact List.length_filterMap_le _ _

/-- A request that is carried out does not wait. -/
theorem CarriesOut.waits (hc : t.CarriesOut n q) : t.waits = [] := by
  have he : t.waits = (t.before.move t.view t.move).2.filterMap Effect.wait? := rfl
  rw [he, hc.after.1.effects, Node.wait?_fanout]

/-- The move carries out the request of the attempt with the number `id` on `n`. -/
def Meets (t : Moment) (n : NodeId) (id : FutureId) : Prop :=
  ∃ q, t.CarriesOut n q ∧ q.future = id

end Moment

namespace Grid

variable {config : Config} {affinity : Affinity} {processors : Processors} {ids : List NodeId}
  {g g₀ : Grid} {m n p : NodeId} {move : Move} {id : FutureId} {q : UpdateRequest}

/-- How often the request of the attempt with the number `id` on `n` is under way to `p`, or waits
there. -/
def places (g : Grid) (n p : NodeId) (id : FutureId) : Nat :=
  (g.links n p).countP (·.asks id) + g.tasks.countP fun w => w.1 = p ∧ w.2.task.serves n id

/-- A request is in one place at most, and in none once it was carried out. -/
structure Once (g : Grid) (n p : NodeId) (id : FutureId) : Prop where
  single : g.places n p id ≤ 1
  /-- A request that was not sent is nowhere. -/
  ahead : (g.nodes n).nextFuture ≤ id → g.places n p id = 0
  spent : ∀ t ∈ g.log, t.node = p → t.Meets n id → g.places n p id = 0
  unique : ∀ t ∈ g.log, ∀ t' ∈ g.log, t.node = p → t'.node = p → t.Meets n id → t'.Meets n id →
    t = t'

theorem Occasion.places_le (h : Occasion g m move g₀) (n p : NodeId) (id : FutureId) :
    g₀.places n p id ≤ g.places n p id := by
  unfold places
  have hlink : (g₀.links n p).countP (·.asks id) ≤ (g.links n p).countP (·.asks id) := by
    rcases h.links n p with hl | ⟨rfl, msg, -, hl⟩
    · exact Nat.le_of_eq (by rw [hl])
    · rw [hl, List.countP_cons]
      exact Nat.le_add_right _ _
  have htask : g₀.tasks.countP (fun w => w.1 = p ∧ w.2.task.serves n id) ≤
      g.tasks.countP fun w => w.1 = p ∧ w.2.task.serves n id := by
    cases h with
    | resume hi ha => exact (List.eraseIdx_sublist _ _).countP_le
    | _ => exact Nat.le_refl _
  omega

/-- A request that is brought is taken from its place. -/
theorem Occasion.places_of_brings (h : Occasion g p move g₀)
    (hb : (g.nodes p).Brings n q move) : g₀.places n p q.future + 1 ≤ g.places n p q.future := by
  unfold places
  cases hb with
  | received hc =>
    have htasks : g₀.tasks = g.tasks := by
      cases h with
      | receive hn hl => rfl
    have hl : g.links n p = .updateRequest q :: g₀.links n p := by
      cases h with
      | receive hn hl => simp [setLink, hl]
    rw [htasks, hl, List.countP_cons]
    simp only [Message.asks, decide_true, if_true]
    omega
  | resumed v =>
    generalize hmove : Move.resume (.process n q) (.ok v) = move at h
    cases h with
    | @resume i w awaited hi ha =>
      have htask : w.task = .process n q := (Move.resume.inj hmove).1.symm
      have hserves : w.task.serves n q.future = true := by
        rw [htask]
        simp [Task.serves]
      have hc := countP_eraseIdx
        (fun w : NodeId × Wait => decide (w.1 = p ∧ w.2.task.serves n q.future)) hi
      rw [if_pos (by simp [hserves])] at hc
      show (g.links n p).countP _ + (g.tasks.eraseIdx i).countP _ + 1 ≤ _
      omega
    | _ => cases hmove

theorem places_act (g : Grid) (m : NodeId) (move : Move) (n p : NodeId) (id : FutureId) :
    (g.act m move).places n p id = g.places n p id +
      (if n = m then ((g.moment m move).sentTo p).countP (·.asks id) else 0) +
      (if p = m then (g.moment m move).waits.countP (·.task.serves n id) else 0) := by
  unfold places
  have hlink : ((g.act m move).links n p).countP (·.asks id) =
      (g.links n p).countP (·.asks id) +
        if n = m then ((g.moment m move).sentTo p).countP (·.asks id) else 0 := by
    rw [links_act]
    split
    · rw [List.countP_append]
    · rfl
  have htask : (g.act m move).tasks.countP (fun w => w.1 = p ∧ w.2.task.serves n id) =
      g.tasks.countP (fun w => w.1 = p ∧ w.2.task.serves n id) +
        if p = m then (g.moment m move).waits.countP (·.task.serves n id) else 0 := by
    rw [tasks_act, List.countP_append, List.countP_map]
    congr 1
    split
    next he =>
      simp only [Function.comp_def, he, true_and, Bool.decide_eq_true]
    next he =>
      rw [List.countP_eq_zero]
      intro w hw
      simp [Ne.symm he]
  omega

/-- A request that was carried out had been sent. -/
theorem Reached.lt_of_meets (h : Reached (start ids config affinity processors) g) {t : Moment}
    (ht : t ∈ g.log) (hm : t.Meets n id) : id < (g.nodes n).nextFuture := by
  obtain ⟨q, hc, rfl⟩ := hm
  exact h.lt_of_launched (h.launched_of_brings ht hc.brings)

/-- A move that does not send a request adds it to no place, and if it carries the request out it
takes it from its place. -/
theorem Occasion.places_act_le (h : Occasion g m move g₀)
    (hs : n = m → ((g.moment m move).sentTo p).countP (·.asks id) = 0) :
    (g₀.act m move).places n p id ≤ g.places n p id ∧
      (p = m → (g.moment m move).Meets n id → g.places n p id ≠ 0 ∧
        (g₀.act m move).places n p id + 1 ≤ g.places n p id) := by
  have hsent : (if n = m then ((g.moment m move).sentTo p).countP (·.asks id) else 0) = 0 := by
    split
    next he => exact hs he
    next => rfl
  have hle := h.places_le n p id
  rw [places_act, h.same.moment, hsent, Nat.add_zero]
  by_cases hp : p = m
  · subst hp
    rw [if_pos rfl]
    by_cases hw : (g.moment p move).waits.countP (·.task.serves n id) = 0
    · rw [hw]
      refine ⟨hle, ?_⟩
      rintro - ⟨q, hc, rfl⟩
      have := h.places_of_brings hc.brings
      omega
    · obtain ⟨w, hmem, hserves⟩ := List.countP_pos_iff.1 (Nat.pos_of_ne_zero hw)
      obtain ⟨q, hb, rfl⟩ : ∃ q, (g.moment p move).before.Brings n q (g.moment p move).move ∧
          q.future = id := by
        cases htask : w.task with
        | remap k => simp [htask, Task.serves] at hserves
        | process s q =>
          simp only [htask, Task.serves, decide_eq_true_eq] at hserves
          obtain ⟨rfl, rfl⟩ := hserves
          exact ⟨q, (process_of_waits hmem htask).2, rfl⟩
      have hone : (g.moment p move).waits.countP (·.task.serves n q.future) ≤ 1 :=
        Nat.le_trans List.countP_le_length (Moment.length_waits_of_brings hb)
      have htaken := h.places_of_brings hb
      constructor
      · exact Nat.le_trans (Nat.add_le_add_left hone _) htaken
      · rintro - ⟨q', hc, -⟩
        rw [hc.waits] at hw
        exact absurd rfl hw
  · rw [if_neg hp]
    exact ⟨hle, fun he => absurd he hp⟩

/-- The request that a move sends was nowhere before. -/
theorem Once.act_sent {g' : Grid} (hg' : g' = g₀.act n move) (h : g.Once n p id)
    (hreached : Reached (start ids config affinity processors) g) (hr : g.Roomy)
    (hreached' : Reached (start ids config affinity processors) g') (ho : Occasion g n move g₀)
    (hs : ((g.moment n move).sentTo p).countP (·.asks id) ≠ 0) : g'.Once n p id := by
  have hlog : g'.log = g.moment n move :: g.log := by
    rw [hg', ho.same.log_act]
  have ht : g.moment n move ∈ g'.log := hlog ▸ List.mem_cons_self
  have hnumbered : (g.moment n move).before.Numbered := (hreached.attended.now n).numbered
  obtain ⟨msg, hmem, hasks⟩ := List.countP_pos_iff.1 (Nat.pos_of_ne_zero hs)
  obtain ⟨q, rfl, rfl⟩ : ∃ q, msg = .updateRequest q ∧ q.future = id := by
    cases msg with
    | updateRequest q => exact ⟨q, rfl, of_decide_eq_true hasks⟩
    | _ => cases hasks
  obtain ⟨hsent, hnum, hd, c, hl⟩ :=
    Moment.sentTo_of_request (hreached'.orderly _ ht) hnumbered hmem
  have hnum : q.future = (g.nodes n).nextFuture := hnum
  have hfresh {t : Moment} (ht : t ∈ g.log) : ¬ t.Meets n q.future := by
    intro hm
    have := hreached.lt_of_meets ht hm
    rw [hnum] at this
    exact UInt64.lt_irrefl _ this
  have hnot : ¬ (g.moment n move).Meets n q.future := by
    rintro ⟨q', hc, -⟩
    exact not_launches_of_brings hc.brings hl
  have hnone : ∀ t ∈ g'.log, ¬ t.Meets n q.future := by
    intro t ht
    rw [hlog] at ht
    rcases List.mem_cons.1 ht with rfl | ht
    · exact hnot
    · exact hfresh ht
  constructor
  · have hzero := h.ahead (UInt64.le_of_eq hnum.symm)
    have hle := ho.places_le n p q.future
    have hwaits : (g.moment n move).waits.countP (·.task.serves n q.future) = 0 := by
      rw [List.countP_eq_zero]
      intro w hw hserves
      cases htask : w.task with
      | remap k => simp [htask, Task.serves] at hserves
      | process s q' =>
        exact not_launches_of_brings (process_of_waits hw htask).2 hl
    rw [hg', places_act, ho.same.moment, if_pos rfl, hsent, hwaits]
    have hone : [Message.updateRequest q].countP (·.asks q.future) ≤ 1 := List.countP_le_length
    split <;> omega
  · intro hle
    have hnext : (g'.nodes n).nextFuture = (g.nodes n).nextFuture + 1 := by
      rw [hg', nodes_act, if_pos rfl, ho.same.moment]
      exact hl.allots
    rw [hnext, hnum] at hle
    exact absurd (lt_add_one_of_room (hr.futures n)) (UInt64.not_lt.2 hle)
  · exact fun t ht _ hm => absurd hm (hnone t ht)
  · exact fun t ht _ _ _ _ hm => absurd hm (hnone t ht)

/-- Where a request is after a move that does not send it. -/
theorem Once.act_other {g' : Grid} (hg' : g' = g₀.act m move) (h : g.Once n p id) (hr : g.Roomy)
    (ho : Occasion g m move g₀)
    (hs : n = m → ((g.moment m move).sentTo p).countP (·.asks id) = 0) : g'.Once n p id := by
  have hlog : g'.log = g.moment m move :: g.log := by
    rw [hg', ho.same.log_act]
  obtain ⟨hle, htaken⟩ := ho.places_act_le hs
  rw [← hg'] at hle htaken
  have hspent {t : Moment} (ht : t ∈ g.log) (hn : t.node = p) (hm : t.Meets n id) :
      ¬ (p = m ∧ (g.moment m move).Meets n id) := by
    rintro ⟨hp, hm'⟩
    exact (htaken hp hm').1 (h.spent t ht hn hm)
  constructor
  · exact Nat.le_trans hle h.single
  · intro hahead
    have hnext : (g.nodes n).nextFuture ≤ (g'.nodes n).nextFuture :=
      hg' ▸ nextFuture_le_act hr ho.same n
    have := h.ahead (UInt64.le_trans hnext hahead)
    omega
  · intro t ht hn hm
    rw [hlog] at ht
    rcases List.mem_cons.1 ht with rfl | ht
    · have := (htaken hn.symm hm).2
      have := h.single
      omega
    · have := h.spent t ht hn hm
      omega
  · intro t ht t' ht' hn hn' hm hm'
    rw [hlog] at ht ht'
    rcases List.mem_cons.1 ht with rfl | ht
    · rcases List.mem_cons.1 ht' with rfl | ht'
      · rfl
      · exact absurd ⟨hn.symm, hm⟩ (hspent ht' hn' hm')
    · rcases List.mem_cons.1 ht' with rfl | ht'
      · exact absurd ⟨hn'.symm, hm'⟩ (hspent ht hn hm)
      · exact h.unique t ht t' ht' hn hn' hm hm'

theorem Once.depart (h : g.Once n p id) (m : NodeId) : (g.depart m).Once n p id := by
  have hle : (g.depart m).places n p id ≤ g.places n p id := by
    unfold places
    refine Nat.add_le_add_right ?_ _
    show List.countP _ (if p = m then [] else g.links n p) ≤ _
    split
    · exact Nat.zero_le _
    · exact Nat.le_refl _
  constructor
  · exact Nat.le_trans hle h.single
  · exact fun hahead => Nat.le_zero.1 (h.ahead hahead ▸ hle)
  · exact fun t ht hn hm => Nat.le_zero.1 (h.spent t ht hn hm ▸ hle)
  · exact h.unique

theorem Reached.once (h : Reached (start ids config affinity processors) g) (n p : NodeId)
    (id : FutureId) : g.Once n p id := by
  induction h with
  | init =>
    exact ⟨Nat.zero_le 1, fun _ => rfl, fun t ht => (nomatch ht), fun t ht => (nomatch ht)⟩
  | @next g g' h hr hx ih =>
    have h' := h.next hr hx
    cases hx with
    | @act m move g₀ ho =>
      by_cases hs : n = m ∧ ((g.moment m move).sentTo p).countP (·.asks id) ≠ 0
      · obtain ⟨rfl, hs⟩ := hs
        exact ih.act_sent rfl h hr h' ho hs
      · refine ih.act_other rfl hr ho fun hn => ?_
        exact Decidable.byContradiction fun hne => hs ⟨hn, hne⟩
    | depart hn => exact ih.depart _
    | told hi ht => exact ⟨ih.single, ih.ahead, ih.spent, ih.unique⟩
    | exchange members => exact ⟨ih.single, ih.ahead, ih.spent, ih.unique⟩
    | settle => exact ⟨ih.single, ih.ahead, ih.spent, ih.unique⟩

/-- A request is carried out once at most. -/
theorem Reached.carried_unique (h : Reached (start ids config affinity processors) g)
    {p' : NodeId} {t t' : Moment} {q' : UpdateRequest} (hc : g.Carried n id p t q)
    (hc' : g.Carried n id p' t' q') : t = t' ∧ q = q' := by
  obtain rfl := h.launched_unique (h.launched_of_carried hc) (h.launched_of_carried hc')
  obtain rfl := (h.once n p id).unique t hc.mem t' hc'.mem hc.node hc'.node
    ⟨q, hc.carries, hc.future⟩ ⟨q', hc'.carries, hc'.future⟩
  exact ⟨rfl, (hc.carries.unique hc'.carries).2⟩

end Grid

end AtomicGrid
