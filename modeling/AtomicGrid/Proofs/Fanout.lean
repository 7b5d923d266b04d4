import AtomicGrid.Fanout
import AtomicGrid.Proofs.SortedMap

/-!
# What becomes of a fan-out

A fan-out counts whom it has heard, or lost.  The count is that of the receivers recorded, so a
fan-out is done as soon as all of them are, and not before.

## Results

* `Fanout.recorded_register`: what recording a receiver leads to.
* `Fanout.tracks_told`: the state of a fan-out after any acknowledgements and losses.
* `Fanout.opened_map`: what sending the requests leads to.
-/

set_option autoImplicit false

namespace AtomicGrid.Fanout

/-- The receiver is one of the fan-out's, and recorded. -/
def Responded (f : Fanout) (o : NodeId) : Prop :=
  ∃ r, f.receivers.get? o = some r ∧ r.responded = true

def AllResponded (f : Fanout) : Prop :=
  ∀ o r, f.receivers.get? o = some r → r.responded = true

structure Sound (f : Fanout) : Prop where
  counted : f.responses = f.receivers.entries.countP (·.2.responded)
  done : f.done = true ↔ f.mapped = true ∧ f.AllResponded
  held : f.done = true → f.deferred = none

variable {f : Fanout} {site : Site}

theorem mem_nodes_iff {o : NodeId} : o ∈ f.nodes ↔ ∃ r, f.receivers.get? o = some r := by
  rw [nodes, SortedMap.mem_keys_iff, SortedMap.contains, Option.isSome_iff_exists]

theorem allResponded_iff : f.AllResponded ↔ ∀ o ∈ f.nodes, f.Responded o := by
  constructor
  · intro h o ho
    obtain ⟨r, hr⟩ := mem_nodes_iff.1 ho
    exact ⟨r, hr, h o r hr⟩
  · intro h o r hr
    obtain ⟨r', hr', hresp⟩ := h o (mem_nodes_iff.2 ⟨r, hr⟩)
    rw [hr, Option.some_inj] at hr'
    exact hr' ▸ hresp

theorem allResponded_iff_countP :
    f.AllResponded ↔ f.receivers.entries.countP (·.2.responded) = f.receivers.size := by
  rw [SortedMap.size, List.countP_eq_length]
  constructor
  · exact fun h e he => h e.1 e.2 (SortedMap.get?_eq_some_iff.2 he)
  · exact fun h o r hr => h (o, r) (SortedMap.get?_eq_some_iff.1 hr)

/-- The fan-out with one more receiver recorded. -/
def record (f : Fanout) (n : NodeId) (r : Receiver) : Fanout :=
  { f with
    receivers := f.receivers.insert n { r with responded := true }, responses := f.responses + 1 }

/-- What the caller's node is told of a loss. -/
def losses (site : Site) (f : Fanout) (n : NodeId) (lost : Bool) : List FanoutAction :=
  if lost && !f.repliedToNear then [f.lossNotice site n] else []

/-- What the end of a fan-out brings: the answer held back, and news for the listeners. -/
def endings (f : Fanout) : List FanoutAction :=
  .retire f.id :: (f.deferred.toList.map fun d => .reply d.1 d.2) ++
    f.listeners.map (.notify · f.success)

/-- The fan-out at its end. -/
def ended (f : Fanout) : Fanout := { f with done := true, deferred := none, listeners := [] }

theorem finish_eq (h : f.done = false) : f.finish = (f.ended, f.endings) := by
  simp [finish, h, ended, endings]

/-- The end of a fan-out that is mapped and has heard of all receivers. -/
def closing (f : Fanout) : Fanout × List FanoutAction :=
  if f.mapped && f.receivers.size ≤ f.responses then f.finish else (f, [])

theorem closing_of_full (hm : f.mapped = true) (hf : f.receivers.size ≤ f.responses) :
    f.closing = f.finish := by
  simp [closing, hm, hf]

theorem closing_of_not_full (h : ¬ (f.mapped = true ∧ f.receivers.size ≤ f.responses)) :
    f.closing = (f, []) := by
  rw [closing, if_neg]
  simpa using h

/-- What recording a receiver leads to. -/
inductive Recorded (site : Site) (f : Fanout) (n : NodeId) (lost : Bool) :
    Fanout × List FanoutAction → Prop
  /-- There is nothing to record. -/
  | ignored (h : ∀ r, f.receivers.get? n = some r → r.responded = true) :
      Recorded site f n lost (f, [])
  /-- Others are still to be heard. -/
  | counted {r : Receiver} (h : f.receivers.get? n = some r) (hr : r.responded = false)
      (hm : ¬ (f.mapped = true ∧ (f.record n r).AllResponded)) :
      Recorded site f n lost (f.record n r, f.losses site n lost)
  /-- It was the last one. -/
  | finished {r : Receiver} (h : f.receivers.get? n = some r) (hr : r.responded = false)
      (hm : f.mapped = true ∧ (f.record n r).AllResponded) :
      Recorded site f n lost
        ((f.record n r).ended, f.losses site n lost ++ (f.record n r).endings)

theorem countP_record {n : NodeId} {r : Receiver} (h : f.receivers.get? n = some r)
    (hr : r.responded = false) :
    (f.record n r).receivers.entries.countP (·.2.responded) =
      f.receivers.entries.countP (·.2.responded) + 1 := by
  have := SortedMap.countP_insertEntry (fun r : Receiver => r.responded)
    { r with responded := true } f.receivers.sorted h
  simp only [hr, Bool.false_eq_true, if_false, if_true] at this
  exact this

theorem record_full_iff (hs : f.Sound) {n : NodeId} {r : Receiver}
    (h : f.receivers.get? n = some r) (hr : r.responded = false) :
    (f.record n r).receivers.size ≤ f.responses + 1 ↔ (f.record n r).AllResponded := by
  have hle : (f.record n r).receivers.entries.countP (·.2.responded) ≤
      (f.record n r).receivers.size := List.countP_le_length
  have hc := countP_record h hr
  rw [allResponded_iff_countP]
  have := hs.counted
  omega

variable (site) in
theorem recorded_register (hs : f.Sound) (n : NodeId) (lost : Bool) :
    Recorded site f n lost ((f.register site n lost).1, (f.register site n lost).2.1) := by
  unfold register
  split
  next h => exact .ignored fun r hr => by simp [h] at hr
  next r h =>
    split
    next hr =>
      refine .ignored fun r' hr' => ?_
      rw [h, Option.some_inj] at hr'
      exact hr' ▸ hr
    next hr =>
      have hr : r.responded = false := by simpa using hr
      have hnd : f.done = false := by
        rw [← Bool.not_eq_true, hs.done]
        rintro ⟨-, ha⟩
        simp [ha n r h] at hr
      have hfull := record_full_iff hs h hr
      have hd : (f.record n r).done = false := hnd
      show Recorded site f n lost
        ((f.record n r).closing.1, f.losses site n lost ++ (f.record n r).closing.2)
      by_cases hm : f.mapped = true ∧ (f.record n r).AllResponded
      · rw [closing_of_full (f := f.record n r) hm.1 (hfull.2 hm.2), finish_eq hd]
        exact .finished h hr hm
      · rw [closing_of_not_full (f := f.record n r) fun hc => hm ⟨hc.1, hfull.1 hc.2⟩,
          List.append_nil]
        exact .counted h hr hm

/-- What does not change as receivers are recorded. -/
structure SameFanout (f f' : Fanout) : Prop where
  base : f'.base = f.base
  locked : f'.topologyLocked = f.topologyLocked
  mapped : f'.mapped = f.mapped
  repliedToNear : f'.repliedToNear = f.repliedToNear
  success : f'.success = f.success
  nodes : f'.nodes = f.nodes
  requests : ∀ o r', f'.receivers.get? o = some r' →
    ∃ r, f.receivers.get? o = some r ∧ r'.request = r.request

theorem SameFanout.refl (f : Fanout) : SameFanout f f :=
  ⟨rfl, rfl, rfl, rfl, rfl, rfl, fun _ r h => ⟨r, h, rfl⟩⟩

theorem SameFanout.trans {f f' f'' : Fanout} (h : SameFanout f f') (h' : SameFanout f' f'') :
    SameFanout f f'' where
  base := h'.base.trans h.base
  locked := h'.locked.trans h.locked
  mapped := h'.mapped.trans h.mapped
  repliedToNear := h'.repliedToNear.trans h.repliedToNear
  success := h'.success.trans h.success
  nodes := h'.nodes.trans h.nodes
  requests o r hr := by
    obtain ⟨r', hr', he'⟩ := h'.requests o r hr
    obtain ⟨r'', hr'', he''⟩ := h.requests o r' hr'
    exact ⟨r'', hr'', he'.trans he''⟩

theorem sameFanout_record {n : NodeId} {r : Receiver} (h : f.receivers.get? n = some r) :
    SameFanout f (f.record n r) where
  base := rfl
  locked := rfl
  mapped := rfl
  repliedToNear := rfl
  success := rfl
  nodes := SortedMap.keys_insert_of_contains h _
  requests o r' hr' := by
    rw [record, SortedMap.get?_insert_ite] at hr'
    split at hr'
    next ho => exact ⟨r, ho ▸ h, by cases hr'; rfl⟩
    next => exact ⟨r', hr', rfl⟩

theorem responded_record (n : NodeId) (r : Receiver) (o : NodeId) :
    (f.record n r).Responded o ↔ f.Responded o ∨ o = n := by
  unfold Responded
  rw [record, SortedMap.get?_insert_ite]
  by_cases ho : o = n <;> simp [ho]

theorem done_of_unresponded (hs : f.Sound) {n : NodeId} {r : Receiver}
    (h : f.receivers.get? n = some r) (hr : r.responded = false) : f.done = false := by
  rw [← Bool.not_eq_true, hs.done]
  rintro ⟨-, ha⟩
  simp [ha n r h] at hr

/-- What recording a receiver changes. -/
structure Tracks (f : Fanout) (n : NodeId) (f' : Fanout) : Prop extends SameFanout f f' where
  sound : f'.Sound
  done : f.done = true → f'.done = true
  responded : ∀ o, f'.Responded o ↔ f.Responded o ∨ (o = n ∧ ∃ r, f.receivers.get? o = some r)
  deferred : f'.deferred = if f'.done then none else f.deferred

variable (site) in
theorem tracks_register (hs : f.Sound) (n : NodeId) (lost : Bool) :
    Tracks f n (f.register site n lost).1 := by
  have h := recorded_register site hs n lost
  generalize (f.register site n lost).1 = f' at h ⊢
  generalize (f.register site n lost).2.1 = as at h
  cases h with
  | ignored h =>
    exact {
      toSameFanout := SameFanout.refl f
      sound := hs
      done := fun h => h
      responded := fun o => by
        refine (or_iff_left_of_imp ?_).symm
        rintro ⟨rfl, r, hr⟩
        exact ⟨r, hr, h r hr⟩
      deferred := by
        split
        next h => exact hs.held h
        next => rfl }
  | @counted r h hr hm =>
    have hd := done_of_unresponded hs h hr
    have hd' : (f.record n r).done = false := hd
    exact {
      toSameFanout := sameFanout_record h
      sound := {
        counted := by
          rw [countP_record h hr, ← hs.counted]
          rfl
        done := by
          rw [hd']
          simp only [Bool.false_eq_true, false_iff]
          exact hm
        held := fun he => by simp [hd'] at he }
      done := fun he => by simp [hd] at he
      responded := fun o => by
        rw [responded_record]
        refine or_congr_right ⟨fun ho => ⟨ho, r, ho ▸ h⟩, fun ho => ho.1⟩
      deferred := by
        rw [hd']
        rfl }
  | @finished r h hr hm =>
    have hb := sameFanout_record h
    exact {
      toSameFanout := ⟨hb.base, hb.locked, hb.mapped, hb.repliedToNear, hb.success, hb.nodes,
        hb.requests⟩
      sound := {
        counted := by
          show f.responses + 1 = _
          rw [hs.counted, ← countP_record h hr]
          rfl
        done := ⟨fun _ => hm, fun _ => rfl⟩
        held := fun _ => rfl }
      done := fun _ => rfl
      responded := fun o => by
        have : (f.record n r).ended.Responded o ↔ (f.record n r).Responded o := Iff.rfl
        rw [this, responded_record]
        refine or_congr_right ⟨fun ho => ⟨ho, r, ho ▸ h⟩, fun ho => ho.1⟩
      deferred := rfl }

/-- The fan-out after some acknowledgements and losses, the last of them first. -/
def told (site : Site) (f : Fanout) : List (NodeId × Bool) → Fanout
  | [] => f
  | e :: es => ((f.told site es).register site e.1 e.2).1

/-- What the fan-out has become by the acknowledgements and losses `es`. -/
structure Told (f : Fanout) (es : List (NodeId × Bool)) (f' : Fanout) : Prop
    extends SameFanout f f' where
  sound : f'.Sound
  responded : ∀ o, f'.Responded o ↔
    f.Responded o ∨ ((∃ lost, (o, lost) ∈ es) ∧ ∃ r, f.receivers.get? o = some r)
  deferred : f'.deferred = if f'.done then none else f.deferred

theorem receiver_iff {f' : Fanout} (h : SameFanout f f') (o : NodeId) :
    (∃ r, f'.receivers.get? o = some r) ↔ ∃ r, f.receivers.get? o = some r := by
  rw [← mem_nodes_iff, ← mem_nodes_iff, h.nodes]

variable (site) in
theorem tracks_told (hs : f.Sound) : ∀ es : List (NodeId × Bool), Told f es (f.told site es)
  | [] => {
      toSameFanout := SameFanout.refl f
      sound := hs
      responded := fun o => by simp [told]
      deferred := by
        rw [told]
        split
        next h => exact hs.held h
        next => rfl }
  | e :: es => by
    have ih := tracks_told hs es
    have h := tracks_register site ih.sound e.1 e.2
    exact {
      toSameFanout := ih.toSameFanout.trans h.toSameFanout
      sound := h.sound
      responded := fun o => by
        have he : (∃ lost, (o, lost) ∈ e :: es) ↔ o = e.1 ∨ ∃ lost, (o, lost) ∈ es := by
          constructor
          · rintro ⟨lost, hl⟩
            exact (List.mem_cons.1 hl).imp (congrArg Prod.fst) fun hl => ⟨lost, hl⟩
          · rintro (rfl | ⟨lost, hl⟩)
            · exact ⟨e.2, List.mem_cons_self⟩
            · exact ⟨lost, List.mem_cons_of_mem _ hl⟩
        rw [told, h.responded, ih.responded, receiver_iff ih.toSameFanout, he]
        grind
      deferred := by
        rw [told, h.deferred]
        split
        next => rfl
        next hd => rw [ih.deferred, if_neg fun he => hd (h.done he)] }

/-! ## What recording asks for -/

theorem lossNotice_eq {f' : Fanout} (h : SameFanout f f') (n : NodeId) :
    f'.lossNotice site n = f.lossNotice site n := by
  simp only [lossNotice, h.base, h.nodes]

theorem id_eq {f' : Fanout} (h : SameFanout f f') : f'.id = f.id := congrArg (·.future) h.base

/-- The actions of recording receivers: news of losses, and the end. -/
inductive Brings (site : Site) (f : Fanout) (n : NodeId) (f' : Fanout) : FanoutAction → Prop
  | loss (hn : ∃ r, f.receivers.get? n = some r) (hr : f.repliedToNear = false) :
      Brings site f n f' (f.lossNotice site n)
  | retire (hf : f'.done = true) : Brings site f n f' (.retire f.id)
  | reply (hf : f'.done = true) {route : ReplyRoute} {response : UpdateResponse}
      (hd : f.deferred = some (route, response)) : Brings site f n f' (.reply route response)
  | notify (hf : f'.done = true) (listener : String) (success : Bool) :
      Brings site f n f' (.notify listener success)

theorem brings_register (hs : f.Sound) {n : NodeId} {lost : Bool} {act : FanoutAction}
    (ha : act ∈ (f.register site n lost).2.1) :
    Brings site f n (f.register site n lost).1 act := by
  have h := recorded_register site hs n lost
  generalize (f.register site n lost).1 = f' at h ⊢
  generalize (f.register site n lost).2.1 = as at h ha
  have hloss (hl : act ∈ f.losses site n lost) (r) (h : f.receivers.get? n = some r) :
      Brings site f n f' act := by
    unfold losses at hl
    split at hl
    next hc =>
      simp only [Bool.and_eq_true, Bool.not_eq_true'] at hc
      obtain rfl := List.mem_singleton.1 hl
      exact .loss ⟨r, h⟩ hc.2
    next => cases hl
  cases h with
  | ignored h => cases ha
  | @counted r h hr hm => exact hloss ha r h
  | @finished r h hr hm =>
    rcases List.mem_append.1 ha with ha | ha
    · exact hloss ha r h
    · have hd : ((f.record n r).ended).done = true := rfl
      simp only [endings, List.mem_cons, List.mem_append, List.mem_map, Option.mem_toList] at ha
      rcases ha with (rfl | ⟨d, hd', rfl⟩) | ⟨l, -, rfl⟩
      · exact .retire hd
      · exact .reply hd hd'
      · exact .notify hd _ _

/-- The notice of a loss is all that the record of a receiver sends. -/
theorem send_register {o receiver : NodeId} {lost : Bool} {m : Message}
    (hs : .send receiver m ∈ (f.register site o lost).2.1) :
    .send receiver m = f.lossNotice site o := by
  unfold register at hs
  split at hs
  · cases hs
  · split at hs
    · cases hs
    · simp only [List.mem_append] at hs
      rcases hs with hs | hs
      · split at hs
        · exact List.mem_singleton.1 hs
        · cases hs
      · split at hs
        · unfold finish at hs
          split at hs
          · cases hs
          · simp at hs
        · cases hs

/-- A lost receiver is reported, unless nobody cares. -/
theorem loss_mem_register (hs : f.Sound) {n : NodeId} {r : Receiver}
    (h : f.receivers.get? n = some r) (hr : r.responded = false) (hn : f.repliedToNear = false) :
    f.lossNotice site n ∈ (f.register site n true).2.1 := by
  have hrec := recorded_register site hs n true
  generalize (f.register site n true).1 = f' at hrec
  generalize (f.register site n true).2.1 = as at hrec ⊢
  have hl : f.lossNotice site n ∈ f.losses site n true := by simp [losses, hn]
  cases hrec with
  | ignored h' => simp [h' r h] at hr
  | counted => exact hl
  | finished => exact List.mem_append_left _ hl

/-- The answer held back goes out at the end. -/
theorem reply_mem_register (hs : f.Sound) {n : NodeId} {lost : Bool} {d : ReplyRoute × UpdateResponse}
    (hd : f.deferred = some d) (hdone : (f.register site n lost).1.done = true) :
    .reply d.1 d.2 ∈ (f.register site n lost).2.1 := by
  have hnd : f.done ≠ true := fun h => by simp [hs.held h] at hd
  have hrec := recorded_register site hs n lost
  generalize (f.register site n lost).1 = f' at hrec hdone
  generalize (f.register site n lost).2.1 = as at hrec ⊢
  cases hrec with
  | ignored => exact absurd hdone hnd
  | counted => exact absurd hdone hnd
  | @finished r h hr hm =>
    have hd : (f.record n r).deferred = some d := hd
    simp [endings, hd]

theorem retire_mem_register (hs : f.Sound) {n : NodeId} {lost : Bool} (hd : f.done = false)
    (hdone : (f.register site n lost).1.done = true) :
    .retire f.id ∈ (f.register site n lost).2.1 := by
  have hrec := recorded_register site hs n lost
  generalize (f.register site n lost).1 = f' at hrec hdone
  generalize (f.register site n lost).2.1 = as at hrec ⊢
  cases hrec with
  | ignored => simp [hd] at hdone
  | counted => exact absurd (hd.symm.trans hdone) (by simp)
  | @finished r h hr hm =>
    have hi : (f.record n r).id = f.id := rfl
    simp [endings, hi]

/-- What is asked for later is asked for of the fan-out as it was before. -/
theorem Brings.of_same {f₁ f₂ f' : Fanout} {n : NodeId} {act : FanoutAction}
    (h : Brings site f₁ n f₂ act) (hs : SameFanout f f₁)
    (hd : ∀ d, f₁.deferred = some d → f.deferred = some d)
    (hdone : f₂.done = true → f'.done = true) : Brings site f n f' act := by
  cases h with
  | loss hn hr =>
    rw [lossNotice_eq hs]
    exact .loss ((receiver_iff hs n).1 hn) (hs.repliedToNear ▸ hr)
  | retire hf =>
    rw [id_eq hs]
    exact .retire (hdone hf)
  | reply hf h => exact .reply (hdone hf) (hd _ h)
  | notify hf listener success => exact .notify (hdone hf) listener success

/-! ## Sending the requests -/

theorem told_append (f : Fanout) (es' : List (NodeId × Bool)) :
    ∀ es : List (NodeId × Bool), f.told site (es ++ es') = (f.told site es').told site es
  | [] => rfl
  | e :: es => by rw [List.cons_append, told, told, told_append f es' es]

/-- The losses that sending the requests brings to light, the last of them first. -/
def unreachable (view : View) (rs : List (NodeId × BackupRequest)) : List (NodeId × Bool) :=
  ((rs.filter fun e => !view.reaches e.1).map fun e => (e.1, true)).reverse

variable {view : View}

theorem mem_unreachable {rs : List (NodeId × BackupRequest)} {o : NodeId} {lost : Bool} :
    (o, lost) ∈ unreachable view rs ↔
      lost = true ∧ view.reaches o = false ∧ ∃ b, (o, b) ∈ rs := by
  simp only [unreachable, List.mem_reverse, List.mem_map, List.mem_filter, Bool.not_eq_true',
    Prod.mk.injEq, Prod.exists]
  constructor
  · rintro ⟨n, b, ⟨hb, hv⟩, rfl, rfl⟩
    exact ⟨rfl, hv, b, hb⟩
  · rintro ⟨rfl, hv, b, hb⟩
    exact ⟨o, b, ⟨hb, hv⟩, rfl, rfl⟩

theorem sendRequests_reached {n : NodeId} (hv : view.reaches n = true) (b : BackupRequest)
    (rs : List (NodeId × BackupRequest)) (f : Fanout) :
    f.sendRequests site view ((n, b) :: rs) = ((f.sendRequests site view rs).1,
      .send n (.backupRequest b) :: (f.sendRequests site view rs).2) := by
  simp [sendRequests, hv]

theorem sendRequests_lost {n : NodeId} (hv : view.reaches n = false) (b : BackupRequest)
    (rs : List (NodeId × BackupRequest)) (f : Fanout) :
    f.sendRequests site view ((n, b) :: rs) =
      (((f.register site n true).1.sendRequests site view rs).1,
        .send n (.backupRequest b) :: ((f.register site n true).2.1 ++
          ((f.register site n true).1.sendRequests site view rs).2)) := by
  simp [sendRequests, hv]

theorem sendRequests_fst (rs : List (NodeId × BackupRequest)) : ∀ f : Fanout,
    (f.sendRequests site view rs).1 = f.told site (unreachable view rs) := by
  induction rs with
  | nil => exact fun _ => rfl
  | cons e rs ih =>
    intro f
    obtain ⟨n, b⟩ := e
    cases hv : view.reaches n with
    | true =>
      rw [sendRequests_reached hv, ih]
      simp [unreachable, hv]
    | false =>
      have hu : unreachable view ((n, b) :: rs) = unreachable view rs ++ [(n, true)] := by
        simp [unreachable, hv]
      rw [sendRequests_lost hv, ih, hu, told_append]
      rfl

/-- What sending the requests `rs` asks for; `f'` is the fan-out afterwards. -/
inductive Sends (site : Site) (view : View) (f : Fanout) (rs : List (NodeId × BackupRequest))
    (f' : Fanout) : FanoutAction → Prop
  | request {n : NodeId} {b : BackupRequest} (h : (n, b) ∈ rs) :
      Sends site view f rs f' (.send n (.backupRequest b))
  | lost {n : NodeId} {act : FanoutAction} (hv : view.reaches n = false)
      (h : Brings site f n f' act) : Sends site view f rs f' act

theorem done_told (hs : f.Sound) (hd : f.done = true) :
    ∀ es : List (NodeId × Bool), (f.told site es).done = true
  | [] => hd
  | e :: es => (tracks_register site (tracks_told site hs es).sound e.1 e.2).done (done_told hs hd es)

theorem sends_sendRequests (rs : List (NodeId × BackupRequest)) : ∀ {f : Fanout}, f.Sound →
    ∀ act ∈ (f.sendRequests site view rs).2,
      Sends site view f rs (f.sendRequests site view rs).1 act := by
  induction rs with
  | nil =>
    intro f _ act h
    cases h
  | cons e rs ih =>
    intro f hs act h
    obtain ⟨n, b⟩ := e
    cases hv : view.reaches n with
    | true =>
      rw [sendRequests_reached hv] at h ⊢
      rcases List.mem_cons.1 h with rfl | h
      · exact .request List.mem_cons_self
      · cases ih hs act h with
        | request hb => exact .request (List.mem_cons_of_mem _ hb)
        | lost hv hb => exact .lost hv hb
    | false =>
      have ht := tracks_register site hs n true
      rw [sendRequests_lost hv] at h ⊢
      rw [List.mem_cons, List.mem_append] at h
      rcases h with rfl | h | h
      · exact .request List.mem_cons_self
      · refine .lost hv ((brings_register hs h).of_same (SameFanout.refl f) (fun _ h => h) fun h => ?_)
        rw [sendRequests_fst]
        exact done_told ht.sound h _
      · cases ih ht.sound act h with
        | request hb => exact .request (List.mem_cons_of_mem _ hb)
        | lost hv hb =>
          refine .lost hv (hb.of_same ht.toSameFanout (fun d hd => ?_) fun h => h)
          rw [ht.deferred] at hd
          split at hd
          · cases hd
          · exact hd

/-- Every request is sent, whether it gets through or not. -/
theorem request_mem_sendRequests {n : NodeId} {b : BackupRequest} :
    ∀ {rs : List (NodeId × BackupRequest)}, (n, b) ∈ rs → ∀ f : Fanout,
      .send n (.backupRequest b) ∈ (f.sendRequests site view rs).2
  | (n', b') :: rs, h, f => by
    have ih (h : (n, b) ∈ rs) (f : Fanout) :
        .send n (.backupRequest b) ∈ (f.sendRequests site view rs).2 :=
      request_mem_sendRequests h f
    cases hv : view.reaches n' with
    | true =>
      rw [sendRequests_reached hv]
      rcases List.mem_cons.1 h with h | h
      · cases h
        exact List.mem_cons_self
      · exact List.mem_cons_of_mem _ (ih h f)
    | false =>
      rw [sendRequests_lost hv]
      rcases List.mem_cons.1 h with h | h
      · cases h
        exact List.mem_cons_self
      · exact List.mem_cons_of_mem _ (List.mem_append_right _ (ih h _))

/-- Every receiver that cannot be reached is reported, unless nobody cares. -/
theorem loss_mem_sendRequests {n : NodeId} (hv : view.reaches n = false) :
    ∀ {rs : List (NodeId × BackupRequest)}, (∃ b, (n, b) ∈ rs) → (rs.map (·.1)).Nodup →
      ∀ {f : Fanout}, f.Sound → f.repliedToNear = false →
        (∃ r, f.receivers.get? n = some r) → ¬ f.Responded n →
          f.lossNotice site n ∈ (f.sendRequests site view rs).2
  | [], ⟨_, h⟩, _, _, _, _, _, _ => by cases h
  | (n', b') :: rs, ⟨b, h⟩, hnd, f, hs, hr, hn, hresp => by
    simp only [List.map_cons, List.nodup_cons] at hnd
    by_cases hn' : n' = n
    · subst hn'
      obtain ⟨r, hr'⟩ := hn
      have hrr : r.responded = false := by
        rw [← Bool.not_eq_true]
        exact fun h => hresp ⟨r, hr', h⟩
      rw [sendRequests_lost hv]
      exact List.mem_cons_of_mem _ (List.mem_append_left _ (loss_mem_register hs hr' hrr hr))
    · have hrs : ∃ b, (n, b) ∈ rs := by
        rcases List.mem_cons.1 h with h | h
        · exact absurd (congrArg Prod.fst h).symm hn'
        · exact ⟨b, h⟩
      cases hv' : view.reaches n' with
      | true =>
        rw [sendRequests_reached hv']
        exact List.mem_cons_of_mem _ (loss_mem_sendRequests hv hrs hnd.2 hs hr hn hresp)
      | false =>
        have ht := tracks_register site hs n' true
        rw [sendRequests_lost hv']
        refine List.mem_cons_of_mem _ (List.mem_append_right _ ?_)
        rw [← lossNotice_eq ht.toSameFanout]
        refine loss_mem_sendRequests hv hrs hnd.2 ht.sound (ht.repliedToNear.trans hr)
          ((receiver_iff ht.toSameFanout n).2 hn) fun hc => ?_
        rcases (ht.responded n).1 hc with hc | hc
        · exact hresp hc
        · exact hn' hc.1.symm

/-- When the fan-out ends as the requests are sent, the answer held back goes out. -/
theorem ending_mem_sendRequests (rs : List (NodeId × BackupRequest)) : ∀ {f : Fanout}, f.Sound →
    f.done = false → (f.sendRequests site view rs).1.done = true →
      .retire f.id ∈ (f.sendRequests site view rs).2 ∧
        ∀ d, f.deferred = some d → .reply d.1 d.2 ∈ (f.sendRequests site view rs).2 := by
  induction rs with
  | nil =>
    intro f _ hd h
    exact absurd (hd.symm.trans h) (by simp)
  | cons e rs ih =>
    intro f hs hd h
    obtain ⟨n, b⟩ := e
    cases hv : view.reaches n with
    | true =>
      rw [sendRequests_reached hv] at h ⊢
      obtain ⟨h₁, h₂⟩ := ih hs hd h
      exact ⟨List.mem_cons_of_mem _ h₁, fun d hd => List.mem_cons_of_mem _ (h₂ d hd)⟩
    | false =>
      have ht := tracks_register site hs n true
      rw [sendRequests_lost hv] at h ⊢
      simp only [List.mem_cons, List.mem_append]
      cases hreg : (f.register site n true).1.done with
      | true =>
        exact ⟨.inr (.inl (retire_mem_register hs hd hreg)),
          fun d hd => .inr (.inl (reply_mem_register hs hd hreg))⟩
      | false =>
        obtain ⟨h₁, h₂⟩ := ih ht.sound hreg h
        rw [id_eq ht.toSameFanout] at h₁
        refine ⟨.inr (.inr h₁), fun d hd => .inr (.inr (h₂ d ?_))⟩
        rw [ht.deferred, hreg]
        exact hd

/-! ## Opening -/

/-- The fan-out has its receivers, and nothing was sent yet. -/
structure Unsent (f : Fanout) : Prop where
  mapped : f.mapped = false
  done : f.done = false
  responses : f.responses = 0
  responded : ∀ o r, f.receivers.get? o = some r → r.responded = false
  deferred : f.deferred = none
  listeners : f.listeners = []

/-! ## Gathering receivers -/

def blank (b : BackupRequest) : BackupRequest := { b with entries := [], nearEntries := [] }

/-- The fan-out is gathering receivers for requests like `b`, but for their entries. -/
structure Gathers (b : BackupRequest) (f : Fanout) : Prop extends Unsent f where
  base : f.base = b
  alike : ∀ o r, f.receivers.get? o = some r → blank r.request = blank b

theorem gathers_start (near : NodeId) (request : UpdateRequest) (i : FutureId) :
    Gathers (start site near request i).base (start site near request i) where
  mapped := rfl
  done := rfl
  responses := rfl
  responded _ _ h := nomatch h
  deferred := rfl
  listeners := rfl
  base := rfl
  alike _ _ h := nomatch h

variable {b : BackupRequest}

theorem receivers_addressing (f : Fanout) (n : NodeId) (g : BackupRequest → BackupRequest)
    (o : NodeId) : (f.addressing n g).receivers.get? o = if o = n then
      some { (f.receivers.get? n).getD { request := f.base } with
        request := g ((f.receivers.get? n).getD { request := f.base }).request }
      else f.receivers.get? o := by
  rw [addressing, SortedMap.get?_insert_ite]

theorem Gathers.addressing (h : Gathers b f) (n : NodeId) {g : BackupRequest → BackupRequest}
    (hg : ∀ r, blank (g r) = blank r) : Gathers b (f.addressing n g) := by
  have hr : ((f.receivers.get? n).getD { request := f.base }).responded = false ∧
      blank ((f.receivers.get? n).getD { request := f.base }).request = blank b := by
    cases hn : f.receivers.get? n with
    | none => exact ⟨rfl, congrArg blank h.base⟩
    | some r => exact ⟨h.responded n r hn, h.alike n r hn⟩
  exact {
    mapped := h.mapped
    done := h.done
    responses := h.responses
    responded := fun o r ho => by
      rw [receivers_addressing] at ho
      split at ho
      next => exact Option.some_inj.1 ho ▸ hr.1
      next => exact h.responded o r ho
    deferred := h.deferred
    listeners := h.listeners
    base := h.base
    alike := fun o r ho => by
      rw [receivers_addressing] at ho
      split at ho
      next => exact Option.some_inj.1 ho ▸ (hg _).trans hr.2
      next => exact h.alike o r ho }

theorem Gathers.foldl_addressing {g : BackupRequest → BackupRequest}
    (hg : ∀ r, blank (g r) = blank r) (ns : List NodeId) :
    ∀ {f : Fanout}, Gathers b f → Gathers b (ns.foldl (fun f n => f.addressing n g) f) := by
  induction ns with
  | nil => exact fun h => h
  | cons n ns ih => exact fun h => ih (h.addressing n hg)

theorem Gathers.addEntry (h : Gathers b f) (e : BackupEntry) : Gathers b (f.addEntry site view e) :=
  h.foldl_addressing (g := fun r => { r with entries := r.entries ++ [e] }) (fun _ => rfl) _

theorem Gathers.addNearEntry (h : Gathers b f) (readers : List NodeId) (e : NearEntry) :
    Gathers b (f.addNearEntry site view readers e) :=
  h.foldl_addressing (g := fun r => { r with nearEntries := r.nearEntries ++ [e] })
    (fun _ => rfl) _

/-- The primary's answer: where the backups tell the caller's node themselves, it names them. -/
def answer (site : Site) (f : Fanout) (response : UpdateResponse) : UpdateResponse :=
  if f.relays site && !f.receivers.isEmpty then { response with mapping := some f.nodes }
  else response

/-- The result that the requests carry along, if the primary leaves it to the backups. -/
def carried (site : Site) (f : Fanout) (ret : UpdateReturn) : Option Bool :=
  if f.repliesAtOnce site ret then none else some ret.success

def holds (site : Site) (f : Fanout) (ret : UpdateReturn) : Bool :=
  !f.repliesAtOnce site ret && !f.relays site && !f.receivers.isEmpty

/-- The fan-out as its requests are sent. -/
def prepared (site : Site) (f : Fanout) (response : UpdateResponse) (ret : UpdateReturn)
    (route : ReplyRoute) : Fanout :=
  { f with
    mapped := true
    success := ret.success
    repliedToNear := f.base.syncMode ≠ .fullSync
    receivers :=
      if f.relays site then f.receivers.mapValues fun _ r =>
        { r with request := relayed f.nodes (f.carried site ret) r.request }
      else f.receivers
    deferred := if f.holds site ret then some (route, response) else none }

/-- The requests to the receivers that are not on record. -/
def pending (f : Fanout) : List (NodeId × BackupRequest) :=
  (f.receivers.entries.filter fun e => !e.2.responded).map fun e => (e.1, e.2.request)

/-- The requests, by receiver. -/
def requests (f : Fanout) : List (NodeId × BackupRequest) :=
  f.receivers.entries.map fun e => (e.1, e.2.request)

/-- The answer, if it goes out with the requests. -/
def promptly (site : Site) (f : Fanout) (response : UpdateResponse) (ret : UpdateReturn)
    (route : ReplyRoute) : List FanoutAction :=
  if f.repliesAtOnce site ret then [.reply route (f.answer site response)] else []

/-- News of whom to hear, where the backups tell the caller's node themselves. -/
def mappings (site : Site) (f : Fanout) (ret : UpdateReturn) : List FanoutAction :=
  if f.relays site && !f.repliesAtOnce site ret && site.settings.sendMapping then
    [.send f.base.nearNode (.mappingNotice {
      cacheId := site.cacheId
      partition := f.base.partition
      future := f.base.nearFuture
      mapping := f.nodes })]
  else []

variable {response : UpdateResponse} {ret : UpdateReturn} {route : ReplyRoute}

theorem receivers_prepared (o : NodeId) :
    (f.prepared site response ret route).receivers.get? o =
      (f.receivers.get? o).map fun r =>
        if f.relays site then { r with request := relayed f.nodes (f.carried site ret) r.request }
        else r := by
  unfold prepared
  by_cases h : f.relays site = true
  · simp only [h, if_true]
    exact SortedMap.get?_mapValues _ _ _
  · simp only [h, if_false, Bool.false_eq_true]
    cases f.receivers.get? o <;> rfl

theorem nodes_prepared : (f.prepared site response ret route).nodes = f.nodes := by
  unfold nodes prepared
  by_cases h : f.relays site = true
  · simp only [h, if_true]
    exact SortedMap.keys_mapValues _ _
  · simp only [h, if_false, Bool.false_eq_true]

theorem unresponded_prepared (hu : f.Unsent) {o : NodeId} {r : Receiver}
    (h : (f.prepared site response ret route).receivers.get? o = some r) :
    r.responded = false := by
  rw [receivers_prepared] at h
  cases hr : f.receivers.get? o with
  | none => simp [hr] at h
  | some r' =>
    rw [hr, Option.map_some, Option.some_inj] at h
    rw [← h]
    split <;> exact hu.responded o r' hr

theorem sound_prepared (hu : f.Unsent) (hne : f.receivers.isEmpty = false) :
    (f.prepared site response ret route).Sound where
  counted := by
    show f.responses = _
    rw [hu.responses, eq_comm, List.countP_eq_zero]
    intro e he
    simp [unresponded_prepared hu (SortedMap.get?_eq_some_iff.2 he)]
  done := by
    show f.done = true ↔ _
    rw [hu.done]
    simp only [Bool.false_eq_true, false_iff]
    rintro ⟨-, ha⟩
    obtain ⟨o, r, ho⟩ := SortedMap.exists_get?_of_not_isEmpty hne
    obtain ⟨r', hr'⟩ : ∃ r', (f.prepared site response ret route).receivers.get? o = some r' := by
      rw [receivers_prepared, ho]
      exact ⟨_, rfl⟩
    have := unresponded_prepared hu hr'
    simp [ha o r' hr'] at this
  held := fun h => by
    have h : f.done = true := h
    simp [hu.done] at h

theorem pending_eq_nil_iff : f.pending = [] ↔ f.AllResponded := by
  unfold pending
  rw [List.map_eq_nil_iff, List.filter_eq_nil_iff]
  constructor
  · intro h o r hr
    simpa using h (o, r) (SortedMap.get?_eq_some_iff.1 hr)
  · intro h e he
    simp [h e.1 e.2 (SortedMap.get?_eq_some_iff.2 he)]

theorem receivers_prepared_of_isEmpty (he : f.receivers.isEmpty = true) :
    (f.prepared site response ret route).receivers = f.receivers := by
  refine SortedMap.ext_get? fun o => ?_
  rw [receivers_prepared, SortedMap.isEmpty_iff.1 he o]
  rfl

/-- A fan-out without receivers ends as it is mapped. -/
theorem map_of_isEmpty (hd : f.deferred = none) (he : f.receivers.isEmpty = true) :
    f.map site view response ret route = ((f.prepared site response ret route).finish.1,
      .reply route response :: (f.prepared site response ret route).finish.2) := by
  have hg : f.prepared site response ret route = { f with
      mapped := true, success := ret.success, repliedToNear := f.base.syncMode ≠ .fullSync } := by
    have hh : f.holds site ret = false := by simp [holds, he]
    show { f with
      mapped := true, success := ret.success, repliedToNear := _
      receivers := (f.prepared site response ret route).receivers, deferred := _ } = _
    rw [receivers_prepared_of_isEmpty he, hh, if_neg Bool.false_ne_true, ← hd]
  rw [hg, Fanout.map, if_pos he]

/-- A fan-out with receivers sends the requests that are pending, and ends if none is. -/
theorem map_of_receivers (hd : f.deferred = none) (hne : f.receivers.isEmpty = false) :
    f.map site view response ret route =
      let g := f.prepared site response ret route
      if g.pending.isEmpty then
        (g.finish.1, f.promptly site response ret route ++ g.finish.2)
      else
        let x := g.sendRequests site view g.pending
        (x.1, .enlist x.1.id :: x.2 ++ f.mappings site ret ++ f.promptly site response ret route) := by
  generalize hG : f.prepared site response ret route = g
  unfold prepared at hG
  unfold map promptly mappings answer
  cases hrel : f.relays site <;> cases hat : f.repliesAtOnce site ret
  all_goals
    simp only [hrel, hat, hd, hne, holds, carried, Bool.not_true, Bool.not_false, Bool.and_true,
      Bool.and_false, Bool.and_self, Bool.true_and, Bool.false_and, if_true, if_false,
      Bool.false_eq_true] at hG ⊢
    subst hG
    rfl

theorem map_empty (he : f.receivers.isEmpty = true) (hu : f.Unsent) :
    f.map site view response ret route =
      ((f.prepared site response ret route).ended, [.reply route response, .retire f.id]) := by
  have hd : (f.prepared site response ret route).done = false := hu.done
  have hends : (f.prepared site response ret route).endings = [.retire f.id] := by
    simp [endings, prepared, holds, he, hu.listeners, id]
  rw [map_of_isEmpty hu.deferred he, finish_eq hd, hends]

theorem pending_prepared (hu : f.Unsent) :
    (f.prepared site response ret route).pending =
      (f.prepared site response ret route).requests := by
  rw [pending, requests, List.filter_eq_self.2 fun e he => by
    simp [unresponded_prepared hu (SortedMap.get?_eq_some_iff.2 he)]]

theorem requests_ne_nil (hne : f.receivers.isEmpty = false) :
    (f.prepared site response ret route).requests.isEmpty = false := by
  obtain ⟨o, r, ho⟩ := SortedMap.exists_get?_of_not_isEmpty hne
  obtain ⟨r', hr'⟩ : ∃ r', (f.prepared site response ret route).receivers.get? o = some r' := by
    rw [receivers_prepared, ho]
    exact ⟨_, rfl⟩
  have := SortedMap.get?_eq_some_iff.1 hr'
  cases he : (f.prepared site response ret route).receivers.entries with
  | nil => simp [he] at this
  | cons e es => simp [requests, he]

theorem id_sendRequests (hs : f.Sound) (rs : List (NodeId × BackupRequest)) :
    (f.sendRequests site view rs).1.id = f.id := by
  rw [sendRequests_fst]
  exact id_eq (tracks_told site hs _).toSameFanout

/-- What follows the requests: the mapping, and an answer that need not wait. -/
def sequel (site : Site) (f : Fanout) (response : UpdateResponse) (ret : UpdateReturn)
    (route : ReplyRoute) : List FanoutAction :=
  f.mappings site ret ++ f.promptly site response ret route

theorem map_sends (hne : f.receivers.isEmpty = false) (hu : f.Unsent) :
    f.map site view response ret route =
      let g := f.prepared site response ret route
      let x := g.sendRequests site view g.requests
      (x.1, .enlist f.id :: (x.2 ++ f.sequel site response ret route)) := by
  have hid (rs) : ((f.prepared site response ret route).sendRequests site view rs).1.id = f.id :=
    id_sendRequests (sound_prepared hu hne) rs
  rw [map_of_receivers hu.deferred hne]
  simp only [pending_prepared hu, requests_ne_nil hne, if_false, Bool.false_eq_true, hid, sequel,
    List.cons_append, List.append_assoc]

/-- What opening the fan-out asks for; `f'` is the fan-out afterwards. -/
inductive Asks (site : Site) (view : View) (f : Fanout) (response : UpdateResponse)
    (ret : UpdateReturn) (route : ReplyRoute) (f' : Fanout) : FanoutAction → Prop
  | enlist : Asks site view f response ret route f' (.enlist f.id)
  | retire : Asks site view f response ret route f' (.retire f.id)
  | request {o : NodeId} {r : Receiver}
      (h : (f.prepared site response ret route).receivers.get? o = some r) :
      Asks site view f response ret route f' (.send o (.backupRequest r.request))
  | loss {o : NodeId} {r : Receiver} (h : f.receivers.get? o = some r)
      (hv : view.reaches o = false) (hs : f.base.syncMode = .fullSync) :
      Asks site view f response ret route f' (f.lossNotice site o)
  | mapping (hr : f.relays site = true) (hne : f.receivers.isEmpty = false) :
      Asks site view f response ret route f' (.send f.base.nearNode (.mappingNotice {
        cacheId := site.cacheId
        partition := f.base.partition
        future := f.base.nearFuture
        mapping := f.nodes }))
  | reply (h : f.receivers.isEmpty = true ∨ f.repliesAtOnce site ret = true ∨
      f.relays site = false ∧ f'.done = true) :
      Asks site view f response ret route f' (.reply route (f.answer site response))
  | notify (listener : String) (success : Bool) :
      Asks site view f response ret route f' (.notify listener success)

/-- The fan-out, and what it asks for, when the primary has seen to its answer. -/
structure Opened (site : Site) (view : View) (f : Fanout) (response : UpdateResponse)
    (ret : UpdateReturn) (route : ReplyRoute) (x : Fanout × List FanoutAction) : Prop where
  same : SameFanout (f.prepared site response ret route) x.1
  sound : x.1.Sound
  responded : ∀ o, x.1.Responded o ↔
    (∃ r, f.receivers.get? o = some r) ∧ view.reaches o = false
  deferred : x.1.deferred =
    if x.1.done then none else (f.prepared site response ret route).deferred
  requested : ∀ o r, (f.prepared site response ret route).receivers.get? o = some r →
    .send o (.backupRequest r.request) ∈ x.2
  lost : ∀ o r, f.receivers.get? o = some r → view.reaches o = false →
    f.base.syncMode = .fullSync → f.lossNotice site o ∈ x.2
  answered : f.receivers.isEmpty = true ∨ f.repliesAtOnce site ret = true ∨
    f.relays site = false ∧ x.1.done = true → .reply route (f.answer site response) ∈ x.2
  asks : ∀ act ∈ x.2, Asks site view f response ret route x.1 act
  /-- The number belongs to the fan-out until it is done. -/
  enlisted : ∃ as, (x.2 = .enlist f.id :: as ∨ x.1.done = true ∧ x.2 = as) ∧
    (∀ i, .enlist i ∉ as) ∧ ∀ i, .retire i ∈ as ↔ i = f.id ∧ x.1.done = true

theorem opened_empty (he : f.receivers.isEmpty = true) (hu : f.Unsent) :
    Opened site view f response ret route (f.map site view response ret route) := by
  have hn (o : NodeId) : f.receivers.get? o = none := SortedMap.isEmpty_iff.1 he o
  have hp (o : NodeId) : (f.prepared site response ret route).receivers.get? o = none := by
    rw [receivers_prepared, hn]
    rfl
  have ha : f.answer site response = response := by simp [answer, he]
  rw [map_empty he hu]
  exact {
    same := ⟨rfl, rfl, rfl, rfl, rfl, rfl, fun o r h => ⟨r, h, rfl⟩⟩
    sound := {
      counted := by
        show f.responses = _
        rw [hu.responses, eq_comm, List.countP_eq_zero]
        intro e he
        have h : (f.prepared site response ret route).receivers.get? e.1 = some e.2 :=
          SortedMap.get?_eq_some_iff.2 he
        simp [hp e.1] at h
      done := ⟨fun _ => ⟨rfl, fun o r h => by
        have h : (f.prepared site response ret route).receivers.get? o = some r := h
        simp [hp o] at h⟩, fun _ => rfl⟩
      held := fun _ => rfl }
    responded := fun o => by
      constructor
      · rintro ⟨r, h, -⟩
        have h : (f.prepared site response ret route).receivers.get? o = some r := h
        simp [hp o] at h
      · rintro ⟨⟨r, h⟩, -⟩
        simp [hn o] at h
    deferred := rfl
    requested := fun o r h => by simp [hp o] at h
    lost := fun o r h => by simp [hn o] at h
    answered := fun _ => by simp [ha]
    asks := fun act h => by
      rw [← ha] at h
      rcases List.mem_cons.1 h with rfl | h
      · exact .reply (.inl he)
      · obtain rfl := List.mem_singleton.1 h
        exact .retire
    enlisted := ⟨_, .inr ⟨rfl, rfl⟩, fun i h => by simp at h, fun i => by simp [ended]⟩ }

theorem responded_prepared (hu : f.Unsent) (o : NodeId) :
    ¬ (f.prepared site response ret route).Responded o := by
  rintro ⟨r, h, hr⟩
  simp [unresponded_prepared hu h] at hr

theorem receiver_prepared (o : NodeId) :
    (∃ r, (f.prepared site response ret route).receivers.get? o = some r) ↔
      ∃ r, f.receivers.get? o = some r := by
  rw [receivers_prepared]
  cases f.receivers.get? o <;> simp

theorem mem_requests {o : NodeId} {b : BackupRequest} :
    (o, b) ∈ f.requests ↔ ∃ r, f.receivers.get? o = some r ∧ r.request = b := by
  simp only [requests, List.mem_map, Prod.mk.injEq, SortedMap.get?_eq_some_iff]
  constructor
  · rintro ⟨e, he, rfl, rfl⟩
    exact ⟨e.2, he, rfl⟩
  · rintro ⟨r, hr, rfl⟩
    exact ⟨_, hr, rfl, rfl⟩

theorem nodup_requests (f : Fanout) : (f.requests.map (·.1)).Nodup := by
  have := SortedMap.keys_nodup f.receivers
  simpa [requests, SortedMap.keys, Function.comp_def] using this

theorem lossNotice_prepared (o : NodeId) :
    (f.prepared site response ret route).lossNotice site o = f.lossNotice site o := by
  simp only [lossNotice, nodes_prepared]
  rfl

theorem mem_mappings {act : FanoutAction} (h : act ∈ f.mappings site ret) :
    f.relays site = true ∧ act = .send f.base.nearNode (.mappingNotice {
      cacheId := site.cacheId
      partition := f.base.partition
      future := f.base.nearFuture
      mapping := f.nodes }) := by
  unfold mappings at h
  split at h
  next hc =>
    simp only [Bool.and_eq_true] at hc
    exact ⟨hc.1.1, List.mem_singleton.1 h⟩
  next => cases h

theorem deferred_prepared {d : ReplyRoute × UpdateResponse}
    (h : (f.prepared site response ret route).deferred = some d) :
    d = (route, f.answer site response) ∧ f.relays site = false := by
  have h : (if f.holds site ret then some (route, response) else none) = some d := h
  split at h
  next hh =>
    simp only [holds, Bool.and_eq_true, Bool.not_eq_true'] at hh
    refine ⟨?_, hh.1.2⟩
    rw [← Option.some_inj, ← h]
    simp [answer, hh.1.2]
  next => cases h

theorem asks_of_sends {f' : Fanout} {act : FanoutAction}
    (h : Sends site view (f.prepared site response ret route)
      (f.prepared site response ret route).requests f' act) :
    Asks site view f response ret route f' act := by
  cases h with
  | request hb =>
    obtain ⟨r, hr, rfl⟩ := mem_requests.1 hb
    exact .request hr
  | @lost n _ hv hb =>
    cases hb with
    | loss hn hr =>
      obtain ⟨r, hr'⟩ := (receiver_prepared n).1 hn
      rw [lossNotice_prepared]
      have hr : decide (f.base.syncMode ≠ .fullSync) = false := hr
      exact .loss hr' hv (by simpa using hr)
    | retire hf => exact .retire
    | reply hf hd =>
      obtain ⟨hd, hrel⟩ := deferred_prepared hd
      cases hd
      exact .reply (.inr (.inr ⟨hrel, hf⟩))
    | notify hf listener success => exact .notify listener success

theorem asks_of_mem_sequel (hne : f.receivers.isEmpty = false) {f' : Fanout} {act : FanoutAction}
    (h : act ∈ f.sequel site response ret route) : Asks site view f response ret route f' act := by
  rcases List.mem_append.1 h with h | h
  · obtain ⟨hr, rfl⟩ := mem_mappings h
    exact .mapping hr hne
  · unfold promptly at h
    split at h
    next hat =>
      obtain rfl := List.mem_singleton.1 h
      exact .reply (.inr (.inl hat))
    next => cases h

theorem enlist_not_mem_sequel (i : FutureId) :
    .enlist i ∉ f.sequel site response ret route := fun h => by
  rcases List.mem_append.1 h with h | h
  · cases (mem_mappings h).2
  · unfold promptly at h
    split at h <;> simp at h

theorem retire_not_mem_sequel (i : FutureId) :
    .retire i ∉ f.sequel site response ret route := fun h => by
  rcases List.mem_append.1 h with h | h
  · cases (mem_mappings h).2
  · unfold promptly at h
    split at h <;> simp at h

theorem reply_mem_sequel (h : f.repliesAtOnce site ret = true) :
    .reply route (f.answer site response) ∈ f.sequel site response ret route := by
  refine List.mem_append_right _ ?_
  rw [promptly, if_pos h]
  exact List.mem_singleton_self _

theorem opened_sent (hne : f.receivers.isEmpty = false) (hu : f.Unsent) :
    Opened site view f response ret route (f.map site view response ret route) := by
  let g := f.prepared site response ret route
  have hs : g.Sound := sound_prepared hu hne
  have hgd : g.done = false := hu.done
  have hrec (o : NodeId) : (∃ b, (o, b) ∈ g.requests) ↔ ∃ r, f.receivers.get? o = some r := by
    have hp : (∃ r, g.receivers.get? o = some r) ↔ ∃ r, f.receivers.get? o = some r :=
      receiver_prepared o
    rw [← hp]
    simp only [mem_requests]
    exact ⟨fun ⟨_, r, h, _⟩ => ⟨r, h⟩, fun ⟨r, h⟩ => ⟨_, r, h, rfl⟩⟩
  obtain ⟨x, hx⟩ : ∃ x, x = g.sendRequests site view g.requests := ⟨_, rfl⟩
  have hmap : f.map site view response ret route =
      (x.1, .enlist f.id :: (x.2 ++ f.sequel site response ret route)) := by
    rw [map_sends hne hu, hx]
  have ht : Told g (unreachable view g.requests) x.1 := by
    rw [hx, sendRequests_fst]
    exact tracks_told site hs _
  have hsends : ∀ act ∈ x.2, Sends site view g g.requests x.1 act := by
    rw [hx]
    exact sends_sendRequests g.requests hs
  have hend (hd : x.1.done = true) :
      .retire g.id ∈ x.2 ∧ ∀ d, g.deferred = some d → .reply d.1 d.2 ∈ x.2 := by
    rw [hx] at hd ⊢
    exact ending_mem_sendRequests g.requests hs hgd hd
  have hleft {act : FanoutAction} (h : act ∈ x.2) :
      act ∈ .enlist f.id :: (x.2 ++ f.sequel site response ret route) :=
    List.mem_cons_of_mem _ (List.mem_append_left _ h)
  rw [hmap]
  exact {
    same := ht.toSameFanout
    sound := ht.sound
    responded := fun o => by
      rw [ht.responded o, or_iff_right (responded_prepared hu o)]
      simp only [mem_unreachable]
      rw [receiver_prepared, ← hrec]
      exact ⟨fun ⟨⟨_, _, hv, _⟩, h⟩ => ⟨h, hv⟩, fun ⟨h, hv⟩ => ⟨⟨true, rfl, hv, h⟩, h⟩⟩
    deferred := ht.deferred
    requested := fun o r h => hleft (by
      rw [hx]
      exact request_mem_sendRequests (mem_requests.2 ⟨r, h, rfl⟩) g)
    lost := fun o r h hv hf => hleft (by
      have hr : g.repliedToNear = false := by
        show decide (f.base.syncMode ≠ .fullSync) = false
        simp [hf]
      rw [hx, ← lossNotice_prepared]
      exact loss_mem_sendRequests hv ((hrec o).2 ⟨r, h⟩) (nodup_requests g) hs hr
        ((receiver_prepared o).2 ⟨r, h⟩) (responded_prepared hu o))
    answered := fun h => by
      by_cases hat : f.repliesAtOnce site ret = true
      · exact List.mem_cons_of_mem _ (List.mem_append_right _ (reply_mem_sequel hat))
      · rcases h with h | h | ⟨hr, hd⟩
        · simp [hne] at h
        · exact absurd h hat
        · have hg : g.deferred = some (route, f.answer site response) := by
            show (if f.holds site ret then some (route, response) else none) = _
            simp [holds, hr, hne, hat, answer]
          exact hleft ((hend hd).2 _ hg)
    asks := fun act h => by
      rcases List.mem_cons.1 h with rfl | h
      · exact .enlist
      · rcases List.mem_append.1 h with h | h
        · exact asks_of_sends (hsends act h)
        · exact asks_of_mem_sequel hne h
    enlisted := by
      refine ⟨x.2 ++ f.sequel site response ret route, .inl rfl, fun i h => ?_,
        fun i => ⟨fun h => ?_, ?_⟩⟩
      · rcases List.mem_append.1 h with h | h
        · cases hsends _ h with
          | lost hv h => cases h
        · exact enlist_not_mem_sequel i h
      · rcases List.mem_append.1 h with h | h
        · cases hsends _ h with
          | lost hv h =>
            cases h with
            | retire hf => exact ⟨rfl, hf⟩
        · exact absurd h (retire_not_mem_sequel i)
      · rintro ⟨rfl, hd⟩
        exact List.mem_append_left _ (hend hd).1 }

theorem opened_map (hu : f.Unsent) :
    Opened site view f response ret route (f.map site view response ret route) := by
  cases hne : f.receivers.isEmpty with
  | true => exact opened_empty hne hu
  | false => exact opened_sent hne hu

end AtomicGrid.Fanout
