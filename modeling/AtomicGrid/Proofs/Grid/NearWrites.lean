import AtomicGrid.Proofs.Grid.Returns

/-!
# What a near cache sees of the writes of its own node

A node with a near cache hands it what it stores or removes itself, as the update succeeds.  It does
so if the update ends with the primary's answer, and also if it ends before the primary has
answered.  If it ends after that, when the last backup has told that it is done, the near cache is
not told.  This takes backups that tell the caller's node themselves, and a caller who waits for
them.

## Results

* `Submission.tell_finished`: what the end of an update hands to the near cache.
* `Grid.Reached.bare_of_answer`: no answer has anything of its own for the near cache.
* `Grid.Reached.relayed_of_responded`: when an update goes on after the primary has answered.
* `Grid.near_told`: when the near cache is told.
* `Grid.near_untold`: an update of which it is never told.
-/

set_option autoImplicit false

namespace AtomicGrid

/-! ## What is handed to the near cache -/

/-- What a near cache is to hold after an update that stores or removes a value. -/
def Update.nearValue (u : Update) : Option Value :=
  match u.operation with
  | .update => u.value
  | _ => none

/-- Something is handed to the near cache. -/
def Effect.near : Effect → Bool
  | .nearWritten _ _ _ _ => true
  | _ => false

/-- The answer leaves it to the caller's node what the near cache is handed. -/
structure UpdateResponse.Bare (r : UpdateResponse) (version : WriteVersion) : Prop where
  version : r.nearVersion.getD version = version
  values : r.nearValues = []

theorem UpdateOutcome.isSuccess_ofReturn {ret : UpdateReturn} (h : ret.success = true)
    (operation : Operation) (wantsPrevious raw : Bool) :
    (ofReturn ret operation wantsPrevious raw).isSuccess = true := by
  unfold ofReturn
  split
  · exact h
  · split
    · rfl
    · split
      · split <;> rfl
      · exact h

namespace Submission

variable {c : Submission} {a : Attempt} {w : Word}

/-- What the update returns after the word is a success, whether or not the caller is told so. -/
def ReturnsSuccess (c : Submission) (w : Word) : Prop :=
  ∀ ret, w.returned c.update.operation c.ret = some ret → ret.success = true

/-- A caller who is told of a success is told so of the return. -/
theorem returnsSuccess_of_succeeds
    (h : (c.outcome (w.returned c.update.operation c.ret)).Succeeds) : c.ReturnsSuccess w := by
  intro ret hret
  rw [hret] at h
  exact UpdateOutcome.success_of_succeeds h

/-- The caller's own value, or removal, on its way to the near cache. -/
def ownWrite (c : Submission) : SubmissionAction :=
  .writeNear c.update.key c.update.nearValue c.version c.update.nearTtl

theorem writeOwnValue_eq (ho : c.update.operation ≠ .transform) :
    c.writeOwnValue c.version = [c.ownWrite] := by
  unfold writeOwnValue ownWrite Update.nearValue
  cases hop : c.update.operation with
  | update => rfl
  | delete => rfl
  | transform => exact absurd hop ho

theorem writeReported_eq (ho : c.update.operation ≠ .transform) {r : UpdateResponse}
    (hr : r.Bare c.version) (hs : ∀ ret, r.ret = some ret → ret.success = true) :
    c.writeReported r = [c.ownWrite] := by
  have hany : r.ret.any (!·.success) = false := by
    cases hret : r.ret with
    | none => rfl
    | some ret => simp [hs ret hret]
  unfold writeReported
  rw [if_neg (by simp [hany]), hr.version, hr.values]
  exact writeOwnValue_eq ho

theorem isSuccess_outcome {ret : Option UpdateReturn}
    (h : ∀ r, ret = some r → r.success = true) : (c.outcome ret).isSuccess = true := by
  refine UpdateOutcome.isSuccess_ofReturn ?_ _ _ _
  cases ret with
  | none => rfl
  | some r => exact h r rfl

/-- What news other than the primary's answer make of a submission that they bring to its end. -/
theorem follow_finished (hd : c.isDone = false) (ho : c.update.operation ≠ .transform)
    (hs : ∀ ret, c.ret = some ret → ret.success = true) (b : Attempt) :
    (c.follow b .finished).2 =
      (if b.responded then [] else [c.ownWrite]) ++ c.future.toList.map .retire := by
  have hd' : ({ c with ret := none } : Submission).isDone = false := hd
  simp only [follow, complete_eq hd', isSuccess_outcome hs, Bool.and_true, writeOwnValue_eq ho]
  cases b.responded <;> rfl

/-- What the primary's answer makes of a submission that it brings to its end. -/
theorem onSuccess_finished (hd : c.isDone = false) (ho : c.update.operation ≠ .transform)
    {r : UpdateResponse} (hr : r.Bare c.version)
    (hs : ∀ ret, r.ret = some ret → ret.success = true)
    (hf : (a.onAnswer r.mapping).2 = .finished) :
    (c.onSuccess a r false).2 = [c.ownWrite] ++ c.future.toList.map .retire := by
  unfold onSuccess
  simp only [hf, if_true, Bool.false_eq_true, if_false]
  have hd' : ({ c with attempt := some (a.onAnswer r.mapping).1, ret := none } :
      Submission).isDone = false := hd
  rw [complete_eq hd']
  congr 1
  exact writeReported_eq
    (c := { c with attempt := some (a.onAnswer r.mapping).1, ret := c.retWith r }) ho hr hs

/-- If what the update returns is a success, so is what the answer has reported. -/
theorem ReturnsSuccess.reported {r : UpdateResponse} (hs : c.ReturnsSuccess (.answer r))
    (ho : c.update.operation ≠ .transform) (ret : UpdateReturn) (hr : r.ret = some ret) :
    ret.success = true := by
  refine hs ret ?_
  simp only [Word.returned, hr, if_neg ho]
  cases c.ret <;> rfl

/-- The word that ends a successful update has its own value handed to the near cache, unless it
comes after the primary's answer. -/
theorem tell_finished (hd : c.isDone = false) (ho : c.update.operation ≠ .transform)
    (hw : ∀ r, w = .answer r → a.responded = false ∧ r.Bare c.version)
    (hf : (a.hear w.news).2 = .finished) (hs : c.ReturnsSuccess w) :
    (c.tell a w).2 =
      (if a.responded then [] else [c.ownWrite]) ++ c.future.toList.map .retire := by
  have hother (hn : w.news.answers = false)
      (ht : c.tell a w =
        { c with
          attempt := some (a.hear w.news).1
          ret := w.returned c.update.operation c.ret }.follow
            (a.hear w.news).1 (a.hear w.news).2) :
      (c.tell a w).2 =
        (if a.responded then [] else [c.ownWrite]) ++ c.future.toList.map .retire := by
    have hresp : (a.hear w.news).1.responded = a.responded := by
      rw [Attempt.responded_hear, hn, Bool.or_false]
    rw [ht, hf, ← hresp]
    exact follow_finished (c := { c with
      attempt := some (a.hear w.news).1
      ret := w.returned c.update.operation c.ret }) hd ho hs _
  cases w with
  | answer r =>
    obtain ⟨hresp, hr⟩ := hw r rfl
    have hf : ({ a with responded := true }.onAnswer r.mapping).2 = .finished := by
      simpa only [Word.news, Attempt.hear, hresp, Bool.false_eq_true, if_false] using hf
    rw [hresp]
    exact onSuccess_finished
      (c := { c with attempt := some { a with responded := true } }) hd ho hr
      (hs.reported ho) hf
  | mapping nodes => exact hother rfl rfl
  | notice sender m => exact hother rfl rfl
  | departure n => exact hother rfl rfl

end Submission

namespace Node

/-- Only entry processors make values that the caller's node does not know. -/
theorem nearValues_applied {n : Node} {view : View} {near : NodeId} {q : UpdateRequest}
    (ho : q.operation ≠ .transform) : (n.applied view near q).nearValues = [] := by
  unfold applied
  refine List.foldlRecOn (motive := fun s : Applied => s.nearValues = []) q.payload.entries _ rfl
    fun s hs e _ => ?_
  unfold applyEntry
  split
  next => exact hs
  next =>
    simp only [if_neg ho, List.append_nil]
    split <;> exact hs

end Node

namespace Grid

open Submission (SameUpdate)

variable {config : Config} {affinity : Affinity} {processors : Processors} {ids : List NodeId}
  {g : Grid} {n : NodeId} {hd : Handle} {c c' : Submission} {u : UpdateOutcome} {t : Moment}
  {id : FutureId} {a : Attempt} {w : Word} {r : UpdateResponse}

/-- What is stored or removed is what the caller's node knows: the answer has nothing else for its
near cache. -/
theorem Reached.bare_of_answer (h : Reached (start ids config affinity processors) g)
    (ht : t ∈ g.log) (hcon : t.Concludes hd c u id a (.answer r))
    (ho : c.update.operation ≠ .transform) : r.Bare c.version := by
  obtain ⟨t₀, c₀, es, hw⟩ := h.attended.before t ht hd c id a hcon.before hcon.future hcon.attempt
  obtain ⟨hmap, hid, s, hm⟩ := (Moment.receives_of_word hcon.word).1 r rfl
  have hsent := h.sent_of_move ht hm
  cases (h.answer_source hw.launched hsent hid).2 (hcon.answer r rfl).1 hmap with
  | @carried t₁ q hc ha =>
    have hserves := h.serves_of_carried hc hw.mem hw.node hw.number hw.launches
    obtain rfl := hserves.request
    rw [Moment.answer_eq]
    refine ⟨hw.same.version.symm, Node.nearValues_applied ?_⟩
    rw [hw.same.update] at ho
    exact ho
  | confirmed hu hdes hr hsent hnear => exact ⟨by rw [hnear.1]; rfl, hnear.2⟩

/-- An update goes on after the primary has answered only if it waits for backups that tell its
caller's node themselves. -/
theorem Reached.relayed_of_responded (h : Reached (start ids config affinity processors) g)
    (ht : t ∈ g.log) (hcon : t.Concludes hd c u id a w) (hr : a.responded = true) :
    config.atomic.nearRelay = .backups ∧ c.syncMode = .fullSync := by
  obtain ⟨t₀, c₀, es, hw⟩ := h.attended.before t ht hd c id a hcon.before hcon.future hcon.attempt
  have hresp : ((t₀.opening c₀ a.primary).heard es).responded = true := hw.attempt ▸ hr
  -- the answer has named the backups
  obtain ⟨nodes, hn⟩ := hw.going.answer_some (t₀.opening_fresh c₀ a.primary) hresp
  obtain ⟨t₁, ht₁, hnode, htell⟩ := hw.told _ hn
  obtain ⟨s, r, hm, hid, hpos, hmap, hnames⟩ := htell.answer
  have hsent := h.sent_of_move ht₁ hm
  rw [hnode] at hsent
  cases (h.answer_source hw.launched hsent hid).2 hpos hmap with
  | @carried t₂ q hc ha =>
    obtain ⟨hrel, -, -⟩ := Moment.named_of_answer hnames
    have hserves := h.serves_of_carried hc hw.mem hw.node hw.number hw.launches
    obtain rfl := hserves.request
    unfold Fanout.relays at hrel
    rw [base_gathered, (h.framed.common t₂ hc.mem).site] at hrel
    simp only [Bool.and_eq_true, decide_eq_true_eq] at hrel
    refine ⟨hrel.2, ?_⟩
    rw [hw.same.syncMode]
    exact hrel.1
  | confirmed hu hdes hnone =>
    rw [hnone] at hnames
    cases hnames

/-- What the end of an update that stores or removes a value hands to the near cache. -/
theorem Reached.effects_eq (h : Reached (start ids config affinity processors) g)
    (hnear : config.atomic.nearCache = true) (ht : t ∈ g.log)
    (hcon : t.Concludes hd c u id a w) (ho : c.update.operation ≠ .transform)
    (hs : c.ReturnsSuccess w) : t.effects = if a.responded then []
      else [.nearWritten c.update.key c.update.nearValue c.version c.update.nearTtl] := by
  have htell := Submission.tell_finished hcon.unfinished ho
    (fun r he => ⟨(hcon.answer r he).2, h.bare_of_answer ht (he ▸ hcon) ho⟩) hcon.finished hs
  rw [hcon.effects, htell, hcon.future, (h.framed.common t ht).nearCache, hnear]
  cases a.responded <;> rfl

/-- In every run, under every configuration with near caches, wherever the caller, the primary and
the backups are and in whatever order their messages arrive: an update that stores or removes a
value, and that somebody waits for, has ended by some word for its last attempt.  If it has
succeeded, the caller's near cache is then handed the value, or the removal, under the version of the
update, and nothing else; but it is handed nothing if the primary had answered before.  That it had
answered before takes backups that tell the caller's node themselves, and a caller who waits for
them. -/
theorem near_told {events : List Event} (hlen : events.length + 1 < UInt64.size)
    (hnear : config.atomic.nearCache = true)
    (hs : (((start ids config affinity processors).run events).nodes n).submissions.get? hd = some c)
    (hsync : c.syncMode ≠ .fullAsync) (ho : c.update.operation ≠ .transform)
    (hr : (((start ids config affinity processors).run events).nodes n).result? hd = some (.ok u)) :
    ∃ t ∈ ((start ids config affinity processors).run events).log, t.node = n ∧
      ∃ c' id a w, t.Concludes hd c' u id a w ∧ SameUpdate c' c ∧
        (c'.ReturnsSuccess w → t.effects = if a.responded then []
          else [.nearWritten c.update.key c.update.nearValue c.version c.update.nearTtl]) ∧
        (a.responded = true → config.atomic.nearRelay = .backups ∧ c.syncMode = .fullSync) := by
  have h : Reached (start ids config affinity processors)
      ((start ids config affinity processors).run events) := reached_run hlen
  obtain ⟨t, ht, hn, c', id, a, w, hcon, hsame⟩ := h.concluded hs hsync hr
  refine ⟨t, ht, hn, c', id, a, w, hcon, hsame, fun hsucc => ?_, fun hresp => ?_⟩
  · rw [hsame.update, hsame.version]
    rw [hsame.update] at ho
    exact h.effects_eq hnear ht hcon ho hsucc
  · rw [hsame.syncMode]
    exact h.relayed_of_responded ht hcon hresp

/-- Three nodes with near caches of which two own every key. -/
def cachingNodes (nearRelay : NearRelay) : Grid :=
  start [⟨1⟩, ⟨2⟩, ⟨3⟩] { nodeId := 0, atomic := { nearRelay, nearCache := true } }
    (.pinned [⟨2⟩, ⟨3⟩]) Processor.none

/-- The primary of a key puts "a" there, and everything sent arrives. -/
def putAtPrimary : List Event :=
  [.submit ⟨2⟩ (.put [1] [97]), .deliver ⟨2⟩ ⟨2⟩, .deliver ⟨2⟩ ⟨2⟩, .deliver ⟨2⟩ ⟨3⟩, .deliver ⟨3⟩ ⟨2⟩,
    .deliver ⟨3⟩ ⟨2⟩, .deliver ⟨2⟩ ⟨2⟩]

/-- Where the primary tells that the backup is done, the near cache is told. -/
theorem near_told_put :
    ∃ t ∈ ((cachingNodes .primary).run putAtPrimary).log, t.node = ⟨2⟩ ∧
      ∃ version, t.effects = [.nearWritten [1] (some [97]) version ttlUnchanged] := by
  have hsome : ((((cachingNodes .primary).run putAtPrimary).nodes ⟨2⟩).submissions.get? 1).map
      (fun c => (c.update, c.syncMode)) = some (.put [1] [97], .fullSync) := by decide +kernel
  have hr : (((cachingNodes .primary).run putAtPrimary).nodes ⟨2⟩).result? 1 =
      some (.ok (.success true)) := by decide +kernel
  obtain ⟨c, hs, hc⟩ := Option.map_eq_some_iff.1 hsome
  obtain ⟨hu, hsync⟩ := Prod.mk.inj hc
  unfold cachingNodes at hs hr ⊢
  obtain ⟨t, ht, hn, c', id, a, w, hcon, hsame, heff, hrel⟩ :=
    near_told (by decide) rfl hs (by rw [hsync]; decide) (by rw [hu]; decide) hr
  refine ⟨t, ht, hn, c.version, ?_⟩
  have hresp : a.responded = false := by
    rw [← Bool.not_eq_true]
    exact fun hresp => absurd (hrel hresp).1 (by decide)
  have hsucc : c'.ReturnsSuccess w := Submission.returnsSuccess_of_succeeds (hcon.outcome ▸ .inl rfl)
  rw [heff hsucc, hresp, hu]
  rfl

/-- Where the backup tells that it is done, and nothing goes wrong, the put succeeds on the node of
its primary, which holds the value then, but the near cache of the node is never told. -/
theorem near_untold :
    let g := (cachingNodes .backups).run putAtPrimary
    g.Untroubled ∧ (g.nodes ⟨2⟩).result? 1 = some (.ok (.success true)) ∧
      ((g.nodes ⟨2⟩).submissions.get? 1).map (fun c => (c.update, c.syncMode)) =
        some (.put [1] [97], .fullSync) ∧
      ((g.nodes ⟨2⟩).store.held [1]).map (·.value) = some (some [97]) ∧
      (g.nodes ⟨2⟩).nearCache = some {} ∧
      ∀ t ∈ g.log, ∀ e ∈ t.effects, e.near = false := by
  decide +kernel

end Grid

end AtomicGrid
