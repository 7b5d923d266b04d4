import AtomicGrid.Proofs.Grid.Fanouts
import AtomicGrid.Proofs.Node.Life

/-!
# Keys that the store refuses

A primary applies the entries of a request in order, and the store may refuse the key of any of
them.  The answer lists the keys refused.  It goes to the caller's node by the time the fan-out is
done, unless it is left to the backups: they report on what they were handed, and know nothing of a
key that was refused.

## Results

* `Node.failedKeys_applied`: the answer lists the keys refused, with their causes.
* `Grid.Handing.replied`: an answer that the primary gives has gone out when the fan-out is done.
* `Solo.rejected_run`: the caller's node hears of the keys refused, if the primary answers.
* `Solo.rejected_unheard`: where it does not, a refused key may go unreported.
-/

set_option autoImplicit false

namespace AtomicGrid

/-- The answer that is transmitted to a node, whether it arrives or not. -/
def Effect.answerTo? (receiver : NodeId) : Effect → Option UpdateResponse
  | .sent r (.updateResponse a) => if r = receiver then some a else none
  | .refused r (.updateResponse a) => if r = receiver then some a else none
  | _ => none

namespace Node

variable {view : View} {n : Node} {sender : NodeId} {request : UpdateRequest}

/-- The keys that are refused as the entries are applied in order, with their causes. -/
def refused (n : Node) (request : UpdateRequest) :
    Store → List UpdateEntry → List (Key × FailureCause)
  | _, [] => []
  | store, e :: es =>
    match n.applyWrite store request.partition (request.writeCommand e) with
    | (store, .error cause) => (e.key, cause) :: n.refused request store es
    | (store, .ok _) => n.refused request store es

/-- The keys of a request that are refused if it is carried out now, with their causes. -/
def rejections (n : Node) (request : UpdateRequest) : List (Key × FailureCause) :=
  n.refused request n.store request.payload.entries

theorem applyEntry_error {s : Applied} {e : UpdateEntry} {store : Store} {cause : FailureCause}
    (h : n.applyWrite s.store request.partition (request.writeCommand e) = (store, .error cause)) :
    n.applyEntry view sender request s e =
      { s with store, failedKeys := s.failedKeys ++ [(e.key, cause)] } := by
  simp only [applyEntry, h]

theorem applyEntry_ok {s : Applied} {e : UpdateEntry} {store : Store} {a : AppliedWrite}
    (h : n.applyWrite s.store request.partition (request.writeCommand e) = (store, .ok a)) :
    (n.applyEntry view sender request s e).store = store ∧
      (n.applyEntry view sender request s e).failedKeys = s.failedKeys := by
  simp only [applyEntry, h]
  split <;> exact ⟨rfl, rfl⟩

theorem failedKeys_foldl (es : List UpdateEntry) : ∀ s : Applied,
    (es.foldl (n.applyEntry view sender request) s).failedKeys =
      s.failedKeys ++ n.refused request s.store es := by
  induction es with
  | nil => exact fun s => (List.append_nil _).symm
  | cons e es ih =>
    intro s
    rw [List.foldl_cons, ih, refused]
    split
    next store cause h =>
      rw [applyEntry_error h]
      exact List.append_cons _ _ _ |>.symm
    next store a h => rw [(applyEntry_ok h).1, (applyEntry_ok h).2]

theorem refused_freshFuture (es : List UpdateEntry) : ∀ store : Store,
    n.freshFuture.1.refused request store es = n.refused request store es := by
  have hw : n.freshFuture.1.applyWrite = n.applyWrite := rfl
  induction es with
  | nil => exact fun _ => rfl
  | cons e es ih => exact fun store => by simp only [refused, hw, ih]

/-- The answer lists the keys refused, with their causes. -/
theorem failedKeys_applied (view : View) (n : Node) (sender : NodeId) (request : UpdateRequest) :
    (n.applied view sender request).failedKeys = n.rejections request := by
  rw [applied, failedKeys_foldl, refused_freshFuture]
  exact List.nil_append _

end Node

/-- The primary gives the answer itself, at once or at the end of the fan-out. -/
def Moment.Direct (t : Moment) (near : NodeId) (q : UpdateRequest) : Prop :=
  (t.gathered near q).receivers.isEmpty = true ∨
    (t.gathered near q).repliesAtOnce t.before.site (t.before.applied t.view near q).ret = true ∨
      (t.gathered near q).relays t.before.site = false

instance (t : Moment) (near : NodeId) (q : UpdateRequest) : Decidable (t.Direct near q) :=
  inferInstanceAs (Decidable (_ ∨ _ ∨ _))

/-- The primary leaves the answer to the backups if they are told to give it, there is no more to
tell than whether the update succeeded, the caller is on another node, and some key was handed on. -/
theorem Moment.not_direct_iff {t : Moment} {near : NodeId} {q : UpdateRequest} :
    ¬ t.Direct near q ↔ q.syncMode = .fullSync ∧ t.before.site.settings.nearRelay = .backups ∧
      (t.before.applied t.view near q).ret.hasValue = false ∧ near ≠ t.before.id ∧
        (t.gathered near q).receivers.isEmpty = false := by
  have hb : (t.gathered near q).base.syncMode = q.syncMode ∧
      (t.gathered near q).base.nearNode = near := by
    rw [gathered, Node.base_applied]
    exact ⟨rfl, rfl⟩
  unfold Direct Fanout.repliesAtOnce Fanout.relays
  rw [hb.1, hb.2]
  cases q.syncMode with
  | fullSync => simp [Node.id]; grind
  | primarySync => simp
  | fullAsync => simp

namespace Grid

variable {L : List Moment} {n : NodeId} {id : FutureId} {f : Fanout} {t : Moment} {near : NodeId}
  {q : UpdateRequest}

/-- An answer that the primary gives has gone out when the fan-out is done. -/
theorem Handing.replied (h : Handing L n id f t near q) (hd : t.Direct near q)
    (hdone : f.done = true) : ∃ t' ∈ L, t'.node = n ∧
      ∀ e ∈ Node.reply t'.view (t.before.route near q) (t.answer near q), e ∈ t'.effects := by
  have ho := t.opened_gathered near q
  by_cases hnow : (t.gathered near q).receivers.isEmpty = true ∨
      (t.gathered near q).repliesAtOnce t.before.site (t.before.applied t.view near q).ret = true ∨
        (t.gathered near q).relays t.before.site = false ∧ (t.opened near q).done = true
  · exact ⟨t, h.mem, h.node, fun e he => h.carries.effect (ho.answered hnow) he⟩
  · -- the answer is held back until the end
    simp only [not_or, not_and, Bool.not_eq_true] at hnow
    obtain ⟨hne, hat, hopen⟩ := hnow
    have hrel : (t.gathered near q).relays t.before.site = false := by
      rcases hd with hd | hd | hd
      · simp [hne] at hd
      · simp [hat] at hd
      · exact hd
    have hans : t.answer near q = t.before.positive t.view near q := by
      simp [Moment.answer, Fanout.answer, hrel]
    have hdef : (t.opened near q).deferred =
        some (t.before.route near q, t.answer near q) := by
      rw [hans, Moment.opened, ho.deferred]
      have hopen : (t.before.opened t.view near q).1.done = false := hopen hrel
      rw [hopen]
      simp [Fanout.prepared, Fanout.holds, hat, hrel, hne]
    exact h.answered hdone _ hdef

/-- A fan-out outlasts the next move of its node. -/
theorem Handing.next (h : Handing L n id f t near q) {t' : Moment} {waiting : Handle → Nat}
    (hn : t'.node = n) (hc : t'.before.Coherent waiting)
    (hf : t'.before.fanouts.get? id = some f) :
    ∃ f', t'.after.fanouts.get? id = some f' ∧ Handing (t' :: L) n id f' t near q := by
  have hsame (hf' : t'.after.fanouts.get? id = some f) :
      ∃ f', t'.after.fanouts.get? id = some f' ∧ Handing (t' :: L) n id f' t near q :=
    ⟨f, hf', h.mono (List.subset_cons_self _ _)⟩
  have ht : t'.before.Turn t'.view t'.move (t'.before.move t'.view t'.move) :=
    Node.turn_move t'.move
  cases ht with
  | submission ht ha => exact hsame (ha.fanouts ▸ hf)
  | plain ht ha => exact hsame (ha.fanouts ▸ hf)
  | @carried sender request hm hco ha =>
    refine hsame ?_
    -- the number of the new fan-out is not taken
    have hid : id ≠ (t'.before.opened t'.view sender request).1.id := by
      rw [Node.id_opened]
      rintro rfl
      exact absurd (hc.fanouts _ f hf).2.2 (UInt64.lt_irrefl _)
    rw [Moment.after, ha.fanouts, SortedMap.get?_insert_ite, if_neg hid]
    exact hf
  | @acknowledged id' f' o lost hk ha =>
    obtain ⟨hid', hsound, -⟩ := hc.fanouts id' f' hk.get?
    have hid : (f'.register t'.before.site o lost).1.id = id' :=
      (Fanout.id_eq (Fanout.tracks_register t'.before.site hsound o lost).toSameFanout).trans hid'
    by_cases he : id = id'
    · subst he
      obtain rfl : f = f' := Option.some_inj.1 (hf.symm.trans hk.get?)
      refine ⟨_, ?_, h.register hn hk ha⟩
      rw [Moment.after, ha.fanouts, hid]
      exact SortedMap.get?_insert_self _ _ _
    · refine hsame ?_
      rw [Moment.after, ha.fanouts, hid, SortedMap.get?_insert_ite, if_neg he]
      exact hf

end Grid

namespace Solo

variable {s : Solo} {view : View} {move : Move} {n near : NodeId} {t : Moment} {q : UpdateRequest}

/-- What has become of the requests that the node `n` has carried out. -/
structure Handed (n : NodeId) (s : Solo) : Prop where
  id : s.node.id = n
  log : ∀ t ∈ s.log, t.before.id = n
  kept : ∀ t ∈ s.log, ∀ near q, t.CarriesOut near q →
    ∃ f, s.node.fanouts.get? t.number = some f ∧ Grid.Handing s.log n t.number f t near q

theorem Handed.act (h : s.Handed n) (ho : s.Orderly) : (s.act view move).Handed n := by
  have hid : (s.node.move view move).1.id = n :=
    (congrArg (·.node) (Node.site_move view s.node move).1).trans h.id
  constructor
  · exact hid
  · intro t ht
    rcases List.mem_cons.1 ht with rfl | ht
    · exact h.id
    · exact h.log t ht
  · intro t ht near q hc
    rcases List.mem_cons.1 ht with rfl | ht
    · exact ⟨_, hc.fanouts, h.id ▸ Grid.handing_opened hc s.log⟩
    · obtain ⟨f, hf, hh⟩ := h.kept t ht near q hc
      let now : Moment := ⟨s.node.id, view, s.node, move⟩
      have hnow : now.node = n := h.id
      exact hh.next hnow ho.coherent hf

theorem handed_run (config : Config) (processors : Processors) (es : List (View × Occurrence))
    (hlen : es.length + 1 < UInt64.size) :
    ((start config processors).run es).Handed (start config processors).node.id :=
  invariant_run ⟨rfl, fun _ ht => (nomatch ht), fun _ ht => (nomatch ht)⟩
    (fun ho _ _ h => h.act ho) es hlen

/-- An answer that lists the keys `rejected` has gone out to the node that sent the request. -/
def Reports (s : Solo) (near : NodeId) (q : UpdateRequest)
    (rejected : List (Key × FailureCause)) : Prop :=
  ∃ t ∈ s.log, ∃ r : UpdateResponse, Node.transmission t.view near (.updateResponse r) ∈ t.effects ∧
    r.future = q.future ∧ rejected ⊆ r.failedKeys

/-- When the fan-out of a request is done, the caller's node has been sent the keys refused, with
their causes, if it waits for an answer and the primary gives it. -/
theorem rejected_run (config : Config) (processors : Processors) (es : List (View × Occurrence))
    (hlen : es.length + 1 < UInt64.size)
    (ht : t ∈ ((start config processors).run es).log) (hc : t.CarriesOut near q)
    (hwaits : q.syncMode = .fullAsync → near = t.before.id) (hd : t.Direct near q) :
    ∃ f, ((start config processors).run es).node.fanouts.get? t.number = some f ∧
      (f.done = true →
        ((start config processors).run es).Reports near q (t.before.rejections q)) := by
  obtain ⟨f, hf, hh⟩ := (handed_run config processors es hlen).kept t ht near q hc
  refine ⟨f, hf, fun hdone => ?_⟩
  obtain ⟨t', ht', -, he⟩ := hh.replied hd hdone
  have hroute : t.before.route near q = .node near := by
    refine if_neg ?_
    rintro ⟨hs, hne⟩
    exact hne (hwaits hs)
  rw [hroute] at he
  refine ⟨t', ht', t.answer near q, he _ (List.mem_singleton_self _), ?_, ?_⟩
  · rw [t.answer_eq]
    rfl
  · rw [t.answer_eq]
    show t.before.rejections q ⊆ (t.before.applied t.view near q).failedKeys
    rw [Node.failedKeys_applied]
    exact List.Subset.refl _

/-- What node 2 sees of four, of which nodes 2, 3 and 4 own all keys. -/
def threeOwners : View where
  topology := .start [⟨1⟩, ⟨2⟩, ⟨3⟩, ⟨4⟩]
  affinity := .pinned [⟨2⟩, ⟨3⟩, ⟨4⟩]
  refusal _ := none

/-- Node 2, whose store is to refuse the second key. -/
def refusing (nearRelay : NearRelay) : Solo :=
  (start { nodeId := 2, atomic := { nearRelay } } Processor.none).run
    [(threeOwners, .refuse [2] (some (.rejected "full")))]

/-- The request of node 1 to store two keys. -/
def storeTwo : UpdateRequest where
  cacheId := cacheIdOf "default"
  partition := 0
  future := 9
  writeVersion := ⟨1, 1, 1⟩
  topologyVersion := ⟨1, 0⟩
  syncMode := .fullSync
  operation := .update
  flags := {}
  payload := .full [.plain [1] (some [97]) none, .plain [2] (some [98]) none] [] [] none
  subjectId := 0
  taskNameHash := 0

/-- The request comes, and both backups acknowledge. -/
def storedOne : List (View × Occurrence) :=
  (threeOwners, .receive ⟨1⟩ (.updateRequest storeTwo)) :: [⟨3⟩, ⟨4⟩].map fun o =>
    (threeOwners, .receive o (.updateResponse (.plain ⟨cacheIdOf "default", 0, 1⟩ o)))

/-- Node 2 as it gets the request. -/
def storing (nearRelay : NearRelay) : Moment :=
  ⟨⟨2⟩, threeOwners, (refusing nearRelay).node, .receive ⟨1⟩ (.updateRequest storeTwo)⟩

theorem carriesOut_storing (nearRelay : NearRelay) :
    (storing nearRelay).CarriesOut ⟨1⟩ storeTwo where
  brings := .received (by cases nearRelay <;> decide +kernel)
  suits := {
    running := rfl
    ready := fun _ => ⟨rfl, rfl⟩
    primary := by cases nearRelay <;> decide +kernel }

/-- Node 2 tells node 1 that the second key was refused. -/
theorem rejected_storing :
    ((refusing .primary).run storedOne).Reports ⟨1⟩ storeTwo [([2], .rejected "full")] := by
  have hrej : (storing .primary).before.rejections storeTwo = [([2], .rejected "full")] := by
    decide +kernel
  obtain ⟨f, hf, hr⟩ := rejected_run { nodeId := 2, atomic := { nearRelay := .primary } }
    Processor.none ((threeOwners, .refuse [2] (some (.rejected "full"))) :: storedOne)
    (by decide) (t := storing .primary)
    (List.mem_cons_of_mem _ (List.mem_cons_of_mem _ List.mem_cons_self))
    (carriesOut_storing .primary) (fun h => nomatch h) (by decide +kernel)
  have hdone : (((refusing .primary).run storedOne).node.fanouts.get?
      (storing .primary).number).map (·.done) = some true := by
    decide +kernel
  have hf : ((refusing .primary).run storedOne).node.fanouts.get? (storing .primary).number =
    some f := hf
  rw [hf] at hdone
  rw [hrej] at hr
  exact hr (Option.some_inj.1 hdone)

/-- Where the backups tell the caller's node, nobody tells it of a key that was refused. -/
theorem rejected_unheard :
    ¬ ∀ (config : Config) (processors : Processors) (es : List (View × Occurrence)) (t : Moment)
      (near : NodeId) (q : UpdateRequest) (f : Fanout), es.length + 1 < UInt64.size →
        t ∈ ((start config processors).run es).log → t.CarriesOut near q →
        (q.syncMode = .fullAsync → near = t.before.id) → t.before.rejections q ≠ [] →
        ((start config processors).run es).node.fanouts.get? t.number = some f → f.done = true →
          ((start config processors).run es).Reports near q (t.before.rejections q) := by
  intro h
  have hnone : ∀ t ∈ ((refusing .backups).run storedOne).log,
      t.effects.filterMap (Effect.answerTo? ⟨1⟩) = [] := by
    decide +kernel
  obtain ⟨f, hf⟩ : ∃ f, ((refusing .backups).run storedOne).node.fanouts.get?
      (storing .backups).number = some f := Option.isSome_iff_exists.1 (by decide +kernel)
  have hdone : (((refusing .backups).run storedOne).node.fanouts.get?
      (storing .backups).number).map (·.done) = some true := by
    decide +kernel
  rw [hf] at hdone
  obtain ⟨t, ht, r, hr, -⟩ := h { nodeId := 2, atomic := { nearRelay := .backups } }
    Processor.none ((threeOwners, .refuse [2] (some (.rejected "full"))) :: storedOne)
    (storing .backups) ⟨1⟩ storeTwo f (by decide)
    (List.mem_cons_of_mem _ (List.mem_cons_of_mem _ List.mem_cons_self))
    (carriesOut_storing .backups) (fun h => nomatch h) (by decide +kernel) hf
    (Option.some_inj.1 hdone)
  have hmem : r ∈ t.effects.filterMap (Effect.answerTo? ⟨1⟩) := by
    refine List.mem_filterMap.2 ⟨_, hr, ?_⟩
    unfold Node.transmission
    split <;> rfl
  rw [hnone t ht] at hmem
  cases hmem

end Solo

end AtomicGrid
