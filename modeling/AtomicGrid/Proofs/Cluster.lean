import AtomicGrid.Proofs.Grid
import AtomicGrid.Proofs.Node.Burden

/-!
# Work in a cluster

What is still to be done in a cluster has a weight: every frame on its way, every node that is to
read, and every fan-out that is not done.  The effects of a node's move put frames into inboxes, and
add no more than they bring.

## Results

* `Cluster.posted_foldl`: what comes of the effects of a move.
* `Cluster.effort_le_workBound`: the bound on the turns is above the weight of all there is to do.
-/

set_option autoImplicit false

namespace AtomicGrid

namespace Router

variable {r : Router} {nodes : NodeSet} {s n : NodeId} {m : Message}

/-- The router takes messages between these nodes, and no others. -/
structure Serves (r : Router) (nodes : NodeSet) : Prop where
  attached : r.attached = nodes
  blocked : r.blocked = []
  inboxes : ∀ n, r.inboxes.contains n = nodes.contains n

theorem Serves.refusal_eq (h : r.Serves nodes) (s n : NodeId) :
    r.refusal s n = AtomicGrid.refusal nodes s n := by
  rw [Router.refusal_eq h.blocked (fun n hn => by rw [h.inboxes, ← h.attached, hn]) s n, h.attached]

theorem Serves.delivers (h : r.Serves nodes) (hr : (AtomicGrid.refusal nodes s n).isNone = true) :
    r.delivers s n = true := by
  rw [Router.delivers, h.refusal_eq, hr, isBlocked, h.blocked]
  rfl

theorem send_of_delivers (h : r.delivers s n = true) : r.send s n m =
    { r with inboxes := r.inboxes.modify n (· ++ [(s, m.encode)]) } := if_pos h

theorem Serves.send (h : r.Serves nodes) (hd : r.delivers s n = true) :
    (r.send s n m).Serves nodes := by
  rw [send_of_delivers hd]
  exact ⟨h.attached, h.blocked, fun o => (SortedMap.contains_modify _ _ _ _).trans (h.inboxes o)⟩

/-- A message that is handed on waits behind the others for its receiver. -/
theorem waiting_send (hd : r.delivers s n = true) (hn : r.inboxes.contains n = true) (o : NodeId) :
    (r.send s n m).waiting o = r.waiting o ++ if n = o then [(s, m.encode)] else [] := by
  rw [send_of_delivers hd, waiting, waiting, SortedMap.get?_modify_ite]
  obtain ⟨frames, hf⟩ := Option.isSome_iff_exists.1 hn
  by_cases h : n = o
  · subst h
    simp [hf]
  · simp [h, Ne.symm h]

end Router

/-- The weight of a frame, by the kind that it starts with, if updates go to `reach` receivers at
most. -/
def frameWeight (reach : Nat) (f : Frame) : Nat :=
  (f.2.head?.bind MessageKind.ofCode?).elim 0 (·.weight reach)

variable {reach : Nat}

theorem frameWeight_encode (s : NodeId) (m : Message) :
    frameWeight reach (s, m.encode) = m.kind.weight reach := by
  simp [frameWeight, Message.encode]

variable (reach) in
theorem frameWeight_le (f : Frame) : frameWeight reach f ≤ 16 * reach + 11 := by
  unfold frameWeight
  cases f.2.head?.bind MessageKind.ofCode? with
  | none => exact Nat.zero_le _
  | some k => exact k.weight_le reach

/-- A message that is received has the bytes of the one that was sent. -/
theorem Message.encode_received (m : Message) : m.received.encode = m.encode := by
  cases m <;> rfl

namespace Cluster

variable {c c' c'' : Cluster} {n : NodeId} {e : Effect} {es es' : List Effect}

/-- The weight of what waits to be read. -/
def mail (reach : Nat) (r : Router) : Nat :=
  r.inboxes.total fun frames => (frames.map (frameWeight reach)).sum

/-- The weight of what is still to be done, if updates go to `reach` receivers at most. -/
def effort (reach : Nat) (c : Cluster) : Nat :=
  mail reach c.router + c.members.total (·.node.credit) + c.ready.length + 2 * c.putOff.length

/-- What comes of the effects `es` of a move on `n`: frames that wait, and nodes that are to read
them. -/
structure Posted (n : NodeId) (es : List Effect) (c c' : Cluster) : Prop where
  same : c' = { c with router := c'.router, ready := c'.ready }
  serves : ∀ nodes, c.router.Serves nodes → c'.router.Serves nodes
  waiting : ∀ r, c'.router.waiting r =
    c.router.waiting r ++ (es.filterMap (Effect.sentTo? r)).map fun m => (n, m.encode)
  ready : ∃ ns : List NodeId, c'.ready = c.ready ++ ns.map .read
  scheduled : ∀ r, es.filterMap (Effect.sentTo? r) ≠ [] → .read r ∈ c'.ready ∨ r ∈ c'.putOff
  effort : ∀ reach, c'.effort reach ≤ c.effort reach + burden reach es

theorem Posted.refl (n : NodeId) (c : Cluster) : Posted n [] c c where
  same := rfl
  serves _ h := h
  waiting _ := (List.append_nil _).symm
  ready := ⟨[], (List.append_nil _).symm⟩
  scheduled _ h := absurd rfl h
  effort _ := Nat.le_refl _

theorem Posted.putOff (h : Posted n es c c') : c'.putOff = c.putOff := by rw [h.same]

theorem Posted.append (h : Posted n es c c') (h' : Posted n es' c' c'') :
    Posted n (es ++ es') c c'' where
  same := by
    rw [h'.same, h.same]
  serves nodes hs := h'.serves nodes (h.serves nodes hs)
  waiting r := by
    rw [h'.waiting, h.waiting, List.filterMap_append, List.map_append, List.append_assoc]
  ready := by
    obtain ⟨ns, hns⟩ := h.ready
    obtain ⟨ns', hns'⟩ := h'.ready
    exact ⟨ns ++ ns', by rw [hns', hns, List.map_append, List.append_assoc]⟩
  scheduled r hr := by
    by_cases he : es'.filterMap (Effect.sentTo? r) = []
    · rw [List.filterMap_append, he, List.append_nil] at hr
      obtain ⟨ns', hns'⟩ := h'.ready
      rw [hns', h'.putOff]
      exact (h.scheduled r hr).imp_left fun hmem => List.mem_append_left _ hmem
    · exact h'.scheduled r he
  effort reach := by
    have := h.effort reach
    have := h'.effort reach
    rw [burden_append]
    omega

variable (reach) in
theorem mail_send {r : Router} {s o : NodeId} {m : Message} (hd : r.delivers s o = true)
    (ho : r.inboxes.contains o = true) :
    mail reach (r.send s o m) = mail reach r + m.kind.weight reach := by
  obtain ⟨frames, hf⟩ := Option.isSome_iff_exists.1 ho
  have := SortedMap.total_modify (fun frames => (frames.map (frameWeight reach)).sum) hf
    (· ++ [(s, m.encode)])
  rw [Router.send_of_delivers hd, mail, mail]
  simp only [List.map_append, List.map_cons, List.map_nil, List.sum_append, List.sum_cons,
    List.sum_nil, frameWeight_encode] at this ⊢
  omega

/-- A node that is to read a new frame gets a turn, unless it is about to read anyway. -/
theorem enqueue_read (c : Cluster) (r : NodeId) : ∃ ns : List NodeId, ns.length ≤ 1 ∧
    c.enqueue (.read r) = { c with ready := c.ready ++ ns.map .read } ∧
      (.read r ∈ c.ready ++ ns.map .read ∨ r ∈ c.putOff) := by
  unfold enqueue
  by_cases h : .read r ∈ c.ready ∨ r ∈ c.putOff
  · refine ⟨[], Nat.zero_le 1, ?_, ?_⟩
    · simp [h]
    · simpa using h
  · exact ⟨[r], Nat.le_refl 1, by simp [h], .inl (by simp)⟩

variable {nodes : NodeSet}

theorem posted_perform (hs : c.router.Serves nodes) (hw : e.wait? = none)
    (hr : ∀ r m, e = .sent r m → (AtomicGrid.refusal nodes n r).isNone = true) :
    Posted n [e] c (perform n c e) := by
  have hquiet (hp : perform n c e = c) (he : ∀ r, e.sentTo? r = none) :
      Posted n [e] c (perform n c e) := by
    rw [hp]
    refine { Posted.refl n c with
      waiting := fun r => ?_, scheduled := fun r h => ?_, effort := fun _ => Nat.le_add_right _ _ }
    · rw [List.filterMap_cons, he]
      exact (List.append_nil _).symm
    · rw [List.filterMap_cons, he] at h
      exact absurd rfl h
  cases e with
  | sent r m =>
    have hnone := hr r m rfl
    have hd := hs.delivers hnone
    have hinbox : c.router.inboxes.contains r = true := by
      rw [hs.inboxes]
      unfold AtomicGrid.refusal at hnone
      by_contra h
      simp only [Bool.not_eq_true] at h
      rw [h] at hnone
      split at hnone <;> cases hnone
    obtain ⟨ns, hlen, henqueue, hmem⟩ :=
      enqueue_read { c with router := c.router.send n r m } r
    have hp : perform n c (.sent r m) =
        { c with router := c.router.send n r m, ready := c.ready ++ ns.map .read } := by
      rw [perform, if_pos hd, henqueue]
    rw [hp]
    have hsent (o : NodeId) : [Effect.sent r m].filterMap (Effect.sentTo? o) =
        if r = o then [m.received] else [] := by
      by_cases h : r = o <;> simp [Effect.sentTo?, h]
    constructor
    · rfl
    · intro nodes hs
      exact hs.send hd
    · intro o
      rw [hsent]
      show (c.router.send n r m).waiting o = _
      rw [Router.waiting_send hd hinbox]
      split
      · rw [List.map_cons, List.map_nil, Message.encode_received]
      · rfl
    · exact ⟨ns, rfl⟩
    · intro o ho
      rw [hsent] at ho
      split at ho
      next h => exact h ▸ hmem
      next => exact absurd rfl ho
    · intro reach
      have := mail_send reach (m := m) hd hinbox
      simp only [effort, List.length_append, List.length_map, burden_cons, burden_nil, Effect.burden]
      omega
  | waits w => cases hw
  | _ => exact hquiet rfl fun _ => rfl

theorem posted_foldl : ∀ (es : List Effect) {c : Cluster}, c.router.Serves nodes →
    (∀ e ∈ es, e.wait? = none) →
      (∀ r m, .sent r m ∈ es → (AtomicGrid.refusal nodes n r).isNone = true) →
        Posted n es c (es.foldl (perform n) c)
  | [], c, _, _, _ => .refl n c
  | e :: es, c, hs, hw, hr => by
    have hstep : Posted n [e] c (perform n c e) :=
      posted_perform hs (hw e List.mem_cons_self) fun r m he => hr r m (he ▸ List.mem_cons_self)
    exact hstep.append (posted_foldl es (hstep.serves nodes hs)
      (fun e he => hw e (List.mem_cons_of_mem _ he))
      fun r m he => hr r m (List.mem_cons_of_mem _ he))

/-! ## The bound on the turns -/

theorem mail_le (reach : Nat) (r : Router) :
    mail reach r ≤ (16 * reach + 11) * r.inboxes.values.flatten.length := by
  have h (frames : List Frame) : (frames.map (frameWeight reach)).sum ≤
      (16 * reach + 11) * frames.length := by
    induction frames with
    | nil => exact Nat.zero_le _
    | cons f fs ih =>
      have := frameWeight_le reach f
      rw [List.map_cons, List.sum_cons, List.length_cons, Nat.mul_succ]
      omega
  unfold mail SortedMap.total
  induction r.inboxes.values with
  | nil => exact Nat.zero_le _
  | cons frames rest ih =>
    have := h frames
    rw [List.map_cons, List.sum_cons, List.flatten_cons, List.length_append, Nat.mul_add]
    omega

theorem credit_eq (n : Node) :
    n.credit = 2 * (n.fanouts.values.filter (!·.done)).length := by
  unfold Node.credit SortedMap.total
  induction n.fanouts.values with
  | nil => rfl
  | cons f fs ih =>
    rw [List.map_cons, List.sum_cons, ih, Fanout.credit, List.filter_cons]
    cases f.done with
    | true => simp
    | false =>
      simp only [Bool.false_eq_true, if_false, Bool.not_false, if_true, List.length_cons]
      omega

theorem credit_total_eq (ms : SortedMap NodeId Member) : ms.total (·.node.credit) =
    2 * (ms.values.flatMap fun m => m.node.fanouts.values.filter (!·.done)).length := by
  unfold SortedMap.total
  induction ms.values with
  | nil => rfl
  | cons m rest ih =>
    rw [List.map_cons, List.sum_cons, ih, credit_eq, List.flatMap_cons, List.length_append]
    omega

/-- The bound on the turns is above the weight of all there is to do. -/
theorem effort_le_workBound (c : Cluster) : c.effort c.topology.nodes.size ≤ c.workBound := by
  have hmail := mail_le c.topology.nodes.size c.router
  have hcredit := credit_total_eq c.members
  unfold effort workBound
  simp only
  generalize c.router.inboxes.values.flatten.length = frames at *
  generalize (c.members.values.flatMap fun m =>
    m.node.fanouts.values.filter (!·.done)).length = handedOn at *
  generalize hw : 64 * (c.members.size + c.topology.nodes.size + 2) = w
  have hframes : (16 * c.topology.nodes.size + 11) * frames ≤ w * frames :=
    Nat.mul_le_mul_right _ (by omega)
  have hrest : 2 * (handedOn + c.ready.length + c.putOff.length) ≤
      w * (handedOn + c.ready.length + c.putOff.length) := Nat.mul_le_mul_right _ (by omega)
  simp only [Nat.mul_add] at *
  omega

end Cluster

end AtomicGrid
