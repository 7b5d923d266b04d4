import AtomicGrid.Proofs.Fanout
import AtomicGrid.Proofs.Node.Turns

/-!
# What the primary makes of a request

## Results

* `Node.opened_applied`: the fan-out of a request that is carried out.
* `Node.registry_opened`, `Node.registry_register`: when a fan-out has its number.
-/

set_option autoImplicit false

namespace AtomicGrid.Node

open Fanout (Gathers Opened)

variable {view : View} {n : Node} {sender : NodeId} {request : UpdateRequest}

/-- The request that all receivers get, but for its entries. -/
def backupBase (n : Node) (sender : NodeId) (request : UpdateRequest) : BackupRequest :=
  (Fanout.start n.site sender request n.nextFuture).base

theorem gathers_applyEntry {b : BackupRequest} {s : Applied} (h : Gathers b s.fanout)
    (e : UpdateEntry) : Gathers b (n.applyEntry view sender request s e).fanout := by
  unfold applyEntry
  split
  next => exact h
  next =>
    simp only
    split
    next => exact h
    next => exact (h.addEntry _).addNearEntry _ _

theorem gathers_applied :
    Gathers (n.backupBase sender request) (n.applied view sender request).fanout := by
  have h (es : List UpdateEntry) : ∀ s : Applied, Gathers (n.backupBase sender request) s.fanout →
      Gathers (n.backupBase sender request)
        (es.foldl (n.freshFuture.1.applyEntry view sender request) s).fanout := by
    induction es with
    | nil => exact fun _ h => h
    | cons e es ih => exact fun s h => ih _ (gathers_applyEntry h e)
  exact h _ _ (Fanout.gathers_start sender request n.nextFuture)

theorem opened_applied : Opened n.site view (n.applied view sender request).fanout
    (n.positive view sender request) (n.applied view sender request).ret (n.route sender request)
    (n.opened view sender request) :=
  Fanout.opened_map gathers_applied.toUnsent

theorem base_applied : (n.applied view sender request).fanout.base = n.backupBase sender request :=
  gathers_applied.base

theorem base_opened : (n.opened view sender request).1.base = n.backupBase sender request :=
  opened_applied.same.base.trans base_applied

theorem id_opened : (n.opened view sender request).1.id = n.nextFuture :=
  congrArg (·.future) base_opened

/-! ## The registry -/

theorem get?_onRegistry {as : List FanoutAction} (hn : ∀ i, .enlist i ∉ as) (k : FutureId) :
    ∀ r : SortedMap FutureId Registered,
      (as.foldl FanoutAction.onRegistry r).get? k = if .retire k ∈ as then none else r.get? k := by
  induction as with
  | nil => simp
  | cons a as ih =>
    intro r
    rw [List.foldl_cons, ih fun i h => hn i (List.mem_cons_of_mem _ h)]
    cases a with
    | enlist i => exact absurd List.mem_cons_self (hn i)
    | retire i =>
      simp only [FanoutAction.onRegistry, SortedMap.get?_erase_ite, List.mem_cons,
        FanoutAction.retire.injEq]
      by_cases hk : k = i <;> simp [hk]
    | send receiver m => simp [FanoutAction.onRegistry]
    | reply route r => simp [FanoutAction.onRegistry]
    | notify listener success => simp [FanoutAction.onRegistry]

theorem registry_opened (r : SortedMap FutureId Registered) (k : FutureId) :
    ((n.opened view sender request).2.foldl FanoutAction.onRegistry r).get? k =
      if k = n.nextFuture then
        (if (n.opened view sender request).1.done then none else some .fanout)
      else r.get? k := by
  have hi : (n.applied view sender request).fanout.id = n.nextFuture :=
    congrArg (·.future) base_applied
  obtain ⟨as, hs, hen, hret⟩ : ∃ as, _ := opened_applied.enlisted
  rw [hi] at hs hret
  rcases hs with hs | ⟨hd, hs⟩
  · rw [hs, List.foldl_cons, get?_onRegistry hen]
    simp only [hret, FanoutAction.onRegistry, SortedMap.get?_insert_ite]
    by_cases hk : k = n.nextFuture <;> simp [hk]
  · rw [hs, get?_onRegistry hen]
    simp only [hret]
    by_cases hk : k = n.nextFuture <;> simp [hk, hd]

theorem registry_register {f : Fanout} (hf : f.Sound) {r : SortedMap FutureId Registered}
    (hr : f.done = true → r.get? f.id = none) (o : NodeId) (lost : Bool) (k : FutureId) :
    ((f.register n.site o lost).2.1.foldl FanoutAction.onRegistry r).get? k =
      if k = f.id ∧ (f.register n.site o lost).1.done = true then none else r.get? k := by
  have hen (i) : .enlist i ∉ (f.register n.site o lost).2.1 := fun h => by
    cases Fanout.brings_register hf h
  rw [get?_onRegistry hen]
  by_cases hk : k = f.id ∧ (f.register n.site o lost).1.done = true
  · rw [if_pos hk]
    obtain ⟨rfl, hd⟩ := hk
    cases hfd : f.done with
    | true => simp [hr hfd]
    | false => rw [if_pos (Fanout.retire_mem_register hf hfd hd)]
  · rw [if_neg hk, if_neg]
    intro h
    cases Fanout.brings_register hf h with
    | retire hd => exact hk ⟨rfl, hd⟩

end AtomicGrid.Node
