import AtomicGrid.Proofs.Grid.Attempts
import AtomicGrid.Proofs.Node.Life

/-!
# How results come about

An update that somebody waits for succeeds in one way only: news finish its current attempt.  Mapping
brings no success, and neither does an attempt that is given up.

## Results

* `Grid.Reached.resolved`: the move that has brought a result.
-/

set_option autoImplicit false

namespace AtomicGrid

namespace Submission

/-- The news `e` finish the attempt `a` of the submission `c`, which has `ret` to return. -/
structure Finishes (c : Submission) (move : Move) (id : FutureId) (a : Attempt) (e : News)
    (ret : Option UpdateReturn) : Prop where
  future : c.future = some id
  attempt : c.attempt = some a
  about : move.about? = some id
  news : move.news? = some e
  finished : (a.hear e).2 = .finished
  answered : ∀ sender r, move = .receive sender (.updateResponse r) → a.responded = false →
    ret = c.retWith r

variable {c : Submission} {x : Submission × List SubmissionAction} {u : UpdateOutcome}
  {move : Move} {id : FutureId} {a : Attempt}

/-- An attempt that is given up brings no success. -/
theorem waiting_over {c' : Submission} (h : Over c' x) (hr : c'.result = c.result)
    (hw : x.1.result.waiting = some (.ok u)) : c.result.waiting = some (.ok u) := by
  rcases Node.result_over h hr with he | ⟨e, he⟩
  · rw [he] at hw
    exact hw
  · rw [he] at hw
    rcases Latch.waiting_complete hw with hold | hnew
    · exact hold
    · cases hnew

/-- Mapping brings no success, if somebody waits for one. -/
theorem waiting_mapped {site : Site} {view : View} (h : Mapped site view c id x)
    (hs : c.syncMode ≠ .fullAsync) (hw : x.1.result.waiting = some (.ok u)) :
    c.result.waiting = some (.ok u) := by
  cases h with
  | done hd => exact hw
  | ended hd ho => exact waiting_over ho rfl hw
  | @ownerless hl hp y ho => exact waiting_over (x := y) ho rfl hw
  | @refused hl primary hp hr y ho => exact waiting_over (x := y) ho rfl hw
  | async hl hp hr hsync hne outcome => exact absurd hsync hs
  | sent hl hp hr hsync => exact hw

/-- News bring a success by finishing the attempt. -/
theorem waiting_heeds (h : c.Heeds a move x) (hf : c.future = some id) (ha : c.attempt = some a)
    (hi : move.about? = some id) (hw : x.1.result.waiting = some (.ok u)) :
    c.result.waiting = some (.ok u) ∨
      ∃ e ret, c.Finishes move id a e ret ∧ u = c.outcome ret := by
  cases h with
  | ended ho => exact .inl (waiting_over ho rfl hw)
  | ignored hx hc =>
    subst hx
    exact .inl hw
  | @heard e ret he hx hans hlost =>
    generalize hp : (a.hear e).2 = p at hx
    cases hx with
    | pending => exact .inl hw
    | unconfirmed => exact .inl hw
    | finished hn =>
      apply (Latch.waiting_complete hw).imp_right
      intro hu
      refine ⟨e, ret, ⟨hf, ha, hi, he, hp, ?_⟩, Except.ok.inj hu⟩
      intro sender r hm
      exact (hans sender r hm).2

end Submission

/-- The move brings the submission `c`, known as `h`, to the outcome `u`. -/
structure Moment.Resolves (t : Moment) (h : Handle) (c : Submission) (u : UpdateOutcome)
    (id : FutureId) (a : Attempt) (e : News) (ret : Option UpdateReturn) : Prop
    extends c.Finishes t.move id a e ret where
  before : t.before.submissions.get? h = some c
  unfinished : c.isDone = false
  outcome : u = c.outcome ret
  after : t.after.result? h = some (.ok u)
  new : c.result.waiting ≠ some (.ok u)

theorem Moment.Resolves.tells {t : Moment} {h : Handle} {c : Submission} {u : UpdateOutcome}
    {id : FutureId} {a : Attempt} {e : News} {ret : Option UpdateReturn}
    (hr : t.Resolves h c u id a e ret) : t.Tells id e := ⟨hr.about, hr.news⟩

namespace Grid

open Submission (SameUpdate)

variable {config : Config} {affinity : Affinity} {processors : Processors} {ids : List NodeId}
  {g g₀ : Grid} {n : NodeId} {move : Move} {L : List Moment} {t : Moment}

/-- All successes of a node, of updates that somebody waits for, were brought by moves on record. -/
def Brought (L : List Moment) (n : NodeId) (x : Node) : Prop :=
  ∀ h c u, x.submissions.get? h = some c → c.syncMode ≠ .fullAsync →
    c.result.waiting = some (.ok u) →
      ∃ t ∈ L, t.node = n ∧ ∃ c' id a e ret, t.Resolves h c' u id a e ret ∧ SameUpdate c' c

theorem Brought.mono {L' : List Moment} {x : Node} (hx : Brought L n x) (hL : L ⊆ L') :
    Brought L' n x := by
  intro h c u hs hsync hw
  obtain ⟨t, ht, hr⟩ := hx h c u hs hsync hw
  exact ⟨t, hL ht, hr⟩

theorem brought_moment {waiting : Handle → Nat} (hx : Brought L t.node t.before)
    (hc : t.before.Coherent waiting) (hn : t.before.Numbered) (hdue : t.before.Due waiting t.move) :
    Brought (t :: L) t.node t.after := by
  intro h c u hs hsync hw
  have hold (hs : t.before.submissions.get? h = some c) :
      ∃ t' ∈ t :: L, t'.node = t.node ∧
        ∃ c' id a e ret, t'.Resolves h c' u id a e ret ∧ SameUpdate c' c :=
    hx.mono (List.subset_cons_self t L) h c u hs hsync hw
  have hturn : t.before.Turn t.view t.move (t.before.move t.view t.move) := Node.turn_move t.move
  cases hturn with
  | carried hb hco ha => exact hold (ha.submissions ▸ hs)
  | acknowledged hk ha => exact hold (ha.submissions ▸ hs)
  | plain hp ha => exact hold (ha.submissions ▸ hs)
  | @submission h' c₀ x hturn ha =>
    have hinsert := hs
    rw [Moment.after, ha.submissions, SortedMap.get?_insert_ite] at hinsert
    split at hinsert
    next hh =>
      subst hh
      rw [Option.some_inj] at hinsert
      subst hinsert
      have hsame : SameUpdate c₀ x.1 := Node.sameUpdate_fares (Node.fares_turn hc hdue hturn)
      have hsync₀ : c₀.syncMode ≠ .fullAsync := hsame.syncMode ▸ hsync
      have hearlier (hw : c₀.result.waiting = some (.ok u)) :
          ∃ t' ∈ t :: L, t'.node = t.node ∧
            ∃ c' id a e ret, t'.Resolves h c' u id a e ret ∧ SameUpdate c' x.1 := by
        have hs₀ := hturn.before (by rw [hw]; rfl)
        obtain ⟨t', ht', hn', c', id, a, e, ret, hr, hs'⟩ := hx h c₀ u hs₀ hsync₀ hw
        exact ⟨t', List.mem_cons_of_mem _ ht', hn', c', id, a, e, ret, hr, hs'.trans hsame⟩
      cases Node.treats_turn hc hn hdue hturn with
      | mapped hm hf hatt hmap => exact hearlier (Submission.waiting_mapped hmap hsync₀ hw)
      | @heard id a hsub hd hf hatt hi hheeds =>
        by_cases hw₀ : c₀.result.waiting = some (.ok u)
        · exact hearlier hw₀
        · obtain ⟨e, ret, hfin, hu⟩ :=
            (Submission.waiting_heeds hheeds hf hatt hi hw).resolve_left hw₀
          refine ⟨t, List.mem_cons_self, rfl, c₀, id, a, e, ret, ?_, hsame⟩
          refine ⟨hfin, hsub, hd, hu, ?_, hw₀⟩
          rw [Node.result?, hs]
          exact hw
    next => exact hold hinsert

/-- Every success was brought by a move on record. -/
theorem Reached.resolved (h : Reached (start ids config affinity processors) g) :
    ∀ n, Brought g.log n (g.nodes n) := by
  induction h with
  | init => exact fun n h c u hs => (nomatch hs)
  | @next g g' h hr hx ih =>
    cases hx with
    | @act n move g₀ ho =>
      have hs := ho.same
      intro m
      rw [hs.log_act, hs.nodes_act]
      split
      next he =>
        subst he
        exact brought_moment (t := g.moment m move) (ih m) (h.coherent m)
          (h.attended.now m).numbered ho.due
      next => exact (ih m).mono (List.subset_cons_self _ _)
    | depart hn => exact ih
    | told hi ht => exact ih
    | exchange members => exact ih
    | settle => exact ih

end Grid

end AtomicGrid
