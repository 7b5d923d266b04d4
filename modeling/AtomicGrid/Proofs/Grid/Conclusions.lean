import AtomicGrid.Proofs.Grid.Results
import AtomicGrid.Proofs.Grid.Sources
import AtomicGrid.Proofs.Node.Answers

/-!
# The word that ends an update

An update that somebody waits for succeeds as its current attempt hears a word that leaves nothing to
wait for.  The outcome, and all that the node does at this moment, is what the submission makes of
that word.

## Results

* `Moment.receives_of_word`: which messages have a word for an attempt.
* `Moment.concludes_of_resolves`: a result is brought by a word.
* `Grid.Reached.concluded`: the word that has brought a success.
-/

set_option autoImplicit false

namespace AtomicGrid

namespace Submission

variable {c : Submission} {view : View} {x : Submission × List SubmissionAction}
  {u : UpdateOutcome}

theorem waiting_retried {v : TopologyVersion} (h : Retried c v x)
    (hw : x.1.result.waiting = some (.ok u)) : c.result.waiting = some (.ok u) := by
  cases h with
  | waits => exact hw
  | stuck =>
    rcases Latch.waiting_complete hw with hold | hnew
    · exact hold
    · cases hnew

/-- A negative answer brings no success. -/
theorem waiting_declined {y : Answer} (h : Declined view c y x)
    (hw : x.1.result.waiting = some (.ok u)) : c.result.waiting = some (.ok u) := by
  cases h with
  | refused hr hy => exact waiting_retried (c := c.refusing y.request) hy hw
  | charged hr hf hl hy => exact waiting_retried (c := c.charged y) hy hw
  | fatal hr hf a =>
    rcases Latch.waiting_complete hw with hold | hnew
    · exact hold
    · cases hnew

end Submission

/-- The move has the word `w` for the current attempt `a` of the submission `c`, known as `h`, which
ends the update with the outcome `u`. -/
structure Moment.Concludes (t : Moment) (h : Handle) (c : Submission) (u : UpdateOutcome)
    (id : FutureId) (a : Attempt) (w : Word) : Prop where
  before : t.before.submissions.get? h = some c
  unfinished : c.isDone = false
  future : c.future = some id
  attempt : c.attempt = some a
  word : t.word? id = some w
  /-- An answer is positive, and the first. -/
  answer : ∀ r, w = .answer r → r.hasError = false ∧ a.responded = false
  finished : (a.hear w.news).2 = .finished
  outcome : u = c.outcome (w.returned c.update.operation c.ret)
  after : t.after.result? h = some (.ok u)
  effects : t.effects =
    (c.tell a w).2.flatMap (SubmissionAction.effects t.view h t.before.nearCache.isSome)

namespace Moment

variable {t : Moment} {waiting : Handle → Nat} {h : Handle} {c : Submission} {u : UpdateOutcome}
  {id : FutureId} {a : Attempt} {w : Word}

theorem about_of_word (hw : t.word? id = some w) :
    t.move.about? = some id ∧ t.move.word? = some w := by
  unfold word? at hw
  split at hw
  next hi => exact ⟨hi, hw⟩
  next => cases hw

theorem receives_of_word (hw : t.word? id = some w) :
    (∀ r, w = .answer r → r.needsRemap = false ∧ r.future = id ∧
      ∃ s, t.move = .receive s (.updateResponse r)) ∧
    ∀ s m, w = .notice s m → m.future = id ∧ t.move = .receive s (.backupNotice m) := by
  obtain ⟨hi, hm⟩ := about_of_word hw
  generalize t.move = move at hi hm
  unfold Move.word? at hm
  split at hm
  next s r =>
    split at hm
    next => cases hm
    next hneg =>
      cases hm
      refine ⟨fun r' he => ?_, fun s' m he => (nomatch he)⟩
      cases he
      simp only [Bool.or_eq_true, not_or, Bool.not_eq_true] at hneg
      exact ⟨hneg.2, Option.some_inj.1 hi, s, rfl⟩
  next s m =>
    cases hm
    exact ⟨fun r he => (nomatch he), fun s' m' he => (nomatch he)⟩
  next s m =>
    cases hm
    refine ⟨fun r he => (nomatch he), fun s' m' he => ?_⟩
    cases he
    exact ⟨Option.some_inj.1 hi, rfl⟩
  next gone r =>
    cases hm
    exact ⟨fun r he => (nomatch he), fun s' m' he => (nomatch he)⟩
  next => cases hm

theorem not_submits_of_about (hi : t.move.about? = some id) : t.move.submits = false := by
  generalize t.move = move at hi
  cases move with
  | submit u => cases hi
  | _ => rfl

/-- A success is brought by a word. -/
theorem concludes_of_resolves (hc : t.before.Coherent waiting) (hn : t.before.Numbered)
    (hdue : t.before.Due waiting t.move)
    (hcache : ∀ s m, t.move = .receive s m → m.envelope.cacheId = t.before.site.cacheId)
    (herr : ∀ task e, t.move = .resume task (.error e) → e.failures? = none) {e : News}
    {ret : Option UpdateReturn} (hr : t.Resolves h c u id a e ret) :
    ∃ w, t.Concludes h c u id a w := by
  have hreg := (hc.submission id h).2 ⟨c, hr.before, hr.future⟩
  obtain ⟨c₁, x, ht⟩ : ∃ c₁ x, Node.SubmissionTurn t.view t.before t.move h c₁ x :=
    Node.turn_about hc hr.about hreg hcache hdue
  obtain rfl : c₁ = c := by
    rcases ht.known with ⟨hs, -⟩ | ⟨-, -, hsub⟩
    · exact Option.some_inj.1 (hs.symm.trans hr.before)
    · rw [not_submits_of_about hr.about] at hsub
      cases hsub
  obtain ⟨q, y, -, -, hx⟩ := course_turn hc hn hdue herr ht
  have hafter := Node.submission_move ht
  have hwait : x.1.result.waiting = some (.ok u) := by
    have hres := hr.after
    rw [Node.result?, Moment.after, hafter.submissions, SortedMap.get?_insert_self] at hres
    exact hres
  cases hx with
  | unchanged => exact absurd hwait hr.new
  | declined hd hf ha hx => exact absurd (Submission.waiting_declined hx hwait) hr.new
  | failed hd hf he =>
    rw [hr.future] at hf
    cases hf
  | charted hm hd hf ha hok hx =>
    rw [hr.future] at hf
    cases hf
  | @told id' a' w x hd hf ha hi hw hpos hx hfirst htell =>
    cases Option.some_inj.1 (hf.symm.trans hr.future)
    cases Option.some_inj.1 (ha.symm.trans hr.attempt)
    have heff := hafter.effects
    unfold Submission.Tells at hx
    generalize hp : (a.hear w.news).2 = p at hx
    cases hx with
    | pending => exact absurd hwait hr.new
    | unconfirmed => exact absurd hwait hr.new
    | finished hnear =>
      refine ⟨w, hr.before, hd, hf, ha, ?_, fun r he => ⟨hpos r he, hfirst r he⟩, hp, ?_, hr.after, ?_⟩
      · rw [word?, if_pos hi]
        exact hw
      · exact Except.ok.inj ((Latch.waiting_complete hwait).resolve_left hr.new)
      · rw [← htell]
        exact heff

end Moment

namespace Grid

open Submission (SameUpdate)

variable {config : Config} {affinity : Affinity} {processors : Processors} {ids : List NodeId}
  {g : Grid} {n : NodeId} {hd : Handle} {c : Submission} {u : UpdateOutcome}

/-- Every success was brought by a word. -/
theorem Reached.concluded (h : Reached (start ids config affinity processors) g)
    (hs : (g.nodes n).submissions.get? hd = some c) (hsync : c.syncMode ≠ .fullAsync)
    (hr : (g.nodes n).result? hd = some (.ok u)) :
    ∃ t ∈ g.log, t.node = n ∧ ∃ c' id a w, t.Concludes hd c' u id a w ∧ SameUpdate c' c := by
  have hwaiting : c.result.waiting = some (.ok u) := by
    rw [Node.result?, hs] at hr
    exact hr
  obtain ⟨t, ht, hn, c', id, a, e, ret, hres, hsame⟩ := h.resolved n hd c u hs hsync hwaiting
  have ho := h.orderly t ht
  obtain ⟨waiting, hcoh, hdue⟩ := ho.coherent
  obtain ⟨w, hw⟩ := Moment.concludes_of_resolves hcoh (h.attended.before t ht).numbered hdue
    (fun s m hm => h.cacheId_received ht hm)
    (fun task e hm => absurd hm (ho.awaited task e)) hres
  exact ⟨t, ht, hn, c', id, a, w, hw, hsame⟩

end Grid

end AtomicGrid
