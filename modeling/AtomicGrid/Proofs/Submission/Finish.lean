import AtomicGrid.Proofs.Submission.News
import Mathlib.Data.List.Perm.Subperm
import Mathlib.Order.Bounds.Defs

/-!
# When an attempt is finished

An attempt hears of its primary, of the backups and of departures in any order, some of it more than
once, and may hear that a backup is done before it knows that it has to wait for this backup.  None
of this makes a difference: it is finished by the news that leave nothing to wait for, and these can
be told without looking at the order in which they came.

## Results

* `Attempt.Going.finished_iff`: which news finish an attempt that goes on.
* `Attempt.isLeast_finishes`: the first news that finish an attempt.
-/

set_option autoImplicit false

namespace AtomicGrid.Attempt

/-- The news tell the result: the primary has answered, or a backup passes it on. -/
def TellsResult (es : List News) : Prop := ∃ e ∈ es, e.hasResult = true

/-- The news leave nothing to wait for, if the nodes to be heard are those of `nodes`: the primary
has answered and names nobody; or the result is known, the nodes were named, and each of them has
answered, was reported lost, or has left. -/
def Settled (nodes : NodeSet) (es : List News) : Prop :=
  .answer none ∈ es ∨
    TellsResult es ∧ (∃ ns, Names es ns) ∧ ∀ o, nodes.contains o = true → Accounted es o

/-- Whoever names the nodes to be heard names these. -/
def Agrees (nodes : NodeSet) (es : List News) : Prop :=
  ∀ ns, Names es ns → ∀ o, o ∈ ns ↔ nodes.contains o = true

/-- The news number `i`, the first of them having the number 0, finish the attempt. -/
def Finishes (a : Attempt) (es : List News) (i : Nat) : Prop :=
  ∃ e, es[i]? = some e ∧ ((a.heard (es.take i).reverse).hear e).2 = .finished

variable {a : Attempt} {es es' : List News} {e : News} {nodes : NodeSet}

/-! ## One piece of news -/

theorem Knows.hasResult_iff {b : Attempt} (h : a.Knows es b) :
    b.hasResult = true ↔ TellsResult es := by
  rw [h.hasResult]
  constructor
  · rintro (⟨mapping, hm⟩ | ⟨x, m, hm, hr⟩)
    · exact ⟨_, hm, rfl⟩
    · exact ⟨_, hm, hr⟩
  · rintro ⟨e, he, hr⟩
    cases e with
    | answer mapping => exact .inl ⟨mapping, he⟩
    | notice x m => exact .inr ⟨x, m, he, hr⟩
    | mapping ns => cases hr
    | departure n => cases hr

/-- News that finish an attempt leave nothing to wait for. -/
theorem settled_of_finished (h : a.Fresh) (hn : Agrees nodes (e :: es))
    (hf : ((a.heard es).hear e).2 = .finished) : Settled nodes (e :: es) := by
  have hk := knows_heard h (e :: es)
  rcases finished_hear hf with rfl | ⟨hr, hd⟩
  · exact .inl List.mem_cons_self
  · obtain ⟨ns, hns, hall⟩ := hk.accounted hd
    exact .inr ⟨hk.hasResult_iff.1 hr, ⟨ns, hns⟩, fun o ho => hall o ((hn ns hns o).2 ho)⟩

/-- The primary names somebody, if the attempt goes on after its answer. -/
theorem Going.not_answer_none (h : a.Fresh) (hg : a.Going es)
    (hone : es.countP News.answers ≤ 1) : .answer none ∉ es := by
  intro hm
  have hr : (a.heard es).responded = true := (knows_heard h es).responded.2 ⟨none, hm⟩
  obtain ⟨ns, hm'⟩ := hg.answer_some h hr
  have htwo : [News.answer none, .answer (some ns)].Subperm es := by
    refine List.subperm_of_subset (by simp) ?_
    simpa using ⟨hm, hm'⟩
  have hle : [News.answer none, .answer (some ns)].countP News.answers ≤ es.countP News.answers :=
    htwo.countP_le News.answers
  have htwo : [News.answer none, .answer (some ns)].countP News.answers = 2 := rfl
  omega

/-- While an attempt goes on there is something to wait for. -/
theorem Going.not_settled (h : a.Fresh) (hg : a.Going es) (hone : es.countP News.answers ≤ 1)
    (hn : Agrees nodes es) : ¬ Settled nodes es := by
  rintro (hm | ⟨hr, ⟨ns, hns⟩, hall⟩)
  · exact hg.not_answer_none h hone hm
  have hk := knows_heard h es
  have haw : (a.heard es).awaited.isSome = true := by
    rcases hns with hm | hm | ⟨x, m, hm, -⟩
    · exact hg.awaited h (hk.responded.2 ⟨_, hm⟩)
    · exact hk.named (.inl ⟨ns, hm⟩)
    · exact hk.named (.inr ⟨x, m, hm⟩)
  obtain ⟨w, hw⟩ := Option.isSome_iff_exists.1 haw
  obtain ⟨ns', hns', -, hin⟩ := hk.awaited w hw
  refine hg.not_complete h ⟨hk.hasResult_iff.2 hr, w, hw, fun o => ?_⟩
  -- whoever is awaited was named, so it is accounted for
  by_contra hc
  have hc : w.contains o = true := by simpa using hc
  have hacc : Accounted es o := hall o ((hn ns' hns' o).1 (hin o hc))
  have hoff := (crossedOff_iff hw).1 (hk.crossedOff o hacc)
  rw [hoff] at hc
  cases hc

/-- The news that finish an attempt are those that leave nothing to wait for. -/
theorem Going.finished_iff (h : a.Fresh) (hg : a.Going es)
    (hone : (e :: es).countP News.answers ≤ 1) (hn : Agrees nodes (e :: es)) :
    ((a.heard es).hear e).2 = .finished ↔ Settled nodes (e :: es) := by
  refine ⟨settled_of_finished h hn, fun hs => ?_⟩
  by_contra hf
  have hg' : a.Going (e :: es) := ⟨hg, hf⟩
  exact hg'.not_settled h hone hn hs

/-! ## All the news -/

theorem settled_reverse : Settled nodes es.reverse ↔ Settled nodes es := by
  simp only [Settled, TellsResult, Names, Accounted, List.mem_reverse]

theorem agrees_reverse (hn : Agrees nodes es) (k : Nat) : Agrees nodes (es.take k).reverse := by
  intro ns hns
  refine hn ns ?_
  simp only [Names, List.mem_reverse] at hns ⊢
  rcases hns with hm | hm | ⟨x, m, hm, hx⟩
  · exact .inl (List.mem_of_mem_take hm)
  · exact .inr (.inl (List.mem_of_mem_take hm))
  · exact .inr (.inr ⟨x, m, List.mem_of_mem_take hm, hx⟩)

theorem answers_reverse (hone : es.countP News.answers ≤ 1) (k : Nat) :
    (es.take k).reverse.countP News.answers ≤ 1 := by
  rw [List.countP_reverse]
  exact Nat.le_trans ((List.take_sublist k es).countP_le) hone

theorem reverse_take_succ {k : Nat} (h : es[k]? = some e) :
    (es.take (k + 1)).reverse = e :: (es.take k).reverse := by
  rw [List.take_add_one, h, Option.toList_some, List.reverse_append]
  rfl

/-- An attempt goes on as long as no news finish it. -/
theorem going_of_not_finishes : ∀ {k : Nat}, k ≤ es.length → (∀ j < k, ¬ a.Finishes es j) →
    a.Going (es.take k).reverse
  | 0, _, _ => trivial
  | k + 1, hk, hf => by
    have he : es[k]? = some es[k] := List.getElem?_eq_getElem hk
    have hg := going_of_not_finishes (Nat.le_of_succ_le hk) fun j hj => hf j (Nat.lt_succ_of_lt hj)
    rw [reverse_take_succ he]
    exact ⟨hg, fun h => hf k (Nat.lt_succ_self k) ⟨_, he, h⟩⟩

/-- As long as no news have finished the attempt, those that do are those that leave nothing to wait
for. -/
theorem finishes_iff (h : a.Fresh) (hone : es.countP News.answers ≤ 1) (hn : Agrees nodes es)
    {k : Nat} (hf : ∀ j < k, ¬ a.Finishes es j) :
    a.Finishes es k ↔ k < es.length ∧ Settled nodes (es.take (k + 1)) := by
  by_cases hk : k < es.length
  · have he : es[k]? = some es[k] := List.getElem?_eq_getElem hk
    have hg := going_of_not_finishes (Nat.le_of_lt hk) hf
    have hr := reverse_take_succ he
    have hiff := hg.finished_iff h (hr ▸ answers_reverse hone (k + 1))
      (hr ▸ agrees_reverse hn (k + 1))
    rw [← hr, settled_reverse] at hiff
    constructor
    · rintro ⟨e, he', hfin⟩
      obtain rfl : es[k] = e := Option.some_inj.1 (he.symm.trans he')
      exact ⟨hk, hiff.1 hfin⟩
    · rintro ⟨-, hs⟩
      exact ⟨_, he, hiff.2 hs⟩
  · constructor
    · rintro ⟨e, he, -⟩
      exact absurd (List.getElem?_eq_some_iff.1 he).1 hk
    · exact fun hs => absurd hs.1 hk

/-- Two properties of numbers that agree until one of them holds have the same least number. -/
theorem isLeast_iff_of_agree {P Q : Nat → Prop} (h : ∀ k, (∀ j < k, ¬ P j) → (P k ↔ Q k))
    (k : Nat) : IsLeast {i | P i} k ↔ IsLeast {i | Q i} k := by
  have hnone : ∀ k, (∀ j < k, ¬ P j) ↔ ∀ j < k, ¬ Q j := by
    intro k
    induction k with
    | zero => simp
    | succ k ih =>
      constructor
      · intro hp j hj hq
        have hp' : ∀ i < j, ¬ P i := fun i hi => hp i (Nat.lt_trans hi hj)
        exact hp j hj ((h j hp').2 hq)
      · intro hq j hj hp
        have hp' : ∀ i < k, ¬ P i := ih.2 fun i hi => hq i (Nat.lt_succ_of_lt hi)
        have hp'' : ∀ i < j, ¬ P i := fun i hi => hp' i (by omega)
        exact hq j hj ((h j hp'').1 hp)
  have hbound (S : Nat → Prop) : k ∈ lowerBounds {i | S i} ↔ ∀ j < k, ¬ S j := by
    constructor
    · exact fun hl j hj hs => absurd (hl hs) (Nat.not_le_of_lt hj)
    · exact fun hl j hs => Nat.le_of_not_lt fun hj => hl j hj hs
  rw [IsLeast, IsLeast, hbound, hbound, ← hnone k]
  exact and_congr_left fun hp => h k hp

/-- Whatever an attempt hears, and in whatever order, it is finished by the first news after which
the primary has answered and names nobody, or the result is known and so is whom to hear, and each
of these has answered, was reported lost, or has left. -/
theorem isLeast_finishes (h : a.Fresh) (hone : es.countP News.answers ≤ 1) (hn : Agrees nodes es)
    (k : Nat) : IsLeast {i | a.Finishes es i} k ↔
      IsLeast {i | i < es.length ∧ Settled nodes (es.take (i + 1))} k :=
  isLeast_iff_of_agree (fun _ hf => finishes_iff h hone hn hf) k

/-- A backup leaves before it is named; the other one, named with it, tells the result. -/
def earlyDeparture : List News :=
  [.departure ⟨3⟩, .mapping [⟨2⟩, ⟨3⟩],
    .notice ⟨2⟩ { (default : BackupNotice) with
      mapping := [⟨2⟩, ⟨3⟩], flags := { hasResult := true, resultSuccess := true } }]

/-- The departure counts although it came first: the notice of the other backup is the last thing to
wait for. -/
theorem isLeast_finishes_earlyDeparture :
    (default : Attempt).Fresh ∧ IsLeast {i | (default : Attempt).Finishes earlyDeparture i} 2 := by
  have hfresh : (default : Attempt).Fresh := ⟨rfl, rfl, rfl, rfl, rfl⟩
  have hn : Agrees (SortedSet.ofList [⟨2⟩, ⟨3⟩]) earlyDeparture := by
    intro ns hns o
    obtain rfl : [⟨2⟩, ⟨3⟩] = ns := by simpa [Names, earlyDeparture, eq_comm] using hns
    rw [SortedSet.contains_ofList]
  refine ⟨hfresh, (isLeast_finishes hfresh (by decide) hn 2).2
    ⟨⟨by decide, .inr ⟨?_, ?_, ?_⟩⟩, ?_⟩⟩
  · simp [TellsResult, earlyDeparture, News.hasResult, BackupNotice.result?]
  · exact ⟨[⟨2⟩, ⟨3⟩], .inr (.inl (by simp [earlyDeparture]))⟩
  · intro o ho
    rw [SortedSet.contains_ofList] at ho
    obtain rfl | rfl : o = ⟨2⟩ ∨ o = ⟨3⟩ := by simpa using ho
    · exact .inl ⟨⟨2⟩, _, by simp [earlyDeparture]; rfl, rfl⟩
    · exact .inr (by simp [earlyDeparture])
  · rintro i ⟨hi, hs⟩
    by_contra hlt
    -- the result is not told before the last piece of news
    obtain rfl | rfl : i = 0 ∨ i = 1 := by omega
    all_goals simp [Settled, TellsResult, earlyDeparture, News.hasResult] at hs

end AtomicGrid.Attempt
