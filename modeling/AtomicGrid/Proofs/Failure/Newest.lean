import AtomicGrid.Proofs.Failure
import Mathlib.Data.List.Induction

/-!
# Failures of several attempts

A set of failures comes about by recording failures and by merging sets, in any nesting.  However it
came about, it holds of each key the newest of the reports, and the last of those that are equally
new; so merging sets is as good as recording all reports in order.

## Results

* `FailureSet.get?_recordAll_iff`: what a list of reports of any versions makes of a set.
* `FailureSet.merge_recordAll`: a merged set counts as its reports.
* `FailureSet.merge_assoc`: merging is associative.
* `FailureSet.Assembly.newest_set`: what is in a set, however it was put together.
-/

set_option autoImplicit false

namespace AtomicGrid

theorem TopologyVersion.not_lt_iff {a b : TopologyVersion} : ¬ a < b ↔ b ≤ a := by
  have hswap : compare b a = (compare a b).swap := Std.OrientedCmp.eq_swap
  show ¬ compare a b = .lt ↔ (compare b a).isLE = true
  rw [hswap]
  cases compare a b <;> simp

theorem TopologyVersion.le_max_left (a b : TopologyVersion) : a ≤ a.max b := by
  unfold TopologyVersion.max
  split
  next h => exact h
  next => exact TopologyVersion.le_refl a

theorem TopologyVersion.max_cases (a b : TopologyVersion) : a.max b = a ∨ a.max b = b := by
  unfold TopologyVersion.max
  split
  next => exact .inr rfl
  next => exact .inl rfl

theorem TopologyVersion.le_antisymm {a b : TopologyVersion} (h : a ≤ b) (h' : b ≤ a) : a = b := by
  have h : (compare a b).isLE = true := h
  have h' : (compare b a).isLE = true := h'
  exact Std.LawfulEqCmp.eq_of_compare (Std.OrientedCmp.isLE_antisymm h h')

/-- Of two records of a key, the later one, unless it is from an older topology. -/
def KeyFailure.newer : Option KeyFailure → Option KeyFailure → Option KeyFailure
  | some old, some f => if f.topologyVersion < old.topologyVersion then some old else some f
  | some old, none => some old
  | none, f => f

namespace KeyFailure

@[simp] theorem newer_none (f : Option KeyFailure) : newer f none = f := by
  cases f <;> rfl

@[simp] theorem none_newer (f : Option KeyFailure) : newer none f = f := rfl

theorem newer_assoc (a b c : Option KeyFailure) :
    newer (newer a b) c = newer a (newer b c) := by
  rcases a with _ | a
  · rfl
  rcases b with _ | b
  · rfl
  rcases c with _ | c
  · simp
  by_cases hba : b.topologyVersion < a.topologyVersion
  · by_cases hcb : c.topologyVersion < b.topologyVersion
    · simp [newer, hba, hcb, TopologyVersion.lt_trans hcb hba]
    · simp [newer, hba, hcb]
  · by_cases hcb : c.topologyVersion < b.topologyVersion
    · simp [newer, hba, hcb]
    · have hca : ¬ c.topologyVersion < a.topologyVersion := by
        rw [TopologyVersion.not_lt_iff] at hba hcb ⊢
        exact TopologyVersion.le_trans hba hcb
      simp [newer, hba, hcb, hca]

theorem isSome_newer (a b : Option KeyFailure) :
    (newer a b).isSome = (a.isSome || b.isSome) := by
  rcases a with _ | a
  · rfl
  rcases b with _ | b
  · rfl
  · show (if _ then some a else some b).isSome = _
    split <;> rfl

end KeyFailure

open KeyFailure (newer)

/-- The failure is the newest that was reported of a key, and no later report is as new. -/
def Newest (reports : List (Key × KeyFailure)) (k : Key) (f : KeyFailure) : Prop :=
  ∃ before after, reports = before ++ (k, f) :: after ∧
    (∀ e ∈ before, e.1 = k → e.2.topologyVersion ≤ f.topologyVersion) ∧
    ∀ e ∈ after, e.1 = k → e.2.topologyVersion < f.topologyVersion

theorem not_newest_nil {k : Key} {f : KeyFailure} : ¬ Newest [] k f := by
  rintro ⟨before, after, h, -⟩
  simp at h

theorem Newest.mem {reports : List (Key × KeyFailure)} {k : Key} {f : KeyFailure}
    (h : Newest reports k f) : (k, f) ∈ reports := by
  obtain ⟨before, after, rfl, -⟩ := h
  exact List.mem_append_right _ List.mem_cons_self

theorem Newest.le {reports : List (Key × KeyFailure)} {k : Key} {f : KeyFailure}
    (h : Newest reports k f) {e : Key × KeyFailure} (he : e ∈ reports) (hk : e.1 = k) :
    e.2.topologyVersion ≤ f.topologyVersion := by
  obtain ⟨before, after, rfl, hb, ha⟩ := h
  rcases List.mem_append.1 he with he | he
  · exact hb e he hk
  rcases List.mem_cons.1 he with rfl | he
  · exact TopologyVersion.le_refl _
  · exact TopologyVersion.le_of_lt (ha e he hk)

/-- One more report is the newest of its key unless it is older than the newest so far. -/
theorem newest_concat {reports : List (Key × KeyFailure)} {e : Key × KeyFailure} {k : Key}
    {f : KeyFailure} : Newest (reports ++ [e]) k f ↔
      (e = (k, f) ∧ ∀ e ∈ reports, e.1 = k → e.2.topologyVersion ≤ f.topologyVersion) ∨
      (Newest reports k f ∧ (e.1 = k → e.2.topologyVersion < f.topologyVersion)) := by
  constructor
  · rintro ⟨before, after, h, hb, ha⟩
    rcases List.eq_nil_or_concat after with rfl | ⟨after, e', rfl⟩
    · obtain ⟨rfl, he⟩ := List.append_inj' h rfl
      exact .inl ⟨List.singleton_inj.1 he, hb⟩
    · have h : reports ++ [e] = (before ++ (k, f) :: after) ++ [e'] := by simp [h]
      obtain ⟨rfl, he⟩ := List.append_inj' h rfl
      obtain rfl := List.singleton_inj.1 he
      have hlast : e ∈ after.concat e := by simp
      exact .inr ⟨⟨before, after, rfl, hb, fun x hx => ha x (by simp [hx])⟩, ha e hlast⟩
  · rintro (⟨rfl, hb⟩ | ⟨⟨before, after, rfl, hb, ha⟩, he⟩)
    · exact ⟨reports, [], rfl, hb, by simp⟩
    · refine ⟨before, after ++ [e], by simp, hb, ?_⟩
      intro x hx
      rcases List.mem_append.1 hx with hx | hx
      · exact ha x hx
      · rw [List.mem_singleton.1 hx]
        exact he

namespace FailureSet

variable {s s' t u : FailureSet} {es : List (Key × KeyFailure)} {k : Key} {f : KeyFailure}

theorem ext_get? (h : ∀ k, s.get? k = t.get? k) : s = t := by
  cases s
  cases t
  exact congrArg FailureSet.mk (SortedMap.ext_get? h)

theorem get?_record_newer (s : FailureSet) (k k' : Key) (f : KeyFailure) :
    (s.record k f).get? k' = if k' = k then newer (s.get? k) (some f) else s.get? k' := by
  rw [get?_record]
  cases s.get? k <;> rfl

theorem recordAll_concat (s : FailureSet) (es : List (Key × KeyFailure)) (e : Key × KeyFailure) :
    s.recordAll (es ++ [e]) = (s.recordAll es).record e.1 e.2 := by
  simp [recordAll]

theorem recordAll_append (s : FailureSet) (es es' : List (Key × KeyFailure)) :
    s.recordAll (es ++ es') = (s.recordAll es).recordAll es' :=
  List.foldl_append

/-- Reports add to a set what they make of the empty one. -/
theorem get?_recordAll_newer (s : FailureSet) (es : List (Key × KeyFailure)) (k : Key) :
    (s.recordAll es).get? k = newer (s.get? k) (((∅ : FailureSet).recordAll es).get? k) := by
  induction es using List.reverseRecOn with
  | nil => simp [recordAll, get?_empty]
  | append_singleton es e ih =>
    rw [recordAll_concat, recordAll_concat, get?_record_newer, get?_record_newer]
    split
    next hk =>
      subst hk
      rw [ih, KeyFailure.newer_assoc]
    next => exact ih

/-- No key that was reported is lost, and no other is there. -/
theorem isSome_get?_recordAll {es : List (Key × KeyFailure)} {k : Key} :
    (((∅ : FailureSet).recordAll es).get? k).isSome = true ↔ ∃ e ∈ es, e.1 = k := by
  induction es using List.reverseRecOn with
  | nil => simp [recordAll, get?_empty]
  | append_singleton es e ih =>
    rw [recordAll_concat, get?_record_newer]
    split
    next hk =>
      simp only [KeyFailure.isSome_newer, Option.isSome_some, Bool.or_true, true_iff]
      exact ⟨e, by simp, hk.symm⟩
    next hk =>
      rw [ih]
      simp [Ne.symm hk, or_and_right, exists_or]

/-- Reports leave of a key the newest of them, the last of those that are equally new. -/
theorem get?_recordAll_iff {es : List (Key × KeyFailure)} {k : Key} {f : KeyFailure} :
    ((∅ : FailureSet).recordAll es).get? k = some f ↔ Newest es k f := by
  induction es using List.reverseRecOn generalizing f with
  | nil => simp [recordAll, get?_empty, not_newest_nil]
  | append_singleton es e ih =>
    obtain ⟨k', g⟩ := e
    rw [recordAll_concat, get?_record_newer, newest_concat]
    by_cases hk : k = k'
    · subst hk
      simp only [if_true, forall_const, Prod.mk.injEq, true_and, ← ih]
      cases hold : ((∅ : FailureSet).recordAll es).get? k with
      | none =>
        have hnone : ∀ e ∈ es, e.1 ≠ k := by
          intro e he hk
          have hsome := isSome_get?_recordAll.2 ⟨e, he, hk⟩
          rw [hold] at hsome
          cases hsome
        simp only [KeyFailure.none_newer, Option.some.injEq, reduceCtorEq, false_and, or_false,
          iff_self_and]
        intro _ e he hk
        exact absurd hk (hnone e he)
      | some old =>
        have hnew : Newest es k old := ih.1 hold
        simp only [newer, Option.some.injEq]
        split
        next hlt =>
          -- the report is older than what the set holds
          simp only [Option.some.injEq]
          constructor
          · rintro rfl
            exact .inr ⟨rfl, hlt⟩
          · rintro (⟨rfl, hle⟩ | ⟨rfl, -⟩)
            · exact absurd hlt (TopologyVersion.not_lt_iff.2 (hle _ hnew.mem rfl))
            · rfl
        next hlt =>
          simp only [Option.some.injEq]
          constructor
          · rintro rfl
            refine .inl ⟨rfl, fun e he hk => ?_⟩
            exact TopologyVersion.le_trans (hnew.le he hk) (TopologyVersion.not_lt_iff.1 hlt)
          · rintro (⟨rfl, -⟩ | ⟨rfl, hlt'⟩)
            · rfl
            · exact absurd hlt' hlt
    · simp only [if_neg hk, ih]
      have hne : k' ≠ k := fun h => hk h.symm
      simp [hne]

/-! ## Merging -/

/-- Of reports about different keys every one is the newest of its key. -/
theorem newest_entries (s : FailureSet) {k : Key} {f : KeyFailure}
    (h : (k, f) ∈ s.failures.entries) : Newest s.failures.entries k f := by
  obtain ⟨before, after, hl⟩ := List.append_of_mem h
  have hs := s.failures.sorted
  rw [hl, List.pairwise_append, List.pairwise_cons] at hs
  have hne {a b : Key} (hlt : compare a b = .lt) (he : a = b) : False := by
    subst he
    simp at hlt
  refine ⟨before, after, hl, fun e he hk => ?_, fun e he hk => ?_⟩
  · exact (hne (hs.2.2 e he _ List.mem_cons_self) hk).elim
  · exact (hne (hs.2.1.1 e he) hk.symm).elim

/-- The entries of a set are reports that make the same set. -/
theorem recordAll_entries (s : FailureSet) : (∅ : FailureSet).recordAll s.failures.entries = s := by
  apply ext_get?
  intro k
  apply Option.ext
  intro f
  rw [get?_recordAll_iff]
  constructor
  · intro h
    exact SortedMap.get?_eq_some_iff.2 h.mem
  · intro h
    exact newest_entries s (SortedMap.get?_eq_some_iff.1 h)

theorem get?_merge_newer (s t : FailureSet) (k : Key) :
    (s.merge t).get? k = newer (s.get? k) (t.get? k) := by
  have hm : s.merge t = s.recordAll t.failures.entries := rfl
  rw [hm, get?_recordAll_newer, recordAll_entries]

theorem merge_assoc (s t u : FailureSet) : (s.merge t).merge u = s.merge (t.merge u) := by
  apply ext_get?
  intro k
  simp only [get?_merge_newer, KeyFailure.newer_assoc]

/-- A merged set counts as the reports that made it. -/
theorem merge_recordAll (s : FailureSet) (es : List (Key × KeyFailure)) :
    s.merge ((∅ : FailureSet).recordAll es) = s.recordAll es := by
  apply ext_get?
  intro k
  rw [get?_merge_newer, ← get?_recordAll_newer]

/-! ## The newest version -/

def NewestVersion (fs : List KeyFailure) (v : TopologyVersion) : Prop :=
  (∃ f ∈ fs, f.topologyVersion = v) ∧ ∀ f ∈ fs, f.topologyVersion ≤ v

theorem NewestVersion.unique {fs : List KeyFailure} {v w : TopologyVersion}
    (hv : NewestVersion fs v) (hw : NewestVersion fs w) : v = w := by
  obtain ⟨⟨f, hf, rfl⟩, hle⟩ := hv
  obtain ⟨⟨g, hg, rfl⟩, hle'⟩ := hw
  exact TopologyVersion.le_antisymm (hle' f hf) (hle g hg)

theorem NewestVersion.concat {fs : List KeyFailure} {v : TopologyVersion} (h : NewestVersion fs v)
    (f : KeyFailure) : NewestVersion (fs ++ [f]) (v.max f.topologyVersion) := by
  obtain ⟨⟨g, hg, rfl⟩, hle⟩ := h
  constructor
  · rcases TopologyVersion.max_cases g.topologyVersion f.topologyVersion with hm | hm
    · exact ⟨g, List.mem_append_left _ hg, hm.symm⟩
    · exact ⟨f, by simp, hm.symm⟩
  · intro x hx
    rcases List.mem_append.1 hx with hx | hx
    · exact TopologyVersion.le_trans (hle x hx) (TopologyVersion.le_max_left _ _)
    · rw [List.mem_singleton.1 hx]
      exact TopologyVersion.le_max_right _ _

/-- The version of a set is the newest of its failures, if there are any. -/
theorem topologyVersion?_cases (s : FailureSet) :
    (s.failures.values = [] ∧ s.topologyVersion? = none) ∨
      ∃ v, s.topologyVersion? = some v ∧ NewestVersion s.failures.values v := by
  unfold topologyVersion?
  induction s.failures.values using List.reverseRecOn with
  | nil => exact .inl ⟨rfl, rfl⟩
  | append_singleton fs f ih =>
    rw [List.foldl_append]
    rcases ih with ⟨rfl, -⟩ | ⟨v, hv, hnew⟩
    · refine .inr ⟨f.topologyVersion, rfl, ⟨f, by simp, rfl⟩, fun g hg => ?_⟩
      rw [List.nil_append, List.mem_singleton] at hg
      rw [hg]
      exact TopologyVersion.le_refl _
    · exact .inr ⟨v.max f.topologyVersion, by rw [hv]; rfl, hnew.concat f⟩

theorem mem_values_iff {s : FailureSet} {f : KeyFailure} :
    f ∈ s.failures.values ↔ ∃ k, s.get? k = some f := by
  simp only [SortedMap.values, List.mem_map, get?, SortedMap.get?_eq_some_iff]
  constructor
  · rintro ⟨e, he, rfl⟩
    exact ⟨e.1, he⟩
  · rintro ⟨k, hk⟩
    exact ⟨_, hk, rfl⟩

theorem topologyVersion?_eq_some_iff {v : TopologyVersion} :
    s.topologyVersion? = some v ↔ NewestVersion s.failures.values v := by
  rcases s.topologyVersion?_cases with ⟨hnil, hnone⟩ | ⟨w, hw, hnew⟩
  · rw [hnone, hnil]
    simp [NewestVersion]
  · rw [hw, Option.some.injEq]
    constructor
    · rintro rfl
      exact hnew
    · exact hnew.unique

/-- The version of a set is the newest that was reported. -/
theorem topologyVersion?_recordAll {v : TopologyVersion} :
    ((∅ : FailureSet).recordAll es).topologyVersion? = some v ↔
      (∃ e ∈ es, e.2.topologyVersion = v) ∧ ∀ e ∈ es, e.2.topologyVersion ≤ v := by
  have hmem (f : KeyFailure) : f ∈ ((∅ : FailureSet).recordAll es).failures.values ↔
      ∃ k, Newest es k f := by
    simp only [mem_values_iff, get?_recordAll_iff]
  -- for every report the set has one that is as new
  have hcover : ∀ e ∈ es, ∃ k f, Newest es k f ∧ e.2.topologyVersion ≤ f.topologyVersion := by
    intro e he
    obtain ⟨f, hf⟩ := Option.isSome_iff_exists.1 (isSome_get?_recordAll.2 ⟨e, he, rfl⟩)
    have hnew := get?_recordAll_iff.1 hf
    exact ⟨e.1, f, hnew, hnew.le he rfl⟩
  rw [topologyVersion?_eq_some_iff]
  constructor
  · rintro ⟨⟨f, hf, rfl⟩, hle⟩
    obtain ⟨k, hk⟩ := (hmem f).1 hf
    refine ⟨⟨(k, f), hk.mem, rfl⟩, fun e he => ?_⟩
    obtain ⟨k', g, hg, heg⟩ := hcover e he
    exact TopologyVersion.le_trans heg (hle g ((hmem g).2 ⟨k', hg⟩))
  · rintro ⟨⟨e, he, rfl⟩, hle⟩
    obtain ⟨k, f, hf, hef⟩ := hcover e he
    refine ⟨⟨f, (hmem f).2 ⟨k, hf⟩, TopologyVersion.le_antisymm (hle _ hf.mem) hef⟩, ?_⟩
    intro g hg
    obtain ⟨k', hk'⟩ := (hmem g).1 hg
    exact hle _ hk'.mem

/-! ## Sets put together in any way -/

/-- How a set of failures was put together. -/
inductive Assembly where
  | empty
  /-- Several keys failed for the same cause on the same version. -/
  | add (a : Assembly) (keys : List Key) (cause : FailureCause) (version : TopologyVersion)
  | merge (a b : Assembly)

namespace Assembly

def set : Assembly → FailureSet
  | empty => ∅
  | add a keys cause version => a.set.add keys cause version
  | merge a b => a.set.merge b.set

def reports : Assembly → List (Key × KeyFailure)
  | empty => []
  | add a keys cause version => a.reports ++ keys.map (·, ⟨cause, version⟩)
  | merge a b => a.reports ++ b.reports

theorem set_eq (a : Assembly) : a.set = (∅ : FailureSet).recordAll a.reports := by
  induction a with
  | empty => rfl
  | add a keys cause version ih =>
    rw [reports, recordAll_append, ← ih]
    simp only [set, FailureSet.add, recordAll, List.foldl_map]
  | merge a b iha ihb =>
    rw [reports, recordAll_append, ← iha, ← merge_recordAll, ← ihb]
    rfl

/-- However a set of failures was put together, it holds of each key the newest report, and the last
of those that are equally new; no key is lost, and the newest version in the set is the newest that
was reported.  Merging is associative, and as good as adding the reports of the other set after the
own ones, each by itself. -/
theorem newest_set (a : Assembly) :
    (∀ k f, a.set.get? k = some f ↔ Newest a.reports k f) ∧
      (∀ k, k ∈ a.set.keys ↔ ∃ e ∈ a.reports, e.1 = k) ∧
      (∀ v, a.set.topologyVersion? = some v ↔
        (∃ e ∈ a.reports, e.2.topologyVersion = v) ∧ ∀ e ∈ a.reports, e.2.topologyVersion ≤ v) ∧
      (∀ b : Assembly, a.set.merge b.set =
        b.reports.foldl (fun s e => s.add [e.1] e.2.cause e.2.topologyVersion) a.set) ∧
      (∀ s t k, (FailureSet.merge s t).get? k = none ↔ s.get? k = none ∧ t.get? k = none) ∧
      ∀ s t u, (FailureSet.merge s t).merge u = s.merge (t.merge u) := by
  refine ⟨fun k f => ?_, fun k => ?_, fun v => ?_, fun b => ?_, fun s t k => ?_, merge_assoc⟩
  · rw [a.set_eq, get?_recordAll_iff]
  · rw [a.set_eq, ← isSome_get?_recordAll]
    exact SortedMap.mem_keys_iff
  · rw [a.set_eq, topologyVersion?_recordAll]
  · rw [b.set_eq, merge_recordAll]
    rfl
  · rw [get?_merge_newer, ← Option.not_isSome_iff_eq_none, KeyFailure.isSome_newer]
    simp

/-- Of two reports on one version the later one counts, also if it comes with another set. -/
example : (merge (add empty [[1], [2]] .serverNotFound ⟨2, 0⟩)
    (add empty [[1]] (.nodeDeparted ⟨3⟩) ⟨2, 0⟩)).set.get? [1] =
      some ⟨.nodeDeparted ⟨3⟩, ⟨2, 0⟩⟩ := by decide

end Assembly

end FailureSet

end AtomicGrid
