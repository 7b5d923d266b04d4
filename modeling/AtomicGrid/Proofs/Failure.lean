import AtomicGrid.Proofs.SortedMap
import AtomicGrid.Proofs.Topology
import AtomicGrid.Failure

/-!
# Failures reported one after the other

A set keeps one failure for each key.  As long as no report is older than what the set holds, that
is the one reported last.

## Results

* `FailureSet.get?_recordAll`: what a list of reports makes of a set.
* `FailureSet.get?_merge`: the same for the reports of another set.
-/

set_option autoImplicit false

namespace AtomicGrid

/-- A list with the entries of a map looks a key up as the map does. -/
theorem SortedMap.lookup_of_mem_iff {κ α : Type} [Ord κ] [Std.TransOrd κ] [Std.LawfulEqOrd κ]
    [BEq κ] [LawfulBEq κ] {m : SortedMap κ α} {l : List (κ × α)}
    (h : ∀ e, e ∈ l ↔ e ∈ m.entries) (k : κ) : l.lookup k = m.get? k := by
  have hmem (v : α) : (k, v) ∈ l ↔ m.get? k = some v := by
    rw [h, get?_eq_some_iff]
  cases hk : l.lookup k with
  | none =>
    rw [List.lookup_eq_none_iff] at hk
    cases hg : m.get? k with
    | none => rfl
    | some v => simpa using hk _ ((hmem v).2 hg)
  | some v =>
    obtain ⟨l₁, l₂, rfl, -⟩ := List.lookup_eq_some_iff.1 hk
    exact ((hmem v).1 (List.mem_append_right _ List.mem_cons_self)).symm

namespace FailureSet

variable {s s' : FailureSet} {v : TopologyVersion} {es : List (Key × KeyFailure)}

/-- No key has failed after the version. -/
def Until (s : FailureSet) (v : TopologyVersion) : Prop :=
  ∀ k f, s.get? k = some f → f.topologyVersion ≤ v

/-- All keys have failed on the version. -/
def At (s : FailureSet) (v : TopologyVersion) : Prop :=
  ∀ k f, s.get? k = some f → f.topologyVersion = v

theorem get?_empty (k : Key) : (∅ : FailureSet).get? k = none := rfl

theorem at_empty (v : TopologyVersion) : (∅ : FailureSet).At v := by
  intro k f h
  cases h

theorem At.until (h : s.At v) : s.Until v := by
  intro k f hk
  rw [h k f hk]
  exact TopologyVersion.le_refl v

/-- A failure that is not older than the others is recorded. -/
theorem get?_record_until {f : KeyFailure} (h : s.Until f.topologyVersion) (k k' : Key) :
    (s.record k f).get? k' = if k' = k then some f else s.get? k' := by
  rw [get?_record]
  split
  next =>
    cases ho : s.get? k with
    | none => rfl
    | some old =>
      have hle := h k old ho
      have hlt : ¬ f.topologyVersion < old.topologyVersion := by
        intro hlt
        exact TopologyVersion.lt_irrefl _ (TopologyVersion.lt_of_le_of_lt hle hlt)
      exact if_neg hlt
  next => rfl

theorem Until.record {f : KeyFailure} (h : s.Until f.topologyVersion) (k : Key) :
    (s.record k f).Until f.topologyVersion := by
  intro k' f' hk
  rw [get?_record_until h] at hk
  split at hk
  next =>
    cases hk
    exact TopologyVersion.le_refl _
  next => exact h k' f' hk

def recordAll (s : FailureSet) (es : List (Key × KeyFailure)) : FailureSet :=
  es.foldl (fun s e => s.record e.1 e.2) s

/-- Of several reports the last one counts. -/
theorem get?_recordAll (hv : ∀ e ∈ es, e.2.topologyVersion = v) (hs : s.Until v) (k : Key) :
    (s.recordAll es).get? k = (es.reverse.lookup k).or (s.get? k) := by
  induction es generalizing s with
  | nil => rfl
  | cons e es ih =>
    obtain ⟨k₁, f⟩ := e
    obtain rfl := hv _ List.mem_cons_self
    have hv' : ∀ e ∈ es, e.2.topologyVersion = f.topologyVersion :=
      fun e he => hv e (List.mem_cons_of_mem _ he)
    have hrec : s.recordAll ((k₁, f) :: es) = (s.record k₁ f).recordAll es := rfl
    rw [hrec, ih hv' (hs.record k₁), get?_record_until hs, List.reverse_cons, List.lookup_append,
      Option.or_assoc]
    congr 1
    by_cases hk : k = k₁
    · simp [hk]
    · simp [List.lookup_cons, hk, beq_false_of_ne hk]

theorem at_recordAll (hv : ∀ e ∈ es, e.2.topologyVersion = v) (hs : s.At v) :
    (s.recordAll es).At v := by
  intro k f hk
  rw [get?_recordAll hv hs.until, Option.or_eq_some_iff] at hk
  rcases hk with hk | ⟨-, hk⟩
  · obtain ⟨l₁, l₂, he, -⟩ := List.lookup_eq_some_iff.1 hk
    have hmem : (k, f) ∈ es.reverse := by
      rw [he]
      exact List.mem_append_right _ List.mem_cons_self
    exact hv _ (List.mem_reverse.1 hmem)
  · exact hs k f hk

/-- The failures of another set replace older ones. -/
theorem get?_merge (hs : s.Until v) (hs' : s'.At v) (k : Key) :
    (s.merge s').get? k = (s'.get? k).or (s.get? k) := by
  have hv : ∀ e ∈ s'.failures.entries, e.2.topologyVersion = v :=
    fun e he => hs' e.1 e.2 (SortedMap.get?_eq_some_iff.2 he)
  have hm : s.merge s' = s.recordAll s'.failures.entries := rfl
  rw [hm, get?_recordAll hv hs, SortedMap.lookup_of_mem_iff (fun e => List.mem_reverse)]
  rfl

/-- The version on which all keys have failed. -/
theorem topologyVersion?_at (hs : s.At v) : s.topologyVersion?.getD v = v := by
  have hv : ∀ f ∈ s.failures.values, f.topologyVersion = v := by
    intro f hf
    obtain ⟨e, he, rfl⟩ := List.mem_map.1 hf
    exact hs e.1 e.2 (SortedMap.get?_eq_some_iff.2 he)
  unfold topologyVersion?
  refine List.foldlRecOn (motive := fun o : Option TopologyVersion => o.getD v = v) _ _ rfl ?_
  intro o ho f hf
  rw [hv f hf]
  cases o with
  | none => rfl
  | some w =>
    obtain rfl : w = v := ho
    simp [TopologyVersion.max]

end FailureSet

end AtomicGrid
