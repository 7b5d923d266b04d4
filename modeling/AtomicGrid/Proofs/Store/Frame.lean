import AtomicGrid.Proofs.Store.Replay

/-!
# What an update leaves alone

An update that is refused or held back leaves the store as it was.  One that goes through writes its
key and counts in its partition, and touches nothing else.

## Results

* `Store.goesThrough_iff`: when an update goes through.
* `Store.changes_write`: what is changed by an update that does.
* `Store.apply_frame`: what an update changes, in all cases.
-/

set_option autoImplicit false

namespace AtomicGrid

/-- Whether an update was applied, as the store says of it. -/
def goesThrough : Except FailureCause AppliedWrite → Bool
  | .ok a => !a.filtered
  | .error _ => false

namespace Store

variable {processors : Processors} {s : Store} {partition : UInt32} {w : WriteCommand}

/-- All conditions hold of the value, and an entry processor that is to run is there and does not
fail. -/
structure Admits (processors : Processors) (current : Option Value) (w : WriteCommand) : Prop where
  conditions : ∀ f ∈ w.filters, f.accepts current = true
  processor : w.operation = .transform → ∃ ref process result, w.processor = some ref ∧
    processors ref.name = some process ∧ process current w.args = .ok result

theorem compute_eq_value_iff (processors : Processors) (w : WriteCommand)
    (current : Option Value) :
    (∃ new invoke, compute processors w current = .value new invoke) ↔
      (w.operation = .transform → ∃ ref process result, w.processor = some ref ∧
        processors ref.name = some process ∧ process current w.args = .ok result) := by
  unfold compute
  cases w.operation with
  | update => simp
  | delete => simp
  | transform =>
    cases w.processor with
    | none => simp
    | some ref =>
      cases hprocess : processors ref.name with
      | none => simp [hprocess]
      | some process =>
        cases hresult : process current w.args with
        | ok result =>
          simp only [hprocess, hresult]
          exact ⟨fun _ _ => ⟨ref, process, result, rfl, hprocess, hresult⟩, fun _ => ⟨_, _, rfl⟩⟩
        | error message => simp [hprocess, hresult]

/-- An update goes through if and only if nothing stands against it. -/
theorem goesThrough_iff :
    goesThrough (s.apply processors partition w).2 = true ↔
      Admits processors (s.get? w.key) w := by
  have hvalue := compute_eq_value_iff processors w (s.get? w.key)
  unfold apply
  simp only
  split
  next hfilters =>
    have hfilters : ∀ f ∈ w.filters, f.accepts (s.get? w.key) = true := List.all_eq_true.1 hfilters
    cases hc : compute processors w (s.get? w.key) with
    | value new invoke =>
      rw [hc] at hvalue
      have hadmits := hvalue.1 ⟨new, invoke, rfl⟩
      exact ⟨fun _ => ⟨hfilters, hadmits⟩, fun _ => rfl⟩
    | processorError message =>
      rw [hc] at hvalue
      refine ⟨nofun, fun h => ?_⟩
      obtain ⟨new, invoke, hnew⟩ := hvalue.2 h.processor
      cases hnew
    | refused cause =>
      rw [hc] at hvalue
      refine ⟨nofun, fun h => ?_⟩
      obtain ⟨new, invoke, hnew⟩ := hvalue.2 h.processor
      cases hnew
  next hfilters =>
    exact ⟨nofun, fun h => absurd (List.all_eq_true.2 h.conditions) hfilters⟩

/-- An update reports the value that the key had before. -/
theorem previous_apply {a : AppliedWrite} (h : (s.apply processors partition w).2 = .ok a) :
    a.previous = s.get? w.key := by
  unfold apply at h
  simp only at h
  split at h
  next =>
    split at h
    next =>
      cases h
      rfl
    next =>
      cases h
      rfl
    next => cases h
  next =>
    cases h
    rfl

/-- A store has changed by one update that was applied with the effect `a`. -/
structure Changes (partition : UInt32) (w : WriteCommand) (a : AppliedWrite) (s s' : Store) :
    Prop where
  /-- What is kept of other keys stays: value, version, life time and removal. -/
  others : ∀ key, key ≠ w.key → SameAt key s s'
  value : s'.get? w.key = a.newValue
  version : s'.version? w.key = some w.version
  /-- The key has an entry or the mark of a removal, as the new value is. -/
  removal : s'.removal? w.key = if a.newValue = none then some w.version else none
  otherCounters : ∀ p, p ≠ partition → s'.updateCounter p = s.updateCounter p
  counter : s'.updateCounter partition = s.updateCounter partition + 1
  counter_toNat : (s.updateCounter partition).toNat + 1 < UInt64.size →
    (s'.updateCounter partition).toNat = (s.updateCounter partition).toNat + 1
  reported : a.updateCounter = s'.updateCounter partition
  readers : s'.readers = s.readers

theorem changes_write {a : AppliedWrite} (h : a.updateCounter = s.updateCounter partition + 1) :
    Changes partition w a s
      ((s.write w.key a.newValue w.version a.ttl).countUpdate partition) := by
  let s₁ : Store := s.write w.key a.newValue w.version a.ttl
  have hcount (p : UInt32) : (s₁.countUpdate partition).updateCounter p =
      if p = partition then s.updateCounter partition + 1 else s.updateCounter p := by
    rw [updateCounter_countUpdate, updateCounter_write, updateCounter_write]
  have hcounter : (s₁.countUpdate partition).updateCounter partition =
      s.updateCounter partition + 1 := by
    rw [hcount, if_pos rfl]
  exact {
    others := fun key hkey => by
      have hw := s.sameAt_write hkey a.newValue w.version a.ttl
      exact ⟨hw.live, hw.removal⟩
    value := by
      show s₁.get? w.key = a.newValue
      rw [get?_write, if_pos rfl]
    version := by
      show s₁.version? w.key = some w.version
      rw [version?_write, if_pos rfl]
    removal := by
      show s₁.removal? w.key = _
      rw [removal?_write, if_pos rfl]
    otherCounters := fun p hp => by rw [hcount, if_neg hp]
    counter := hcounter
    counter_toNat := fun hroom => by rw [hcounter, toNat_add_one hroom]
    reported := by rw [h, hcounter]
    readers := s.readers_write w.key a.newValue w.version a.ttl }

/-- An update goes through if nothing stands against it.  If it does not, the store is what it was.
If it does, the store has changed in the key and in the counter of the partition only.  In any case
it reports the value that the key had before. -/
theorem apply_frame (processors : Processors) (s : Store) (partition : UInt32) (w : WriteCommand) :
    (goesThrough (s.apply processors partition w).2 = true ↔
        Admits processors (s.get? w.key) w) ∧
      (goesThrough (s.apply processors partition w).2 = false →
        (s.apply processors partition w).1 = s) ∧
      ∀ a, (s.apply processors partition w).2 = .ok a → a.previous = s.get? w.key ∧
        (a.filtered = false → Changes partition w a s (s.apply processors partition w).1) := by
  refine ⟨goesThrough_iff, ?_, ?_⟩
  · intro h
    rcases apply_cases processors s partition w with ⟨cause, ha⟩ | ⟨a, hf, ha⟩ | ⟨a, hf, hc, ha⟩
    · rw [ha]
    · rw [ha]
    · rw [ha, goesThrough, hf] at h
      cases h
  · intro a ha
    refine ⟨previous_apply ha, fun hf => ?_⟩
    rcases apply_cases processors s partition w with ⟨cause, h⟩ | ⟨b, hb, h⟩ | ⟨b, hb, hc, h⟩
    · rw [h] at ha
      cases ha
    · rw [h] at ha
      cases ha
      rw [hb] at hf
      cases hf
    · rw [h] at ha
      cases ha
      rw [h]
      exact changes_write hc

end Store

end AtomicGrid
