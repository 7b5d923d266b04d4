import Mathlib.Algebra.Group.Nat.Defs
import AtomicGrid.Proofs.Store.Replay

/-!
# Life times that an update sets

The life times of an expiry policy are unsigned numbers, those of a store are signed, and one of them
keeps the life time that an entry has.  A life time below 2^63 is stored as it is given, on the
primary and on the backups.  One that is not comes out negative, or as the mark that nothing is to
change.

## Results

* `ExpiryPolicy.toInt_toInt64_iff`: which life times a store can hold.
* `Store.ttl_given`: what becomes of a life time that an update sets.
* `Store.ttl_mistaken`: the greatest life time leaves an entry the one it had.
-/

set_option autoImplicit false

namespace AtomicGrid

namespace ExpiryPolicy

/-- The life time that a policy sets for a write, depending on whether there was an entry. -/
def applicable (p : ExpiryPolicy) (existed : Bool) : Option UInt64 :=
  if existed then p.update else p.create

theorem ttlForWrite_of_applicable {p : ExpiryPolicy} {existed : Bool} {ms : UInt64}
    (h : p.applicable existed = some ms) : p.ttlForWrite existed = ms.toInt64 := by
  unfold applicable at h
  unfold ttlForWrite
  rw [h]

/-- The signed number is the one given if it is below 2^63. -/
theorem toInt_toInt64 {ms : UInt64} (h : ms.toNat < 2 ^ 63) : ms.toInt64.toInt = ms.toNat := by
  show ms.toBitVec.toInt = ms.toBitVec.toNat
  have h : ms.toBitVec.toNat < 2 ^ 63 := h
  rw [BitVec.toInt_eq_toNat_of_lt]
  omega

/-- No other number can be held. -/
theorem lt_of_toInt_eq {ms : UInt64} {ttl : Int64} (h : ttl.toInt = ms.toNat) :
    ms.toNat < 2 ^ 63 := by
  have := ttl.toInt_lt
  omega

end ExpiryPolicy

namespace Store

variable {processors : Processors} {s t : Store} {partition : UInt32} {w : WriteCommand}
  {policy : ExpiryPolicy} {ms : UInt64} {a : AppliedWrite}

/-- An update that goes through hands on the life time of its policy. -/
theorem ttl_apply (he : w.expiry = some policy)
    (ha : (s.apply processors partition w).2 = .ok a) (hf : a.filtered = false) :
    a.ttl = policy.ttlForWrite (s.get? w.key).isSome := by
  unfold apply at ha
  simp only [he] at ha
  split at ha
  next =>
    split at ha
    next =>
      cases ha
      rfl
    next =>
      cases ha
      cases hf
    next => cases ha
  next =>
    cases ha
    cases hf

/-- An update that goes through writes its value, and a backup that is behind writes the same. -/
theorem apply_applyBackup (partition' : UInt32)
    (ha : (s.apply processors partition w).2 = .ok a)
    (hf : a.filtered = false) (ht : ∀ v ∈ t.version? w.key, v < w.version) :
    (s.apply processors partition w).1.ttl? w.key =
        (s.write w.key a.newValue w.version a.ttl).ttl? w.key ∧
      (t.applyBackup partition' (a.backupEntry w.key) w.version).ttl? w.key =
        (t.write w.key a.newValue w.version a.ttl).ttl? w.key := by
  constructor
  · rcases apply_cases processors s partition w with ⟨cause, h⟩ | ⟨b, hb, h⟩ | ⟨b, hb, hc, h⟩
    · rw [h] at ha
      cases ha
    · rw [h] at ha
      cases ha
      rw [hb] at hf
      cases hf
    · rw [h] at ha
      cases ha
      rw [h]
      rfl
  · rw [applyBackup_of_newer (e := a.backupEntry w.key) ht]
    rfl

/-- If an update goes through and leaves a value, a life time below 2^63 that its policy sets is the
one that the primary keeps, and a backup to which the update is new; it is not negative, and not the
mark that keeps what the entry has.  A life time from 2^63 on is kept nowhere. -/
theorem ttl_given (partition' : UInt32) (he : w.expiry = some policy)
    (hms : policy.applicable (s.get? w.key).isSome = some ms)
    (ha : (s.apply processors partition w).2 = .ok a) (hf : a.filtered = false)
    (hv : a.newValue.isSome = true) (ht : ∀ v ∈ t.version? w.key, v < w.version) :
    (ms.toNat < 2 ^ 63 →
        (s.apply processors partition w).1.ttl? w.key = some ms.toInt64 ∧
        (t.applyBackup partition' (a.backupEntry w.key) w.version).ttl? w.key = some ms.toInt64 ∧
        ms.toInt64.toInt = ms.toNat ∧ 0 ≤ ms.toInt64 ∧ ms.toInt64 ≠ ttlUnchanged) ∧
      ∀ ttl, (s.apply processors partition w).1.ttl? w.key = some ttl ∨
          (t.applyBackup partition' (a.backupEntry w.key) w.version).ttl? w.key = some ttl →
        (ttl.toInt = ms.toNat ↔ ms.toNat < 2 ^ 63) := by
  obtain ⟨value, hvalue⟩ := Option.isSome_iff_exists.1 hv
  obtain ⟨hs, ht⟩ := apply_applyBackup partition' ha hf ht
  have httl : a.ttl = ms.toInt64 := by
    rw [ttl_apply he ha hf, ExpiryPolicy.ttlForWrite_of_applicable hms]
  rw [hvalue, ttl?_write, if_pos rfl, httl, Option.map_some] at hs ht
  have hkept (h : ms.toNat < 2 ^ 63) : ms.toInt64.toInt = ms.toNat ∧ ms.toInt64 ≠ ttlUnchanged := by
    have hint := ExpiryPolicy.toInt_toInt64 h
    refine ⟨hint, fun hu => ?_⟩
    rw [hu] at hint
    have hneg : ttlUnchanged.toInt = -1 := rfl
    omega
  constructor
  · intro h
    obtain ⟨hint, hne⟩ := hkept h
    rw [if_neg hne] at hs ht
    refine ⟨hs, ht, hint, ?_, hne⟩
    rw [Int64.le_iff_toInt_le, hint]
    exact Int.natCast_nonneg _
  · intro ttl hor
    refine ⟨ExpiryPolicy.lt_of_toInt_eq, fun h => ?_⟩
    obtain ⟨hint, hne⟩ := hkept h
    rw [hs, ht, if_neg hne, if_neg hne, or_self, Option.some.injEq] at hor
    rw [← hor, hint]

/-- A store that holds a value for five seconds more. -/
def lasting : Store := write {} [1] (some [7]) ⟨1, 1, 1⟩ 5000

/-- An update that sets the life time of a value there is. -/
def extension (ms : UInt64) : WriteCommand where
  key := [1]
  operation := .update
  value := some [8]
  processor := none
  args := []
  filters := []
  expiry := some ⟨none, some ms, none⟩
  version := ⟨1, 2, 1⟩

theorem ttl_given_longest :
    let longest : UInt64 := 9223372036854775807
    (lasting.apply Processor.none 0 (extension longest)).1.ttl? [1] = some longest.toInt64 ∧
      (lasting.applyBackup 0 ⟨[1], some [8], longest.toInt64, expireByTtl, none, false, none, 1⟩
        ⟨1, 2, 1⟩).ttl? [1] = some longest.toInt64 := by
  intro longest
  have ha : (lasting.apply Processor.none 0 (extension longest)).2 =
      .ok ⟨some [7], some [8], none, false, 1, longest.toInt64⟩ := rfl
  have ht : ∀ v ∈ lasting.version? [1], v < (extension longest).version := by decide
  have h := (ttl_given 0 rfl rfl ha rfl rfl ht).1 (by decide)
  exact ⟨h.1, h.2.1⟩

/-- The greatest life time is taken for the mark that keeps what the entry has, and one that is not
much smaller comes out negative. -/
theorem ttl_mistaken :
    (extension 18446744073709551615).expiry = some ⟨none, some 18446744073709551615, none⟩ ∧
      (lasting.apply Processor.none 0 (extension 18446744073709551615)).2 =
        .ok ⟨some [7], some [8], none, false, 1, -1⟩ ∧
      (lasting.apply Processor.none 0 (extension 18446744073709551615)).1.ttl? [1] = some 5000 ∧
      (lasting.apply Processor.none 0 (extension 18446744073709551614)).1.ttl? [1] = some (-2) := by
  decide

end Store

end AtomicGrid
