import AtomicGrid.Proofs.Store
import Mathlib.Data.List.MinMax

/-!
# Backup writes in any order

A backup is told of writes late, more than once, and in another order than the one they were made
in.  What it holds of a key in the end does not depend on that: it is the newest of the writes it
was told of and of what it held before, and the latter if none is newer.

## Results

* `Write.foldl_replay`: of a list of writes, the first of the newest is held.
* `Store.newest_deliver`: what a store holds of a key after backup writes in any order.
-/

set_option autoImplicit false

namespace AtomicGrid

/-- A backup write, as a backup is told of it. -/
structure BackupWrite where
  entry : BackupEntry
  version : WriteVersion
  deriving DecidableEq, Repr, Inhabited

namespace BackupWrite

/-- What it leaves if nothing newer is held. -/
def write (w : BackupWrite) : Write := ⟨w.version, w.entry.value⟩

def writesOf (key : Key) (ws : List BackupWrite) : List Write :=
  (ws.filter (·.entry.key = key)).map write

theorem writesOf_cons (key : Key) (b : BackupWrite) (ws : List BackupWrite) :
    writesOf key (b :: ws) =
      if b.entry.key = key then b.write :: writesOf key ws else writesOf key ws := by
  unfold writesOf
  rw [List.filter_cons]
  by_cases hk : b.entry.key = key
  · simp [hk]
  · simp [hk]

theorem mem_writesOf {key : Key} {ws : List BackupWrite} {w : Write} :
    w ∈ writesOf key ws ↔ ∃ b ∈ ws, b.entry.key = key ∧ b.write = w := by
  simp only [writesOf, List.mem_map, List.mem_filter, decide_eq_true_eq, and_assoc]

/-- If different writes of a key differ in their versions, a version names one write of the key. -/
theorem write_inj {ws : List BackupWrite} (hws : ∀ b ∈ ws, ∀ b' ∈ ws, b.entry.key = b'.entry.key →
      b ≠ b' → b.version ≠ b'.version) {key : Key} {w w' : Write} (hw : w ∈ writesOf key ws)
    (hw' : w' ∈ writesOf key ws) (hv : w.version = w'.version) : w = w' := by
  obtain ⟨b, hb, hk, rfl⟩ := mem_writesOf.1 hw
  obtain ⟨b', hb', hk', rfl⟩ := mem_writesOf.1 hw'
  have hbb : b = b' := by
    by_contra hne
    exact hws b hb b' hb' (hk.trans hk'.symm) hne hv
  rw [hbb]

end BackupWrite

namespace Write

theorem mem_argmax_of_mem_iff {w? : Option Write} {ws ws' : List Write} {w : Write}
    (hmem : ∀ w, w ∈ ws ↔ w ∈ ws') (hinj : ∀ w ∈ ws, ∀ w' ∈ ws, w.version = w'.version → w = w')
    (hw : w ∈ (w?.toList ++ ws).argmax version) : w ∈ (w?.toList ++ ws').argmax version := by
  have hall (w : Write) : w ∈ w?.toList ++ ws ↔ w ∈ w?.toList ++ ws' := by
    rw [List.mem_append, List.mem_append, hmem]
  obtain ⟨hin, hmax, hfirst⟩ := List.mem_argmax_iff.1 hw
  refine List.mem_argmax_iff.2 ⟨(hall w).1 hin, fun a ha => hmax a ((hall a).2 ha), ?_⟩
  intro a ha hle
  have ha := (hall a).2 ha
  have hfirst := hfirst a ha hle
  have hv : w.version = a.version := le_antisymm hle (hmax a ha)
  cases w? with
  | none =>
    rw [hinj w hin a ha hv]
  | some h =>
    -- what was held stands first in both lists, so it is before all others of its version
    rcases List.mem_cons.1 hin with rfl | hin
    · simp
    · rcases List.mem_cons.1 ha with rfl | ha
      · have h0 : w = a := by
          by_contra hne
          simp [List.idxOf_cons_ne _ (Ne.symm hne)] at hfirst
        rw [h0]
      · rw [hinj w hin a ha hv]

/-- The first of the newest depends on the members only, if no two writes share a version. -/
theorem argmax_congr {w? : Option Write} {ws ws' : List Write} (hmem : ∀ w, w ∈ ws ↔ w ∈ ws')
    (hinj : ∀ w ∈ ws, ∀ w' ∈ ws, w.version = w'.version → w = w') :
    (w?.toList ++ ws).argmax version = (w?.toList ++ ws').argmax version := by
  apply Option.ext
  intro w
  constructor
  · exact mem_argmax_of_mem_iff hmem hinj
  · apply mem_argmax_of_mem_iff fun w => (hmem w).symm
    intro w hw w' hw'
    exact hinj w ((hmem w).2 hw) w' ((hmem w').2 hw')

/-- Of a list of writes, the first of the newest is held. -/
theorem foldl_replay (held : Option Write) (ws : List Write) :
    ws.foldl replay held = (held.toList ++ ws).argmax version := by
  induction ws using List.reverseRecOn with
  | nil =>
    cases held with
    | none => rfl
    | some w => rfl
  | append_singleton ws w ih =>
    rw [List.foldl_append, ih, ← List.append_assoc, List.argmax_concat]
    show replay _ w = _
    unfold replay
    cases (held.toList ++ ws).argmax version with
    | none => rfl
    | some w' =>
      simp only [Option.any_some, decide_eq_true_eq]
      by_cases h : w.version ≤ w'.version
      · rw [if_pos h, if_neg (not_lt_of_ge h)]
      · rw [if_neg h, if_pos (lt_of_not_ge h)]

end Write

namespace Store

/-- Makes backup writes, each under the partition it comes with. -/
def deliver (s : Store) (calls : List (UInt32 × BackupWrite)) : Store :=
  calls.foldl (fun s c => s.applyBackup c.1 c.2.entry c.2.version) s

theorem held_deliver (s : Store) (calls : List (UInt32 × BackupWrite)) (key : Key) :
    (s.deliver calls).held key =
      (BackupWrite.writesOf key (calls.map (·.2))).foldl Write.replay (s.held key) := by
  induction calls generalizing s with
  | nil => rfl
  | cons c calls ih =>
    show ((s.applyBackup c.1 c.2.entry c.2.version).deliver calls).held key = _
    rw [ih, held_applyBackup, List.map_cons, BackupWrite.writesOf_cons]
    split
    · rfl
    · rfl

theorem sameAt_applyBackup (s : Store) (partition : UInt32) {e : BackupEntry}
    (version : WriteVersion) {key : Key} (h : e.key ≠ key) :
    SameAt key s (s.applyBackup partition e version) := by
  rcases s.applyBackup_cases partition e version with ⟨-, ha⟩ | ⟨-, counters, ha⟩
  · rw [ha]
    exact ⟨rfl, rfl⟩
  · rw [ha]
    have hw := s.sameAt_write (Ne.symm h) e.value version e.ttl
    exact ⟨hw.live, hw.removal⟩

/-- Keys that no write is about stay as they are. -/
theorem sameAt_deliver {calls : List (UInt32 × BackupWrite)} {key : Key}
    (h : ∀ c ∈ calls, c.2.entry.key ≠ key) (s : Store) : SameAt key s (s.deliver calls) := by
  induction calls generalizing s with
  | nil => exact ⟨rfl, rfl⟩
  | cons c calls ih =>
    have hfirst := s.sameAt_applyBackup c.1 c.2.version (h c List.mem_cons_self)
    have hrest := ih (fun c' hc' => h c' (List.mem_cons_of_mem c hc'))
      (s.applyBackup c.1 c.2.entry c.2.version)
    exact ⟨hrest.live.trans hfirst.live, hrest.removal.trans hfirst.removal⟩

theorem Arisen.deliver {s : Store} (h : Arisen s) (calls : List (UInt32 × BackupWrite)) :
    Arisen (s.deliver calls) := by
  induction calls generalizing s with
  | nil => exact h
  | cons c calls ih => exact ih (h.backedUp c.1 c.2.entry c.2.version)

/-- Backup writes in any order, and each as often as it comes, leave of every key the newest of them
and of what was held before.  The latter stays if none is newer.  In a store that has arisen from
writes, this is all that its two maps have of the key, and no key is in both. -/
theorem newest_deliver (s : Store) {writes : List BackupWrite}
    (hwrites : ∀ b ∈ writes, ∀ b' ∈ writes, b.entry.key = b'.entry.key → b ≠ b' →
      b.version ≠ b'.version)
    {calls : List (UInt32 × BackupWrite)} (hcalls : ∀ b, b ∈ calls.map (·.2) ↔ b ∈ writes)
    (key : Key) :
    let newest := ((s.held key).toList ++ BackupWrite.writesOf key writes).argmax Write.version
    (s.deliver calls).held key = newest ∧
      ((∀ b ∈ writes, b.entry.key ≠ key) → SameAt key s (s.deliver calls)) ∧
      (Arisen s → (s.deliver calls).Apart ∧ (s.deliver calls).Has key newest) := by
  intro newest
  have hheld : (s.deliver calls).held key = newest := by
    rw [held_deliver, Write.foldl_replay]
    symm
    apply Write.argmax_congr
    · intro w
      simp only [BackupWrite.mem_writesOf, hcalls]
    · intro w hw w' hw'
      exact BackupWrite.write_inj hwrites hw hw'
  refine ⟨hheld, ?_, ?_⟩
  · intro hne
    apply sameAt_deliver
    intro c hc
    exact hne c.2 ((hcalls c.2).1 (List.mem_map_of_mem hc))
  · intro hs
    have hapart := (hs.deliver calls).apart
    exact ⟨hapart, hheld ▸ hapart.has key⟩

/-- Two values under one version, and the removal of one of them. -/
def overtaking : List BackupWrite :=
  [⟨⟨[1], some [7], ttlUnchanged, expireByTtl, none, false, none, 2⟩, ⟨1, 2, 1⟩⟩,
    ⟨⟨[3], some [7], ttlUnchanged, expireByTtl, none, false, none, 3⟩, ⟨1, 2, 1⟩⟩,
    ⟨⟨[3], none, ttlUnchanged, expireByTtl, none, false, none, 4⟩, ⟨1, 3, 1⟩⟩]

/-- The removal comes before the value and once more after it.  Another value comes under the
version of what the store has of its key. -/
theorem newest_deliver_overtaking :
    let put : WriteCommand := ⟨[1], .update, some [9], none, [], [], none, ⟨1, 2, 1⟩⟩
    let s : Store := (({} : Store).apply Processor.none 0 put).1
    let late := s.deliver [(0, overtaking[2]), (0, overtaking[1]), (0, overtaking[2]),
      (0, overtaking[0])]
    late.held [1] = some ⟨⟨1, 2, 1⟩, some [9]⟩ ∧ late.held [3] = some ⟨⟨1, 3, 1⟩, none⟩ ∧
      late.Apart ∧ late.Has [3] (some ⟨⟨1, 3, 1⟩, none⟩) := by
  intro put s late
  have hcalls (b : BackupWrite) : b ∈ ([(0, overtaking[2]), (0, overtaking[1]),
      (0, overtaking[2]), (0, overtaking[0])] : List (UInt32 × BackupWrite)).map (·.2) ↔
      b ∈ overtaking := by
    simp [overtaking]
    tauto
  have hwrites : ∀ b ∈ overtaking, ∀ b' ∈ overtaking, b.entry.key = b'.entry.key → b ≠ b' →
      b.version ≠ b'.version := by decide
  have hs : Arisen s := .applied .empty Processor.none 0 put
  obtain ⟨hone, -, -⟩ := newest_deliver s hwrites hcalls [1]
  obtain ⟨hthree, -, hall⟩ := newest_deliver s hwrites hcalls [3]
  have hnewest : ((s.held [3]).toList ++ BackupWrite.writesOf [3] overtaking).argmax
      Write.version = some ⟨⟨1, 3, 1⟩, none⟩ := by decide
  refine ⟨?_, ?_, (hall hs).1, ?_⟩
  · rw [hone]
    decide
  · rw [hthree, hnewest]
  · rw [← hnewest]
    exact (hall hs).2

end Store

end AtomicGrid
