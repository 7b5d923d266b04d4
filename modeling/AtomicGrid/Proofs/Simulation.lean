import AtomicGrid.Proofs.Cluster.Events
import AtomicGrid.Simulation
import Mathlib.Data.Nat.Digits.Defs
import Mathlib.Data.String.Basic

/-!
# What simulated writes come to

Every write of a simulation has a result, since the cluster works until there is one or nothing is
left to do.  So every simulation comes to its report, and all keys are counted, unless nobody is
left to write from: the only node can be taken out.

## Results

* `Simulation.Run.write_eq_ok`: the write of a key ends, and is counted.
* `Simulation.run_eq_ok`: a simulation with nodes to write from comes to its report.
* `Simulation.run_nobodyLeft`: a simulation that takes out its only node does not.
* `Simulation.run_accounts`: which simulations count every key.
-/

set_option autoImplicit false

namespace AtomicGrid

/-! ## Keys and values -/

theorem utf8Len_le : ∀ cs : List Char, String.utf8Len cs ≤ 4 * cs.length
  | [] => Nat.zero_le _
  | c :: cs => by
    have := utf8Len_le cs
    have := c.utf8Size_le_four
    rw [String.utf8Len_cons, List.length_cons]
    omega

theorem Utf8.length_encode_le (s : String) : (Utf8.encode s).length ≤ 4 * s.length := by
  have h := utf8Len_le s.toList
  rw [← String.utf8ByteSize_ofList, String.ofList_toList] at h
  exact h

namespace Simulation

/-- How many bytes keys and values have at most. -/
def longest : Nat := 104

/-- A text with a number at its end is short. -/
theorem length_encode_numbered (text : String) {i : Nat} (hi : i < UInt64.size) :
    (Utf8.encode (text ++ toString i)).length ≤ 4 * (text.length + 20) := by
  have hlen : (toString i).length ≤ 20 :=
    Nat.repr_length i 20 (by decide) (Nat.lt_trans hi (by decide))
  have := Utf8.length_encode_le (text ++ toString i)
  rw [String.length_append] at this
  omega

theorem key_ne_nil (i : Nat) : key i ≠ [] := by
  have hkey : key i = Utf8.encode "key-" ++ Utf8.encode (toString i) := by
    show Utf8.encode ("key-" ++ toString i) = _
    simp [Utf8.encode]
  rw [hkey]
  exact List.append_ne_nil_of_left_ne_nil (by decide) _

theorem storesWithin_put {size i : Nat} (hs : longest ≤ size) (hi : i < UInt64.size) :
    (Update.put (key i) (value i)).StoresWithin size :=
  ⟨key i, value i, rfl, key_ne_nil i,
    Nat.le_trans (length_encode_numbered "key-" hi) (Nat.le_trans (by decide) hs),
    Nat.le_trans (length_encode_numbered "value-" hi) (Nat.le_trans (by decide) hs)⟩

/-! ## Writes -/

variable {w : Setting} {k i : Nat} {writer : NodeId} {s : Simulation} {config : Config} {r : Run}

namespace Run

def ended (r : Run) : Nat := r.succeeded + r.failed

theorem cluster_count (r : Run) (i : Nat) (writer : NodeId)
    (result : Except CacheError UpdateOutcome) :
    (r.count i writer result).cluster = r.cluster := by
  unfold count
  split
  · split <;> rfl
  · rfl

theorem ended_count (r : Run) (i : Nat) (writer : NodeId)
    (result : Except CacheError UpdateOutcome) :
    (r.count i writer result).ended = r.ended + 1 := by
  unfold count ended
  split
  · split
    · exact Nat.add_right_comm _ _ _
    · rfl
  · rfl

/-- The write of a key ends, and is counted. -/
theorem write_eq_ok (h : r.cluster.Answered w k) (hk : k + 2 ≤ w.budget)
    (hn : r.cluster.running.contains writer = true)
    (hu : (Update.put (key i) (value i)).StoresWithin w.size) :
    ∃ r', r.write i writer = .ok r' ∧ r'.cluster.Answered w (k + 2) ∧
      r'.cluster.running = r.cluster.running ∧ r'.ended = r.ended + 1 := by
  obtain ⟨c, hd, hsubmit, hawaits, hrunning⟩ := h.submit (Nat.le_of_add_right_le hk) hn hu
  have hn' : c.running.contains writer = true := hrunning ▸ hn
  -- the write ends with `result`, and leaves the cluster `c'`
  have hcounted (c' : Cluster) (unpaused : Nat) (result : Except CacheError UpdateOutcome)
      (ha : c'.Answered w (k + 2)) (hr : c'.running = r.cluster.running) :
      ∃ r', (.ok ({ r with cluster := c', unpaused }.count i writer result) :
          Except SimulationError Run) = .ok r' ∧ r'.cluster.Answered w (k + 2) ∧
        r'.cluster.running = r.cluster.running ∧ r'.ended = r.ended + 1 := by
    refine ⟨_, rfl, ?_, ?_, ended_count _ _ _ _⟩
    · rw [cluster_count]
      exact ha
    · rw [cluster_count]
      exact hr
  obtain ⟨c', later?, hturns, hanswered, hrunning', hsome⟩ := hawaits.turnsUntil hk hn'
  obtain ⟨last, hlast⟩ := Option.isSome_iff_exists.1 hsome
  unfold write
  rw [hsubmit]
  dsimp only
  split
  next unpaused result _ hr =>
    exact hcounted c unpaused result (hawaits.answered hn' (hr ▸ rfl)) hrunning
  next =>
    rw [hturns]
    dsimp only
    rw [hlast]
    exact hcounted c' _ last hanswered (hrunning'.trans hrunning)

end Run

/-! ## A run -/

/-- The only node is to be taken out before there is nothing left to write. -/
def LeavesNobody (s : Simulation) : Prop := s.nodes = 1 ∧ s.victim = some ⟨1⟩ ∧ 0 < s.keys

instance (s : Simulation) : Decidable s.LeavesNobody :=
  inferInstanceAs (Decidable (_ ∧ _ ∧ _))

/-- The simulation takes place under `w`. -/
structure Suits (w : Setting) (s : Simulation) : Prop where
  count : w.count = s.nodes
  size : longest ≤ w.size
  budget : 2 * s.keys + 1 ≤ w.budget

/-- A simulation after `i` writes.  It is struck if the node to be taken out is no longer there. -/
structure Run.Stands (w : Setting) (s : Simulation) (i : Nat) (struck : Prop) [Decidable struck]
    (r : Run) : Prop where
  answered : ∃ k, k ≤ 2 * i + (if struck then 1 else 0) ∧ r.cluster.Answered w k
  running : ∀ n, r.cluster.running.contains n = true ↔ n ∈ w.ids ∧ (struck → s.victim ≠ some n)
  ended : r.ended = i

/-- The simulation when the node to be taken out is, if it is time. -/
def strike (s : Simulation) (r : Run) (i : Nat) : Run :=
  match s.victim with
  | some n => if i = s.keys / 2 then r.kill n i else r
  | none => r

theorem step_eq (s : Simulation) (r : Run) (i : Nat) : s.step r i =
    match (s.strike r i).cluster.nodeIds[i % (s.strike r i).cluster.nodeIds.length]? with
    | none => .error .nobodyLeft
    | some writer => (s.strike r i).write i writer := rfl

theorem Run.kill_eq (r : Run) (n : NodeId) (i : Nat) :
    (r.kill n i).cluster = (r.cluster.kill n).1 ∧ (r.kill n i).ended = r.ended := ⟨rfl, rfl⟩

/-- After half of the writes the victim is taken out, and not before. -/
theorem stands_strike (h : r.Stands w s i (s.keys / 2 < i)) (hs : Suits w s) (hi : i < s.keys) :
    (s.strike r i).Stands w s i (s.keys / 2 ≤ i) := by
  obtain ⟨k, hk, ha⟩ := h.answered
  have hbudget := hs.budget
  by_cases htime : i = s.keys / 2
  · -- until now everybody was there
    have hearly : ¬ s.keys / 2 < i := by omega
    have hlate : s.keys / 2 ≤ i := by omega
    rw [if_neg hearly] at hk
    have hrunning (n : NodeId) : r.cluster.running.contains n = true ↔ n ∈ w.ids :=
      (h.running n).trans ⟨And.left, fun hn => ⟨hn, fun hl => absurd hl hearly⟩⟩
    unfold strike
    cases hv : s.victim with
    | none =>
      refine ⟨⟨k, by omega, ha⟩, fun n => (hrunning n).trans ?_, h.ended⟩
      simp [hv]
    | some v =>
      dsimp only
      rw [if_pos htime]
      obtain ⟨hcluster, hended⟩ := Run.kill_eq r v i
      obtain ⟨⟨k', hk', ha'⟩, hleft⟩ := ha.kill (by omega) v
      refine ⟨⟨k', ?_, hcluster ▸ ha'⟩, fun n => ?_, hended.trans h.ended⟩
      · rw [if_pos hlate]
        omega
      · rw [hcluster, hleft, hrunning, hv, and_comm]
        simp [hlate, eq_comm]
  · have hstrike : s.strike r i = r := by
      unfold strike
      cases s.victim with
      | none => rfl
      | some v => exact if_neg htime
    have hiff : s.keys / 2 < i ↔ s.keys / 2 ≤ i := by omega
    rw [hstrike]
    refine ⟨⟨k, ?_, ha⟩, fun n => ?_, h.ended⟩
    · simpa only [hiff] using hk
    · rw [← hiff]
      exact h.running n

theorem mem_ids {j : Nat} (hj : j < w.count) : ⟨UInt64.ofNat (j + 1)⟩ ∈ w.ids :=
  List.mem_map_of_mem (f := fun j => (⟨UInt64.ofNat (j + 1)⟩ : NodeId)) (List.mem_range.2 hj)

/-- Somebody is there to write, unless the only node was taken out. -/
theorem exists_running {struck : Prop} [Decidable struck] (h : r.Stands w s i struck)
    (hs : Suits w s) (hn : 0 < s.nodes)
    (hleft : struck → s.nodes = 1 → s.victim ≠ some ⟨1⟩) :
    ∃ n, r.cluster.running.contains n = true := by
  have hcount := hs.count
  have hone : ⟨1⟩ ∈ w.ids := mem_ids (j := 0) (by omega)
  by_cases hv : s.victim = some ⟨1⟩
  · by_cases hnodes : s.nodes = 1
    · exact ⟨⟨1⟩, (h.running _).2 ⟨hone, fun hst => hleft hst hnodes⟩⟩
    · have htwo : ⟨2⟩ ∈ w.ids := mem_ids (j := 1) (by omega)
      refine ⟨⟨2⟩, (h.running _).2 ⟨htwo, fun _ he => ?_⟩⟩
      rw [hv] at he
      exact absurd he (by decide)
  · exact ⟨⟨1⟩, (h.running _).2 ⟨hone, fun _ => hv⟩⟩

theorem step_eq_ok (h : r.Stands w s i (s.keys / 2 < i)) (hs : Suits w s) (hn : 0 < s.nodes)
    (hi : i < s.keys) (hsize : s.keys < UInt64.size)
    (hleft : s.keys / 2 ≤ i → ¬ s.LeavesNobody) :
    ∃ r', s.step r i = .ok r' ∧ r'.Stands w s (i + 1) (s.keys / 2 < i + 1) := by
  have hstruck := stands_strike h hs hi
  obtain ⟨o, ho⟩ := exists_running hstruck hs hn fun hst hnodes hv =>
    hleft hst ⟨hnodes, hv, by omega⟩
  have hlen : 0 < (s.strike r i).cluster.nodeIds.length :=
    List.length_pos_of_mem (SortedSet.mem_toList.2 ho)
  obtain ⟨writer, hget⟩ : ∃ writer, (s.strike r i).cluster.nodeIds[i %
      (s.strike r i).cluster.nodeIds.length]? = some writer :=
    ⟨_, List.getElem?_eq_getElem (Nat.mod_lt i hlen)⟩
  have hrunning : (s.strike r i).cluster.running.contains writer = true :=
    SortedSet.mem_toList.1 (List.mem_of_getElem? hget)
  obtain ⟨k, hk, ha⟩ := hstruck.answered
  have hbudget := hs.budget
  obtain ⟨r', hr', ha', hsame, hended⟩ := Run.write_eq_ok ha (by split at hk <;> omega) hrunning
    (storesWithin_put hs.size (Nat.lt_trans hi hsize))
  have hiff : s.keys / 2 < i + 1 ↔ s.keys / 2 ≤ i := Nat.lt_succ_iff
  rw [step_eq, hget]
  refine ⟨r', hr', ⟨k + 2, ?_, ha'⟩, fun n => ?_, ?_⟩
  · simp only [hiff]
    omega
  · rw [hsame, hiff]
    exact hstruck.running n
  · rw [hended, hstruck.ended]

/-- A simulation after the first writes. -/
def writes (w : Setting) (s : Simulation) (i : Nat) : Except SimulationError Run :=
  (List.range i).foldlM s.step { cluster := .start w.count w.config s.chunkSize w.processors }

theorem writes_succ (w : Setting) (s : Simulation) (i : Nat) :
    writes w s (i + 1) = writes w s i >>= fun r => s.step r i := by
  unfold writes
  rw [List.range_succ, List.foldlM_append]
  congr 1
  funext r
  rw [List.foldlM_cons]
  cases s.step r i <;> rfl

/-- The keys are written one after the other, as long as there is somebody to write them. -/
theorem writes_eq_ok (hs : Suits w s) (hn : 0 < s.nodes) (hsize : s.keys < UInt64.size) :
    ∀ i, i ≤ s.keys → (s.keys / 2 < i → ¬ s.LeavesNobody) →
      ∃ r, writes w s i = .ok r ∧ r.Stands w s i (s.keys / 2 < i)
  | 0, _, _ => by
    refine ⟨_, rfl, ⟨0, by omega, Cluster.answered_start w s.chunkSize⟩, fun n => ?_, rfl⟩
    exact SortedSet.contains_ofList.trans
      ⟨fun hmem => ⟨hmem, fun hlt => absurd hlt (Nat.not_lt_zero _)⟩, And.left⟩
  | i + 1, hi, hleft => by
    obtain ⟨r, hr, h⟩ := writes_eq_ok hs hn hsize i (Nat.le_of_succ_le hi)
      fun hlt => hleft (Nat.lt_succ_of_lt hlt)
    obtain ⟨r', hr', h'⟩ := step_eq_ok h hs hn hi hsize fun hle => hleft (Nat.lt_succ_of_le hle)
    exact ⟨r', by rw [writes_succ, hr]; exact hr', h'⟩

/-- What cannot go on does not. -/
theorem writes_eq_error {j : Nat} {e : SimulationError} (h : writes w s i = .error e)
    (hij : i ≤ j) : writes w s j = .error e := by
  induction hij with
  | refl => exact h
  | step _ ih =>
    rw [writes_succ, ih]
    rfl

/-- When its only node was taken out a simulation cannot go on. -/
theorem step_eq_error (h : r.Stands w s i (s.keys / 2 < i)) (hs : Suits w s)
    (hleft : s.LeavesNobody) (hi : i = s.keys / 2) : s.step r i = .error .nobodyLeft := by
  obtain ⟨hnodes, hv, hkeys⟩ := hleft
  have hstruck := stands_strike h hs (by omega)
  have hnone : (s.strike r i).cluster.nodeIds = [] := by
    refine List.eq_nil_iff_forall_not_mem.2 fun o ho => ?_
    obtain ⟨hmem, hne⟩ := (hstruck.running o).1 (SortedSet.mem_toList.1 ho)
    have hids : w.ids = [⟨1⟩] := by
      rw [Setting.ids, hs.count, hnodes]
      rfl
    rw [hids, List.mem_singleton] at hmem
    exact hne (Nat.le_of_eq hi.symm) (hmem ▸ hv)
  rw [step_eq, hnone]
  rfl

/-! ## Simulations -/

def mode (s : Simulation) (config : Config) : SyncMode :=
  s.syncMode.getD config.atomic.writeSyncMode

/-- Where a simulation takes place. -/
def setting (s : Simulation) (config : Config) (hk : 2 * s.keys + 3 < UInt64.size)
    (hm : min (1 + config.atomic.backups.toNat) s.nodes ≤ Wire.nameable) : Setting where
  count := s.nodes
  config := config.override { writeSyncMode := some (s.mode config) }
  processors := Processor.none
  size := longest
  budget := 2 * s.keys + 1
  writable := by decide
  nameable := hm
  roomy := hk

section

variable (hk : 2 * s.keys + 3 < UInt64.size)
  (hm : min (1 + config.atomic.backups.toNat) s.nodes ≤ Wire.nameable)

theorem suits_setting : Suits (s.setting config hk hm) s :=
  ⟨rfl, Nat.le_refl _, Nat.le_refl _⟩

theorem run_eq : s.run config = writes (s.setting config hk hm) s s.keys >>= fun r =>
    .ok (report s.keys (s.mode config) { r with
      cluster := if s.mode config = .fullSync then r.cluster else r.cluster.settle }) := rfl

include hk hm

/-- A simulation with nodes to write from comes to its report. -/
theorem run_eq_ok (hn : 0 < s.nodes) (hleft : ¬ s.LeavesNobody) :
    ∃ r, s.run config = .ok r ∧ r.succeeded + r.failed = s.keys ∧ r.keys = s.keys ∧
      r.replicated ≤ s.keys := by
  obtain ⟨r, hr, h⟩ := writes_eq_ok (suits_setting hk hm) hn (by omega) s.keys (Nat.le_refl _)
    fun _ => hleft
  rw [run_eq hk hm, hr]
  exact ⟨_, rfl, h.ended, rfl,
    Nat.le_trans List.countP_le_length (Nat.le_of_eq List.length_range)⟩

/-- A simulation that takes out its only node has nobody left to write from. -/
theorem run_nobodyLeft (hleft : s.LeavesNobody) : s.run config = .error .nobodyLeft := by
  have ⟨hnodes, _, hkeys⟩ := hleft
  obtain ⟨r, hr, h⟩ := writes_eq_ok (suits_setting hk hm) (by omega) (by omega) (s.keys / 2)
    (by omega) fun hlt => absurd hlt (Nat.lt_irrefl _)
  have herror : writes (s.setting config hk hm) s (s.keys / 2 + 1) = .error .nobodyLeft := by
    rw [writes_succ, hr]
    exact step_eq_error h (suits_setting hk hm) hleft rfl
  rw [run_eq hk hm, writes_eq_error herror (show s.keys / 2 + 1 ≤ s.keys by omega)]
  rfl

end

/-- A simulation comes to its report and counts every key, unless it takes out its only node while
there are keys to be written.

The nodes take turns here as `Cluster.turnLength`, `Cluster.readingShare` and `patience` have it,
which is one way in which a runtime may schedule them.  Of these numbers the proof uses that a turn is
not empty (`Cluster.turnLength_pos`) and that a node reads more than one frame at a time
(`Cluster.one_lt_readingShare`), of `patience` nothing. -/
theorem run_accounts (hn : 0 < s.nodes) (hk : 2 * s.keys + 3 < UInt64.size)
    (hm : min (1 + config.atomic.backups.toNat) s.nodes ≤ Wire.nameable) :
    if s.LeavesNobody then s.run config = .error .nobodyLeft
    else ∃ r, s.run config = .ok r ∧ r.succeeded + r.failed = s.keys ∧ r.keys = s.keys ∧
      r.replicated ≤ s.keys := by
  split
  next hleft => exact run_nobodyLeft hk hm hleft
  next hleft => exact run_eq_ok hk hm hn hleft

/-- Three nodes write four keys, and one of the nodes is taken out after two of them. -/
theorem run_accounts_threeNodes :
    let s : Simulation := { nodes := 3, keys := 4, victim := some ⟨2⟩ }
    let config : Config := { nodeId := 0 }
    0 < s.nodes ∧ 2 * s.keys + 3 < UInt64.size ∧
      min (1 + config.atomic.backups.toNat) s.nodes ≤ Wire.nameable ∧ ¬ s.LeavesNobody ∧
      ∃ r, s.run config = .ok r ∧ r.succeeded + r.failed = 4 ∧ r.keys = 4 ∧ r.replicated ≤ 4 := by
  refine ⟨by decide, by decide, by decide, by decide, ?_⟩
  have h := @run_accounts { nodes := 3, keys := 4, victim := some ⟨2⟩ } { nodeId := 0 }
    (by decide) (by decide) (by decide)
  rwa [if_neg (by decide)] at h

/-- A node that is alone is taken out before it has written its only key. -/
theorem run_alone :
    let config : Config := { nodeId := 0 }
    config.fault? = none ∧
      ({ nodes := 1, keys := 1, victim := some ⟨1⟩ } : Simulation).run config =
        .error .nobodyLeft :=
  ⟨by decide, run_nobodyLeft (by decide) (by decide) ⟨rfl, rfl, by decide⟩⟩

end Simulation

end AtomicGrid
