import AtomicGrid.Proofs.Topology
import Mathlib.Data.List.DropRight

/-!
# What a topology remembers

Six things happen to a topology.  Those that change the members, or their assignment, bring a
version above all that came before, and its members go on record.  The record has room for
`historyLimit` versions, and the oldest makes way for the next.

A version that did not come up itself is looked up as the newest one on record before it.  As new
versions come in above and old ones go out below, what is found for a version that is not ahead of
the topology is the same for as long as anything is found.

## Results

* `Topology.Keeps.change`: what one change makes of the record.
* `Topology.members_run`: the members that a change puts on record.
* `Topology.nodesAt_change`: a change does not alter what is found, unless it ends it.
* `Topology.history_run`: what is found after any changes, and ever after.
-/

set_option autoImplicit false

namespace AtomicGrid

inductive Change where
  | beginExchange (members : List NodeId)
  | completeExchange
  | bumpMinor
  | nodeLeft (n : NodeId)
  | nodeJoined (n : NodeId)
  | stop
  deriving DecidableEq, Repr

/-- The change brings a version of its own. -/
def Change.renews : Change → Bool
  | .completeExchange | .stop => false
  | .beginExchange _ | .bumpMinor | .nodeLeft _ | .nodeJoined _ => true

namespace Topology

def change (t : Topology) : Change → Topology
  | .beginExchange members => t.beginExchange members
  | .completeExchange => t.completeExchange
  | .bumpMinor => t.bumpMinor
  | .nodeLeft n => t.nodeLeft n
  | .nodeJoined n => t.nodeJoined n
  | .stop => t.stop

def run (t : Topology) (cs : List Change) : Topology := cs.foldl change t

/-- The number that a change counts up has room. -/
def HasRoom (t : Topology) : Change → Prop
  | .bumpMinor => t.version.minor.toNat + 1 < UInt32.size
  | .beginExchange _ | .nodeLeft _ | .nodeJoined _ => t.version.major.toNat + 1 < UInt64.size
  | .completeExchange | .stop => True

instance (t : Topology) : ∀ c, Decidable (t.HasRoom c)
  | .bumpMinor => inferInstanceAs (Decidable (_ < _))
  | .beginExchange _ | .nodeLeft _ | .nodeJoined _ => inferInstanceAs (Decidable (_ < _))
  | .completeExchange | .stop => inferInstanceAs (Decidable True)

/-- No number of a version overflows. -/
def Roomy (t : Topology) : List Change → Prop
  | [] => True
  | c :: cs => t.HasRoom c ∧ (t.change c).Roomy cs

instance decidableRoomy : ∀ (cs : List Change) (t : Topology), Decidable (t.Roomy cs)
  | [], _ => inferInstanceAs (Decidable True)
  | c :: cs, t =>
    have := decidableRoomy cs (t.change c)
    inferInstanceAs (Decidable (_ ∧ _))

/-- The versions that changes bring, each with its members, the oldest first. -/
def renewals (t : Topology) : List Change → List (TopologyVersion × NodeSet)
  | [] => []
  | c :: cs =>
    let t' := t.change c
    if c.renews then (t'.version, t'.nodes) :: t'.renewals cs else t'.renewals cs

/-- All versions since the first one, each with its members. -/
def versions (nodes : List NodeId) (cs : List Change) : List (TopologyVersion × NodeSet) :=
  ((start nodes).version, (start nodes).nodes) :: (start nodes).renewals cs

variable {t t' : Topology} {c : Change} {v : TopologyVersion}
  {rs : List (TopologyVersion × NodeSet)}

theorem run_append (t : Topology) (cs cs' : List Change) : t.run (cs ++ cs') = (t.run cs).run cs' :=
  List.foldl_append

theorem roomy_append (cs cs' : List Change) : ∀ t : Topology,
    t.Roomy (cs ++ cs') ↔ t.Roomy cs ∧ (t.run cs).Roomy cs' := by
  induction cs with
  | nil => exact fun t => (true_and _).symm.to_iff
  | cons c cs ih =>
    intro t
    show t.HasRoom c ∧ (t.change c).Roomy (cs ++ cs') ↔
      (t.HasRoom c ∧ (t.change c).Roomy cs) ∧ ((t.change c).run cs).Roomy cs'
    rw [ih, and_assoc]

/-! ## One change -/

/-- What a change does to the versions of a topology. -/
inductive Changed (t t' : Topology) : Bool → Prop
  /-- The version stays. -/
  | same (hv : t'.version = t.version) (hn : t'.nodes = t.nodes) (hh : t'.history = t.history) :
      Changed t t' false
  /-- A version comes up, and goes on record. -/
  | renewed (hv : t.version < t'.version)
      (hh : t'.history = (t.history.insert t'.version t'.nodes).keepLast historyLimit) :
      Changed t t' true

theorem changed_change (h : t.HasRoom c) : Changed t (t.change c) c.renews := by
  cases c with
  | beginExchange members => exact .renewed (TopologyVersion.lt_nextMajor h) rfl
  | completeExchange => exact .same rfl rfl rfl
  | bumpMinor => exact .renewed (TopologyVersion.lt_nextMinor h) rfl
  | nodeLeft n => exact .renewed (TopologyVersion.lt_nextMajor h) rfl
  | nodeJoined n => exact .renewed (TopologyVersion.lt_nextMajor h) rfl
  | stop => exact .same rfl rfl rfl

/-- Whom a change makes or leaves a member: the nodes it names, or those there were, but for the one
that leaves and with the one that joins. -/
def Includes (t : Topology) (n : NodeId) : Change → Prop
  | .beginExchange members => n ∈ members
  | .nodeLeft m => t.isAlive n = true ∧ n ≠ m
  | .nodeJoined m => t.isAlive n = true ∨ n = m
  | .completeExchange | .bumpMinor | .stop => t.isAlive n = true

theorem isAlive_change (t : Topology) (c : Change) (n : NodeId) :
    (t.change c).isAlive n = true ↔ t.Includes n c := by
  have hmem : n ∈ t.nodes.toList ↔ t.isAlive n = true := SortedMap.mem_keys_iff
  cases c with
  | beginExchange members => exact SortedSet.contains_ofList
  | nodeLeft m =>
    refine SortedSet.contains_ofList.trans ?_
    rw [List.mem_filter, decide_eq_true_eq, hmem]
    exact Iff.rfl
  | nodeJoined m =>
    refine SortedSet.contains_ofList.trans ?_
    rw [List.mem_append, List.mem_singleton, hmem]
    exact Iff.rfl
  | completeExchange | bumpMinor | stop => exact Iff.rfl

/-! ## The record -/

/-- The record has the last of the versions `rs`, and the topology is at the very last. -/
structure Keeps (t : Topology) (rs : List (TopologyVersion × NodeSet)) : Prop where
  entries : t.history.entries = rs.rtake historyLimit
  ascending : rs.Pairwise fun a b => a.1 < b.1
  last : rs.getLast? = some (t.version, t.nodes)

theorem keeps_start (nodes : List NodeId) :
    (start nodes).Keeps [((start nodes).version, (start nodes).nodes)] where
  entries := rfl
  ascending := List.pairwise_singleton _ _
  last := rfl

/-- The version of the topology is the greatest. -/
theorem Keeps.le_version (h : t.Keeps rs) {e : TopologyVersion × NodeSet} (he : e ∈ rs) :
    e.1 ≤ t.version :=
  ((SortedMap.getLast?_eq_some_iff_of_sorted h.ascending).1 h.last).2 e he

theorem Keeps.mem (h : t.Keeps rs) {e : TopologyVersion × NodeSet} (he : e ∈ t.history.entries) :
    e ∈ rs := by
  rw [h.entries] at he
  exact List.mem_of_mem_drop he

/-- The topology is on record as it is. -/
theorem Keeps.nodesAt_version (h : t.Keeps rs) : t.nodesAt t.version = some t.nodes := by
  apply SortedMap.getLE?_of_get?
  rw [SortedMap.get?_eq_some_iff, h.entries]
  obtain ⟨older, hrs⟩ := List.getLast?_eq_some_iff.1 h.last
  rw [hrs]
  have hlast := List.rtake_concat_succ older (historyLimit - 1) (t.version, t.nodes)
  exact hlast ▸ List.mem_append_right _ List.mem_cons_self

theorem rtake_rtake {α : Type} (l : List α) (m n : Nat) : (l.rtake m).rtake n = l.rtake (min n m) := by
  simp only [List.rtake_eq_reverse_take_reverse, List.reverse_reverse, List.take_take]

theorem Keeps.change (h : t.Keeps rs) (hc : t.HasRoom c) :
    (t.change c).Keeps (if c.renews then rs ++ [((t.change c).version, (t.change c).nodes)]
      else rs) := by
  have hchange := changed_change hc
  generalize t.change c = t' at hchange ⊢
  generalize c.renews = renews at hchange ⊢
  cases hchange with
  | same hv hn hh =>
    constructor
    · rw [hh]
      exact h.entries
    · exact h.ascending
    · rw [hv, hn]
      exact h.last
  | renewed hv hh =>
    have hnew : ∀ e ∈ rs, e.1 < t'.version :=
      fun e he => TopologyVersion.lt_of_le_of_lt (h.le_version he) hv
    constructor
    · rw [hh]
      show ((t.history.insert t'.version t'.nodes).entries).rtake historyLimit =
        (rs ++ [(t'.version, t'.nodes)]).rtake historyLimit
      rw [SortedMap.entries_insert_of_last (fun e he => hnew e (h.mem he)), h.entries]
      show (rs.rtake historyLimit ++ [(t'.version, t'.nodes)]).rtake (63 + 1) =
        (rs ++ [(t'.version, t'.nodes)]).rtake (63 + 1)
      rw [List.rtake_concat_succ, List.rtake_concat_succ, rtake_rtake]
      rfl
    · refine List.pairwise_append.2 ⟨h.ascending, List.pairwise_singleton _ _, ?_⟩
      intro e he e' he'
      rw [List.mem_singleton.1 he']
      exact hnew e he
    · exact List.getLast?_concat

theorem Keeps.run (cs : List Change) : ∀ {t : Topology} {rs : List (TopologyVersion × NodeSet)},
    t.Keeps rs → t.Roomy cs → (t.run cs).Keeps (rs ++ t.renewals cs) := by
  induction cs with
  | nil =>
    intro t rs h _
    rw [renewals, List.append_nil]
    exact h
  | cons c cs ih =>
    intro t rs h hr
    have hc := h.change hr.1
    show ((t.change c).run cs).Keeps _
    rw [renewals]
    cases hrenews : c.renews with
    | true =>
      rw [hrenews] at hc
      have hcs := ih hc hr.2
      rw [if_pos rfl, List.append_assoc] at hcs
      exact hcs
    | false =>
      rw [hrenews] at hc
      exact ih hc hr.2

/-! ## What is found -/

/-- A change does not alter what is found for a version that is not ahead, unless it ends it. -/
theorem nodesAt_change (h : t.Keeps rs) (hc : t.HasRoom c) (hv : v ≤ t.version) :
    (t.change c).nodesAt v = t.nodesAt v ∨ (t.change c).nodesAt v = none := by
  have hchange := changed_change hc
  generalize t.change c = t' at hchange ⊢
  generalize c.renews = renews at hchange
  cases hchange with
  | same hv' hn hh =>
    left
    unfold nodesAt
    rw [hh]
  | renewed hv' hh =>
    unfold nodesAt
    rw [hh]
    apply SortedMap.getLE?_keepLast_insert
    · exact fun e he => TopologyVersion.lt_of_le_of_lt (h.le_version (h.mem he)) hv'
    · exact TopologyVersion.lt_of_le_of_lt hv hv'

theorem version_le_change (hc : t.HasRoom c) : t.version ≤ (t.change c).version := by
  have hchange := changed_change hc
  generalize t.change c = t' at hchange ⊢
  generalize c.renews = renews at hchange
  cases hchange with
  | same hv hn hh =>
    rw [hv]
    exact TopologyVersion.le_refl _
  | renewed hv hh => exact TopologyVersion.le_of_lt hv

/-- What is found for a version stays the same until `k` of the changes `cs` were made, and then
nothing is found. -/
def Lasts (t : Topology) (cs : List Change) (v : TopologyVersion) (k : Nat) : Prop :=
  ∀ j ≤ cs.length, (t.run (cs.take j)).nodesAt v = if j < k then t.nodesAt v else none

/-- What is found for a version that is not ahead is never replaced by anything else. -/
theorem Keeps.exists_lasts (cs : List Change) : ∀ {t : Topology}
    {rs : List (TopologyVersion × NodeSet)}, t.Keeps rs → t.Roomy cs → v ≤ t.version →
      ∃ k, t.Lasts cs v k := by
  induction cs with
  | nil =>
    intro t rs _ _ _
    refine ⟨1, fun j hj => ?_⟩
    obtain rfl : j = 0 := Nat.le_zero.1 hj
    rfl
  | cons c cs ih =>
    intro t rs h hr hv
    obtain ⟨k, hk⟩ := ih (h.change hr.1) hr.2
      (TopologyVersion.le_trans hv (version_le_change hr.1))
    have hcases : ∀ j ≤ cs.length, (t.run ((c :: cs).take (j + 1))).nodesAt v =
        if j < k then (t.change c).nodesAt v else none := hk
    rcases nodesAt_change h hr.1 hv with hsame | hnone
    · refine ⟨k + 1, fun j hj => ?_⟩
      cases j with
      | zero => rfl
      | succ j =>
        rw [hcases j (Nat.le_of_succ_le_succ hj), hsame]
        simp only [Nat.add_lt_add_iff_right]
    · refine ⟨1, fun j hj => ?_⟩
      cases j with
      | zero => rfl
      | succ j =>
        rw [hcases j (Nat.le_of_succ_le_succ hj), hnone, ite_self, if_neg (by omega)]

/-- The owners of a partition are the same as long as the members are found, and then nobody. -/
theorem owners_of_nodesAt (h : t'.nodesAt v = t.nodesAt v ∨ t'.nodesAt v = none) (a : Affinity)
    (partition : UInt32) :
    a.owners t' partition v = a.owners t partition v ∨ a.owners t' partition v = [] := by
  cases a with
  | pinned owners => exact .inl rfl
  | ranked partitions backups =>
    unfold Affinity.owners
    rcases h with h | h
    · rw [h]
      exact .inl rfl
    · rw [h]
      exact .inr rfl

/-- What a topology finds for a version, when the versions `rs` have come up. -/
structure Remembers (t : Topology) (rs : List (TopologyVersion × NodeSet)) : Prop where
  ascending : rs.Pairwise fun a b => a.1 < b.1
  nodesAt_iff : ∀ v members, t.nodesAt v = some members ↔ ∃ w, (w, members) ∈ rs.rtake 64 ∧
    w ≤ v ∧ ∀ e ∈ rs.rtake 64, e.1 ≤ v → e.1 ≤ w
  nodesAt_none_iff : ∀ v, t.nodesAt v = none ↔ ∀ e ∈ rs.rtake 64, v < e.1
  nodesAt_version : t.nodesAt t.version = some t.nodes

theorem Keeps.remembers (h : t.Keeps rs) : t.Remembers rs where
  ascending := h.ascending
  nodesAt_iff v members := by
    show t.history.getLE? v = some members ↔ _
    rw [SortedMap.getLE?_eq_some_iff, h.entries]
    rfl
  nodesAt_none_iff v := by
    show t.history.getLE? v = none ↔ _
    rw [SortedMap.getLE?_eq_none_iff, h.entries]
    refine forall₂_congr fun e _ => ?_
    exact @Std.OrientedCmp.gt_iff_lt _ compare _ _ _
  nodesAt_version := h.nodesAt_version

/-- After any changes, the next one is found with the members it makes or leaves. -/
theorem members_run (nodes : List NodeId) (cs : List Change) (c : Change)
    (h : (start nodes).Roomy (cs ++ [c])) :
    let t := (start nodes).run cs
    ∃ members : NodeSet, (t.change c).nodesAt (t.change c).version = some members ∧
      ∀ n, members.contains n = true ↔ t.Includes n c := by
  intro t
  obtain ⟨hr, hc, -⟩ := (roomy_append cs [c] _).1 h
  have hk : t.Keeps (versions nodes cs) := (keeps_start nodes).run cs hr
  exact ⟨_, (hk.change hc).nodesAt_version, isAlive_change t c⟩

/-- The members found for a version are those of the newest of the last versions that is not after
it, and whatever is found for a version that is not ahead stays until nothing is found. -/
theorem history_run (nodes : List NodeId) (cs cs' : List Change)
    (h : (start nodes).Roomy (cs ++ cs')) :
    let t := (start nodes).run cs
    t.Remembers (versions nodes cs) ∧
      ∀ v ≤ t.version, (∃ k, t.Lasts cs' v k) ∧ ∀ (a : Affinity) (partition : UInt32),
        a.owners (t.run cs') partition v = a.owners t partition v ∨
          a.owners (t.run cs') partition v = [] := by
  intro t
  obtain ⟨hr, hr'⟩ := (roomy_append cs cs' _).1 h
  have hk : t.Keeps (versions nodes cs) := (keeps_start nodes).run cs hr
  refine ⟨hk.remembers, fun v hv => ?_⟩
  obtain ⟨k, hl⟩ := hk.exists_lasts cs' hr' hv
  refine ⟨⟨k, hl⟩, owners_of_nodesAt ?_⟩
  have hend := hl cs'.length (Nat.le_refl _)
  rw [List.take_length] at hend
  rw [hend]
  split
  · exact .inl rfl
  · exact .inr rfl

/-- A node has left. -/
def afterDeparture : Topology := (start [⟨1⟩, ⟨2⟩, ⟨3⟩]).run [.nodeLeft ⟨3⟩]

/-- The first members are remembered for 62 changes of the assignment, and forgotten with the next. -/
theorem history_sixtyThreeBumps :
    let bumps := List.replicate 63 Change.bumpMinor
    afterDeparture.nodesAt ⟨1, 0⟩ = some (SortedSet.ofList [⟨1⟩, ⟨2⟩, ⟨3⟩]) ∧
      (afterDeparture.run bumps).nodesAt ⟨1, 0⟩ = none ∧
        ∃ k, afterDeparture.Lasts bumps ⟨1, 0⟩ k := by
  intro bumps
  have h := history_run [⟨1⟩, ⟨2⟩, ⟨3⟩] [.nodeLeft ⟨3⟩] bumps (by decide +kernel)
  exact ⟨by decide +kernel, by decide +kernel, (h.2 ⟨1, 0⟩ (by decide +kernel)).1⟩

end Topology

end AtomicGrid
