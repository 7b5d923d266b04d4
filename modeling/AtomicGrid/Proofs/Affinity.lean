import AtomicGrid.Affinity
import AtomicGrid.Proofs.SortedMap

/-!
# How owners change with the members

A partition ranks the members by weight, and of two as heavy the greater number first, so that no
two nodes are level.  The owners are the first of the ranking.  A node that leaves takes its place
with it: the ranking of the others stays, and whoever came next moves up.

## Results

* `ranking_erase`: the ranking without a node is the ranking of the others.
* `chosen_erase_of_not_mem`, `chosen_erase_of_mem`: what the owners become when a node leaves.
* `chosen_add`: what they become when a node joins.
* `Affinity.settles_owners`: all this for the owners of any partition, whatever the weights are.
-/

set_option autoImplicit false

namespace AtomicGrid

/-! ## Rankings -/

section

variable {a b c : UInt64 × NodeId} {weight : NodeId → UInt64} {l : List (UInt64 × NodeId)}

theorem ranksBefore_iff : ranksBefore a b = true ↔
    (compareLex (compareOn (·.1)) (compareOn (·.2)) a b).isGE = true := by
  rw [ranksBefore, decide_eq_true_eq, Ordering.isGE_iff_ne_lt]

theorem ranksBefore_trans (h : ranksBefore a b = true) (h' : ranksBefore b c = true) :
    ranksBefore a c = true := by
  rw [ranksBefore_iff] at h h' ⊢
  exact Std.TransCmp.isGE_trans h h'

theorem ranksBefore_total (h : ¬ ranksBefore a b = true) : ranksBefore b a = true := by
  rw [ranksBefore, decide_eq_true_eq, Decidable.not_not] at h
  rw [ranksBefore, decide_eq_true_eq, Std.OrientedCmp.gt_of_lt h]
  exact nofun

/-- No two nodes are level. -/
theorem ranksBefore_antisymm (h : ranksBefore a b = true) (h' : ranksBefore b a = true) : a = b := by
  rw [ranksBefore_iff] at h h'
  have heq := Std.OrientedCmp.isGE_antisymm h h'
  rw [compareLex_eq_eq, compareOn, compareOn] at heq
  exact Prod.ext (Std.LawfulEqCmp.eq_of_compare heq.1) (Std.LawfulEqCmp.eq_of_compare heq.2)

theorem perm_rank (a : UInt64 × NodeId) (l : List (UInt64 × NodeId)) : (rank a l).Perm (a :: l) := by
  induction l with
  | nil => exact List.Perm.refl _
  | cons b bs ih =>
    unfold rank
    split
    · exact List.Perm.refl _
    · exact (ih.cons b).trans (List.Perm.swap a b bs)

theorem pairwise_rank (h : l.Pairwise fun x y => ranksBefore x y = true) :
    (rank a l).Pairwise fun x y => ranksBefore x y = true := by
  induction l with
  | nil => exact List.pairwise_singleton _ _
  | cons b bs ih =>
    obtain ⟨hb, hbs⟩ := List.pairwise_cons.1 h
    unfold rank
    split
    next hab =>
      refine List.pairwise_cons.2 ⟨fun x hx => ?_, h⟩
      rcases List.mem_cons.1 hx with rfl | hx
      · exact hab
      · exact ranksBefore_trans hab (hb x hx)
    next hab =>
      refine List.pairwise_cons.2 ⟨fun x hx => ?_, ih hbs⟩
      rcases List.mem_cons.1 ((perm_rank a bs).mem_iff.1 hx) with rfl | hx
      · exact ranksBefore_total hab
      · exact hb x hx

theorem ranked_spec (l : List (UInt64 × NodeId)) :
    (l.foldr rank []).Perm l ∧ (l.foldr rank []).Pairwise fun x y => ranksBefore x y = true := by
  induction l with
  | nil => exact ⟨List.Perm.refl _, List.Pairwise.nil⟩
  | cons a l ih => exact ⟨(perm_rank a _).trans (ih.1.cons a), pairwise_rank ih.2⟩

theorem perm_ranking (weight : NodeId → UInt64) (ns : List NodeId) :
    (ranking weight ns).Perm ns := by
  have h := (ranked_spec (ns.map fun n => (weight n, n))).1.map (·.2)
  rwa [List.map_map, show ((·.2) ∘ fun n => (weight n, n)) = id from rfl, List.map_id] at h

theorem pairwise_ranking (weight : NodeId → UInt64) (ns : List NodeId) :
    (ranking weight ns).Pairwise fun x y => ranksBefore (weight x, x) (weight y, y) = true := by
  obtain ⟨hp, hs⟩ := ranked_spec (ns.map fun n => (weight n, n))
  unfold ranking
  refine List.pairwise_map.2 (hs.imp_of_mem fun {x y} hx hy h => ?_)
  have hw {x : UInt64 × NodeId} (hx : x ∈ (ns.map fun n => (weight n, n)).foldr rank []) :
      (weight x.2, x.2) = x := by
    obtain ⟨n, -, rfl⟩ := List.mem_map.1 (hp.mem_iff.1 hx)
    rfl
  rwa [hw hx, hw hy]

theorem eq_ranking {ns ms : List NodeId} (hp : ms.Perm ns)
    (hs : ms.Pairwise fun x y => ranksBefore (weight x, x) (weight y, y) = true) :
    ms = ranking weight ns := by
  refine (hp.trans (perm_ranking weight ns).symm).eq_of_pairwise ?_ hs (pairwise_ranking weight ns)
  intro x y _ _ hxy hyx
  exact congrArg Prod.snd (ranksBefore_antisymm hxy hyx)

theorem ranking_erase (weight : NodeId → UInt64) (ns : List NodeId) (n : NodeId) :
    ranking weight (ns.erase n) = (ranking weight ns).erase n :=
  (eq_ranking ((perm_ranking weight ns).erase n)
    ((pairwise_ranking weight ns).sublist List.erase_sublist)).symm

end

/-! ## The first of a list -/

section

variable {α : Type} [DecidableEq α] {l : List α} {a : α} {k : Nat}

theorem take_erase_of_not_mem (h : a ∉ l.take k) : (l.erase a).take k = l.take k := by
  rcases Nat.le_total k l.length with hk | hk
  · have hsplit : l.erase a = l.take k ++ (l.drop k).erase a := by
      rw [← List.erase_append_right _ h, List.take_append_drop]
    rw [hsplit, List.take_append_of_le_length (Nat.le_of_eq (List.length_take_of_le hk).symm),
      List.take_take, Nat.min_self]
  · rw [List.take_of_length_le hk] at h
    rw [List.erase_of_not_mem h]

/-- Whoever comes next moves up. -/
theorem take_erase_of_mem (h : a ∈ l.take k) :
    (l.erase a).take k = (l.take k).erase a ++ (l.drop k).take 1 := by
  have hsplit : l.erase a = (l.take k).erase a ++ l.drop k := by
    rw [← List.erase_append_left _ h, List.take_append_drop]
  have hlen : ((l.take k).erase a).length = min k l.length - 1 := by
    rw [List.length_erase_of_mem h, List.length_take]
  have hpos : 0 < min k l.length := by
    rw [← List.length_take]
    exact List.length_pos_of_mem h
  rw [hsplit, List.take_append, List.take_of_length_le (by omega), hlen]
  rcases Nat.lt_or_ge k l.length with hk | hk
  · rw [Nat.min_eq_left (Nat.le_of_lt hk)] at hpos ⊢
    rw [show k - (k - 1) = 1 by omega]
  · rw [List.drop_eq_nil_of_le hk, List.take_nil, List.take_nil]

end

/-! ## Sets of nodes -/

namespace SortedSet

variable {κ : Type} [Ord κ] [Std.TransOrd κ] [Std.LawfulEqOrd κ] [DecidableEq κ] {s : SortedSet κ}
  {k : κ}

omit [Std.LawfulEqOrd κ] [DecidableEq κ] in
theorem nodup_toList (s : SortedSet κ) : s.toList.Nodup := SortedMap.keys_nodup s

omit [DecidableEq κ] in
theorem mem_toList : k ∈ s.toList ↔ s.contains k = true := SortedMap.mem_keys_iff

omit [Std.TransOrd κ] [Std.LawfulEqOrd κ] [DecidableEq κ] in
theorem length_toList (s : SortedSet κ) : s.toList.length = s.size := List.length_map _

theorem toList_erase (s : SortedSet κ) (k : κ) :
    toList (SortedMap.erase s k) = s.toList.erase k := by
  rw [(nodup_toList s).erase_eq_filter]
  show (s.entries.filter fun e => compare k e.1 ≠ .eq).map (·.1) =
    (s.entries.map (·.1)).filter (· != k)
  rw [List.filter_map]
  congr 2
  funext e
  by_cases hk : e.1 = k
  · simp [hk]
  · have hne : compare k e.1 ≠ .eq := fun h => hk (Std.LawfulEqCmp.eq_of_compare h).symm
    simp [hk, hne]

theorem erase_add (h : s.contains k = false) : SortedMap.erase (s.add k) k = s := by
  apply SortedMap.ext_get?
  intro k'
  rw [SortedMap.get?_erase_ite]
  split
  next hk =>
    subst hk
    exact (Option.not_isSome_iff_eq_none.1 (by rw [← SortedMap.contains, h]; simp)).symm
  next hk => exact SortedMap.get?_insert_of_ne _ _ hk

theorem add_of_contains (h : s.contains k = true) : s.add k = s := by
  obtain ⟨u, hu⟩ := Option.isSome_iff_exists.1 h
  exact SortedMap.insert_of_get? hu

theorem size_add (h : s.contains k = false) : SortedMap.size (s.add k) = s.size + 1 := by
  have hmem : k ∈ (s.add k).toList := mem_toList.2 (contains_add.2 (.inl rfl))
  have hlen : s.toList.length = (s.add k).toList.length - 1 := by
    rw [← List.length_erase_of_mem hmem, ← toList_erase, erase_add h]
  have hpos := List.length_pos_of_mem hmem
  rw [length_toList] at hlen hpos
  rw [length_toList] at hlen
  omega

end SortedSet

/-! ## Owners -/

/-- The first of the members by their weights: one, and as many again as there are to be backups. -/
def chosen (weight : NodeId → UInt64) (backups : UInt32) (s : NodeSet) : List NodeId :=
  (ranking weight s.toList).take (1 + backups.toNat)

variable {weight : NodeId → UInt64} {backups : UInt32} {s : NodeSet} {n : NodeId}

theorem nodup_ranking (weight : NodeId → UInt64) (s : NodeSet) :
    (ranking weight s.toList).Nodup :=
  (perm_ranking weight _).nodup_iff.2 (SortedSet.nodup_toList s)

theorem length_ranking (weight : NodeId → UInt64) (s : NodeSet) :
    (ranking weight s.toList).length = s.size :=
  (perm_ranking weight _).length_eq.trans (SortedSet.length_toList s)

theorem nodup_chosen (weight : NodeId → UInt64) (backups : UInt32) (s : NodeSet) :
    (chosen weight backups s).Nodup :=
  (nodup_ranking weight s).sublist (List.take_sublist _ _)

theorem contains_of_mem_chosen (h : n ∈ chosen weight backups s) : s.contains n = true :=
  SortedSet.mem_toList.1 ((perm_ranking weight _).mem_iff.1 (List.mem_of_mem_take h))

theorem length_chosen (weight : NodeId → UInt64) (backups : UInt32) (s : NodeSet) :
    (chosen weight backups s).length = min (1 + backups.toNat) s.size := by
  rw [chosen, List.length_take, length_ranking]

theorem chosen_erase (weight : NodeId → UInt64) (backups : UInt32) (s : NodeSet) (n : NodeId) :
    chosen weight backups (s.erase n) =
      ((ranking weight s.toList).erase n).take (1 + backups.toNat) := by
  rw [chosen, SortedSet.toList_erase, ranking_erase]

/-- A node that owns nothing leaves, and nothing changes. -/
theorem chosen_erase_of_not_mem (h : n ∉ chosen weight backups s) :
    chosen weight backups (s.erase n) = chosen weight backups s := by
  rw [chosen_erase]
  exact take_erase_of_not_mem h

/-- An owner leaves, and the next member, if there is one, joins the owners at the end. -/
theorem chosen_erase_of_mem (h : n ∈ chosen weight backups s) :
    ∃ next : List NodeId,
      chosen weight backups (s.erase n) = (chosen weight backups s).erase n ++ next ∧
        next.length = if 1 + backups.toNat < s.size then 1 else 0 := by
  refine ⟨((ranking weight s.toList).drop (1 + backups.toNat)).take 1, ?_, ?_⟩
  · rw [chosen_erase]
    exact take_erase_of_mem h
  · rw [List.length_take, List.length_drop, length_ranking]
    split
    · omega
    · omega

/-- A node joins.  If it comes to be an owner, the others keep their order, and the last of them
makes way if there would be too many. -/
theorem chosen_add (weight : NodeId → UInt64) (backups : UInt32) (s : NodeSet) (n : NodeId) :
    chosen weight backups (s.add n) = chosen weight backups s ∨
      ∃ front back, chosen weight backups s = front ++ back ∧
        chosen weight backups (s.add n) =
          front ++ n :: (if s.size < 1 + backups.toNat then back else back.dropLast) := by
  cases hs : s.contains n with
  | true =>
    rw [SortedSet.add_of_contains hs]
    exact .inl rfl
  | false =>
    -- the members before are those after, without the node
    have herase : SortedMap.erase (s.add n) n = s := SortedSet.erase_add hs
    by_cases hn : n ∈ chosen weight backups (s.add n)
    · right
      obtain ⟨next, hnext, hlen⟩ := chosen_erase_of_mem hn
      obtain ⟨front, rest, hsplit⟩ := List.append_of_mem hn
      have hfront : n ∉ front := by
        intro hmem
        have hnd := nodup_chosen weight backups (s.add n)
        rw [hsplit] at hnd
        exact (List.nodup_append.1 hnd).2.2 n hmem n List.mem_cons_self rfl
      rw [herase, hsplit, List.erase_append_right _ hfront, List.erase_cons_head,
        List.append_assoc] at hnext
      refine ⟨front, rest ++ next, hnext, ?_⟩
      rw [hsplit]
      rw [SortedSet.size_add hs] at hlen
      congr 2
      split
      next hroom =>
        rw [if_neg (by omega)] at hlen
        rw [List.length_eq_zero_iff.1 hlen, List.append_nil]
      next hfull =>
        rw [if_pos (by omega)] at hlen
        obtain ⟨x, rfl⟩ := List.length_eq_one_iff.1 hlen
        rw [List.dropLast_concat]
    · left
      rw [← chosen_erase_of_not_mem hn, herase]

namespace Affinity

/-- How the owners that `owners` gives to each set of members hang together. -/
structure Settles (backups : UInt32) (owners : NodeSet → List NodeId) : Prop where
  nodup : ∀ s, (owners s).Nodup
  members : ∀ s, ∀ n ∈ owners s, s.contains n = true
  length : ∀ s, (owners s).length = min (1 + backups.toNat) s.size
  /-- A node that is no owner leaves. -/
  bystander : ∀ s n, n ∉ owners s → owners (s.erase n) = owners s
  /-- An owner leaves. -/
  owner : ∀ s n, n ∈ owners s → ∃ next : List NodeId, owners (s.erase n) = (owners s).erase n ++ next ∧
    next.length = if 1 + backups.toNat < s.size then 1 else 0
  /-- The primary leaves. -/
  primary : ∀ s n backup rest, owners s = n :: backup :: rest →
    (owners (s.erase n)).head? = some backup
  /-- A node joins. -/
  joins : ∀ s n, owners (s.add n) = owners s ∨ ∃ front back, owners s = front ++ back ∧
    owners (s.add n) =
      front ++ n :: (if s.size < 1 + backups.toNat then back else back.dropLast)

theorem settles_chosen (weight : NodeId → UInt64) (backups : UInt32) :
    Settles backups (chosen weight backups) where
  nodup := nodup_chosen weight backups
  members _ _ := contains_of_mem_chosen
  length := length_chosen weight backups
  bystander _ _ := chosen_erase_of_not_mem
  owner _ _ := chosen_erase_of_mem
  primary s n backup rest h := by
    obtain ⟨next, hnext, -⟩ := chosen_erase_of_mem (h ▸ List.mem_cons_self)
    rw [hnext, h, List.erase_cons_head]
    rfl
  joins := chosen_add weight backups

/-- The owners of a partition are the first of the members by their weights there. -/
theorem owners_eq_chosen {t : Topology} {v : TopologyVersion} (h : t.nodesAt v = some s)
    (partitions backups partition : UInt32) :
    (ranked partitions backups).owners t partition v = chosen (nodeWeight partition) backups s := by
  unfold owners
  rw [h]
  rfl

/-- No owner of a key is listed twice, unless the owners are given so. -/
theorem nodup_keyOwners (a : Affinity) (h : ∀ owners, a = pinned owners → owners.Nodup)
    (t : Topology) (key : Key) (v : TopologyVersion) : (a.keyOwners t key v).Nodup := by
  cases a with
  | pinned owners => exact h owners rfl
  | ranked partitions backups =>
    unfold keyOwners
    cases hv : t.nodesAt v with
    | none =>
      unfold owners
      rw [hv]
      exact List.nodup_nil
    | some s =>
      rw [owners_eq_chosen hv]
      exact nodup_chosen _ backups s

/-- The owners of a partition are the first of the members by weight, and whatever the weights are,
a node that leaves or joins moves nobody but itself and the member at the end. -/
theorem settles_owners (partitions backups partition : UInt32) :
    (∀ weight, Settles backups (chosen weight backups)) ∧
      ∀ (t : Topology) (v : TopologyVersion) (s : NodeSet), t.nodesAt v = some s →
        (ranked partitions backups).owners t partition v =
          chosen (nodeWeight partition) backups s :=
  ⟨fun weight => settles_chosen weight backups,
    fun _ _ _ h => owners_eq_chosen h partitions backups partition⟩

end Affinity

end AtomicGrid
