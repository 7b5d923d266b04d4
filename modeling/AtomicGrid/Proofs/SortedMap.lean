import AtomicGrid.SortedMap
import Mathlib.Algebra.GroupWithZero.Nat

/-!
# More about finite maps

## Results

* `SortedMap.ofList_entries`: a map is the map of its entries.
* `SortedMap.get?_mapValues`, `SortedMap.keys_mapValues`: applying a function to every value.
* `SortedMap.get?_keepLast`: a key is kept unless too many come after it.
* `SortedMap.getLE?_eq_some_iff`, `getLE?_keepLast_insert`: what is found below a key, and that what
  comes later cannot change it.
* `SortedSet.contains_add`, `contains_erase`, `contains_ofList`: membership in sets.
-/

set_option autoImplicit false

namespace AtomicGrid.SortedMap

variable {κ α : Type} [Ord κ]

theorem findEntry_of_forall_lt {l : List (κ × α)} {k : κ} (h : ∀ e ∈ l, compare k e.1 = .lt) :
    findEntry k l = none := by
  induction l with
  | nil => rfl
  | cons a rest ih =>
    have ha : compare k a.1 = .lt := h a List.mem_cons_self
    simp [findEntry, ha, ih fun e he => h e (List.mem_cons_of_mem _ he)]

variable [Std.TransOrd κ] [Std.LawfulEqOrd κ]

omit [Std.LawfulEqOrd κ] in
/-- A key that the order puts before the first entry is not in the rest either. -/
theorem findEntry_rest_of_lt {a : κ × α} {rest : List (κ × α)} {k : κ}
    (hs : (a :: rest).Pairwise fun a b => compare a.1 b.1 = .lt) (hk : compare k a.1 = .lt) :
    findEntry k rest = none :=
  findEntry_of_forall_lt fun _ he => Std.TransCmp.lt_trans hk (List.rel_of_pairwise_cons hs he)

/-- Inserting sorted entries puts them in front of what was there. -/
theorem get?_insertMany (k : κ) :
    ∀ (es : List (κ × α)) (m : SortedMap κ α), (es.Pairwise fun a b => compare a.1 b.1 = .lt) →
      (m.insertMany es).get? k = (findEntry k es).or (m.get? k)
  | [], m, _ => rfl
  | a :: es, m, h => by
    obtain ⟨ha, hr⟩ := List.pairwise_cons.1 h
    have ih := get?_insertMany k es (m.insert a.1 a.2) hr
    rw [insertMany, List.foldl_cons, ← insertMany, ih, get?_insert, findEntry]
    split
    next hk =>
      obtain rfl := Std.LawfulEqCmp.eq_of_compare hk
      simp [findEntry_of_forall_lt ha]
    next => rfl

theorem ofList_entries (m : SortedMap κ α) : ofList m.entries = m := by
  refine ext_get? fun k => ?_
  rw [ofList, get?_insertMany k m.entries ∅ m.sorted, get?_empty, Option.or_none]
  rfl

omit [Std.LawfulEqOrd κ] in
/-- Rebinding a key changes a count by what it says of the old and of the new value. -/
theorem countP_insertEntry (p : α → Bool) {k : κ} {old : α} (v : α) :
    ∀ {l : List (κ × α)}, (l.Pairwise fun a b => compare a.1 b.1 = .lt) →
      findEntry k l = some old →
      (insertEntry k v l).countP (fun e => p e.2) + (if p old then 1 else 0) =
        l.countP (fun e => p e.2) + (if p v then 1 else 0)
  | [], _, h => by simp [findEntry] at h
  | (k', v') :: rest, hs, h => by
    unfold insertEntry
    split
    next hk =>
      simp [findEntry, hk, findEntry_rest_of_lt hs hk] at h
    next hk =>
      have : v' = old := by simpa [findEntry, hk] using h
      subst this
      simp only [List.countP_cons]
      omega
    next hk =>
      have hrest : findEntry k rest = some old := by simpa [findEntry, hk] using h
      have ih := countP_insertEntry p v hs.of_cons hrest
      simp only [List.countP_cons]
      omega

/-- The sum of what `f` says of the values. -/
def total (f : α → Nat) (m : SortedMap κ α) : Nat := (m.values.map f).sum

omit [Std.LawfulEqOrd κ] in
/-- Rebinding a key changes a sum by what it says of the old value, if any, and of the new one. -/
theorem total_insert (f : α → Nat) (m : SortedMap κ α) (k : κ) (v : α) :
    (m.insert k v).total f + (m.get? k).elim 0 f = m.total f + f v := by
  have h (l : List (κ × α)) (hs : l.Pairwise fun a b => compare a.1 b.1 = .lt) :
      (((insertEntry k v l).map (·.2)).map f).sum + (findEntry k l).elim 0 f =
        ((l.map (·.2)).map f).sum + f v := by
    induction l with
    | nil => simp [insertEntry, findEntry]
    | cons a rest ih =>
      unfold insertEntry
      split
      next hk =>
        simp only [findEntry, hk, findEntry_rest_of_lt hs hk, reduceCtorEq, if_false,
          Option.elim_none, List.map_cons, List.sum_cons]
        omega
      next hk =>
        simp only [findEntry, hk, if_true, Option.elim_some, List.map_cons, List.sum_cons]
        omega
      next hk =>
        have := ih hs.of_cons
        simp only [findEntry, hk, reduceCtorEq, if_false, List.map_cons, List.sum_cons]
        omega
  exact h m.entries m.sorted

theorem keys_insert_of_contains {m : SortedMap κ α} {k : κ} {old : α} (h : m.get? k = some old)
    (v : α) : (m.insert k v).keys = m.keys := by
  have hk (l : List (κ × α)) (hs : l.Pairwise fun a b => compare a.1 b.1 = .lt)
      (h : findEntry k l = some old) : (insertEntry k v l).map (·.1) = l.map (·.1) := by
    induction l with
    | nil => simp [findEntry] at h
    | cons a rest ih =>
      unfold insertEntry
      split
      next hk =>
        simp [findEntry, hk, findEntry_rest_of_lt hs hk] at h
      next hk =>
        obtain rfl := Std.LawfulEqCmp.eq_of_compare hk
        rfl
      next hk =>
        rw [List.map_cons, ih hs.of_cons (by simpa [findEntry, hk] using h), List.map_cons]
  exact hk m.entries m.sorted h

omit [Std.TransOrd κ] in
theorem get?_mapValues {β : Type} (m : SortedMap κ α) (f : κ → α → β) (k : κ) :
    (m.mapValues f).get? k = (m.get? k).map (f k) := by
  have h (l : List (κ × α)) :
      findEntry k (l.map fun e => (e.1, f e.1 e.2)) = (findEntry k l).map (f k) := by
    induction l with
    | nil => rfl
    | cons a rest ih =>
      rw [List.map_cons, findEntry, findEntry]
      split
      next hk =>
        obtain rfl := Std.LawfulEqCmp.eq_of_compare hk
        rfl
      next => exact ih
  exact h m.entries

theorem get?_insert_ite [DecidableEq κ] (m : SortedMap κ α) (k k' : κ) (v : α) :
    (m.insert k v).get? k' = if k' = k then some v else m.get? k' := by
  split
  next h => rw [h, get?_insert_self]
  next h => exact get?_insert_of_ne m v h

theorem get?_modify_ite [DecidableEq κ] (m : SortedMap κ α) (k k' : κ) (f : α → α) :
    (m.modify k f).get? k' = if k' = k then (m.get? k').map f else m.get? k' := by
  unfold modify
  split
  next v hv =>
    rw [get?_insert_ite]
    split
    next h => rw [h, hv, Option.map_some]
    next => rfl
  next hv =>
    split
    next h => rw [h, hv, Option.map_none]
    next => rfl

omit [Std.LawfulEqOrd κ] in
theorem total_modify (f : α → Nat) {m : SortedMap κ α} {k : κ} {v : α} (h : m.get? k = some v)
    (g : α → α) : (m.modify k g).total f + f v = m.total f + f (g v) := by
  have := total_insert f m k (g v)
  rw [h] at this
  rw [modify, h]
  exact this

theorem contains_modify [DecidableEq κ] (m : SortedMap κ α) (k k' : κ) (f : α → α) :
    (m.modify k f).contains k' = m.contains k' := by
  unfold contains
  rw [get?_modify_ite]
  split
  next => exact Option.isSome_map
  next => rfl

theorem get?_erase_ite [DecidableEq κ] (m : SortedMap κ α) (k k' : κ) :
    (m.erase k).get? k' = if k' = k then none else m.get? k' := by
  split
  next h => rw [h, get?_erase_self]
  next h => exact get?_erase_of_ne m h

theorem insert_insert (m : SortedMap κ α) (k : κ) (v w : α) :
    (m.insert k v).insert k w = m.insert k w := by
  refine ext_get? fun k' => ?_
  rw [get?_insert, get?_insert, get?_insert]
  split <;> rfl

/-- Inserting what a map holds changes nothing. -/
theorem insert_of_get? [DecidableEq κ] {m : SortedMap κ α} {k : κ} {v : α}
    (h : m.get? k = some v) : m.insert k v = m := by
  apply ext_get?
  intro k'
  rw [get?_insert_ite]
  split
  next hk => rw [hk, h]
  next => rfl

theorem modify_modify [DecidableEq κ] (m : SortedMap κ α) (k : κ) (f g : α → α) :
    (m.modify k f).modify k g = m.modify k fun v => g (f v) := by
  refine ext_get? fun k' => ?_
  simp only [get?_modify_ite]
  split
  · exact Option.map_map _ _ _
  · rfl

theorem modify_comm [DecidableEq κ] (m : SortedMap κ α) {k k' : κ} (h : k ≠ k') (f g : α → α) :
    (m.modify k f).modify k' g = (m.modify k' g).modify k f := by
  refine ext_get? fun k₁ => ?_
  simp only [get?_modify_ite]
  by_cases h₁ : k₁ = k
  · subst h₁
    simp only [if_neg h, if_true]
  · simp only [if_neg h₁]

/-- Rebinding a key to what it has changes nothing. -/
theorem modify_eq_self [DecidableEq κ] {m : SortedMap κ α} {k : κ} {f : α → α}
    (h : ∀ v, m.get? k = some v → f v = v) : m.modify k f = m := by
  unfold modify
  split
  next v hv =>
    rw [h v hv]
    exact insert_of_get? hv
  next => rfl

theorem erase_erase [DecidableEq κ] (m : SortedMap κ α) (k : κ) :
    (m.erase k).erase k = m.erase k := by
  apply ext_get?
  intro k'
  rw [get?_erase_ite, get?_erase_ite]
  split <;> rfl

theorem isEmpty_iff {m : SortedMap κ α} : m.isEmpty = true ↔ ∀ k, m.get? k = none := by
  constructor
  · intro h k
    have he : m.entries = [] := by simpa [isEmpty] using h
    simp [get?, he, findEntry]
  · intro h
    have : m = ∅ := ext_get? fun k => by rw [h k, get?_empty]
    rw [this]
    rfl

theorem not_isEmpty_of_get? {m : SortedMap κ α} {k : κ} {v : α} (h : m.get? k = some v) :
    m.isEmpty = false := by
  rw [Bool.eq_false_iff, ne_eq, isEmpty_iff]
  intro hall
  rw [hall k] at h
  cases h

theorem exists_get?_of_not_isEmpty {m : SortedMap κ α} (h : m.isEmpty = false) :
    ∃ k v, m.get? k = some v := by
  obtain ⟨e, he⟩ : ∃ e, e ∈ m.entries := by
    cases hm : m.entries with
    | nil => simp [isEmpty, hm] at h
    | cons e es => exact ⟨e, List.mem_cons_self⟩
  exact ⟨e.1, e.2, get?_eq_some_iff.2 he⟩

omit [Std.TransOrd κ] [Std.LawfulEqOrd κ] in
theorem keys_mapValues {β : Type} (m : SortedMap κ α) (f : κ → α → β) :
    (m.mapValues f).keys = m.keys := by
  simp [keys, mapValues]

/-! ## The keys after a key -/

omit [Std.TransOrd κ] [Std.LawfulEqOrd κ] in
/-- The number of keys after `k`. -/
def after (m : SortedMap κ α) (k : κ) : Nat := m.entries.countP fun e => compare k e.1 = .lt

omit [Std.LawfulEqOrd κ] in
theorem after_insert_le (m : SortedMap κ α) (k k' : κ) (v : α) :
    (m.insert k' v).after k ≤ m.after k + 1 := by
  have h (l : List (κ × α)) : (insertEntry k' v l).countP (fun e => compare k e.1 = .lt) ≤
      l.countP (fun e => compare k e.1 = .lt) + 1 := by
    induction l with
    | nil =>
      refine Nat.le_trans List.countP_le_length ?_
      exact Nat.le_refl 1
    | cons a rest ih =>
      obtain ⟨k₁, v₁⟩ := a
      have hle (b : κ × α) (l : List (κ × α)) : l.countP (fun e => compare k e.1 = .lt) ≤
          (b :: l).countP (fun e => compare k e.1 = .lt) ∧
            (b :: l).countP (fun e => compare k e.1 = .lt) ≤
              l.countP (fun e => compare k e.1 = .lt) + 1 := by
        rw [List.countP_cons]
        split <;> omega
      unfold insertEntry
      split
      · exact (hle _ _).2
      · exact Nat.le_trans (hle _ _).2 (Nat.add_le_add_right (hle _ _).1 1)
      · rw [List.countP_cons, List.countP_cons]
        omega
  exact h m.entries

omit [Std.LawfulEqOrd κ] in
theorem after_insert_self {m : SortedMap κ α} {k : κ}
    (h : ∀ e ∈ m.entries, compare k e.1 ≠ .lt) (v : α) : (m.insert k v).after k = 0 := by
  unfold after
  rw [List.countP_eq_zero]
  intro e he
  rw [decide_eq_true_eq]
  rcases mem_insertEntry he with rfl | he
  · simp
  · exact h e he

omit [Std.TransOrd κ] [Std.LawfulEqOrd κ] in
theorem after_keepLast_le (m : SortedMap κ α) (n : Nat) (k : κ) :
    (m.keepLast n).after k ≤ m.after k :=
  (List.drop_sublist _ _).countP_le

theorem get?_keepLast {m : SortedMap κ α} {n : Nat} {k : κ} {v : α} (h : m.get? k = some v)
    (hn : m.after k < n) : (m.keepLast n).get? k = some v := by
  obtain ⟨l₁, l₂, hl⟩ := List.append_of_mem (get?_eq_some_iff.1 h)
  have hs := m.sorted
  rw [hl, List.pairwise_append, List.pairwise_cons] at hs
  have hafter : l₂.length ≤ m.after k := by
    unfold after
    rw [hl, List.countP_append, List.countP_cons]
    have hall : l₂.countP (fun e => compare k e.1 = .lt) = l₂.length := by
      rw [List.countP_eq_length]
      intro e he
      exact decide_eq_true (hs.2.1.1 e he)
    omega
  have hlen : m.entries.length - n ≤ l₁.length := by
    rw [hl, List.length_append, List.length_cons]
    omega
  rw [get?_eq_some_iff]
  show (k, v) ∈ m.entries.drop (m.entries.length - n)
  generalize m.entries.length - n = i at hlen ⊢
  rw [hl, List.drop_append_of_le_length hlen]
  exact List.mem_append_right _ List.mem_cons_self

/-- The greatest key that is not above `k` is `k` itself, if it is there. -/
theorem getLE?_of_get? {m : SortedMap κ α} {k : κ} {v : α} (h : m.get? k = some v) :
    m.getLE? k = some v := by
  obtain ⟨l₁, l₂, hl⟩ := List.append_of_mem (get?_eq_some_iff.1 h)
  have hs := m.sorted
  rw [hl, List.pairwise_append, List.pairwise_cons] at hs
  have hrest : l₂.filter (fun e => compare e.1 k ≠ .gt) = [] := by
    rw [List.filter_eq_nil_iff]
    intro e he
    simp [Std.OrientedCmp.gt_of_lt (hs.2.1.1 e he)]
  unfold getLE?
  rw [hl, List.filter_append, List.filter_cons, hrest]
  simp

/-! ## The greatest key not above a key -/

omit [Std.LawfulEqOrd κ] in
/-- A key above all others comes last. -/
theorem entries_insert_of_last {m : SortedMap κ α} {k : κ}
    (h : ∀ e ∈ m.entries, compare e.1 k = .lt) (v : α) :
    (m.insert k v).entries = m.entries ++ [(k, v)] := by
  have hl (l : List (κ × α)) (h : ∀ e ∈ l, compare e.1 k = .lt) :
      insertEntry k v l = l ++ [(k, v)] := by
    induction l with
    | nil => rfl
    | cons a rest ih =>
      have ha : compare k a.1 = .gt := Std.OrientedCmp.gt_of_lt (h a List.mem_cons_self)
      simp [insertEntry, ha, ih fun e he => h e (List.mem_cons_of_mem _ he)]
  exact hl m.entries h

omit [Std.LawfulEqOrd κ] in
/-- The last of ascending entries is the greatest. -/
theorem getLast?_eq_some_iff_of_sorted {l : List (κ × α)}
    (hs : l.Pairwise fun a b => compare a.1 b.1 = .lt) {e : κ × α} :
    l.getLast? = some e ↔ e ∈ l ∧ ∀ x ∈ l, (compare x.1 e.1).isLE = true := by
  constructor
  · intro h
    obtain ⟨ys, rfl⟩ := List.getLast?_eq_some_iff.1 h
    refine ⟨by simp, ?_⟩
    intro x hx
    rcases List.mem_append.1 hx with hx | hx
    · rw [(List.pairwise_append.1 hs).2.2 x hx e List.mem_cons_self]
      rfl
    · rw [List.mem_singleton.1 hx, @Std.ReflCmp.compare_self _ compare]
      rfl
  · rintro ⟨he, hle⟩
    obtain ⟨l₁, l₂, rfl⟩ := List.append_of_mem he
    have hnil : l₂ = [] := by
      rw [List.eq_nil_iff_forall_not_mem]
      intro x hx
      have hlt : compare e.1 x.1 = .lt :=
        (List.pairwise_cons.1 (List.pairwise_append.1 hs).2.1).1 x hx
      have hgt := hle x (List.mem_append_right _ (List.mem_cons_of_mem _ hx))
      rw [Std.OrientedCmp.gt_of_lt hlt] at hgt
      cases hgt
    rw [hnil]
    simp

omit [Std.LawfulEqOrd κ] in
/-- The value found is that of the greatest key that is not above `k`. -/
theorem getLE?_eq_some_iff {m : SortedMap κ α} {k : κ} {v : α} : m.getLE? k = some v ↔
    ∃ k', (k', v) ∈ m.entries ∧ (compare k' k).isLE = true ∧
      ∀ e ∈ m.entries, (compare e.1 k).isLE = true → (compare e.1 k').isLE = true := by
  have hmem (e : κ × α) : e ∈ m.entries.filter (fun e => compare e.1 k ≠ .gt) ↔
      e ∈ m.entries ∧ (compare e.1 k).isLE = true := by
    rw [List.mem_filter, decide_eq_true_eq, Ordering.isLE_iff_ne_gt]
  unfold getLE?
  rw [Option.map_eq_some_iff]
  constructor
  · rintro ⟨e, he, rfl⟩
    obtain ⟨he, hle⟩ := (getLast?_eq_some_iff_of_sorted (m.sorted.filter _)).1 he
    obtain ⟨he, hk⟩ := (hmem e).1 he
    exact ⟨e.1, he, hk, fun x hx hxk => hle x ((hmem x).2 ⟨hx, hxk⟩)⟩
  · rintro ⟨k', he, hk, hle⟩
    refine ⟨(k', v), (getLast?_eq_some_iff_of_sorted (m.sorted.filter _)).2 ?_, rfl⟩
    refine ⟨(hmem _).2 ⟨he, hk⟩, fun x hx => ?_⟩
    obtain ⟨hx, hxk⟩ := (hmem x).1 hx
    exact hle x hx hxk

omit [Std.TransOrd κ] [Std.LawfulEqOrd κ] in
/-- No value is found if all keys are above `k`. -/
theorem getLE?_eq_none_iff {m : SortedMap κ α} {k : κ} :
    m.getLE? k = none ↔ ∀ e ∈ m.entries, compare e.1 k = .gt := by
  unfold getLE?
  rw [Option.map_eq_none_iff, List.getLast?_eq_none_iff, List.filter_eq_nil_iff]
  simp

omit [Std.LawfulEqOrd κ] in
/-- What comes after `k` changes nothing about it, unless it drives out what was found. -/
theorem getLE?_keepLast_insert {m : SortedMap κ α} {k k' : κ}
    (hlast : ∀ e ∈ m.entries, compare e.1 k' = .lt) (hk : compare k k' = .lt) (v : α) (n : Nat) :
    ((m.insert k' v).keepLast n).getLE? k = m.getLE? k ∨
      ((m.insert k' v).keepLast n).getLE? k = none := by
  have hgt : compare k' k = .gt := Std.OrientedCmp.gt_of_lt hk
  have hsuffix : ((m.insert k' v).keepLast n).entries <:+ m.entries ++ [(k', v)] := by
    rw [← entries_insert_of_last hlast]
    exact List.drop_suffix _ _
  have hfilter := hsuffix.filter fun e => compare e.1 k ≠ .gt
  rw [List.filter_append, List.filter_cons_of_neg (by simp [hgt]), List.filter_nil,
    List.append_nil] at hfilter
  unfold getLE?
  generalize ((m.insert k' v).keepLast n).entries.filter (fun e => compare e.1 k ≠ .gt) = l
    at hfilter ⊢
  by_cases hl : l = []
  · right
    rw [hl]
    rfl
  · left
    rw [List.getLast?_eq_some_getLast hl, hfilter.getLast hl, ← List.getLast?_eq_some_getLast]

end AtomicGrid.SortedMap

namespace AtomicGrid.SortedSet

variable {κ : Type} [Ord κ] [Std.TransOrd κ] [Std.LawfulEqOrd κ]

theorem contains_add {s : SortedSet κ} {k k' : κ} :
    (s.add k).contains k' = true ↔ k' = k ∨ s.contains k' = true := by
  unfold add SortedMap.contains
  rw [SortedMap.get?_insert]
  by_cases h : k' = k
  · simp [h]
  · have : ¬ compare k' k = .eq := fun e => h (Std.LawfulEqCmp.eq_of_compare e)
    simp [h, this]

theorem contains_erase {s : SortedSet κ} {k k' : κ} :
    SortedMap.contains (SortedMap.erase s k) k' = true ↔ k' ≠ k ∧ s.contains k' = true := by
  unfold SortedMap.contains
  rw [SortedMap.get?_erase]
  by_cases h : k' = k
  · simp [h]
  · have : ¬ compare k' k = .eq := fun e => h (Std.LawfulEqCmp.eq_of_compare e)
    simp [h, this]

theorem contains_ofList {ks : List κ} {k : κ} :
    SortedMap.contains (ofList ks) k = true ↔ k ∈ ks := by
  have h (ks : List κ) : ∀ s : SortedSet κ,
      SortedMap.contains (ks.foldl add s) k = true ↔ k ∈ ks ∨ s.contains k = true := by
    induction ks with
    | nil => simp
    | cons a ks ih =>
      intro s
      rw [List.foldl_cons, ih, contains_add, List.mem_cons, or_left_comm, or_assoc]
  have hn : ¬ SortedMap.contains (∅ : SortedSet κ) k = true := by simp [SortedMap.contains]
  rw [ofList, h, or_iff_left hn]

theorem isEmpty_iff {s : SortedSet κ} :
    SortedMap.isEmpty s = true ↔ ∀ k, s.contains k = false := by
  rw [SortedMap.isEmpty_iff]
  simp [SortedMap.contains]

end AtomicGrid.SortedSet
