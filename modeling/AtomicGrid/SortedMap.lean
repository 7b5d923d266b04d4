/-!
# Finite maps with ascending keys

A `SortedMap` lists its entries in strictly ascending key order, so two maps with the same
entries are equal values and every traversal comes in key order.  A `SortedSet` is a map to `Unit`.

## Results

* `get?_insert`, `get?_erase`: what the operations do to look-ups.
* `ext_get?`: a map is determined by its look-ups.
* `mem_keys_iff`, `keys_nodup`: the keys are the ones a look-up finds, each once.
-/

set_option autoImplicit false

namespace AtomicGrid

/-- Entries in strictly ascending key order. -/
structure SortedMap (κ α : Type) [Ord κ] where
  entries : List (κ × α)
  sorted : entries.Pairwise fun a b => compare a.1 b.1 = .lt

namespace SortedMap

variable {κ α β : Type} [Ord κ]

instance [DecidableEq κ] [DecidableEq α] : DecidableEq (SortedMap κ α) := fun a b =>
  if h : a.entries = b.entries then
    isTrue (by cases a; cases b; cases h; rfl)
  else isFalse fun e => h (congrArg entries e)

instance [Repr κ] [Repr α] : Repr (SortedMap κ α) := ⟨fun m n => reprPrec m.entries n⟩

def empty : SortedMap κ α := ⟨[], .nil⟩

instance : EmptyCollection (SortedMap κ α) := ⟨empty⟩

instance : Inhabited (SortedMap κ α) := ⟨empty⟩

/-- The value under `k` in a list of entries. -/
def findEntry (k : κ) : List (κ × α) → Option α
  | [] => none
  | (k', v) :: rest => if compare k k' = .eq then some v else findEntry k rest

/-- The value under `k`. -/
def get? (m : SortedMap κ α) (k : κ) : Option α := findEntry k m.entries

/-- Whether `k` has a value. -/
def contains (m : SortedMap κ α) (k : κ) : Bool := (m.get? k).isSome

/-- The keys, ascending. -/
def keys (m : SortedMap κ α) : List κ := m.entries.map (·.1)

/-- The values, in key order. -/
def values (m : SortedMap κ α) : List α := m.entries.map (·.2)

def size (m : SortedMap κ α) : Nat := m.entries.length

def isEmpty (m : SortedMap κ α) : Bool := m.entries.isEmpty

/-- Entries with `k` bound to `v`, at the place the order asks for. -/
def insertEntry (k : κ) (v : α) : List (κ × α) → List (κ × α)
  | [] => [(k, v)]
  | (k', v') :: rest =>
    match compare k k' with
    | .lt => (k, v) :: (k', v') :: rest
    | .eq => (k, v) :: rest
    | .gt => (k', v') :: insertEntry k v rest

theorem mem_insertEntry {k : κ} {v : α} {l : List (κ × α)} {e : κ × α}
    (h : e ∈ insertEntry k v l) : e = (k, v) ∨ e ∈ l := by
  induction l with
  | nil => simpa [insertEntry] using h
  | cons a rest ih =>
    obtain ⟨k', v'⟩ := a
    unfold insertEntry at h
    split at h
    · simpa using h
    · simp only [List.mem_cons] at h ⊢
      exact h.imp_right .inr
    · simp only [List.mem_cons] at h ⊢
      rcases h with h | h
      · exact .inr (.inl h)
      · exact (ih h).imp_right .inr

theorem insertEntry_sorted [Std.TransOrd κ] (k : κ) (v : α) {l : List (κ × α)}
    (h : l.Pairwise fun a b => compare a.1 b.1 = .lt) :
    (insertEntry k v l).Pairwise fun a b => compare a.1 b.1 = .lt := by
  induction l with
  | nil => simp [insertEntry]
  | cons a rest ih =>
    obtain ⟨k', v'⟩ := a
    obtain ⟨ha, hr⟩ := List.pairwise_cons.1 h
    unfold insertEntry
    split
    next hc =>
      refine List.pairwise_cons.2 ⟨fun e he => ?_, h⟩
      rcases List.mem_cons.1 he with rfl | he
      · exact hc
      · exact Std.TransCmp.lt_trans hc (ha e he)
    next hc =>
      exact List.pairwise_cons.2 ⟨fun e he => Std.TransCmp.lt_of_eq_of_lt hc (ha e he), hr⟩
    next hc =>
      refine List.pairwise_cons.2 ⟨fun e he => ?_, ih hr⟩
      rcases mem_insertEntry he with rfl | he
      · exact Std.OrientedCmp.lt_of_gt hc
      · exact ha e he

/-- Binds `k` to `v`, in place of any earlier value. -/
def insert [Std.TransOrd κ] (m : SortedMap κ α) (k : κ) (v : α) : SortedMap κ α :=
  ⟨insertEntry k v m.entries, insertEntry_sorted k v m.sorted⟩

/-- Keeps the entries that satisfy `p`. -/
def filter (m : SortedMap κ α) (p : κ → α → Bool) : SortedMap κ α :=
  ⟨m.entries.filter fun e => p e.1 e.2, m.sorted.filter _⟩

/-- Drops the entry of `k`. -/
def erase (m : SortedMap κ α) (k : κ) : SortedMap κ α :=
  m.filter fun k' _ => compare k k' ≠ .eq

/-- Applies `f` to every value. -/
def mapValues (m : SortedMap κ α) (f : κ → α → β) : SortedMap κ β :=
  ⟨m.entries.map fun e => (e.1, f e.1 e.2), List.pairwise_map.2 m.sorted⟩

/-- Inserts a list of entries, a later one replacing an earlier one of the same key. -/
def insertMany [Std.TransOrd κ] (m : SortedMap κ α) (es : List (κ × α)) : SortedMap κ α :=
  es.foldl (fun m e => m.insert e.1 e.2) m

/-- The map of a list of entries, a later one replacing an earlier one of the same key. -/
def ofList [Std.TransOrd κ] (es : List (κ × α)) : SortedMap κ α := (∅ : SortedMap κ α).insertMany es

/-- Rebinds `k` to `f` of its value, if it has one. -/
def modify [Std.TransOrd κ] (m : SortedMap κ α) (k : κ) (f : α → α) : SortedMap κ α :=
  match m.get? k with
  | some v => m.insert k (f v)
  | none => m

/-- The value of the greatest key that is not above `k`. -/
def getLE? (m : SortedMap κ α) (k : κ) : Option α :=
  (m.entries.filter fun e => compare e.1 k ≠ .gt).getLast?.map (·.2)

/-- Keeps the `n` entries with the greatest keys. -/
def keepLast (m : SortedMap κ α) (n : Nat) : SortedMap κ α :=
  ⟨m.entries.drop (m.entries.length - n), m.sorted.sublist (List.drop_sublist _ _)⟩

/-! ## Look-ups -/

@[simp] theorem get?_empty (k : κ) : (∅ : SortedMap κ α).get? k = none := rfl

theorem findEntry_insertEntry [Std.TransOrd κ] [Std.LawfulEqOrd κ] (k k' : κ) (v : α)
    (l : List (κ × α)) :
    findEntry k' (insertEntry k v l) = if compare k' k = .eq then some v else findEntry k' l := by
  induction l with
  | nil => simp [insertEntry, findEntry]
  | cons a rest ih =>
    obtain ⟨k₁, v₁⟩ := a
    unfold insertEntry
    split
    next hc => simp [findEntry]
    next hc =>
      obtain rfl := Std.LawfulEqCmp.eq_of_compare hc
      by_cases h : compare k' k = .eq <;> simp [findEntry, h]
    next hc =>
      by_cases h : compare k' k₁ = .eq
      · obtain rfl := Std.LawfulEqCmp.eq_of_compare h
        have : compare k' k = .lt := Std.OrientedCmp.lt_of_gt hc
        simp [findEntry, this]
      · simp [findEntry, h, ih]

theorem get?_insert [Std.TransOrd κ] [Std.LawfulEqOrd κ] (m : SortedMap κ α) (k k' : κ) (v : α) :
    (m.insert k v).get? k' = if compare k' k = .eq then some v else m.get? k' :=
  findEntry_insertEntry k k' v m.entries

@[simp] theorem get?_insert_self [Std.TransOrd κ] [Std.LawfulEqOrd κ] (m : SortedMap κ α) (k : κ)
    (v : α) : (m.insert k v).get? k = some v := by
  simp [get?_insert]

theorem get?_insert_of_ne [Std.TransOrd κ] [Std.LawfulEqOrd κ] (m : SortedMap κ α) {k k' : κ}
    (v : α) (h : k' ≠ k) : (m.insert k v).get? k' = m.get? k' := by
  rw [get?_insert, if_neg fun e => h (Std.LawfulEqCmp.eq_of_compare e)]

theorem findEntry_filter_ne [Std.TransOrd κ] [Std.LawfulEqOrd κ] (k k' : κ) (l : List (κ × α)) :
    findEntry k' (l.filter fun e => compare k e.1 ≠ .eq) =
      if compare k' k = .eq then none else findEntry k' l := by
  induction l with
  | nil => simp [findEntry]
  | cons a rest ih =>
    obtain ⟨k₁, v₁⟩ := a
    simp only [List.filter_cons]
    by_cases h : compare k k₁ = .eq
    · obtain rfl := Std.LawfulEqCmp.eq_of_compare h
      simp only [ne_eq, h, not_true_eq_false, decide_false, Bool.false_eq_true, ↓reduceIte, ih]
      by_cases h' : compare k' k = .eq <;> simp [findEntry, h']
    · simp only [ne_eq, h, not_false_eq_true, decide_true, ↓reduceIte, findEntry, ih]
      by_cases h₁ : compare k' k₁ = .eq
      · obtain rfl := Std.LawfulEqCmp.eq_of_compare h₁
        have : ¬ compare k' k = .eq := fun e => h (Std.OrientedCmp.eq_symm e)
        simp [this]
      · simp [h₁]

theorem get?_erase [Std.TransOrd κ] [Std.LawfulEqOrd κ] (m : SortedMap κ α) (k k' : κ) :
    (m.erase k).get? k' = if compare k' k = .eq then none else m.get? k' :=
  findEntry_filter_ne k k' m.entries

@[simp] theorem get?_erase_self [Std.TransOrd κ] [Std.LawfulEqOrd κ] (m : SortedMap κ α) (k : κ) :
    (m.erase k).get? k = none := by
  simp [get?_erase]

theorem get?_erase_of_ne [Std.TransOrd κ] [Std.LawfulEqOrd κ] (m : SortedMap κ α) {k k' : κ}
    (h : k' ≠ k) : (m.erase k).get? k' = m.get? k' := by
  rw [get?_erase, if_neg fun e => h (Std.LawfulEqCmp.eq_of_compare e)]

theorem findEntry_eq_some_iff [Std.TransOrd κ] [Std.LawfulEqOrd κ] {l : List (κ × α)}
    (h : l.Pairwise fun a b => compare a.1 b.1 = .lt) {k : κ} {v : α} :
    findEntry k l = some v ↔ (k, v) ∈ l := by
  induction l with
  | nil => simp [findEntry]
  | cons a rest ih =>
    obtain ⟨k', v'⟩ := a
    obtain ⟨ha, hr⟩ := List.pairwise_cons.1 h
    by_cases hc : compare k k' = .eq
    · obtain rfl := Std.LawfulEqCmp.eq_of_compare hc
      have : (k, v) ∉ rest := fun hm => by simpa using ha _ hm
      simp [findEntry, this, eq_comm]
    · have : k ≠ k' := fun e => hc (by simp [e])
      simp [findEntry, hc, this, ih hr]

/-- Looking a key up finds exactly the entries. -/
theorem get?_eq_some_iff [Std.TransOrd κ] [Std.LawfulEqOrd κ] {m : SortedMap κ α} {k : κ} {v : α} :
    m.get? k = some v ↔ (k, v) ∈ m.entries :=
  findEntry_eq_some_iff m.sorted

theorem mem_keys_iff [Std.TransOrd κ] [Std.LawfulEqOrd κ] {m : SortedMap κ α} {k : κ} :
    k ∈ m.keys ↔ m.contains k = true := by
  simp only [keys, contains, List.mem_map, Option.isSome_iff_exists, get?_eq_some_iff]
  exact ⟨fun ⟨e, he, hk⟩ => ⟨e.2, hk ▸ he⟩, fun ⟨v, hv⟩ => ⟨(k, v), hv, rfl⟩⟩

theorem keys_nodup [Std.TransOrd κ] (m : SortedMap κ α) : m.keys.Nodup := by
  rw [keys, List.Nodup, List.pairwise_map]
  exact m.sorted.imp fun h e => by simp [e] at h

/-- Two sorted lists of entries with the same members are equal. -/
theorem entries_eq_of_mem_iff [Std.TransOrd κ] {l₁ l₂ : List (κ × α)}
    (h₁ : l₁.Pairwise fun a b => compare a.1 b.1 = .lt)
    (h₂ : l₂.Pairwise fun a b => compare a.1 b.1 = .lt) (h : ∀ e, e ∈ l₁ ↔ e ∈ l₂) : l₁ = l₂ := by
  have irr : ∀ k : κ, compare k k ≠ .lt := fun k => by simp
  induction l₁ generalizing l₂ with
  | nil =>
    cases l₂ with
    | nil => rfl
    | cons b l₂ => exact absurd ((h b).2 List.mem_cons_self) (by simp)
  | cons a l₁ ih =>
    cases l₂ with
    | nil => exact absurd ((h a).1 List.mem_cons_self) (by simp)
    | cons b l₂ =>
      obtain ⟨ha, hr₁⟩ := List.pairwise_cons.1 h₁
      obtain ⟨hb, hr₂⟩ := List.pairwise_cons.1 h₂
      have hab : a = b := by
        rcases List.mem_cons.1 ((h a).1 List.mem_cons_self) with e | hm
        · exact e
        · rcases List.mem_cons.1 ((h b).2 List.mem_cons_self) with e | hm'
          · exact e.symm
          · exact absurd (Std.TransCmp.lt_trans (hb a hm) (ha b hm')) (irr _)
      subst hab
      refine congrArg (a :: ·) (ih hr₁ hr₂ fun e => ?_)
      have := h e
      simp only [List.mem_cons] at this
      constructor
      · intro hm
        rcases this.1 (.inr hm) with rfl | hm'
        · exact absurd (ha e hm) (irr _)
        · exact hm'
      · intro hm
        rcases this.2 (.inr hm) with rfl | hm'
        · exact absurd (hb e hm) (irr _)
        · exact hm'

/-- A map is determined by its look-ups. -/
theorem ext_get? [Std.TransOrd κ] [Std.LawfulEqOrd κ] {m₁ m₂ : SortedMap κ α}
    (h : ∀ k, m₁.get? k = m₂.get? k) : m₁ = m₂ := by
  have : m₁.entries = m₂.entries := by
    refine entries_eq_of_mem_iff m₁.sorted m₂.sorted fun e => ?_
    rw [← get?_eq_some_iff, ← get?_eq_some_iff, h]
  cases m₁; cases m₂; cases this; rfl

end SortedMap

/-- A finite set whose elements are listed in ascending order. -/
abbrev SortedSet (κ : Type) [Ord κ] := SortedMap κ Unit

namespace SortedSet

variable {κ : Type} [Ord κ] [Std.TransOrd κ]

/-- Adds an element. -/
def add (s : SortedSet κ) (k : κ) : SortedSet κ := SortedMap.insert s k ()

/-- The set of the elements of a list. -/
def ofList (ks : List κ) : SortedSet κ := ks.foldl add ∅

/-- The elements, ascending. -/
def toList (s : SortedSet κ) : List κ := SortedMap.keys s

end SortedSet

end AtomicGrid
