import AtomicGrid.NearCache
import AtomicGrid.Proofs.Store

/-!
# Near caches and late writes

A near cache compares a write with the value it has.  A removal leaves nothing to compare with, so a
value that comes after it is taken even if it is older.  A write therefore counts as long as no
later call was as new, and of the writes that count the first one with a value is seen.

## Results

* `NearCache.held_applyAll`: what a cache holds of a key after any calls.
* `NearCache.newest_applyAll`: the newest value is seen.  The newest removal makes the cache forget
  all calls before it.
* `NearCache.removal_forgotten`: a late value takes the place of a newer removal.
-/

set_option autoImplicit false

namespace AtomicGrid

/-- The writes that no later one is as new as. -/
def Write.standing : List Write → List Write
  | [] => []
  | w :: ws => if ws.any (w.version ≤ ·.version) then standing ws else w :: standing ws

/-- The write that is seen when removals are forgotten: the first with a value among those that no
later one is as new as. -/
def Write.seen (ws : List Write) : Option Write := (standing ws).find? (·.value.isSome)

namespace NearCache

/-- The write that a cache has the value of a key from. -/
def held (c : NearCache) (key : Key) : Option Write :=
  (c.values.get? key).map fun e => ⟨e.2, some e.1⟩

/-- Takes new values and removals one after the other. -/
def applyAll (c : NearCache) (calls : List (Key × Write)) : NearCache :=
  calls.foldl (fun c call => c.applyUpdate call.1 call.2.value call.2.version) c

/-- The writes that calls for a key come with. -/
def writesOf (key : Key) (calls : List (Key × Write)) : List Write :=
  (calls.filter (·.1 = key)).map (·.2)

end NearCache

namespace Write

variable {w : Write} {ws : List Write}

theorem seen_cons (w : Write) (ws : List Write) : seen (w :: ws) =
    if ws.any (w.version ≤ ·.version) then seen ws
    else if w.value.isSome then some w else seen ws := by
  unfold seen
  rw [standing]
  split
  · rfl
  · rw [List.find?_cons]
    split <;> simp_all

theorem seen_toList {w? : Option Write} (h : ∀ w ∈ w?, w.value.isSome) : seen w?.toList = w? := by
  cases w? with
  | none => rfl
  | some w =>
    have hw : w.value.isSome := h w rfl
    show seen [w] = some w
    rw [seen_cons, if_pos hw]
    rfl

/-- A removal is forgotten. -/
theorem seen_cons_of_removal (h : w.value = none) : seen (w :: ws) = seen ws := by
  rw [seen_cons, h]
  simp

/-- A write does not count if the next one is as new. -/
theorem seen_cons_of_le {w' : Write} (h : w.version ≤ w'.version) :
    seen (w :: w' :: ws) = seen (w' :: ws) := by
  rw [seen_cons, if_pos]
  simp [h]

/-- A write does not count if the one before it is newer and has a value. -/
theorem seen_cons_of_lt {w' : Write} (hv : w.value.isSome) (h : w'.version < w.version) :
    seen (w :: w' :: ws) = seen (w :: ws) := by
  rw [seen_cons w, seen_cons w, seen_cons w']
  simp only [List.any_cons, decide_eq_false (not_le_of_gt h), Bool.false_or, hv, if_true]
  split
  next hlater =>
    rw [if_pos]
    rw [List.any_eq_true] at hlater ⊢
    obtain ⟨w'', hw'', hle⟩ := hlater
    exact ⟨w'', hw'', decide_eq_true (le_of_lt (lt_of_lt_of_le h (of_decide_eq_true hle)))⟩
  next => rfl

/-- Of what comes before the newest write nothing counts. -/
theorem seen_append_of_le {before : List Write} (h : ∀ w' ∈ before, w'.version ≤ w.version) :
    seen (before ++ w :: ws) = seen (w :: ws) := by
  induction before with
  | nil => rfl
  | cons w' before ih =>
    have hlater : (before ++ w :: ws).any (w'.version ≤ ·.version) = true := by
      apply List.any_eq_true.2
      exact ⟨w, by simp, decide_eq_true (h w' List.mem_cons_self)⟩
    rw [List.cons_append, seen_cons, if_pos hlater]
    exact ih fun w'' hw'' => h w'' (List.mem_cons_of_mem w' hw'')

end Write

namespace NearCache

variable {c : NearCache} {key : Key}

theorem get?_eq_held (c : NearCache) (key : Key) : c.get? key = (c.held key).bind (·.value) := by
  unfold get? held
  cases c.values.get? key <;> rfl

theorem held_value (c : NearCache) (key : Key) : ∀ w ∈ c.held key, w.value.isSome := by
  unfold held
  cases c.values.get? key <;> simp

theorem writesOf_cons (key : Key) (call : Key × Write) (calls : List (Key × Write)) :
    writesOf key (call :: calls) =
      if call.1 = key then call.2 :: writesOf key calls else writesOf key calls := by
  unfold writesOf
  rw [List.filter_cons]
  by_cases hk : call.1 = key
  · simp [hk]
  · simp [hk]

theorem held_applyUpdate (c : NearCache) (k : Key) (w : Write) (key : Key) :
    (c.applyUpdate k w.value w.version).held key =
      if k = key then
        (if (c.held key).any (w.version < ·.version) then c.held key
          else if w.value.isSome then some w else none)
      else c.held key := by
  have hany : (c.version? k).any (w.version < ·) = (c.held k).any (w.version < ·.version) := by
    unfold version? held
    cases c.values.get? k <;> rfl
  unfold applyUpdate
  rw [hany]
  by_cases hk : k = key
  · subst hk
    rw [if_pos rfl]
    split
    next => rfl
    next =>
      obtain ⟨version, value⟩ := w
      cases value with
      | none => simp [held]
      | some v => simp [held]
  · rw [if_neg hk]
    split
    next => rfl
    next =>
      unfold held
      cases w.value with
      | none => rw [SortedMap.get?_erase_of_ne _ (Ne.symm hk)]
      | some v => rw [SortedMap.get?_insert_of_ne _ _ (Ne.symm hk)]

/-- What a cache holds of a key after a call counts as a write before all that come later. -/
theorem seen_applyUpdate (c : NearCache) (key : Key) (w : Write) (ws : List Write) :
    Write.seen (((c.applyUpdate key w.value w.version).held key).toList ++ ws) =
      Write.seen ((c.held key).toList ++ w :: ws) := by
  rw [held_applyUpdate, if_pos rfl]
  have hlone : Write.seen ((if w.value.isSome then some w else none).toList ++ ws) =
      Write.seen (w :: ws) := by
    cases hv : w.value with
    | none =>
      rw [Write.seen_cons_of_removal hv]
      rfl
    | some v => rfl
  cases hh : c.held key with
  | none => exact hlone
  | some h =>
    rw [Option.any_some]
    by_cases hlt : w.version < h.version
    · rw [if_pos (decide_eq_true hlt)]
      exact (Write.seen_cons_of_lt (c.held_value key h hh) hlt).symm
    · rw [if_neg (by simpa using hlt), hlone]
      exact (Write.seen_cons_of_le (le_of_not_gt hlt)).symm

/-- What a cache holds of a key after any calls is what is seen of the one it held before and of the
writes that the calls came with. -/
theorem held_applyAll (c : NearCache) (calls : List (Key × Write)) (key : Key) :
    (c.applyAll calls).held key = Write.seen ((c.held key).toList ++ writesOf key calls) := by
  induction calls generalizing c with
  | nil =>
    show c.held key = Write.seen ((c.held key).toList ++ [])
    rw [List.append_nil, Write.seen_toList (c.held_value key)]
  | cons call calls ih =>
    show ((c.applyUpdate call.1 call.2.value call.2.version).applyAll calls).held key = _
    rw [ih, writesOf_cons]
    by_cases hk : call.1 = key
    · subst hk
      rw [if_pos rfl]
      exact seen_applyUpdate c call.1 call.2 _
    · rw [if_neg hk, held_applyUpdate, if_neg hk]

theorem get?_applyAll (calls : List (Key × Write)) (key : Key) :
    (applyAll {} calls).get? key = (Write.seen (writesOf key calls)).bind (·.value) := by
  rw [get?_eq_held, held_applyAll]
  rfl

/-- The newest of all calls for a key is seen if it came with a value.  If it was a removal, the cache
has what the calls after it make of a new one. -/
theorem newest_applyAll {calls : List (Key × Write)} {key : Key} {before after : List Write}
    {w : Write} (hcalls : writesOf key calls = before ++ w :: after)
    (hnewest : ∀ w' ∈ before ++ after, w'.version < w.version) :
    (applyAll {} calls).get? key =
      w.value.or ((applyAll {} (after.map (key, ·))).get? key) := by
  have hbefore : ∀ w' ∈ before, w'.version ≤ w.version := by
    intro w' hw'
    exact le_of_lt (hnewest w' (List.mem_append_left after hw'))
  have hafter : after.any (w.version ≤ ·.version) = false := by
    rw [List.any_eq_false]
    intro w' hw' hle
    exact not_le_of_gt (hnewest w' (List.mem_append_right before hw')) (of_decide_eq_true hle)
  have hown : writesOf key (after.map (key, ·)) = after := by
    unfold writesOf
    rw [List.filter_eq_self.2 (by simp), List.map_map]
    exact List.map_id after
  rw [get?_applyAll, get?_applyAll, hcalls, hown, Write.seen_append_of_le hbefore, Write.seen_cons,
    hafter]
  cases hv : w.value with
  | none => rfl
  | some v => exact hv

/-- A value comes after a newer one, and another key is removed in between. -/
theorem newest_applyAll_overtaken :
    (applyAll {} [([1], ⟨⟨1, 2, 1⟩, some [7]⟩), ([3], ⟨⟨1, 3, 1⟩, none⟩),
      ([1], ⟨⟨1, 1, 1⟩, some [8]⟩)]).get? [1] = some [7] := by
  let calls : List (Key × Write) := [([1], ⟨⟨1, 2, 1⟩, some [7]⟩), ([3], ⟨⟨1, 3, 1⟩, none⟩),
    ([1], ⟨⟨1, 1, 1⟩, some [8]⟩)]
  have hcalls : writesOf [1] calls = [] ++ ⟨⟨1, 2, 1⟩, some [7]⟩ :: [⟨⟨1, 1, 1⟩, some [8]⟩] := rfl
  exact newest_applyAll hcalls (by decide)

/-- It is not always the newest call that counts: after the removal of a key an older value is taken
for new. -/
theorem removal_forgotten : ¬ ∀ (key : Key) (ws : List Write), (ws.map (·.version)).Nodup →
    ∀ w ∈ ws, (∀ w' ∈ ws, w'.version ≤ w.version) →
      (applyAll {} (ws.map (key, ·))).get? key = w.value := by
  intro h
  have hlate := h [0x6b] [⟨⟨1, 2, 1⟩, none⟩, ⟨⟨1, 1, 1⟩, some [0x61]⟩] (by decide)
    ⟨⟨1, 2, 1⟩, none⟩ List.mem_cons_self (by decide)
  exact absurd hlate (by decide)

end NearCache

end AtomicGrid
