import AtomicGrid.Proofs.SortedMap
import AtomicGrid.Store
import Mathlib.Data.List.Induction
import Mathlib.Order.Defs.LinearOrder

/-!
# What a store holds of a key

Of a key a store holds one write, a value or a removal with its version.  A backup that is told of
writes holds the newest of them, and of two as new the first.

Entries and removals are kept in two maps.  A write to one of them erases the key from the other, so
no key is ever in both: the maps of a store are `Apart`.

## Results

* `WriteVersion.not_le_iff`, and the linear order of versions that it is for.
* `Store.live?_write`, `Store.removal?_write`: a write on the two maps.
* `Store.Arisen.apart`: no key has both an entry and a removal.
* `Store.held_apply`, `Store.held_applyBackup`: what a store holds after a write.
-/

set_option autoImplicit false

namespace AtomicGrid

namespace WriteVersion

theorem not_le_iff {a b : WriteVersion} : ¬ a ≤ b ↔ b < a := by
  show ¬ (compare a b).isLE = true ↔ compare b a = .lt
  rw [Bool.not_eq_true, Ordering.isLE_eq_false]
  exact Std.OrientedCmp.gt_iff_lt

theorem le_of_gt {a b : WriteVersion} (h : a < b) : a ≤ b := by
  have h : compare a b = .lt := h
  show (compare a b).isLE = true
  rw [h]
  rfl

theorem compare_eq_ite (a b : WriteVersion) : compare a b = compareOfLessAndEq a b := by
  unfold compareOfLessAndEq
  have hlt : a < b ↔ compare a b = .lt := Iff.rfl
  have heq : a = b ↔ compare a b = .eq := Std.LawfulEqCmp.compare_eq_iff_eq.symm
  simp only [hlt, heq]
  cases compare a b with
  | lt => rfl
  | eq => rfl
  | gt => rfl

instance : LinearOrder WriteVersion where
  le_refl a := by
    show (compare a a).isLE = true
    rw [@Std.ReflCmp.compare_self _ compare]
    rfl
  le_trans _ _ _ := @Std.TransCmp.isLE_trans _ compare _ _ _ _
  le_antisymm a b h h' := by
    cases hc : compare a b with
    | lt => exact absurd h' (not_le_iff.2 hc)
    | eq => exact Std.LawfulEqCmp.eq_of_compare hc
    | gt => exact absurd h (not_le_iff.2 (Std.OrientedCmp.gt_iff_lt.1 hc))
  le_total a b := by
    by_cases h : a ≤ b
    · exact .inl h
    · exact .inr (le_of_gt (not_le_iff.1 h))
  lt_iff_le_not_ge a b := by
    rw [not_le_iff]
    exact ⟨fun h => ⟨le_of_gt h, h⟩, And.right⟩
  toDecidableLE := inferInstance
  toDecidableLT := inferInstance
  compare_eq_compareOfLessAndEq := compare_eq_ite

end WriteVersion

/-- A value, or a removal, under its version. -/
structure Write where
  version : WriteVersion
  value : Option Value
  deriving DecidableEq, Repr, Inhabited

/-- What a backup holds once it was told of a write. -/
def Write.replay (held : Option Write) (w : Write) : Option Write :=
  if held.any (w.version ≤ ·.version) then held else some w

namespace Write

theorem replay_of_lt {held : Option Write} {w : Write}
    (h : ∀ w' ∈ held, w'.version < w.version) : replay held w = some w := by
  unfold replay
  refine if_neg ?_
  cases held with
  | none => simp
  | some w' =>
    rw [Option.any_some, decide_eq_true_eq]
    exact not_le_of_gt (h w' rfl)

theorem replay_of_le {w w' : Write} (h : w.version ≤ w'.version) :
    replay (some w') w = some w' := if_pos (decide_eq_true h)

/-- Whatever a backup is told of, it holds nothing older afterwards. -/
theorem le_replay {held : Option Write} {v : WriteVersion} (h : ∃ w' ∈ held, v ≤ w'.version)
    (w : Write) : ∃ w' ∈ replay held w, v ≤ w'.version := by
  obtain ⟨w', rfl, hv⟩ := h
  by_cases hle : w.version ≤ w'.version
  · rw [replay_of_le hle]
    exact ⟨w', rfl, hv⟩
  · refine ⟨w, ?_, le_trans hv (le_of_not_ge hle)⟩
    exact if_neg (by simpa using hle)

/-- A write that a backup was told of it holds, or a newer one. -/
theorem le_replay_self (held : Option Write) (w : Write) :
    ∃ w' ∈ replay held w, w.version ≤ w'.version := by
  unfold replay
  split
  next hany =>
    cases held with
    | none => cases hany
    | some w' => exact ⟨w', rfl, of_decide_eq_true hany⟩
  next => exact ⟨w, rfl, le_refl w.version⟩

/-- Of all writes that a backup was told of, it holds none that is older. -/
theorem le_replay_of_mem {ws : List Write} {w : Write} (hw : w ∈ ws) :
    ∀ held : Option Write, ∃ w' ∈ ws.foldl replay held, w.version ≤ w'.version := by
  have hkeep (ws : List Write) : ∀ held : Option Write, (∃ w' ∈ held, w.version ≤ w'.version) →
      ∃ w' ∈ ws.foldl replay held, w.version ≤ w'.version := by
    induction ws with
    | nil => exact fun held h => h
    | cons w₁ ws ih => exact fun held h => ih _ (le_replay h w₁)
  induction ws with
  | nil => cases hw
  | cons w₁ ws ih =>
    intro held
    rw [List.foldl_cons]
    rcases List.mem_cons.1 hw with rfl | hw
    · exact hkeep ws _ (le_replay_self held w)
    · exact ih hw _

/-- Of equal writes, the first counts. -/
theorem replay_all {w : Write} (held : Option Write) {ws : List Write} (hne : ws ≠ [])
    (h : ∀ w' ∈ ws, w' = w) : ws.foldl replay held = replay held w := by
  have hagain (held : Option Write) : replay (replay held w) w = replay held w := by
    unfold replay
    split
    next => rfl
    next hle => exact replay_of_le (le_refl w.version)
  induction ws generalizing held with
  | nil => exact absurd rfl hne
  | cons w' ws ih =>
    obtain rfl : w' = w := h w' List.mem_cons_self
    rw [List.foldl_cons]
    by_cases hws : ws = []
    · rw [hws]
      rfl
    · rw [ih _ hws fun w'' hw => h w'' (List.mem_cons_of_mem _ hw), hagain]

/-- Of rising versions, the last one is the newest. -/
theorem replay_rising {ws : List Write} (h : ws.Pairwise (·.version < ·.version)) :
    ws.foldl replay none = ws.getLast? := by
  induction ws using List.reverseRecOn with
  | nil => rfl
  | append_singleton ws w ih =>
    rw [List.pairwise_append] at h
    obtain ⟨hws, -, hlt⟩ := h
    rw [List.foldl_append, ih hws, List.getLast?_concat]
    apply replay_of_lt
    intro w' hw'
    exact hlt w' (List.mem_of_getLast? hw') w (List.mem_singleton_self w)

end Write

/-- What a store holds of a key. -/
def Store.held (s : Store) (key : Key) : Option Write :=
  (s.version? key).map fun version => ⟨version, s.get? key⟩

namespace Store

variable {processors : Processors} {s : Store} {partition : UInt32}

/-! ## Single writes -/

section

variable (s : Store) (k : Key) (value : Option Value) (version : WriteVersion) (ttl : Int64)
  (key : Key)

/-- A value goes to the entries, with the life time of the entry before if it is not to change.  A
removal erases the entry. -/
theorem live?_write : (s.write k value version ttl).live? key =
    if key = k then value.map fun v =>
      ⟨v, version, if ttl = ttlUnchanged then (s.ttl? k).getD ttl else ttl⟩
    else s.live? key := by
  unfold live? write
  cases value with
  | none => exact SortedMap.get?_erase_ite s.entries k key
  | some v => exact SortedMap.get?_insert_ite s.entries k key _

/-- A removal goes to the removals.  A value erases it. -/
theorem removal?_write : (s.write k value version ttl).removal? key =
    if key = k then (if value = none then some version else none) else s.removal? key := by
  unfold removal? write
  cases value with
  | none => exact SortedMap.get?_insert_ite s.removed k key version
  | some v => exact SortedMap.get?_erase_ite s.removed k key

theorem get?_write : (s.write k value version ttl).get? key =
    if key = k then value else s.get? key := by
  unfold get?
  rw [live?_write]
  split
  · rw [Option.map_map]
    exact Option.map_id'
  · rfl

theorem version?_write : (s.write k value version ttl).version? key =
    if key = k then some version else s.version? key := by
  unfold version?
  rw [live?_write, removal?_write]
  split
  · cases value <;> rfl
  · rfl

/-- A value is left with the life time it is written with, or with the one it had. -/
theorem ttl?_write : (s.write k value version ttl).ttl? key =
    if key = k then value.map fun _ => if ttl = ttlUnchanged then (s.ttl? k).getD ttl else ttl
    else s.ttl? key := by
  unfold ttl?
  rw [live?_write]
  split
  · rw [Option.map_map]
    rfl
  · rfl

theorem held_write : (s.write k value version ttl).held key =
    if key = k then some ⟨version, value⟩ else s.held key := by
  unfold held
  rw [version?_write, get?_write]
  split <;> rfl

end

/-- Two stores have the same of a key, in both maps. -/
structure SameAt (key : Key) (s s' : Store) : Prop where
  live : s'.live? key = s.live? key
  removal : s'.removal? key = s.removal? key

theorem sameAt_write (s : Store) {k key : Key} (h : key ≠ k) (value : Option Value)
    (version : WriteVersion) (ttl : Int64) : SameAt key s (s.write k value version ttl) := by
  constructor
  · rw [live?_write, if_neg h]
  · rw [removal?_write, if_neg h]

theorem version?_eq_held (s : Store) (key : Key) :
    s.version? key = (s.held key).map (·.version) := by
  unfold held
  rw [Option.map_map]
  exact Option.map_id'.symm

/-! ## Updates and backup writes -/

/-- An update is refused or held back and changes nothing, or it writes its key and is counted. -/
theorem apply_cases (processors : Processors) (s : Store) (partition : UInt32) (w : WriteCommand) :
    (∃ cause, s.apply processors partition w = (s, .error cause)) ∨
      (∃ a : AppliedWrite, a.filtered = true ∧ s.apply processors partition w = (s, .ok a)) ∨
      ∃ a : AppliedWrite, a.filtered = false ∧ a.updateCounter = s.updateCounter partition + 1 ∧
        s.apply processors partition w =
          ((s.write w.key a.newValue w.version a.ttl).countUpdate partition, .ok a) := by
  unfold apply
  simp only
  split
  next =>
    split
    next new invoke hc =>
      refine .inr (.inr ⟨⟨s.get? w.key, new, invoke, false, _, _⟩, rfl, ?_, rfl⟩)
      simp [updateCounter, countUpdate]
    next => exact .inr (.inl ⟨_, rfl, rfl⟩)
    next cause hc => exact .inl ⟨cause, rfl⟩
  next => exact .inr (.inl ⟨_, rfl, rfl⟩)

/-- A backup write is ignored, or it writes its key and sets the counter. -/
theorem applyBackup_cases (s : Store) (partition : UInt32) (e : BackupEntry)
    (version : WriteVersion) :
    ((s.version? e.key).any (version ≤ ·) = true ∧ s.applyBackup partition e version = s) ∨
      ((s.version? e.key).any (version ≤ ·) = false ∧ ∃ counters,
        s.applyBackup partition e version =
          { s.write e.key e.value version e.ttl with counters }) := by
  unfold applyBackup
  split
  next h => exact .inl ⟨h, rfl⟩
  next h => exact .inr ⟨Bool.eq_false_iff.2 h, _, rfl⟩

theorem held_applyBackup (s : Store) (partition : UInt32) (e : BackupEntry)
    (version : WriteVersion) (key : Key) :
    (s.applyBackup partition e version).held key =
      if e.key = key then Write.replay (s.held key) ⟨version, e.value⟩ else s.held key := by
  have hany : (s.version? e.key).any (version ≤ ·) = (s.held e.key).any (version ≤ ·.version) := by
    rw [version?_eq_held, Option.any_map]
  unfold Write.replay
  rcases s.applyBackup_cases partition e version with ⟨hold, h⟩ | ⟨hnew, counters, h⟩
  · rw [h]
    split
    next hk =>
      subst hk
      rw [if_pos (hany ▸ hold)]
    next => rfl
  · rw [h]
    show (s.write e.key e.value version e.ttl).held key = _
    rw [held_write]
    by_cases hk : e.key = key
    · subst hk
      rw [if_pos rfl, if_pos rfl, if_neg]
      rw [← hany, hnew]
      exact Bool.false_ne_true
    · rw [if_neg hk, if_neg (Ne.symm hk)]

/-- What the primary holds after an update: what was applied, unless it was held back. -/
theorem held_apply (processors : Processors) (s : Store) (partition : UInt32) (w : WriteCommand)
    (key : Key) : (s.apply processors partition w).1.held key =
      match (s.apply processors partition w).2 with
      | .ok a => if a.filtered = false ∧ key = w.key then some ⟨w.version, a.newValue⟩
        else s.held key
      | .error _ => s.held key := by
  rcases apply_cases processors s partition w with ⟨cause, h⟩ | ⟨a, hf, h⟩ | ⟨a, hf, hc, h⟩
  · rw [h]
  · rw [h]
    simp [hf]
  · rw [h]
    show (s.write w.key a.newValue w.version a.ttl).held key = _
    rw [held_write]
    simp [hf]

/-! ## Entries and removals apart -/

/-- No key has both an entry and a removal. -/
def Apart (s : Store) : Prop := ∀ key, s.live? key = none ∨ s.removal? key = none

/-- A store has of a key what one write left, and nothing else in either map. -/
inductive Has (s : Store) (key : Key) : Option Write → Prop
  | nothing (hl : s.live? key = none) (hr : s.removal? key = none) : Has s key none
  | entry {e : StoredEntry} (hl : s.live? key = some e) (hr : s.removal? key = none) :
      Has s key (some ⟨e.version, some e.value⟩)
  | removal {version : WriteVersion} (hl : s.live? key = none)
      (hr : s.removal? key = some version) : Has s key (some ⟨version, none⟩)

/-- Where no key is in both maps, what is held of a key is all there is of it. -/
theorem Apart.has (h : s.Apart) (key : Key) : s.Has key (s.held key) := by
  have hkey := h key
  unfold held version? get?
  cases hl : s.live? key with
  | none =>
    cases hr : s.removal? key with
    | none => exact .nothing hl hr
    | some version => exact .removal hl hr
  | some e =>
    rw [hl] at hkey
    exact .entry hl (hkey.resolve_left (Option.some_ne_none e))

/-- What the operations make of an empty store. -/
inductive Arisen : Store → Prop
  | empty : Arisen {}
  | applied {s : Store} (h : Arisen s) (processors : Processors) (partition : UInt32)
      (w : WriteCommand) : Arisen (s.apply processors partition w).1
  | backedUp {s : Store} (h : Arisen s) (partition : UInt32) (e : BackupEntry)
      (version : WriteVersion) : Arisen (s.applyBackup partition e version)
  | read {s : Store} (h : Arisen s) (key : Key) (node : NodeId) : Arisen (s.addReader key node)

/-- Whichever of the two maps a write goes to, it erases its key from the other. -/
theorem Apart.write (h : s.Apart) (k : Key) (value : Option Value) (version : WriteVersion)
    (ttl : Int64) : (s.write k value version ttl).Apart := by
  intro key
  rw [live?_write, removal?_write]
  by_cases hk : key = k
  · rw [if_pos hk, if_pos hk]
    cases value with
    | none => exact .inl rfl
    | some v => exact .inr rfl
  · rw [if_neg hk, if_neg hk]
    exact h key

theorem Apart.apply (h : s.Apart) (processors : Processors) (partition : UInt32)
    (w : WriteCommand) : (s.apply processors partition w).1.Apart := by
  rcases apply_cases processors s partition w with ⟨cause, ha⟩ | ⟨a, hf, ha⟩ | ⟨a, hf, hc, ha⟩
  · rw [ha]
    exact h
  · rw [ha]
    exact h
  · rw [ha]
    exact h.write w.key a.newValue w.version a.ttl

theorem Apart.applyBackup (h : s.Apart) (partition : UInt32) (e : BackupEntry)
    (version : WriteVersion) : (s.applyBackup partition e version).Apart := by
  rcases s.applyBackup_cases partition e version with ⟨-, ha⟩ | ⟨-, counters, ha⟩
  · rw [ha]
    exact h
  · rw [ha]
    exact h.write e.key e.value version e.ttl

/-- Whatever was written and removed, no key has both an entry and a removal. -/
theorem Arisen.apart (h : Arisen s) : s.Apart := by
  induction h with
  | empty => exact fun key => .inl rfl
  | applied h processors partition w ih => exact ih.apply processors partition w
  | backedUp h partition e version ih => exact ih.applyBackup partition e version
  | read h key node ih => exact ih

end Store

end AtomicGrid
