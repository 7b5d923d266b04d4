import AtomicGrid.Proofs.SortedMap
import AtomicGrid.UpdateReturn

/-!
# Partial returns

The outcomes of an entry processor may come in several returns, each for keys of its own.  A return
without outcomes is a bare flag then.  Merging them gives one return, which does not depend on the
order they come in, nor on which are merged first.

## Results

* `UpdateReturn.outcomeOf_addOutcome`, `UpdateReturn.outcomeOf_merge`: what a return says of a key.
* `UpdateReturn.Unites.unique`: there is one return that unites some parts.
* `UpdateReturn.Merging.unites_merged`: merging parts unites them, in any order and grouping.
-/

set_option autoImplicit false

namespace AtomicGrid.UpdateReturn

variable {r r' : UpdateReturn} {rs rs' : List UpdateReturn}

/-- The outcome of the entry processor on a key, if the return carries it. -/
def outcomeOf (r : UpdateReturn) (key : Key) : Option InvokeOutcome :=
  r.outcomes?.bind (·.get? key)

@[simp] theorem outcomeOf_flag (success : Bool) (key : Key) :
    (flag success).outcomeOf key = none := rfl

@[simp] theorem success_addOutcome (r : UpdateReturn) (key : Key) (o : InvokeOutcome) :
    (r.addOutcome key o).success = r.success := by
  unfold addOutcome
  split <;> rfl

theorem outcomeOf_addOutcome (r : UpdateReturn) (key key' : Key) (o : InvokeOutcome) :
    (r.addOutcome key o).outcomeOf key' = if key' = key then some o else r.outcomeOf key' := by
  obtain ⟨value, success⟩ := r
  have hfirst : ((∅ : SortedMap Key InvokeOutcome).insert key o).get? key' =
      if key' = key then some o else none := SortedMap.get?_insert_ite ∅ key key' o
  match value with
  | none => exact hfirst
  | some (.previous v) => exact hfirst
  | some (.transform outcomes) => exact SortedMap.get?_insert_ite outcomes key key' o

/-! ## Two returns -/

/-- The return carries outcomes or nothing, but no value from before the update. -/
def IsPartial (r : UpdateReturn) : Prop := ∀ v, r.value ≠ some (.previous v)

/-- No key has an outcome in both returns. -/
def Apart (r r' : UpdateReturn) : Prop := ∀ key, r.outcomeOf key = none ∨ r'.outcomeOf key = none

theorem Apart.symm (h : r.Apart r') : r'.Apart r := fun key => (h key).symm

/-- A partial return is a bare flag, or carries outcomes. -/
theorem IsPartial.cases (h : r.IsPartial) :
    r = flag r.success ∨ ∃ outcomes, r = ⟨some (.transform outcomes), r.success⟩ := by
  obtain ⟨value, success⟩ := r
  match value with
  | none => exact .inl rfl
  | some (.previous v) => exact absurd rfl (h v)
  | some (.transform outcomes) => exact .inr ⟨outcomes, rfl⟩

@[simp] theorem success_merge (r r' : UpdateReturn) :
    (r.merge r').success = (r.success && r'.success) := rfl

theorem value_merge_eq_none_iff :
    (r.merge r').value = none ↔ r.value = none ∧ r'.value = none := by
  obtain ⟨value, success⟩ := r
  obtain ⟨value', success'⟩ := r'
  match value, value' with
  | none, _ => simp [merge]
  | some (.previous v), _ => simp [merge]
  | some (.transform outcomes), none => simp [merge]
  | some (.transform outcomes), some (.previous v) => simp [merge]
  | some (.transform outcomes), some (.transform outcomes') => simp [merge]

theorem IsPartial.merge (h : r.IsPartial) (h' : r'.IsPartial) : (r.merge r').IsPartial := by
  intro v
  rcases h.cases with hr | ⟨outcomes, hr⟩
  · rw [hr]
    exact h' v
  · rcases h'.cases with hr' | ⟨outcomes', hr'⟩
    · rw [hr, hr']
      nofun
    · rw [hr, hr']
      nofun

/-- Where both returns have an outcome of a key, that of the second one counts. -/
theorem outcomeOf_merge (h : r.IsPartial) (h' : r'.IsPartial) (key : Key) :
    (r.merge r').outcomeOf key = (r'.outcomeOf key).or (r.outcomeOf key) := by
  rcases h.cases with hr | ⟨outcomes, hr⟩
  · rw [hr, outcomeOf_flag, Option.or_none]
    rfl
  · rcases h'.cases with hr' | ⟨outcomes', hr'⟩
    · rw [hr, hr']
      rfl
    · rw [hr, hr']
      exact SortedMap.get?_insertMany key outcomes'.entries outcomes outcomes'.sorted

/-! ## Any number of returns -/

/-- The return says what the parts say together. -/
structure Unites (rs : List UpdateReturn) (r : UpdateReturn) : Prop where
  isPartial : r.IsPartial
  success : r.success = rs.all (·.success)
  /-- There are outcomes, or at least the place for them, if some part has it. -/
  bare : r.value = none ↔ ∀ p ∈ rs, p.value = none
  outcomeOf : ∀ key o, r.outcomeOf key = some o ↔ ∃ p ∈ rs, p.outcomeOf key = some o

/-- There is one return that unites some parts. -/
theorem Unites.unique (h : Unites rs r) (h' : Unites rs r') : r = r' := by
  have hsuccess : r.success = r'.success := h.success.trans h'.success.symm
  have hkey (key : Key) : r.outcomeOf key = r'.outcomeOf key := by
    apply Option.ext
    intro o
    rw [h.outcomeOf, h'.outcomeOf]
  have hbare : r.value = none ↔ r'.value = none := h.bare.trans h'.bare.symm
  rcases h.isPartial.cases with hr | ⟨outcomes, hr⟩ <;>
    rcases h'.isPartial.cases with hr' | ⟨outcomes', hr'⟩
  · rw [hr, hr', hsuccess]
  · rw [hr, hr'] at hbare
    simp [flag] at hbare
  · rw [hr, hr'] at hbare
    simp [flag] at hbare
  · have hsame : outcomes = outcomes' := by
      apply SortedMap.ext_get?
      intro key
      have hk := hkey key
      rw [hr, hr'] at hk
      exact hk
    rw [hr, hr', hsame, hsuccess]

theorem Unites.perm (h : Unites rs r) (hp : rs.Perm rs') : Unites rs' r where
  isPartial := h.isPartial
  success := h.success.trans (Bool.eq_iff_iff.2 (by simp [hp.mem_iff]))
  bare := h.bare.trans (by simp [hp.mem_iff])
  outcomeOf key o := (h.outcomeOf key o).trans (by simp [hp.mem_iff])

theorem unites_singleton (h : r.IsPartial) : Unites [r] r where
  isPartial := h
  success := by simp
  bare := by simp
  outcomeOf key o := by simp

/-- Merging unites the parts of both sides, if no key has outcomes on both. -/
theorem Unites.merge (h : Unites rs r) (h' : Unites rs' r')
    (hd : ∀ p ∈ rs, ∀ p' ∈ rs', p.Apart p') : Unites (rs ++ rs') (r.merge r') where
  isPartial := h.isPartial.merge h'.isPartial
  success := by rw [success_merge, h.success, h'.success, List.all_append]
  bare := by
    rw [value_merge_eq_none_iff, h.bare, h'.bare, List.forall_mem_append]
  outcomeOf key o := by
    have hone : ¬ ((∃ p ∈ rs, ∃ o, p.outcomeOf key = some o) ∧
        ∃ p ∈ rs', ∃ o, p.outcomeOf key = some o) := by
      rintro ⟨⟨p, hp, o, ho⟩, p', hp', o', ho'⟩
      rcases hd p hp p' hp' key with hn | hn
      · rw [ho] at hn
        cases hn
      · rw [ho'] at hn
        cases hn
    rw [outcomeOf_merge h.isPartial h'.isPartial, Option.or_eq_some_iff, h'.outcomeOf,
      h.outcomeOf]
    simp only [List.mem_append, or_and_right, exists_or]
    constructor
    · rintro (hr | ⟨-, hl⟩)
      · exact .inr hr
      · exact .inl hl
    · rintro (⟨p, hp, ho⟩ | hr)
      · refine .inr ⟨?_, p, hp, ho⟩
        rw [Option.eq_none_iff_forall_not_mem]
        intro o' ho'
        obtain ⟨p', hp', ho'⟩ := (h'.outcomeOf key o').1 ho'
        exact hone ⟨⟨p, hp, o, ho⟩, p', hp', o', ho'⟩
      · exact .inl hr

/-- A way to merge several returns: which are taken together first, and in which order. -/
inductive Merging where
  | part (r : UpdateReturn)
  | both (a b : Merging)

namespace Merging

def parts : Merging → List UpdateReturn
  | part r => [r]
  | both a b => a.parts ++ b.parts

def merged : Merging → UpdateReturn
  | part r => r
  | both a b => a.merged.merge b.merged

theorem unites_merged (m : Merging) (hp : ∀ p ∈ m.parts, p.IsPartial)
    (hd : m.parts.Pairwise Apart) : Unites m.parts m.merged := by
  induction m with
  | part r => exact unites_singleton (hp r (List.mem_singleton_self r))
  | both a b iha ihb =>
    obtain ⟨hda, hdb, hab⟩ := List.pairwise_append.1 hd
    have ha := iha (fun p hmem => hp p (List.mem_append_left _ hmem)) hda
    have hb := ihb (fun p hmem => hp p (List.mem_append_right _ hmem)) hdb
    exact ha.merge hb hab

/-- Partial returns for different keys can be merged in any order and any grouping: the return unites
them, and is always the same. -/
theorem merged_of_perm {rs : List UpdateReturn} (hp : ∀ p ∈ rs, p.IsPartial)
    (hd : rs.Pairwise Apart) {m : Merging} (hm : m.parts.Perm rs) :
    Unites rs m.merged ∧ ∀ m' : Merging, m'.parts.Perm rs → m'.merged = m.merged := by
  have hunites (m : Merging) (hm : m.parts.Perm rs) : Unites rs m.merged := by
    refine Unites.perm (m.unites_merged ?_ ?_) hm
    · intro p hmem
      exact hp p (hm.mem_iff.1 hmem)
    · exact (hm.pairwise_iff Apart.symm).2 hd
  exact ⟨hunites m hm, fun m' hm' => (hunites m' hm').unique (hunites m hm)⟩

/-- A bare flag, and the outcomes of two keys each. -/
def threeParts : List UpdateReturn :=
  [flag false, ((flag true).addOutcome [1] (.value none)).addOutcome [2] (.error "no"),
    ((flag true).addOutcome [3] (.value (some [7]))).addOutcome [4] (.value none)]

theorem merged_threeParts :
    let m : Merging := both (both (part threeParts[2]) (part threeParts[0])) (part threeParts[1])
    let m' : Merging := both (part threeParts[0]) (both (part threeParts[1]) (part threeParts[2]))
    m.merged.success = false ∧ m.merged.outcomeOf [3] = some (.value (some [7])) ∧
      m'.merged = m.merged := by
  intro m m'
  have hp : ∀ p ∈ threeParts, p.IsPartial := by
    intro p hmem v hv
    simp only [threeParts, List.mem_cons, List.not_mem_nil, or_false] at hmem
    rcases hmem with rfl | rfl | rfl <;> cases hv
  have hd : threeParts.Pairwise Apart := by
    have hbare (r : UpdateReturn) : (flag false).Apart r := fun _ => .inl rfl
    have hkeys : (threeParts[1]).Apart threeParts[2] := by
      intro key
      simp only [threeParts, List.getElem_cons_succ, List.getElem_cons_zero, outcomeOf_addOutcome,
        outcomeOf_flag]
      grind
    simpa [threeParts, hbare] using hkeys
  have hm : m.parts.Perm threeParts := by decide
  obtain ⟨hu, hsame⟩ := merged_of_perm hp hd hm
  refine ⟨hu.success, (hu.outcomeOf _ _).2 ⟨threeParts[2], by decide, by decide⟩, ?_⟩
  exact hsame m' (by decide)

end Merging

end AtomicGrid.UpdateReturn
