import AtomicGrid.Proofs.Grid.Applied
import AtomicGrid.Proofs.Node.Rejections
import AtomicGrid.Proofs.Store.Replay
import AtomicGrid.Proofs.UpdateReturn

/-!
# What entry processors return

A primary runs the entry processor of a request on its keys in order, and collects the outcomes in
the return.  A key that a condition holds back makes the return a failure.  If the caller has also
asked for values, it replaces what the return carries, and the outcomes of the keys before it are
lost.

## Results

* `Node.records_applyEntry`: what one entry does to the return.
* `Node.RecordsAll.success_iff`, `Node.RecordsAll.outcomeOf_iff`: what all entries do.
* `Moment.return_transform`: the return of a request that is carried out.
* `Solo.outcome_lost`: the outcome of a key may be lost.
-/

set_option autoImplicit false

namespace AtomicGrid

/-- What the caller is told of the result of an entry processor. -/
def InvokeOutcome.ofResult : Except String (Option Value × Option Bytes) → InvokeOutcome
  | .ok (_, result) => .value result
  | .error message => .error message

def InvokeOutcome.failed : InvokeOutcome → Bool
  | .value _ => false
  | .error _ => true

namespace Node

variable {view : View} {n : Node} {near : NodeId} {q : UpdateRequest} {e : UpdateEntry}
  {es : List UpdateEntry} {r r' : UpdateReturn}

/-- A condition of the request does not hold of the value that the key has before. -/
structure HeldBack (n : Node) (q : UpdateRequest) (e : UpdateEntry) : Prop where
  taken : n.faults.get? e.key = none
  condition : ∃ f ∈ q.payload.filters, f.accepts (n.store.get? e.key) = false

/-- The entry processor runs on the value that the key has before, with the outcome `o`. -/
structure Runs (n : Node) (q : UpdateRequest) (e : UpdateEntry) (o : InvokeOutcome) : Prop where
  taken : n.faults.get? e.key = none
  conditions : ∀ f ∈ q.payload.filters, f.accepts (n.store.get? e.key) = true
  processor : ∃ ref process, e.processor = some ref ∧ n.processors ref.name = some process ∧
    o = .ofResult (process (n.store.get? e.key) q.payload.args)

theorem Runs.not_heldBack {o : InvokeOutcome} (h : n.Runs q e o) : ¬ n.HeldBack q e := by
  rintro ⟨-, f, hf, hfalse⟩
  rw [h.conditions f hf] at hfalse
  cases hfalse

theorem Runs.unique {o o' : InvokeOutcome} (h : n.Runs q e o) (h' : n.Runs q e o') : o = o' := by
  obtain ⟨ref, process, hr, hp, rfl⟩ := h.processor
  obtain ⟨ref', process', hr', hp', rfl⟩ := h'.processor
  cases hr.symm.trans hr'
  cases hp.symm.trans hp'
  rfl

/-! ## One entry -/

/-- How the store takes an entry for an entry processor. -/
inductive Takes (n : Node) (q : UpdateRequest) (e : UpdateEntry) :
    Except FailureCause AppliedWrite → Prop
  | refused (cause : FailureCause) (hh : ¬ n.HeldBack q e) (hr : ∀ o, ¬ n.Runs q e o) :
      Takes n q e (.error cause)
  | heldBack {a : AppliedWrite} (h : n.HeldBack q e) (hi : a.invoke = none)
      (hf : a.filtered = true) : Takes n q e (.ok a)
  | ran {a : AppliedWrite} {o : InvokeOutcome} (h : n.Runs q e o) (hi : a.invoke = some o)
      (hf : a.filtered = o.failed) : Takes n q e (.ok a)

theorem takes_applyWrite (hop : q.operation = .transform) {store : Store}
    (hv : store.get? e.key = n.store.get? e.key) :
    n.Takes q e (n.applyWrite store q.partition (q.writeCommand e)).2 := by
  unfold applyWrite
  cases htaken : n.faults.get? e.key with
  | some cause =>
    simp only [UpdateRequest.writeCommand, htaken]
    refine .refused cause (fun h => ?_) (fun o h => ?_)
    · cases htaken.symm.trans h.taken
    · cases htaken.symm.trans h.taken
  | none =>
    -- the conditions come first, then the processor is looked up and runs
    simp only [UpdateRequest.writeCommand, htaken, Store.apply, Store.compute, hop, hv]
    by_cases hall : q.payload.filters.all (·.accepts (n.store.get? e.key)) = true
    · have hconditions : ∀ f ∈ q.payload.filters, f.accepts (n.store.get? e.key) = true :=
        List.all_eq_true.1 hall
      have hheld : ¬ n.HeldBack q e := by
        rintro ⟨-, f, hf, hfalse⟩
        cases (hconditions f hf).symm.trans hfalse
      rw [if_pos hall]
      cases href : e.processor with
      | none =>
        refine .refused _ hheld fun o h => ?_
        obtain ⟨ref, process, hr, -⟩ := h.processor
        cases href.symm.trans hr
      | some ref =>
        cases hprocess : n.processors ref.name with
        | none =>
          simp only [hprocess]
          refine .refused _ hheld fun o h => ?_
          obtain ⟨ref', process, hr, hp, -⟩ := h.processor
          cases href.symm.trans hr
          cases hprocess.symm.trans hp
        | some process =>
          have hruns : n.Runs q e (.ofResult (process (n.store.get? e.key) q.payload.args)) :=
            ⟨htaken, hconditions, ref, process, href, hprocess, rfl⟩
          simp only [hprocess]
          cases hresult : process (n.store.get? e.key) q.payload.args with
          | ok result =>
            rw [hresult] at hruns
            exact .ran hruns rfl rfl
          | error message =>
            rw [hresult] at hruns
            exact .ran hruns rfl rfl
    · rw [if_neg hall]
      rw [List.all_eq_true] at hall
      push Not at hall
      obtain ⟨f, hf, hfalse⟩ := hall
      exact .heldBack ⟨htaken, f, hf, Bool.eq_false_iff.2 hfalse⟩ rfl rfl

theorem get?_applyWrite_of_ne (n : Node) (store : Store) (partition : UInt32) (w : WriteCommand)
    {key : Key} (h : key ≠ w.key) :
    (n.applyWrite store partition w).1.get? key = store.get? key := by
  unfold applyWrite
  split
  next => rfl
  next =>
    rcases store.apply_cases n.processors partition w with ⟨cause, ha⟩ | ⟨a, -, ha⟩ | ⟨a, -, -, ha⟩
    · rw [ha]
    · rw [ha]
    · rw [ha]
      show (store.write w.key a.newValue w.version a.ttl).get? key = _
      rw [store.get?_write, if_neg h]

/-- What an entry for an entry processor does to the return. -/
inductive Records (n : Node) (q : UpdateRequest) (e : UpdateEntry) (r r' : UpdateReturn) : Prop
  | refused (hh : ¬ n.HeldBack q e) (hr : ∀ o, ¬ n.Runs q e o) (h : r' = r)
  /-- The outcomes so far are lost if the caller has asked for values. -/
  | heldBack (hh : n.HeldBack q e) (hs : r'.success = false)
      (ho : ∀ key, r'.outcomeOf key = if q.flags.returnValue then none else r.outcomeOf key)
  | ran {o : InvokeOutcome} (hr : n.Runs q e o) (hs : r'.success = (r.success && !o.failed))
      (ho : ∀ key, r'.outcomeOf key = if key = e.key then some o else r.outcomeOf key)

theorem records_applyEntry (hop : q.operation = .transform) {s : Applied}
    (hv : s.store.get? e.key = n.store.get? e.key) :
    n.Records q e s.ret (n.applyEntry view near q s e).ret := by
  have ht : n.Takes q e (n.applyWrite s.store q.partition (q.writeCommand e)).2 :=
    takes_applyWrite hop hv
  unfold applyEntry
  generalize n.applyWrite s.store q.partition (q.writeCommand e) = x at ht
  obtain ⟨store, x⟩ := x
  cases ht with
  | refused cause hh hr => exact .refused hh hr rfl
  | @heldBack a hh hi hf =>
    simp only [returnOf, hi, hf, if_true]
    refine .heldBack hh rfl fun key => ?_
    split <;> rfl
  | @ran a o hr hi hf =>
    refine .ran hr ?_ fun key => ?_
    · simp only [returnOf, hi, hf]
      cases o with
      | value v => simp [InvokeOutcome.failed]
      | error m => simp [InvokeOutcome.failed]
    · rw [← UpdateReturn.outcomeOf_addOutcome]
      simp only [returnOf, hi, hf]
      cases o.failed <;> rfl

/-! ## All entries -/

/-- What the entries of a request do to the return, in order. -/
inductive RecordsAll (n : Node) (q : UpdateRequest) :
    UpdateReturn → List UpdateEntry → UpdateReturn → Prop
  | nil (r : UpdateReturn) : RecordsAll n q r [] r
  | cons {r r₁ r' : UpdateReturn} {e : UpdateEntry} {es : List UpdateEntry}
      (h : n.Records q e r r₁) (hs : RecordsAll n q r₁ es r') : RecordsAll n q r (e :: es) r'

/-- None of the entries replaces what the return carries. -/
def Keeps (n : Node) (q : UpdateRequest) (es : List UpdateEntry) : Prop :=
  q.flags.returnValue = true → ∀ e ∈ es, ¬ n.HeldBack q e

theorem recordsAll_foldl (hop : q.operation = .transform) : ∀ s : Applied,
    (es.map (·.key)).Nodup → (∀ e ∈ es, s.store.get? e.key = n.store.get? e.key) →
      n.RecordsAll q s.ret es (es.foldl (n.applyEntry view near q) s).ret := by
  induction es with
  | nil => exact fun s _ _ => .nil s.ret
  | cons e es ih =>
    intro s hnd hv
    obtain ⟨hnew, hnd⟩ := List.nodup_cons.1 hnd
    refine .cons (records_applyEntry hop (hv e List.mem_cons_self)) (ih _ hnd fun e' he' => ?_)
    -- the keys to come have the values they had before
    have hne : e'.key ≠ e.key := fun heq => hnew (List.mem_map.2 ⟨e', he', heq⟩)
    rw [store_applyEntry, get?_applyWrite_of_ne _ _ _ _ hne]
    exact hv e' (List.mem_cons_of_mem e he')

theorem recordsAll_applied (view : View) (n : Node) (near : NodeId)
    (hop : q.operation = .transform) (hnd : q.keys.Nodup) :
    n.RecordsAll q (.flag true) q.payload.entries (n.applied view near q).ret := by
  rw [UpdateRequest.keys, UpdatePayload.keys_eq] at hnd
  have hfresh : n.freshFuture.1.applyEntry view near q = n.applyEntry view near q := rfl
  let start : Applied := { store := n.store, fanout := .start n.site near q n.nextFuture }
  unfold applied
  rw [hfresh]
  exact recordsAll_foldl hop start hnd fun _ _ => rfl

theorem Records.success_iff (h : n.Records q e r r') : r'.success = true ↔
    r.success = true ∧ ¬ n.HeldBack q e ∧ ∀ m, ¬ n.Runs q e (.error m) := by
  cases h with
  | refused hh hr h =>
    subst h
    exact ⟨fun hs => ⟨hs, hh, fun m => hr _⟩, And.left⟩
  | heldBack hh hs =>
    rw [hs]
    exact ⟨nofun, fun h => absurd hh h.2.1⟩
  | @ran o hr hs =>
    rw [hs]
    cases o with
    | value v =>
      have herr (m : String) : ¬ n.Runs q e (.error m) := fun h => nomatch hr.unique h
      simp [InvokeOutcome.failed, hr.not_heldBack, herr]
    | error m =>
      simp only [InvokeOutcome.failed, Bool.not_true, Bool.and_false, Bool.false_eq_true, false_iff]
      exact fun h => h.2.2 m hr

theorem RecordsAll.success_iff (h : n.RecordsAll q r es r') : r'.success = true ↔
    r.success = true ∧ ∀ e ∈ es, ¬ n.HeldBack q e ∧ ∀ m, ¬ n.Runs q e (.error m) := by
  induction h with
  | nil => simp
  | cons h _ ih => rw [ih, h.success_iff, List.forall_mem_cons, and_assoc]

/-- An entry of another key leaves the outcome of a key, or loses it. -/
theorem Records.outcomeOf_of_ne (h : n.Records q e r r') {key : Key} (hne : key ≠ e.key)
    (o : InvokeOutcome) :
    r'.outcomeOf key = some o ↔ r.outcomeOf key = some o ∧ n.Keeps q [e] := by
  have hkeeps (hh : ¬ n.HeldBack q e) : n.Keeps q [e] := fun _ e' he' => List.mem_singleton.1 he' ▸ hh
  cases h with
  | refused hh hr h =>
    subst h
    exact ⟨fun ho => ⟨ho, hkeeps hh⟩, And.left⟩
  | heldBack hh hs ho =>
    rw [ho]
    cases hv : q.flags.returnValue with
    | true => exact ⟨nofun, fun h => absurd hh (h.2 hv e (List.mem_singleton_self e))⟩
    | false =>
      have hk : n.Keeps q [e] := fun hr => nomatch hv.symm.trans hr
      exact ⟨fun ho => ⟨ho, hk⟩, And.left⟩
  | ran hr hs ho =>
    rw [ho, if_neg hne]
    exact ⟨fun ho => ⟨ho, hkeeps hr.not_heldBack⟩, And.left⟩

theorem keeps_cons : n.Keeps q (e :: es) ↔ n.Keeps q [e] ∧ n.Keeps q es := by
  simp only [Keeps, List.forall_mem_cons, List.not_mem_nil, false_implies, implies_true, and_true,
    imp_and]

/-- Entries of other keys leave the outcome of a key, unless one of them replaces the return. -/
theorem RecordsAll.outcomeOf_of_notMem (h : n.RecordsAll q r es r') {key : Key}
    (hkey : key ∉ es.map (·.key)) (o : InvokeOutcome) :
    r'.outcomeOf key = some o ↔ r.outcomeOf key = some o ∧ n.Keeps q es := by
  induction h with
  | nil => exact ⟨fun ho => ⟨ho, fun _ _ he => nomatch he⟩, And.left⟩
  | cons h _ ih =>
    rw [List.map_cons, List.mem_cons, not_or] at hkey
    rw [ih hkey.2, h.outcomeOf_of_ne hkey.1, and_assoc, ← keeps_cons]

/-- An outcome that the return carries was there before, or is that of an entry. -/
theorem RecordsAll.source (h : n.RecordsAll q r es r') {key : Key} {o : InvokeOutcome}
    (ho : r'.outcomeOf key = some o) :
    r.outcomeOf key = some o ∨ ∃ e ∈ es, e.key = key ∧ n.Runs q e o := by
  induction h with
  | nil => exact .inl ho
  | @cons r r₁ r' e es h _ ih =>
    rcases ih ho with ho | ⟨e', he', hr⟩
    · by_cases hkey : key = e.key
      · cases h with
        | refused hh hr h => exact .inl (h ▸ ho)
        | heldBack hh hs hlost =>
          rw [hlost] at ho
          split at ho
          next => cases ho
          next => exact .inl ho
        | @ran o' hr hs hran =>
          rw [hran, if_pos hkey] at ho
          cases ho
          exact .inr ⟨e, List.mem_cons_self, hkey.symm, hr⟩
      · exact .inl ((h.outcomeOf_of_ne hkey o).1 ho).1
    · exact .inr ⟨e', List.mem_cons_of_mem e he', hr⟩

theorem RecordsAll.suffix {before : List UpdateEntry} :
    ∀ {r : UpdateReturn}, n.RecordsAll q r (before ++ es) r' → ∃ r₁, n.RecordsAll q r₁ es r' := by
  induction before with
  | nil => exact fun h => ⟨_, h⟩
  | cons e before ih =>
    intro r h
    cases h with
    | cons _ hs => exact ih hs

/-- The outcome of an entry is there at the end if no later entry replaces the return. -/
theorem RecordsAll.outcomeOf_of_runs {before later : List UpdateEntry} {o : InvokeOutcome}
    (h : n.RecordsAll q r (before ++ e :: later) r') (hnew : e.key ∉ later.map (·.key))
    (hr : n.Runs q e o) : r'.outcomeOf e.key = some o ↔ n.Keeps q later := by
  obtain ⟨r₁, hs⟩ := h.suffix
  cases hs with
  | @cons _ r₂ _ _ _ h hs =>
    have ho : r₂.outcomeOf e.key = some o := by
      cases h with
      | refused hh hnone => exact absurd hr (hnone o)
      | heldBack hh => exact absurd hh hr.not_heldBack
      | @ran o' hr' _ hran => rw [hran, if_pos rfl, hr.unique hr']
    rw [hs.outcomeOf_of_notMem hnew, and_iff_right ho]

/-- The outcomes that the return carries at the end are those of the entries after which no entry
replaces the return. -/
theorem RecordsAll.outcomeOf_iff {success : Bool} (h : n.RecordsAll q (.flag success) es r')
    (hnd : (es.map (·.key)).Nodup) (key : Key) (o : InvokeOutcome) :
    r'.outcomeOf key = some o ↔ ∃ before e later, es = before ++ e :: later ∧ e.key = key ∧
      n.Runs q e o ∧ n.Keeps q later := by
  have hnew {before later : List UpdateEntry} {e : UpdateEntry} (hes : es = before ++ e :: later) :
      e.key ∉ later.map (·.key) := by
    rw [hes, List.map_append, List.map_cons] at hnd
    exact (List.nodup_cons.1 (List.nodup_append.1 hnd).2.1).1
  constructor
  · intro ho
    rcases h.source ho with hnone | ⟨e, he, rfl, hr⟩
    · rw [UpdateReturn.outcomeOf_flag] at hnone
      cases hnone
    · obtain ⟨before, later, hes⟩ := List.append_of_mem he
      have hk : n.Keeps q later := ((hes ▸ h).outcomeOf_of_runs (hnew hes) hr).1 ho
      exact ⟨before, e, later, hes, rfl, hr, hk⟩
  · rintro ⟨before, e, later, hes, rfl, hr, hk⟩
    exact ((hes ▸ h).outcomeOf_of_runs (hnew hes) hr).2 hk

/-! ## The answer -/

/-- An answer goes out as the reply of a fan-out, or as one of the messages it sends. -/
theorem action_of_transmission {act : FanoutAction} {receiver : NodeId} {r : UpdateResponse}
    (h : transmission view receiver (.updateResponse r) ∈ act.effects view) :
    act = .reply (.node receiver) r ∨ act = .send receiver (.updateResponse r) := by
  have hsame {receiver' : NodeId} {m : Message} (h : transmission view receiver
      (.updateResponse r) = transmission view receiver' m) :
      receiver' = receiver ∧ m = .updateResponse r := by
    have hm := congrArg Effect.message? h
    rw [message?_transmission, message?_transmission] at hm
    cases hm
    exact ⟨rfl, rfl⟩
  have hnone {e : Effect} (he : e.message? = none)
      (h : transmission view receiver (.updateResponse r) = e) : False := by
    rw [← h, message?_transmission] at he
    cases he
  cases act with
  | send receiver' m =>
    obtain ⟨rfl, rfl⟩ := hsame (List.mem_singleton.1 h)
    exact .inr rfl
  | reply route r' =>
    cases route with
    | node receiver' =>
      obtain ⟨rfl, hr⟩ := hsame (List.mem_singleton.1 h)
      cases hr
      exact .inl rfl
    | nobody => cases h
    | label name => exact (hnone rfl (List.mem_singleton.1 h)).elim
  | notify listener success => exact (hnone rfl (List.mem_singleton.1 h)).elim
  | enlist id => cases h
  | retire id => cases h

end Node

namespace Moment

variable {t : Moment} {near : NodeId} {q : UpdateRequest}

/-- The return `ret` is in the answer to a request that is carried out now, whether the answer goes
out at once or is held back. -/
structure Responds (t : Moment) (near : NodeId) (q : UpdateRequest) (ret : UpdateReturn) : Prop where
  answer : (t.answer near q).ret = some ret
  sent : ∀ receiver r, Node.transmission t.view receiver (.updateResponse r) ∈ t.effects →
    r = t.answer near q
  held : ∀ f d, t.after.fanouts.get? t.number = some f → f.deferred = some d →
    d.2 = t.answer near q

theorem CarriesOut.responds (h : t.CarriesOut near q) :
    t.Responds near q (t.before.applied t.view near q).ret where
  answer := by
    rw [answer_eq]
    rfl
  sent := fun receiver r he => by
    have hopened := t.opened_gathered near q
    have heffects : t.effects = (t.before.opened t.view near q).2.flatMap
        (FanoutAction.effects t.view) := h.after.1.effects
    rw [heffects] at he
    obtain ⟨act, hact, he⟩ := List.mem_flatMap.1 he
    have hasks := hopened.asks act hact
    rcases Node.action_of_transmission he with rfl | rfl
    · generalize hact' : FanoutAction.reply (.node receiver) r = act at hasks
      cases hasks with
      | reply => exact (FanoutAction.reply.inj hact').2
      | enlist | retire | request | loss | mapping | notify => cases hact'
    · generalize hact' : FanoutAction.send receiver (.updateResponse r) = act at hasks
      cases hasks with
      | enlist | retire | request | loss | mapping | reply | notify => cases hact'
  held := fun f d hf hd => by
    cases h.fanouts.symm.trans hf
    have hdeferred := (t.opened_gathered near q).deferred
    have hd : (t.before.opened t.view near q).1.deferred = some d := hd
    rw [hdeferred, Option.ite_none_left_eq_some] at hd
    obtain ⟨rfl, -⟩ := Fanout.deferred_prepared hd.2
    rfl

/-- The return of a request for an entry processor is a failure if and only if a key was held back
or the processor failed on it.  It carries the outcomes of the keys on which the processor ran, but
for those followed by a key that was held back if the caller has asked for values. -/
theorem return_transform (h : t.CarriesOut near q) (hop : q.operation = .transform)
    (hnd : q.keys.Nodup) :
    ∃ ret, t.Responds near q ret ∧
      (ret.success = false ↔ ∃ e ∈ q.payload.entries,
        t.before.HeldBack q e ∨ ∃ m, t.before.Runs q e (.error m)) ∧
      ∀ key o, ret.outcomeOf key = some o ↔
        ∃ before e later, q.payload.entries = before ++ e :: later ∧ e.key = key ∧
          t.before.Runs q e o ∧ t.before.Keeps q later := by
  have hall := Node.recordsAll_applied t.view t.before near hop hnd
  rw [UpdateRequest.keys, UpdatePayload.keys_eq] at hnd
  refine ⟨_, h.responds, ?_, hall.outcomeOf_iff hnd⟩
  rw [← Bool.not_eq_true, hall.success_iff]
  have hflag : (UpdateReturn.flag true).success = true := rfl
  simp only [hflag, true_and, ← not_exists, ← not_or, exists_prop, not_not]

end Moment

namespace Solo

/-- The request of node 1 to store one of the two keys. -/
def storeFirst : UpdateRequest :=
  { storeTwo with
    future := 8
    payload := .single [1] (some [97]) }

/-- The request of node 1 to append to both keys if they have values. -/
def appendTwo (returnValue : Bool) : UpdateRequest :=
  { storeTwo with
    writeVersion := ⟨1, 2, 1⟩
    operation := .transform
    flags := { returnValue }
    payload := .full [.plain [1] none (some ⟨"append"⟩), .plain [2] none (some ⟨"append"⟩)]
      [.hasValue] [[120]] none }

/-- Node 2, whose store has a value of the first key only, as it gets the request. -/
def appending (returnValue : Bool) : Moment where
  node := ⟨2⟩
  view := threeOwners
  before := ((start { nodeId := 2 } Processor.standard).run
    [(threeOwners, .receive ⟨1⟩ (.updateRequest storeFirst))]).node
  move := .receive ⟨1⟩ (.updateRequest (appendTwo returnValue))

theorem carriesOut_appending (returnValue : Bool) :
    (appending returnValue).CarriesOut ⟨1⟩ (appendTwo returnValue) where
  brings := .received (by cases returnValue <;> decide +kernel)
  suits := {
    running := rfl
    ready := fun _ => ⟨rfl, rfl⟩
    primary := by cases returnValue <;> decide +kernel }

theorem runs_appending (returnValue : Bool) : (appending returnValue).before.Runs
    (appendTwo returnValue) (.plain [1] none (some ⟨"append"⟩)) (.value (some [97, 120])) where
  taken := by cases returnValue <;> decide +kernel
  conditions := by cases returnValue <;> decide +kernel
  processor := ⟨⟨"append"⟩, Processor.append, rfl, rfl, by cases returnValue <;> decide +kernel⟩

theorem heldBack_appending (returnValue : Bool) : (appending returnValue).before.HeldBack
    (appendTwo returnValue) (.plain [2] none (some ⟨"append"⟩)) where
  taken := by cases returnValue <;> decide +kernel
  condition := ⟨.hasValue, List.mem_singleton_self _, by cases returnValue <;> decide +kernel⟩

/-- Without values asked for, the second key makes the return a failure, and the outcome of the
first is in it. -/
theorem outcome_appending : ∃ ret, (appending false).Responds ⟨1⟩ (appendTwo false) ret ∧
    ret.success = false ∧ ret.outcomeOf [1] = some (.value (some [97, 120])) := by
  obtain ⟨ret, hret, hsuccess, houtcome⟩ := Moment.return_transform (carriesOut_appending false)
    rfl (by decide)
  refine ⟨ret, hret, hsuccess.2 ?_, (houtcome _ _).2 ?_⟩
  · exact ⟨_, List.mem_cons_of_mem _ List.mem_cons_self, .inl (heldBack_appending false)⟩
  · exact ⟨[], _, [_], rfl, rfl, runs_appending false, nofun⟩

/-- With values asked for, the processor has run on the first key and the return does not say so. -/
theorem outcome_lost :
    ¬ ∀ (t : Moment) (near : NodeId) (q : UpdateRequest) (ret : UpdateReturn) (e : UpdateEntry)
      (o : InvokeOutcome), t.CarriesOut near q → q.operation = .transform → q.keys.Nodup →
        (t.answer near q).ret = some ret → e ∈ q.payload.entries → t.before.Runs q e o →
          ret.outcomeOf e.key = some o := by
  intro h
  have hret : ((appending true).answer ⟨1⟩ (appendTwo true)).ret = some (.previous none false) := by
    decide +kernel
  have ho := h (appending true) ⟨1⟩ (appendTwo true) _ _ _ (carriesOut_appending true) rfl
    (by decide) hret List.mem_cons_self (runs_appending true)
  cases ho

end Solo

end AtomicGrid
