import AtomicGrid.Proofs.Grid.Returns
import AtomicGrid.Proofs.Submission.Command

/-!
# The relay setting does not show

What a caller gets depends on the update and on the value that the primary held, whether the primary
answers or the backups tell of the result, whoever is the primary, and on whatever node the caller
is.  The backups tell no more than whether the update succeeded; they are left to it only where the
rest is the absence of a value, which is what a caller who is not told of any value assumes.

There is one exception: a caller who asks for the primary's return as it is can see that the backups
do not pass on the absence of a previous value.

## Results

* `Update.returns`: what an update returns.
* `Grid.Reached.outcome_eq`: what the caller gets in the end.
* `Grid.relay_hidden`: two runs, under any two configurations.
* `Grid.relay_shown`: the exception.
-/

set_option autoImplicit false

namespace AtomicGrid

/-! ## What an update returns -/

/-- What a command comes to whose key holds `current`, unless it is refused: the outcome of the entry
processor, if one runs, and whether the command is held back. -/
def Store.comes (processors : Processors) (w : WriteCommand) (current : Option Value) :
    Option (Option InvokeOutcome × Bool) :=
  if w.filters.all (·.accepts current) then
    match compute processors w current with
    | .value _ invoke => some (invoke, false)
    | .processorError message => some (some (.error message), true)
    | .refused _ => none
  else some (none, true)

/-- What an update returns whose key holds `current` at the primary, unless it is refused. -/
def Update.returns (processors : Processors) (u : Update) (current : Option Value) :
    Option UpdateReturn :=
  (Store.comes processors (u.carried.command ⟨0, 0, 0⟩) current).map fun x =>
    { value := match x.1 with
        | some outcome => ((UpdateReturn.flag true).addOutcome u.key outcome).value
        | none => if u.wantsPrevious then some (.previous current) else none
      success := !x.2 }

theorem Store.comes_apply {processors : Processors} {s : Store} {partition : UInt32}
    {w : WriteCommand} {a : AppliedWrite} (h : (s.apply processors partition w).2 = .ok a) :
    comes processors w (s.get? w.key) = some (a.invoke, a.filtered) ∧
      a.previous = s.get? w.key := by
  unfold apply at h
  unfold comes
  simp only at h
  cases hf : w.filters.all (·.accepts (s.get? w.key)) with
  | false =>
    simp only [hf, Bool.false_eq_true, if_false] at h ⊢
    cases h
    exact ⟨rfl, rfl⟩
  | true =>
    simp only [hf, if_true] at h ⊢
    cases hc : compute processors w (s.get? w.key) with
    | value new invoke =>
      rw [hc] at h
      cases h
      exact ⟨rfl, rfl⟩
    | processorError message =>
      rw [hc] at h
      cases h
      exact ⟨rfl, rfl⟩
    | refused cause =>
      rw [hc] at h
      cases h

namespace Node

variable {n : Node} {q : UpdateRequest} {e : UpdateEntry}

/-- A request with a single entry that is not refused is applied. -/
theorem applied_of_accepted (view : View) (sender : NodeId) (he : q.payload.entries = [e])
    (hr : n.rejections q = []) :
    ∃ a, (n.applyWrite n.store q.partition (q.writeCommand e)).2 = .ok a ∧
      (n.applied view sender q).ret = returnOf q (.flag true) e.key a := by
  rw [rejections_single he] at hr
  rw [applied_eq he]
  unfold applyEntry
  have hsame : n.freshFuture.1.applyWrite n.store q.partition (q.writeCommand e) =
      n.applyWrite n.store q.partition (q.writeCommand e) := rfl
  rw [hsame]
  generalize n.applyWrite n.store q.partition (q.writeCommand e) = x at hr ⊢
  obtain ⟨store, applied⟩ := x
  cases applied with
  | error cause => cases hr
  | ok a =>
    refine ⟨a, rfl, ?_⟩
    simp only
    split <;> rfl

theorem apply_of_applyWrite {w : WriteCommand} {a : AppliedWrite} {partition : UInt32}
    (h : (n.applyWrite n.store partition w).2 = .ok a) :
    (n.store.apply n.processors partition w).2 = .ok a := by
  unfold applyWrite at h
  split at h
  next => cases h
  next => exact h

end Node

namespace Submission

variable {c : Submission} {site : Site} {view view' : View} {id : FutureId} {p : Node}
  {near : NodeId} {e : UpdateEntry}

theorem writeCommand_request (he : (c.request site view id).payload.entries = [e]) :
    (c.request site view id).writeCommand e = c.update.carried.command c.version := by
  have hc : (c.request site view id).commands = [c.update.carried.command c.version] :=
    commands_request
  unfold UpdateRequest.commands at hc
  rw [he] at hc
  exact (List.cons.inj hc).1

/-- A primary that does not refuse an update returns what the update returns. -/
theorem returns_request (hr : p.rejections (c.request site view id) = []) :
    c.update.returns p.processors (p.store.get? c.update.key) =
      some (p.applied view' near (c.request site view id)).ret := by
  obtain ⟨e, he, hkey⟩ := c.update.entries_payload
  have he : (c.request site view id).payload.entries = [e] := he
  obtain ⟨a, ha, hret⟩ := Node.applied_of_accepted view' near he hr
  rw [writeCommand_request he] at ha
  obtain ⟨hcomes, hprev⟩ := Store.comes_apply (Node.apply_of_applyWrite ha)
  have hcomes : Store.comes p.processors (c.update.carried.command ⟨0, 0, 0⟩)
      (p.store.get? c.update.key) = some (a.invoke, a.filtered) := hcomes
  have hprev : a.previous = p.store.get? c.update.key := hprev
  rw [hret]
  unfold Update.returns Node.returnOf
  rw [hcomes, hkey, hprev]
  have hflags : (c.request site view id).flags.returnValue = c.update.wantsPrevious := rfl
  simp only [Option.map_some, hflags]
  cases a.invoke with
  | some outcome => cases a.filtered <;> rfl
  | none => cases c.update.wantsPrevious <;> cases a.filtered <;> rfl

end Submission

/-! ## What the backups tell -/

/-- A return without a value says no more than the absence of a previous value. -/
theorem Update.value_of_not_hasValue {processors : Processors} {u : Update}
    {current : Option Value} {ret : UpdateReturn}
    (hr : u.returns processors current = some ret) (hv : ret.hasValue = false) :
    ret.value = none ∨
      u.wantsPrevious = true ∧ current = none ∧ ret.value = some (.previous none) := by
  obtain ⟨x, -, rfl⟩ := Option.map_eq_some_iff.1 hr
  obtain ⟨invoke, held⟩ := x
  cases invoke with
  | some outcome =>
    -- an outcome of the entry processor is a value
    have hne := SortedMap.not_isEmpty_of_get?
      (SortedMap.get?_insert_self (∅ : SortedMap Key InvokeOutcome) u.key outcome)
    simp [UpdateReturn.hasValue, UpdateReturn.addOutcome, UpdateReturn.flag, hne] at hv
  | none =>
    cases hw : u.wantsPrevious with
    | false => exact .inl (by simp)
    | true =>
      have hcur : current = none := by simpa [UpdateReturn.hasValue, hw] using hv
      exact .inr ⟨rfl, hcur, by simp [hcur]⟩

namespace UpdateOutcome

variable {ret : UpdateReturn} {operation : Operation} {wantsPrevious : Bool}

/-- Who does not ask for the return as it is assumes the absence of a value. -/
theorem ofReturn_flag (raw : Bool) (hv : ret.value = none ∨
    raw = false ∧ wantsPrevious = true ∧ ret.value = some (.previous none)) :
    ofReturn (.flag ret.success) operation wantsPrevious raw =
      ofReturn ret operation wantsPrevious raw := by
  obtain ⟨value, success⟩ := ret
  rcases hv with hv | ⟨rfl, rfl, hv⟩
  · cases hv
    rfl
  · cases hv
    cases operation <;> rfl

end UpdateOutcome

namespace Grid

open Submission (SameUpdate)

variable {config : Config} {affinity : Affinity} {processors : Processors} {ids : List NodeId}
  {g : Grid} {n p : NodeId} {hd : Handle} {c c₀ : Submission} {u : UpdateOutcome}
  {t t₀ : Moment} {q : UpdateRequest}

/-- What the outcome of an update is that returns `ret` where its key holds `current`: the return in
the shape asked for, but for a caller who wants it as it is and is not told that there was no value
before. -/
def Comes (c : Submission) (current : Option Value) (ret : UpdateReturn) (u : UpdateOutcome) :
    Prop :=
  u = c.outcome (some ret) ∨ c.update.raw = true ∧ c.update.wantsPrevious = true ∧
    current = none ∧ u = .raw (.flag ret.success)

theorem Comes.isSuccess {current : Option Value} {ret : UpdateReturn} (h : Comes c current ret u) :
    u.isSuccess = (c.outcome (some ret)).isSuccess := by
  rcases h with rfl | ⟨hraw, -, -, rfl⟩
  · rfl
  · simp [Submission.outcome, UpdateOutcome.ofReturn, hraw, UpdateOutcome.isSuccess,
      UpdateReturn.flag]

theorem Comes.eq {current : Option Value} {ret : UpdateReturn} (h : Comes c current ret u)
    (hshown : c.update.raw = true → c.update.wantsPrevious = true → current ≠ none) :
    u = c.outcome (some ret) := by
  rcases h with rfl | ⟨hraw, hwants, hnone, -⟩
  · rfl
  · exact absurd hnone (hshown hraw hwants)

/-- What is reported of a request comes to what its update returns. -/
theorem Serves.comes (hs : Serves t t₀ hd c₀ n q) (hr : t.before.rejections q = [])
    (hu : c₀.update = c.update) :
    ∃ ret, c.update.returns t.before.processors (t.before.store.get? c.update.key) = some ret ∧
      Comes c (t.before.store.get? c.update.key) ret (c.outcome (some (t.reported n q))) := by
  obtain rfl := hs.request
  have hreturns : c.update.returns t.before.processors (t.before.store.get? c.update.key) =
      some (t.before.applied t.view n (t₀.request c₀)).ret := by
    rw [← hu]
    exact Submission.returns_request hr
  refine ⟨_, hreturns, ?_⟩
  unfold Moment.reported
  split
  next => exact .inl rfl
  next hnot =>
    obtain ⟨-, -, hv, -, hne⟩ := Moment.not_direct_iff.1 hnot
    generalize (t.before.applied t.view n (t₀.request c₀)).ret = ret at hreturns hv ⊢
    rcases Update.value_of_not_hasValue hreturns hv with hnone | ⟨hwants, hcur, hprev⟩
    · exact .inl (UpdateOutcome.ofReturn_flag _ (.inl hnone))
    · cases hraw : c.update.raw with
      | false =>
        refine .inl ?_
        exact UpdateOutcome.ofReturn_flag c.update.raw (.inr ⟨hraw, hwants, hprev⟩)
      | true =>
        refine .inr ⟨hraw, hwants, hcur, ?_⟩
        simp [Submission.outcome, UpdateOutcome.ofReturn, hraw]

/-- The request `q` that was carried out at `t` has brought the update `hd` of `n` to the outcome
`u`. -/
structure Yields (g : Grid) (n : NodeId) (hd : Handle) (u : UpdateOutcome) (t : Moment)
    (q : UpdateRequest) : Prop where
  mem : t ∈ g.log
  carries : t.CarriesOut n q
  resolved : ∃ t' ∈ g.log, t'.node = n ∧ ∃ c, t'.before.submissions.get? hd = some c ∧
    c.isDone = false ∧ c.future = some q.future ∧ t'.after.result? hd = some (.ok u)

/-- What the caller gets in the end is decided by the update and by what its key has held when its
last request was carried out. -/
theorem Reached.outcome_eq (h : Reached (start ids config affinity processors) g)
    (hu : g.Untroubled) (hs : (g.nodes n).submissions.get? hd = some c)
    (hsync : c.syncMode ≠ .fullAsync) (hr : (g.nodes n).result? hd = some (.ok u)) :
    ∃ t q ret, g.Yields n hd u t q ∧
      c.update.returns processors (t.before.store.get? c.update.key) = some ret ∧
      Comes c (t.before.store.get? c.update.key) ret u := by
  obtain ⟨t', ht', rfl, c', id, a, w, hcon, hsame⟩ := h.concluded hs hsync hr
  obtain ⟨p, t, q, hc, hacc, hout⟩ := h.returned hu ht' hcon
  obtain ⟨t₀, c₀, es, hw⟩ :=
    h.attended.before t' ht' hd c' id a hcon.before hcon.future hcon.attempt
  have hserves := h.serves_of_carried hc hw.mem hw.node hw.number hw.launches
  obtain ⟨ret, hret, hcomes⟩ :=
    hserves.comes (c := c) hacc (hw.same.trans hsame).update.symm
  rw [(h.framed.common t hc.mem).processors_eq] at hret
  have hu : u = c.outcome (some (t.reported t'.node q)) := by
    rw [hout]
    unfold Submission.outcome
    rw [hsame.update]
  rw [← hu] at hcomes
  refine ⟨t, q, ret, ⟨hc.mem, hc.carries, t', ht', rfl, c', hcon.before, hcon.unfinished, ?_,
    hcon.after⟩, hret, hcomes⟩
  rw [hcon.future, hc.future]

/-- Nothing has gone wrong, and the update `hd` of `n`, which somebody waits for, has come to the
outcome `u`. -/
structure Ends (g : Grid) (n : NodeId) (hd : Handle) (c : Submission) (u : UpdateOutcome) :
    Prop where
  untroubled : g.Untroubled
  known : (g.nodes n).submissions.get? hd = some c
  awaited : c.syncMode ≠ .fullAsync
  result : (g.nodes n).result? hd = some (.ok u)

variable {config₁ config₂ : Config} {affinity₁ affinity₂ : Affinity} {ids₁ ids₂ : List NodeId}
  {es₁ es₂ : List Event} {n₁ n₂ : NodeId} {hd₁ hd₂ : Handle} {c₁ c₂ : Submission}
  {u₁ u₂ : UpdateOutcome}

/-- One update, in two runs in which nothing goes wrong, under any two configurations.  If its key
has held the same at both primaries, both callers are told alike whether it has succeeded, and get
the same outcome; but for callers who ask for the primary's return as it is, with the value before,
where there was none. -/
theorem relay_hidden (hlen₁ : es₁.length + 1 < UInt64.size) (hlen₂ : es₂.length + 1 < UInt64.size)
    (h₁ : Ends ((start ids₁ config₁ affinity₁ processors).run es₁) n₁ hd₁ c₁ u₁)
    (h₂ : Ends ((start ids₂ config₂ affinity₂ processors).run es₂) n₂ hd₂ c₂ u₂)
    (hsame : c₂.update = c₁.update) :
    ∃ t₁ q₁ t₂ q₂, Yields ((start ids₁ config₁ affinity₁ processors).run es₁) n₁ hd₁ u₁ t₁ q₁ ∧
      Yields ((start ids₂ config₂ affinity₂ processors).run es₂) n₂ hd₂ u₂ t₂ q₂ ∧
      (t₂.before.store.get? c₁.update.key = t₁.before.store.get? c₁.update.key →
        u₂.isSuccess = u₁.isSuccess ∧
        ((c₁.update.raw = true → c₁.update.wantsPrevious = true →
          t₁.before.store.get? c₁.update.key ≠ none) → u₂ = u₁)) := by
  obtain ⟨t₁, q₁, ret₁, hy₁, hret₁, hc₁⟩ :=
    (reached_run hlen₁).outcome_eq h₁.untroubled h₁.known h₁.awaited h₁.result
  obtain ⟨t₂, q₂, ret₂, hy₂, hret₂, hc₂⟩ :=
    (reached_run hlen₂).outcome_eq h₂.untroubled h₂.known h₂.awaited h₂.result
  refine ⟨t₁, q₁, t₂, q₂, hy₁, hy₂, fun hheld => ?_⟩
  rw [hsame, hheld] at hret₂ hc₂
  obtain rfl : ret₂ = ret₁ := Option.some_inj.1 (hret₂.symm.trans hret₁)
  have hout : c₂.outcome (some ret₂) = c₁.outcome (some ret₂) := by
    unfold Submission.outcome
    rw [hsame]
  constructor
  · rw [hc₁.isSuccess, hc₂.isSuccess, hout]
  · intro hshown
    rw [hc₁.eq hshown, hc₂.eq (hsame ▸ hshown), hout]

/-- Three nodes of which two own every key. -/
def keyedNodes (nearRelay : NearRelay) : Grid :=
  start [⟨1⟩, ⟨2⟩, ⟨3⟩] { nodeId := 0, atomic := { nearRelay } } (.pinned [⟨2⟩, ⟨3⟩])
    Processor.none

/-- Node 1 has node 2 carry an update out and hand it on to node 3, and everything sent arrives. -/
def carriedByTwo (u : Update) : List Event :=
  [.submit ⟨1⟩ u, .deliver ⟨1⟩ ⟨2⟩, .deliver ⟨2⟩ ⟨3⟩, .deliver ⟨3⟩ ⟨1⟩, .deliver ⟨3⟩ ⟨2⟩,
    .deliver ⟨2⟩ ⟨1⟩]

/-- A caller who asks for the value before gets the same from the primary and from the backups. -/
theorem relay_hidden_getAndPut :
    ∃ t₁ q₁ t₂ q₂,
      Yields ((keyedNodes .primary).run (carriedByTwo (.getAndPut [1] [97]))) ⟨1⟩ 1
        (.previous none) t₁ q₁ ∧
      Yields ((keyedNodes .backups).run (carriedByTwo (.getAndPut [1] [97]))) ⟨1⟩ 1
        (.previous none) t₂ q₂ := by
  have hends (r : NearRelay) : ∃ c, c.update = .getAndPut [1] [97] ∧
      Ends ((keyedNodes r).run (carriedByTwo (.getAndPut [1] [97]))) ⟨1⟩ 1 c (.previous none) := by
    have hsome : ((((keyedNodes r).run (carriedByTwo (.getAndPut [1] [97]))).nodes
        ⟨1⟩).submissions.get? 1).map (fun c => (c.update, c.syncMode)) =
          some (.getAndPut [1] [97], .fullSync) := by
      cases r <;> decide +kernel
    obtain ⟨c, hc, hu⟩ := Option.map_eq_some_iff.1 hsome
    obtain ⟨hu, hsync⟩ := Prod.mk.inj hu
    refine ⟨c, hu, ?_, hc, by rw [hsync]; decide, ?_⟩
    · cases r <;> decide +kernel
    · cases r <;> decide +kernel
  obtain ⟨c₁, hu₁, h₁⟩ := hends .primary
  obtain ⟨c₂, hu₂, h₂⟩ := hends .backups
  unfold keyedNodes at h₁ h₂ ⊢
  obtain ⟨t₁, q₁, t₂, q₂, hy₁, hy₂, -⟩ :=
    relay_hidden (by decide) (by decide) h₁ h₂ (hu₂.trans hu₁.symm)
  exact ⟨t₁, q₁, t₂, q₂, hy₁, hy₂⟩

/-- A caller who asks for the primary's return as it is, with the value before, is told by the
primary that there was none, and by the backups nothing. -/
theorem relay_shown :
    let u : Update := { Update.getAndPut [1] [97] with raw := true }
    let g₁ := (keyedNodes .primary).run (carriedByTwo u)
    let g₂ := (keyedNodes .backups).run (carriedByTwo u)
    g₁.Untroubled ∧ g₂.Untroubled ∧
      (g₁.nodes ⟨1⟩).result? 1 = some (.ok (.raw (.previous none true))) ∧
      (g₂.nodes ⟨1⟩).result? 1 = some (.ok (.raw (.flag true))) ∧
      (g₁.nodes ⟨2⟩).store = (g₂.nodes ⟨2⟩).store ∧
      UpdateReturn.previous none true ≠ .flag true := by
  decide +kernel

end Grid

end AtomicGrid
