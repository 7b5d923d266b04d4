import AtomicGrid.Proofs.Grid.Attempts
import AtomicGrid.Proofs.Node.Writes

/-!
# Updates that are mapped again

When its primary departs before it answers, an update is mapped again, under the same version.  The
departed primary may have applied it and handed it on.  A backup knows the version and ignores what
it has.  The new primary, which was such a backup, does not look: it applies the update to what its
first application has left.  So an update that makes something else of its own result is applied
twice, and the new primary and the other backups part ways.

## Results

* `Grid.Reached.steady`: all attempts of an update are attempts of the same update.
* `Grid.held_retried`: what a new primary, and what a backup, makes of a retry.
* `Grid.applies_twice`: a run in which an update is applied twice.
-/

set_option autoImplicit false

namespace AtomicGrid

/-! ## Applying -/

namespace Store

theorem get?_of_held {s : Store} {key : Key} {w : Write} (h : s.held key = some w) :
    s.get? key = w.value := by
  obtain ⟨version, -, rfl⟩ := Option.map_eq_some_iff.1 h
  rfl

/-- What an update makes of a value, unless it is held back or fails. -/
def made (processors : Processors) (w : WriteCommand) (current : Option Value) :
    Option (Option Value) :=
  if w.filters.all (·.accepts current) then
    match compute processors w current with
    | .value new _ => some new
    | _ => none
  else none

/-- The value that an update has written, if it has. -/
def wrote : Except FailureCause AppliedWrite → Option (Option Value)
  | .ok a => if a.filtered then none else some a.newValue
  | .error _ => none

/-- The store looks at the value it holds, and not at its version. -/
theorem wrote_apply (processors : Processors) (s : Store) (partition : UInt32)
    (w : WriteCommand) :
    wrote (s.apply processors partition w).2 = made processors w (s.get? w.key) := by
  unfold apply made
  simp only
  split
  next =>
    split
    next new invoke hc =>
      rw [hc]
      rfl
    next message hc =>
      rw [hc]
      rfl
    next cause hc =>
      rw [hc]
      rfl
  next => rfl

end Store

namespace Node

variable {view : View} {n : Node} {sender : NodeId} {q : UpdateRequest} {e : UpdateEntry}

/-- What an entry of a request makes of a value, unless it is refused, held back or fails. -/
def outcome (n : Node) (q : UpdateRequest) (e : UpdateEntry) (current : Option Value) :
    Option (Option Value) :=
  if (n.faults.get? e.key).isSome then none
  else Store.made n.processors (q.writeCommand e) current

theorem written_eq (n : Node) (q : UpdateRequest) (e : UpdateEntry) : n.written q e =
    (n.outcome q e (n.store.get? e.key)).map (⟨q.writeVersion, ·⟩) := by
  have hw : n.written q e = (Store.wrote (n.applyWrite n.store q.partition
      (q.writeCommand e)).2).map (⟨q.writeVersion, ·⟩) := by
    unfold written
    cases (n.applyWrite n.store q.partition (q.writeCommand e)).2 with
    | error cause => rfl
    | ok a =>
      simp only [Store.wrote]
      split
      · rfl
      · rfl
  have hkey : (q.writeCommand e).key = e.key := rfl
  rw [hw]
  unfold outcome applyWrite
  rw [hkey]
  cases n.faults.get? e.key with
  | some cause => rfl
  | none =>
    simp only [Option.isSome_none, Bool.false_eq_true, if_false]
    rw [Store.wrote_apply]
    rfl

/-- A primary that holds what the update itself has written applies the update to that. -/
theorem held_carryOut_again (he : q.payload.entries = [e]) {v : Option Value}
    (hv : n.store.held e.key = some ⟨q.writeVersion, v⟩) :
    (n.carryOut view sender q).1.store.held e.key =
      some ⟨q.writeVersion, (n.outcome q e v).getD v⟩ := by
  have hget : n.store.get? e.key = v := Store.get?_of_held hv
  rw [(after_carryOut sender q).2.2, held_applied he, if_pos rfl, written_eq, hget, hv]
  cases n.outcome q e v with
  | none => rfl
  | some new => rfl

/-- A backup that holds a write of a version ignores all others of that version. -/
theorem held_backUp_again {r : BackupRequest} {key : Key} {w : Write}
    (hw : n.store.held key = some w) (hv : r.writeVersion = w.version) :
    (n.backUp view sender r).1.store.held key = some w := by
  have hskip (ws : List Write) (h : ∀ w' ∈ ws, w'.version = w.version) :
      ws.foldl Write.replay (some w) = some w := by
    induction ws with
    | nil => rfl
    | cons w' ws ih =>
      have hle : w'.version ≤ w.version := le_of_eq (h w' List.mem_cons_self)
      rw [List.foldl_cons, Write.replay_of_le hle]
      exact ih fun w'' h' => h w'' (List.mem_cons_of_mem _ h')
  rw [store_backUp, held_backedUp, hw]
  apply hskip
  intro w' hw'
  obtain ⟨e, -, rfl⟩ := List.mem_map.1 hw'
  exact hv

end Node

namespace Grid

open Submission (SameUpdate)

variable {config : Config} {affinity : Affinity} {processors : Processors} {ids : List NodeId}
  {g g₀ : Grid} {n : NodeId} {move : Move} {h : Handle} {c : Submission}

/-- The submissions of old are those of now, as far as the update goes. -/
def Steady (g : Grid) : Prop :=
  ∀ t ∈ g.log, ∀ h c x, Node.SubmissionTurn t.view t.before t.move h c x →
    ∃ c', (g.nodes t.node).submissions.get? h = some c' ∧ SameUpdate c c'

theorem Steady.act (hst : g.Steady) (hc : ∀ n, (g.nodes n).Coherent (g.parked n)) (hr : g.Roomy)
    (ho : Occasion g n move g₀) : (g₀.act n move).Steady := by
  have hs := ho.same
  have hlog : (g₀.act n move).log = g.moment n move :: g.log := hs.log_act
  intro t ht h c x hturn
  rw [hlog] at ht
  rw [hs.nodes_act]
  rcases List.mem_cons.1 ht with rfl | ht
  · refine ⟨x.1, ?_, Node.sameUpdate_fares (Node.fares_turn (hc n) ho.due hturn)⟩
    have ha := Node.submission_move hturn
    show (if n = n then (g.moment n move).after else g.nodes n).submissions.get? h = some x.1
    rw [if_pos rfl, Moment.after, ha.submissions, SortedMap.get?_insert_self]
  · obtain ⟨c', hs', hsame⟩ := hst t ht h c x hturn
    split
    next he =>
      rw [he] at hs'
      obtain ⟨c'', hs'', hsame'⟩ := Node.sameUpdate_move (hc n) ho.due (hr.handles n) hs'
      exact ⟨c'', hs'', hsame.trans hsame'⟩
    next => exact ⟨c', hs', hsame⟩

/-- All attempts of an update are attempts of the same update. -/
theorem Reached.steady (h : Reached (start ids config affinity processors) g) : g.Steady := by
  induction h with
  | init => exact fun t ht => (nomatch ht)
  | next h hr hn ih =>
    cases hn with
    | act ho => exact ih.act h.coherent hr ho
    | depart hn => exact ih
    | told hi ht => exact ih
    | exchange members => exact ih
    | settle => exact ih

def request? (g : Grid) (n : NodeId) (h : Handle) : Option UpdateRequest :=
  ((g.nodes n).submissions.get? h).bind fun c =>
    c.future.bind fun _ => c.attempt.map (·.request)

theorem exists_of_request? {q : UpdateRequest} (hq : g.request? n h = some q) :
    ∃ c id a, (g.nodes n).submissions.get? h = some c ∧ c.future = some id ∧ c.attempt = some a ∧
      a.request = q := by
  obtain ⟨c, hs, hq⟩ := Option.bind_eq_some_iff.1 hq
  obtain ⟨id, hf, hq⟩ := Option.bind_eq_some_iff.1 hq
  obtain ⟨a, ha, hq⟩ := Option.map_eq_some_iff.1 hq
  exact ⟨c, id, a, hs, hf, ha, hq⟩

/-- The request under way is one of the update that the submission has always had. -/
theorem Reached.request?_eq (hg : Reached (start ids config affinity processors) g)
    {q : UpdateRequest} (hq : g.request? n h = some q) : ∃ t ∈ g.log, ∃ c₀ x c, t.node = n ∧
      Node.SubmissionTurn t.view t.before t.move h c₀ x ∧ q = t.request c₀ ∧
        (g.nodes n).submissions.get? h = some c ∧ SameUpdate c₀ c := by
  obtain ⟨c, id, a, hs, hf, ha, rfl⟩ := exists_of_request? hq
  obtain ⟨t, c₀, es, hu⟩ := hg.attended.now n h c id a hs hf ha
  obtain ⟨x, hturn⟩ := hu.launches.turn
  exact ⟨t, hu.mem, c₀, x, c, hu.node, hturn, hu.request, hs, hu.same⟩

/-- A retry is the same update under the same version.  A primary that holds what the update has
written applies it to that once more, and a backup that holds it leaves it alone. -/
theorem held_retried {es es' : List Event} (hlen : (es ++ es').length + 1 < UInt64.size)
    {q₁ q₂ : UpdateRequest}
    (h₁ : ((start ids config affinity processors).run es).request? n h = some q₁)
    (h₂ : ((start ids config affinity processors).run (es ++ es')).request? n h = some q₂) :
    q₂.writeVersion = q₁.writeVersion ∧ q₂.operation = q₁.operation ∧ q₂.payload = q₁.payload ∧
      ∃ e, q₂.payload.entries = [e] ∧
        ∀ (x : Node) (v : Option Value), x.store.held e.key = some ⟨q₁.writeVersion, v⟩ →
          (∀ view sender, (x.carryOut view sender q₂).1.store.held e.key =
            some ⟨q₁.writeVersion, (x.outcome q₂ e v).getD v⟩) ∧
          ∀ view sender r, r.writeVersion = q₂.writeVersion →
            (x.backUp view sender r).1.store.held e.key = x.store.held e.key := by
  have hlen₁ : es.length + 1 < UInt64.size := by
    rw [List.length_append] at hlen
    omega
  have hg : Reached (start ids config affinity processors)
      ((start ids config affinity processors).run (es ++ es')) := reached_run hlen
  obtain ⟨t₁, ht₁, c₁, x₁, -, hn₁, hturn, rfl, -, -⟩ := (reached_run hlen₁).request?_eq h₁
  obtain ⟨t₂, ht₂, c₂, -, c, hn₂, -, rfl, hs, hsame₂⟩ := hg.request?_eq h₂
  have hkept : t₁ ∈ ((start ids config affinity processors).run (es ++ es')).log := by
    rw [run, List.foldl_append]
    exact mem_log_run es' ht₁
  obtain ⟨c', hs', hsame₁⟩ := hg.steady t₁ hkept h c₁ x₁ hturn
  rw [hn₁, hs, Option.some_inj] at hs'
  subst hs'
  have hver : (t₂.request c₂).writeVersion = (t₁.request c₁).writeVersion :=
    hsame₂.version.symm.trans hsame₁.version
  have hupd : c₂.update = c₁.update := hsame₂.update.symm.trans hsame₁.update
  refine ⟨hver, congrArg Update.operation hupd, congrArg Update.payload hupd, ?_⟩
  obtain ⟨e, he, -⟩ := c₂.update.entries_payload
  refine ⟨e, he, ?_⟩
  intro x v hv
  rw [← hver] at hv ⊢
  constructor
  · intro view sender
    exact Node.held_carryOut_again he hv
  · intro view sender r hr
    rw [hv]
    exact Node.held_backUp_again hv hr

/-- Node 1 has "x" appended to nothing.  Node 4 does so and tells nodes 2 and 3, but departs before
it can tell node 1. -/
def lostAnswer : List Event :=
  [.submit ⟨1⟩ (.invoke [1] ⟨"append"⟩ [[120]]), .deliver ⟨1⟩ ⟨4⟩, .deliver ⟨4⟩ ⟨2⟩,
    .deliver ⟨4⟩ ⟨3⟩, .depart ⟨4⟩]

/-- All hear of it, and node 1 asks node 2. -/
def mappedAgain : List Event := [.tell 0, .tell 0, .tell 0, .resume 0]

/-- Node 2 appends "x" and tells nodes 3 and 1. -/
def answeredAgain : List Event :=
  [.deliver ⟨1⟩ ⟨2⟩, .deliver ⟨2⟩ ⟨1⟩, .deliver ⟨2⟩ ⟨3⟩, .deliver ⟨1⟩ ⟨2⟩, .deliver ⟨3⟩ ⟨2⟩,
    .deliver ⟨2⟩ ⟨1⟩]

/-- Four nodes of which three own a key. -/
def fourNodes : Grid :=
  start [⟨1⟩, ⟨2⟩, ⟨3⟩, ⟨4⟩] { nodeId := 0 } (.ranked 8 2) Processor.standard

theorem retried_mappedAgain :
    ∃ q, (fourNodes.run (lostAnswer ++ mappedAgain)).request? ⟨1⟩ 1 = some q ∧
      (((fourNodes.run lostAnswer).nodes ⟨2⟩).carryOut (fourNodes.view ⟨2⟩) ⟨1⟩ q).1.store.held [1] =
        some ⟨⟨1, 1, 1⟩, some [120, 120]⟩ := by
  have hsome₁ : ((fourNodes.run lostAnswer).request? ⟨1⟩ 1).isSome = true := by decide +kernel
  have hsome₂ : ((fourNodes.run (lostAnswer ++ mappedAgain)).request? ⟨1⟩ 1).isSome = true := by
    decide +kernel
  obtain ⟨q₁, h₁⟩ := Option.isSome_iff_exists.1 hsome₁
  obtain ⟨q₂, h₂⟩ := Option.isSome_iff_exists.1 hsome₂
  obtain ⟨hver, -, -, e, he, happly⟩ := held_retried (by decide) h₁ h₂
  have hq : ((fourNodes.run (lostAnswer ++ mappedAgain)).request? ⟨1⟩ 1).map
      (fun q => (q.writeVersion, q.payload.entries.map fun e =>
        (e.key, ((fourNodes.run lostAnswer).nodes ⟨2⟩).outcome q e (some [120])))) =
      some (⟨1, 1, 1⟩, [([1], some (some [120, 120]))]) := by decide +kernel
  rw [h₂, Option.map_some, he, List.map_singleton] at hq
  obtain ⟨hversion, hkey, hmade⟩ : q₂.writeVersion = ⟨1, 1, 1⟩ ∧ e.key = [1] ∧
      ((fourNodes.run lostAnswer).nodes ⟨2⟩).outcome q₂ e (some [120]) =
        some (some [120, 120]) := by simpa using hq
  have hheld : ((fourNodes.run lostAnswer).nodes ⟨2⟩).store.held e.key =
      some ⟨q₁.writeVersion, some [120]⟩ := by
    rw [hkey, ← hver, hversion]
    decide +kernel
  refine ⟨q₂, h₂, ?_⟩
  have hagain := (happly _ _ hheld).1 (fourNodes.view ⟨2⟩) ⟨1⟩
  rw [hkey, hmade, ← hver, hversion] at hagain
  exact hagain

/-- The grid once all is said and done. -/
def afterRetry : Grid := fourNodes.run (lostAnswer ++ mappedAgain ++ answeredAgain)

/-- The new primary ends up with "xx", and one of its backups with the "x" that one application
yields. -/
theorem applies_twice :
    (afterRetry.nodes ⟨1⟩).result? 1 ≠ none ∧
      afterRetry.affinity.keyOwners afterRetry.topology [1] ⟨2, 0⟩ = [⟨2⟩, ⟨3⟩, ⟨1⟩] ∧
      (afterRetry.nodes ⟨4⟩).store.held [1] = some ⟨⟨1, 1, 1⟩, some [120]⟩ ∧
      (afterRetry.nodes ⟨3⟩).store.held [1] = some ⟨⟨1, 1, 1⟩, some [120]⟩ ∧
      (afterRetry.nodes ⟨2⟩).store.held [1] = some ⟨⟨1, 1, 1⟩, some [120, 120]⟩ ∧
      (afterRetry.nodes ⟨1⟩).store.held [1] = some ⟨⟨1, 1, 1⟩, some [120, 120]⟩ := by
  decide +kernel

end Grid

end AtomicGrid
