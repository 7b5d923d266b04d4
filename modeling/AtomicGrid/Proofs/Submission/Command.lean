import AtomicGrid.Proofs.Node.Turns
import AtomicGrid.Proofs.Wire.Stream

/-!
# What the primary is told to do

An update travels in the most compact of four payload shapes.  The shape for entry processors has
room for neither a value nor filters, and is taken whenever a processor comes without life times:
then the primary is told of neither.  Everything else about an update reaches the primary's store.

## Results

* `Node.store_carryOut`: a primary carries out the commands of a request, in order.
* `Submission.received_command`: the command that the request of an update brings to the primary.
* `Submission.lost_filter`: an entry processor that runs where its filter does not hold.
-/

set_option autoImplicit false

namespace AtomicGrid

/-- The commands of a request, as the primary's store gets them. -/
def UpdateRequest.commands (q : UpdateRequest) : List WriteCommand :=
  q.payload.entries.map q.writeCommand

/-- What an update asks of a store. -/
def Update.command (u : Update) (version : WriteVersion) : WriteCommand where
  key := u.key
  operation := u.operation
  value := u.value
  processor := u.processor
  args := u.args
  filters := u.filters
  expiry := u.expiry
  version := version

/-- The update goes in the shape for entry processors. -/
def Update.Bare (u : Update) : Prop := u.expiry = none ∧ u.processor ≠ none

instance (u : Update) : Decidable u.Bare := inferInstanceAs (Decidable (_ ∧ _))

/-- What is left of an update on its way to the primary. -/
def Update.carried (u : Update) : Update :=
  { u with
    value := if u.Bare then none else u.value
    filters := if u.Bare then [] else u.filters
    args := if u.expiry = none ∧ u.processor = none then [] else u.args }

namespace Node

variable {view : View} {n : Node} {sender : NodeId}

/-- A primary carries out the commands of a request, in order, and nothing else. -/
theorem store_carryOut (q : UpdateRequest) :
    (n.carryOut view sender q).1.store =
      q.commands.foldl (fun s w => (n.applyWrite s q.partition w).1) n.store := by
  have h (es : List UpdateEntry) : ∀ s : Applied,
      (es.foldl (n.freshFuture.1.applyEntry view sender q) s).store =
        (es.map q.writeCommand).foldl (fun s w => (n.applyWrite s q.partition w).1) s.store := by
    induction es with
    | nil =>
      intro s
      rfl
    | cons e es ih =>
      intro s
      rw [List.foldl_cons, ih, store_applyEntry]
      rfl
  have hs : (n.carryOut view sender q).1.store = (n.applied view sender q).store :=
    (after_carryOut sender q).2.2
  rw [hs]
  exact h q.payload.entries _

end Node

namespace Update

variable {u : Update}

theorem payload_of_processor {p : ProcessorRef} (he : u.expiry = none)
    (hp : u.processor = some p) : u.payload = .singleInvoke u.key p u.args := by
  simp [payload, UpdatePayload.build, UpdateEntry.plain, he, hp]

theorem payload_of_value (he : u.expiry = none) (hp : u.processor = none) :
    u.payload = if u.filters.isEmpty then .single u.key u.value
      else .singleFilter u.key u.value u.filters := by
  simp [payload, UpdatePayload.build, UpdateEntry.plain, he, hp]

theorem payload_of_expiry {p : ExpiryPolicy} (he : u.expiry = some p) :
    u.payload = .full [.plain u.key u.value u.processor] u.filters u.args (some p) := by
  simp [payload, UpdatePayload.build, he]

/-- The payload holds what is left of the update. -/
theorem payload_carried (u : Update) :
    u.payload.entries = [.plain u.key u.carried.value u.processor] ∧
      u.payload.args = u.carried.args ∧ u.payload.filters = u.carried.filters ∧
      u.payload.expiry = u.expiry := by
  unfold carried Bare
  rcases Option.eq_none_or_eq_some u.expiry with he | ⟨policy, he⟩
  · rcases Option.eq_none_or_eq_some u.processor with hp | ⟨p, hp⟩
    · rw [payload_of_value he hp]
      cases hf : u.filters with
      | nil => simp [UpdatePayload.entries, UpdatePayload.args, UpdatePayload.filters,
          UpdatePayload.expiry, he, hp]
      | cons f fs => simp [UpdatePayload.entries, UpdatePayload.args, UpdatePayload.filters,
          UpdatePayload.expiry, he, hp]
    · rw [payload_of_processor he hp]
      simp [UpdatePayload.entries, UpdatePayload.args, UpdatePayload.filters,
        UpdatePayload.expiry, he, hp]
  · rw [payload_of_expiry he]
    simp [UpdatePayload.entries, UpdatePayload.args, UpdatePayload.filters, UpdatePayload.expiry,
      he]

/-- The value and the filters arrive unless the shape has no room for those there are. -/
theorem carried_iff : u.carried.value = u.value ∧ u.carried.filters = u.filters ↔
    ¬ u.Bare ∨ u.value = none ∧ u.filters = [] := by
  unfold carried
  by_cases hb : u.Bare
  · simp only [hb, if_true, not_true_eq_false, false_or, eq_comm (a := none), eq_comm (a := [])]
  · simp [hb]

end Update

namespace Submission

variable {site : Site} {view : View} {c : Submission} {id : FutureId}

/-- The request of an update is one command: what is left of the update. -/
theorem commands_request :
    (c.request site view id).commands = [c.update.carried.command c.version] := by
  obtain ⟨he, ha, hf, hx⟩ := c.update.payload_carried
  have hq : (c.request site view id).payload = c.update.payload := rfl
  unfold UpdateRequest.commands UpdateRequest.writeCommand
  rw [hq, he, ha, hf, hx]
  rfl

/-- The primary carries the update out as it reads the request from the wire, however that is cut.
Its store gets the key, the operation, the processor with its arguments, and the life times the
caller asked for; it gets the value and the filters too, but for a processor without life times. -/
theorem received_command (hf : (Message.updateRequest (c.request site view id)).Fits)
    (pieces : List Bytes)
    (hp : pieces.flatten = (Message.updateRequest (c.request site view id)).encode) :
    ∃ q w, Wire.Decoder.feed {} [] pieces = ⟨{}, [.updateRequest q], none, []⟩ ∧
      (∀ (view' : View) (primary : Node) (sender : NodeId),
        (primary.carryOut view' sender q).1.store =
          (primary.applyWrite primary.store q.partition w).1) ∧
      w.key = c.update.key ∧ w.operation = c.update.operation ∧
      w.processor = c.update.processor ∧ w.expiry = c.update.expiry ∧ w.version = c.version ∧
      (c.update.processor ≠ none → w.args = c.update.args) ∧
      (w.value = c.update.value ∧ w.filters = c.update.filters ↔
        ¬ c.update.Bare ∨ c.update.value = none ∧ c.update.filters = []) := by
  let q := c.request site view id
  have hfeed : Wire.Decoder.feed {} [] pieces = ⟨{}, [.updateRequest q], none, []⟩ := by
    have := Wire.Decoder.feed_encode [.updateRequest q] (by simpa using hf) pieces (by simpa using hp)
    simpa [Message.received] using this
  refine ⟨q, c.update.carried.command c.version, hfeed, ?_, rfl, rfl, rfl, rfl, rfl, ?_,
    Update.carried_iff⟩
  · intro view' primary sender
    rw [Node.store_carryOut, commands_request]
    rfl
  · intro hproc
    show c.update.carried.args = c.update.args
    exact if_neg fun h => hproc h.2

/-- A guarded entry processor with life times arrives complete, byte by byte. -/
theorem received_command_bytewise :
    let u : Update := { Update.invoke [107] ⟨"append"⟩ [[120]] with
      filters := [.hasValue], expiry := some ⟨some 5, none, none⟩ }
    let c := Submission.start (Site.ofConfig { nodeId := 1 }) u ⟨1, 1, 1⟩
    let view : View := ⟨.start [⟨1⟩], .pinned [⟨1⟩], fun _ => none⟩
    let q := c.request (Site.ofConfig { nodeId := 1 }) view 1
    (Message.updateRequest q).Fits ∧ ∃ q' w,
      Wire.Decoder.feed {} [] ((Message.updateRequest q).encode.map ([·])) =
        ⟨{}, [.updateRequest q'], none, []⟩ ∧
      (∀ (view' : View) (primary : Node) (sender : NodeId),
        (primary.carryOut view' sender q').1.store =
          (primary.applyWrite primary.store q'.partition w).1) ∧
      w.filters = [.hasValue] ∧ w.args = [[120]] := by
  intro u c view q
  have hfit : (Message.updateRequest q).Fits := by decide +kernel
  obtain ⟨q', w, hq, hw, -, -, -, -, -, ha, hv⟩ := received_command hfit
    ((Message.updateRequest q).encode.map ([·])) (by simp [List.flatten_eq_flatMap, List.flatMap_map, q])
  have hu : ¬ c.update.Bare := fun h => by cases h.1
  exact ⟨hfit, q', w, hq, hw, (hv.2 (.inl hu)).2, ha (by decide)⟩

/-- An entry processor that is only to run where there is a value is handed to the primary's store
without this condition, and so runs where there is none. -/
theorem lost_filter :
    let u : Update := { Update.invoke [107] ⟨"append"⟩ [[120]] with filters := [.hasValue] }
    let c := Submission.start (Site.ofConfig { nodeId := 1 }) u ⟨1, 1, 1⟩
    let view : View := ⟨.start [⟨1⟩], .pinned [⟨1⟩], fun _ => none⟩
    let q := c.request (Site.ofConfig { nodeId := 1 }) view 1
    let primary := Node.ofConfig { nodeId := 1 } Processor.standard
    u.fault? = none ∧ (Message.updateRequest q).Fits ∧ q.commands.map (·.filters) = [[]] ∧
      (primary.store.apply primary.processors 0 (u.command c.version)).1.get? [107] = none ∧
      (primary.carryOut view ⟨1⟩ q).1.store.get? [107] = some [120] := by
  decide +kernel

end Submission

end AtomicGrid
