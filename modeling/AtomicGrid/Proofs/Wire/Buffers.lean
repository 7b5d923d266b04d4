import AtomicGrid.Wire.Encoding

/-!
# Messages into buffers

A writer goes on in the next buffer where it stopped in the last.  What it has left to write of a
message can be read off its state alone: the bytes that did not fit, and the fields behind them.  A
call writes of that what there is room for, whatever the state is.

## Results

* `Room.cut_append_of_fits`, `Room.cut_append_of_full`: a buffer takes one byte string after the
  other.
* `Writer.putFields_spec`, `Writer.message_spec`: what a call writes, and what it leaves.
* `Writer.message_unlimited`: without a limit one call writes the whole message.
* `Writer.calls_exact`: every call for a list of messages fills its buffer, as far as the message
  goes.
-/

set_option autoImplicit false

namespace AtomicGrid

/-- The bytes in front of the fields of a message. -/
def Message.header (m : Message) : Bytes := [m.kind.code, Wire.fieldCount m.kind]

namespace Wire

/-! ## Buffers -/

namespace Room

variable {room : Room} {a : Bytes}

theorem cut_append_cut (room : Room) (bs : Bytes) : (room.cut bs).1 ++ (room.cut bs).2 = bs := by
  cases room with
  | none => exact List.append_nil bs
  | some n => exact List.take_append_drop n bs

theorem cut_nil (room : Room) : room.cut [] = ([], []) := by
  cases room with
  | none => rfl
  | some n => simp [cut]

theorem eq_of_fits (h : (room.cut a).2 = []) : (room.cut a).1 = a := by
  have hcut := room.cut_append_cut a
  rwa [h, List.append_nil] at hcut

theorem less_nil (room : Room) : room.less [] = room := by
  cases room with
  | none => rfl
  | some n => rfl

/-- Behind bytes that fit, there is the room they leave. -/
theorem cut_append_of_fits (h : (room.cut a).2 = []) (b : Bytes) :
    room.cut (a ++ b) = (a ++ ((room.less a).cut b).1, ((room.less a).cut b).2) := by
  cases room with
  | none => rfl
  | some n =>
    have hle : a.length ≤ n := List.drop_eq_nil_iff.1 h
    show ((a ++ b).take n, (a ++ b).drop n) =
      (a ++ b.take (n - a.length), b.drop (n - a.length))
    rw [List.take_append, List.drop_append, List.take_of_length_le hle, List.drop_of_length_le hle,
      List.nil_append]

/-- Behind bytes that do not fit, there is no room. -/
theorem cut_append_of_full (h : (room.cut a).2 ≠ []) (b : Bytes) :
    room.cut (a ++ b) = ((room.cut a).1, (room.cut a).2 ++ b) := by
  cases room with
  | none => exact absurd rfl h
  | some n =>
    have hle : n ≤ a.length :=
      Nat.le_of_not_lt fun hlt => h (List.drop_of_length_le (Nat.le_of_lt hlt))
    show ((a ++ b).take n, (a ++ b).drop n) = (a.take n, a.drop n ++ b)
    rw [List.take_append_of_le_length hle, List.drop_append_of_le_length hle]

end Room

namespace Writer

variable {w : Writer} {room : Room}

/-! ## Fields -/

/-- What is left to write of fields, of which the first is in progress. -/
def leftOf (w : Writer) : List Bytes → Bytes
  | [] => []
  | f :: fs => w.pending.getD f ++ fs.flatten

/-- What is left to write of a message. -/
def left (w : Writer) (m : Message) : Bytes :=
  if w.headerWritten then w.leftOf (m.fields.drop w.field)
  else w.pending.getD m.header ++ (m.fields.drop w.field).flatten

theorem leftOf_of_idle (h : w.pending = none) (fs : List Bytes) : w.leftOf fs = fs.flatten := by
  cases fs with
  | nil => rfl
  | cons f fs => rw [leftOf, h, Option.getD_none, List.flatten_cons]

theorem put_of_fits {data : Bytes} (h : (room.cut (w.pending.getD data)).2 = []) :
    w.put room data = ({ w with pending := none }, w.pending.getD data, true) := by
  simp only [put, h, Room.eq_of_fits h, if_true, decide_true]

theorem put_of_full {data : Bytes} (h : (room.cut (w.pending.getD data)).2 ≠ []) :
    w.put room data = ({ w with pending := some (room.cut (w.pending.getD data)).2 },
      (room.cut (w.pending.getD data)).1, false) := by
  simp only [put, h, if_false, decide_false]

/-- A call that has `bs` to write writes what there is room for, and says whether that is all. -/
structure Fills (room : Room) (bs out : Bytes) (done : Bool) : Prop where
  out_eq : out = (room.cut bs).1
  done_iff : done = true ↔ (room.cut bs).2 = []

/-- What was left of the fields goes into the buffer as far as there is room.  If it does not all fit,
the writer stops in one of the fields, and the rest is left. -/
theorem putFields_spec (fs : List Bytes) : ∀ (w : Writer) (room : Room),
    Fills room (w.leftOf fs) (w.putFields room fs).2.1 (w.putFields room fs).2.2 ∧
      ((w.putFields room fs).2.2 = false →
        (w.putFields room fs).1.headerWritten = w.headerWritten ∧
          ∃ k, (w.putFields room fs).1.field = w.field + k ∧
            (w.putFields room fs).1.leftOf (fs.drop k) = (room.cut (w.leftOf fs)).2) := by
  induction fs with
  | nil =>
    intro w room
    refine ⟨⟨?_, ?_⟩, nofun⟩
    · rw [leftOf, Room.cut_nil]
      rfl
    · rw [leftOf, Room.cut_nil]
      exact ⟨fun _ => rfl, fun _ => rfl⟩
  | cons f fs ih =>
    intro w room
    by_cases h : (room.cut (w.pending.getD f)).2 = []
    · -- the first field is done, and the others go behind it
      let next : Writer := advance { w with pending := none }
      have hput : w.putFields room (f :: fs) =
          ((next.putFields (room.less (w.pending.getD f)) fs).1,
            w.pending.getD f ++ (next.putFields (room.less (w.pending.getD f)) fs).2.1,
            (next.putFields (room.less (w.pending.getD f)) fs).2.2) := by
        simp only [putFields, put_of_fits h, if_true, next]
      have hcut := Room.cut_append_of_fits h fs.flatten
      obtain ⟨⟨hout, hdone⟩, hleft⟩ := ih next (room.less (w.pending.getD f))
      rw [leftOf_of_idle rfl] at hout hdone hleft
      rw [hput, leftOf]
      refine ⟨⟨?_, ?_⟩, fun hfalse => ?_⟩
      · rw [hcut]
        exact congrArg _ hout
      · rw [hcut]
        exact hdone
      · rw [hcut]
        obtain ⟨hheader, k, hfield, hrest⟩ := hleft hfalse
        refine ⟨hheader, k + 1, ?_, hrest⟩
        rw [hfield]
        show w.field + 1 + k = w.field + (k + 1)
        omega
    · have hput : w.putFields room (f :: fs) =
          ({ w with pending := some (room.cut (w.pending.getD f)).2 },
            (room.cut (w.pending.getD f)).1, false) := by
        simp only [putFields, put_of_full h, Bool.false_eq_true, if_false]
      have hcut := Room.cut_append_of_full h fs.flatten
      rw [hput, leftOf]
      refine ⟨⟨?_, ?_⟩, fun _ => ⟨rfl, 0, rfl, ?_⟩⟩
      · rw [hcut]
      · rw [hcut]
        simp [h]
      · rw [hcut]
        rfl

/-! ## Messages -/

theorem left_fresh (m : Message) : left {} m = m.encode := rfl

section

variable {m : Message}

theorem left_of_header (h : w.headerWritten = true) : w.left m = w.leftOf (m.fields.drop w.field) :=
  if_pos h

theorem left_of_no_header (h : w.headerWritten = false) :
    w.left m = w.pending.getD m.header ++ (m.fields.drop w.field).flatten := by
  rw [left, h]
  rfl

/-- Once the header is out, a call writes fields. -/
theorem message_of_header (h : w.headerWritten = true) :
    w.message room m =
      let r := w.putFields room (m.fields.drop w.field)
      (if r.2.2 then {} else r.1, r.2.1, r.2.2) := by
  simp only [message, putHeader, h, if_true, Room.less_nil, List.nil_append]

/-- A call that gets the header out goes on with fields. -/
theorem message_of_fits (hw : w.headerWritten = false)
    (h : (room.cut (w.pending.getD m.header)).2 = []) :
    w.message room m =
      let r := message { w with pending := none, headerWritten := true }
        (room.less (w.pending.getD m.header)) m
      (r.1, w.pending.getD m.header ++ r.2.1, r.2.2) := by
  let next : Writer := { w with pending := none, headerWritten := true }
  rw [message_of_header (w := next) rfl]
  have hput := put_of_fits h
  simp only [Message.header] at hput
  simp only [message, putHeader, hw, Bool.false_eq_true, if_false, hput, if_true, Message.header]
  rfl

theorem message_of_full (hw : w.headerWritten = false)
    (h : (room.cut (w.pending.getD m.header)).2 ≠ []) :
    w.message room m =
      ({ w with pending := some (room.cut (w.pending.getD m.header)).2, headerWritten := false },
        (room.cut (w.pending.getD m.header)).1, false) := by
  have hput := put_of_full h
  simp only [Message.header] at hput
  simp only [message, putHeader, hw, Bool.false_eq_true, if_false, hput, Message.header]

/-- What a call does for a message of which `bs` was left. -/
structure Writes (room : Room) (m : Message) (bs : Bytes) (r : Writer × Bytes × Bool) : Prop
    extends Fills room bs r.2.1 r.2.2 where
  /-- A writer that is done is as good as new. -/
  fresh : r.2.2 = true → r.1 = {}
  left : r.2.2 = false → r.1.left m = (room.cut bs).2

theorem writes_of_header (hw : w.headerWritten = true) (room : Room) :
    Writes room m (w.left m) (w.message room m) := by
  obtain ⟨hfills, hleft⟩ := putFields_spec (m.fields.drop w.field) w room
  rw [left_of_header hw, message_of_header hw]
  refine ⟨hfills, fun htrue => if_pos htrue, fun hfalse => ?_⟩
  dsimp only at hfalse ⊢
  obtain ⟨hheader, k, hfield, hrest⟩ := hleft hfalse
  have hnext := left_of_header (m := m) (hheader.trans hw)
  rw [hfield, ← List.drop_drop, hrest] at hnext
  rw [hfalse]
  exact hnext

end

/-- What was left of the message goes into the buffer as far as there is room. -/
theorem message_spec (w : Writer) (room : Room) (m : Message) :
    Writes room m (w.left m) (w.message room m) := by
  cases hw : w.headerWritten with
  | true => exact writes_of_header hw room
  | false =>
    rw [left_of_no_header hw]
    by_cases h : (room.cut (w.pending.getD m.header)).2 = []
    · let next : Writer := { w with pending := none, headerWritten := true }
      have hnext : next.left m = (m.fields.drop w.field).flatten := leftOf_of_idle rfl _
      have hcut := Room.cut_append_of_fits h (m.fields.drop w.field).flatten
      obtain ⟨⟨hout, hdone⟩, hfresh, hleft⟩ :=
        writes_of_header (w := next) (m := m) rfl (room.less (w.pending.getD m.header))
      rw [hnext] at hout hdone hleft
      rw [message_of_fits hw h]
      refine ⟨⟨?_, ?_⟩, hfresh, ?_⟩
      · rw [hcut]
        exact congrArg _ hout
      · rw [hcut]
        exact hdone
      · rw [hcut]
        exact hleft
    · have hcut := Room.cut_append_of_full h (m.fields.drop w.field).flatten
      rw [message_of_full hw h]
      refine ⟨⟨?_, ?_⟩, nofun, fun _ => ?_⟩
      · rw [hcut]
      · rw [hcut]
        simp [h]
      · rw [hcut]
        rfl

/-- Without a limit, one call writes the whole message. -/
theorem message_unlimited (m : Message) : message {} none m = ({}, m.encode, true) := by
  obtain ⟨⟨hout, hdone⟩, hfresh, -⟩ := message_spec {} none m
  rw [left_fresh] at hout hdone
  have htrue : (message {} none m).2.2 = true := hdone.2 rfl
  exact Prod.ext (hfresh htrue) (Prod.ext hout htrue)

/-! ## Any number of calls -/

/-- A call, as it is made for a message. -/
structure Call where
  message : Message
  /-- What the calls before it have written of the message. -/
  written : Bytes
  room : Room
  /-- What it writes. -/
  out : Bytes
  /-- Whether it says that the message is complete. -/
  done : Bool
  /-- The writer it leaves. -/
  writer : Writer

/-- The calls for messages that are written one after the other into buffers with some room each,
by a writer that has written some of the first message. -/
def calls (w : Writer) (written : Bytes) : List Message → List Room → List Call
  | m :: ms, room :: rooms =>
    let (w', out, done) := w.message room m
    ⟨m, written, room, out, done, w'⟩ ::
      if done then calls w' [] ms rooms else calls w' (written ++ out) (m :: ms) rooms
  | _, _ => []

/-- The call writes the next bytes of its message, as many as there are and as there is room for, and
says rightly whether the message is complete. -/
structure Call.Exact (c : Call) : Prop where
  written : c.written <+: c.message.encode
  out_eq : c.out = (c.room.cut (c.message.encode.drop c.written.length)).1
  length_out : ∀ limit, c.room = some limit →
    c.out.length = min limit (c.message.encode.length - c.written.length)
  done_iff : c.done = true ↔ c.written ++ c.out = c.message.encode
  /-- A writer that has completed a message is as good as new. -/
  fresh : c.done = true → c.writer = {}

theorem exact_call {m : Message} {written : Bytes} (h : written ++ w.left m = m.encode)
    (room : Room) :
    Call.Exact ⟨m, written, room, (w.message room m).2.1, (w.message room m).2.2,
      (w.message room m).1⟩ := by
  obtain ⟨⟨hout, hdone⟩, hfresh, -⟩ := message_spec w room m
  have hdrop : m.encode.drop written.length = w.left m := by rw [← h, List.drop_left]
  have hcut := room.cut_append_cut (w.left m)
  refine ⟨⟨w.left m, h⟩, ?_, ?_, ?_, hfresh⟩
  · show (w.message room m).2.1 = (room.cut (m.encode.drop written.length)).1
    rw [hdrop, hout]
  · rintro limit (rfl : room = some limit)
    show (w.message (some limit) m).2.1.length = min limit (m.encode.length - written.length)
    rw [hout, ← List.length_drop, hdrop]
    exact List.length_take
  · show (w.message room m).2.2 = true ↔ written ++ (w.message room m).2.1 = m.encode
    rw [hdone, hout, ← h, List.append_cancel_left_eq]
    constructor
    · exact Room.eq_of_fits
    · intro heq
      rw [heq] at hcut
      exact List.append_right_eq_self.1 hcut

/-- What is left to write of the first message, and all others. -/
def ahead (w : Writer) : List Message → Bytes
  | [] => []
  | m :: ms => w.left m ++ ms.flatMap Message.encode

theorem ahead_fresh (ms : List Message) : ahead {} ms = ms.flatMap Message.encode := by
  cases ms with
  | nil => rfl
  | cons m ms => rw [ahead, left_fresh, List.flatMap_cons]

theorem calls_nil (w : Writer) (written : Bytes) (rooms : List Room) :
    calls w written [] rooms = [] := by
  cases rooms <;> rfl

theorem calls_no_room (w : Writer) (written : Bytes) (ms : List Message) :
    calls w written ms [] = [] := by
  cases ms <;> rfl

theorem calls_spec (rooms : List Room) : ∀ (w : Writer) (written : Bytes) (ms : List Message),
    (∀ m ∈ ms.head?, written ++ w.left m = m.encode) →
      (∀ c ∈ calls w written ms rooms, c.Exact) ∧
        (calls w written ms rooms).flatMap Call.out <+: w.ahead ms := by
  induction rooms with
  | nil =>
    intro w written ms _
    rw [calls_no_room]
    exact ⟨List.forall_mem_nil _, List.nil_prefix⟩
  | cons room rooms ih =>
    intro w written ms hms
    cases ms with
    | nil =>
      rw [calls_nil]
      exact ⟨List.forall_mem_nil _, List.nil_prefix⟩
    | cons m ms =>
      have hm : written ++ w.left m = m.encode := hms m rfl
      have hexact := exact_call hm room
      obtain ⟨⟨hout, hdone⟩, hfresh, hleft⟩ := message_spec w room m
      have hcut := room.cut_append_cut (w.left m)
      rw [← hout] at hcut
      cases hd : (w.message room m).2.2 with
      | true =>
        -- the message is complete, and a fresh writer goes on with the next
        have hrest : (room.cut (w.left m)).2 = [] := hdone.1 hd
        obtain ⟨hcalls, hprefix⟩ := ih {} [] ms fun m' _ => left_fresh m'
        have hnext : calls w written (m :: ms) (room :: rooms) =
            ⟨m, written, room, (w.message room m).2.1, (w.message room m).2.2,
              (w.message room m).1⟩ :: calls {} [] ms rooms := by
          simp only [calls, hd, if_true, hfresh hd]
        rw [hnext]
        refine ⟨List.forall_mem_cons.2 ⟨hexact, hcalls⟩, ?_⟩
        rw [hrest, List.append_nil] at hcut
        rw [List.flatMap_cons, ahead, ← ahead_fresh ms, ← hcut]
        exact (List.prefix_append_right_inj _).2 hprefix
      | false =>
        have hnext : calls w written (m :: ms) (room :: rooms) =
            ⟨m, written, room, (w.message room m).2.1, (w.message room m).2.2,
              (w.message room m).1⟩ ::
              calls (w.message room m).1 (written ++ (w.message room m).2.1) (m :: ms) rooms := by
          simp only [calls, hd, Bool.false_eq_true, if_false]
        have hlater : written ++ (w.message room m).2.1 ++ (w.message room m).1.left m =
            m.encode := by
          rw [hleft hd, List.append_assoc, hcut, hm]
        obtain ⟨hcalls, hprefix⟩ := ih (w.message room m).1 (written ++ (w.message room m).2.1)
          (m :: ms) fun m' hm' => by cases hm'; exact hlater
        rw [hnext]
        refine ⟨List.forall_mem_cons.2 ⟨hexact, hcalls⟩, ?_⟩
        rw [ahead, hleft hd] at hprefix
        rw [List.flatMap_cons, ahead, ← hcut, List.append_assoc]
        exact (List.prefix_append_right_inj _).2 hprefix

/-- Whatever room there is, every call writes the next bytes of its message, as many as there is room
for, and is done when the message is.  The bytes of all calls are the beginning of those of the
messages, which are what calls without a limit write. -/
theorem calls_exact (ms : List Message) (rooms : List Room) :
    (∀ c ∈ calls {} [] ms rooms, c.Exact) ∧
      (calls {} [] ms rooms).flatMap Call.out <+: ms.flatMap Message.encode ∧
      ∀ m : Message, message {} none m = ({}, m.encode, true) := by
  obtain ⟨hcalls, hprefix⟩ := calls_spec rooms {} [] ms fun m _ => left_fresh m
  rw [ahead_fresh] at hprefix
  exact ⟨hcalls, hprefix, message_unlimited⟩

/-- A buffer ends within the header, another has no room at all. -/
example : (calls {} [] [.checkRequest ⟨⟨1, 2, 3⟩, none⟩] [some 1, some 0, some 16, none]).map
    (fun c => (c.out.length, c.done)) = [(1, false), (0, false), (16, false), (1, true)] := by
  decide

end Writer

end Wire

end AtomicGrid
