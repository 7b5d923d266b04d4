import AtomicGrid.Proofs.Wire.Fragments
import AtomicGrid.Proofs.Wire.RoundTrip
import AtomicGrid.Wire.Encoding

/-!
# Streams of messages

The bytes of any messages, one after the other, read back as these messages, in whatever pieces they
come.  The only limit is the length of a field that holds a composite value: it travels in four
bytes, and the greatest length is taken by the absent field.

## Results

* `Reader.read_encode`: a field reads back.
* `readBack_layout`: the fields of a message, put into a blank one, give the message as its receiver
  sees it.
* `Decoder.feed_encode`: any stream of messages reads back, however it is cut.
-/

set_option autoImplicit false

namespace AtomicGrid

namespace Wire

/-- The length of a byte string differs from the one that stands for an absent byte string. -/
def Shape.Fits : (s : Shape) → s.Value → Prop
  | .bytes, (some bs : Option Bytes) => bs.length < absentLength.toNat
  | _, _ => True

instance : (s : Shape) → (v : s.Value) → Decidable (s.Fits v)
  | .word8, _ => .isTrue trivial
  | .word32, _ => .isTrue trivial
  | .word64, _ => .isTrue trivial
  | .topology, _ => .isTrue trivial
  | .bytes, none => .isTrue trivial
  | .bytes, some _ => Nat.decLt _ _

variable {σ α : Type}

def Slot.Fits (s : Slot σ) (m : σ) : Prop := s.shape.Fits (s.get m)

instance (s : Slot σ) (m : σ) : Decidable (s.Fits m) :=
  inferInstanceAs (Decidable (s.shape.Fits (s.get m)))

/-! ## Fields -/

namespace Reader

theorem word_append {n k : Nat} {read : Bytes → α} {front : Bytes} (h : front.length = n)
    (rest : Bytes) :
    word { field := k } n read (front ++ rest) = ({ field := k }, rest, some (read front)) := by
  subst h
  have hc := collect_enough (r := { field := k }) (n := front.length) (a := front ++ rest)
    (Nat.zero_le _) (by simp)
  simp only [word, hc]
  simp

theorem content_append (k : Nat) (bs rest : Bytes) :
    content { field := k, expected := some bs.length } bs.length (bs ++ rest) =
      ({ field := k }, rest, some (some bs)) := by
  have hc := collect_enough (r := { field := k, expected := some bs.length }) (n := bs.length)
    (a := bs ++ rest) (Nat.zero_le _) (by simp)
  simp only [content, hc]
  simp

theorem header_append (k : Nat) (code count : UInt8) (rest : Bytes) :
    header { field := k } ([code, count] ++ rest) = ({ field := k }, rest, some (code, count)) := by
  have h : ([code, count] : Bytes).length = 2 := rfl
  simp only [header, word_append h, List.headD_cons, List.tail_cons]

/-- A field reads back, and what follows it is left. -/
theorem read_encode (k : Nat) :
    ∀ (s : Shape) (v : s.Value) (rest : Bytes), s.Fits v →
      read { field := k } s (s.encode v ++ rest) = ({ field := k }, rest, some v)
  | .word8, b, rest, _ => by
    have h : ([b] : Bytes).length = 1 := rfl
    simp only [read, Shape.encode, word_append h, List.headD_cons]
  | .word32, n, rest, _ => by
    have h : (Bytes.ofUInt32 n).length = 4 := Bytes.length_ofNat 4 _
    simp only [read, Shape.encode, word_append h, Bytes.toUInt32_ofUInt32]
  | .word64, n, rest, _ => by
    have h : (Bytes.ofUInt64 n).length = 8 := Bytes.length_ofNat 8 _
    simp only [read, Shape.encode, word_append h, Bytes.toUInt64_ofUInt64]
  | .topology, v, rest, _ => by
    have h8 : (Bytes.ofUInt64 v.major).length = 8 := Bytes.length_ofNat 8 _
    have h4 : (Bytes.ofUInt32 v.minor).length = 4 := Bytes.length_ofNat 4 _
    have h : (Bytes.ofUInt64 v.major ++ Bytes.ofUInt32 v.minor).length = 12 := by
      rw [List.length_append, h8, h4]
    simp only [read, Shape.encode, word_append h, List.take_left' h8, List.drop_left' h8,
      Bytes.toUInt32_ofUInt32, Bytes.toUInt64_ofUInt64]
  | .bytes, none, rest, _ => by
    have h : (Bytes.ofUInt32 Shape.absentLength).length = 4 := Bytes.length_ofNat 4 _
    simp only [read, bytes, Shape.encode, word_append h, Bytes.toUInt32_ofUInt32, if_true]
  | .bytes, some bs, rest, hf => by
    have hf : bs.length < Shape.absentLength.toNat := hf
    have h : (Bytes.ofUInt32 (UInt32.ofNat bs.length)).length = 4 := Bytes.length_ofNat 4 _
    have hn : (UInt32.ofNat bs.length).toNat = bs.length :=
      UInt32.toNat_ofNat_of_lt' (Nat.lt_trans hf (by decide))
    have hne : UInt32.ofNat bs.length ≠ Shape.absentLength := fun e => by
      rw [e] at hn
      omega
    simp only [read, bytes, Shape.encode, List.append_assoc, word_append h,
      Bytes.toUInt32_ofUInt32, hne, if_false, hn, content_append]

end Reader

/-! ## Messages -/

/-- Puts the fields of a message into another. -/
def readBack : List (Slot σ) → (m start : σ) → Except WireError σ
  | [], _, start => .ok start
  | s :: ss, m, start =>
    match s.set (s.get m) start with
    | .ok next => readBack ss m next
    | .error e => .error e

theorem readFields_encode :
    ∀ (ss : List (Slot σ)) (k : Nat) (m start rest : _), (∀ s ∈ ss, s.Fits m) →
      ∀ last, readBack ss m start = .ok last →
        readFields ss { field := k } start
          ((ss.map fun s => s.shape.encode (s.get m)).flatten ++ rest) = .done last rest
  | [], _, _, _, _, _, _, h => by
    cases h
    rfl
  | s :: ss, k, m, start, rest, hf, last, h => by
    have hs : s.shape.Fits (s.get m) := hf s List.mem_cons_self
    have hr := Reader.read_encode k s.shape (s.get m)
      ((ss.map fun s => s.shape.encode (s.get m)).flatten ++ rest) hs
    cases hset : s.set (s.get m) start with
    | error e => simp [readBack, hset] at h
    | ok next =>
      simp only [readBack, hset] at h
      simp only [List.map_cons, List.flatten_cons, List.append_assoc, readFields, hr, hset]
      exact readFields_encode ss (k + 1) m next rest
        (fun s hs => hf s (List.mem_cons_of_mem _ hs)) last h

theorem composite_set_get {field : String} {c : Codec α} {get : σ → α} {set : α → σ → σ} {m : σ}
    (hc : c.RoundTrips) (h : (Slot.composite field c get set).Fits m) (start : σ) :
    (Slot.composite field c get set).set ((Slot.composite field c get set).get m) start =
      .ok (set (get m) start) := by
  have hl : (c.encode (get m)).length < countable := Nat.lt_trans h (by decide)
  simp only [Slot.composite, decodeField_encode hc field hl]

end Wire

open Wire Codec

/-- The length of every composite field of the message can be written. -/
def Message.Fits (m : Message) : Prop := ∀ s ∈ layout m.kind, s.Fits m.body

instance (m : Message) : Decidable m.Fits :=
  inferInstanceAs (Decidable (∀ s ∈ layout m.kind, s.Fits m.body))

theorem readBack_updateRequest (m : UpdateRequest) (h : ∀ s ∈ updateRequestLayout, s.Fits m) :
    readBack updateRequestLayout m default = .ok m := by
  simp only [updateRequestLayout, List.forall_mem_cons] at h
  obtain ⟨-, -, -, hv, -, -, -, -, hp, -, -, -⟩ := h
  simp only [updateRequestLayout, readBack, Slot.word8, Slot.word32, Slot.word64, Slot.topology,
    Slot.code, composite_set_get writeVersion_roundTrips hv,
    composite_set_get updatePayload_roundTrips hp, SyncMode.ofCode?_code, Operation.ofCode?_code,
    RequestFlags.ofBits_bits]

theorem readBack_backupRequest (m : BackupRequest) (h : ∀ s ∈ backupRequestLayout, s.Fits m) :
    readBack backupRequestLayout m default = .ok m := by
  simp only [backupRequestLayout, List.forall_mem_cons] at h
  obtain ⟨-, -, -, -, -, hv, -, -, -, he, hn, ha, hm, -, -, -⟩ := h
  have hes := list_roundTrips backupEntry_roundTrips backupEntry_occupies
  have hns := list_roundTrips nearEntry_roundTrips nearEntry_occupies
  have has := list_roundTrips bytes_roundTrips bytes_occupies
  simp only [backupRequestLayout, readBack, Slot.word8, Slot.word32, Slot.word64, Slot.topology,
    Slot.code, composite_set_get writeVersion_roundTrips hv, composite_set_get hes he,
    composite_set_get hns hn, composite_set_get has ha,
    composite_set_get (option_roundTrips nodeIds_roundTrips) hm, SyncMode.ofCode?_code,
    BackupFlags.ofBits_bits]

theorem readBack_updateResponse (m : UpdateResponse) (h : ∀ s ∈ updateResponseLayout, s.Fits m) :
    readBack updateResponseLayout m default = .ok m := by
  simp only [updateResponseLayout, List.forall_mem_cons] at h
  obtain ⟨-, -, -, -, hr, hf, he, hk, -, hm, hv, hn, -⟩ := h
  have hks := list_roundTrips bytes_roundTrips bytes_occupies
  have hns := list_roundTrips nearEntry_roundTrips nearEntry_occupies
  simp only [updateResponseLayout, readBack, Slot.word32, Slot.word64, Slot.topology,
    composite_set_get (option_roundTrips updateReturn_roundTrips) hr,
    composite_set_get failedKeys_roundTrips hf,
    composite_set_get (option_roundTrips failureCause_roundTrips) he, composite_set_get hks hk,
    composite_set_get (option_roundTrips nodeIds_roundTrips) hm,
    composite_set_get (option_roundTrips writeVersion_roundTrips) hv, composite_set_get hns hn]

theorem readBack_mappingNotice (m : MappingNotice) (h : ∀ s ∈ mappingNoticeLayout, s.Fits m) :
    readBack mappingNoticeLayout m default = .ok m := by
  simp only [mappingNoticeLayout, List.forall_mem_cons] at h
  obtain ⟨-, -, -, hm, -⟩ := h
  simp only [mappingNoticeLayout, readBack, Slot.word32, Slot.word64,
    composite_set_get nodeIds_roundTrips hm]

theorem readBack_backupNotice (m : BackupNotice) (h : ∀ s ∈ backupNoticeLayout, s.Fits m) :
    readBack backupNoticeLayout m default = .ok m := by
  simp only [backupNoticeLayout, List.forall_mem_cons] at h
  obtain ⟨-, -, -, -, hm, hf, -, -⟩ := h
  simp only [backupNoticeLayout, readBack, Slot.word8, Slot.word32, Slot.word64,
    composite_set_get nodeIds_roundTrips hm,
    composite_set_get (option_roundTrips nodeId_roundTrips) hf, NoticeFlags.ofBits_bits]

/-- The update a check is about stays with the asking node. -/
theorem readBack_checkRequest (m : CheckRequest) :
    readBack checkRequestLayout m default = .ok { m with update := none } := rfl

/-- The fields of a message, put into a blank one, give it as its receiver sees it. -/
theorem readBack_layout (m : Message) (h : m.Fits) :
    ∃ body, readBack (layout m.kind) m.body m.kind.blank = .ok body ∧
      Message.ofBody m.kind body = m.received := by
  cases m with
  | updateRequest m => exact ⟨m, readBack_updateRequest m h, rfl⟩
  | backupRequest m => exact ⟨m, readBack_backupRequest m h, rfl⟩
  | updateResponse m => exact ⟨m, readBack_updateResponse m h, rfl⟩
  | mappingNotice m => exact ⟨m, readBack_mappingNotice m h, rfl⟩
  | backupNotice m => exact ⟨m, readBack_backupNotice m h, rfl⟩
  | checkRequest m => exact ⟨{ m with update := none }, readBack_checkRequest m, rfl⟩

/-! ## Streams -/

namespace Wire.Decoder

/-- A message reads back, and what follows it is left. -/
theorem next_encode (m : Message) (h : m.Fits) (rest : Bytes) :
    next {} (m.encode ++ rest) = ({}, rest, .ok (some m.received)) := by
  obtain ⟨body, hb, hm⟩ := readBack_layout m h
  have hr : readFields (layout m.kind) {} m.kind.blank (m.fields.flatten ++ rest) =
      .done body rest := readFields_encode (layout m.kind) 0 m.body m.kind.blank rest h body hb
  have he : m.encode ++ rest =
      [m.kind.code, fieldCount m.kind] ++ (m.fields.flatten ++ rest) := by
    simp [Message.encode]
  rw [he]
  simp only [next, Reader.header_append, MessageKind.ofCode?_code, if_true, resume,
    List.drop_zero, hr, hm]

theorem drain_encode (ms : List Message) (h : ∀ m ∈ ms, m.Fits) :
    drain {} (ms.flatMap Message.encode) = ⟨{}, ms.map Message.received, none, []⟩ := by
  induction ms with
  | nil => exact drain_of_paused (next_nil live_fresh)
  | cons m ms ih =>
    obtain ⟨hm, hms⟩ := List.forall_mem_cons.1 h
    have hlt : (ms.flatMap Message.encode).length <
        (m.encode ++ ms.flatMap Message.encode).length := by
      simp [Message.encode]
      omega
    rw [List.flatMap_cons, drain_of_message (next_encode m hm _) hlt, ih hms, List.map_cons]

/-- Any stream of messages reads back, however it is cut, and leaves nothing behind. -/
theorem feed_encode (ms : List Message) (h : ∀ m ∈ ms, m.Fits) (pieces : List Bytes)
    (hp : pieces.flatten = ms.flatMap Message.encode) :
    feed {} [] pieces = ⟨{}, ms.map Message.received, none, []⟩ := by
  rw [feed_eq_drain live_fresh, hp, drain_encode ms h]

/-- A mapping notice and a check read back byte by byte; the check without its update. -/
theorem feed_encode_bytewise :
    feed {} []
        (([.mappingNotice ⟨⟨1, 2, 3⟩, [⟨4⟩, ⟨5⟩]⟩, .checkRequest ⟨⟨1, 2, 3⟩, some default⟩] :
          List Message).flatMap Message.encode |>.map ([·])) =
      ⟨{}, [.mappingNotice ⟨⟨1, 2, 3⟩, [⟨4⟩, ⟨5⟩]⟩, .checkRequest ⟨⟨1, 2, 3⟩, none⟩], none, []⟩ :=
  feed_encode
    [.mappingNotice ⟨⟨1, 2, 3⟩, [⟨4⟩, ⟨5⟩]⟩, .checkRequest ⟨⟨1, 2, 3⟩, some default⟩]
    (by decide) _ (by decide)

end Wire.Decoder

end AtomicGrid
