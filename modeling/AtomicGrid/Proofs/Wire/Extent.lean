import AtomicGrid.Proofs.Wire.Canonical

/-!
# Where values end

Nothing in front of a composite value says how many bytes it takes: whoever reads it finds the end by
reading.  `Codec.Spans` says that bytes are all that a value takes, that it does not matter what
follows them, and that no part of them would do.  `Format` lists the types of composite values, so that
what holds of each of them is proved by recursion on the format.

A list starts with a count, which may announce any number of elements.  As each element takes a byte
at least, the bytes that are there bound how often a list sets out to read one.

## Results

* `Codec.Regular.spans`: a spelling spans the value that it spells.
* `Codec.tallyList_fst`, `Codec.Regular.tallyList_snd_le`: counting the attempts at an element does
  not change what a list reads, and there is at most one more of them than there are bytes.
* `Format.regular`: what is written reads back, and what reads is a spelling, in every format.
* `formatted_of_mem_layout`: the composite values of messages have formats.
* `Format.delimited`: where the values of a format end, in any bytes.
-/

set_option autoImplicit false

namespace AtomicGrid.Wire

namespace Codec

variable {α β : Type} {c : Codec α} {d : Codec β}

/-- The bytes are what the value takes: they are there, whatever follows them is left, and no part of
them reads as anything. -/
structure Spans (c : Codec α) (p : Bytes) (a : α) : Prop where
  ne_nil : p ≠ []
  decode (rest : Bytes) : c.decode (p ++ rest) = .ok (a, rest)
  truncated (q : Bytes) : q <+: p → q ≠ p → ∃ f, c.decode q = .error f

/-- What is written reads back, what reads is a spelling, and where there is nothing, nothing can be
read. -/
structure Regular (c : Codec α) : Prop where
  roundTrips : c.RoundTrips
  reads : c.Reads
  nil : ∃ f, c.decode [] = .error f

namespace Regular

/-- What would take no bytes would read back from none. -/
theorem occupies (hc : c.Regular) : c.Occupies := by
  intro a
  refine List.length_pos_of_ne_nil fun hnil => ?_
  obtain ⟨f, hf⟩ := hc.nil
  have hread := hc.roundTrips a [] (by rw [hnil]; decide)
  rw [hnil, List.append_nil, hf] at hread
  cases hread

/-- What is written spells the value. -/
theorem written (hc : c.Regular) {a : α} (ha : (c.encode a).length < countable) :
    Written c a (c.encode a) [] := by
  obtain ⟨p, L, hp, hw⟩ := hc.reads _ a [] (hc.roundTrips a [] ha)
  rw [List.append_nil, List.append_nil] at hp
  subst hp
  obtain rfl := (hw.encode_eq ha).1 rfl
  exact hw

/-- A spelling spans the value that it spells. -/
theorem spans (hc : c.Regular) {a : α} {p : Bytes} {L : List Liberty} (h : Written c a p L) :
    c.Spans p a where
  ne_nil := by
    rintro rfl
    obtain ⟨f, hf⟩ := hc.nil
    have hread := h.decode []
    rw [List.append_nil, hf] at hread
    cases hread
  decode := h.decode
  truncated q hq hne := by
    cases hd : c.decode q with
    | error f => exact ⟨f, rfl⟩
    | ok r =>
      obtain ⟨b, rest⟩ := r
      obtain ⟨t, rfl⟩ := hq
      obtain ⟨p', M, rfl, hw⟩ := hc.reads _ _ _ hd
      -- the value read from `q` reads from the whole, too, and leaves what `q` lacks
      have hpart := hw.decode (rest ++ t)
      have hwhole := h.decode []
      rw [List.append_nil, List.append_assoc, hpart] at hwhole
      obtain ⟨-, hleft⟩ := Prod.mk.inj (Except.ok.inj hwhole)
      obtain ⟨-, rfl⟩ := List.append_eq_nil_iff.1 hleft
      exact absurd (List.append_nil _).symm hne

/-- What reads has been found at the front of the bytes. -/
theorem spans_of_decode (hc : c.Regular) {bs rest : Bytes} {a : α}
    (h : c.decode bs = .ok (a, rest)) : ∃ p, bs = p ++ rest ∧ c.Spans p a := by
  obtain ⟨p, L, hbs, hw⟩ := hc.reads bs a rest h
  exact ⟨p, hbs, hc.spans hw⟩

/-- Reading takes up a byte at least. -/
theorem length_lt_of_decode (hc : c.Regular) {bs rest : Bytes} {a : α}
    (h : c.decode bs = .ok (a, rest)) : rest.length < bs.length := by
  obtain ⟨p, rfl, hp⟩ := hc.spans_of_decode h
  have hpos := List.length_pos_of_ne_nil hp.ne_nil
  rw [List.length_append]
  omega

end Regular

/-! ## How often a list reads an element -/

/-- Reads `n` values as `decodeMany` does, and counts the attempts at one. -/
def tallyMany (c : Codec α) : Nat → Bytes → Except Fault (List α × Bytes) × Nat
  | 0, bs => (.ok ([], bs), 0)
  | n + 1, bs =>
    match c.decode bs with
    | .ok (a, rest) =>
      let others := tallyMany c n rest
      (others.1.map fun r => (a :: r.1, r.2), others.2 + 1)
    | .error e => (.error e, 1)

/-- Reads values behind their count as `list` does, and counts the attempts at one. -/
def tallyList (c : Codec α) (bs : Bytes) : Except Fault (List α × Bytes) × Nat :=
  match word32.decode bs with
  | .ok (n, rest) => tallyMany c n.toNat rest
  | .error e => (.error e, 0)

theorem tallyMany_fst (c : Codec α) (n : Nat) (bs : Bytes) :
    (tallyMany c n bs).1 = decodeMany c n bs := by
  induction n generalizing bs with
  | zero => rfl
  | succ n ih =>
    cases hd : c.decode bs with
    | error e => simp only [tallyMany, decodeMany, hd]
    | ok r =>
      simp only [tallyMany, decodeMany, hd, ih]
      cases decodeMany c n r.2 <;> rfl

/-- Counting does not change what is read. -/
theorem tallyList_fst (c : Codec α) (bs : Bytes) : (tallyList c bs).1 = c.list.decode bs := by
  unfold tallyList
  simp only [list]
  cases hw : word32.decode bs with
  | error e => rfl
  | ok r => exact tallyMany_fst c _ _

theorem tallyMany_snd_of_ok {n : Nat} {bs rest : Bytes} {as : List α}
    (h : decodeMany c n bs = .ok (as, rest)) : (tallyMany c n bs).2 = as.length := by
  induction n generalizing bs as with
  | zero =>
    cases h
    rfl
  | succ n ih =>
    cases hd : c.decode bs with
    | error e =>
      simp only [decodeMany, hd] at h
      cases h
    | ok r =>
      cases hmany : decodeMany c n r.2 with
      | error e =>
        simp only [decodeMany, hd, hmany] at h
        cases h
      | ok others =>
        simp only [decodeMany, hd, hmany] at h
        cases h
        simp only [tallyMany, hd, ih hmany, List.length_cons]

/-- A list that can be read takes one attempt at each element. -/
theorem tallyList_snd_of_ok {bs rest : Bytes} {as : List α}
    (h : c.list.decode bs = .ok (as, rest)) : (tallyList c bs).2 = as.length := by
  simp only [list] at h
  split at h
  next n rest' hw =>
    simp only [tallyList, hw]
    exact tallyMany_snd_of_ok h
  next => cases h

/-- Every attempt but the last takes up a byte at least, whatever number of values is wanted. -/
theorem Regular.tallyMany_snd_le (hc : c.Regular) (n : Nat) (bs : Bytes) :
    (tallyMany c n bs).2 ≤ bs.length + 1 := by
  -- by induction on what is still wanted; the bytes that are left pay for the attempts to come
  induction n generalizing bs with
  | zero => exact Nat.zero_le _
  | succ n ih =>
    cases hd : c.decode bs with
    | error e =>
      simp only [tallyMany, hd]
      exact Nat.le_add_left 1 _
    | ok r =>
      have hlt := hc.length_lt_of_decode hd
      have hle := ih r.2
      simp only [tallyMany, hd]
      omega

theorem Regular.tallyList_snd_le (hc : c.Regular) (bs : Bytes) :
    (tallyList c bs).2 ≤ bs.length + 1 := by
  unfold tallyList
  cases hw : word32.decode bs with
  | error e => exact Nat.zero_le _
  | ok r =>
    obtain ⟨n, rest⟩ := r
    have hle := hc.tallyMany_snd_le n.toNat rest
    have hrest := congrArg List.length (eq_append_of_word32 hw)
    rw [List.length_append] at hrest
    exact Nat.le_trans hle (by omega)

/-! ## Combinators -/

theorem pair_regular (hc : c.Regular) (hd : d.Regular) : (c.pair d).Regular where
  roundTrips := pair_roundTrips hc.roundTrips hd.roundTrips
  reads := pair_reads hc.reads hd.reads
  nil := by
    obtain ⟨e, he⟩ := hc.nil
    exact ⟨e, by simp only [pair, he]⟩

theorem list_regular (hc : c.Regular) : c.list.Regular :=
  ⟨list_roundTrips hc.roundTrips hc.occupies, list_reads hc.reads, ⟨_, rfl⟩⟩

theorem option_regular (hc : c.Regular) : c.option.Regular :=
  ⟨option_roundTrips hc.roundTrips, option_reads hc.reads, ⟨_, rfl⟩⟩

end Codec

/-! ## Formats -/

/-- The types of composite values. -/
inductive Format where
  | word8
  | bool
  | word32
  | word64
  | int64
  | bytes
  | text
  | option (f : Format)
  | list (f : Format)
  | pair (f g : Format)
  | nodeId
  | topologyVersion
  | writeVersion
  | processorRef
  | entryFilter
  | expiryPolicy
  | failureCause
  | invokeOutcome
  | updateReturn
  | updateEntry
  | updatePayload
  | backupEntry
  | nearEntry
  deriving DecidableEq, Repr

namespace Format

/-- The values of a format. -/
@[reducible] def Value : Format → Type
  | .word8 => UInt8
  | .bool => Bool
  | .word32 => UInt32
  | .word64 => UInt64
  | .int64 => Int64
  | .bytes => Bytes
  | .text => String
  | .option f => Option f.Value
  | .list f => List f.Value
  | .pair f g => f.Value × g.Value
  | .nodeId => NodeId
  | .topologyVersion => TopologyVersion
  | .writeVersion => WriteVersion
  | .processorRef => ProcessorRef
  | .entryFilter => EntryFilter
  | .expiryPolicy => ExpiryPolicy
  | .failureCause => FailureCause
  | .invokeOutcome => InvokeOutcome
  | .updateReturn => UpdateReturn
  | .updateEntry => UpdateEntry
  | .updatePayload => UpdatePayload
  | .backupEntry => BackupEntry
  | .nearEntry => NearEntry

/-- How the values of a format are written and read. -/
def codec : (f : Format) → Codec f.Value
  | .word8 => Codec.word8
  | .bool => Codec.bool
  | .word32 => Codec.word32
  | .word64 => Codec.word64
  | .int64 => Codec.int64
  | .bytes => Codec.bytes
  | .text => Codec.text
  | .option f => f.codec.option
  | .list f => f.codec.list
  | .pair f g => f.codec.pair g.codec
  | .nodeId => Codec.nodeId
  | .topologyVersion => Codec.topologyVersion
  | .writeVersion => Codec.writeVersion
  | .processorRef => Codec.processorRef
  | .entryFilter => Codec.entryFilter
  | .expiryPolicy => Codec.expiryPolicy
  | .failureCause => Codec.failureCause
  | .invokeOutcome => Codec.invokeOutcome
  | .updateReturn => Codec.updateReturn
  | .updateEntry => Codec.updateEntry
  | .updatePayload => Codec.updatePayload
  | .backupEntry => Codec.backupEntry
  | .nearEntry => Codec.nearEntry

open Codec

/-- One case per type: each is built of combinators that keep what is asked for. -/
theorem regular : (f : Format) → f.codec.Regular
  | .word8 => ⟨word8_roundTrips, word8_reads, ⟨_, rfl⟩⟩
  | .bool => ⟨bool_roundTrips, bool_reads, ⟨_, rfl⟩⟩
  | .word32 => ⟨word32_roundTrips, word32_reads, ⟨_, rfl⟩⟩
  | .word64 => ⟨word64_roundTrips, word64_reads, ⟨_, rfl⟩⟩
  | .int64 => ⟨int64_roundTrips, int64_reads, ⟨_, rfl⟩⟩
  | .bytes => ⟨bytes_roundTrips, bytes_reads, ⟨_, rfl⟩⟩
  | .text => ⟨text_roundTrips, text_reads, ⟨_, rfl⟩⟩
  | .option f => option_regular f.regular
  | .list f => list_regular f.regular
  | .pair f g => pair_regular f.regular g.regular
  | .nodeId => ⟨nodeId_roundTrips, nodeId_reads, ⟨_, rfl⟩⟩
  | .topologyVersion => ⟨topologyVersion_roundTrips, topologyVersion_reads, ⟨_, rfl⟩⟩
  | .writeVersion => ⟨writeVersion_roundTrips, writeVersion_reads, ⟨_, rfl⟩⟩
  | .processorRef => ⟨processorRef_roundTrips, processorRef_reads, ⟨_, rfl⟩⟩
  | .entryFilter => ⟨entryFilter_roundTrips, entryFilter_reads, ⟨_, rfl⟩⟩
  | .expiryPolicy => ⟨expiryPolicy_roundTrips, expiryPolicy_reads, ⟨_, rfl⟩⟩
  | .failureCause => ⟨failureCause_roundTrips, failureCause_reads, ⟨_, rfl⟩⟩
  | .invokeOutcome => ⟨invokeOutcome_roundTrips, invokeOutcome_reads, ⟨_, rfl⟩⟩
  | .updateReturn => ⟨updateReturn_roundTrips, updateReturn_reads, ⟨_, rfl⟩⟩
  | .updateEntry => ⟨updateEntry_roundTrips, updateEntry_reads, ⟨_, rfl⟩⟩
  | .updatePayload => ⟨updatePayload_roundTrips, updatePayload_reads, ⟨_, rfl⟩⟩
  | .backupEntry => ⟨backupEntry_roundTrips, backupEntry_reads, ⟨_, rfl⟩⟩
  | .nearEntry => ⟨nearEntry_roundTrips, nearEntry_reads, ⟨_, rfl⟩⟩

end Format

/-! ## Fields of messages -/

/-- A field that holds a word, the code of a value, or a composite value of some format. -/
inductive Slot.Formatted {σ : Type} : Slot σ → Prop
  | word8 {get : σ → UInt8} {set : UInt8 → σ → σ} : Formatted (Slot.word8 get set)
  | word32 {get : σ → UInt32} {set : UInt32 → σ → σ} : Formatted (Slot.word32 get set)
  | word64 {get : σ → UInt64} {set : UInt64 → σ → σ} : Formatted (Slot.word64 get set)
  | topology {get : σ → TopologyVersion} {set : TopologyVersion → σ → σ} :
      Formatted (Slot.topology get set)
  | code {α : Type} {field : String} {write : α → UInt8} {read : UInt8 → Option α} {get : σ → α}
      {set : α → σ → σ} : Formatted (Slot.code field write read get set)
  | composite (f : Format) {field : String} {get : σ → f.Value} {set : f.Value → σ → σ} :
      Formatted (Slot.composite field f.codec get set)

/-- There is no composite value in a message that has no format. -/
theorem formatted_of_mem_layout (k : MessageKind) : ∀ s ∈ layout k, s.Formatted := by
  cases k <;> simp only [layout, updateRequestLayout, backupRequestLayout, updateResponseLayout,
    mappingNoticeLayout, backupNoticeLayout, checkRequestLayout, List.forall_mem_cons,
    List.not_mem_nil, false_implies, implies_true, and_true]
  case updateRequest =>
    exact ⟨.word32, .word32, .word64, .composite .writeVersion, .topology, .code, .code, .word8,
      .composite .updatePayload, .word64, .word32⟩
  case backupRequest =>
    exact ⟨.word32, .word32, .word64, .word64, .word64, .composite .writeVersion, .topology, .code,
      .word8, .composite (.list .backupEntry), .composite (.list .nearEntry),
      .composite (.list .bytes), .composite (.option (.list .nodeId)), .word64, .word32⟩
  case updateResponse =>
    exact ⟨.word32, .word32, .word64, .word64, .composite (.option .updateReturn),
      .composite (.list (.pair .bytes .failureCause)), .composite (.option .failureCause),
      .composite (.list .bytes), .topology, .composite (.option (.list .nodeId)),
      .composite (.option .writeVersion), .composite (.list .nearEntry)⟩
  case mappingNotice =>
    exact ⟨.word32, .word32, .word64, .composite (.list .nodeId)⟩
  case backupNotice =>
    exact ⟨.word32, .word32, .word64, .word64, .composite (.list .nodeId),
      .composite (.option .nodeId), .word8⟩
  case checkRequest =>
    exact ⟨.word32, .word32, .word64⟩

namespace Format

open Codec

/-! ## Any bytes at all -/

/-- Whatever value of a format can be read from bytes, it takes a front of them that is not empty: the
same is read from that front before any other bytes, and no part of it can be read.  A list of such
values sets out to read one at most once more than there are bytes, whatever count is announced, and
once for each element if it can be read.  Nothing can be read from a spelling of a value that is cut
off, least of all from what is written as the value. -/
theorem delimited (f : Format) (bs : Bytes) :
    (∀ a rest, f.codec.decode bs = .ok (a, rest) →
      ∃ p, bs = p ++ rest ∧ f.codec.Spans p a) ∧
    (f.codec.tallyList bs).1 = f.codec.list.decode bs ∧
    (∀ as rest, f.codec.list.decode bs = .ok (as, rest) → (f.codec.tallyList bs).2 = as.length) ∧
    (f.codec.tallyList bs).2 ≤ bs.length + 1 ∧
    (∀ a p L, Written f.codec a p L → f.codec.Spans p a) ∧
    ∀ a, (f.codec.encode a).length < countable → f.codec.Spans (f.codec.encode a) a := by
  have hf := f.regular
  refine ⟨?_, tallyList_fst _ bs, ?_, hf.tallyList_snd_le bs, ?_, ?_⟩
  · intro a rest h
    exact hf.spans_of_decode h
  · intro as rest h
    exact tallyList_snd_of_ok h
  · intro a p L h
    exact hf.spans h
  · intro a ha
    exact hf.spans (hf.written ha)

/-- A return in front of one more byte.  It takes liberties: `true` is a 7, and both outcomes are
under key 9. -/
def repeatedKey : Bytes :=
  [7, 2, 0, 0, 0, 2, 0, 0, 0, 1, 9, 0, 0, 0, 0, 0, 1, 9, 0, 0] ++ [5]

/-- The return as it is read, with one outcome. -/
def singleKey : UpdateReturn := (UpdateReturn.flag true).addOutcome [9] (.value none)

/-- The return ends before the last byte.  With a count of four billion in front of it, it is the
first that is read, and the attempt at the second is the last. -/
theorem delimited_repeatedKey :
    Codec.updateReturn.decode repeatedKey = .ok (singleKey, [5]) ∧
    (∃ p, repeatedKey = p ++ [5] ∧ Codec.updateReturn.Spans p singleKey) ∧
    (Codec.updateReturn.tallyList ([255, 255, 255, 255] ++ repeatedKey)).2 = 2 ∧
    (Codec.updateReturn.tallyList ([255, 255, 255, 255] ++ repeatedKey)).2 ≤
      ([255, 255, 255, 255] ++ repeatedKey).length + 1 := by
  have h : Codec.updateReturn.decode repeatedKey = .ok (singleKey, [5]) := rfl
  obtain ⟨hspans, -⟩ := delimited .updateReturn repeatedKey
  obtain ⟨-, -, -, hattempts, -⟩ := delimited .updateReturn ([255, 255, 255, 255] ++ repeatedKey)
  exact ⟨h, hspans _ _ h, by decide +kernel, hattempts⟩

end Format

end AtomicGrid.Wire
