import AtomicGrid.Proofs.Wire.Stream

/-!
# The sizes of messages

How many bytes the fields of a message take, for the messages of updates that store a value.  They
can be written if keys and values are short and not too many nodes are named.

## Results

* `Codec.length_nodeIds`: what a list of nodes takes.
* `Message.Slight.fits`: a message that carries little can be written.
-/

set_option autoImplicit false

namespace AtomicGrid

namespace Wire

/-- The number of nodes that a field can name. -/
def nameable : Nat := (Shape.absentLength.toNat - 6) / 8

namespace Slot

variable {σ α : Type}

@[simp] theorem fits_word8 (get : σ → UInt8) (set : UInt8 → σ → σ) (m : σ) :
    (word8 get set).Fits m := trivial

@[simp] theorem fits_word32 (get : σ → UInt32) (set : UInt32 → σ → σ) (m : σ) :
    (word32 get set).Fits m := trivial

@[simp] theorem fits_word64 (get : σ → UInt64) (set : UInt64 → σ → σ) (m : σ) :
    (word64 get set).Fits m := trivial

@[simp] theorem fits_topology (get : σ → TopologyVersion) (set : TopologyVersion → σ → σ) (m : σ) :
    (topology get set).Fits m := trivial

@[simp] theorem fits_code (field : String) (write : α → UInt8) (read : UInt8 → Option α)
    (get : σ → α) (set : α → σ → σ) (m : σ) : (code field write read get set).Fits m := trivial

@[simp] theorem fits_composite (field : String) (c : Codec α) (get : σ → α) (set : α → σ → σ)
    (m : σ) : (composite field c get set).Fits m ↔
      (c.encode (get m)).length < Shape.absentLength.toNat := Iff.rfl

end Slot

namespace Codec

variable {α β : Type}

@[simp] theorem length_bool (b : Bool) : (bool.encode b).length = 1 := rfl

@[simp] theorem length_word32 (w : UInt32) : (word32.encode w).length = 4 :=
  Bytes.length_ofNat 4 _

@[simp] theorem length_word64 (w : UInt64) : (word64.encode w).length = 8 :=
  Bytes.length_ofNat 8 _

@[simp] theorem length_int64 (i : Int64) : (int64.encode i).length = 8 :=
  length_word64 i.toUInt64

@[simp] theorem length_nodeId (n : NodeId) : (nodeId.encode n).length = 8 := length_word64 n.id

@[simp] theorem length_bytes (bs : Bytes) : (bytes.encode bs).length = 4 + bs.length := by
  rw [bytes, List.length_append, length_word32]

@[simp] theorem length_pair (c : Codec α) (d : Codec β) (p : α × β) :
    ((c.pair d).encode p).length = (c.encode p.1).length + (d.encode p.2).length := by
  rw [pair, List.length_append]

@[simp] theorem length_none (c : Codec α) : (c.option.encode none).length = 1 := rfl

@[simp] theorem length_some (c : Codec α) (a : α) :
    (c.option.encode (some a)).length = 1 + (c.encode a).length := by
  show (1 :: c.encode a).length = _
  rw [List.length_cons, Nat.add_comm]

@[simp] theorem length_nil (c : Codec α) : (c.list.encode []).length = 4 := rfl

@[simp] theorem length_singleton (c : Codec α) (a : α) :
    (c.list.encode [a]).length = 4 + (c.encode a).length := by
  simp [list]

theorem length_writeVersion (v : WriteVersion) : (writeVersion.encode v).length = 16 := by
  simp [writeVersion, imap]

theorem length_nodeIds (ns : List NodeId) :
    (nodeId.list.encode ns).length = 4 + 8 * ns.length := by
  have h (ns : List NodeId) : (ns.flatMap nodeId.encode).length = 8 * ns.length := by
    induction ns with
    | nil => rfl
    | cons n ns ih =>
      rw [List.flatMap_cons, List.length_append, ih, length_nodeId, List.length_cons]
      omega
  rw [list, List.length_append, length_word32, h]

theorem length_backupEntry {e : BackupEntry} (hc : e.conflictVersion = none)
    (hp : e.previous = none) : (backupEntry.encode e).length =
      31 + e.key.length + (bytes.option.encode e.value).length := by
  simp only [backupEntry, imap, length_pair, length_bytes, length_int64, length_word64, length_bool,
    hc, hp, length_none]
  omega

end Codec

end Wire

open Wire Codec

/-- A list of nodes that a message can name. -/
def Nameable (nodes : List NodeId) : Prop := nodes.length ≤ nameable

/-- The entry of a backup request says what is written and no more. -/
structure BackupEntry.Slight (size : Nat) (e : BackupEntry) : Prop where
  key : e.key.length ≤ size
  value : ∀ v ∈ e.value, v.length ≤ size
  conflictVersion : e.conflictVersion = none
  previous : e.previous = none

/-- The message carries one key at most, of `size` bytes at most like its value, and names no more
nodes than it can. -/
def Message.Slight (size : Nat) : Message → Prop
  | .updateRequest m => ∃ key value, m.payload = .single key (some value) ∧ key.length ≤ size ∧
      value.length ≤ size
  | .backupRequest m => m.entries.length ≤ 1 ∧ (∀ e ∈ m.entries, e.Slight size) ∧
      m.nearEntries = [] ∧ m.args = [] ∧ ∀ nodes ∈ m.mapping, Nameable nodes
  | .updateResponse m => (∀ r ∈ m.ret, r.value = none) ∧ m.failedKeys = [] ∧ m.error = none ∧
      m.remapKeys.length ≤ 1 ∧ (∀ key ∈ m.remapKeys, key.length ≤ size) ∧
      (∀ nodes ∈ m.mapping, Nameable nodes) ∧ m.nearValues = []
  | .mappingNotice m => Nameable m.mapping
  | .backupNotice m => Nameable m.mapping
  | .checkRequest _ => True

namespace Message

variable {size : Nat}

theorem length_mapping_lt {mapping : Option (List NodeId)}
    (h : ∀ nodes ∈ mapping, Nameable nodes) :
    (nodeId.list.option.encode mapping).length < Shape.absentLength.toNat := by
  cases mapping with
  | none => decide
  | some nodes =>
    have : nodes.length ≤ nameable := h nodes rfl
    rw [length_some, length_nodeIds]
    simp only [nameable, Shape.absentLength, UInt32.toNat_ofNat] at *
    omega

theorem length_nodes_lt {nodes : List NodeId} (h : Nameable nodes) :
    (nodeId.list.encode nodes).length < Shape.absentLength.toNat := by
  have : nodes.length ≤ nameable := h
  rw [length_nodeIds]
  simp only [nameable, Shape.absentLength, UInt32.toNat_ofNat] at *
  omega

theorem length_key_lt {keys : List Key} (hs : size + 8 < Shape.absentLength.toNat)
    (hl : keys.length ≤ 1) (h : ∀ key ∈ keys, key.length ≤ size) :
    (bytes.list.encode keys).length < Shape.absentLength.toNat := by
  match keys with
  | [] => decide
  | [key] =>
    have := h key (List.mem_singleton_self key)
    rw [length_singleton, length_bytes]
    omega
  | _ :: _ :: _ => simp at hl

theorem length_entry_lt {es : List BackupEntry} (hs : 2 * size + 40 < Shape.absentLength.toNat)
    (hl : es.length ≤ 1) (h : ∀ e ∈ es, e.Slight size) :
    (backupEntry.list.encode es).length < Shape.absentLength.toNat := by
  match es with
  | [] => decide
  | [e] =>
    have he := h e (List.mem_singleton_self e)
    have hkey := he.key
    have hvalue : (bytes.option.encode e.value).length ≤ 5 + size := by
      cases hv : e.value with
      | none =>
        rw [length_none]
        omega
      | some v =>
        have := he.value v (by simp [hv])
        rw [length_some, length_bytes]
        omega
    rw [length_singleton, length_backupEntry he.conflictVersion he.previous]
    omega
  | _ :: _ :: _ => simp at hl

theorem length_return_lt {ret : Option UpdateReturn} (h : ∀ r ∈ ret, r.value = none) :
    (updateReturn.option.encode ret).length < Shape.absentLength.toNat := by
  cases ret with
  | none => decide
  | some r =>
    obtain ⟨value, success⟩ := r
    obtain rfl : value = none := h _ rfl
    cases success <;> decide

/-- A message that carries little can be written. -/
theorem Slight.fits {m : Message} (h : m.Slight size) (hs : 2 * size + 64 < Shape.absentLength.toNat) :
    m.Fits := by
  have hversion (v : WriteVersion) : (writeVersion.encode v).length < Shape.absentLength.toNat := by
    rw [length_writeVersion]
    decide
  cases m with
  | updateRequest m =>
    obtain ⟨key, value, hp, hkey, hvalue⟩ := h
    have hpayload : (updatePayload.encode m.payload).length < Shape.absentLength.toNat := by
      rw [hp]
      show (0 :: (bytes.pair bytes.option).encode (key, some value)).length < _
      simp only [List.length_cons, length_pair, length_bytes, length_some]
      omega
    show ∀ s ∈ updateRequestLayout, s.Fits m
    simp [updateRequestLayout, hversion, hpayload]
  | backupRequest m =>
    obtain ⟨hl, hes, hnear, hargs, hmapping⟩ := h
    show ∀ s ∈ backupRequestLayout, s.Fits m
    have hempty : 4 < Shape.absentLength.toNat := by decide
    simp [backupRequestLayout, hversion, hnear, hargs, hempty,
      length_entry_lt (by omega) hl hes, length_mapping_lt hmapping]
  | updateResponse m =>
    obtain ⟨hret, hfailed, herror, hl, hkeys, hmapping, hnear⟩ := h
    have hnearVersion : (writeVersion.option.encode m.nearVersion).length <
        Shape.absentLength.toNat := by
      cases m.nearVersion with
      | none => decide
      | some v =>
        rw [length_some, length_writeVersion]
        decide
    have hnone : (failedKeys.encode []).length < Shape.absentLength.toNat ∧
        1 < Shape.absentLength.toNat ∧ 4 < Shape.absentLength.toNat := by decide
    show ∀ s ∈ updateResponseLayout, s.Fits m
    simp [updateResponseLayout, hfailed, herror, hnear, hnone,
      hnearVersion, length_return_lt hret, length_key_lt (by omega) hl hkeys,
      length_mapping_lt hmapping]
  | mappingNotice m =>
    show ∀ s ∈ mappingNoticeLayout, s.Fits m
    simp [mappingNoticeLayout, length_nodes_lt h]
  | backupNotice m =>
    have hfailed : (nodeId.option.encode m.failedNode).length < Shape.absentLength.toNat := by
      cases m.failedNode with
      | none => decide
      | some n =>
        rw [length_some, length_nodeId]
        decide
    show ∀ s ∈ backupNoticeLayout, s.Fits m
    simp [backupNoticeLayout, length_nodes_lt h, hfailed]
  | checkRequest m =>
    show ∀ s ∈ checkRequestLayout, s.Fits m
    simp [checkRequestLayout]

end Message

end AtomicGrid
