import AtomicGrid.Proofs.SortedMap
import AtomicGrid.Wire.Reader
import AtomicGrid.Wire.Values

/-!
# Composite values read back

`Codec.RoundTrips c` says that a value reads back from the front of any byte string that starts with
its encoding.  Lengths and counts travel in four bytes, so this can only hold of values whose
encoding has fewer than `2 ^ 32` bytes; a longer one announces the wrong length.  Nothing else is
asked of a value: every byte string, text and list in it is part of its encoding, and so is short
enough if the whole is.

`Codec.Occupies c` says that every value takes at least one byte, which bounds the count of a list
by the length of its encoding.

## Results

* `pair_roundTrips`, `list_roundTrips`, `choice_roundTrips`, …: each combinator keeps the property.
* `updateReturn_roundTrips`, `updatePayload_roundTrips`, …: every composite value of the messages has
  it.
* `decodeField_encode`: a composite field reads back.
-/

set_option autoImplicit false

namespace AtomicGrid.Wire

/-- The number of bytes that four bytes can count. -/
def countable : Nat := UInt32.size

namespace Codec

variable {α β : Type} {c : Codec α} {d : Codec β}

/-- Every value of countable size reads back, and what follows it is left. -/
def RoundTrips (c : Codec α) : Prop :=
  ∀ (a : α) (rest : Bytes), (c.encode a).length < countable →
    c.decode (c.encode a ++ rest) = .ok (a, rest)

/-- Every value takes at least one byte. -/
def Occupies (c : Codec α) : Prop := ∀ a : α, 0 < (c.encode a).length

/-! ## Combinators -/

theorem split_append {n : Nat} {front : Bytes} (h : front.length = n) (rest : Bytes) :
    split n (front ++ rest) = .ok (front, rest) := by
  subst h
  simp [split]

theorem unit_roundTrips : unit.RoundTrips := fun _ _ _ => rfl

theorem fixed_decode_append {n : Nat} {write : α → Bytes} {read : Bytes → α} {a : α}
    (hn : (write a).length = n) (hr : read (write a) = a) (rest : Bytes) :
    (fixed n write read).decode (write a ++ rest) = .ok (a, rest) := by
  simp only [fixed, split_append hn, hr]

theorem word8_decode_append (b : UInt8) (rest : Bytes) :
    word8.decode ([b] ++ rest) = .ok (b, rest) :=
  fixed_decode_append rfl rfl rest

theorem word32_decode_append (n : UInt32) (rest : Bytes) :
    word32.decode (Bytes.ofUInt32 n ++ rest) = .ok (n, rest) := by
  have hl : (Bytes.ofUInt32 n).length = 4 := Bytes.length_ofNat 4 _
  exact fixed_decode_append hl (Bytes.toUInt32_ofUInt32 n) rest

theorem word64_decode_append (n : UInt64) (rest : Bytes) :
    word64.decode (Bytes.ofUInt64 n ++ rest) = .ok (n, rest) := by
  have hl : (Bytes.ofUInt64 n).length = 8 := Bytes.length_ofNat 8 _
  exact fixed_decode_append hl (Bytes.toUInt64_ofUInt64 n) rest

theorem word8_roundTrips : word8.RoundTrips := fun b rest _ => word8_decode_append b rest
theorem word32_roundTrips : word32.RoundTrips := fun n rest _ => word32_decode_append n rest
theorem word64_roundTrips : word64.RoundTrips := fun n rest _ => word64_decode_append n rest

theorem imap_roundTrips {f : α → β} {g : β → α} (hc : c.RoundTrips) (h : ∀ b, f (g b) = b) :
    (c.imap f g).RoundTrips := by
  intro b rest hb
  have := hc (g b) rest hb
  simp only [imap, this, h]

theorem bool_roundTrips : bool.RoundTrips :=
  imap_roundTrips word8_roundTrips fun b => by cases b <;> rfl

theorem int64_roundTrips : int64.RoundTrips := imap_roundTrips word64_roundTrips fun n => by simp

theorem length_bytes_encode (bs : Bytes) : (bytes.encode bs).length = 4 + bs.length := by
  simp [bytes, word32, fixed, Bytes.ofUInt32]

theorem bytes_roundTrips : bytes.RoundTrips := by
  intro bs rest h
  rw [length_bytes_encode] at h
  have hn : (UInt32.ofNat bs.length).toNat = bs.length :=
    UInt32.toNat_ofNat_of_lt' (Nat.lt_of_le_of_lt (Nat.le_add_left _ 4) h)
  have hw : word32.decode (word32.encode (UInt32.ofNat bs.length) ++ (bs ++ rest)) =
      .ok (UInt32.ofNat bs.length, bs ++ rest) := word32_decode_append _ _
  simp only [bytes, List.append_assoc, hw, hn, split_append rfl]

theorem text_roundTrips : text.RoundTrips := by
  intro s rest h
  have hb : bytes.decode (bytes.encode (Utf8.encode s) ++ rest) = .ok (Utf8.encode s, rest) :=
    bytes_roundTrips _ rest h
  simp only [text, hb, Utf8.decode_encode]

theorem pair_roundTrips (hc : c.RoundTrips) (hd : d.RoundTrips) : (c.pair d).RoundTrips := by
  intro p rest h
  have h : (c.encode p.1 ++ d.encode p.2).length < countable := h
  rw [List.length_append] at h
  have h₁ := hc p.1 (d.encode p.2 ++ rest) (by omega)
  have h₂ := hd p.2 rest (by omega)
  simp only [pair, List.append_assoc, h₁, h₂]

theorem decodeMany_encode (hc : c.RoundTrips) (rest : Bytes) :
    ∀ as : List α, (as.flatMap c.encode).length < countable →
      decodeMany c as.length (as.flatMap c.encode ++ rest) = .ok (as, rest)
  | [], _ => rfl
  | a :: as, h => by
    rw [List.flatMap_cons, List.length_append] at h
    have h₁ := hc a (as.flatMap c.encode ++ rest) (by omega)
    have h₂ := decodeMany_encode hc rest as (by omega)
    simp only [List.length_cons, List.flatMap_cons, List.append_assoc, decodeMany, h₁, h₂]

theorem length_le_length_flatMap (ho : c.Occupies) (as : List α) :
    as.length ≤ (as.flatMap c.encode).length := by
  induction as with
  | nil => simp
  | cons a as ih =>
    have := ho a
    simp only [List.length_cons, List.flatMap_cons, List.length_append]
    omega

theorem list_roundTrips (hc : c.RoundTrips) (ho : c.Occupies) : c.list.RoundTrips := by
  intro as rest h
  have h : (word32.encode (UInt32.ofNat as.length) ++ as.flatMap c.encode).length < countable := h
  rw [List.length_append] at h
  have hle := length_le_length_flatMap ho as
  have hn : (UInt32.ofNat as.length).toNat = as.length :=
    UInt32.toNat_ofNat_of_lt' (show as.length < countable by omega)
  have hw : word32.decode (word32.encode (UInt32.ofNat as.length) ++
      (as.flatMap c.encode ++ rest)) = .ok (UInt32.ofNat as.length, as.flatMap c.encode ++ rest) :=
    word32_decode_append _ _
  simp only [list, List.append_assoc, hw, hn, decodeMany_encode hc rest as (by omega)]

theorem fixed_occupies {n : Nat} {write : α → Bytes} {read : Bytes → α} (hn : 0 < n)
    (hw : ∀ a, (write a).length = n) : (fixed n write read).Occupies :=
  fun a => (hw a).symm ▸ hn

theorem bytes_occupies : bytes.Occupies := fun bs => by rw [length_bytes_encode]; omega

theorem imap_occupies {f : α → β} {g : β → α} (hc : c.Occupies) : (c.imap f g).Occupies :=
  fun b => hc (g b)

/-- A record takes at least one byte if its first part does. -/
theorem pair_occupies (hc : c.Occupies) : (c.pair d).Occupies := fun p => by
  have : 0 < (c.encode p.1).length := hc p.1
  show 0 < (c.encode p.1 ++ d.encode p.2).length
  rw [List.length_append]
  omega

/-- A case gives back what it takes out, and what follows its tag reads back. -/
structure CaseLaw (k : Case α) : Prop where
  inject_project : ∀ {a b}, k.project a = some b → k.inject b = a
  roundTrips : k.codec.RoundTrips

/-- What the cases of a choice have to satisfy for it to read back. -/
structure Exhaustive (cases : List (Case α)) : Prop where
  /-- No two cases share a tag. -/
  tags : (cases.map (·.tag)).Nodup
  /-- Every value belongs to a case. -/
  total : ∀ a, ∃ k ∈ cases, (k.project a).isSome
  law : ∀ k ∈ cases, CaseLaw k

/-- A value is written by one of the cases that have it. -/
theorem encodeCase_eq (cases : List (Case α)) (a : α) (h : ∃ k ∈ cases, (k.project a).isSome) :
    ∃ k ∈ cases, ∃ b, k.project a = some b ∧ encodeCase cases a = k.tag :: k.codec.encode b := by
  induction cases with
  | nil => simp at h
  | cons k ks ih =>
    cases hk : k.project a with
    | some b => exact ⟨k, List.mem_cons_self, b, hk, by simp [encodeCase, hk]⟩
    | none =>
      obtain ⟨k', hm, b, hb, he⟩ := ih (by simpa [hk] using h)
      exact ⟨k', List.mem_cons_of_mem _ hm, b, hb, by simpa [encodeCase, hk] using he⟩

theorem find?_tag {cases : List (Case α)} (h : (cases.map (·.tag)).Nodup) {k : Case α}
    (hk : k ∈ cases) : cases.find? (·.tag = k.tag) = some k := by
  induction cases with
  | nil => simp at hk
  | cons k' ks ih =>
    obtain ⟨hn, hr⟩ := List.nodup_cons.1 h
    rcases List.mem_cons.1 hk with rfl | hk
    · simp
    · have hne : k'.tag ≠ k.tag := fun e => hn (List.mem_map.2 ⟨k, hk, e.symm⟩)
      simpa [hne] using ih hr hk

theorem choice_roundTrips {unknown : UInt8 → Fault} {cases : List (Case α)}
    (h : Exhaustive cases) : (choice unknown cases).RoundTrips := by
  intro a rest ha
  obtain ⟨k, hk, b, hb, he⟩ := encodeCase_eq cases a (h.total a)
  have he' : (choice unknown cases).encode a = [k.tag] ++ k.codec.encode b := he
  rw [he', List.length_append] at ha
  have hd := (h.law k hk).roundTrips b rest (by omega)
  have hw := word8_decode_append k.tag (k.codec.encode b ++ rest)
  rw [he']
  simp only [choice, List.append_assoc, hw, find?_tag h.tags hk, hd, (h.law k hk).inject_project hb]

theorem choice_occupies {unknown : UInt8 → Fault} {cases : List (Case α)}
    (h : ∀ a, ∃ k ∈ cases, (k.project a).isSome) : (choice unknown cases).Occupies := fun a => by
  obtain ⟨k, _, b, _, he⟩ := encodeCase_eq cases a (h a)
  have he' : (choice unknown cases).encode a = k.tag :: k.codec.encode b := he
  simp [he']

theorem option_roundTrips (hc : c.RoundTrips) : c.option.RoundTrips := by
  refine choice_roundTrips ⟨by simp, fun a => by cases a <;> simp, ?_⟩
  simp only [List.forall_mem_cons, List.not_mem_nil, false_implies, implies_true, and_true]
  exact ⟨⟨fun {a _} h => by cases a <;> simp_all, unit_roundTrips⟩, ⟨fun h => h.symm, hc⟩⟩

theorem sortedMap_roundTrips {κ υ : Type} [Ord κ] [Std.TransOrd κ] [Std.LawfulEqOrd κ]
    {k : Codec κ} {v : Codec υ} (hk : k.RoundTrips) (hv : v.RoundTrips) (ho : k.Occupies) :
    (sortedMap k v).RoundTrips :=
  imap_roundTrips (list_roundTrips (pair_roundTrips hk hv) (pair_occupies ho))
    SortedMap.ofList_entries

/-! ## The values of messages -/

theorem nodeId_roundTrips : nodeId.RoundTrips := imap_roundTrips word64_roundTrips fun _ => rfl

theorem topologyVersion_roundTrips : topologyVersion.RoundTrips :=
  imap_roundTrips (pair_roundTrips word64_roundTrips word32_roundTrips) fun _ => rfl

theorem writeVersion_roundTrips : writeVersion.RoundTrips :=
  imap_roundTrips
    (pair_roundTrips word32_roundTrips (pair_roundTrips word64_roundTrips word32_roundTrips))
    fun _ => rfl

theorem processorRef_roundTrips : processorRef.RoundTrips :=
  imap_roundTrips text_roundTrips fun _ => rfl

theorem entryFilter_roundTrips : entryFilter.RoundTrips := by
  refine choice_roundTrips ⟨by decide, fun a => by cases a <;> simp, ?_⟩
  simp only [List.forall_mem_cons, List.not_mem_nil, false_implies, implies_true, and_true]
  refine ⟨⟨?_, unit_roundTrips⟩, ⟨?_, unit_roundTrips⟩, ⟨?_, bytes_roundTrips⟩⟩ <;>
    intro a b h <;> cases a <;> simp_all

theorem entryFilter_occupies : entryFilter.Occupies :=
  choice_occupies fun a => by cases a <;> simp

theorem expiryPolicy_roundTrips : expiryPolicy.RoundTrips := by
  have h : (option word64).RoundTrips := option_roundTrips word64_roundTrips
  exact imap_roundTrips (pair_roundTrips h (pair_roundTrips h h)) fun _ => rfl

theorem failureCause_roundTrips : failureCause.RoundTrips := by
  refine choice_roundTrips ⟨by decide, fun a => by cases a <;> simp, ?_⟩
  simp only [List.forall_mem_cons, List.not_mem_nil, false_implies, implies_true, and_true]
  refine ⟨⟨?_, nodeId_roundTrips⟩, ⟨?_, text_roundTrips⟩, ⟨?_, unit_roundTrips⟩,
    ⟨?_, text_roundTrips⟩⟩ <;> intro a b h <;> cases a <;> simp_all

theorem invokeOutcome_roundTrips : invokeOutcome.RoundTrips := by
  refine choice_roundTrips ⟨by decide, fun a => by cases a <;> simp, ?_⟩
  simp only [List.forall_mem_cons, List.not_mem_nil, false_implies, implies_true, and_true]
  refine ⟨⟨?_, option_roundTrips bytes_roundTrips⟩, ⟨?_, text_roundTrips⟩⟩ <;>
    intro a b h <;> cases a <;> simp_all

theorem returnValue_roundTrips : returnValue.RoundTrips := by
  have hp : (option bytes).RoundTrips := option_roundTrips bytes_roundTrips
  have ht : (sortedMap bytes invokeOutcome).RoundTrips :=
    sortedMap_roundTrips bytes_roundTrips invokeOutcome_roundTrips bytes_occupies
  refine choice_roundTrips ⟨by decide, fun a => ?_, ?_⟩
  · rcases a with _ | ⟨_ | _⟩ <;> simp
  · simp only [List.forall_mem_cons, List.not_mem_nil, false_implies, implies_true, and_true]
    refine ⟨⟨?_, unit_roundTrips⟩, ⟨?_, hp⟩, ⟨?_, ht⟩⟩ <;> intro a b h <;>
      rcases a with _ | ⟨_ | _⟩ <;> simp_all

theorem updateReturn_roundTrips : updateReturn.RoundTrips :=
  imap_roundTrips (pair_roundTrips bool_roundTrips returnValue_roundTrips) fun _ => rfl

theorem updateEntry_roundTrips : updateEntry.RoundTrips :=
  imap_roundTrips
    (pair_roundTrips bytes_roundTrips
      (pair_roundTrips (option_roundTrips bytes_roundTrips)
        (pair_roundTrips (option_roundTrips processorRef_roundTrips)
          (pair_roundTrips int64_roundTrips int64_roundTrips))))
    fun _ => rfl

theorem updateEntry_occupies : updateEntry.Occupies := imap_occupies (pair_occupies bytes_occupies)

theorem updatePayload_roundTrips : updatePayload.RoundTrips := by
  have hv : (option bytes).RoundTrips := option_roundTrips bytes_roundTrips
  have hf : (list entryFilter).RoundTrips :=
    list_roundTrips entryFilter_roundTrips entryFilter_occupies
  have ha : (list bytes).RoundTrips := list_roundTrips bytes_roundTrips bytes_occupies
  have he : (list updateEntry).RoundTrips :=
    list_roundTrips updateEntry_roundTrips updateEntry_occupies
  have hx : (option expiryPolicy).RoundTrips := option_roundTrips expiryPolicy_roundTrips
  refine choice_roundTrips ⟨by decide, fun a => by cases a <;> simp, ?_⟩
  simp only [List.forall_mem_cons, List.not_mem_nil, false_implies, implies_true, and_true]
  refine ⟨⟨?_, pair_roundTrips bytes_roundTrips hv⟩,
    ⟨?_, pair_roundTrips bytes_roundTrips (pair_roundTrips hv hf)⟩,
    ⟨?_, pair_roundTrips bytes_roundTrips (pair_roundTrips processorRef_roundTrips ha)⟩,
    ⟨?_, pair_roundTrips he (pair_roundTrips hf (pair_roundTrips ha hx))⟩⟩ <;>
    intro a b h <;> cases a <;> cases h <;> rfl

theorem backupEntry_roundTrips : backupEntry.RoundTrips := by
  have hv : (option bytes).RoundTrips := option_roundTrips bytes_roundTrips
  have hw : (option writeVersion).RoundTrips := option_roundTrips writeVersion_roundTrips
  exact imap_roundTrips
    (pair_roundTrips bytes_roundTrips
      (pair_roundTrips hv
        (pair_roundTrips int64_roundTrips
          (pair_roundTrips int64_roundTrips
            (pair_roundTrips hw
              (pair_roundTrips bool_roundTrips (pair_roundTrips hv word64_roundTrips)))))))
    fun _ => rfl

theorem backupEntry_occupies : backupEntry.Occupies := imap_occupies (pair_occupies bytes_occupies)

theorem nearEntry_roundTrips : nearEntry.RoundTrips :=
  imap_roundTrips
    (pair_roundTrips bytes_roundTrips
      (pair_roundTrips (option_roundTrips bytes_roundTrips)
        (pair_roundTrips int64_roundTrips int64_roundTrips)))
    fun _ => rfl

theorem nearEntry_occupies : nearEntry.Occupies := imap_occupies (pair_occupies bytes_occupies)

theorem failedKeys_roundTrips : failedKeys.RoundTrips :=
  list_roundTrips (pair_roundTrips bytes_roundTrips failureCause_roundTrips)
    (pair_occupies bytes_occupies)

theorem nodeIds_roundTrips : (list nodeId).RoundTrips :=
  list_roundTrips nodeId_roundTrips
    (imap_occupies (fixed_occupies (by decide) fun _ => Bytes.length_ofNat 8 _))

end Codec

theorem decodeField_encode {α : Type} {c : Codec α} (hc : c.RoundTrips) (field : String) {a : α}
    (h : (c.encode a).length < countable) :
    decodeField c field (some (c.encode a)) = .ok a := by
  have hd : c.decode (c.encode a) = .ok (a, []) := by simpa using hc a [] h
  simp only [decodeField, Codec.decodeAll, hd]

end AtomicGrid.Wire
