import AtomicGrid.Proofs.Wire.Spelling
import AtomicGrid.Proofs.Wire.Stream

/-!
# How messages can be spelled

The bytes of a message are its header and its fields.  The header, words and codes can be spelled in
one way, and so can the length of a composite value; what liberties there are is in the bytes of
flags and within composite values.

## Results

* `Reader.eq_append_of_read`: the bytes of a field are those it is written as.
* `SpelledFields.length_le`, `SpelledFields.encode_eq`: the encoding of fields is their shortest
  spelling, and the only one without liberties.
* `spelled_of_filled`: the bytes that fill the fields of a message spell it.
* `Decoder.next_eq_some_iff`: what is accepted as a message are its spellings.
* `Decoder.canonical_of_next`: the encoding of a message that was read is a shortest spelling of it,
  and the only one without liberties.
-/

set_option autoImplicit false

namespace AtomicGrid

/-! ## Flags -/

/-- The bits of all flags. -/
def RequestFlags.declared : UInt8 := bits ⟨true, true, true, true, true⟩

def BackupFlags.declared : UInt8 := bits ⟨true, true, true, true, true⟩

def NoticeFlags.declared : UInt8 := bits ⟨true, true⟩

/-- Of a byte, the flags keep the bits in `declared`, and have nothing from the others. -/
structure Declares {F : Type} (bits : F → UInt8) (ofBits : UInt8 → F) (declared : UInt8) : Prop where
  bits_ofBits (b : UInt8) : bits (ofBits b) = b &&& declared
  ofBits_and (b : UInt8) : ofBits (b &&& declared) = ofBits b

/-- Flags that read back have nothing from the bits that they do not keep. -/
theorem Declares.of_bytes {F : Type} {bits : F → UInt8} {ofBits : UInt8 → F} {declared : UInt8}
    (hread : ∀ f, ofBits (bits f) = f)
    (hkeep : ∀ n : Fin 256, bits (ofBits (.ofFin n)) = .ofFin n &&& declared) :
    Declares bits ofBits declared := by
  have hbits (b : UInt8) : bits (ofBits b) = b &&& declared := hkeep b.toFin
  refine ⟨hbits, fun b => ?_⟩
  rw [← hbits, hread]

theorem RequestFlags.declares : Declares bits ofBits declared :=
  .of_bytes ofBits_bits (by decide +kernel)

theorem BackupFlags.declares : Declares bits ofBits declared :=
  .of_bytes ofBits_bits (by decide +kernel)

theorem NoticeFlags.declares : Declares bits ofBits declared :=
  .of_bytes ofBits_bits (by decide +kernel)

/-- The bits that are declared in the flags of messages of the kind. -/
def MessageKind.declaredFlags : MessageKind → UInt8
  | .updateRequest => RequestFlags.declared
  | .backupRequest => BackupFlags.declared
  | .backupNotice => NoticeFlags.declared
  | .updateResponse | .mappingNotice | .checkRequest => 0

namespace Wire

/-- Dropping the bits that are not declared changes nothing where there are none. -/
theorem and_declared_eq_iff (b declared : UInt8) : b &&& declared = b ↔ b &&& ~~~declared = 0 := by
  constructor
  · intro h
    rw [← h, UInt8.and_assoc, UInt8.and_not_self, UInt8.and_zero]
  · intro h
    have hsplit : b &&& (declared ||| ~~~declared) = b &&& declared ||| b &&& ~~~declared :=
      UInt8.toBitVec_inj.1 BitVec.and_or_distrib_left
    rw [h, UInt8.or_zero, UInt8.or_not_self, UInt8.and_neg_one] at hsplit
    exact hsplit.symm

/-! ## The bytes of a field -/

namespace Reader

variable {α : Type} {k n : Nat} {e : Option Nat} {r : Reader} {input rest : Bytes}

/-- A part that is complete is the front of the bytes. -/
theorem eq_append_of_collect {part : Bytes}
    (h : collect ⟨k, [], e⟩ n input = (r, rest, some part)) :
    input = part ++ rest ∧ part.length = n ∧ r = ⟨k, [], e⟩ := by
  simp only [collect, List.nil_append, List.length_nil, Nat.sub_zero] at h
  split at h
  next hn =>
    cases h
    exact ⟨(List.take_append_drop n input).symm, hn, rfl⟩
  next => cases h

theorem eq_append_of_word {read : Bytes → α} {v : α}
    (h : word { field := k } n read input = (r, rest, some v)) :
    ∃ part, input = part ++ rest ∧ part.length = n ∧ read part = v ∧ r = { field := k } := by
  cases hc : collect { field := k } n input with
  | mk r' c =>
    obtain ⟨rest', _ | part⟩ := c
    · simp only [word, hc] at h
      cases h
    · simp only [word, hc] at h
      cases h
      obtain ⟨hin, hn, hr⟩ := eq_append_of_collect hc
      exact ⟨part, hin, hn, rfl, hr⟩

theorem eq_append_of_content {v : Option Bytes}
    (h : content { field := k, expected := some n } n input = (r, rest, some v)) :
    ∃ bs, v = some bs ∧ input = bs ++ rest ∧ bs.length = n ∧ r = { field := k } := by
  cases hc : collect { field := k, expected := some n } n input with
  | mk r' c =>
    obtain ⟨rest', _ | part⟩ := c
    · simp only [content, hc] at h
      cases h
    · simp only [content, hc] at h
      cases h
      obtain ⟨hin, hn, rfl⟩ := eq_append_of_collect hc
      exact ⟨part, rfl, hin, hn, rfl⟩

/-- The bytes of a field are those it is written as. -/
theorem eq_append_of_read :
    ∀ (s : Shape) (v : s.Value), read { field := k } s input = (r, rest, some v) →
      input = s.encode v ++ rest ∧ s.Fits v ∧ r = { field := k }
  | .word8, v, h => by
    obtain ⟨part, hin, hn, rfl, hr⟩ := eq_append_of_word h
    obtain ⟨b, rfl⟩ := List.length_eq_one_iff.1 hn
    exact ⟨hin, trivial, hr⟩
  | .word32, v, h => by
    obtain ⟨part, hin, hn, rfl, hr⟩ := eq_append_of_word h
    refine ⟨?_, trivial, hr⟩
    rw [Shape.encode, Bytes.ofUInt32_toUInt32 hn, hin]
  | .word64, v, h => by
    obtain ⟨part, hin, hn, rfl, hr⟩ := eq_append_of_word h
    refine ⟨?_, trivial, hr⟩
    rw [Shape.encode, Bytes.ofUInt64_toUInt64 hn, hin]
  | .topology, v, h => by
    obtain ⟨part, hin, hn, rfl, hr⟩ := eq_append_of_word h
    refine ⟨?_, trivial, hr⟩
    have hmajor : (part.take 8).length = 8 := by
      rw [List.length_take]
      omega
    have hminor : (part.drop 8).length = 4 := by
      rw [List.length_drop]
      omega
    rw [Shape.encode, Bytes.ofUInt64_toUInt64 hmajor, Bytes.ofUInt32_toUInt32 hminor,
      List.take_append_drop, hin]
  | .bytes, v, h => by
    have h : bytes { field := k } input = (r, rest, some v) := h
    cases hw : word { field := k } 4 Bytes.toUInt32 input with
    | mk r' c =>
      obtain ⟨rest', _ | len⟩ := c
      · simp only [bytes, hw] at h
        cases h
      · obtain ⟨part, hin, hn, rfl, rfl⟩ := eq_append_of_word hw
        by_cases ha : Bytes.toUInt32 part = Shape.absentLength
        · simp only [bytes, hw, ha, if_true] at h
          cases h
          refine ⟨?_, trivial, rfl⟩
          rw [Shape.encode, ← ha, Bytes.ofUInt32_toUInt32 hn, hin]
        · simp only [bytes, hw, ha, if_false] at h
          obtain ⟨bs, rfl, hrest, hlen, hr⟩ := eq_append_of_content h
          have hcount : UInt32.ofNat bs.length = Bytes.toUInt32 part := by
            rw [hlen, UInt32.ofNat_toNat]
          refine ⟨?_, ?_, hr⟩
          · rw [Shape.encode, hcount, Bytes.ofUInt32_toUInt32 hn, hin, hrest, List.append_assoc]
          · show bs.length < Shape.absentLength.toNat
            have hle : (Bytes.toUInt32 part).toNat < UInt32.size := UInt32.toNat_lt _
            have hne : (Bytes.toUInt32 part).toNat ≠ Shape.absentLength.toNat :=
              fun he => ha (UInt32.toNat_inj.1 he)
            have hmax : Shape.absentLength.toNat + 1 = UInt32.size := rfl
            omega

theorem eq_append_of_header {code count : UInt8}
    (h : header { field := k } input = (r, rest, some (code, count))) :
    input = code :: count :: rest ∧ r = { field := k } := by
  obtain ⟨part, hin, hn, hread, hr⟩ := eq_append_of_word h
  obtain ⟨a, b, rfl⟩ := List.length_eq_two.1 hn
  cases hread
  exact ⟨hin, hr⟩

end Reader

/-! ## Filling in fields -/

variable {σ α : Type}

/-- The bytes of a composite field spell its value, to the last of them. -/
theorem written_of_decodeField {c : Codec α} (hc : c.Reads) {field : String} {p : Bytes} {a : α}
    (h : decodeField c field (some p) = .ok a) : ∃ L, Written c a p L := by
  have hd : c.decode p = .ok (a, []) := by
    simp only [decodeField, Codec.decodeAll] at h
    cases hd : c.decode p with
    | error f => simp only [hd] at h; cases h
    | ok r =>
      obtain ⟨a', _ | ⟨b, rest⟩⟩ := r
      · simp only [hd] at h
        cases h
        rfl
      · simp only [hd] at h
        cases h
  obtain ⟨q, L, hp, hw⟩ := hc p a [] hd
  rw [List.append_nil] at hp
  exact ⟨L, hp ▸ hw⟩

/-- The bytes hold fields that, put into a message one after the other, give another. -/
inductive Filled : List (Slot σ) → (start last : σ) → Bytes → Prop
  | nil (m : σ) : Filled [] m m []
  | cons {s : Slot σ} {ss : List (Slot σ)} {v : s.shape.Value} {start next last : σ} {bs : Bytes}
      (hv : s.shape.Fits v) (hs : s.set v start = .ok next) (h : Filled ss next last bs) :
      Filled (s :: ss) start last (s.shape.encode v ++ bs)

/-- Fields that are filled in are read to the end. -/
theorem readFields_of_filled {ss : List (Slot σ)} {start last : σ} {bs : Bytes}
    (h : Filled ss start last bs) :
    ∀ (k : Nat) (rest : Bytes), readFields ss { field := k } start (bs ++ rest) = .done last rest := by
  induction h with
  | nil m => exact fun _ _ => rfl
  | @cons s ss v start next last bs hv hs h ih =>
    intro k rest
    have hr := Reader.read_encode k s.shape v (bs ++ rest) hv
    simp only [List.append_assoc, readFields, hr, hs]
    exact ih (k + 1) rest

/-- Fields that are read to the end are filled in. -/
theorem filled_of_readFields {last : σ} {rest : Bytes} :
    ∀ (ss : List (Slot σ)) (k : Nat) (start : σ) (input : Bytes),
      readFields ss { field := k } start input = .done last rest →
      ∃ bs, input = bs ++ rest ∧ Filled ss start last bs
  | [], k, start, input, h => by
    cases h
    exact ⟨[], rfl, .nil _⟩
  | s :: ss, k, start, input, h => by
    unfold readFields at h
    split at h
    next => cases h
    next r rest' v hr =>
      obtain ⟨hin, hv, rfl⟩ := Reader.eq_append_of_read s.shape v hr
      split at h
      next next hs =>
        obtain ⟨bs, hrest, hf⟩ := filled_of_readFields ss (k + 1) next rest' h
        exact ⟨s.shape.encode v ++ bs, by rw [hin, hrest, List.append_assoc], .cons hv hs hf⟩
      next => cases h

namespace Filled

variable {motive : Bytes → Prop} {s : Slot σ} {ss : List (Slot σ)} {start last : σ} {bs : Bytes}

theorem of_nil (h : Filled [] start last bs) : last = start ∧ bs = [] := by
  cases h
  exact ⟨rfl, rfl⟩

@[elab_as_elim]
theorem word {put : s.shape.Value → σ → σ} (h : Filled (s :: ss) start last bs)
    (hput : ∀ v m, s.set v m = .ok (put v m))
    (hword : ∀ v tail, Filled ss (put v start) last tail → motive (s.shape.encode v ++ tail)) :
    motive bs := by
  cases h with
  | @cons _ _ v _ next _ tail hv hs h =>
    rw [hput] at hs
    cases hs
    exact hword v tail h

@[elab_as_elim]
theorem code {field : String} {write : α → UInt8} {read : UInt8 → Option α} {get : σ → α}
    {set : α → σ → σ} (h : Filled (Slot.code field write read get set :: ss) start last bs)
    (hread : ∀ {b a}, read b = some a → b = write a)
    (hcode : ∀ a tail, Filled ss (set a start) last tail → motive (write a :: tail)) :
    motive bs := by
  cases h with
  | @cons _ _ b _ next _ tail hv hs h =>
    simp only [Slot.code] at hs
    split at hs
    next a ha =>
      cases hs
      obtain rfl := hread ha
      exact hcode a tail h
    next => cases hs

@[elab_as_elim]
theorem composite {field : String} {c : Codec α} {get : σ → α} {set : α → σ → σ}
    (h : Filled (Slot.composite field c get set :: ss) start last bs) (hc : c.Reads)
    (hcomposite : ∀ a p tail, p.length < Shape.absentLength.toNat → (∃ L, Written c a p L) →
      Filled ss (set a start) last tail → motive (Shape.encode .bytes (some p) ++ tail)) :
    motive bs := by
  cases h with
  | @cons _ _ v _ next _ tail hv hs h =>
    obtain _ | p := v
    · cases hs
    · simp only [Slot.composite] at hs
      split at hs
      next a ha =>
        cases hs
        exact hcomposite a p tail hv (written_of_decodeField hc ha) h
      next => cases hs

end Filled

/-! ## Spelling fields -/

/-- The bytes spell the fields of the message, with these liberties.  Of the flags, the bits in
`declared` stand for one. -/
inductive SpelledFields (declared : UInt8) (m : σ) : List (Slot σ) → Bytes → List Liberty → Prop
  | nil : SpelledFields declared m [] [] []
  | exact {s : Slot σ} {ss : List (Slot σ)} {bs : Bytes} {L : List Liberty} (hs : s.Fits m)
      (h : SpelledFields declared m ss bs L) :
      SpelledFields declared m (s :: ss) (s.shape.encode (s.get m) ++ bs) L
  | flags {get : σ → UInt8} {set : UInt8 → σ → σ} {ss : List (Slot σ)} {bs : Bytes}
      {L : List Liberty} (b : UInt8) (hb : b &&& ~~~declared ≠ 0) (hget : get m = b &&& declared)
      (hset : ∀ m, set (b &&& declared) m = set b m) (h : SpelledFields declared m ss bs L) :
      SpelledFields declared m (Slot.word8 get set :: ss) (b :: bs) (.flags b declared hb :: L)
  | composite {α : Type} {field : String} {c : Codec α} {get : σ → α} {set : α → σ → σ}
      {ss : List (Slot σ)} {p bs : Bytes} {L M : List Liberty}
      (hp : p.length < Shape.absentLength.toNat) (hw : Written c (get m) p L)
      (h : SpelledFields declared m ss bs M) :
      SpelledFields declared m (Slot.composite field c get set :: ss)
        (Shape.encode .bytes (some p) ++ bs) (L ++ M)

/-- The bytes of fields, one after the other. -/
def encodeFields (m : σ) (ss : List (Slot σ)) : Bytes :=
  (ss.map fun s => s.shape.encode (s.get m)).flatten

theorem encodeFields_cons (m : σ) (s : Slot σ) (ss : List (Slot σ)) :
    encodeFields m (s :: ss) = s.shape.encode (s.get m) ++ encodeFields m ss := rfl

theorem encodeFields_composite (m : σ) (field : String) (c : Codec α) (get : σ → α)
    (set : α → σ → σ) (ss : List (Slot σ)) :
    encodeFields m (Slot.composite field c get set :: ss) =
      Shape.encode .bytes (some (c.encode (get m))) ++ encodeFields m ss := rfl

theorem length_encode_bytes (p : Bytes) : (Shape.encode .bytes (some p)).length = 4 + p.length := by
  have h : (Bytes.ofUInt32 (UInt32.ofNat p.length)).length = 4 := Bytes.length_ofNat 4 _
  rw [Shape.encode, List.length_append, h]

/-- A composite field takes any spelling of a value. -/
theorem set_composite {field : String} {c : Codec α} {get : σ → α} {set : α → σ → σ} {a : α}
    {p : Bytes} {L : List Liberty} (h : Written c a p L) (m : σ) :
    (Slot.composite field c get set).set (some p) m = .ok (set a m) := by
  have hd := h.decode []
  rw [List.append_nil] at hd
  simp only [Slot.composite, decodeField, Codec.decodeAll, hd]

theorem encode_bytes_inj {p q : Bytes} :
    Shape.encode .bytes (some p) = Shape.encode .bytes (some q) ↔ p = q := by
  refine ⟨fun h => ?_, fun h => h ▸ rfl⟩
  refine (List.append_inj h ?_).2
  exact (Bytes.length_ofNat 4 _).trans (Bytes.length_ofNat 4 _).symm

theorem length_composite_le {c : Codec α} {a : α} {p : Bytes} {L : List Liberty}
    (h : Written c a p L) :
    (Shape.encode .bytes (some (c.encode a))).length ≤ (Shape.encode .bytes (some p)).length := by
  rw [length_encode_bytes, length_encode_bytes]
  exact Nat.add_le_add_left h.length_le 4

namespace SpelledFields

variable {declared : UInt8} {m : σ} {s : Slot σ} {ss : List (Slot σ)} {bs : Bytes}
  {L : List Liberty}

/-- The length of every composite field can be written. -/
theorem fits (h : SpelledFields declared m ss bs L) : ∀ s ∈ ss, s.Fits m := by
  induction h with
  | nil => exact fun s hs => nomatch hs
  | exact hs h ih => exact List.forall_mem_cons.2 ⟨hs, ih⟩
  | flags b hb hget hset h ih => exact List.forall_mem_cons.2 ⟨trivial, ih⟩
  | composite hp hw h ih =>
    exact List.forall_mem_cons.2 ⟨Nat.lt_of_le_of_lt hw.length_le hp, ih⟩

/-- No spelling is shorter than the encoding. -/
theorem length_le (h : SpelledFields declared m ss bs L) :
    (encodeFields m ss).length ≤ bs.length := by
  induction h with
  | nil => exact Nat.le_refl _
  | exact hs h ih =>
    rw [encodeFields_cons, List.length_append, List.length_append]
    exact Nat.add_le_add_left ih _
  | flags b hb hget hset h ih => exact Nat.succ_le_succ ih
  | composite hp hw h ih =>
    rw [encodeFields_composite, List.length_append, List.length_append]
    exact Nat.add_le_add (length_composite_le hw) ih

/-- The encoding is the spelling that takes no liberties. -/
theorem encode_eq (h : SpelledFields declared m ss bs L) : encodeFields m ss = bs ↔ L = [] := by
  induction h with
  | nil => exact iff_of_true rfl rfl
  | exact hs h ih => rw [encodeFields_cons, List.append_cancel_left_eq, ih]
  | @flags get set ss bs L b hb hget hset h ih =>
    refine iff_of_false (fun he => hb ?_) (List.cons_ne_nil _ _)
    have he : get m :: encodeFields m ss = b :: bs := he
    rw [← and_declared_eq_iff, ← hget, (List.cons.inj he).1]
  | composite hp hw h ih =>
    have hp := Nat.lt_trans hp (show Shape.absentLength.toNat < countable by decide)
    rw [encodeFields_composite, Bytes.append_eq_iff (length_composite_le hw) h.length_le,
      encode_bytes_inj, hw.encode_eq hp, ih, List.append_eq_nil_iff]

/-- A spelling fills in what the fields of the message themselves do. -/
theorem filled (h : SpelledFields declared m ss bs L) :
    ∀ start last, readBack ss m start = .ok last → Filled ss start last bs := by
  induction h with
  | nil =>
    intro start last hlast
    cases hlast
    exact .nil start
  | @exact s ss bs L hs h ih =>
    intro start last hlast
    unfold readBack at hlast
    split at hlast
    next next hnext => exact .cons hs hnext (ih next last hlast)
    next => cases hlast
  | @flags get set ss bs L b hb hget hset h ih =>
    intro start last hlast
    simp only [readBack, Slot.word8, hget, hset] at hlast
    exact .cons (s := Slot.word8 get set) trivial rfl (ih _ last hlast)
  | @composite α field c get set ss p bs L M hp hw h ih =>
    intro start last hlast
    have hcanonical := hw.canonical (Nat.lt_trans hp (by decide))
    have hnext : (Slot.composite field c get set).set ((Slot.composite field c get set).get m) start =
      .ok (set (get m) start) := set_composite hcanonical start
    simp only [readBack, hnext] at hlast
    exact .cons (s := Slot.composite field c get set) hp (set_composite hw start) (ih _ last hlast)

theorem exists_exact (hs : s.Fits m) (h : ∃ L, SpelledFields declared m ss bs L) :
    ∃ L, SpelledFields declared m (s :: ss) (s.shape.encode (s.get m) ++ bs) L :=
  h.imp fun _ h => .exact hs h

/-- Flags spell themselves, and take a liberty if there are bits that are not declared. -/
theorem exists_flags {get : σ → UInt8} {set : UInt8 → σ → σ} {b : UInt8}
    (hget : get m = b &&& declared) (hset : ∀ m, set (b &&& declared) m = set b m)
    (h : ∃ L, SpelledFields declared m ss bs L) :
    ∃ L, SpelledFields declared m (Slot.word8 get set :: ss) (b :: bs) L := by
  obtain ⟨L, h⟩ := h
  by_cases hb : b &&& ~~~declared = 0
  · have hexact : get m = b := hget.trans ((and_declared_eq_iff b declared).2 hb)
    exact ⟨L, hexact ▸ .exact trivial h⟩
  · exact ⟨_, .flags b hb hget hset h⟩

theorem exists_composite {field : String} {c : Codec α} {get : σ → α} {set : α → σ → σ} {p : Bytes}
    (hp : p.length < Shape.absentLength.toNat) (hw : ∃ L, Written c (get m) p L)
    (h : ∃ L, SpelledFields declared m ss bs L) :
    ∃ L, SpelledFields declared m (Slot.composite field c get set :: ss)
      (Shape.encode .bytes (some p) ++ bs) L := by
  obtain ⟨L, hw⟩ := hw
  obtain ⟨M, h⟩ := h
  exact ⟨L ++ M, .composite hp hw h⟩

end SpelledFields

end Wire

open Wire Codec

/-! ## Messages -/

open SpelledFields (exists_exact exists_flags exists_composite)

theorem updateRequest_spelled {m : UpdateRequest} {bs : Bytes}
    (h : Filled updateRequestLayout default m bs) :
    ∃ L, SpelledFields RequestFlags.declared m updateRequestLayout bs L := by
  refine h.word (fun _ _ => rfl) fun cacheId _ h => ?_
  refine h.word (fun _ _ => rfl) fun partition _ h => ?_
  refine h.word (fun _ _ => rfl) fun future _ h => ?_
  refine h.composite writeVersion_reads fun writeVersion p _ hp hw h => ?_
  refine h.word (fun _ _ => rfl) fun topologyVersion _ h => ?_
  refine h.code SyncMode.code_of_ofCode? fun syncMode _ h => ?_
  refine h.code Operation.code_of_ofCode? fun operation _ h => ?_
  refine h.word (fun _ _ => rfl) fun flags _ h => ?_
  refine h.composite updatePayload_reads fun payload q _ hq hv h => ?_
  refine h.word (fun _ _ => rfl) fun subjectId _ h => ?_
  refine h.word (fun _ _ => rfl) fun taskNameHash _ h => ?_
  obtain ⟨rfl, rfl⟩ := h.of_nil
  refine exists_exact trivial (exists_exact trivial (exists_exact trivial ?_))
  refine exists_composite hp hw (exists_exact trivial ?_)
  refine exists_exact trivial (exists_exact trivial ?_)
  refine exists_flags (RequestFlags.declares.bits_ofBits flags) (fun m => ?_)
    (exists_composite hq hv ?_)
  · exact congrArg (fun f => { m with flags := f }) (RequestFlags.declares.ofBits_and flags)
  exact exists_exact trivial (exists_exact trivial ⟨[], .nil⟩)

theorem backupRequest_spelled {m : BackupRequest} {bs : Bytes}
    (h : Filled backupRequestLayout default m bs) :
    ∃ L, SpelledFields BackupFlags.declared m backupRequestLayout bs L := by
  refine h.word (fun _ _ => rfl) fun cacheId _ h => ?_
  refine h.word (fun _ _ => rfl) fun partition _ h => ?_
  refine h.word (fun _ _ => rfl) fun future _ h => ?_
  refine h.word (fun _ _ => rfl) fun nearFuture _ h => ?_
  refine h.word (fun _ _ => rfl) fun nearNode _ h => ?_
  refine h.composite writeVersion_reads fun writeVersion p _ hp hw h => ?_
  refine h.word (fun _ _ => rfl) fun topologyVersion _ h => ?_
  refine h.code SyncMode.code_of_ofCode? fun syncMode _ h => ?_
  refine h.word (fun _ _ => rfl) fun flags _ h => ?_
  refine h.composite (list_reads backupEntry_reads) fun entries es _ hes he h => ?_
  refine h.composite (list_reads nearEntry_reads) fun nearEntries ns _ hns hn h => ?_
  refine h.composite (list_reads bytes_reads) fun args as _ has ha h => ?_
  refine h.composite (option_reads nodeIds_reads) fun mapping ms _ hms hm h => ?_
  refine h.word (fun _ _ => rfl) fun subjectId _ h => ?_
  refine h.word (fun _ _ => rfl) fun taskNameHash _ h => ?_
  obtain ⟨rfl, rfl⟩ := h.of_nil
  refine exists_exact trivial (exists_exact trivial (exists_exact trivial ?_))
  refine exists_exact trivial (exists_exact trivial (exists_composite hp hw ?_))
  refine exists_exact trivial (exists_exact trivial ?_)
  refine exists_flags (BackupFlags.declares.bits_ofBits flags) (fun m => ?_)
    (exists_composite hes he ?_)
  · exact congrArg (fun f => { m with flags := f }) (BackupFlags.declares.ofBits_and flags)
  refine exists_composite hns hn (exists_composite has ha (exists_composite hms hm ?_))
  exact exists_exact trivial (exists_exact trivial ⟨[], .nil⟩)

theorem updateResponse_spelled {m : UpdateResponse} {bs : Bytes}
    (h : Filled updateResponseLayout default m bs) :
    ∃ L, SpelledFields 0 m updateResponseLayout bs L := by
  refine h.word (fun _ _ => rfl) fun cacheId _ h => ?_
  refine h.word (fun _ _ => rfl) fun partition _ h => ?_
  refine h.word (fun _ _ => rfl) fun future _ h => ?_
  refine h.word (fun _ _ => rfl) fun node _ h => ?_
  refine h.composite (option_reads updateReturn_reads) fun ret rs _ hrs hr h => ?_
  refine h.composite failedKeys_reads fun failedKeys fs _ hfs hf h => ?_
  refine h.composite (option_reads failureCause_reads) fun error es _ hes he h => ?_
  refine h.composite (list_reads bytes_reads) fun remapKeys ks _ hks hk h => ?_
  refine h.word (fun _ _ => rfl) fun remapTopologyVersion _ h => ?_
  refine h.composite (option_reads nodeIds_reads) fun mapping ms _ hms hm h => ?_
  refine h.composite (option_reads writeVersion_reads) fun nearVersion vs _ hvs hv h => ?_
  refine h.composite (list_reads nearEntry_reads) fun nearValues ns _ hns hn h => ?_
  obtain ⟨rfl, rfl⟩ := h.of_nil
  refine exists_exact trivial (exists_exact trivial (exists_exact trivial ?_))
  refine exists_exact trivial (exists_composite hrs hr (exists_composite hfs hf ?_))
  refine exists_composite hes he (exists_composite hks hk (exists_exact trivial ?_))
  exact exists_composite hms hm (exists_composite hvs hv (exists_composite hns hn ⟨[], .nil⟩))

theorem mappingNotice_spelled {m : MappingNotice} {bs : Bytes}
    (h : Filled mappingNoticeLayout default m bs) :
    ∃ L, SpelledFields 0 m mappingNoticeLayout bs L := by
  refine h.word (fun _ _ => rfl) fun cacheId _ h => ?_
  refine h.word (fun _ _ => rfl) fun partition _ h => ?_
  refine h.word (fun _ _ => rfl) fun future _ h => ?_
  refine h.composite nodeIds_reads fun mapping p _ hp hw h => ?_
  obtain ⟨rfl, rfl⟩ := h.of_nil
  refine exists_exact trivial (exists_exact trivial (exists_exact trivial ?_))
  exact exists_composite hp hw ⟨[], .nil⟩

theorem backupNotice_spelled {m : BackupNotice} {bs : Bytes}
    (h : Filled backupNoticeLayout default m bs) :
    ∃ L, SpelledFields NoticeFlags.declared m backupNoticeLayout bs L := by
  refine h.word (fun _ _ => rfl) fun cacheId _ h => ?_
  refine h.word (fun _ _ => rfl) fun partition _ h => ?_
  refine h.word (fun _ _ => rfl) fun future _ h => ?_
  refine h.word (fun _ _ => rfl) fun primary _ h => ?_
  refine h.composite nodeIds_reads fun mapping p _ hp hw h => ?_
  refine h.composite (option_reads nodeId_reads) fun failedNode q _ hq hn h => ?_
  refine h.word (fun _ _ => rfl) fun flags _ h => ?_
  obtain ⟨rfl, rfl⟩ := h.of_nil
  refine exists_exact trivial (exists_exact trivial (exists_exact trivial ?_))
  refine exists_exact trivial (exists_composite hp hw (exists_composite hq hn ?_))
  refine exists_flags (NoticeFlags.declares.bits_ofBits flags) (fun m => ?_) ⟨[], .nil⟩
  exact congrArg (fun f => { m with flags := f }) (NoticeFlags.declares.ofBits_and flags)

/-- What reads as a check leaves out its update. -/
theorem checkRequest_spelled {m : CheckRequest} {bs : Bytes}
    (h : Filled checkRequestLayout default m bs) :
    (∃ L, SpelledFields 0 m checkRequestLayout bs L) ∧ m.update = none := by
  refine h.word (fun _ _ => rfl) fun cacheId _ h => ?_
  refine h.word (fun _ _ => rfl) fun partition _ h => ?_
  refine h.word (fun _ _ => rfl) fun future _ h => ?_
  obtain ⟨rfl, rfl⟩ := h.of_nil
  refine ⟨?_, rfl⟩
  exact exists_exact trivial (exists_exact trivial (exists_exact trivial ⟨[], .nil⟩))

/-- The bytes spell the message, with these liberties. -/
def Message.Spelled (m : Message) (b : Bytes) (L : List Liberty) : Prop :=
  ∃ bs, b = m.kind.code :: fieldCount m.kind :: bs ∧
    SpelledFields m.kind.declaredFlags m.body (layout m.kind) bs L

/-- The bytes that fill in the fields of a message spell it, and it is as its receiver sees it. -/
theorem spelled_of_filled {k : MessageKind} {body : k.Body} {bs : Bytes}
    (h : Filled (layout k) k.blank body bs) :
    (∃ L, (Message.ofBody k body).Spelled (k.code :: fieldCount k :: bs) L) ∧
      (Message.ofBody k body).received = Message.ofBody k body := by
  cases k with
  | updateRequest => exact ⟨(updateRequest_spelled h).imp fun _ h => ⟨bs, rfl, h⟩, rfl⟩
  | backupRequest => exact ⟨(backupRequest_spelled h).imp fun _ h => ⟨bs, rfl, h⟩, rfl⟩
  | updateResponse => exact ⟨(updateResponse_spelled h).imp fun _ h => ⟨bs, rfl, h⟩, rfl⟩
  | mappingNotice => exact ⟨(mappingNotice_spelled h).imp fun _ h => ⟨bs, rfl, h⟩, rfl⟩
  | backupNotice => exact ⟨(backupNotice_spelled h).imp fun _ h => ⟨bs, rfl, h⟩, rfl⟩
  | checkRequest =>
    obtain ⟨hspelled, hupdate⟩ := checkRequest_spelled h
    refine ⟨hspelled.imp fun _ h => ⟨bs, rfl, h⟩, ?_⟩
    exact congrArg (fun u => Message.checkRequest { body with update := u }) hupdate.symm

namespace Message.Spelled

variable {m : Message} {b : Bytes} {L : List Liberty}

theorem fits (h : m.Spelled b L) : m.Fits := by
  obtain ⟨bs, -, hfields⟩ := h
  exact hfields.fits

theorem length_le (h : m.Spelled b L) : m.encode.length ≤ b.length := by
  obtain ⟨bs, rfl, hfields⟩ := h
  exact Nat.add_le_add_right hfields.length_le 2

theorem encode_eq (h : m.Spelled b L) : m.encode = b ↔ L = [] := by
  obtain ⟨bs, rfl, hfields⟩ := h
  rw [← hfields.encode_eq]
  exact ⟨fun he => (List.cons.inj (List.cons.inj he).2).2, fun he => he ▸ rfl⟩

end Message.Spelled

namespace Wire.Decoder

/-- The front of the bytes that reads as a message spells it, and it is as its receiver sees it. -/
theorem spelled_of_next {b rest : Bytes} {d : Decoder} {m : Message}
    (h : next {} b = (d, rest, .ok (some m))) :
    ∃ front, b = front ++ rest ∧ (∃ L, m.Spelled front L) ∧ m.received = m := by
  simp only [next] at h
  split at h
  next => cases h
  next r input code count hheader =>
    obtain ⟨rfl, rfl⟩ := Reader.eq_append_of_header hheader
    split at h
    next => cases h
    next kind hkind =>
      obtain rfl := MessageKind.code_of_ofCode? hkind
      split at h
      next hcount =>
        subst hcount
        simp only [resume, List.drop_zero] at h
        split at h
        next => cases h
        next body rest' hread =>
          cases h
          obtain ⟨bs, rfl, hfilled⟩ := filled_of_readFields _ _ _ _ hread
          exact ⟨kind.code :: fieldCount kind :: bs, rfl, spelled_of_filled hfilled⟩
        next => cases h
      next => cases h

/-- A spelling of a message reads as the message, and what follows it is left. -/
theorem next_spelled {b : Bytes} {m : Message} {L : List Liberty} (h : m.Spelled b L)
    (rest : Bytes) : next {} (b ++ rest) = ({}, rest, .ok (some m.received)) := by
  obtain ⟨body, hbody, hm⟩ := readBack_layout m h.fits
  obtain ⟨bs, rfl, hfields⟩ := h
  have hread : readFields (layout m.kind) {} m.kind.blank (bs ++ rest) = .done body rest :=
    readFields_of_filled (hfields.filled _ _ hbody) 0 rest
  have hheader : m.kind.code :: fieldCount m.kind :: bs ++ rest =
      [m.kind.code, fieldCount m.kind] ++ (bs ++ rest) := rfl
  rw [hheader]
  simp only [next, Reader.header_append, MessageKind.ofCode?_code, if_true, resume, List.drop_zero,
    hread, hm]

/-- What a fresh decoder accepts as exactly one message are the spellings of the message, provided
that it has nothing that only its sender knows. -/
theorem next_eq_some_iff {b : Bytes} {m : Message} :
    next {} b = ({}, [], .ok (some m)) ↔ (∃ L, m.Spelled b L) ∧ m.received = m := by
  constructor
  · intro h
    obtain ⟨front, hb, hspelled, hreceived⟩ := spelled_of_next h
    rw [List.append_nil] at hb
    exact ⟨hb ▸ hspelled, hreceived⟩
  · rintro ⟨⟨L, hspelled⟩, hreceived⟩
    have hnext := next_spelled hspelled []
    rwa [List.append_nil, hreceived] at hnext

/-- Where a fresh decoder accepts bytes as exactly one message, the encoding of the message is not
longer, and it reads as the same message, so it is what the message is written as again.  The bytes
spell the message, and they are the encoding unless they take liberties: a byte for `true` that is
not 1, flags with bits that are not declared, or outcomes of entry processors whose keys do not
ascend. -/
theorem canonical_of_next {b : Bytes} {m : Message} (h : next {} b = ({}, [], .ok (some m))) :
    m.encode.length ≤ b.length ∧ next {} m.encode = ({}, [], .ok (some m)) ∧
      (∃ L, m.Spelled b L) ∧ ∀ L, m.Spelled b L → (m.encode = b ↔ L = []) := by
  obtain ⟨⟨L, hspelled⟩, hreceived⟩ := next_eq_some_iff.1 h
  have hnext := next_encode m hspelled.fits []
  rw [List.append_nil, hreceived] at hnext
  exact ⟨hspelled.length_le, hnext, ⟨L, hspelled⟩, fun _ hL => hL.encode_eq⟩

/-- A response whose success byte is 7 and whose outcomes have the same key twice. -/
def repeatedOutcome : Bytes :=
  [3, 12] ++ [0, 0, 0, 1] ++ [0, 0, 0, 2] ++ [0, 0, 0, 0, 0, 0, 0, 3] ++ [0, 0, 0, 0, 0, 0, 0, 4] ++
    [0, 0, 0, 21, 1, 7, 2, 0, 0, 0, 2, 0, 0, 0, 1, 9, 0, 0, 0, 0, 0, 1, 9, 0, 0] ++
    [0, 0, 0, 4, 0, 0, 0, 0] ++ [0, 0, 0, 1, 0] ++ [0, 0, 0, 4, 0, 0, 0, 0] ++
    [0, 0, 0, 0, 0, 0, 0, 5, 0, 0, 0, 6] ++ [0, 0, 0, 1, 0] ++ [0, 0, 0, 1, 0] ++
    [0, 0, 0, 4, 0, 0, 0, 0]

/-- The response as it is read, with one outcome. -/
def singleOutcome : Message :=
  .updateResponse
    { (default : UpdateResponse) with
      toEnvelope := ⟨1, 2, 3⟩
      node := ⟨4⟩
      ret := some ((UpdateReturn.flag true).addOutcome [9] (.value none))
      remapTopologyVersion := ⟨5, 6⟩ }

/-- The response takes liberties, and its encoding is seven bytes shorter. -/
theorem canonical_of_next_repeatedOutcome :
    next {} repeatedOutcome = ({}, [], .ok (some singleOutcome)) ∧
    singleOutcome.encode.length + 7 = repeatedOutcome.length ∧
    next {} singleOutcome.encode = ({}, [], .ok (some singleOutcome)) ∧
    ∃ L, singleOutcome.Spelled repeatedOutcome L ∧ L ≠ [] := by
  have h : next {} repeatedOutcome = ({}, [], .ok (some singleOutcome)) := rfl
  obtain ⟨-, hread, ⟨L, hL⟩, hcanonical⟩ := canonical_of_next h
  have hlength : singleOutcome.encode.length + 7 = repeatedOutcome.length := rfl
  refine ⟨h, hlength, hread, L, hL, fun hnil => ?_⟩
  have heq := (hcanonical L hL).2 hnil
  exact absurd (congrArg List.length heq) (by decide)

end Wire.Decoder

end AtomicGrid
