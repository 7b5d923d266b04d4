import AtomicGrid.Proofs.Wire.RoundTrip
import Mathlib.Algebra.Group.Nat.Defs
import Mathlib.Data.List.Flatten
import Mathlib.Data.List.Induction
import Mathlib.Data.List.Nodup
import Mathlib.Data.List.Perm.Subperm

/-!
# How values can be spelled

A value can be read from other bytes than those it is written as.  The format leaves three liberties:
a byte for `true` may be any but zero, a byte of flags may have bits that stand for no flag, and the
entries of a map may come in any order and replace each other.  `Written c a p L` says that the bytes
`p` spell the value `a`, and that `L` are the liberties they take, in order.

## Results

* `Written.decode`: a spelling reads as the value that it spells.
* `Written.length_le`: no spelling is shorter than the encoding.
* `Written.encode_eq`: the encoding is the spelling that takes no liberties.
* `updateReturn_reads`, `updatePayload_reads`, …: whatever reads as a composite value spells it.
* `Written.canonical`: the encoding of a value that is spelled somehow is a spelling, too.
-/

set_option autoImplicit false

namespace AtomicGrid

namespace Bytes

theorem toNat_lt (bs : Bytes) : toNat bs < 256 ^ bs.length := by
  induction bs using List.reverseRecOn with
  | nil => decide
  | append_singleton bs b ih =>
    have hb : b.toNat < 256 := b.toNat_lt
    rw [toNat_append_singleton, List.length_append, List.length_singleton, Nat.pow_succ]
    omega

/-- Bytes are the digits of the number they stand for. -/
theorem ofNat_toNat (bs : Bytes) : ofNat bs.length (toNat bs) = bs := by
  induction bs using List.reverseRecOn with
  | nil => rfl
  | append_singleton bs b ih =>
    have hb : b.toNat < 256 := b.toNat_lt
    have hdiv : (toNat bs * 256 + b.toNat) / 256 = toNat bs := by omega
    have hlast : UInt8.ofNat (toNat bs * 256 + b.toNat) = b := by
      refine UInt8.toNat_inj.1 ?_
      rw [UInt8.toNat_ofNat']
      omega
    rw [toNat_append_singleton, List.length_append, List.length_singleton, ofNat, hdiv, hlast, ih]

theorem ofUInt32_toUInt32 {bs : Bytes} (h : bs.length = 4) : ofUInt32 (toUInt32 bs) = bs := by
  have hlt : toNat bs < UInt32.size := by
    have := toNat_lt bs
    rwa [h] at this
  rw [ofUInt32, toUInt32, UInt32.toNat_ofNat_of_lt' hlt, ← h, ofNat_toNat]

theorem ofUInt64_toUInt64 {bs : Bytes} (h : bs.length = 8) : ofUInt64 (toUInt64 bs) = bs := by
  have hlt : toNat bs < UInt64.size := by
    have := toNat_lt bs
    rwa [h] at this
  rw [ofUInt64, toUInt64, UInt64.toNat_ofNat_of_lt' hlt, ← h, ofNat_toNat]

/-- Where two byte strings are not longer than two others, they come to the same one after the other
only if each is the same. -/
theorem append_eq_iff {a a' b b' : Bytes} (ha : a.length ≤ a'.length) (hb : b.length ≤ b'.length) :
    a ++ b = a' ++ b' ↔ a = a' ∧ b = b' := by
  constructor
  · intro h
    have hl := congrArg List.length h
    rw [List.length_append, List.length_append] at hl
    exact List.append_inj h (by omega)
  · rintro ⟨rfl, rfl⟩
    rfl

theorem length_flatMap_le {α : Type} {f g : α → Bytes} {xs : List α}
    (h : ∀ x ∈ xs, (f x).length ≤ (g x).length) :
    (xs.flatMap f).length ≤ (xs.flatMap g).length := by
  induction xs with
  | nil => exact Nat.le_refl 0
  | cons x xs ih =>
    obtain ⟨hx, hxs⟩ := List.forall_mem_cons.1 h
    rw [List.flatMap_cons, List.flatMap_cons, List.length_append, List.length_append]
    exact Nat.add_le_add hx (ih hxs)

theorem length_le_flatMap {α : Type} (f : α → Bytes) {xs : List α} {x : α} (h : x ∈ xs) :
    (f x).length ≤ (xs.flatMap f).length := by
  rw [List.flatMap_def]
  exact (List.sublist_flatten_of_mem (List.mem_map_of_mem h)).length_le

theorem flatMap_eq_iff {α : Type} {f g : α → Bytes} {xs : List α}
    (h : ∀ x ∈ xs, (f x).length ≤ (g x).length) :
    xs.flatMap f = xs.flatMap g ↔ ∀ x ∈ xs, f x = g x := by
  induction xs with
  | nil => simp
  | cons x xs ih =>
    obtain ⟨hx, hxs⟩ := List.forall_mem_cons.1 h
    rw [List.flatMap_cons, List.flatMap_cons, append_eq_iff hx (length_flatMap_le hxs), ih hxs,
      List.forall_mem_cons]

end Bytes

namespace SortedMap

variable {κ α : Type} [Ord κ]

/-- The keys of the entries ascend. -/
def Ascending (es : List (κ × α)) : Prop := es.Pairwise fun a b => compare a.1 b.1 = .lt

variable [Std.TransOrd κ]

theorem entries_ofList [Std.LawfulEqOrd κ] {es : List (κ × α)} (h : Ascending es) :
    (ofList es).entries = es := congrArg entries (ofList_entries ⟨es, h⟩)

/-- A map of entries has no others. -/
theorem mem_of_mem_ofList {es : List (κ × α)} {e : κ × α} (h : e ∈ (ofList es).entries) :
    e ∈ es := by
  have hmany (es : List (κ × α)) : ∀ m : SortedMap κ α, e ∈ (m.insertMany es).entries →
      e ∈ es ∨ e ∈ m.entries := by
    induction es with
    | nil => exact fun m he => .inr he
    | cons x xs ih =>
      intro m he
      rcases ih (m.insert x.1 x.2) he with hx | hm
      · exact .inl (List.mem_cons_of_mem _ hx)
      · rcases mem_insertEntry hm with rfl | hm
        · exact .inl List.mem_cons_self
        · exact .inr hm
  rcases hmany es ∅ h with hm | hm
  · exact hm
  · cases hm

theorem entries_subperm [Std.LawfulEqOrd κ] (es : List (κ × α)) : (ofList es).entries.Subperm es := by
  refine List.subperm_of_subset ?_ fun e he => mem_of_mem_ofList he
  exact List.Nodup.of_map Prod.fst (keys_nodup (ofList es))

end SortedMap

namespace Wire

/-- A liberty that bytes take. -/
inductive Liberty where
  /-- A byte that stands for `true` and is not 1. -/
  | boolean (b : UInt8) (h : 1 < b)
  /-- A byte of flags with bits that are not declared. -/
  | flags (bits declared : UInt8) (h : bits &&& ~~~declared ≠ 0)
  /-- Outcomes of entry processors whose keys do not ascend. -/
  | outcomes (es : List (Key × InvokeOutcome)) (h : ¬ SortedMap.Ascending es)

/-- Part of a list: a value, the bytes that spell it, and the liberties they take. -/
structure Piece (α : Type) where
  value : α
  bytes : Bytes
  liberties : List Liberty

open Codec

/-- The bytes spell the value, with these liberties. -/
inductive Written : {α : Type} → Codec α → α → Bytes → List Liberty → Prop
  | unit : Written unit () [] []
  | fixed {α : Type} {n : Nat} {write : α → Bytes} {read : Bytes → α} (a : α)
      (hn : (write a).length = n) (hr : read (write a) = a) :
      Written (fixed n write read) a (write a) []
  | bytes (bs : Bytes) (h : bs.length < countable) : Written bytes bs (bytes.encode bs) []
  | text (s : String) (h : (Utf8.encode s).length < countable) :
      Written text s (text.encode s) []
  | imap {α β : Type} {c : Codec α} {f : α → β} {g : β → α} {a : α} {p : Bytes} {L : List Liberty}
      (hg : g (f a) = a) (h : Written c a p L) : Written (c.imap f g) (f a) p L
  | pair {α β : Type} {c : Codec α} {d : Codec β} {a : α} {b : β} {p q : Bytes}
      {L M : List Liberty} (ha : Written c a p L) (hb : Written d b q M) :
      Written (c.pair d) (a, b) (p ++ q) (L ++ M)
  | list {α : Type} {c : Codec α} (xs : List (Piece α)) (hn : xs.length < countable)
      (h : ∀ x ∈ xs, Written c x.value x.bytes x.liberties) :
      Written c.list (xs.map (·.value))
        (word32.encode (UInt32.ofNat xs.length) ++ xs.flatMap (·.bytes)) (xs.flatMap (·.liberties))
  | choice {α : Type} {unknown : UInt8 → Fault} {cases : List (Case α)} {k : Case α} {b : k.Body}
      {p : Bytes} {L : List Liberty} (hk : cases.find? (·.tag = k.tag) = some k)
      (he : encodeCase cases (k.inject b) = k.tag :: k.codec.encode b)
      (h : Written k.codec b p L) : Written (choice unknown cases) (k.inject b) (k.tag :: p) L
  | boolean (b : UInt8) (h : 1 < b) : Written bool true [b] [.boolean b h]
  | outcomes {es : List (Key × InvokeOutcome)} {p : Bytes} {L : List Liberty}
      (h : Written (Codec.list (Codec.bytes.pair invokeOutcome)) es p L)
      (ha : ¬ SortedMap.Ascending es) :
      Written (Codec.bytes.sortedMap invokeOutcome) (SortedMap.ofList es) p (.outcomes es ha :: L)

variable {α β : Type} {c : Codec α} {d : Codec β} {a : α} {p : Bytes} {L : List Liberty}

/-! ## What spellings read as -/

theorem bytes_decode_append {bs : Bytes} (h : bs.length < countable) (rest : Bytes) :
    Codec.bytes.decode (Codec.bytes.encode bs ++ rest) = .ok (bs, rest) := by
  have hn : (UInt32.ofNat bs.length).toNat = bs.length := UInt32.toNat_ofNat_of_lt' h
  have hw : word32.decode (word32.encode (UInt32.ofNat bs.length) ++ (bs ++ rest)) =
      .ok (UInt32.ofNat bs.length, bs ++ rest) := word32_decode_append _ _
  simp only [Codec.bytes, List.append_assoc, hw, hn, split_append rfl]

theorem decodeMany_pieces (xs : List (Piece α)) (rest : Bytes)
    (h : ∀ x ∈ xs, ∀ rest, c.decode (x.bytes ++ rest) = .ok (x.value, rest)) :
    decodeMany c xs.length (xs.flatMap (·.bytes) ++ rest) = .ok (xs.map (·.value), rest) := by
  induction xs with
  | nil => rfl
  | cons x xs ih =>
    obtain ⟨hx, hxs⟩ := List.forall_mem_cons.1 h
    simp only [List.length_cons, List.flatMap_cons, List.append_assoc, decodeMany, hx, ih hxs,
      List.map_cons]

/-- A spelling reads as the value that it spells, and what follows it is left. -/
theorem Written.decode (h : Written c a p L) : ∀ rest, c.decode (p ++ rest) = .ok (a, rest) := by
  induction h with
  | unit => exact fun _ => rfl
  | fixed a hn hr => exact fixed_decode_append hn hr
  | bytes bs h => exact bytes_decode_append h
  | text s h =>
    intro rest
    have hb := bytes_decode_append h rest
    simp only [Codec.text, hb, Utf8.decode_encode]
  | imap hg h ih =>
    intro rest
    simp only [Codec.imap, ih]
  | pair ha hb iha ihb =>
    intro rest
    simp only [Codec.pair, List.append_assoc, iha, ihb]
  | list xs hn h ih =>
    intro rest
    have hl : (UInt32.ofNat xs.length).toNat = xs.length := UInt32.toNat_ofNat_of_lt' hn
    have hw : word32.decode (word32.encode (UInt32.ofNat xs.length) ++
        (xs.flatMap (·.bytes) ++ rest)) = .ok (UInt32.ofNat xs.length, xs.flatMap (·.bytes) ++ rest) :=
      word32_decode_append _ _
    simp only [Codec.list, List.append_assoc, hw, hl, decodeMany_pieces xs rest ih]
  | @choice _ _ _ k b p _ hk he h ih =>
    intro rest
    have hw : word8.decode (k.tag :: p ++ rest) = .ok (k.tag, p ++ rest) :=
      word8_decode_append k.tag (p ++ rest)
    simp only [Codec.choice, hw, hk, ih]
  | boolean b h =>
    intro rest
    have hw : word8.decode ([b] ++ rest) = .ok (b, rest) := word8_decode_append b rest
    have hb : b ≠ 0 := by
      rintro rfl
      exact absurd h (by decide)
    simp only [Codec.bool, Codec.imap, hw, hb, ne_eq, not_false_eq_true, decide_true]
  | outcomes h ha ih =>
    intro rest
    simp only [Codec.sortedMap, Codec.imap, ih]

/-! ## Spellings and encodings -/

theorem list_encode (c : Codec α) (as : List α) : c.list.encode as =
    word32.encode (UInt32.ofNat as.length) ++ as.flatMap c.encode := rfl

theorem imap_encode {f : α → β} {g : β → α} (hg : g (f a) = a) :
    (c.imap f g).encode (f a) = c.encode a := congrArg c.encode hg

/-- Fewer values take fewer bytes, in whatever order they come. -/
theorem length_list_encode_le {as bs : List α} (h : as.Subperm bs) :
    (c.list.encode as).length ≤ (c.list.encode bs).length := by
  obtain ⟨cs, hp, hs⟩ := h
  have hperm : (as.flatMap c.encode).length = (cs.flatMap c.encode).length :=
    (List.Perm.flatMap_right c.encode hp.symm).length_eq
  have hsub : (cs.flatMap c.encode).length ≤ (bs.flatMap c.encode).length :=
    (hs.flatMap c.encode).length_le
  have hcount (n : UInt32) : (word32.encode n).length = 4 := Bytes.length_ofNat 4 _
  rw [list_encode, list_encode, List.length_append, List.length_append, hcount, hcount]
  omega

/-- No spelling is shorter than the encoding. -/
theorem Written.length_le (h : Written c a p L) : (c.encode a).length ≤ p.length := by
  induction h with
  | unit => exact Nat.le_refl _
  | fixed a hn hr => exact Nat.le_refl _
  | bytes bs h => exact Nat.le_refl _
  | text s h => exact Nat.le_refl _
  | imap hg h ih => exact imap_encode hg ▸ ih
  | @pair _ _ c d a b p q _ _ ha hb iha ihb =>
    show (c.encode a ++ d.encode b).length ≤ (p ++ q).length
    rw [List.length_append, List.length_append]
    exact Nat.add_le_add iha ihb
  | list xs hn h ih =>
    rw [list_encode, List.length_map, List.flatMap_map, List.length_append, List.length_append]
    exact Nat.add_le_add_left (Bytes.length_flatMap_le ih) _
  | choice hk he h ih =>
    show (encodeCase _ _).length ≤ _
    rw [he]
    exact Nat.succ_le_succ ih
  | boolean b h => exact Nat.le_refl 1
  | @outcomes es p _ h ha ih =>
    exact Nat.le_trans (length_list_encode_le (SortedMap.entries_subperm es)) ih

/-- The encoding is the spelling that takes no liberties. -/
theorem Written.encode_eq (h : Written c a p L) (hp : p.length < countable) :
    c.encode a = p ↔ L = [] := by
  induction h with
  | unit => exact iff_of_true rfl rfl
  | fixed a hn hr => exact iff_of_true rfl rfl
  | bytes bs h => exact iff_of_true rfl rfl
  | text s h => exact iff_of_true rfl rfl
  | imap hg h ih => rw [imap_encode hg, ih hp]
  | @pair _ _ c d a b p q L M ha hb iha ihb =>
    rw [List.length_append] at hp
    show c.encode a ++ d.encode b = p ++ q ↔ _
    rw [Bytes.append_eq_iff ha.length_le hb.length_le, iha (by omega), ihb (by omega),
      List.append_eq_nil_iff]
  | list xs hn h ih =>
    rw [List.length_append] at hp
    have hpiece : ∀ x ∈ xs, x.bytes.length < countable := by
      intro x hx
      have := Bytes.length_le_flatMap (fun x : Piece _ => x.bytes) hx
      omega
    rw [list_encode, List.length_map, List.flatMap_map, List.append_cancel_left_eq,
      Bytes.flatMap_eq_iff fun x hx => (h x hx).length_le, List.flatMap_eq_nil_iff]
    exact forall₂_congr fun x hx => ih x hx (hpiece x hx)
  | @choice _ _ cases k b p L hk he h ih =>
    rw [List.length_cons] at hp
    show encodeCase cases _ = _ ↔ _
    rw [he, List.cons_inj_right, ih (by omega)]
  | boolean b h =>
    refine iff_of_false (fun he => ?_) (List.cons_ne_nil _ _)
    obtain rfl : 1 = b := (List.cons.inj he).1
    exact absurd h (by decide)
  | @outcomes es p L h ha ih =>
    refine iff_of_false (fun he => ha ?_) (List.cons_ne_nil _ _)
    -- what reads from the bytes of the encoding are the entries of the map, and these ascend
    have hd : (Codec.list (Codec.bytes.pair invokeOutcome)).decode (p ++ []) = .ok (es, []) :=
      h.decode []
    have hentries := list_roundTrips (pair_roundTrips bytes_roundTrips invokeOutcome_roundTrips)
      (pair_occupies bytes_occupies) (SortedMap.ofList es).entries []
    have hp' : (Codec.list (Codec.bytes.pair invokeOutcome)).encode
        (SortedMap.ofList es).entries = p := he
    rw [hp'] at hentries
    rw [hentries hp] at hd
    obtain ⟨heq, -⟩ := Prod.mk.inj (Except.ok.inj hd)
    exact heq ▸ (SortedMap.ofList es).sorted

/-! ## What reads is a spelling -/

namespace Codec

/-- Whatever reads as a value spells it. -/
def Reads (c : Codec α) : Prop :=
  ∀ bs a rest, c.decode bs = .ok (a, rest) → ∃ p L, bs = p ++ rest ∧ Written c a p L

theorem eq_append_of_split {n : Nat} {bs front rest : Bytes} (h : split n bs = .ok (front, rest)) :
    bs = front ++ rest ∧ front.length = n := by
  unfold split at h
  split at h
  · cases h
  · cases h
    exact ⟨(List.take_append_drop n bs).symm, List.length_take_of_le (by omega)⟩

theorem unit_reads : unit.Reads := by
  intro bs a rest h
  cases h
  exact ⟨[], [], rfl, .unit⟩

/-- The bytes of a word are those it is written as. -/
theorem eq_append_of_fixed {n : Nat} {write : α → Bytes} {read : Bytes → α}
    (hw : ∀ front : Bytes, front.length = n → write (read front) = front) {bs rest : Bytes}
    (h : (fixed n write read).decode bs = .ok (a, rest)) :
    bs = write a ++ rest ∧ (write a).length = n ∧ read (write a) = a := by
  simp only [fixed] at h
  split at h
  next front rest' hs =>
    cases h
    obtain ⟨hbs, hn⟩ := eq_append_of_split hs
    rw [hw front hn]
    exact ⟨hbs, hn, rfl⟩
  next => cases h

theorem fixed_reads {n : Nat} {write : α → Bytes} {read : Bytes → α}
    (hw : ∀ front : Bytes, front.length = n → write (read front) = front) :
    (fixed n write read).Reads := by
  intro bs a rest h
  obtain ⟨hbs, hn, hr⟩ := eq_append_of_fixed hw h
  exact ⟨write a, [], hbs, .fixed a hn hr⟩

theorem singleton_headD {front : Bytes} (hn : front.length = 1) : [front.headD 0] = front := by
  obtain ⟨b, rfl⟩ := List.length_eq_one_iff.1 hn
  rfl

theorem eq_cons_of_word8 {bs rest : Bytes} {b : UInt8} (h : word8.decode bs = .ok (b, rest)) :
    bs = b :: rest :=
  (eq_append_of_fixed (fun _ => singleton_headD) h).1

theorem eq_append_of_word32 {bs rest : Bytes} {n : UInt32} (h : word32.decode bs = .ok (n, rest)) :
    bs = word32.encode n ++ rest :=
  (eq_append_of_fixed (fun _ hn => Bytes.ofUInt32_toUInt32 hn) h).1

theorem word8_reads : word8.Reads := fixed_reads fun _ => singleton_headD
theorem word32_reads : word32.Reads := fixed_reads fun _ hn => Bytes.ofUInt32_toUInt32 hn
theorem word64_reads : word64.Reads := fixed_reads fun _ hn => Bytes.ofUInt64_toUInt64 hn

/-- A byte string is spelled in one way. -/
theorem eq_append_of_bytes {bs raw rest : Bytes} (h : bytes.decode bs = .ok (raw, rest)) :
    bs = bytes.encode raw ++ rest ∧ raw.length < countable := by
  simp only [bytes] at h
  split at h
  next n rest' hw =>
    obtain ⟨hrest, hn⟩ := eq_append_of_split h
    have hcount : UInt32.ofNat raw.length = n := by rw [hn, UInt32.ofNat_toNat]
    refine ⟨?_, hn ▸ n.toNat_lt⟩
    rw [eq_append_of_word32 hw, hrest, ← hcount]
    exact (List.append_assoc _ _ _).symm
  next => cases h

theorem bytes_reads : bytes.Reads := by
  intro bs raw rest h
  obtain ⟨hbs, hlt⟩ := eq_append_of_bytes h
  exact ⟨bytes.encode raw, [], hbs, .bytes raw hlt⟩

theorem text_reads : text.Reads := by
  intro bs s rest h
  simp only [text] at h
  split at h
  next raw rest' hb =>
    split at h
    next hs =>
      cases h
      obtain rfl := Utf8.eq_encode_of_decode hs
      obtain ⟨hbs, hlt⟩ := eq_append_of_bytes hb
      exact ⟨text.encode s, [], hbs, .text s hlt⟩
    next => cases h
  next => cases h

theorem imap_reads {f : α → β} {g : β → α} (hc : c.Reads) (h : ∀ a, g (f a) = a) :
    (c.imap f g).Reads := by
  intro bs b rest hd
  simp only [imap] at hd
  split at hd
  next a rest' ha =>
    cases hd
    obtain ⟨p, L, hbs, hw⟩ := hc _ _ _ ha
    exact ⟨p, L, hbs, .imap (h a) hw⟩
  next => cases hd

/-- A byte other than 0 and 1 takes a liberty. -/
theorem bool_reads : bool.Reads := by
  intro bs b rest hd
  simp only [bool, imap] at hd
  split at hd
  next n rest' hn =>
    cases hd
    refine ⟨[n], ?_⟩
    by_cases hlt : 1 < n
    · have hne : n ≠ 0 := by
        rintro rfl
        exact absurd hlt (by decide)
      rw [decide_eq_true hne]
      exact ⟨[.boolean n hlt], eq_cons_of_word8 hn, .boolean n hlt⟩
    · have hle : n.toNat ≤ 1 := UInt8.le_iff_toNat_le.1 (UInt8.not_lt.1 hlt)
      refine ⟨[], eq_cons_of_word8 hn, .imap ?_ (.fixed n rfl rfl)⟩
      rcases Nat.le_one_iff_eq_zero_or_eq_one.1 hle with hzero | hone
      · rw [show n = 0 from UInt8.toNat_inj.1 hzero]
        rfl
      · rw [show n = 1 from UInt8.toNat_inj.1 hone]
        rfl
  next => cases hd

theorem pair_reads (hc : c.Reads) (hd : d.Reads) : (c.pair d).Reads := by
  intro bs ab rest h
  simp only [pair] at h
  split at h
  next a rest' ha =>
    split at h
    next b rest'' hb =>
      cases h
      obtain ⟨p, L, hbs, hwa⟩ := hc _ _ _ ha
      obtain ⟨q, M, hrest, hwb⟩ := hd _ _ _ hb
      exact ⟨p ++ q, L ++ M, by rw [hbs, hrest, List.append_assoc], .pair hwa hwb⟩
    next => cases h
  next => cases h

/-- What reads as several values falls into pieces that spell them. -/
theorem pieces_of_decodeMany (hc : c.Reads) (rest : Bytes) : ∀ (n : Nat) (bs : Bytes) (as : List α),
    decodeMany c n bs = .ok (as, rest) → ∃ xs : List (Piece α), xs.length = n ∧
      xs.map (·.value) = as ∧ bs = xs.flatMap (·.bytes) ++ rest ∧
      ∀ x ∈ xs, Written c x.value x.bytes x.liberties
  | 0, bs, as, h => by
    cases h
    exact ⟨[], rfl, rfl, rfl, fun x hx => nomatch hx⟩
  | n + 1, bs, as, h => by
    unfold decodeMany at h
    split at h
    next a rest' ha =>
      split at h
      next as' rest'' has =>
        cases h
        obtain ⟨p, L, hbs, hw⟩ := hc _ _ _ ha
        obtain ⟨xs, hl, hv, hrest, hxs⟩ := pieces_of_decodeMany hc rest n rest' as' has
        refine ⟨⟨a, p, L⟩ :: xs, by rw [List.length_cons, hl], by rw [List.map_cons, hv], ?_,
          List.forall_mem_cons.2 ⟨hw, hxs⟩⟩
        rw [hbs, hrest, List.flatMap_cons, List.append_assoc]
      next => cases h
    next => cases h

theorem list_reads (hc : c.Reads) : c.list.Reads := by
  intro bs as rest h
  simp only [list] at h
  split at h
  next n rest' hw =>
    obtain ⟨xs, hl, rfl, hrest, hxs⟩ := pieces_of_decodeMany hc rest _ _ _ h
    have hcount : UInt32.ofNat xs.length = n := by rw [hl, UInt32.ofNat_toNat]
    refine ⟨_, _, ?_, .list xs (hl ▸ n.toNat_lt) hxs⟩
    rw [eq_append_of_word32 hw, hrest, hcount, List.append_assoc]
  next => cases h

/-- What follows the tag of a case spells its value, which is written under this tag. -/
structure CaseReads (cases : List (Case α)) (k : Case α) : Prop where
  reads : k.codec.Reads
  encode : ∀ b, encodeCase cases (k.inject b) = k.tag :: k.codec.encode b

theorem choice_reads {unknown : UInt8 → Fault} {cases : List (Case α)}
    (h : ∀ k ∈ cases, CaseReads cases k) : (choice unknown cases).Reads := by
  intro bs a rest hd
  simp only [choice] at hd
  split at hd
  next tag rest' hw =>
    split at hd
    next k hk =>
      split at hd
      next b rest'' hb =>
        cases hd
        obtain rfl : k.tag = tag := by simpa using List.find?_some hk
        obtain ⟨hreads, hencode⟩ := h k (List.mem_of_find?_eq_some hk)
        obtain ⟨p, L, hrest, hp⟩ := hreads _ _ _ hb
        refine ⟨k.tag :: p, L, ?_, .choice hk (hencode b) hp⟩
        rw [eq_cons_of_word8 hw, hrest, List.cons_append]
      next => cases hd
    next => cases hd
  next => cases hd

theorem option_reads (hc : c.Reads) : c.option.Reads := by
  refine choice_reads ?_
  simp only [List.forall_mem_cons, List.not_mem_nil, false_implies, implies_true, and_true]
  exact ⟨⟨unit_reads, fun _ => rfl⟩, ⟨hc, fun _ => rfl⟩⟩

/-! ## The values of messages -/

theorem nodeId_reads : nodeId.Reads := imap_reads word64_reads fun _ => rfl

theorem int64_reads : int64.Reads := imap_reads word64_reads fun n => by simp

theorem topologyVersion_reads : topologyVersion.Reads :=
  imap_reads (pair_reads word64_reads word32_reads) fun _ => rfl

theorem writeVersion_reads : writeVersion.Reads :=
  imap_reads (pair_reads word32_reads (pair_reads word64_reads word32_reads)) fun _ => rfl

theorem processorRef_reads : processorRef.Reads := imap_reads text_reads fun _ => rfl

theorem entryFilter_reads : entryFilter.Reads := by
  refine choice_reads ?_
  simp only [List.forall_mem_cons, List.not_mem_nil, false_implies, implies_true, and_true]
  exact ⟨⟨unit_reads, fun _ => rfl⟩, ⟨unit_reads, fun _ => rfl⟩, ⟨bytes_reads, fun _ => rfl⟩⟩

theorem expiryPolicy_reads : expiryPolicy.Reads := by
  have h : (option word64).Reads := option_reads word64_reads
  exact imap_reads (pair_reads h (pair_reads h h)) fun _ => rfl

theorem failureCause_reads : failureCause.Reads := by
  refine choice_reads ?_
  simp only [List.forall_mem_cons, List.not_mem_nil, false_implies, implies_true, and_true]
  exact ⟨⟨nodeId_reads, fun _ => rfl⟩, ⟨text_reads, fun _ => rfl⟩, ⟨unit_reads, fun _ => rfl⟩,
    ⟨text_reads, fun _ => rfl⟩⟩

theorem invokeOutcome_reads : invokeOutcome.Reads := by
  refine choice_reads ?_
  simp only [List.forall_mem_cons, List.not_mem_nil, false_implies, implies_true, and_true]
  exact ⟨⟨option_reads bytes_reads, fun _ => rfl⟩, ⟨text_reads, fun _ => rfl⟩⟩

/-- Entries that do not ascend take a liberty. -/
theorem outcomes_reads : (bytes.sortedMap invokeOutcome).Reads := by
  intro bs m rest hd
  simp only [sortedMap, imap] at hd
  split at hd
  next es rest' hes =>
    cases hd
    obtain ⟨p, L, hbs, hw⟩ := list_reads (pair_reads bytes_reads invokeOutcome_reads) _ _ _ hes
    by_cases ha : SortedMap.Ascending es
    · exact ⟨p, L, hbs, .imap (SortedMap.entries_ofList ha) hw⟩
    · exact ⟨p, .outcomes es ha :: L, hbs, .outcomes hw ha⟩
  next => cases hd

theorem returnValue_reads : returnValue.Reads := by
  refine choice_reads ?_
  simp only [List.forall_mem_cons, List.not_mem_nil, false_implies, implies_true, and_true]
  exact ⟨⟨unit_reads, fun _ => rfl⟩, ⟨option_reads bytes_reads, fun _ => rfl⟩,
    ⟨outcomes_reads, fun _ => rfl⟩⟩

theorem updateReturn_reads : updateReturn.Reads :=
  imap_reads (pair_reads bool_reads returnValue_reads) fun _ => rfl

theorem updateEntry_reads : updateEntry.Reads :=
  imap_reads
    (pair_reads bytes_reads
      (pair_reads (option_reads bytes_reads)
        (pair_reads (option_reads processorRef_reads) (pair_reads int64_reads int64_reads))))
    fun _ => rfl

theorem updatePayload_reads : updatePayload.Reads := by
  have hv : (option bytes).Reads := option_reads bytes_reads
  have hf : (list entryFilter).Reads := list_reads entryFilter_reads
  have ha : (list bytes).Reads := list_reads bytes_reads
  have he : (list updateEntry).Reads := list_reads updateEntry_reads
  have hx : (option expiryPolicy).Reads := option_reads expiryPolicy_reads
  refine choice_reads ?_
  simp only [List.forall_mem_cons, List.not_mem_nil, false_implies, implies_true, and_true]
  exact ⟨⟨pair_reads bytes_reads hv, fun _ => rfl⟩,
    ⟨pair_reads bytes_reads (pair_reads hv hf), fun _ => rfl⟩,
    ⟨pair_reads bytes_reads (pair_reads processorRef_reads ha), fun _ => rfl⟩,
    ⟨pair_reads he (pair_reads hf (pair_reads ha hx)), fun _ => rfl⟩⟩

theorem backupEntry_reads : backupEntry.Reads := by
  have hv : (option bytes).Reads := option_reads bytes_reads
  exact imap_reads
    (pair_reads bytes_reads
      (pair_reads hv
        (pair_reads int64_reads
          (pair_reads int64_reads
            (pair_reads (option_reads writeVersion_reads)
              (pair_reads bool_reads (pair_reads hv word64_reads)))))))
    fun _ => rfl

theorem nearEntry_reads : nearEntry.Reads :=
  imap_reads
    (pair_reads bytes_reads
      (pair_reads (option_reads bytes_reads) (pair_reads int64_reads int64_reads)))
    fun _ => rfl

theorem failedKeys_reads : failedKeys.Reads :=
  list_reads (pair_reads bytes_reads failureCause_reads)

theorem nodeIds_reads : (list nodeId).Reads := list_reads nodeId_reads

end Codec

/-- The encoding of a value that is spelled somehow spells it without liberties. -/
theorem Written.canonical (h : Written c a p L) (hp : p.length < countable) :
    Written c a (c.encode a) [] := by
  induction h with
  | unit => exact .unit
  | fixed a hn hr => exact .fixed a hn hr
  | bytes bs h => exact .bytes bs h
  | text s h => exact .text s h
  | imap hg h ih => exact imap_encode hg ▸ .imap hg (ih hp)
  | pair ha hb iha ihb =>
    rw [List.length_append] at hp
    exact .pair (iha (by omega)) (ihb (by omega))
  | @list _ c xs hn h ih =>
    rw [List.length_append] at hp
    have hpiece : ∀ x ∈ xs, Written c x.value (c.encode x.value) [] := by
      intro x hx
      have := Bytes.length_le_flatMap (fun x : Piece _ => x.bytes) hx
      exact ih x hx (by omega)
    let ys : List (Piece _) := xs.map fun x => ⟨x.value, c.encode x.value, []⟩
    have hys : ∀ y ∈ ys, Written c y.value y.bytes y.liberties := by
      intro y hy
      obtain ⟨x, hx, rfl⟩ := List.mem_map.1 hy
      exact hpiece x hx
    have hlength : ys.length = xs.length := List.length_map _
    have hvalues : ys.map (·.value) = xs.map (·.value) := List.map_map
    have hbytes : ys.flatMap (·.bytes) = (xs.map (·.value)).flatMap c.encode := by
      rw [List.flatMap_map, List.flatMap_map]
    have hliberties : ys.flatMap (·.liberties) = [] := by simp [ys]
    have hlist := Written.list ys (hlength ▸ hn) hys
    rwa [hvalues, hbytes, hliberties, hlength, ← List.length_map (·.value), ← list_encode] at hlist
  | @choice _ _ cases k b p L hk he h ih =>
    rw [List.length_cons] at hp
    show Written _ _ (encodeCase cases _) []
    rw [he]
    exact .choice hk he (ih (by omega))
  | boolean b h => exact .imap rfl (.fixed 1 rfl rfl)
  | @outcomes es p L h ha ih =>
    have hle := Nat.lt_of_le_of_lt (Written.outcomes h ha).length_le hp
    have hd := sortedMap_roundTrips bytes_roundTrips invokeOutcome_roundTrips bytes_occupies
      (SortedMap.ofList es) [] hle
    obtain ⟨q, M, hq, hw⟩ := outcomes_reads _ _ _ hd
    rw [List.append_nil, List.append_nil] at hq
    subst hq
    obtain rfl := (hw.encode_eq hle).1 rfl
    exact hw

end Wire

end AtomicGrid
