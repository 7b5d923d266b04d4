import AtomicGrid.Wire.Decoding

/-!
# Reading in pieces

What is read does not depend on how the bytes are cut.  A reading function `Resumes` if bytes that
come later make no difference to what is complete, and if a reader that ran out of bytes goes on
with the next ones as if it had had them at once.

## Results

* `Reader.bytes_resumes`, `Reader.read_resumes`: fields are read so.
* `readFields_step`, `Decoder.next_step`, `Decoder.drain_append`: so are the fields of a message,
  messages, and buffers.
* `Decoder.feed_eq_drain`: feeding pieces that can be read comes to reading their concatenation.
-/

set_option autoImplicit false

namespace AtomicGrid.Wire

variable {α β : Type}

namespace Reader

/-- A reading function: the reader left, the bytes left over, and the value if it is complete. -/
abbrev Reads (α : Type) : Type := Reader → Bytes → Reader × Bytes × Option α

/-- The bytes complete a value, whatever follows them, and nothing of it is remembered. -/
def Completes (f : Reads α) (r : Reader) (a : Bytes) : Prop :=
  ∃ v rest, rest.length < a.length ∧ ∀ b, f r (a ++ b) = ({ field := r.field }, rest ++ b, some v)

/-- The bytes are taken up, and reading goes on with the next as if they had come at once. -/
def Pauses (Ready : Reader → Prop) (f : Reads α) (r : Reader) (a : Bytes) : Prop :=
  ∃ r', Ready r' ∧ r'.field = r.field ∧ f r a = (r', [], none) ∧ ∀ b, f r (a ++ b) = f r' b

/-- `f` reads in pieces, from the readers that satisfy `Ready`. -/
structure Resumes (Ready : Reader → Prop) (f : Reads α) : Prop where
  idle : ∀ {r}, Ready r → f r [] = (r, [], none)
  step : ∀ {r}, Ready r → ∀ a, Completes f r a ∨ Pauses Ready f r a

/-- Fewer than `n` bytes of a part have come. -/
def Lacks (n : Nat) (r : Reader) : Prop := r.scratch.length < n

def InWord (n : Nat) (r : Reader) : Prop := r.Lacks n ∧ r.expected = none

/-- A byte string is in progress: its length, or its content. -/
def InBytes (r : Reader) : Prop :=
  match r.expected with
  | none => r.Lacks 4
  | some n => r.Lacks n

theorem collect_enough {r : Reader} {n : Nat} {a : Bytes} (hr : r.scratch.length ≤ n)
    (h : n ≤ r.scratch.length + a.length) :
    r.collect n a = ({ r with scratch := [] }, a.drop (n - r.scratch.length),
      some (r.scratch ++ a.take (n - r.scratch.length))) := by
  have hl : (r.scratch ++ a.take (n - r.scratch.length)).length = n := by
    rw [List.length_append, List.length_take]
    omega
  simp only [collect, hl, if_true]

theorem collect_short {r : Reader} {n : Nat} {a : Bytes}
    (h : r.scratch.length + a.length < n) :
    r.collect n a = ({ r with scratch := r.scratch ++ a }, [], none) := by
  have ht : a.take (n - r.scratch.length) = a := List.take_of_length_le (by omega)
  have hd : a.drop (n - r.scratch.length) = [] := List.drop_of_length_le (by omega)
  have hl : (r.scratch ++ a).length ≠ n := by
    rw [List.length_append]
    omega
  simp only [collect, ht, hd, hl, if_false]

theorem collect_nil {r : Reader} {n : Nat} (h : r.Lacks n) : r.collect n [] = (r, [], none) := by
  have hs : r.scratch.length + ([] : Bytes).length < n := h
  rw [collect_short hs, List.append_nil]

theorem collect_cases {r : Reader} {n : Nat} (hr : r.scratch.length ≤ n) (a : Bytes) :
    (∃ part rest, r.collect n a = ({ r with scratch := [] }, rest, some part) ∧
      rest.length ≤ a.length ∧ (r.Lacks n → rest.length < a.length) ∧
      ∀ b, r.collect n (a ++ b) = ({ r with scratch := [] }, rest ++ b, some part)) ∨
    (r.collect n a = ({ r with scratch := r.scratch ++ a }, [], none) ∧
      Lacks n { r with scratch := r.scratch ++ a } ∧
      ∀ b, r.collect n (a ++ b) = collect { r with scratch := r.scratch ++ a } n b) := by
  by_cases h : n ≤ r.scratch.length + a.length
  · refine .inl ⟨_, _, collect_enough hr h, (by rw [List.length_drop]; omega),
      fun hl => ?_, fun b => ?_⟩
    · have hl : r.scratch.length < n := hl
      rw [List.length_drop]
      omega
    · have hab : n ≤ r.scratch.length + (a ++ b).length := by
        rw [List.length_append]
        omega
      have hle : n - r.scratch.length ≤ a.length := by omega
      rw [collect_enough hr hab, List.take_append_of_le_length hle,
        List.drop_append_of_le_length hle]
  · have hs : r.scratch.length + a.length < n := by omega
    have hl : Lacks n { r with scratch := r.scratch ++ a } := by
      show (r.scratch ++ a).length < n
      rw [List.length_append]
      omega
    refine .inr ⟨collect_short hs, hl, fun b => ?_⟩
    by_cases hb : n ≤ r.scratch.length + (a ++ b).length
    · have hb' : n ≤ (r.scratch ++ a).length + b.length := by
        rw [List.length_append] at hb ⊢
        omega
      have ht : (a ++ b).take (n - r.scratch.length) =
          a ++ b.take (n - (r.scratch ++ a).length) := by
        rw [List.take_append, List.take_of_length_le (by omega), List.length_append,
          Nat.sub_add_eq]
      have hd : (a ++ b).drop (n - r.scratch.length) = b.drop (n - (r.scratch ++ a).length) := by
        rw [List.drop_append, List.drop_of_length_le (by omega), List.length_append,
          Nat.sub_add_eq, List.nil_append]
      rw [collect_enough hr hb, collect_enough (Nat.le_of_lt hl) hb', ht, hd, List.append_assoc]
    · have hb' : (r.scratch ++ a).length + b.length < n := by
        rw [List.length_append] at hb ⊢
        omega
      rw [collect_short (by omega), collect_short hb', List.append_assoc]

theorem word_resumes {n : Nat} (read : Bytes → α) :
    Resumes (InWord n) fun r input => r.word n read input where
  idle := fun h => by simp only [word, collect_nil h.1, Option.map_none]
  step := by
    rintro ⟨field, scratch, expected⟩ ⟨hl, rfl⟩ a
    rcases collect_cases (Nat.le_of_lt hl) a with ⟨part, rest, -, -, hr, h⟩ | ⟨h, hl', hb⟩
    · exact .inl ⟨read part, rest, hr hl, fun b => by simp only [word, h b, Option.map_some]⟩
    · exact .inr ⟨_, ⟨hl', rfl⟩, rfl, by simp only [word, h, Option.map_none],
        fun b => by simp only [word, hb b]⟩

/-- The content of a byte string of length `n` is in progress. -/
def InContent (n : Nat) (r : Reader) : Prop := r.Lacks n ∧ r.expected = some n

/-- What becomes of the content of a byte string, also if nothing of it is lacking. -/
theorem content_step {r : Reader} {n : Nat} (hr : r.scratch.length ≤ n) (he : r.expected = some n)
    (a : Bytes) :
    (∃ v rest, rest.length ≤ a.length ∧ (r.Lacks n → rest.length < a.length) ∧
      ∀ b, r.content n (a ++ b) = ({ field := r.field }, rest ++ b, some v)) ∨
    Pauses (InContent n) (fun r input => r.content n input) r a := by
  obtain ⟨field, scratch, expected⟩ := r
  rcases collect_cases hr a with ⟨part, rest, -, hle, hlt, h⟩ | ⟨h, hl, hb⟩
  · exact .inl ⟨some part, rest, hle, hlt, fun b => by simp only [content, h b]⟩
  · exact .inr ⟨_, ⟨hl, he⟩, rfl, by simp only [content, h], fun b => by simp only [content, hb b]⟩

theorem bytes_of_expected {r : Reader} {n : Nat} (h : r.expected = some n) (a : Bytes) :
    r.bytes a = r.content n a := by
  simp only [bytes, h]

theorem InContent.inBytes {r : Reader} {n : Nat} (h : r.InContent n) : r.InBytes := by
  simp only [InBytes, h.2]
  exact h.1

theorem InWord.inBytes {r : Reader} (h : r.InWord 4) : r.InBytes := by
  simp only [InBytes, h.2]
  exact h.1

theorem bytes_resumes : Resumes InBytes bytes where
  idle := by
    intro r hr
    cases he : r.expected with
    | some n =>
      have hl : r.Lacks n := by simpa only [InBytes, he] using hr
      simp only [bytes, he, content, collect_nil hl]
    | none =>
      have hl : r.Lacks 4 := by simpa only [InBytes, he] using hr
      simp only [bytes, he, word, collect_nil hl, Option.map_none]
  step := by
    intro r hr a
    cases he : r.expected with
    | some n =>
      have hl : r.Lacks n := by simpa only [InBytes, he] using hr
      rcases content_step (Nat.le_of_lt hl) he a with ⟨v, rest, -, hlt, h⟩ | ⟨r', hr', hf, h, hb⟩
      · exact .inl ⟨v, rest, hlt hl, fun b => by rw [bytes_of_expected he, h b]⟩
      · exact .inr ⟨r', hr'.inBytes, hf, (bytes_of_expected he a).trans h,
          fun b => (bytes_of_expected he _).trans ((hb b).trans (bytes_of_expected hr'.2 b).symm)⟩
    | none =>
      have hl : r.Lacks 4 := by simpa only [InBytes, he] using hr
      rcases (word_resumes Bytes.toUInt32).step ⟨hl, he⟩ a with
        ⟨n, rest, hlt, h⟩ | ⟨r', hr', hf, h, hb⟩
      · by_cases hn : n = Shape.absentLength
        · exact .inl ⟨none, rest, hlt, fun b => by simp only [bytes, he, h b, hn, if_true]⟩
        · let r₁ : Reader := { field := r.field, expected := some n.toNat }
          have hb (b : Bytes) : r.bytes (a ++ b) = r₁.content n.toNat (rest ++ b) := by
            simp only [bytes, he, h b, hn, if_false, r₁]
          rcases content_step (r := r₁) (Nat.zero_le _) rfl rest with
            ⟨v, rest', hle, -, h'⟩ | ⟨r', hr', hf, h', hb'⟩
          · exact .inl ⟨v, rest', Nat.lt_of_le_of_lt hle hlt, fun b => by rw [hb b, h' b]⟩
          · have h₀ := hb []
            rw [List.append_nil, List.append_nil] at h₀
            exact .inr ⟨r', hr'.inBytes, hf, h₀.trans h',
              fun b => (hb b).trans ((hb' b).trans (bytes_of_expected hr'.2 b).symm)⟩
      · exact .inr ⟨r', hr'.inBytes, hf, by simp only [bytes, he, h],
          fun b => by simp only [bytes, he, hr'.2, hb b]⟩

/-- A field of the shape is in progress. -/
def Within (r : Reader) : Shape → Prop
  | .word8 => r.InWord 1
  | .word32 => r.InWord 4
  | .word64 => r.InWord 8
  | .topology => r.InWord 12
  | .bytes => r.InBytes

theorem read_resumes :
    ∀ s : Shape, Resumes (fun r => r.Within s) fun r input => r.read s input
  | .word8 => word_resumes _
  | .word32 => word_resumes _
  | .word64 => word_resumes _
  | .topology => word_resumes _
  | .bytes => bytes_resumes

theorem within_fresh (k : Nat) (s : Shape) : Within { field := k } s := by
  cases s <;> simp [Within, InWord, InBytes, Lacks]

theorem header_resumes : Resumes (InWord 2) header := word_resumes _

end Reader

/-! ## Fields -/

variable {σ : Type}

/-- The reader is within the first of the fields that are left. -/
def Reader.Starts (r : Reader) : List (Slot σ) → Prop
  | [] => True
  | s :: _ => r.Within s.shape

theorem Reader.starts_fresh (k : Nat) : ∀ ss : List (Slot σ), Starts { field := k } ss
  | [] => trivial
  | s :: _ => within_fresh k s.shape

/-- Reading fields is over: the message or the error, and the bytes left over. -/
def Progress.ended (rest : Bytes) : Except WireError σ → Progress σ
  | .ok m => .done m rest
  | .error e => .failed e rest

/-- The two ways reading fields goes.  Where it stops for lack of bytes, it goes on with the field
in which it stopped. -/
theorem readFields_step :
    ∀ (ss : List (Slot σ)) (r : Reader) (m : σ) (a : Bytes), r.Starts ss →
      (∃ o rest, rest.length ≤ a.length ∧ (ss ≠ [] → rest.length < a.length) ∧
        ∀ b, readFields ss r m (a ++ b) = .ended (rest ++ b) o) ∨
      (∃ r' m' k, k < ss.length ∧ r'.field = r.field + k ∧ r'.Starts (ss.drop k) ∧
        readFields ss r m a = .paused r' m' [] ∧
        ∀ b, readFields ss r m (a ++ b) = readFields (ss.drop k) r' m' b)
  | [], r, m, a, _ => .inl ⟨.ok m, a, Nat.le_refl _, fun h => absurd rfl h, fun _ => rfl⟩
  | s :: ss, r, m, a, hr => by
    rcases (Reader.read_resumes s.shape).step hr a with ⟨v, rest, hlt, h⟩ | ⟨r', hr', hf, h, hb⟩
    · cases hs : s.set v m with
      | error e =>
        exact .inl ⟨.error e, rest, Nat.le_of_lt hlt, fun _ => hlt,
          fun b => by simp only [readFields, h b, hs, Progress.ended]⟩
      | ok m₁ =>
        have hb (b : Bytes) : readFields (s :: ss) r m (a ++ b) =
            readFields ss { field := r.field + 1 } m₁ (rest ++ b) := by
          simp only [readFields, h b, hs, Reader.advance]
        rcases readFields_step ss _ m₁ rest (Reader.starts_fresh (r.field + 1) ss) with
          ⟨o, rest', hle, -, h'⟩ | ⟨r', m', k, hk, hf, hst, h', hb'⟩
        · have hlt' := Nat.lt_of_le_of_lt hle hlt
          exact .inl ⟨o, rest', Nat.le_of_lt hlt', fun _ => hlt', fun b => (hb b).trans (h' b)⟩
        · have h₀ := hb []
          rw [List.append_nil, List.append_nil] at h₀
          refine .inr ⟨r', m', k + 1, Nat.succ_lt_succ hk, ?_, hst, h₀.trans h',
            fun b => (hb b).trans (hb' b)⟩
          rw [hf]
          show r.field + 1 + k = r.field + (k + 1)
          omega
    · have h : r.read s.shape a = (r', [], none) := h
      have hb (b : Bytes) : r.read s.shape (a ++ b) = r'.read s.shape b := hb b
      exact .inr ⟨r', m, 0, Nat.succ_pos _, hf, hr', by simp only [readFields, h],
        fun b => by simp only [List.drop_zero, readFields, hb b]⟩

/-! ## Messages -/

namespace Decoder

/-- The reader is where the message in progress has got to. -/
def Live (d : Decoder) : Prop :=
  match d.draft with
  | none => d.reader.InWord 2 ∧ d.reader.field = 0
  | some draft =>
    d.reader.field < (layout draft.kind).length ∧
      d.reader.Starts ((layout draft.kind).drop d.reader.field)

theorem live_fresh : Live {} := ⟨⟨Nat.zero_lt_two, rfl⟩, rfl⟩

theorem layout_length_pos (k : MessageKind) : 0 < (layout k).length := by cases k <;> decide

theorem resume_step {r : Reader} (draft : Draft) (hr : r.field < (layout draft.kind).length)
    (hs : r.Starts ((layout draft.kind).drop r.field)) (a : Bytes) :
    (∃ o rest, rest.length < a.length ∧
      ∀ b, resume r draft (a ++ b) = ({}, rest ++ b, Except.map some o)) ∨
    (∃ r' draft', Live ⟨r', some draft'⟩ ∧ resume r draft a = (⟨r', some draft'⟩, [], .ok none) ∧
      ∀ b, resume r draft (a ++ b) = resume r' draft' b) := by
  obtain ⟨kind, body⟩ := draft
  simp only at hr hs
  have hne : (layout kind).drop r.field ≠ [] := by
    rw [Ne, List.drop_eq_nil_iff]
    exact Nat.not_le_of_lt hr
  rcases readFields_step _ r body a hs with
    ⟨o, rest, -, hlt, h⟩ | ⟨r', m', k, hk, hf, hst, h, hb⟩
  · cases o with
    | ok m =>
      exact .inl ⟨.ok (.ofBody kind m), rest, hlt hne,
        fun b => by simp only [resume, h b, Progress.ended, Except.map]⟩
    | error e =>
      exact .inl ⟨.error e, rest, hlt hne,
        fun b => by simp only [resume, h b, Progress.ended, Except.map]⟩
  · rw [List.length_drop] at hk
    rw [List.drop_drop, ← hf] at hst
    refine .inr ⟨r', ⟨kind, m'⟩, ⟨?_, hst⟩, by simp only [resume, h], fun b => ?_⟩
    · show r'.field < (layout kind).length
      omega
    · simp only [resume, hb b, List.drop_drop, hf]
      cases readFields ((layout kind).drop (r.field + k)) r' m' b <;> rfl

theorem next_step {d : Decoder} (hd : d.Live) (a : Bytes) :
    (∃ o rest, rest.length < a.length ∧
      ∀ b, d.next (a ++ b) = ({}, rest ++ b, Except.map some o)) ∨
    (∃ d', Live d' ∧ d.next a = (d', [], .ok none) ∧ ∀ b, d.next (a ++ b) = d'.next b) := by
  obtain ⟨r, _ | draft⟩ := d
  · obtain ⟨hw, hz⟩ : r.InWord 2 ∧ r.field = 0 := hd
    rcases Reader.header_resumes.step hw a with ⟨⟨code, count⟩, rest, hlt, h⟩ | ⟨r', hr', hf, h, hb⟩
    · cases hk : MessageKind.ofCode? code with
      | none =>
        exact .inl ⟨.error (.unknownKind code), rest, hlt,
          fun b => by simp only [next, h b, hk, Except.map]⟩
      | some kind =>
        by_cases hc : count = fieldCount kind
        · have hb (b : Bytes) : next ⟨r, none⟩ (a ++ b) =
              resume { field := 0 } ⟨kind, kind.blank⟩ (rest ++ b) := by
            simp only [next, h b, hk, hc, if_true, hz]
          rcases resume_step ⟨kind, kind.blank⟩ (layout_length_pos kind)
              (Reader.starts_fresh 0 _) rest with
            ⟨o, rest', hlt', h'⟩ | ⟨r', draft', hl, h', hb'⟩
          · exact .inl ⟨o, rest', Nat.lt_trans hlt' hlt, fun b => (hb b).trans (h' b)⟩
          · have h₀ := hb []
            rw [List.append_nil, List.append_nil] at h₀
            exact .inr ⟨⟨r', some draft'⟩, hl, h₀.trans h', fun b => (hb b).trans (hb' b)⟩
        · exact .inl ⟨.error (.fieldCount count (fieldCount kind)), rest, hlt,
            fun b => by simp only [next, h b, hk, hc, if_false, Except.map]⟩
    · exact .inr ⟨⟨r', none⟩, ⟨hr', hf.trans hz⟩, by simp only [next, h],
        fun b => by simp only [next, hb b]⟩
  · obtain ⟨hf, hs⟩ : r.field < (layout draft.kind).length ∧
      r.Starts ((layout draft.kind).drop r.field) := hd
    rcases resume_step draft hf hs a with h | ⟨r', draft', hl, h, hb⟩
    · exact .inl h
    · exact .inr ⟨⟨r', some draft'⟩, hl, h, hb⟩

theorem next_nil {d : Decoder} (hd : d.Live) : d.next [] = (d, [], .ok none) := by
  obtain ⟨r, _ | draft⟩ := d
  · have hw : r.InWord 2 := And.left hd
    simp only [next, Reader.header_resumes.idle hw]
  · obtain ⟨hf, hs⟩ : r.field < (layout draft.kind).length ∧
      r.Starts ((layout draft.kind).drop r.field) := hd
    obtain ⟨s, ss, hss⟩ := List.exists_cons_of_length_pos
      (l := (layout draft.kind).drop r.field) (by rw [List.length_drop]; omega)
    rw [hss] at hs
    simp only [next, resume, hss, readFields, (Reader.read_resumes s.shape).idle hs]

/-! ## Streams -/

theorem drain_of_paused {d d' : Decoder} {a : Bytes} (h : d.next a = (d', [], .ok none)) :
    d.drain a = ⟨d', [], none, []⟩ := by
  rw [drain, h]

theorem drain_of_error {d d' : Decoder} {a rest : Bytes} {e : WireError}
    (h : d.next a = (d', rest, .error e)) : d.drain a = ⟨d', [], some e, rest⟩ := by
  rw [drain, h]

theorem drain_of_message {d d' : Decoder} {a rest : Bytes} {m : Message}
    (h : d.next a = (d', rest, .ok (some m))) (hlt : rest.length < a.length) :
    d.drain a = { d'.drain rest with messages := m :: (d'.drain rest).messages } := by
  rw [drain, h]
  simp only [hlt, if_true]

/-- Reads on behind what was left over, unless an error has ended the reading. -/
def Batch.andThen (x : Batch) (b : Bytes) : Batch :=
  match x.error with
  | some _ => { x with rest := x.rest ++ b }
  | none =>
    let y := x.decoder.drain (x.rest ++ b)
    { y with messages := x.messages ++ y.messages }

/-- What follows a message is read apart from it. -/
theorem Batch.cons_andThen (m : Message) (x : Batch) (b : Bytes) :
    ({ x with messages := m :: x.messages } : Batch).andThen b =
      { x.andThen b with messages := m :: (x.andThen b).messages } := by
  obtain ⟨d, ms, _ | e, rest⟩ := x <;> rfl

/-- A buffer that ends in no error is read to its last byte. -/
theorem drain_live {d : Decoder} (hd : d.Live) (a : Bytes) (h : (d.drain a).error = none) :
    (d.drain a).decoder.Live ∧ (d.drain a).rest = [] := by
  induction hn : a.length using Nat.strongRecOn generalizing d a with
  | ind n ih =>
    rcases next_step hd a with ⟨o, rest, hlt, hb⟩ | ⟨d', hd', hp, -⟩
    · have ha := hb []
      rw [List.append_nil, List.append_nil] at ha
      cases o with
      | error e => simp [drain_of_error ha] at h
      | ok m =>
        rw [drain_of_message ha hlt] at h ⊢
        exact ih rest.length (hn ▸ hlt) live_fresh rest h rfl
    · rw [drain_of_paused hp]
      exact ⟨hd', rfl⟩

/-- Reading two buffers is reading their concatenation. -/
theorem drain_append {d : Decoder} (hd : d.Live) (a b : Bytes) :
    d.drain (a ++ b) = (d.drain a).andThen b := by
  induction hn : a.length using Nat.strongRecOn generalizing d a with
  | ind n ih =>
    rcases next_step hd a with ⟨o, rest, hlt, hb⟩ | ⟨d', hd', hp, hb⟩
    · have ha := hb []
      rw [List.append_nil, List.append_nil] at ha
      cases o with
      | error e =>
        rw [drain_of_error (hb b), drain_of_error ha]
        rfl
      | ok m =>
        have hlt' : (rest ++ b).length < (a ++ b).length := by
          simp only [List.length_append]
          omega
        rw [drain_of_message (hb b) hlt', drain_of_message ha hlt, Batch.cons_andThen,
          ih rest.length (hn ▸ hlt) live_fresh rest rfl]
    · have hab : d.drain (a ++ b) = d'.drain b := by
        rcases next_step hd' b with ⟨o, rest, hlt, hb'⟩ | ⟨d'', -, hp', -⟩
        · have h' := hb' []
          rw [List.append_nil, List.append_nil] at h'
          cases o with
          | error e => rw [drain_of_error ((hb b).trans h'), drain_of_error h']
          | ok m =>
            have hlt' : rest.length < (a ++ b).length := by
              rw [List.length_append]
              omega
            rw [drain_of_message ((hb b).trans h') hlt', drain_of_message h' hlt]
        · rw [drain_of_paused ((hb b).trans hp'), drain_of_paused hp']
      rw [hab, drain_of_paused hp]
      rfl

/-- What reading a stream comes to that comes in pieces.  Each piece is read as far as it goes,
behind what was left over of those before; an error leaves all that follows. -/
def feed (d : Decoder) (buffer : Bytes) : List Bytes → Batch
  | [] => ⟨d, [], none, buffer⟩
  | c :: cs =>
    let x := d.drain (buffer ++ c)
    match x.error with
    | some _ => { x with rest := x.rest ++ cs.flatten }
    | none =>
      let y := x.decoder.feed x.rest cs
      { y with messages := x.messages ++ y.messages }

/-- However a stream is cut into pieces, it is read as a whole. -/
theorem feed_eq_drain {d : Decoder} (hd : d.Live) (cs : List Bytes) :
    d.feed [] cs = d.drain cs.flatten := by
  induction cs generalizing d with
  | nil => rw [feed, List.flatten_nil, drain_of_paused (next_nil hd)]
  | cons c cs ih =>
    rw [List.flatten_cons, drain_append hd]
    simp only [feed, List.nil_append, Batch.andThen]
    cases he : (d.drain c).error with
    | some e => rfl
    | none =>
      obtain ⟨hl, hr⟩ := drain_live hd c he
      simp only [hr, List.nil_append, ih hl]

end Decoder

end AtomicGrid.Wire
