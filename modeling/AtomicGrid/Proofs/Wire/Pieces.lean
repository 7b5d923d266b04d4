import AtomicGrid.Proofs.Wire.Fragments

/-!
# Any bytes in any pieces

What comes in over a connection may be no stream of messages at all.  Up to the first error it is
read in the same way however it is cut, and an error stands at the same byte.

## Results

* `Reader.read_suffix`, `Decoder.next_suffix`, `Decoder.drain_suffix`: what is left over is the end
  of what was there.
* `Decoder.Reachable.live`: a decoder that has read anything is at a place where it can go on.
* `Decoder.Reachable.next_spec`: a call that gives a message takes bytes up, one that gives nothing
  takes up all of them, and one that fails leaves a fresh decoder.
* `Decoder.drain_append_of_whole`, `Decoder.drain_append_of_broken`: what follows bytes that can be
  read, and what follows an error.
* `Decoder.feed_pieces`: two ways of cutting the same bytes give the same messages, the same error
  and the same bytes left over.
-/

set_option autoImplicit false

namespace AtomicGrid.Wire

/-! ## What is left over -/

namespace Reader

theorem collect_suffix (r : Reader) (n : Nat) (input : Bytes) :
    (r.collect n input).2.1 <:+ input := by
  unfold collect
  dsimp only
  split <;> exact List.drop_suffix _ _

theorem word_suffix {α : Type} (r : Reader) (n : Nat) (read : Bytes → α) (input : Bytes) :
    (r.word n read input).2.1 <:+ input :=
  collect_suffix r n input

theorem content_suffix (r : Reader) (n : Nat) (input : Bytes) :
    (r.content n input).2.1 <:+ input := by
  have hc := collect_suffix r n input
  unfold content
  split
  · rename_i h
    rwa [h] at hc
  · rename_i h
    rwa [h] at hc

theorem bytes_suffix (r : Reader) (input : Bytes) : (r.bytes input).2.1 <:+ input := by
  have hw := word_suffix r 4 Bytes.toUInt32 input
  unfold bytes
  split
  · exact content_suffix r _ input
  · split
    · rename_i rest n h
      rw [h] at hw
      split
      · exact hw
      · exact (content_suffix _ _ rest).trans hw
    · rename_i h
      rwa [h] at hw

/-- The bytes left over behind a field are the end of those that were there. -/
theorem read_suffix (r : Reader) (s : Shape) (input : Bytes) : (r.read s input).2.1 <:+ input := by
  cases s with
  | word8 | word32 | word64 | topology => exact word_suffix r _ _ input
  | bytes => exact bytes_suffix r input

end Reader

def Progress.rest {σ : Type} : Progress σ → Bytes
  | .paused _ _ rest => rest
  | .done _ rest => rest
  | .failed _ rest => rest

theorem readFields_suffix {σ : Type} (ss : List (Slot σ)) (r : Reader) (m : σ) (input : Bytes) :
    (readFields ss r m input).rest <:+ input := by
  induction ss generalizing r m input with
  | nil => exact List.suffix_refl input
  | cons s ss ih =>
    have hs := r.read_suffix s.shape input
    unfold readFields
    split
    · rename_i h
      rwa [h] at hs
    · rename_i rest v h
      rw [h] at hs
      split
      · exact (ih _ _ rest).trans hs
      · exact hs

namespace Decoder

theorem resume_suffix (r : Reader) (draft : Draft) (input : Bytes) :
    (resume r draft input).2.1 <:+ input := by
  have hf := readFields_suffix ((layout draft.kind).drop r.field) r draft.body input
  unfold resume
  split
  all_goals
    rename_i h
    rwa [h] at hf

/-- The bytes a call leaves are the end of those it was given. -/
theorem next_suffix (d : Decoder) (input : Bytes) : (d.next input).2.1 <:+ input := by
  have hw : (d.reader.header input).2.1 <:+ input := Reader.word_suffix d.reader 2 _ input
  unfold next
  split
  · exact resume_suffix _ _ input
  · split
    · rename_i h
      rwa [h] at hw
    · rename_i rest code count h
      rw [h] at hw
      split
      · exact hw
      · split
        · exact (resume_suffix _ _ rest).trans hw
        · exact hw

/-- The bytes left over behind the messages of a buffer are its end. -/
theorem drain_suffix (d : Decoder) (input : Bytes) : (d.drain input).rest <:+ input := by
  induction d, input using drain.induct with
  | case1 d input d' rest h =>
    have hs := d.next_suffix input
    rw [h] at hs
    rwa [drain, h]
  | case2 d input d' rest e h =>
    have hs := d.next_suffix input
    rw [h] at hs
    rwa [drain, h]
  | case3 d input d' rest m h hlt ih =>
    have hs := d.next_suffix input
    rw [h] at hs
    rw [drain_of_message h hlt]
    exact ih.trans hs
  | case4 d input d' rest m h hlt =>
    have hs := d.next_suffix input
    rw [h] at hs
    rw [drain, h]
    simpa only [hlt, if_false] using hs

/-! ## The decoders there are -/

/-- A fresh decoder, or what a call on such a one has left, whatever bytes it was given. -/
inductive Reachable : Decoder → Prop where
  | fresh : Reachable {}
  | next {d : Decoder} (input : Bytes) : Reachable d → Reachable (d.next input).1

/-- A call leaves a decoder that can go on. -/
theorem Live.next {d : Decoder} (hd : d.Live) (input : Bytes) : (d.next input).1.Live := by
  rcases next_step hd input with ⟨o, rest, -, h⟩ | ⟨d', hd', h, -⟩
  · have h₀ := h []
    rw [List.append_nil] at h₀
    rw [h₀]
    exact live_fresh
  · rw [h]
    exact hd'

theorem Reachable.live {d : Decoder} (h : d.Reachable) : d.Live := by
  induction h with
  | fresh => exact live_fresh
  | next input _ ih => exact ih.next input

/-- What a call comes to. -/
inductive Outcome (input : Bytes) : Decoder × Bytes × Except WireError (Option Message) → Prop where
  /-- Bytes are taken up for a message. -/
  | message {d : Decoder} {taken rest : Bytes} (m : Message) :
      taken ≠ [] → input = taken ++ rest → Outcome input (d, rest, .ok (some m))
  /-- All bytes are taken up, and they do not suffice. -/
  | paused (d : Decoder) : Outcome input (d, [], .ok none)
  /-- Some bytes are taken up, and a fresh decoder goes on with the others. -/
  | error {taken rest : Bytes} (e : WireError) :
      input = taken ++ rest → Outcome input ({}, rest, .error e)

/-- What a call comes to on any bytes, for any decoder there is. -/
theorem Reachable.next_spec {d : Decoder} (hd : d.Reachable) (input : Bytes) :
    Outcome input (d.next input) := by
  have hs := d.next_suffix input
  rcases next_step hd.live input with ⟨o, rest, hlt, h⟩ | ⟨d', -, h, -⟩
  · have h₀ := h []
    rw [List.append_nil, List.append_nil] at h₀
    rw [h₀] at hs ⊢
    obtain ⟨taken, ht⟩ := hs
    cases o with
    | error e => exact .error e ht.symm
    | ok m =>
      refine .message m ?_ ht.symm
      intro hnil
      rw [hnil, List.nil_append] at ht
      have hl : rest.length = input.length := congrArg List.length ht
      omega
  · rw [h]
    exact .paused d'

/-- A buffer that ends in an error leaves a fresh decoder. -/
theorem drain_error {d : Decoder} (hd : d.Reachable) (input : Bytes) {e : WireError}
    (h : (d.drain input).error = some e) : (d.drain input).decoder = {} := by
  induction d, input using drain.induct with
  | case1 d input d' rest hn => rw [drain, hn] at h; cases h
  | case2 d input d' rest e' hn =>
    have ho := hd.next_spec input
    rw [hn] at ho
    rw [drain, hn]
    cases ho
    rfl
  | case3 d input d' rest m hn hlt ih =>
    rw [drain_of_message hn hlt] at h ⊢
    have hr := hd.next input
    rw [hn] at hr
    exact ih hr h
  | case4 d input d' rest m hn hlt =>
    rw [drain, hn] at h
    simp only [hlt, if_false] at h
    cases h

/-! ## Behind what can be read, and behind an error -/

/-- Reading a buffer leaves a decoder that can go on. -/
theorem Reachable.drain {d : Decoder} (hd : d.Reachable) (input : Bytes) :
    (d.drain input).decoder.Reachable := by
  induction d, input using drain.induct with
  | case1 d input d' rest hn | case2 d input d' rest e hn =>
    have hr := hd.next input
    rw [hn] at hr
    rwa [Decoder.drain, hn]
  | case3 d input d' rest m hn hlt ih =>
    have hr := hd.next input
    rw [hn] at hr
    rw [drain_of_message hn hlt]
    exact ih hr
  | case4 d input d' rest m hn hlt =>
    have hr := hd.next input
    rw [hn] at hr
    rw [Decoder.drain, hn]
    simpa only [hlt, if_false] using hr

/-- An error takes a byte at least. -/
theorem length_rest_lt {d : Decoder} (hd : d.Live) {input : Bytes}
    (h : (d.drain input).error ≠ none) : (d.drain input).rest.length < input.length := by
  rcases next_step hd input with ⟨o, rest, hlt, hb⟩ | ⟨d', hd', hp, -⟩
  · have ha := hb []
    rw [List.append_nil, List.append_nil] at ha
    cases o with
    | error e => rwa [drain_of_error ha]
    | ok m =>
      rw [drain_of_message ha hlt]
      exact Nat.lt_of_le_of_lt (drain_suffix {} rest).length_le hlt
  · rw [drain_of_paused hp] at h
    exact absurd rfl h

/-- Behind bytes that can be read, reading goes on. -/
theorem drain_append_of_whole {d : Decoder} (hd : d.Live) {a : Bytes}
    (h : (d.drain a).error = none) (b : Bytes) : d.drain (a ++ b) =
      { (d.drain a).decoder.drain b with
        messages := (d.drain a).messages ++ ((d.drain a).decoder.drain b).messages } := by
  rw [drain_append hd]
  simp only [Batch.andThen, h, (drain_live hd a h).2, List.nil_append]

/-- Behind an error, nothing is read. -/
theorem drain_append_of_broken {d : Decoder} (hd : d.Live) {a : Bytes}
    (h : (d.drain a).error ≠ none) (b : Bytes) :
    d.drain (a ++ b) = { d.drain a with rest := (d.drain a).rest ++ b } := by
  obtain ⟨e, he⟩ := Option.ne_none_iff_exists'.1 h
  rw [drain_append hd]
  simp only [Batch.andThen, he]

/-! ## Any two ways of cutting -/

/-- Whatever the bytes are and however they are cut, feeding them to a fresh decoder gives the same
messages, the same error and the same bytes left over, which are the end of those that came.  Without
an error nothing is left over; after an error the decoder is a fresh one.  No call stands still: one
that gives a message takes up a byte at least. -/
theorem feed_pieces {pieces pieces' : List Bytes} (h : pieces.flatten = pieces'.flatten) :
    feed {} [] pieces = feed {} [] pieces' ∧
    (feed {} [] pieces).rest <:+ pieces.flatten ∧
    ((feed {} [] pieces).error = none → (feed {} [] pieces).rest = []) ∧
    ((feed {} [] pieces).error ≠ none → (feed {} [] pieces).decoder = {}) ∧
    ∀ d : Decoder, d.Reachable → ∀ input, Outcome input (d.next input) := by
  have hf := feed_eq_drain live_fresh pieces
  refine ⟨?_, ?_, ?_, ?_, fun d hd input => hd.next_spec input⟩
  · rw [hf, feed_eq_drain live_fresh pieces', h]
  · rw [hf]
    exact drain_suffix {} pieces.flatten
  · intro hn
    rw [hf] at hn ⊢
    exact (drain_live live_fresh _ hn).2
  · intro hn
    obtain ⟨e, he⟩ := Option.ne_none_iff_exists'.mp hn
    rw [hf] at he ⊢
    exact drain_error .fresh _ he

/-- Two ways of cutting bytes of which the first two announce no kind of message there is. -/
theorem feed_pieces_unknown :
    ([[255], [0, 7]] : List Bytes).flatten = ([[255, 0, 7]] : List Bytes).flatten ∧
    (feed {} [] [[255], [0, 7]]).error = some (.unknownKind 255) ∧
    (feed {} [] [[255], [0, 7]]).rest = [7] ∧
    feed {} [] [[255], [0, 7]] = feed {} [] [[255, 0, 7]] := by
  have h : ([[255], [0, 7]] : List Bytes).flatten = ([[255, 0, 7]] : List Bytes).flatten := rfl
  exact ⟨h, by decide +kernel, by decide +kernel, (feed_pieces h).1⟩

end Decoder

end AtomicGrid.Wire
