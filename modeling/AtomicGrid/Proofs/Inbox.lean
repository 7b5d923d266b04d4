import AtomicGrid.Inbox
import AtomicGrid.Proofs.SortedMap
import AtomicGrid.Proofs.Wire.Pieces
import AtomicGrid.Wire.Encoding

/-!
# Frames in chunks

The frames of a sender are one stream of bytes.  As long as it can be read, it does not matter in
what chunks it is.  When it cannot, the bytes up to the end of the chunk are skipped, and what comes
behind is read as a stream of its own: it is a matter of the chunks where that begins.

## Results

* `Inbox.reads_chunks`, `Inbox.dispatches_receiveAll`: what a frame, and any frames, come to.
* `Inbox.Dispatches.prefix_messagesFrom`: the messages of a sender up to the first error.
* `Inbox.Dispatches.filter_eq`: the messages of senders without an error are the same in all chunks.
* `Inbox.receiveAll_spec`: these together, from an empty inbox on.
* `Inbox.message_skipped`: behind an error, the chunks make a difference.
-/

set_option autoImplicit false

namespace AtomicGrid

open Wire

/-- All bytes of a chunk are taken up or skipped. -/
theorem Stream.feed_of_reachable {d : Decoder} (hd : d.Reachable) (chunk : Bytes) :
    Stream.feed ⟨d, []⟩ chunk = (⟨(d.drain chunk).decoder, []⟩, (d.drain chunk).messages) := by
  unfold feed
  simp only [List.nil_append]
  cases he : (d.drain chunk).error with
  | some e => rfl
  | none => rw [(Decoder.drain_live hd.live chunk he).2]; rfl

namespace Inbox

variable {size size' : Nat} {d d' : Decoder} {frame : Bytes} {ms : List Message}

/-- The end of the chunk that the byte before `pos` is in. -/
def chunkEnd (size pos : Nat) : Nat := (pos + max size 1 - 1) / max size 1 * max size 1

theorem chunkEnd_of_le {pos : Nat} (h : 0 < pos) (hle : pos ≤ max size 1) :
    chunkEnd size pos = max size 1 := by
  have hdiv : (pos + max size 1 - 1) / max size 1 = 1 :=
    Nat.div_eq_of_lt_le (by omega) (by omega)
  rw [chunkEnd, hdiv, Nat.one_mul]

theorem chunkEnd_add {pos : Nat} (h : 0 < pos) :
    chunkEnd size (max size 1 + pos) = max size 1 + chunkEnd size pos := by
  have hpos : 0 < max size 1 := by omega
  have hsum : max size 1 + pos + max size 1 - 1 = pos + max size 1 - 1 + max size 1 := by omega
  rw [chunkEnd, hsum, Nat.add_div_right _ hpos, Nat.succ_mul, Nat.add_comm, chunkEnd]

/-- How a frame is read on from `d`, in chunks of `size` bytes: the decoder afterwards, and the
messages. -/
inductive Reads (size : Nat) : Decoder → Bytes → Decoder → List Message → Prop
  | whole {d : Decoder} {frame : Bytes} (h : (d.drain frame).error = none) :
      Reads size d frame (d.drain frame).decoder (d.drain frame).messages
  /-- Behind an error, reading starts afresh with the next chunk. -/
  | broken {d d' : Decoder} {frame : Bytes} {ms : List Message} (h : (d.drain frame).error ≠ none)
      (hrest : Reads size {}
        (frame.drop (chunkEnd size (frame.length - (d.drain frame).rest.length))) d' ms) :
      Reads size d frame d' ((d.drain frame).messages ++ ms)

/-- A chunk that can be read, in front of the others. -/
theorem Reads.behind {chunk rest : Bytes} (hd : d.Live) (h : (d.drain chunk).error = none)
    (hlen : rest ≠ [] → chunk.length = max size 1)
    (hr : Reads size (d.drain chunk).decoder rest d' ms) :
    Reads size d (chunk ++ rest) d' ((d.drain chunk).messages ++ ms) := by
  have happend := Decoder.drain_append_of_whole hd h rest
  cases hr with
  | whole hw =>
    have hb : Reads size d (chunk ++ rest) _ _ := .whole (by rw [happend]; exact hw)
    rwa [happend] at hb
  | @broken _ _ _ ms he hrest =>
    have hlt := Decoder.length_rest_lt (Decoder.drain_live hd chunk h).1 he
    have hk : chunk.length = max size 1 := hlen (List.length_pos_iff.1 (Nat.zero_lt_of_lt hlt))
    have hend : (chunk ++ rest).drop
          (chunkEnd size ((chunk ++ rest).length - (d.drain (chunk ++ rest)).rest.length)) =
        rest.drop
          (chunkEnd size (rest.length - ((d.drain chunk).decoder.drain rest).rest.length)) := by
      have htaken : (chunk ++ rest).length - (d.drain (chunk ++ rest)).rest.length =
          max size 1 + (rest.length - ((d.drain chunk).decoder.drain rest).rest.length) := by
        rw [happend, List.length_append]
        simp only
        omega
      rw [htaken, chunkEnd_add (by omega), ← hk, List.drop_length_add_append]
    have hb : Reads size d (chunk ++ rest) d' _ :=
      .broken (by rw [happend]; exact he) (hend ▸ hrest)
    rwa [happend, List.append_assoc] at hb

/-- A chunk that cannot be read, in front of the others. -/
theorem Reads.breaking {chunk rest : Bytes} (hd : d.Live) (h : (d.drain chunk).error ≠ none)
    (hle : chunk.length ≤ max size 1) (hlen : rest ≠ [] → chunk.length = max size 1)
    (hr : Reads size {} rest d' ms) :
    Reads size d (chunk ++ rest) d' ((d.drain chunk).messages ++ ms) := by
  have hlt := Decoder.length_rest_lt hd h
  have happend := Decoder.drain_append_of_broken hd h rest
  have hend : (chunk ++ rest).drop
      (chunkEnd size ((chunk ++ rest).length - (d.drain (chunk ++ rest)).rest.length)) = rest := by
    have htaken : (chunk ++ rest).length - (d.drain (chunk ++ rest)).rest.length =
        chunk.length - (d.drain chunk).rest.length := by
      rw [happend, List.length_append, List.length_append]
      omega
    rw [htaken, chunkEnd_of_le (by omega) (by omega)]
    by_cases hnil : rest = []
    · rw [hnil, List.append_nil, List.drop_of_length_le hle]
    · exact List.drop_left' (hlen hnil)
  have hb : Reads size d (chunk ++ rest) d' _ :=
    .broken (by rw [happend]; exact h) (hend.symm ▸ hr)
  rwa [happend] at hb

theorem reads_chunks (size : Nat) (frame : Bytes) : ∀ {d : Decoder}, d.Reachable →
    ∃ d' ms, Stream.feedAll ⟨d, []⟩ (chunks size frame) = (⟨d', []⟩, ms) ∧ d'.Reachable ∧
      Reads size d frame d' ms := by
  fun_induction chunks size frame with
  | case1 =>
    intro d hd
    have hnil : d.drain [] = ⟨d, [], none, []⟩ :=
      Decoder.drain_of_paused (Decoder.next_nil hd.live)
    have hw : Reads size d [] _ _ := .whole (by rw [hnil])
    rw [hnil] at hw
    exact ⟨d, [], rfl, hd, hw⟩
  | case2 frame hne ih =>
    intro d hd
    let chunk := frame.take (max size 1)
    let rest := frame.drop (max size 1)
    have hframe : chunk ++ rest = frame := List.take_append_drop (max size 1) frame
    obtain ⟨d', ms, hfeed, hd', hr⟩ := ih (hd.drain chunk)
    have hle : chunk.length ≤ max size 1 := List.length_take_le (max size 1) frame
    have hlen (hrest : rest ≠ []) : chunk.length = max size 1 := by
      have hpos : 0 < rest.length := List.length_pos_iff.2 hrest
      rw [List.length_drop] at hpos
      exact List.length_take_of_le (by omega)
    refine ⟨d', (d.drain chunk).messages ++ ms, ?_, hd', ?_⟩
    · simp only [Stream.feedAll, Stream.feed_of_reachable hd, hfeed, chunk]
    · rw [← hframe]
      cases he : (d.drain chunk).error with
      | none => exact hr.behind hd.live he hlen
      | some e =>
        -- the decoder is a fresh one
        rw [Decoder.drain_error hd chunk he] at hr
        exact hr.breaking hd.live (by rw [he]; exact Option.some_ne_none e) hle hlen

/-! ## Frames of several senders -/

/-- Reads frames in order: the messages they complete, with their senders. -/
def receiveAll (size : Nat) : Inbox → List (NodeId × Bytes) → Inbox × List (NodeId × Message)
  | box, [] => (box, [])
  | box, (sender, frame) :: frames =>
    let (box, messages) := box.receive size sender frame
    let (box, more) := receiveAll size box frames
    (box, messages.map (sender, ·) ++ more)

/-- The decoders of the senders, after a frame of one of them. -/
def advance (ds : NodeId → Decoder) (sender : NodeId) (d : Decoder) (n : NodeId) : Decoder :=
  if n = sender then d else ds n

/-- What frames come to, in chunks of `size` bytes, with the decoders `ds` of the senders. -/
inductive Dispatches (size : Nat) :
    (NodeId → Decoder) → List (NodeId × Bytes) → List (NodeId × Message) → Prop
  | nil (ds : NodeId → Decoder) : Dispatches size ds [] []
  | frame {ds : NodeId → Decoder} {sender : NodeId} {frame : Bytes} {d : Decoder}
      {ms : List Message} {frames : List (NodeId × Bytes)} {out : List (NodeId × Message)}
      (h : Reads size (ds sender) frame d ms)
      (hs : Dispatches size (advance ds sender d) frames out) :
      Dispatches size ds ((sender, frame) :: frames) (ms.map (sender, ·) ++ out)

def decoderOf (box : Inbox) (sender : NodeId) : Decoder :=
  ((box.streams.get? sender).getD {}).decoder

/-- Between frames, all bytes are taken up. -/
def Settled (box : Inbox) : Prop :=
  ∀ sender, ∃ d : Decoder, (box.streams.get? sender).getD {} = ⟨d, []⟩ ∧ d.Reachable

theorem dispatches_receiveAll (size : Nat) (frames : List (NodeId × Bytes)) :
    ∀ {box : Inbox}, box.Settled →
      Dispatches size box.decoderOf frames (box.receiveAll size frames).2 := by
  induction frames with
  | nil => exact fun _ => .nil _
  | cons f frames ih =>
    obtain ⟨sender, frame⟩ := f
    intro box hbox
    obtain ⟨d, hstream, hd⟩ := hbox sender
    obtain ⟨d', ms, hfeed, hd', hr⟩ := reads_chunks size frame hd
    have hreceive : box.receive size sender frame =
        (⟨box.streams.insert sender ⟨d', []⟩⟩, ms) := by
      simp only [receive, hstream, hfeed]
    have hget (n : NodeId) : ((box.streams.insert sender ⟨d', []⟩).get? n).getD {} =
        if n = sender then ⟨d', []⟩ else (box.streams.get? n).getD {} := by
      rw [SortedMap.get?_insert_ite]
      split
      next => rfl
      next => rfl
    have hsettled : Settled ⟨box.streams.insert sender ⟨d', []⟩⟩ := by
      intro n
      rw [hget]
      split
      next => exact ⟨d', rfl, hd'⟩
      next => exact hbox n
    have hdecoders : decoderOf ⟨box.streams.insert sender ⟨d', []⟩⟩ =
        advance box.decoderOf sender d' := by
      funext n
      rw [decoderOf, hget, advance]
      split
      next => rfl
      next => rfl
    have hsender : box.decoderOf sender = d := congrArg Stream.decoder hstream
    have hs := ih hsettled
    rw [hdecoders] at hs
    rw [receiveAll, hreceive]
    exact .frame (hsender ▸ hr) hs

def bytesFrom (sender : NodeId) (frames : List (NodeId × Bytes)) : Bytes :=
  frames.flatMap fun f => if f.1 = sender then f.2 else []

def messagesFrom (sender : NodeId) (out : List (NodeId × Message)) : List Message :=
  (out.filter (·.1 = sender)).map (·.2)

theorem filter_tagged (p : NodeId → Bool) (sender : NodeId) (ms : List Message) :
    (ms.map (sender, ·)).filter (fun m => p m.1) =
      if p sender = true then ms.map (sender, ·) else [] := by
  split
  next h => exact List.filter_eq_self.2 (by simp [h])
  next h => exact List.filter_eq_nil_iff.2 (by simp [h])

theorem messagesFrom_append (sender sender' : NodeId) (ms : List Message)
    (out : List (NodeId × Message)) : messagesFrom sender (ms.map (sender', ·) ++ out) =
      (if sender' = sender then ms else []) ++ messagesFrom sender out := by
  unfold messagesFrom
  rw [List.filter_append, filter_tagged fun n => n = sender, List.map_append]
  congr 1
  simp only [decide_eq_true_eq]
  split
  next => rw [List.map_map]; exact List.map_id ms
  next => rfl

theorem bytesFrom_cons (sender sender' : NodeId) (frame : Bytes)
    (frames : List (NodeId × Bytes)) : bytesFrom sender ((sender', frame) :: frames) =
      (if sender' = sender then frame else []) ++ bytesFrom sender frames := rfl

/-- The messages of a sender begin with those before the first error in its bytes, and end there if
there is no error. -/
theorem Dispatches.prefix_messagesFrom {ds : NodeId → Decoder} {frames : List (NodeId × Bytes)}
    {out : List (NodeId × Message)} (h : Dispatches size ds frames out) {sender : NodeId}
    (hd : (ds sender).Live) :
    ((ds sender).drain (bytesFrom sender frames)).messages <+: messagesFrom sender out ∧
      (((ds sender).drain (bytesFrom sender frames)).error = none →
        messagesFrom sender out = ((ds sender).drain (bytesFrom sender frames)).messages) := by
  induction h with
  | nil ds =>
    have hnil : (ds sender).drain [] = ⟨ds sender, [], none, []⟩ :=
      Decoder.drain_of_paused (Decoder.next_nil hd)
    simp [bytesFrom, messagesFrom, hnil]
  | @frame ds sender' frame d ms frames out h _ ih =>
    rw [bytesFrom_cons, messagesFrom_append]
    by_cases hs : sender' = sender
    · subst hs
      simp only [advance, if_true] at ih ⊢
      cases h with
      | whole hw =>
        obtain ⟨hpre, heq⟩ := ih (Decoder.drain_live hd frame hw).1
        rw [Decoder.drain_append_of_whole hd hw]
        exact ⟨(List.prefix_append_right_inj _).2 hpre, fun he => by rw [heq he]⟩
      | broken he hrest =>
        rw [Decoder.drain_append_of_broken hd he, List.append_assoc]
        exact ⟨List.prefix_append _ _, fun hnone => absurd hnone he⟩
    · simp only [advance, if_neg hs, if_neg (Ne.symm hs), List.nil_append] at ih ⊢
      exact ih hd

theorem Reads.eq_of_whole (h : Reads size d frame d' ms) (he : (d.drain frame).error = none) :
    d' = (d.drain frame).decoder ∧ ms = (d.drain frame).messages := by
  cases h with
  | whole => exact ⟨rfl, rfl⟩
  | broken hne => exact absurd he hne

/-- The messages of senders in whose bytes there is no error are the same, in the same order, in all
chunks. -/
theorem Dispatches.filter_eq {p : NodeId → Bool} {ds ds' : NodeId → Decoder}
    {frames : List (NodeId × Bytes)} {out out' : List (NodeId × Message)}
    (h : Dispatches size ds frames out) (h' : Dispatches size' ds' frames out')
    (hds : ∀ n, p n = true → ds n = ds' n) (hd : ∀ n, p n = true → (ds n).Live)
    (he : ∀ n, p n = true → ((ds n).drain (bytesFrom n frames)).error = none) :
    out.filter (fun m => p m.1) = out'.filter (fun m => p m.1) := by
  induction h generalizing ds' out' with
  | nil =>
    cases h'
    rfl
  | @frame ds sender frame d ms frames out h _ ih =>
    cases h' with
    | @frame _ _ _ d' ms' _ out' h' hs' =>
      have hother {n : NodeId} (hp : p n = true) (hn : n ≠ sender) :
          ((ds n).drain (bytesFrom n frames)).error = none := by
        have hn' := he n hp
        rwa [bytesFrom_cons, if_neg hn.symm, List.nil_append] at hn'
      rw [List.filter_append, List.filter_append, filter_tagged, filter_tagged]
      cases hsender : p sender with
      | false =>
        have hne {n : NodeId} (hp : p n = true) : n ≠ sender := by
          rintro rfl
          cases hsender.symm.trans hp
        refine congrArg ([] ++ ·) (ih hs' (fun n hp => ?_) (fun n hp => ?_) fun n hp => ?_)
        · simp only [advance, if_neg (hne hp), hds n hp]
        · simp only [advance, if_neg (hne hp), hd n hp]
        · simp only [advance, if_neg (hne hp), hother hp (hne hp)]
      | true =>
        have hlive := hd sender hsender
        have herr := he sender hsender
        rw [bytesFrom_cons, if_pos rfl] at herr
        have hw : ((ds sender).drain frame).error = none := by
          refine Decidable.byContradiction fun hne => ?_
          rw [Decoder.drain_append_of_broken hlive hne] at herr
          exact hne herr
        rw [Decoder.drain_append_of_whole hlive hw] at herr
        rw [← hds sender hsender] at h'
        obtain ⟨rfl, rfl⟩ := h.eq_of_whole hw
        obtain ⟨rfl, rfl⟩ := h'.eq_of_whole hw
        refine congrArg (_ ++ ·) (ih hs' (fun n hp => ?_) (fun n hp => ?_) fun n hp => ?_)
        · simp only [advance, hds n hp]
        · unfold advance
          split
          next => exact (Decoder.drain_live hlive frame hw).1
          next => exact hd n hp
        · unfold advance
          split
          next hn => exact hn ▸ herr
          next hn => exact hother hp hn

/-- There is no error in the bytes of a sender. -/
def readable (frames : List (NodeId × Bytes)) (sender : NodeId) : Bool :=
  (Decoder.drain {} (bytesFrom sender frames)).error.isNone

/-- What comes in, on an inbox that is empty before.  The messages of a sender begin with those
before the first error in its bytes.  Those of the senders without an error are the same, in the same
order, in all chunks. -/
theorem receiveAll_spec (frames : List (NodeId × Bytes)) :
    (∀ size, Dispatches size (fun _ => {}) frames (receiveAll size {} frames).2) ∧
      (∀ size sender,
        (Decoder.drain {} (bytesFrom sender frames)).messages <+:
            messagesFrom sender (receiveAll size {} frames).2 ∧
          (readable frames sender = true → messagesFrom sender (receiveAll size {} frames).2 =
            (Decoder.drain {} (bytesFrom sender frames)).messages)) ∧
      ∀ size size', (receiveAll size {} frames).2.filter (fun m => readable frames m.1) =
        (receiveAll size' {} frames).2.filter (fun m => readable frames m.1) := by
  have hempty : Settled {} := fun sender => ⟨{}, rfl, .fresh⟩
  have hspec (size : Nat) : Dispatches size (fun _ => {}) frames (receiveAll size {} frames).2 :=
    dispatches_receiveAll size frames hempty
  refine ⟨hspec, fun size sender => ?_, fun size size' => ?_⟩
  · obtain ⟨hpre, heq⟩ := (hspec size).prefix_messagesFrom Decoder.live_fresh
    exact ⟨hpre, fun hr => heq (Option.isNone_iff_eq_none.1 hr)⟩
  · exact (hspec size).filter_eq (hspec size') (fun _ _ => rfl) (fun _ _ => Decoder.live_fresh)
      fun n hn => Option.isNone_iff_eq_none.1 hn

/-- Bytes that announce no kind of message there is, and a message behind them. -/
def garbled : Bytes := [99, 1] ++ (Message.checkRequest ⟨⟨0, 0, 7⟩, none⟩).encode

/-- In chunks of two bytes the message is read, in a single chunk it is skipped. -/
theorem message_skipped : ¬ ∀ (frames : List (NodeId × Bytes)) (size size' : Nat),
    (receiveAll size {} frames).2 = (receiveAll size' {} frames).2 := by
  intro h
  have htwo : (receiveAll 2 {} [(⟨1⟩, garbled)]).2.length = 1 := by decide +kernel
  have hall : (receiveAll 64 {} [(⟨1⟩, garbled)]).2.length = 0 := by decide +kernel
  rw [h [(⟨1⟩, garbled)] 2 64, hall] at htwo
  cases htwo

end Inbox

end AtomicGrid
