import AtomicGrid.NodeId
import AtomicGrid.Wire.Decoding

/-!
# The inbox of a node

Model of `run_inbox`.  Frames come in with their senders.  The frames of one sender are one stream of
bytes, which is read in small chunks; a stream that cannot be read loses the bytes of the chunk and
starts afresh, and the chunks that follow are read all the same.

## Results

* `Inbox.flatten_chunks`: chunks lose no byte.
-/

set_option autoImplicit false

namespace AtomicGrid

/-- The stream of one sender: the position in it, and the bytes not taken up yet. -/
structure Stream where
  decoder : Wire.Decoder := {}
  buffer : Bytes := []

/-- Reads on with one more chunk. -/
def Stream.feed (s : Stream) (chunk : Bytes) : Stream × List Message :=
  let b := s.decoder.drain (s.buffer ++ chunk)
  ({ decoder := b.decoder, buffer := if b.error.isSome then [] else b.rest }, b.messages)

def Stream.feedAll : Stream → List Bytes → Stream × List Message
  | s, [] => (s, [])
  | s, chunk :: rest =>
    let (s, first) := s.feed chunk
    let (s, more) := s.feedAll rest
    (s, first ++ more)

structure Inbox where
  streams : SortedMap NodeId Stream := ∅

namespace Inbox

/-- The pieces of `size` bytes, at least one, that make up a frame. -/
def chunks (size : Nat) (frame : Bytes) : List Bytes :=
  if frame = [] then []
  else frame.take (max size 1) :: chunks size (frame.drop (max size 1))
  termination_by frame.length
  decreasing_by
    rename_i h
    have := List.length_pos_iff.2 h
    simp only [List.length_drop]
    omega

/-- Reads a frame: the messages it completes, in order. -/
def receive (box : Inbox) (chunkSize : Nat) (sender : NodeId) (frame : Bytes) :
    Inbox × List Message :=
  let stream := (box.streams.get? sender).getD {}
  let (stream, messages) := stream.feedAll (chunks chunkSize frame)
  (⟨box.streams.insert sender stream⟩, messages)

theorem flatten_chunks (size : Nat) (frame : Bytes) : (chunks size frame).flatten = frame := by
  fun_induction chunks size frame with
  | case1 => rfl
  | case2 frame h ih => simp [ih]

end Inbox

end AtomicGrid
