import AtomicGrid.Wire.Layout
import AtomicGrid.Wire.Writer

/-!
# Messages as bytes

Model of `MessageEncoder`.  A message is its kind, the number of its fields, and the fields one
after the other.  It is written as a whole (`encode_to_bytes`), or piece by piece into buffers of
any size.
-/

set_option autoImplicit false

namespace AtomicGrid

open Wire

/-- The bytes of each field. -/
def Message.fields (m : Message) : List Bytes :=
  (layout m.kind).map fun s => s.shape.encode (s.get m.body)

/-- The bytes of a message. -/
def Message.encode (m : Message) : Bytes :=
  m.kind.code :: fieldCount m.kind :: m.fields.flatten

/-- Writes as much of a message as there is room for, and says whether that completes it.  The
writer is then ready for the next message. -/
def Wire.Writer.message (w : Writer) (room : Room) (m : Message) : Writer × Bytes × Bool :=
  let (w, out, done) := w.putHeader room m.kind.code (fieldCount m.kind)
  if done then
    let (w, more, done) := w.putFields (room.less out) (m.fields.drop w.field)
    (if done then {} else w, out ++ more, done)
  else (w, out, false)

end AtomicGrid
