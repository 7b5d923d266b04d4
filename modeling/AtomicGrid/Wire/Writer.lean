import AtomicGrid.Wire.Field

/-!
# Writing in pieces

Model of `MessageWriter`.  A `Writer` remembers the number of the field in progress and the bytes of
it that did not fit, so that writing goes on in the next buffer where it stopped in the last.  A
field is turned into bytes once: when it is resumed, what is left of it is written, whatever is
passed the second time.
-/

set_option autoImplicit false

namespace AtomicGrid.Wire

/-- The position in a message that is being written. -/
structure Writer where
  /-- The number of the field in progress. -/
  field : Nat := 0
  headerWritten : Bool := false
  /-- What is left of a field that did not fit. -/
  pending : Option Bytes := none
  deriving DecidableEq, Repr, Inhabited

/-- The room in a buffer; without a number there is no end to it. -/
abbrev Room := Option Nat

namespace Room

/-- What fits and what does not. -/
def cut : Room → Bytes → Bytes × Bytes
  | none, bs => (bs, [])
  | some n, bs => (bs.take n, bs.drop n)

/-- The room behind what was written. -/
def less (room : Room) (written : Bytes) : Room := room.map (· - written.length)

end Room

namespace Writer

def advance (w : Writer) : Writer := { w with field := w.field + 1 }

/-- Writes as much of a field as there is room for: the bytes written, and whether it is done. -/
def put (w : Writer) (room : Room) (data : Bytes) : Writer × Bytes × Bool :=
  let (out, left) := room.cut (w.pending.getD data)
  ({ w with pending := if left = [] then none else some left }, out, left = [])

/-- Writes the kind of a message and the number of its fields, unless they are written. -/
def putHeader (w : Writer) (room : Room) (kind count : UInt8) : Writer × Bytes × Bool :=
  if w.headerWritten then (w, [], true)
  else
    let (w, out, done) := w.put room [kind, count]
    ({ w with headerWritten := done }, out, done)

/-- Writes fields one after the other as far as there is room. -/
def putFields (w : Writer) (room : Room) : List Bytes → Writer × Bytes × Bool
  | [] => (w, [], true)
  | f :: fs =>
    let (w, out, done) := w.put room f
    if done then
      let (w, more, done) := putFields w.advance (room.less out) fs
      (w, out ++ more, done)
    else (w, out, false)

end Writer

end AtomicGrid.Wire
