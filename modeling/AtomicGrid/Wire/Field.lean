import AtomicGrid.Version
import AtomicGrid.Wire.Codec

/-!
# Message fields

A field is a word, a topology version or a byte string that may be absent.  Words have their width,
a topology version has twelve bytes, and a byte string carries its length in front; the greatest
length stands for an absent one.
-/

set_option autoImplicit false

namespace AtomicGrid.Wire

/-- What a field looks like on the wire. -/
inductive Shape where
  | word8
  | word32
  | word64
  | topology
  | bytes
  deriving DecidableEq, Repr

namespace Shape

/-- What a field of the shape holds. -/
@[reducible] def Value : Shape → Type
  | .word8 => UInt8
  | .word32 => UInt32
  | .word64 => UInt64
  | .topology => TopologyVersion
  | .bytes => Option Bytes

/-- The length that stands for an absent byte string. -/
def absentLength : UInt32 := 0xFFFFFFFF

/-- The bytes of a field. -/
def encode : (s : Shape) → s.Value → Bytes
  | .word8, (b : UInt8) => [b]
  | .word32, (n : UInt32) => Bytes.ofUInt32 n
  | .word64, (n : UInt64) => Bytes.ofUInt64 n
  | .topology, (v : TopologyVersion) => Bytes.ofUInt64 v.major ++ Bytes.ofUInt32 v.minor
  | .bytes, (none : Option Bytes) => Bytes.ofUInt32 absentLength
  | .bytes, (some bs : Option Bytes) => Bytes.ofUInt32 (UInt32.ofNat bs.length) ++ bs

end Shape

end AtomicGrid.Wire
