/-!
# Flags of messages

Flags travel as the bits of one byte.  Bits without a meaning are dropped on reading.

## Results

* `ofBits_bits` of each kind of flags: flags read back.
-/

set_option autoImplicit false

namespace AtomicGrid

/-- The byte with the bits of `mask`, or none. -/
def flagBit (b : Bool) (mask : UInt8) : UInt8 := if b then mask else 0

structure RequestFlags where
  /-- Issued while the topology is locked, so it must not be mapped again. -/
  topologyLocked : Bool := false
  /-- The previous value is wanted. -/
  returnValue : Bool := false
  /-- Do not write through to the persistent store. -/
  skipStore : Bool := false
  /-- Keep values in binary form. -/
  keepBinary : Bool := false
  /-- Issued by a client. -/
  clientRequest : Bool := false
  deriving DecidableEq, Repr, Inhabited

namespace RequestFlags

def bits (f : RequestFlags) : UInt8 :=
  flagBit f.topologyLocked 1 ||| flagBit f.returnValue 2 ||| flagBit f.skipStore 4 |||
    flagBit f.keepBinary 8 ||| flagBit f.clientRequest 16

/-- The flags of a byte. -/
def ofBits (b : UInt8) : RequestFlags where
  topologyLocked := b &&& 1 ≠ 0
  returnValue := b &&& 2 ≠ 0
  skipStore := b &&& 4 ≠ 0
  keepBinary := b &&& 8 ≠ 0
  clientRequest := b &&& 16 ≠ 0

@[simp] theorem ofBits_bits (f : RequestFlags) : ofBits f.bits = f := by
  obtain ⟨a, b, c, d, e⟩ := f
  revert a b c d e
  decide

end RequestFlags

structure BackupFlags where
  /-- The backup must tell the caller's node itself. -/
  nearReply : Bool := false
  /-- The primary's result comes along. -/
  hasResult : Bool := false
  /-- The success flag of that result. -/
  resultSuccess : Bool := false
  /-- Keep values in binary form. -/
  keepBinary : Bool := false
  /-- Do not write through to the persistent store. -/
  skipStore : Bool := false
  deriving DecidableEq, Repr, Inhabited

namespace BackupFlags

def bits (f : BackupFlags) : UInt8 :=
  flagBit f.nearReply 1 ||| flagBit f.hasResult 2 ||| flagBit f.resultSuccess 4 |||
    flagBit f.keepBinary 8 ||| flagBit f.skipStore 16

def ofBits (b : UInt8) : BackupFlags where
  nearReply := b &&& 1 ≠ 0
  hasResult := b &&& 2 ≠ 0
  resultSuccess := b &&& 4 ≠ 0
  keepBinary := b &&& 8 ≠ 0
  skipStore := b &&& 16 ≠ 0

@[simp] theorem ofBits_bits (f : BackupFlags) : ofBits f.bits = f := by
  obtain ⟨a, b, c, d, e⟩ := f
  revert a b c d e
  decide

end BackupFlags

/-- Flags of a backup notice (`NearResponseFlags`). -/
structure NoticeFlags where
  /-- The primary's result comes along. -/
  hasResult : Bool := false
  /-- The success flag of that result. -/
  resultSuccess : Bool := false
  deriving DecidableEq, Repr, Inhabited

namespace NoticeFlags

def bits (f : NoticeFlags) : UInt8 := flagBit f.hasResult 1 ||| flagBit f.resultSuccess 2

def ofBits (b : UInt8) : NoticeFlags where
  hasResult := b &&& 1 ≠ 0
  resultSuccess := b &&& 2 ≠ 0

@[simp] theorem ofBits_bits (f : NoticeFlags) : ofBits f.bits = f := by
  obtain ⟨a, b⟩ := f
  revert a b
  decide

end NoticeFlags

end AtomicGrid
