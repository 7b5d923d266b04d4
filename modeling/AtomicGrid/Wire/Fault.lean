import AtomicGrid.Bytes.Utf8

/-!
# Faults of wire data

A `Fault` says what is wrong with the bytes of one value, a `WireError` where in a message it is.
-/

set_option autoImplicit false

namespace AtomicGrid.Wire

/-- What is wrong with the bytes of a value. -/
inductive Fault where
  /-- Fewer bytes are left than the value takes. -/
  | short (needed left : Nat)
  /-- The tag names no case of what is read. -/
  | unknownTag (what : String) (tag : UInt8)
  /-- The tag names no shape of a payload. -/
  | unknownShape (tag : UInt8)
  /-- The text is no UTF-8. -/
  | text (fault : Utf8.Fault)
  /-- The value is not there. -/
  | absent
  /-- Bytes are left behind the value. -/
  | trailing
  /-- The byte stands for no value. -/
  | unknownCode (code : UInt8)
  deriving DecidableEq, Repr

namespace Fault

def message : Fault → String
  | .short needed left => s!"need {needed} bytes, have {left}"
  | .unknownTag what tag => s!"unknown {what} tag {tag.toNat}"
  | .unknownShape tag => s!"unknown payload shape {tag.toNat}"
  | .text fault => s!"invalid utf-8: {fault.message}"
  | .absent => "absent composite field"
  | .trailing => "trailing bytes"
  | .unknownCode code => s!"{code.toNat}"

/-- What the fault is said to be in, where no field is known. -/
def place : Fault → String
  | .unknownShape _ => "payload"
  | _ => "blob"

end Fault

/-- What is wrong with a message. -/
inductive WireError where
  /-- No message has this kind. -/
  | unknownKind (code : UInt8)
  /-- A field cannot be read. -/
  | malformed (field : String) (fault : Fault)
  /-- The header announces another number of fields than the kind has. -/
  | fieldCount (declared expected : UInt8)
  deriving DecidableEq, Repr

def WireError.message : WireError → String
  | .unknownKind code => s!"unknown message kind: {code.toNat}"
  | .malformed field fault => s!"malformed field {field}: {fault.message}"
  | .fieldCount declared expected =>
    s!"message header declares {declared.toNat} fields, expected {expected.toNat}"

end AtomicGrid.Wire
