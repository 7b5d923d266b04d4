import AtomicGrid.Wire.Field

/-!
# Reading in pieces

Model of `MessageReader`.  A `Reader` remembers the number of the field in progress, the bytes of it
that have come so far and, for a byte string, the length it announced, so that reading goes on with
the next buffer where it stopped in the last.
-/

set_option autoImplicit false

namespace AtomicGrid.Wire

/-- The position in a message that is being read. -/
structure Reader where
  /-- The number of the field in progress. -/
  field : Nat := 0
  /-- The bytes of the field that have come so far. -/
  scratch : Bytes := []
  /-- The length of the byte string in progress, once it is known. -/
  expected : Option Nat := none
  deriving DecidableEq, Repr, Inhabited

namespace Reader

def advance (r : Reader) : Reader := { r with field := r.field + 1 }

/-- Collects the `n` bytes of a part of a field: the bytes left over, and the part if it is
complete. -/
def collect (r : Reader) (n : Nat) (input : Bytes) : Reader × Bytes × Option Bytes :=
  let missing := n - r.scratch.length
  let have' := r.scratch ++ input.take missing
  if have'.length = n then ({ r with scratch := [] }, input.drop missing, some have')
  else ({ r with scratch := have' }, input.drop missing, none)

/-- Reads a word of `n` bytes. -/
def word {α : Type} (r : Reader) (n : Nat) (read : Bytes → α) (input : Bytes) :
    Reader × Bytes × Option α :=
  let (r, rest, part) := r.collect n input
  (r, rest, part.map read)

/-- Reads the content of a byte string of known length. -/
def content (r : Reader) (n : Nat) (input : Bytes) : Reader × Bytes × Option (Option Bytes) :=
  match r.collect n input with
  | (r, rest, some bs) => ({ r with expected := none }, rest, some (some bs))
  | (r, rest, none) => (r, rest, none)

/-- Reads a byte string: its length, unless that is known, and its content. -/
def bytes (r : Reader) (input : Bytes) : Reader × Bytes × Option (Option Bytes) :=
  match r.expected with
  | some n => r.content n input
  | none =>
    match r.word 4 Bytes.toUInt32 input with
    | (r, rest, some n) =>
      if n = Shape.absentLength then (r, rest, some none)
      else { r with expected := some n.toNat }.content n.toNat rest
    | (r, rest, none) => (r, rest, none)

/-- Reads a field: the bytes left over, and the field if it is complete. -/
def read (r : Reader) : (s : Shape) → Bytes → Reader × Bytes × Option s.Value
  | .word8, input => r.word 1 (·.headD 0) input
  | .word32, input => r.word 4 Bytes.toUInt32 input
  | .word64, input => r.word 8 Bytes.toUInt64 input
  | .topology, input =>
    r.word 12
      (fun bs => TopologyVersion.mk (Bytes.toUInt64 (bs.take 8)) (Bytes.toUInt32 (bs.drop 8))) input
  | .bytes, input => r.bytes input

/-- Reads the kind of a message and the number of its fields. -/
def header (r : Reader) (input : Bytes) : Reader × Bytes × Option (UInt8 × UInt8) :=
  r.word 2 (fun bs => (bs.headD 0, bs.tail.headD 0)) input

end Reader

/-- The value of a field that holds a composite value. -/
def decodeField {α : Type} (c : Codec α) (field : String) : Option Bytes → Except WireError α
  | none => .error (.malformed field .absent)
  | some bs =>
    match c.decodeAll bs with
    | .ok a => .ok a
    | .error f => .error (.malformed field f)

end AtomicGrid.Wire
