import AtomicGrid.Bytes

/-!
# Text as UTF-8

`encode` gives the UTF-8 bytes of a text, `decode` reads them back.  On bytes that are no UTF-8,
`decode` says where the first ill-formed sequence starts and how many of its bytes could still
have begun a character.

## Results

* `decode_encode`: every text reads back.
* `eq_encode_of_decode`: only the bytes of a text are read as that text.
-/

set_option autoImplicit false

namespace AtomicGrid.Utf8

/-- Why bytes are no UTF-8. -/
inductive Fault where
  /-- The `length` bytes from `index` begin a character that the next byte cannot continue. -/
  | invalid (length index : Nat)
  /-- The bytes end inside the character that starts at `index`. -/
  | incomplete (index : Nat)
  deriving DecidableEq, Repr

def Fault.message : Fault → String
  | .invalid length index => s!"invalid utf-8 sequence of {length} bytes from index {index}"
  | .incomplete index => s!"incomplete utf-8 byte sequence from index {index}"

/-- The ranges in which the bytes after a character's first byte lie, if it can be a first byte. -/
def continuation (b : UInt8) : Option (List (UInt8 × UInt8)) :=
  if b < 0x80 then some []
  else if 0xC2 ≤ b ∧ b ≤ 0xDF then some [(0x80, 0xBF)]
  else if b = 0xE0 then some [(0xA0, 0xBF), (0x80, 0xBF)]
  else if b = 0xED then some [(0x80, 0x9F), (0x80, 0xBF)]
  else if 0xE1 ≤ b ∧ b ≤ 0xEF then some [(0x80, 0xBF), (0x80, 0xBF)]
  else if b = 0xF0 then some [(0x90, 0xBF), (0x80, 0xBF), (0x80, 0xBF)]
  else if b = 0xF4 then some [(0x80, 0x8F), (0x80, 0xBF), (0x80, 0xBF)]
  else if 0xF1 ≤ b ∧ b ≤ 0xF3 then some [(0x80, 0xBF), (0x80, 0xBF), (0x80, 0xBF)]
  else none

/-- Compares bytes with the ranges they should lie in: how many fit, and whether the first that
does not fit is there at all. -/
def follow : List (UInt8 × UInt8) → Bytes → Nat → Option (Nat × Bool)
  | [], _, _ => none
  | _ :: _, [], n => some (n, false)
  | (low, high) :: ranges, b :: bs, n =>
    if low ≤ b ∧ b ≤ high then follow ranges bs (n + 1) else some (n, true)

/-- The first fault of `bs`, whose first byte stands at `index`. -/
def fault? (index : Nat) : Bytes → Option Fault
  | [] => none
  | b :: bs =>
    match continuation b with
    | none => some (.invalid 1 index)
    | some ranges =>
      match follow ranges bs 0 with
      | some (_, false) => some (.incomplete index)
      | some (n, true) => some (.invalid (n + 1) index)
      | none => fault? (index + 1 + ranges.length) (bs.drop ranges.length)
  termination_by bs => bs.length
  decreasing_by simp only [List.length_drop, List.length_cons]; omega

def encode (s : String) : Bytes := s.toByteArray.data.toList

/-- The text of which `bs` are the bytes. -/
def decode (bs : Bytes) : Except Fault String :=
  match String.fromUTF8? ⟨bs.toArray⟩ with
  | some s => .ok s
  | none => .error ((fault? 0 bs).getD (.invalid 1 0))

theorem decode_encode (s : String) : decode (encode s) = .ok s := by
  have : String.fromUTF8? ⟨(encode s).toArray⟩ = some s := by
    simp only [encode, String.fromUTF8?, String.fromUTF8, Array.toArray_toList]
    exact dif_pos s.isValidUTF8
  rw [decode, this]

theorem eq_encode_of_decode {bs : Bytes} {s : String} (h : decode bs = .ok s) : bs = encode s := by
  unfold decode at h
  split at h
  next t ht =>
    obtain rfl : t = s := by simpa using h
    unfold String.fromUTF8? at ht
    split at ht
    · obtain rfl := Option.some.inj ht
      simp [encode, String.fromUTF8]
    · simp at ht
  next => simp at h

end AtomicGrid.Utf8
