import AtomicGrid.Bytes

/-!
# Bytes as hexadecimal digits

Two lower-case digits stand for one byte.

## Results

* `Bytes.ofHex_hex`: what was written is read back.
-/

set_option autoImplicit false

namespace AtomicGrid.Bytes

/-- The two digits of a byte. -/
def hexDigits (b : UInt8) : List Char :=
  [Nat.digitChar (b.toNat / 16), Nat.digitChar (b.toNat % 16)]

/-- The value of a lower-case digit; anything else counts as zero. -/
def hexValue (c : Char) : Nat :=
  if '0' ≤ c ∧ c ≤ '9' then c.toNat - 48 else if 'a' ≤ c ∧ c ≤ 'f' then c.toNat - 87 else 0

def hexChars (bs : Bytes) : List Char := bs.flatMap hexDigits

/-- The bytes of pairs of digits; a digit without a partner is dropped. -/
def ofHexChars : List Char → Bytes
  | a :: b :: rest => UInt8.ofNat (hexValue a * 16 + hexValue b) :: ofHexChars rest
  | _ => []

/-- A byte string as text. -/
def hex (bs : Bytes) : String := String.ofList (hexChars bs)

/-- The byte string of a text. -/
def ofHex (s : String) : Bytes := ofHexChars s.toList

theorem hexValue_digitChar {n : Nat} (h : n < 16) : hexValue (Nat.digitChar n) = n := by
  revert n
  decide

theorem ofHexChars_hexChars (bs : Bytes) : ofHexChars (hexChars bs) = bs := by
  induction bs with
  | nil => rfl
  | cons b bs ih =>
    have hd : b.toNat / 16 < 16 := by have := b.toNat_lt; omega
    have hm : b.toNat % 16 < 16 := Nat.mod_lt _ (by decide)
    simp only [hexChars, hexDigits, List.flatMap_cons, List.cons_append, List.nil_append,
      ofHexChars, hexValue_digitChar hd, hexValue_digitChar hm, Nat.div_add_mod']
    rw [← hexChars, ih]
    simp

@[simp] theorem ofHex_hex (bs : Bytes) : ofHex (hex bs) = bs := by
  simp [ofHex, hex, ofHexChars_hexChars]

end AtomicGrid.Bytes
