/-!
# Byte strings

Keys, values and wire data are lists of bytes.  Numbers travel big endian: the most significant
byte comes first.

## Results

* `toNat_ofNat`: a number that `w` bytes hold survives being written in `w` bytes.
* `length_ofNat`: a number written in `w` bytes takes exactly `w`.
-/

set_option autoImplicit false

namespace AtomicGrid

abbrev Bytes := List UInt8

namespace Bytes

/-- The last `w` base-256 digits of `n`, most significant first. -/
def ofNat : Nat → Nat → Bytes
  | 0, _ => []
  | w + 1, n => ofNat w (n / 256) ++ [UInt8.ofNat n]

/-- The number whose base-256 digits are the given bytes, most significant first. -/
def toNat (bs : Bytes) : Nat := bs.foldl (fun n b => n * 256 + b.toNat) 0

@[simp] theorem length_ofNat (w n : Nat) : (ofNat w n).length = w := by
  induction w generalizing n with
  | zero => rfl
  | succ w ih => simp [ofNat, ih]

@[simp] theorem toNat_append_singleton (bs : Bytes) (b : UInt8) :
    toNat (bs ++ [b]) = toNat bs * 256 + b.toNat := by
  simp [toNat]

theorem toNat_ofNat {w n : Nat} (h : n < Nat.pow 256 w) : toNat (ofNat w n) = n := by
  induction w generalizing n with
  | zero => rw [Nat.lt_one_iff.1 h]; rfl
  | succ w ih =>
    have : n / 256 < Nat.pow 256 w := Nat.div_lt_of_lt_mul (Nat.mul_comm _ 256 ▸ h)
    have hb : (UInt8.ofNat n).toNat = n % 256 := by simp
    rw [ofNat, toNat_append_singleton, ih this, hb]
    omega

/-- A 32-bit word, big endian. -/
def ofUInt32 (n : UInt32) : Bytes := ofNat 4 n.toNat

/-- A 64-bit word, big endian. -/
def ofUInt64 (n : UInt64) : Bytes := ofNat 8 n.toNat

/-- The low 32 bits of a big-endian number. -/
def toUInt32 (bs : Bytes) : UInt32 := UInt32.ofNat bs.toNat

/-- The low 64 bits of a big-endian number. -/
def toUInt64 (bs : Bytes) : UInt64 := UInt64.ofNat bs.toNat

@[simp] theorem toUInt32_ofUInt32 (n : UInt32) : toUInt32 (ofUInt32 n) = n := by
  rw [toUInt32, ofUInt32, toNat_ofNat (Nat.lt_of_lt_of_le n.toNat_lt (by decide))]
  simp

@[simp] theorem toUInt64_ofUInt64 (n : UInt64) : toUInt64 (ofUInt64 n) = n := by
  rw [toUInt64, ofUInt64, toNat_ofNat (Nat.lt_of_lt_of_le n.toNat_lt (by decide))]
  simp

end Bytes

end AtomicGrid
