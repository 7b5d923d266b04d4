import AtomicGrid.Bytes

/-!
# Seeded 64-bit hashing

The XXH64 function.  The input is read as little-endian 64-bit words and a rest of less than
eight bytes.  Words are taken four at a time by four parallel lanes, the words and bytes that
remain are mixed in one by one, and a last mixing spreads every bit over the whole result.
-/

set_option autoImplicit false

namespace AtomicGrid.Hash

/-- The multipliers of the mixing steps. -/
def prime1 : UInt64 := 0x9E3779B185EBCA87

@[inherit_doc prime1]
def prime2 : UInt64 := 0xC2B2AE3D27D4EB4F

@[inherit_doc prime1]
def prime3 : UInt64 := 0x165667B19E3779F9

@[inherit_doc prime1]
def prime4 : UInt64 := 0x85EBCA77C2B2AE63

@[inherit_doc prime1]
def prime5 : UInt64 := 0x27D4EB2F165667C5

/-- Rotation to the left by `n` bits, for `n` between 1 and 63. -/
def rotateLeft (x : UInt64) (n : UInt64) : UInt64 := (x <<< n) ||| (x >>> (64 - n))

/-- A little-endian number. -/
def littleEndian (bs : Bytes) : UInt64 := Bytes.toUInt64 bs.reverse

/-- The whole 64-bit words of the input and the bytes after them. -/
def words : Bytes → List UInt64 × Bytes
  | a :: b :: c :: d :: e :: f :: g :: h :: rest =>
    let (ws, tail) := words rest
    (littleEndian [a, b, c, d, e, f, g, h] :: ws, tail)
  | tail => ([], tail)

/-- Mixes a word into a lane. -/
def lane (acc word : UInt64) : UInt64 := rotateLeft (acc + word * prime2) 31 * prime1

/-- The four lanes after all groups of four words, and the words left over. -/
def lanes (a b c d : UInt64) : List UInt64 → (UInt64 × UInt64 × UInt64 × UInt64) × List UInt64
  | w :: x :: y :: z :: rest => lanes (lane a w) (lane b x) (lane c y) (lane d z) rest
  | rest => ((a, b, c, d), rest)

/-- Folds a lane into the result. -/
def mergeLane (h v : UInt64) : UInt64 := (h ^^^ lane 0 v) * prime1 + prime4

/-- The hash before the left-over words and bytes, and the words left over. -/
def start (seed : UInt64) (ws : List UInt64) : UInt64 × List UInt64 :=
  if ws.length < 4 then (seed + prime5, ws)
  else
    let ((a, b, c, d), rest) :=
      lanes (seed + prime1 + prime2) (seed + prime2) seed (seed - prime1) ws
    let h := rotateLeft a 1 + rotateLeft b 7 + rotateLeft c 12 + rotateLeft d 18
    (mergeLane (mergeLane (mergeLane (mergeLane h a) b) c) d, rest)

/-- Mixes a left-over word in. -/
def mixWord (h w : UInt64) : UInt64 := rotateLeft (h ^^^ lane 0 w) 27 * prime1 + prime4

/-- Mixes a left-over byte in. -/
def mixByte (h : UInt64) (b : UInt8) : UInt64 :=
  rotateLeft (h ^^^ (b.toUInt64 * prime5)) 11 * prime1

/-- Mixes the bytes after the last word in, four at once where there are four. -/
def mixTail (h : UInt64) : Bytes → UInt64
  | a :: b :: c :: d :: rest =>
    rest.foldl mixByte
      (rotateLeft (h ^^^ (littleEndian [a, b, c, d] * prime1)) 23 * prime2 + prime3)
  | rest => rest.foldl mixByte h

/-- Spreads every bit over the whole word. -/
def avalanche (h : UInt64) : UInt64 :=
  let h := (h ^^^ (h >>> 33)) * prime2
  let h := (h ^^^ (h >>> 29)) * prime3
  h ^^^ (h >>> 32)

/-- The hash of `bs` under `seed`. -/
def hash64 (seed : UInt64) (bs : Bytes) : UInt64 :=
  let (ws, tail) := words bs
  let (h, ws) := start seed ws
  avalanche (mixTail (ws.foldl mixWord (h + UInt64.ofNat bs.length)) tail)

end AtomicGrid.Hash
