import AtomicGrid.SortedMap
import AtomicGrid.Wire.Fault

/-!
# Codecs of composite values

A `Codec` is `BlobEncode` and `BlobDecode` of one type: it writes a value as bytes and reads one
back from the front of a byte string.  The format has few rules, one combinator each: words are big
endian, byte strings and texts carry their length in four bytes, lists their count in four bytes, a
choice between cases starts with a tag, and the parts of a record follow each other without anything
between.
-/

set_option autoImplicit false

namespace AtomicGrid.Wire

/-- A way to write values as bytes and to read them from the front of a byte string. -/
structure Codec (α : Type) where
  encode : α → Bytes
  decode : Bytes → Except Fault (α × Bytes)

/-- One case of a choice: its tag, the value that follows the tag, and how that value sits in the
whole type. -/
structure Case (α : Type) where
  tag : UInt8
  Body : Type
  codec : Codec Body
  inject : Body → α
  project : α → Option Body

namespace Codec

variable {α β γ : Type}

/-- The first `n` bytes and the rest, if there are that many. -/
def split (n : Nat) (bs : Bytes) : Except Fault (Bytes × Bytes) :=
  if bs.length < n then .error (.short n bs.length) else .ok (bs.take n, bs.drop n)

/-- Nothing at all. -/
def unit : Codec Unit where
  encode _ := []
  decode bs := .ok ((), bs)

/-- `n` bytes that stand for a value. -/
def fixed (n : Nat) (write : α → Bytes) (read : Bytes → α) : Codec α where
  encode := write
  decode bs :=
    match split n bs with
    | .ok (front, rest) => .ok (read front, rest)
    | .error f => .error f

def word8 : Codec UInt8 := fixed 1 (fun b => [b]) (fun bs => bs.headD 0)

def word32 : Codec UInt32 := fixed 4 Bytes.ofUInt32 Bytes.toUInt32

def word64 : Codec UInt64 := fixed 8 Bytes.ofUInt64 Bytes.toUInt64

/-- Reads a value through a function and writes it through another. -/
def imap (f : α → β) (g : β → α) (c : Codec α) : Codec β where
  encode b := c.encode (g b)
  decode bs :=
    match c.decode bs with
    | .ok (a, rest) => .ok (f a, rest)
    | .error e => .error e

/-- A byte that is zero for `false`; every other byte is read as `true`. -/
def bool : Codec Bool := word8.imap (· ≠ 0) (fun b => if b then 1 else 0)

/-- A signed word in two's complement. -/
def int64 : Codec Int64 := word64.imap UInt64.toInt64 Int64.toUInt64

/-- A byte string behind its length. -/
def bytes : Codec Bytes where
  encode bs := word32.encode (UInt32.ofNat bs.length) ++ bs
  decode bs :=
    match word32.decode bs with
    | .ok (n, rest) => split n.toNat rest
    | .error e => .error e

/-- A text as the byte string of its UTF-8. -/
def text : Codec String where
  encode s := bytes.encode (Utf8.encode s)
  decode bs :=
    match bytes.decode bs with
    | .ok (raw, rest) =>
      match Utf8.decode raw with
      | .ok s => .ok (s, rest)
      | .error f => .error (.text f)
    | .error e => .error e

/-- Two values, one after the other. -/
def pair (c : Codec α) (d : Codec β) : Codec (α × β) where
  encode p := c.encode p.1 ++ d.encode p.2
  decode bs :=
    match c.decode bs with
    | .ok (a, rest) =>
      match d.decode rest with
      | .ok (b, rest) => .ok ((a, b), rest)
      | .error e => .error e
    | .error e => .error e

/-- Reads `n` values, one after the other. -/
def decodeMany (c : Codec α) : Nat → Bytes → Except Fault (List α × Bytes)
  | 0, bs => .ok ([], bs)
  | n + 1, bs =>
    match c.decode bs with
    | .ok (a, rest) =>
      match decodeMany c n rest with
      | .ok (as, rest) => .ok (a :: as, rest)
      | .error e => .error e
    | .error e => .error e

/-- Values behind their count. -/
def list (c : Codec α) : Codec (List α) where
  encode as := word32.encode (UInt32.ofNat as.length) ++ as.flatMap c.encode
  decode bs :=
    match word32.decode bs with
    | .ok (n, rest) => decodeMany c n.toNat rest
    | .error e => .error e

/-- Writes a value by the first case that has it. -/
def encodeCase : List (Case α) → α → Bytes
  | [], _ => []
  | c :: cs, a =>
    match c.project a with
    | some b => c.tag :: c.codec.encode b
    | none => encodeCase cs a

/-- A tag and the value of the case it names; `unknown` is the fault of a tag that names none. -/
def choice (unknown : UInt8 → Fault) (cases : List (Case α)) : Codec α where
  encode := encodeCase cases
  decode bs :=
    match word8.decode bs with
    | .ok (tag, rest) =>
      match cases.find? (·.tag = tag) with
      | some c =>
        match c.codec.decode rest with
        | .ok (b, rest) => .ok (c.inject b, rest)
        | .error e => .error e
      | none => .error (unknown tag)
    | .error e => .error e

/-- A value that may be missing: tag 0 without it, tag 1 before it. -/
def option (c : Codec α) : Codec (Option α) :=
  choice (.unknownTag "option")
    [⟨0, Unit, unit, fun _ => none, fun o => if o.isNone then some () else none⟩,
      ⟨1, α, c, some, id⟩]

/-- A map as the list of its entries in key order.  On reading, a later entry replaces an earlier
one of the same key. -/
def sortedMap [Ord α] [Std.TransOrd α] (c : Codec α) (d : Codec β) : Codec (SortedMap α β) :=
  (list (c.pair d)).imap SortedMap.ofList SortedMap.entries

/-- Reads a value that takes up the whole byte string. -/
def decodeAll (c : Codec α) (bs : Bytes) : Except Fault α :=
  match c.decode bs with
  | .ok (a, []) => .ok a
  | .ok (_, _ :: _) => .error .trailing
  | .error e => .error e

end Codec

end AtomicGrid.Wire
