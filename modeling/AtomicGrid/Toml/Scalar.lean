import AtomicGrid.Toml.Text
import AtomicGrid.Toml.Tree

/-!
# Numbers, moments and flags

A scalar without quotes is a token: what stands before the next blank, line end, comma, closing
bracket or comment.  Only a date and a time may have a space between them.

* Digits may be divided by single underscores.
* A decimal integer has no leading zero; other bases have no sign.  Integers have 64 bits.
* A float has a fraction, an exponent or both, and is not too large for a double.
* A moment is a date, a time, or both, which then may have an offset.

## Results

* `digits?_ne_nil`: a number has a digit.
-/

set_option autoImplicit false

namespace AtomicGrid.Toml

/-! ## Digits -/

/-- The value of a digit of a base up to sixteen. -/
def digit? (base : Nat) (c : Char) : Option Nat := (hexDigit? c).filter (· < base)

/-- The values of digits, between which single underscores may stand. -/
def digits? (base : Nat) : List Char → Option (List Nat)
  | [] => none
  | [c] => (digit? base c).map fun d => [d]
  | c :: '_' :: rest => (digit? base c).bind fun d => (digits? base rest).map (d :: ·)
  | c :: c' :: rest => (digit? base c).bind fun d => (digits? base (c' :: rest)).map (d :: ·)

theorem digits?_ne_nil {base : Nat} {s : List Char} {ds : List Nat} (h : digits? base s = some ds) :
    ds ≠ [] := by
  cases s with
  | nil => cases h
  | cons c s =>
    unfold digits? at h
    split at h <;> simp_all [Option.bind_eq_some_iff] <;> grind

/-- The number that digits stand for. -/
def ofDigits (base : Nat) (ds : List Nat) : Nat := ds.foldl (fun n d => n * base + d) 0

/-- Takes a sign away, and says whether it is a minus. -/
def unsigned : List Char → Bool × List Char
  | '-' :: rest => (true, rest)
  | '+' :: rest => (false, rest)
  | s => (false, s)

/-- The digits of a whole number without leading zeros. -/
def whole? (s : List Char) : Option (List Nat) :=
  (digits? 10 s).filter fun ds => ds.length = 1 || ds.head? ≠ some 0

/-! ## Integers -/

/-- The number, if 64 bits hold it. -/
def word? (n : Int) : Option Int :=
  if Int64.minValue.toInt ≤ n ∧ n ≤ Int64.maxValue.toInt then some n else none

def integer? (token : List Char) : Option Int :=
  let based (base : Nat) (s : List Char) := (digits? base s).map fun ds => (ofDigits base ds : Int)
  let n := match token with
    | '0' :: 'x' :: s => based 16 s
    | '0' :: 'o' :: s => based 8 s
    | '0' :: 'b' :: s => based 2 s
    | _ =>
      let (negative, s) := unsigned token
      (whole? s).map fun ds => if negative then -(ofDigits 10 ds : Int) else ofDigits 10 ds
  n.bind word?

/-! ## Floats -/

/-- Whether digits with a decimal exponent are a number so large that no finite double is nearest
to it: the least such number is halfway between the largest double and the next power of two. -/
def overflows (ds : List Nat) (exponent : Int) : Bool :=
  let ds := ds.dropWhile (· = 0)
  let limit := Nat.pow 2 1024 - Nat.pow 2 970
  let places := ds.length + exponent
  if ds.isEmpty || places < 309 then false
  else if 309 < places then true
  else limit * Nat.pow 10 (-exponent).toNat ≤ ofDigits 10 ds * Nat.pow 10 exponent.toNat

/-- The value of an exponent with its mark, zero for none. -/
def exponent? : List Char → Option Int
  | [] => some 0
  | c :: s =>
    if c = 'e' || c = 'E' then
      let (negative, s) := unsigned s
      (digits? 10 s).map fun ds => if negative then -(ofDigits 10 ds : Int) else ofDigits 10 ds
    else none

/-- Whether a token is a float. -/
def isFloat (token : List Char) : Bool :=
  let (negative, s) := unsigned token
  let inNumber (c : Char) : Bool := c.isDigit || c = '_'
  let finite (ds : List Nat) (exponent : Int) : Bool := negative || !overflows ds exponent
  if s = "inf".toList || s = "nan".toList then true
  else
    match whole? (s.takeWhile inNumber), s.dropWhile inNumber with
    | some ds, '.' :: rest =>
      match digits? 10 (rest.takeWhile inNumber), exponent? (rest.dropWhile inNumber) with
      | some fraction, some e => finite (ds ++ fraction) (e - fraction.length)
      | _, _ => false
    | some ds, e :: rest => (exponent? (e :: rest)).any (finite ds)
    | _, _ => false

/-! ## Moments -/

/-- A number of so many digits within bounds. -/
def bounded? (width low high : Nat) (s : List Char) : Read Nat :=
  let field := s.take width
  if field.length = width ∧ field.all Char.isDigit then
    let n := ofDigits 10 (field.map fun c => c.toNat - 48)
    if low ≤ n ∧ n ≤ high then some (n, s.drop width) else none
  else none

/-- What is left behind a mark. -/
def mark? (c : Char) : List Char → Option (List Char)
  | c' :: rest => if c' = c then some rest else none
  | [] => none

/-- The number of days of a month. -/
def daysIn (year month : Nat) : Nat :=
  let isLeap := year % 4 = 0 ∧ (year % 100 ≠ 0 ∨ year % 400 = 0)
  if month = 2 then if isLeap then 29 else 28
  else if month ∈ [4, 6, 9, 11] then 30
  else 31

/-- What is left behind a date. -/
def skipDate? (s : List Char) : Option (List Char) := do
  let (year, s) ← bounded? 4 0 9999 s
  let (month, s) ← bounded? 2 1 12 (← mark? '-' s)
  let (_, s) ← bounded? 2 1 (daysIn year month) (← mark? '-' s)
  return s

/-- What is left behind hours and minutes. -/
def skipMinute? (s : List Char) : Option (List Char) := do
  let (_, s) ← bounded? 2 0 23 s
  let (_, s) ← bounded? 2 0 59 (← mark? ':' s)
  return s

/-- What is left behind a time: hours, minutes, seconds, of which there may be one more for a leap
second, and a fraction, if there is one. -/
def skipTime? (s : List Char) : Option (List Char) := do
  let (_, s) ← bounded? 2 0 60 (← mark? ':' (← skipMinute? s))
  match s with
  | '.' :: c :: rest => if c.isDigit then some (rest.dropWhile Char.isDigit) else none
  | _ => some s

/-- Whether a token is a time with or without an offset. -/
def isOffsetTime (token : List Char) : Bool :=
  match skipTime? token with
  | some [] => true
  | some [c] => c = 'Z' || c = 'z'
  | some (c :: rest) => (c = '+' || c = '-') && skipMinute? rest = some []
  | none => false

def isDate (token : List Char) : Bool := skipDate? token = some []

/-- Whether a token is a moment. -/
def isMoment (token : List Char) : Bool :=
  match skipDate? token with
  | some [] => true
  | some (c :: rest) => (c = 'T' || c = 't') && isOffsetTime rest
  | none => skipTime? token = some []

/-! ## Tokens -/

/-- Whether a character ends a token. -/
def endsToken (c : Char) : Bool := isBlank c || c ∈ ['\n', '\r', ',', ']', '}', '#']

/-- Divides a token from what follows it. -/
def token (s : List Char) : List Char × List Char := s.span fun c => !endsToken c

/-- The scalar of a token. -/
def ofToken? (t : List Char) : Option Tree :=
  if t = "true".toList then some (.flag true)
  else if t = "false".toList then some (.flag false)
  else if isMoment t then some .moment
  else if isFloat t then some .float
  else (integer? t).map .integer

/-- A scalar without quotes.  A space and a time may follow a date. -/
def scalar? (s : List Char) : Read Tree :=
  let (t, rest) := token s
  match isDate t, rest with
  | true, ' ' :: more =>
    let (time, rest') := token more
    if time.isEmpty then some (.moment, rest)
    else if isOffsetTime time then some (.moment, rest')
    else none
  | _, _ => (ofToken? t).map fun v => (v, rest)

end AtomicGrid.Toml
