/-!
# Writing TOML text

A text is written in the plainest way that holds it: between quotes if nothing in it needs an
escape, else between apostrophes, else between triple quotes or triple apostrophes, and with escapes
only where no other way is left.  Text with line ends goes on lines of its own.

## Results

* `escape_eq_self`: what needs no escape is written as it is.
-/

set_option autoImplicit false

namespace AtomicGrid.Toml

/-- What encloses a text. -/
inductive Quoting where
  | quotes
  | apostrophes
  | tripleQuotes
  | tripleApostrophes
  deriving DecidableEq, Repr

/-- The opening mark, which is the closing mark as well. -/
def Quoting.mark : Quoting → List Char
  | .quotes => ['"']
  | .apostrophes => ['\'']
  | .tripleQuotes => ['"', '"', '"']
  | .tripleApostrophes => ['\'', '\'', '\'']

/-- Whether only an escape can say a character: all control characters but tabs and line feeds. -/
def needsEscape (c : Char) : Bool := c ≠ '\t' && c ≠ '\n' && (c.toNat < 0x20 || c.toNat = 0x7F)

/-- The length of the longest run of a character, of which so many have just been seen. -/
def longestRun (mark : Char) : Nat → List Char → Nat
  | seen, [] => seen
  | seen, c :: rest =>
    if c = mark then longestRun mark (seen + 1) rest else max seen (longestRun mark 0 rest)

/-- The way to write a text. -/
def quoting (s : List Char) : Quoting :=
  let quotes := longestRun '"' 0 s
  let apostrophes := longestRun '\'' 0 s
  let hasLines := s.contains '\n'
  let hasBackslash := s.contains '\\'
  if s.any needsEscape then if hasLines then .tripleQuotes else .quotes
  else if !hasBackslash && quotes = 0 && !hasLines then .quotes
  else if apostrophes = 0 && !hasLines then .apostrophes
  else if !hasBackslash && quotes ≤ 2 then .tripleQuotes
  else if apostrophes ≤ 2 then .tripleApostrophes
  else if hasLines then .tripleQuotes
  else .quotes

/-- Four hexadecimal digits. -/
def hex4 (n : Nat) : List Char :=
  [n / 4096, n / 256, n / 16, n].map fun d => (d % 16).digitChar.toUpper

/-- A character between quotes. -/
def escape (c : Char) : List Char :=
  match [('\x08', 'b'), ('\t', 't'), ('\n', 'n'), ('\x0c', 'f'), ('\r', 'r'), ('"', '"'),
    ('\\', '\\')].lookup c with
  | some e => ['\\', e]
  | none => if needsEscape c then '\\' :: 'u' :: hex4 c.toNat else [c]

/-- A text between quotes.  In triple quotes line feeds stay as they are, and so do up to two quotes
in a row; `seen` counts those. -/
def escaped (triple : Bool) : Nat → List Char → List Char
  | _, [] => []
  | seen, c :: rest =>
    if triple && c = '"' && seen < 2 then c :: escaped triple (seen + 1) rest
    else if triple && c = '\n' then c :: escaped triple 0 rest
    else escape c ++ escaped triple 0 rest

/-- A text as TOML. -/
def quoteChars (s : List Char) : List Char :=
  let q := quoting s
  let inside := match q with
    | .quotes => escaped false 0 s
    | .tripleQuotes => escaped true 0 s
    | .apostrophes | .tripleApostrophes => s
  let newline := if s.contains '\n' then ['\n'] else []
  match q with
  | .quotes | .apostrophes => q.mark ++ inside ++ q.mark
  | .tripleQuotes | .tripleApostrophes => q.mark ++ newline ++ inside ++ q.mark

/-- A text as TOML. -/
def quote (s : String) : String := String.ofList (quoteChars s.toList)

theorem escape_eq_self {c : Char} (control : 0x20 ≤ c.toNat) (delete : c.toNat ≠ 0x7F)
    (quote : c ≠ '"') (backslash : c ≠ '\\') : escape c = [c] := by
  have ne (d : Char) (h : d.toNat < 0x20) : (c == d) = false := by
    simp only [beq_eq_false_iff_ne, ne_eq]
    rintro rfl
    omega
  have hn : needsEscape c = false := by simp [needsEscape, delete]; omega
  have hq : (c == '"') = false := by simpa using quote
  have hb : (c == '\\') = false := by simpa using backslash
  simp [escape, List.lookup_cons, ne, hn, hq, hb]

end AtomicGrid.Toml
