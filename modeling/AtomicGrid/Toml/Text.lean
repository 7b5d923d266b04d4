/-!
# Quoted text

Text stands between quotes, in which a backslash starts an escape, or between apostrophes, in which
every character stands for itself.  Three quotes or apostrophes enclose text of several lines; a
line end right after them does not count, and in quotes a backslash at the end of a line takes all
blanks and line ends after it away.

Readers get what follows the opening mark, and return the text and what follows the closing mark.

## Results

* `escape?_length`: an escape takes up at least one character.
-/

set_option autoImplicit false

namespace AtomicGrid.Toml

/-- What is read, and what is left. -/
abbrev Read (α : Type) := Option (α × List Char)

/-- A space or a tab. -/
def isBlank (c : Char) : Bool := c = ' ' || c = '\t'

/-- Whether a character may stand for itself in a comment or in text: all but control characters,
of which the tab is allowed. -/
def isPlain (c : Char) : Bool := c = '\t' || 0x20 ≤ c.toNat && c.toNat ≠ 0x7F

/-- What is left behind a line end. -/
def lineEnd? : List Char → Option (List Char)
  | '\n' :: rest => some rest
  | '\r' :: '\n' :: rest => some rest
  | _ => none

/-- What is left without a line end at the start. -/
def skipLineEnd (s : List Char) : List Char := (lineEnd? s).getD s

/-- Puts a character in front of what is read. -/
def prepend (c : Char) (r : Read (List Char)) : Read (List Char) := r.map fun p => (c :: p.1, p.2)

/-! ## Escapes -/

/-- The value of a hexadecimal digit. -/
def hexDigit? (c : Char) : Option Nat :=
  if '0' ≤ c ∧ c ≤ '9' then some (c.toNat - 48)
  else if 'a' ≤ c ∧ c ≤ 'f' then some (c.toNat - 87)
  else if 'A' ≤ c ∧ c ≤ 'F' then some (c.toNat - 55)
  else none

/-- The number that hexadecimal digits stand for. -/
def hexNumber? (digits : List Char) : Option Nat :=
  digits.foldlM (fun n c => (hexDigit? c).map (n * 16 + ·)) 0

/-- The character with a number, if there is one. -/
def character? (n : Nat) : Option Char :=
  if h : n.isValidChar then some (Char.ofNatAux n h) else none

/-- The character of a number of so many hexadecimal digits. -/
def escapedNumber? (width : Nat) (s : List Char) : Read Char :=
  if width ≤ s.length then
    ((hexNumber? (s.take width)).bind character?).map fun c => (c, s.drop width)
  else none

/-- The character of an escape, from behind the backslash. -/
def escape? : List Char → Read Char
  | [] => none
  | c :: rest =>
    if c = 'u' then escapedNumber? 4 rest
    else if c = 'U' then escapedNumber? 8 rest
    else
      ([('b', '\x08'), ('t', '\t'), ('n', '\n'), ('f', '\x0c'), ('r', '\r'), ('"', '"'),
        ('\\', '\\')].lookup c).map fun c => (c, rest)

theorem escapedNumber?_length {width : Nat} {s rest : List Char} {c : Char}
    (h : escapedNumber? width s = some (c, rest)) : rest.length ≤ s.length := by
  unfold escapedNumber? at h
  split at h
  · obtain ⟨d, -, hd⟩ := Option.map_eq_some_iff.1 h
    cases hd
    simp
  · cases h

theorem escape?_length {s rest : List Char} {c : Char} (h : escape? s = some (c, rest)) :
    rest.length < s.length := by
  cases s with
  | nil => cases h
  | cons a s =>
    simp only [escape?] at h
    split at h
    · have := escapedNumber?_length h
      simp; omega
    · split at h
      · have := escapedNumber?_length h
        simp; omega
      · obtain ⟨d, -, hd⟩ := Option.map_eq_some_iff.1 h
        cases hd
        simp

/-! ## Text in quotes -/

/-- Text between quotes. -/
def quoted? (s : List Char) : Read (List Char) :=
  match s with
  | [] => none
  | c :: rest =>
    if c = '"' then some ([], rest)
    else if c = '\\' then
      match h : escape? rest with
      | some (e, rest') =>
        have := escape?_length h
        prepend e (quoted? rest')
      | none => none
    else if isPlain c then prepend c (quoted? rest)
    else none
  termination_by s.length

/-- Text between apostrophes. -/
def literal? : List Char → Read (List Char)
  | [] => none
  | c :: rest =>
    if c = '\'' then some ([], rest)
    else if isPlain c then prepend c (literal? rest)
    else none

/-! ## Text of several lines -/

/-- The number of marks that a run of marks leaves to the text before it closes it, if it does: a
run of three closes, and one or two more belong to the text. -/
def closing? (mark : Char) (s : List Char) : Option (Nat × List Char) :=
  let run := (s.takeWhile (· = mark)).length
  if run < 3 then none else some (min run 5 - 3, s.drop (min run 5))

/-- Whether only blanks come before the line end. -/
def endsLine (s : List Char) : Bool := (lineEnd? (s.dropWhile isBlank)).isSome

/-- Text between triple apostrophes. -/
def literalLines? : List Char → Read (List Char)
  | [] => none
  | c :: rest =>
    match closing? '\'' (c :: rest) with
    | some (n, rest) => some (List.replicate n '\'', rest)
    | none =>
      if c = '\r' then
        if rest.head? = some '\n' then literalLines? rest else none
      else if c = '\n' || isPlain c then prepend c (literalLines? rest)
      else none

/-- Text between triple quotes.  While `trims` holds, blanks and line ends are taken away. -/
def quotedLines? (trims : Bool) (s : List Char) : Read (List Char) :=
  match s with
  | [] => none
  | c :: rest =>
    if trims && (isBlank c || c = '\n') then quotedLines? true rest
    else
      match closing? '"' (c :: rest) with
      | some (n, rest) => some (List.replicate n '"', rest)
      | none =>
        if c = '\r' then
          if rest.head? = some '\n' then quotedLines? trims rest else none
        else if c = '\\' then
          if endsLine rest then quotedLines? true rest
          else
            match h : escape? rest with
            | some (e, rest') =>
              have := escape?_length h
              prepend e (quotedLines? false rest')
            | none => none
        else if c = '\n' || isPlain c then prepend c (quotedLines? false rest)
        else none
  termination_by s.length

/-- Text in any of the four ways, from its opening mark. -/
def text? (s : List Char) : Read String :=
  let whole (r : Read (List Char)) : Read String := r.map fun p => (String.ofList p.1, p.2)
  match s with
  | '"' :: '"' :: '"' :: rest => whole (quotedLines? false (skipLineEnd rest))
  | '"' :: rest => whole (quoted? rest)
  | '\'' :: '\'' :: '\'' :: rest => whole (literalLines? (skipLineEnd rest))
  | '\'' :: rest => whole (literal? rest)
  | _ => none

end AtomicGrid.Toml
