import AtomicGrid.Text.Concealed

/-!
# Quoted text

A text as it is shown to a reader: between quotes, on one line, with nothing in it that cannot be
seen.  Quotes and backslashes are escaped, concealed characters are shown by their numbers.

## Results

* `quoteChar_eq_self`: what needs no escape is shown as it is.
-/

set_option autoImplicit false

namespace AtomicGrid.Text

/-- The characters with an escape of their own, and what stands behind the backslash. -/
def shortEscapes : List (Char × Char) :=
  [('\x00', '0'), ('\t', 't'), ('\n', 'n'), ('\r', 'r'), ('"', '"'), ('\\', '\\')]

/-- A character within quotes. -/
def quoteChar (c : Char) : List Char :=
  match shortEscapes.lookup c with
  | some e => ['\\', e]
  | none =>
    if isConcealed c then ['\\', 'u', '\x7b'] ++ Nat.toDigits 16 c.toNat ++ ['\x7d'] else [c]

/-- A text in quotes. -/
def quote (s : String) : String := String.ofList ('"' :: s.toList.flatMap quoteChar ++ ['"'])

theorem quoteChar_eq_self {c : Char} (plain : isConcealed c = false) (quote : c ≠ '"')
    (backslash : c ≠ '\\') : quoteChar c = [c] := by
  have ne (d : Char) (h : d.toNat < 0x20) : (c == d) = false := by
    simp only [beq_eq_false_iff_ne, ne_eq]
    rintro rfl
    simp [isConcealed_of_lt_space h] at plain
  have hq : (c == '"') = false := by simpa using quote
  have hb : (c == '\\') = false := by simpa using backslash
  simp [quoteChar, shortEscapes, List.lookup_cons, ne, hq, hb, plain]

end AtomicGrid.Text
