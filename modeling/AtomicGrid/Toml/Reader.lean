import AtomicGrid.Toml.Scalar

/-!
# Reading TOML

A document is a sequence of statements, each on a line of its own: a key with its value, the header
of a table, or the header of one more table of an array.  Blank lines and comments may stand between
them, and a comment after each.  `read?` builds the tree of the whole document, or says that the
text is no document.

Arrays and inline tables may stand in one another, and keys may have parts, but fewer than
`limit` of each.
-/

set_option autoImplicit false

namespace AtomicGrid.Toml

/-- One more than the number of brackets a value may stand in, and of the parts of a key. -/
def limit : Nat := 80

/-- What is left without blanks at the start. -/
def skipBlanks (s : List Char) : List Char := s.dropWhile isBlank

/-- What is left behind blanks, line ends and comments, from inside a comment or from outside. -/
def skipLines? : Bool → List Char → Option (List Char)
  | _, [] => some []
  | inComment, c :: rest =>
    if c = '\n' then skipLines? false rest
    else if c = '\r' then if rest.head? = some '\n' then skipLines? inComment rest else none
    else if inComment then if isPlain c then skipLines? true rest else none
    else if c = '#' then skipLines? true rest
    else if isBlank c then skipLines? false rest
    else some (c :: rest)

/-- Whether a statement may end here. -/
def endsStatement (s : List Char) : Bool :=
  match skipBlanks s with
  | [] => true
  | c :: _ => c = '\n' || c = '\r' || c = '#'

/-! ## Keys -/

/-- Whether a character may stand in a key without quotes. -/
def isBare (c : Char) : Bool := c.isAlphanum || c = '_' || c = '-'

/-- One part of a key. -/
def keyPart? (s : List Char) : Read String :=
  let whole (r : Read (List Char)) : Read String := r.map fun p => (String.ofList p.1, p.2)
  match s with
  | '"' :: rest => whole (quoted? rest)
  | '\'' :: rest => whole (literal? rest)
  | _ =>
    let part := s.takeWhile isBare
    if part.isEmpty then none else some (String.ofList part, s.dropWhile isBare)

/-- A key of so many parts at most: the parts in front of the last, and the last. -/
def keyOf? : Nat → List Char → Option ((List String × String) × List Char)
  | 0, _ => none
  | parts + 1, s => do
    let (k, s) ← keyPart? (skipBlanks s)
    match skipBlanks s with
    | '.' :: rest => (keyOf? parts rest).map fun ((path, last), s) => ((k :: path, last), s)
    | s => some (([], k), s)

/-- A key with the blanks around it. -/
def key? : List Char → Read (List String × String) := keyOf? (limit - 1)

/-! ## Values -/

/-- The elements of an array and its closing bracket; at most as many as `fuel` says. -/
def elements? (value? : List Char → Read Tree) :
    Nat → List Char → Option (List Tree × List Char)
  | 0, _ => none
  | fuel + 1, s => do
    match ← skipLines? false s with
    | ']' :: rest => some ([], rest)
    | s =>
      let (v, s) ← value? s
      match ← skipLines? false s with
      | ']' :: rest => some ([v], rest)
      | ',' :: rest => (elements? value? fuel rest).map fun (vs, s) => (v :: vs, s)
      | _ => none

/-- The entries of an inline table after those read so far, and its closing brace; at most as many
as `fuel` says. -/
def pairs? (value? : List Char → Read Tree) :
    Nat → Entries → List Char → Option (Entries × List Char)
  | 0, _, _ => none
  | fuel + 1, es, s => do
    let ((path, k), s) ← key? s
    let (v, s) ← value? (skipBlanks (← mark? '=' s))
    let es ← Tree.addKey path k v es
    match skipBlanks s with
    | '\x7d' :: rest => some (es, rest)
    | ',' :: rest => pairs? value? fuel es rest
    | _ => none

/-- A value with at most so many brackets inside one another. -/
def valueIn? (depth : Nat) (s : List Char) : Read Tree :=
  match s, depth with
  | '[' :: _, 0 => none
  | '\x7b' :: _, 0 => none
  | '[' :: rest, depth + 1 =>
    (elements? (valueIn? depth) s.length rest).map fun (vs, s) => (.array false vs, s)
  | '\x7b' :: rest, depth + 1 =>
    match skipBlanks rest with
    | '\x7d' :: rest => some (.table .inlined [], rest)
    | _ => (pairs? (valueIn? depth) s.length [] rest).map fun (es, s) => (.table .inlined es, s)
  | '"' :: _, _ | '\'' :: _, _ => (text? s).map fun (t, s) => (.text t, s)
  | _, _ => scalar? s

def value? : List Char → Read Tree := valueIn? (limit - 1)

/-! ## Documents -/

/-- What has been read of a document. -/
structure Document where
  entries : Entries := []
  /-- The path of the table that the next keys belong to. -/
  here : List String := []

namespace Document

/-- Reads one statement. -/
def statement? (d : Document) : List Char → Option (Document × List Char)
  | '[' :: '[' :: rest => do
    let ((path, k), s) ← key? rest
    let s ← mark? ']' (← mark? ']' s)
    let entries ← Tree.addElement path k d.entries
    return ({ entries, here := path ++ [k] }, s)
  | '[' :: rest => do
    let ((path, k), s) ← key? rest
    let s ← mark? ']' s
    let entries ← Tree.addHeader path k d.entries
    return ({ entries, here := path ++ [k] }, s)
  | s => do
    let ((path, k), s) ← key? s
    let (v, s) ← value? (skipBlanks (← mark? '=' s))
    let entries ← Tree.modify false (fun _ es => Tree.addKey path k v es) .header d.here d.entries
    return ({ d with entries }, s)

/-- Reads statements up to the end, at most as many as `fuel` says. -/
def statements? : Nat → Document → List Char → Option Document
  | 0, _, _ => none
  | fuel + 1, d, s => do
    match ← skipLines? false s with
    | [] => some d
    | s =>
      let (d, s) ← d.statement? s
      if endsStatement s then statements? fuel d s else none

end Document

/-- The entries of a document, which may start with a byte order mark. -/
def readChars? (s : List Char) : Option Entries :=
  let s := if s.head? = some '\ufeff' then s.tail else s
  (Document.statements? (s.length + 1) {} s).map (·.entries)

/-- The tree of a document. -/
def read? (s : String) : Option Tree := (readChars? s.toList).map (.table .header)

end AtomicGrid.Toml
