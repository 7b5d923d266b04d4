/-!
# Trees of settings

What a TOML document says is a tree of tables, arrays and scalars.  A document builds its tree line
by line, and each table remembers how it came about, for that decides what may still be added:

* a table with a header of its own is defined once, and dotted keys do not reach into it;
* a table implied by the header of a table below it may still get its own header;
* a table implied by a dotted key may get more dotted keys, but no header;
* an inline table is complete.

## Results

* `Tree.addHeader_twice`: a table gets one header.
-/

set_option autoImplicit false

namespace AtomicGrid.Toml

/-- How a table came about. -/
inductive Form where
  /-- Written as an inline table. -/
  | inlined
  /-- By its own header. -/
  | header
  /-- Implied by the header of a table below it. -/
  | implied
  /-- Implied by a dotted key. -/
  | dotted
  deriving DecidableEq, Repr, Inhabited

/-- A tree of settings. -/
inductive Tree where
  | text (s : String)
  | integer (n : Int)
  | flag (b : Bool)
  /-- A number with a fraction or an exponent; nothing asks for its value. -/
  | float
  /-- A date, a time or both; nothing asks for its value. -/
  | moment
  /-- An array; an open one grows by headers in double brackets. -/
  | array (isOpen : Bool) (items : List Tree)
  | table (form : Form) (entries : List (String × Tree))
  deriving Inhabited

/-- The entries of a table, in the order they came. -/
abbrev Entries := List (String × Tree)

namespace Tree

/-- Entries with one more, or one replaced. -/
def put (es : Entries) (k : String) (t : Tree) : Entries :=
  if es.any (·.1 = k) then es.map fun e => if e.1 = k then (k, t) else e else es ++ [(k, t)]

/-- Changes the entries of the table at a path below some entries.  Tables that are missing on the
way are implied; `byKey` says whether by a dotted key or by a header.  `f` is told how the table at
the end came about. -/
def modify (byKey : Bool) (f : Form → Entries → Option Entries) (form : Form) :
    List String → Entries → Option Entries
  | [], es => f form es
  | k :: path, es =>
    match es.lookup k with
    | none =>
      let new := if byKey then Form.dotted else .implied
      (modify byKey f new path []).map fun below => put es k (.table new below)
    | some (.table form' below) =>
      if form' = .inlined ∨ byKey ∧ form' = .header then none
      else (modify byKey f form' path below).map fun below => put es k (.table form' below)
    | some (.array true items) =>
      match items.getLast? with
      | some (.table form' below) =>
        (modify byKey f form' path below).map fun below =>
          put es k (.array true (items.dropLast ++ [.table form' below]))
      | _ => none
    | some _ => none

/-- Adds the value of a key, which may be dotted, to the entries of a table. -/
def addKey (path : List String) (k : String) (v : Tree) (es : Entries) : Option Entries :=
  modify true
    (fun form es =>
      if path.isEmpty = (form = .dotted) then none
      else if es.any (·.1 = k) then none
      else some (es ++ [(k, v)]))
    .header path es

/-- Opens the table of a header. -/
def addHeader (path : List String) (k : String) (es : Entries) : Option Entries :=
  modify false
    (fun _ es =>
      match es.lookup k with
      | none => some (put es k (.table .header []))
      | some (.table .implied below) => some (put es k (.table .header below))
      | some _ => none)
    .header path es

/-- Opens one more table of an array. -/
def addElement (path : List String) (k : String) (es : Entries) : Option Entries :=
  modify false
    (fun _ es =>
      match es.lookup k with
      | none => some (put es k (.array true [.table .header []]))
      | some (.array true items) => some (put es k (.array true (items ++ [.table .header []])))
      | some _ => none)
    .header path es

theorem addHeader_twice (k : String) (below rest : Entries) :
    addHeader [] k ((k, .table .header below) :: rest) = none := by
  simp [addHeader, modify]

end Tree

end AtomicGrid.Toml
