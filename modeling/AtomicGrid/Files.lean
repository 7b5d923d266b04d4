/-!
# Files

A `Disk` is what a command needs of a file system: to read a text file and to write one.  A `Folder`
holds files in memory, with the directories that their names imply, and is a disk as well.

## Results

* `Folder.lookup_put`: what was put in a place is found there.
-/

set_option autoImplicit false

namespace AtomicGrid

/-- What comes of reading a file. -/
inductive FileRead where
  | text (s : String)
  /-- Nothing has this name. -/
  | missing
  /-- What has this name is no text file. -/
  | unreadable
  deriving DecidableEq, Repr, Inhabited

/-- A file system, as far as commands need one. -/
structure Disk (m : Type → Type) where
  read : String → m FileRead
  /-- Writes a text in place of what was there, and says whether that worked. -/
  write : String → String → m Bool

/-- Files in memory, by the parts of their names. -/
structure Folder where
  files : List (List String × String) := []
  deriving DecidableEq, Repr, Inhabited

namespace Folder

/-- The folder of files with names in which slashes divide the parts. -/
def ofNames (files : List (String × String)) : Folder :=
  ⟨files.map fun f => (f.1.splitOn "/", f.2)⟩

/-- The files with their whole names. -/
def toNames (f : Folder) : List (String × String) :=
  f.files.map fun file => ("/".intercalate file.1, file.2)

/-- Whether there is a directory; each directory on the way to a file is one. -/
def hasDirectory (f : Folder) (parts : List String) : Bool :=
  parts.isEmpty || f.files.any fun file => parts.isPrefixOf file.1 && file.1 ≠ parts

/-- Where a name leads. -/
inductive Place where
  /-- To what has these parts, as seen from the folder itself. -/
  | inside (parts : List String)
  /-- To a directory above the folder. -/
  | above
  deriving DecidableEq, Repr, Inhabited

/-- One part of a name further on.  What comes before the part must be a directory, also if the part
is empty, as behind a slash at the end.  Of the directories above the folder nothing is known but
that they are there. -/
def enter (f : Folder) : Place → String → Option Place
  | .above, part => if part ∈ ["", ".", ".."] then some .above else none
  | .inside here, part =>
    if !f.hasDirectory here then none
    else if part = "" || part = "." then some (.inside here)
    else if part = ".." then some (if here.isEmpty then .above else .inside here.dropLast)
    else some (.inside (here ++ [part]))

/-- The most bytes in a part of a name. -/
def longestPart : Nat := 255

/-- The most bytes in a name. -/
def longestName : Nat := 4095

/-- Whether there can be a file with a name of these parts. -/
def isName (name : String) (parts : List String) : Bool :=
  !name.isEmpty && !name.contains '\x00' && name.utf8ByteSize ≤ longestName &&
    parts.all (·.utf8ByteSize ≤ longestPart)

/-- Where a name leads, if the way is there. -/
def resolve? (f : Folder) (name : String) : Option Place :=
  let parts := name.splitOn "/"
  if isName name parts then
    parts.foldlM f.enter (if name.startsWith "/" then .above else .inside [])
  else none

def read (f : Folder) (name : String) : FileRead :=
  match f.resolve? name with
  | none => .missing
  | some .above => .unreadable
  | some (.inside parts) =>
    if f.hasDirectory parts then .unreadable
    else (f.files.lookup parts).elim .missing .text

/-- Puts a text in place of a file, or adds one. -/
def put (f : Folder) (parts : List String) (s : String) : Folder :=
  if f.files.any (·.1 = parts) then
    ⟨f.files.map fun file => if file.1 = parts then (parts, s) else file⟩
  else ⟨f.files ++ [(parts, s)]⟩

/-- Writes a file, if its directory is there. -/
def write (f : Folder) (name s : String) : Option Folder :=
  match f.resolve? name with
  | some (.inside parts) => if f.hasDirectory parts then none else some (f.put parts s)
  | _ => none

/-- A folder as a disk. -/
def disk : Disk (StateM Folder) where
  read name := do return (← get).read name
  write name s := do
    match (← get).write name s with
    | none => return false
    | some f => set f; return true

theorem lookup_put (f : Folder) (parts : List String) (s : String) :
    (f.put parts s).files.lookup parts = some s := by
  unfold put
  split
  · rename_i h
    obtain ⟨files⟩ := f
    simp only at h ⊢
    induction files with
    | nil => simp at h
    | cons file files ih =>
      obtain ⟨name, text⟩ := file
      by_cases hf : name = parts
      · simp [hf]
      · have hne : (parts == name) = false := by simpa using Ne.symm hf
        have h' : files.any (·.1 = parts) = true := by simpa [hf] using h
        rw [List.map_cons, if_neg hf, List.lookup_cons, hne]
        exact ih h'
  · rename_i h
    have hn : f.files.lookup parts = none := by
      rw [List.lookup_eq_none_iff]
      intro file hmem
      have := h
      simp only [List.any_eq_true, decide_eq_true_eq, not_exists, not_and] at this
      simpa using Ne.symm (this file hmem)
    simp [List.lookup_append, hn]

end Folder

end AtomicGrid
