import AtomicGrid.Bytes.Hex

/-!
# Plain data

A `Data` is a tree of scalars, lists and named fields.  It is the form in which tools take and show
the values of this library: `ToData` says how a value is shown, `OfData` how it is taken.  What is
absent is taken as the least value of its type.  Byte strings are shown as hexadecimal digits.

## Results

* `ofData_toData_bytes`: byte strings are taken as they are shown.
-/

set_option autoImplicit false

namespace AtomicGrid

/-- A tree of scalars, lists and named fields. -/
inductive Data where
  | absent
  | flag (b : Bool)
  | number (n : Int)
  | text (s : String)
  | list (items : List Data)
  | fields (items : List (String × Data))
  deriving Inhabited

namespace Data

/-- The value of a field; a field that is not there is absent. -/
def field (d : Data) (name : String) : Data :=
  match d with
  | .fields items => (items.lookup name).getD .absent
  | _ => .absent

def items : Data → List Data
  | .list items => items
  | _ => []

/-- The text, empty for anything else. -/
def string : Data → String
  | .text s => s
  | _ => ""

/-- The number, zero for anything else. -/
def int : Data → Int
  | .number n => n
  | _ => 0

/-- The flag, false for anything else. -/
def bool : Data → Bool
  | .flag b => b
  | _ => false

/-- Whether the value is there. -/
def isPresent : Data → Bool
  | .absent => false
  | _ => true

/-- The tree with one more field, or a field replaced. -/
def withField (d : Data) (name : String) (value : Data) : Data :=
  match d with
  | .fields items => .fields (items.filter (·.1 ≠ name) ++ [(name, value)])
  | _ => .fields [(name, value)]

/-- The tree with a field filled in, if it is absent. -/
def orField (d : Data) (name : String) (value : Data) : Data :=
  if (d.field name).isPresent then d else d.withField name value

end Data

/-- Types whose values can be shown. -/
class ToData (α : Type) where
  toData : α → Data

/-- Types whose values can be taken. -/
class OfData (α : Type) where
  ofData : Data → α

export ToData (toData)
export OfData (ofData)

/-- The value of a field. -/
def Data.get {α : Type} [OfData α] (d : Data) (name : String) : α := ofData (d.field name)

/-- The value of a field, or another if the field is absent. -/
def Data.getOr {α : Type} [OfData α] (d : Data) (name : String) (other : α) : α :=
  if (d.field name).isPresent then d.get name else other

/-! ## Scalars -/

instance : ToData Data := ⟨id⟩
instance : OfData Data := ⟨id⟩

instance : ToData Bool := ⟨.flag⟩
instance : OfData Bool := ⟨Data.bool⟩

instance : ToData Int := ⟨.number⟩
instance : OfData Int := ⟨Data.int⟩

instance : ToData Nat := ⟨fun n => .number n⟩
instance : OfData Nat := ⟨fun d => d.int.toNat⟩

instance : ToData UInt8 := ⟨fun n => .number n.toNat⟩
instance : OfData UInt8 := ⟨fun d => UInt8.ofNat d.int.toNat⟩

instance : ToData UInt32 := ⟨fun n => .number n.toNat⟩
instance : OfData UInt32 := ⟨fun d => UInt32.ofNat d.int.toNat⟩

instance : ToData UInt64 := ⟨fun n => .number n.toNat⟩
instance : OfData UInt64 := ⟨fun d => UInt64.ofNat d.int.toNat⟩

instance : ToData Int64 := ⟨fun n => .number n.toInt⟩
instance : OfData Int64 := ⟨fun d => Int64.ofInt d.int⟩

instance : ToData String := ⟨.text⟩
instance : OfData String := ⟨Data.string⟩

/-- An order is shown as the sign of a difference. -/
instance : ToData Ordering where
  toData
    | .lt => .number (-1)
    | .eq => .number 0
    | .gt => .number 1

/-! ## Options, lists and tuples -/

instance {α : Type} [ToData α] : ToData (Option α) where
  toData
    | some a => toData a
    | none => .absent

instance {α : Type} [OfData α] : OfData (Option α) :=
  ⟨fun d => if d.isPresent then some (ofData d) else none⟩

instance {α : Type} [ToData α] : ToData (List α) := ⟨fun l => .list (l.map toData)⟩
instance {α : Type} [OfData α] : OfData (List α) := ⟨fun d => d.items.map ofData⟩

instance : ToData (List UInt8) := ⟨fun bs => .text (Bytes.hex bs)⟩
instance : OfData (List UInt8) := ⟨fun d => Bytes.ofHex d.string⟩

/-- Tuples whose components can be shown one after the other. -/
class ToItems (α : Type) where
  toItems : α → List Data

/-- Tuples whose components can be taken one after the other. -/
class OfItems (α : Type) where
  ofItems : List Data → α

instance {α β : Type} [ToData α] [ToItems β] : ToItems (α × β) :=
  ⟨fun p => toData p.1 :: ToItems.toItems p.2⟩

instance (priority := low) {α : Type} [ToData α] : ToItems α := ⟨fun a => [toData a]⟩

instance {α β : Type} [OfData α] [OfItems β] : OfItems (α × β) :=
  ⟨fun l => (ofData (l.headD .absent), OfItems.ofItems l.tail)⟩

instance (priority := low) {α : Type} [OfData α] : OfItems α := ⟨fun l => ofData (l.headD .absent)⟩

/-- A tuple is shown as the list of its components. -/
instance {α β : Type} [ToItems (α × β)] : ToData (α × β) := ⟨fun p => .list (ToItems.toItems p)⟩
instance {α β : Type} [OfItems (α × β)] : OfData (α × β) := ⟨fun d => OfItems.ofItems d.items⟩

/-- The components of a tuple under the given names. -/
def Data.named {α : Type} [ToItems α] (names : List String) (values : α) : Data :=
  .fields (names.zip (ToItems.toItems values))

/-- The tuple of the values of the given fields. -/
def Data.pick {α : Type} [OfItems α] (names : List String) (d : Data) : α :=
  OfItems.ofItems (names.map d.field)

theorem ofData_toData_bytes (bs : Bytes) : (ofData (toData bs) : Bytes) = bs := Bytes.ofHex_hex bs

end AtomicGrid
