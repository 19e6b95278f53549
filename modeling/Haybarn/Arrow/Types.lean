import Mathlib

/-!
# Arrow types and arrays

As much of Arrow as the casts of query results use: types, arrays over their buffers, and what an
array holds at an index.

An array is a window on its buffers: `length` entries from `offset` on. The type of an array says
how its buffers are read, and the type of a nested array has those of its children in it.

Mirroring notes:
- A scalar type that is not cast from or to is `other`, and its entries are bytes. The types that
  `castScalarTypes` does not look into (maps, unions, dictionaries) are such types too.
- A list type has a value field. Equality of types does not look at its name, so of the field there
  is the nullability. Metadata of fields is left out.
- A null bitmap is a list of booleans, and an array without one has no nulls.
- Doubles are a type, with the conversions to it that the casts use (`Doubles`).
-/

namespace Haybarn.Arrow

/-! ## Types -/

inductive TimeUnit
  | second
  | milli
  | micro
  | nano
  deriving DecidableEq, Repr

inductive ScalarType
  | int64
  | uint64
  | timestamp (unit : TimeUnit) (timezone : String)
  | duration (unit : TimeUnit)
  | decimal128 (precision scale : Int)
  | float64
  | date64
  | time64 (unit : TimeUnit)
  | other (name : String)
  deriving DecidableEq, Repr

inductive ListKind
  | list
  | largeList
  | fixedSizeList (size : Nat)
  deriving DecidableEq, Repr

/-- A field without its type. -/
structure FieldHead where
  name : String
  nullable : Bool
  deriving DecidableEq, Repr

inductive DataType
  | scalar (type : ScalarType)
  | struct (fields : List (FieldHead × DataType))
  | list (kind : ListKind) (nullable : Bool) (value : DataType)

abbrev Schema := List (FieldHead × DataType)

/-! ## Arrays -/

/-- The doubles, and how integers and decimals become one. -/
structure Doubles (D : Type) where
  ofInt : Int → D
  /-- `Decimal128::ToDouble(scale)` -/
  ofDecimal : Int → Int → D

/-- An entry of the values buffer. A decimal is its unscaled integer. -/
abbrev ScalarType.Elem (D : Type) : ScalarType → Type
  | .int64 => Int64
  | .uint64 => UInt64
  | .timestamp _ _ => Int64
  | .duration _ => Int64
  | .decimal128 _ _ => Int
  | .float64 => D
  | .date64 => Int64
  | .time64 _ => Int64
  | .other _ => List UInt8

/-- What all arrays have. -/
structure ArrayData where
  length : Nat
  offset : Nat
  nullBitmap : Option (List Bool)

def ArrayData.isValid (data : ArrayData) (i : Nat) : Bool :=
  match data.nullBitmap with
  | none => true
  | some bits => bits.getD (data.offset + i) false

inductive Array (D : Type)
  | scalar (type : ScalarType) (data : ArrayData) (values : List (type.Elem D))
  | struct (data : ArrayData) (children : List (FieldHead × Array D))
  | list (kind : ListKind) (nullable : Bool) (data : ArrayData) (offsets : List Nat)
    (values : Array D)

variable {D : Type}

def Array.data : Array D → ArrayData
  | .scalar _ data _ => data
  | .struct data _ => data
  | .list _ _ data _ _ => data

mutual

def Array.type : Array D → DataType
  | .scalar type _ _ => .scalar type
  | .struct _ children => .struct (childTypes children)
  | .list kind nullable _ _ values => .list kind nullable values.type

def childTypes : List (FieldHead × Array D) → List (FieldHead × DataType)
  | [] => []
  | (head, child) :: rest => (head, child.type) :: childTypes rest

end

/-- The window of a scalar array lies in its values buffer. -/
def Array.InBounds : Array D → Prop
  | .scalar _ data values => data.offset + data.length ≤ values.length
  | _ => True

/-! ## Values -/

/-- A value that is not nested. -/
inductive Datum (D : Type)
  | int (v : Int)
  | float (x : D)
  | bytes (bytes : List UInt8)

inductive Value (D : Type)
  | null
  | datum (x : Datum D)
  | struct (members : List (String × Value D))
  | list (elements : List (Value D))

/-- What an entry of a type denotes. -/
def ScalarType.datum : (type : ScalarType) → type.Elem D → Datum D
  | .int64, v => .int (Int64.toInt v)
  | .uint64, v => .int (UInt64.toNat v)
  | .timestamp _ _, v => .int (Int64.toInt v)
  | .duration _, v => .int (Int64.toInt v)
  | .decimal128 _ _, v => .int v
  | .float64, x => .float x
  | .date64, v => .int (Int64.toInt v)
  | .time64 _, v => .int (Int64.toInt v)
  | .other _, bytes => .bytes bytes

/-- Where the elements of the list at an index are, and how many there are. -/
def listRange (kind : ListKind) (data : ArrayData) (offsets : List Nat) (i : Nat) :
    Option (Nat × Nat) :=
  match kind with
  | .fixedSizeList size => some (size * (data.offset + i), size)
  | _ =>
    match offsets[data.offset + i]?, offsets[data.offset + i + 1]? with
    | some start, some stop => some (start, stop - start)
    | _, _ => none

mutual

/-- The value of an array at an index. There is none outside the array or its buffers. -/
def Array.get : Array D → Nat → Option (Value D)
  | .scalar type data values, i =>
    if i < data.length then
      if data.isValid i then (values[data.offset + i]?).map fun x => .datum (type.datum x)
      else some .null
    else none
  | .struct data children, i =>
    if i < data.length then
      if data.isValid i then (getChildren children (data.offset + i)).map .struct
      else some .null
    else none
  | .list kind _ data offsets values, i =>
    if i < data.length then
      if data.isValid i then
        (listRange kind data offsets i).bind fun range =>
          ((List.range range.2).mapM fun j => values.get (range.1 + j)).map .list
      else some .null
    else none

def getChildren : List (FieldHead × Array D) → Nat → Option (List (String × Value D))
  | [], _ => some []
  | (head, child) :: rest, i =>
    (child.get i).bind fun v => (getChildren rest i).map fun vs => (head.name, v) :: vs

end

/-! ## Record batches -/

structure RecordBatch (D : Type) where
  schema : Schema
  numRows : Nat
  columns : List (Array D)

/-- A batch with columns of the types of its schema, inside their buffers. -/
structure ValidBatch (D : Type) extends RecordBatch D where
  types : columns.map Array.type = schema.map Prod.snd
  inBounds : ∀ column ∈ columns, column.InBounds

end Haybarn.Arrow
