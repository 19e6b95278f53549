import Haybarn.Lib.JsonDoc

/-!
# Arrow types, value parsers and type tests (`json_parser.cc`, `json_analyzer.cc`)

The Arrow types that the analyzer can infer, what the array parser of each of them does with one
JSON value (`appendValue`), the tests that the analyzer makes on string fields (`testValue`) and
the type of a single sampled value (`inferDataType`).

Mirroring notes:
- `IsInt`, `IsInt64` and `IsUint64` are the flags that rapidjson keeps with a number. They follow
  from the kind under which the number was reported; a literal that was reported as a double
  has none of them.
- The casts of `ParseNumber` are reductions: `static_cast<int32_t>` is `Int.bmod` by `2 ^ 32`.
- `GetString` hands out a C string, so what looks names up through it sees them up to the first
  NUL (`getString`).
- Parsing a timestamp, writing a value as JSON text and the fingerprint of a type belong to Arrow
  and rapidjson (`Externals`). A double is kept as its literal.
-/

namespace Haybarn.Json

open Lib.JsonDoc

/-- The Arrow types of inferred columns. -/
inductive DataType
  | null
  | boolean
  | int32
  | uint32
  | int64
  | uint64
  | float64
  | utf8
  /-- `timestamp(SECOND)` -/
  | timestamp
  | list (element : DataType)
  | struct (fields : List (String × DataType))
  deriving BEq, Repr

/-- What the code takes from Arrow and rapidjson. -/
structure Externals where
  parseTimestamp : String → Option Int
  writeJson : Json → String
  fingerprint : DataType → String

/-- A name as a C string. -/
def getString (name : String) : String :=
  String.ofList (name.toList.takeWhile (· != '\x00'))

/-! ## The value parsers -/

/-- `JSONTypeToString` -/
def jsonTypeToString : Json → String
  | .null => "null"
  | .bool false => "false"
  | .bool true => "true"
  | .object _ => "object"
  | .array _ => "array"
  | .string _ => "string"
  | .number _ => "number"

/-- `JSONTypeError` -/
def jsonTypeError {α : Type} (expectedType : String) (v : Json) : Except String α :=
  .error ("Expected " ++ expectedType ++ " or null, got " ++ jsonTypeToString v)

/-- The value fits `int32_t`. -/
def isInt (x : Number) : Bool :=
  match x.kind with
  | .int => true
  | .uint => decide (x.value < 2 ^ 31)
  | _ => false

/-- The value fits `int64_t`. -/
def isInt64 (x : Number) : Bool :=
  match x.kind with
  | .int | .int64 | .uint => true
  | .uint64 => decide (x.value < 2 ^ 63)
  | .double => false

/-- The value fits `uint64_t`. -/
def isUint64 (x : Number) : Bool :=
  match x.kind with
  | .uint | .uint64 => true
  | .int | .int64 => decide (0 ≤ x.value)
  | .double => false

/-- An entry of a parsed column. -/
inductive Cell
  | null
  | bool (b : Bool)
  | int (v : Int)
  | double (literal : Number)
  | utf8 (s : String)
  | list (elements : List Cell)
  | struct (children : List Cell)

/-- `ParseBoolean` -/
def parseBoolean : Json → Except String Cell
  | .bool b => .ok (.bool b)
  | .number x =>
    if isInt x then .ok (.bool (decide (x.value ≠ 0))) else jsonTypeError "boolean" (.number x)
  | v => jsonTypeError "boolean" v

/-- `ParseNumber` for an unsigned type of some bits. -/
def parseUnsigned (bits : Nat) (type : String) : Json → Except String Cell
  | .number x =>
    if isUint64 x then
      if x.value % 2 ^ bits = x.value then .ok (.int x.value)
      else .error ("Value " ++ toString x.value ++ " out of bounds for " ++ type)
    else jsonTypeError "unsigned int" (.number x)
  | v => jsonTypeError "unsigned int" v

/-- `ParseNumber` for a signed type of some bits. -/
def parseSigned (bits : Nat) (type : String) : Json → Except String Cell
  | .number x =>
    if isInt64 x then
      if x.value.bmod (2 ^ bits) = x.value then .ok (.int x.value)
      else .error ("Value " ++ toString x.value ++ " out of bounds for " ++ type)
    else jsonTypeError "signed int" (.number x)
  | v => jsonTypeError "signed int" v

/-- `ParseNumber` for a floating point type. -/
def parseFloat : Json → Except String Cell
  | .number x => .ok (.double x)
  | v => jsonTypeError "number" v

/-- `ParseTimestamp` -/
def parseTimestamp (arrow : Externals) : Json → Except String Cell
  | .string s =>
    match arrow.parseTimestamp s with
    | some t => .ok (.int t)
    | none => .error ("couldn't parse timestamp from " ++ s)
  | v => jsonTypeError "timestamp" v

/-- `ParseString`: what is no string is written as JSON. -/
def parseString (arrow : Externals) : Json → Except String Cell
  | .string s => .ok (.utf8 s)
  | v => .ok (.utf8 (arrow.writeJson v))

/-- `FindMember` with a C string. -/
def findMember (name : String) (members : List (String × Json)) : Option Json :=
  members.lookup (getString name)

/-- `AnnotateErrorWithField` -/
def annotateErrorWithField {α : Type} (field : String) : Except String α → Except String α
  | .ok a => .ok a
  | .error e => .error ("Invalid field '" ++ field ++ "'. " ++ e)

/-- The loop of `AppendValues`: one value after the other, until one fails. -/
def appendValues {α β : Type} (append : α → Except String β) : List α → Except String (List β)
  | [] => .ok []
  | v :: rest =>
    match append v with
    | .error e => .error e
    | .ok c =>
      match appendValues append rest with
      | .error e => .error e
      | .ok cs => .ok (c :: cs)

mutual

/-- `AppendValue` of the array parser that `Resolve` makes for a type. -/
def appendValue (arrow : Externals) : DataType → Json → Except String Cell
  | _, .null => .ok .null
  | .null, v => jsonTypeError "null" v
  | .boolean, v => parseBoolean v
  | .int32, v => parseSigned 32 "int32" v
  | .uint32, v => parseUnsigned 32 "uint32" v
  | .int64, v => parseSigned 64 "int64" v
  | .uint64, v => parseUnsigned 64 "uint64" v
  | .float64, v => parseFloat v
  | .utf8, v => parseString arrow v
  | .timestamp, v => parseTimestamp arrow v
  | .list element, .array vs => (appendValues (appendValue arrow element) vs).map .list
  | .list _, v => jsonTypeError "array" v
  | .struct fields, .array vs =>
    if vs.length = fields.length then (appendInOrder arrow fields vs).map .struct
    else .error ("Expected array of size " ++ toString fields.length ++
      ", got array of size " ++ toString vs.length)
  | .struct fields, .object members => (appendByName arrow fields members).map .struct
  | .struct _, v => jsonTypeError "array or object" v

def appendInOrder (arrow : Externals) : List (String × DataType) → List Json →
    Except String (List Cell)
  | (_, t) :: fields, v :: vs =>
    match appendValue arrow t v with
    | .error e => .error e
    | .ok c => (appendInOrder arrow fields vs).map (c :: ·)
  | _, _ => .ok []

def appendByName (arrow : Externals) : List (String × DataType) → List (String × Json) →
    Except String (List Cell)
  | [], _ => .ok []
  | (name, t) :: fields, members =>
    match annotateErrorWithField name
        (match findMember name members with
          | some v => appendValue arrow t v
          | none => .ok .null) with
    | .error e => .error e
    | .ok c => (appendByName arrow fields members).map (c :: ·)

end

/-- The parser takes the value. -/
def accepts (arrow : Externals) (type : DataType) (v : Json) : Bool :=
  (appendValue arrow type v).isOk

/-! ## Type tests -/

/-- `TestType` for the types that `ResolveScalar` is asked for. -/
def testType (arrow : Externals) : DataType → Json → Bool
  | .boolean, v => (parseBoolean v).isOk
  | .int32, v => (parseSigned 32 "int32" v).isOk
  | .uint32, v => (parseUnsigned 32 "uint32" v).isOk
  | .int64, v => (parseSigned 64 "int64" v).isOk
  | .uint64, v => (parseUnsigned 64 "uint64" v).isOk
  | .float64, v => (parseFloat v).isOk
  | .timestamp, v => (parseTimestamp arrow v).isOk
  | .utf8, .string _ => true
  | _, _ => false

/-- `GenericTypeAnalyzer::TestValue` -/
def testValue (arrow : Externals) (type : DataType) : Json → Bool
  | .null => true
  | v => testType arrow type v

/-- The string analyzers, in the order in which they are made. -/
def analyzers : List DataType :=
  [.timestamp, .int32, .uint32, .int64, .uint64, .float64, .boolean, .utf8]

/-- `getTypePreference` -/
def getTypePreference : DataType → Nat
  | .timestamp => 100
  | .int32 => 40
  | .uint32 => 39
  | .int64 => 38
  | .uint64 => 37
  | .float64 => 20
  | .boolean => 10
  | .utf8 => 1
  | _ => 0

/-- `InferDataTypeImpl(hits)`: of the types with the most hits, the preferred one. -/
def inferFromHits (hits : List (DataType × Nat)) : DataType :=
  let byHits := hits.insertionSort (fun l r => l.2 ≤ r.2)
  match byHits.getLast? with
  | none => .null
  | some (_, best) =>
    let matches' := byHits.filter (fun e => decide (best ≤ e.2))
    match (matches'.insertionSort
        (fun l r => getTypePreference l.1 ≤ getTypePreference r.1)).getLast? with
    | none => .null
    | some (t, _) => t

/-! ## The type of a sampled value -/

/-- The fields of a struct type are sorted by name. -/
def sortFields (fields : List (String × DataType)) : List (String × DataType) :=
  fields.insertionSort (fun l r => l.1 ≤ r.1)

mutual

/-- `InferDataTypeImpl(value)` -/
def inferDataType : Json → DataType
  | .array elements => inferElement elements
  | .object members => .struct (sortFields (inferMembers members))
  | .number _ => .float64
  | .string _ => .utf8
  | .null => .null
  | .bool _ => .boolean

/-- The first element that is not null decides. -/
def inferElement : List Json → DataType
  | [] => .utf8
  | .null :: rest => inferElement rest
  | v :: _ => .list (inferDataType v)

def inferMembers : List (String × Json) → List (String × DataType)
  | [] => []
  | (k, v) :: rest => (getString k, inferDataType v) :: inferMembers rest

end

/-- The median of the types of sampled values. -/
def medianType (arrow : Externals) (types : List DataType) : DataType :=
  let sorted := types.insertionSort (fun l r => arrow.fingerprint l ≤ arrow.fingerprint r)
  (sorted[sorted.length / 2]?).getD .null

end Haybarn.Json
