import Haybarn.Arrow.Types
import Haybarn.Lib.JsonDoc

/-!
# Type definitions in JSON

`json_typedef.cc` writes a DuckDB type as a JSON object and reads such an object as an Arrow
type; `arrow_type_mapping.cc` maps Arrow types to DuckDB types.

Mirroring notes:
- A JSON object is the list of its members, and `FindMember` finds the first one of a name. Where
  the code dereferences the member without having found one, the result is `undefined`.
- Of a DuckDB type there is what `LogicalType::operator==` compares, as far as the three functions
  produce it or look at it: the id, an alias, the collation of a string, the children. What else
  belongs to types that the writer passes over (the members of an enumeration or a union, the
  size of an array) is left out.
- Arrow types without parameters are a `PlainType`. What the constructors of Arrow check (the
  range of a precision, the number of type codes) is left out, as is the text of a type in an
  error message.
-/

namespace Haybarn.Typedef

open Haybarn.Arrow (TimeUnit FieldHead)
open Haybarn.Lib.JsonDoc (Json Number)

/-- How a call fails. -/
inductive Failure
  /-- `Status::Invalid` -/
  | invalid (message : String)
  /-- `Status::NotImplemented` -/
  | notImplemented
  /-- An exception. -/
  | thrown (message : String)
  | undefined
  deriving DecidableEq, Repr

abbrev Result := Except Failure

/-! ## Types of DuckDB -/

inductive LogicalTypeId
  | INVALID | SQLNULL | UNKNOWN | ANY | UNBOUND | TEMPLATE | TYPE | BOOLEAN | TINYINT | SMALLINT
  | INTEGER | BIGINT | DATE | TIME | TIMESTAMP_SEC | TIMESTAMP_MS | TIMESTAMP | TIMESTAMP_NS
  | FLOAT | DOUBLE | CHAR | VARCHAR | BLOB | INTERVAL | UTINYINT | USMALLINT | UINTEGER
  | UBIGINT | TIMESTAMP_TZ | TIME_TZ | TIME_NS | BIT | STRING_LITERAL | INTEGER_LITERAL | BIGNUM
  | UHUGEINT | HUGEINT | POINTER | VALIDITY | UUID | GEOMETRY | TABLE | ENUM | AGGREGATE_STATE
  | LAMBDA | UNION | ARRAY | VARIANT
  deriving DecidableEq, Repr

/-- `LogicalType`. `STRUCT`, `LIST` and `MAP` have their children. -/
inductive LogicalType
  | plain (id : LogicalTypeId) (aliasName : String) (collation : String)
  | decimal (precision scale : Int)
  | struct (aliasName : String) (children : List (String × LogicalType))
  | list (aliasName : String) (child : LogicalType)
  | map (aliasName : String) (key value : LogicalType)

/-- The type that an id alone stands for. -/
def LogicalType.ofId (id : LogicalTypeId) : LogicalType := .plain id "" ""

/-! ## Types of Arrow -/

inductive PlainType
  | null | bool | uint8 | int8 | uint16 | int16 | uint32 | int32 | uint64 | int64 | halfFloat
  | float | double | string | binary | date32 | date64 | intervalMonths | intervalDayTime
  | intervalMonthDayNano | largeString | largeBinary | runEndEncoded | extension
  | stringView | binaryView | listView | largeListView
  deriving DecidableEq, Repr

inductive ListKind
  | list
  | largeList
  | fixedSizeList (listSize : Int)
  deriving DecidableEq, Repr

inductive UnionMode
  | sparse
  | dense
  deriving DecidableEq, Repr

inductive DataType
  | plain (type : PlainType)
  | timestamp (unit : TimeUnit) (timezone : String)
  | time32 (unit : TimeUnit)
  | time64 (unit : TimeUnit)
  | duration (unit : TimeUnit)
  | decimal (bits : Nat) (precision scale : Int)
  | fixedSizeBinary (byteWidth : Int)
  | list (kind : ListKind) (head : FieldHead) (value : DataType)
  | struct (fields : List (FieldHead × DataType))
  | dictionary
  | union (mode : UnionMode) (fields : List (FieldHead × DataType)) (typeCodes : List Int8)
  /-- The entry field of a map is its only one. -/
  | map (head : FieldHead) (entry : DataType) (keysSorted : Bool)

/-! ## Reading members -/

abbrev Members := List (String × Json)

/-- An integer that fits 32 bits: `IsInt()`. -/
def getInt? : Json → Option Int
  | .number (.integer minus n) =>
    let v := Number.value (.integer minus n)
    if -2 ^ 31 ≤ v ∧ v < 2 ^ 31 then some v else none
  | _ => none

def getIntField (obj : Members) (key : String) (default : Int) : Result Int :=
  match obj.lookup key with
  | none => .ok default
  | some v =>
    match getInt? v with
    | some n => .ok n
    | none => .error (.invalid ("member is not an integer: " ++ key))

def getBoolField (obj : Members) (key : String) (default : Bool) : Result Bool :=
  match obj.lookup key with
  | none => .ok default
  | some (.bool b) => .ok b
  | some _ => .error (.invalid ("member is not a boolean: " ++ key))

def getStringField (obj : Members) (key : String) : Result String :=
  match obj.lookup key with
  | none => .ok ""
  | some (.string s) => .ok s
  | some _ => .error (.invalid ("member is not a string: " ++ key))

def getArrayField (obj : Members) (key : String) : Result (List Json) :=
  match obj.lookup key with
  | none => .error .undefined
  | some (.array vs) => .ok vs
  | some _ => .error (.invalid ("member is not an array: " ++ key))

/-! ## Reading types -/

/-- The narrowest decimal with the precision. -/
def smallestDecimal (precision scale : Int) : DataType :=
  .decimal (if precision ≤ 9 then 32 else if precision ≤ 18 then 64
    else if precision ≤ 38 then 128 else 256) precision scale

/-- The three readers of decimals: `name` is in their messages, `make` in their results. -/
def readDecimal (name : String) (precision scale : Int) (make : Int → Int → DataType)
    (obj : Members) : Result DataType := do
  let precision ← getIntField obj "precision" precision
  let scale ← getIntField obj "scale" scale
  if precision ≤ 0 then .error (.invalid (name ++ " precision must be > 0"))
  else if scale < 0 then .error (.invalid (name ++ " scale must be >= 0"))
  else .ok (make precision scale)

def readDecimalType : Members → Result DataType := readDecimal "Decimal" 0 0 smallestDecimal

def readDecimal128Type : Members → Result DataType := readDecimal "Decimal128" 0 0 (.decimal 128)

def readDecimal256Type : Members → Result DataType := readDecimal "Decimal256" 12 2 (.decimal 256)

def readFixedSizeBinaryType (obj : Members) : Result DataType := do
  let byteWidth ← getIntField obj "byteWidth" 0
  if byteWidth = 0 then .error (.invalid "FixedSizeBinary byteLength must be > 0")
  else .ok (.fixedSizeBinary byteWidth)

def readTimestampType (unit : TimeUnit) (obj : Members) : Result DataType :=
  match obj.lookup "timezone" with
  | none => .ok (.timestamp unit "")
  | some (.string timezone) => .ok (.timestamp unit timezone)
  | some _ => .error (.invalid "timezone is not a string")

def readUnionMode (obj : Members) : Result UnionMode := do
  let mode ← getStringField obj "mode"
  if mode = "SPARSE" then .ok .sparse
  else if mode = "DENSE" then .ok .dense
  else .error (.invalid ("Invalid union mode: " ++ mode))

def readTypeCodes : List Json → Result (List Int8)
  | [] => .ok []
  | v :: vs =>
    match getInt? v with
    | none => .error (.invalid "Union type codes must be integers")
    | some n => (readTypeCodes vs).map (Int8.ofInt n :: ·)

/-- What `ARROW_TYPE_MAPPING` has for a name: a type, or a function that reads one. -/
inductive TypeResolver
  | type (t : DataType)
  | decimal
  | decimal128
  | decimal256
  | fixedSizeBinary
  | fixedSizeList
  | list
  | map
  | struct
  | union
  | timestamp (unit : TimeUnit)

def arrowTypeMapping : List (String × TypeResolver) :=
  [("binary", .type (.plain .binary)),
    ("bool", .type (.plain .bool)),
    ("boolean", .type (.plain .bool)),
    ("date", .type (.plain .date64)),
    ("date32", .type (.plain .date32)),
    ("date32[d]", .type (.plain .date32)),
    ("date64", .type (.plain .date64)),
    ("date64[ms]", .type (.plain .date64)),
    ("daytimeinterval", .type (.plain .intervalDayTime)),
    ("decimal", .decimal),
    ("decimal128", .decimal128),
    ("decimal256", .decimal256),
    ("double", .type (.plain .double)),
    ("duration", .type (.duration .milli)),
    ("duration[ms]", .type (.duration .milli)),
    ("duration[ns]", .type (.duration .nano)),
    ("duration[s]", .type (.duration .second)),
    ("duration[us]", .type (.duration .micro)),
    ("fixedsizebinary", .fixedSizeBinary),
    ("fixedsizelist", .fixedSizeList),
    ("float", .type (.plain .float)),
    ("float16", .type (.plain .halfFloat)),
    ("float32", .type (.plain .float)),
    ("float64", .type (.plain .double)),
    ("halffloat", .type (.plain .halfFloat)),
    ("int16", .type (.plain .int16)),
    ("int32", .type (.plain .int32)),
    ("int64", .type (.plain .int64)),
    ("int8", .type (.plain .int8)),
    ("interval[dt]", .type (.plain .intervalDayTime)),
    ("interval[m]", .type (.plain .intervalMonths)),
    ("largebinary", .type (.plain .largeBinary)),
    ("largeutf8", .type (.plain .largeString)),
    ("list", .list),
    ("map", .map),
    ("monthinterval", .type (.plain .intervalMonths)),
    ("null", .type (.plain .null)),
    ("string", .type (.plain .string)),
    ("struct", .struct),
    ("time", .type (.time32 .second)),
    ("time32[ms]", .type (.time32 .milli)),
    ("time32[s]", .type (.time32 .second)),
    ("time64[ns]", .type (.time64 .nano)),
    ("time64[us]", .type (.time64 .micro)),
    ("time[ms]", .type (.time32 .milli)),
    ("time[ns]", .type (.time64 .nano)),
    ("time[s]", .type (.time32 .second)),
    ("time[us]", .type (.time64 .micro)),
    ("timestamp", .timestamp .second),
    ("timestamp[s]", .timestamp .second),
    ("timestamp[ms]", .timestamp .milli),
    ("timestamp[us]", .timestamp .micro),
    ("timestamp[ns]", .timestamp .nano),
    ("uint16", .type (.plain .uint16)),
    ("uint32", .type (.plain .uint32)),
    ("uint64", .type (.plain .uint64)),
    ("uint8", .type (.plain .uint8)),
    ("union", .union),
    ("utf8", .type (.plain .string))]

/-- `arrow::field("entry", struct_({key, value}), false)` -/
def mapType (key value : DataType) (keysSorted : Bool) : DataType :=
  .map ⟨"entry", false⟩ (.struct [(⟨"key", false⟩, key), (⟨"value", true⟩, value)]) keysSorted

mutual

/-- `SQLToArrowType` -/
def sqlToArrowType (obj : Members) : Result DataType := do
  let name ← getStringField obj "sqlType"
  match arrowTypeMapping.lookup name.toLower with
  | none => .error (.invalid ("Unrecognized type name: " ++ name))
  | some (.type t) => .ok t
  | some .decimal => readDecimalType obj
  | some .decimal128 => readDecimal128Type obj
  | some .decimal256 => readDecimal256Type obj
  | some .fixedSizeBinary => readFixedSizeBinaryType obj
  | some .fixedSizeList =>
    let value ← memberType "valueType" obj
    let listSize ← getIntField obj "listSize" 0
    if listSize = 0 then .error (.invalid "FixedSizeList listSize must be > 0")
    else .ok (.list (.fixedSizeList listSize) ⟨"value", true⟩ value)
  | some .list =>
    let value ← memberType "valueType" obj
    .ok (.list .list ⟨"value", true⟩ value)
  | some .map =>
    let key ← memberType "keyType" obj
    let value ← memberType "valueType" obj
    let keysSorted ← getBoolField obj "keysSorted" false
    .ok (mapType key value keysSorted)
  | some .struct =>
    let fields ← memberFields "fields" obj
    .ok (.struct fields)
  | some .union =>
    let fields ← memberFields "fields" obj
    let mode ← readUnionMode obj
    let codes ← getArrayField obj "typeIds"
    let typeCodes ← readTypeCodes codes
    .ok (.union mode fields typeCodes)
  | some (.timestamp unit) => readTimestampType unit obj
termination_by (sizeOf obj, 1)

/-- The type under a key: `GetMemberObject`, then `SQLToArrowType`. -/
def memberType (key : String) : Members → Result DataType
  | [] => .error .undefined
  | (k, v) :: rest =>
    if key = k then
      match v with
      | .object members => sqlToArrowType members
      | _ => .error (.invalid ("member is not an object: " ++ key))
    else memberType key rest
termination_by obj => (sizeOf obj, 0)

/-- The fields under a key: `GetArrayField`, then `SQLToArrowFields`. -/
def memberFields (key : String) : Members → Result (List (FieldHead × DataType))
  | [] => .error .undefined
  | (k, v) :: rest =>
    if key = k then
      match v with
      | .array fields => sqlToArrowFields fields
      | _ => .error (.invalid ("member is not an array: " ++ key))
    else memberFields key rest
termination_by obj => (sizeOf obj, 0)

/-- `SQLToArrowFields` -/
def sqlToArrowFields : List Json → Result (List (FieldHead × DataType))
  | [] => .ok []
  | v :: vs => do
    let field ← sqlToArrowField v
    let rest ← sqlToArrowFields vs
    .ok (field :: rest)
termination_by fields => (sizeOf fields, 0)

/-- `SQLToArrowField` -/
def sqlToArrowField : Json → Result (FieldHead × DataType)
  | .object obj => do
    let name ← getStringField obj "name"
    let nullable ← getBoolField obj "nullable" true
    let type ← sqlToArrowType obj
    if name = "" then .error (.invalid "invalid field name") else .ok (⟨name, nullable⟩, type)
  | _ => .error (.invalid "Field was not a JSON object")
termination_by field => (sizeOf field, 0)

end

/-! ## Writing types -/

/-- What the switch of `WriteSQLType` makes of a type without children. -/
inductive Naming
  | unsupported
  | name (sqlType : String)
  /-- An object without members. -/
  | nothing
  deriving DecidableEq, Repr

def naming : LogicalTypeId → Naming
  | .UNBOUND | .GEOMETRY | .TYPE => .unsupported
  | .INVALID => .name "invalid"
  | .SQLNULL => .name "null"
  | .UNKNOWN => .name "unknown"
  | .ANY => .name "any"
  | .BOOLEAN => .name "bool"
  | .TINYINT => .name "int8"
  | .SMALLINT => .name "int16"
  | .INTEGER => .name "int32"
  | .BIGINT => .name "int64"
  | .DATE => .name "date32[d]"
  | .TIME => .name "time[us]"
  | .TIMESTAMP_SEC => .name "timestamp[s]"
  | .TIMESTAMP_MS => .name "timestamp[ms]"
  | .TIMESTAMP => .name "timestamp"
  | .TIMESTAMP_NS => .name "timestamp[ns]"
  | .FLOAT => .name "float"
  | .DOUBLE => .name "double"
  | .VARCHAR => .name "utf8"
  | _ => .nothing

mutual

/-- `WriteSQLType` -/
def writeSQLType : LogicalType → Result Members
  | .plain id _ _ =>
    match naming id with
    | .unsupported => .error (.thrown "unsupported type")
    | .name sqlType => .ok [("sqlType", .string sqlType)]
    | .nothing => .ok []
  | .decimal _ _ => .ok []
  | .struct _ children => do
    let fields ← writeSQLFields children
    .ok [("sqlType", .string "struct"), ("fields", .array fields)]
  | .list _ child => do
    let value ← writeSQLType child
    .ok [("sqlType", .string "list"), ("valueType", .object value)]
  | .map _ key value => do
    let key ← writeSQLType key
    let value ← writeSQLType value
    .ok [("sqlType", .string "map"), ("keyType", .object key), ("valueType", .object value)]

/-- `WriteSQLField` for each child. -/
def writeSQLFields : List (String × LogicalType) → Result (List Json)
  | [] => .ok []
  | (name, type) :: rest => do
    let out ← writeSQLType type
    let fields ← writeSQLFields rest
    .ok (.object (out ++ [("name", .string name)]) :: fields)

end

/-! ## Mapping types -/

/-- The types without parameters that the mapping has. -/
def mapPlainType : PlainType → Result LogicalTypeId
  | .null | .runEndEncoded => .ok .INVALID
  | .bool => .ok .BOOLEAN
  | .uint8 => .ok .UTINYINT
  | .int8 => .ok .TINYINT
  | .uint16 => .ok .USMALLINT
  | .int16 => .ok .SMALLINT
  | .uint32 => .ok .UINTEGER
  | .int32 => .ok .INTEGER
  | .uint64 => .ok .UBIGINT
  | .int64 => .ok .BIGINT
  | .halfFloat | .float => .ok .FLOAT
  | .double => .ok .DOUBLE
  | .string | .largeString => .ok .VARCHAR
  | .binary | .largeBinary => .ok .BLOB
  | .date32 | .date64 => .ok .DATE
  | .intervalMonths | .intervalDayTime | .intervalMonthDayNano => .ok .INTERVAL
  | .extension | .stringView | .binaryView | .listView | .largeListView => .error .notImplemented

mutual

/-- `mapArrowTypeToDuckDB` -/
def mapArrowTypeToDuckDB : DataType → Result LogicalType
  | .plain type => (mapPlainType type).map .ofId
  | .timestamp _ _ | .time32 _ | .time64 _ => .ok (.ofId .TIMESTAMP)
  | .duration _ => .ok (.ofId .TIME)
  | .decimal bits precision scale =>
    if bits = 128 ∨ bits = 256 then .ok (.decimal precision scale) else .ok (.ofId .INVALID)
  | .fixedSizeBinary _ => .ok (.ofId .BLOB)
  | .list _ _ value => (mapArrowTypeToDuckDB value).map (.list "")
  | .struct fields => (mapFields fields).map (.struct "")
  | .dictionary => .ok (.struct "" [])
  | .map head entry _ => (mapArrowTypeToDuckDB entry).map fun t => .struct "" [(head.name, t)]
  | .union _ _ _ => .error .notImplemented

def mapFields : List (FieldHead × DataType) → Result (List (String × LogicalType))
  | [] => .ok []
  | (head, type) :: rest => do
    let t ← mapArrowTypeToDuckDB type
    let children ← mapFields rest
    .ok ((head.name, t) :: children)

end

/-- A type is written, read and mapped. -/
def roundTrip (type : LogicalType) : Result LogicalType := do
  let written ← writeSQLType type
  let arrow ← sqlToArrowType written
  mapArrowTypeToDuckDB arrow

end Haybarn.Typedef
