import Mathlib
import Haybarn.Lib.TypedHeap
import Haybarn.Lib.TextDecoder
import Haybarn.Lib.Utf8

/-!
# Calling a scalar function of JavaScript

`CallScalarUDFFunction` (lib/src/webdb.cc) describes the argument vectors of a chunk to
`callScalarUDF` (bindings/udf_runtime.ts), which calls the function once for each row and
leaves its results in blocks it allocates; `CallScalarUDFFunction` then reads them.

Mirroring notes:

* The description reaches JavaScript as it was written, and what is reported at the end
  (`response`) is the result of the function; neither is written to the memory.
* The depth-first traversal of `CreateDataView` has an explicit stack; here it is a recursion,
  which visits the vectors in the same order.
* Whether an allocation of `callScalarUDF` makes the memory grow is up to `Env.grows`, by the
  number of the allocation. The allocations of `CreateDataView` are made when there is no view.
* The names of the entries of a struct are distinct, so that an assignment to a property of the
  object that stands for a row adds it.
* The object that stands for a struct is one for all rows, and its properties are set again for
  each. A function of the values in it cannot tell.
* Blocks and vectors are aligned, so that a typed array can be made of them.
* A vector that is not flat has been flattened. The logical types are told apart as far as
  `CreateDataView` does.
* Strings are taken as sequences of characters; a surrogate without its other half is none.
-/

namespace Haybarn.Udf

open Haybarn.Lib Haybarn.Lib.TypedHeap

/-! ## Types and values -/

/-- `PhysicalType`, as far as udf_runtime.ts knows it by its name. -/
inductive PhysicalType
  | UINT8
  | INT8
  | INT32
  | FLOAT
  | INT64
  | UINT64
  | DOUBLE
  | VARCHAR
  | STRUCT
  | other (name : String)
  deriving DecidableEq

/-- `TypeIdToString` -/
def PhysicalType.name : PhysicalType → String
  | UINT8 => "UINT8"
  | INT8 => "INT8"
  | INT32 => "INT32"
  | FLOAT => "FLOAT"
  | INT64 => "INT64"
  | UINT64 => "UINT64"
  | DOUBLE => "DOUBLE"
  | VARCHAR => "VARCHAR"
  | STRUCT => "STRUCT"
  | other name => name

def getTypeSize : PhysicalType → Nat
  | .UINT8 | .INT8 => 1
  | .INT32 | .FLOAT => 4
  | .INT64 | .UINT64 | .DOUBLE | .VARCHAR => 8
  | _ => 0

/-- The elements of the array that `ptrToArray` makes of a type, where it makes one. -/
def elementType : PhysicalType → Option ElementType
  | .UINT8 => some .uint8
  | .INT8 => some .int8
  | .INT32 => some .int32
  | .FLOAT => some .float32
  | .DOUBLE | .VARCHAR => some .float64
  | _ => none

/-- A value of JavaScript. -/
inductive JsVal (N : Type)
  | undefined
  | null
  | bool (b : Bool)
  | number (x : N)
  | str (s : String)
  | object (fields : List (String × JsVal N))

def JsVal.isNullish {N : Type} : JsVal N → Bool
  | undefined | null => true
  | _ => false

/-- What the call rests on: numbers, the conversions of JavaScript and the allocator. -/
structure Env (N : Type) where
  num : Numbers N
  /-- `ToNumber` -/
  toNumber : JsVal N → N
  /-- `ToString` -/
  toText : JsVal N → String
  /-- `ToBoolean` -/
  truthy : JsVal N → Bool
  allocator : Allocator
  /-- Does this allocation of `callScalarUDF` make the memory grow? -/
  grows : Nat → Bool
  toNumber_number : ∀ x, toNumber (.number x) = x
  toText_str : ∀ s, toText (.str s) = s

/-! ## Vectors -/

/-- The types of numbers that `CreateDataView` supports. -/
inductive NumberType
  | INTEGER
  | DOUBLE
  deriving DecidableEq

namespace NumberType

def physicalType : NumberType → PhysicalType
  | INTEGER => .INT32
  | DOUBLE => .DOUBLE

def elementType : NumberType → ElementType
  | INTEGER => .int32
  | DOUBLE => .float64

end NumberType

mutual

/-- A flat vector: which rows are valid, and where the values are. -/
inductive FlatVector
  | number (type : NumberType) (validity : Nat → Bool) (data : Nat)
  /-- A VARCHAR or BLOB: `GetDataUnsafe` and `GetSize` of each `string_t`. -/
  | varchar (validity : Nat → Bool) (data size : Nat → Nat)
  | struct (validity : Nat → Bool) (entries : StructEntries)
  /-- Any other logical type. -/
  | other (sqlType : String) (validity : Nat → Bool)

/-- The entries of a struct with their names. -/
inductive StructEntries
  | nil
  | cons (name : String) (entry : FlatVector) (entries : StructEntries)

end

/-- `FlatVector::Validity(vec).RowIsValid` -/
def FlatVector.RowIsValid : FlatVector → Nat → Bool
  | number _ validity _ => validity
  | varchar validity _ _ => validity
  | struct validity _ => validity
  | other _ validity => validity

def FlatVector.isVarchar : FlatVector → Bool
  | varchar .. => true
  | _ => false

variable {N : Type}

section Values

variable [DecidableEq N] (num : Numbers N) (decode : List UInt8 → String) (h : Heap N) (row : Nat)

mutual

/-- The value in a row, where `decode` says what text bytes are. -/
def FlatVector.valueAt : FlatVector → JsVal N
  | .number type validity data =>
    if validity row then
      .number (load num h.cells type.elementType (data + row * type.elementType.size))
    else .null
  | .varchar validity data size =>
    if validity row then .str (decode (loadBytes num h.cells (data row) (size row))) else .null
  | .struct validity entries =>
    if validity row then .object (StructEntries.valuesAt entries) else .null
  | .other _ _ => .undefined

def StructEntries.valuesAt : StructEntries → List (String × JsVal N)
  | .nil => []
  | .cons name entry entries => (name, FlatVector.valueAt entry) :: StructEntries.valuesAt entries

end

mutual

/-- No string of the row has a byte order mark in front. -/
def FlatVector.Unmarked : FlatVector → Prop
  | .number .. => True
  | .varchar validity data size =>
    validity row = true → ¬TextDecoder.byteOrderMark <+: loadBytes num h.cells (data row) (size row)
  | .struct validity entries => validity row = true → StructEntries.Unmarked entries
  | .other .. => True

def StructEntries.Unmarked : StructEntries → Prop
  | .nil => True
  | .cons _ entry entries => FlatVector.Unmarked entry ∧ StructEntries.Unmarked entries

end

end Values

section InUse

variable (blocks : List Block) (rows : Nat)

mutual

/-- The type is supported, and what the rows point to is in use. -/
def FlatVector.InUse : FlatVector → Prop
  | .number type _ data => ∃ b ∈ blocks, b.Spans data (rows * type.elementType.size)
  | .varchar validity data size =>
    ∀ row < rows, validity row = true → ∃ b ∈ blocks, b.Spans (data row) (size row)
  | .struct _ entries => StructEntries.InUse entries
  | .other .. => False

def StructEntries.InUse : StructEntries → Prop
  | .nil => True
  | .cons _ entry entries => FlatVector.InUse entry ∧ StructEntries.InUse entries

end

end InUse

/-- A chunk of arguments of supported types, in a memory. -/
structure DataChunk (N : Type) where
  heap : Heap N
  rows : Nat
  columns : List FlatVector
  inUse : ∀ c ∈ columns, c.InUse heap.blocks rows
  /-- Nothing is at the null pointer. -/
  nonnull : ∀ b ∈ heap.blocks, 0 < b.ptr

/-! ## The description of the arguments -/

structure ArgumentTypeDescription where
  name : Option String
  physicalType : PhysicalType
  validityBuffer : Option Nat := none
  dataBuffer : Option Nat := none
  lengthBuffer : Option Nat := none
  children : List ArgumentTypeDescription := []

/-- The memory, and `data_ptrs`. -/
structure Buffers (N : Type) where
  heap : Heap N
  dataPtrs : List Nat

section CreateDataView

variable (env : Env N) (rows : Nat)

/-- `create_additional_buffer`; the index of the buffer is the length of `data_ptrs` before. -/
def createAdditionalBuffer (k : ElementType) (xs : Nat → N) (s : Buffers N) : Buffers N :=
  { heap := s.heap.newArray env.allocator k xs rows
    dataPtrs := s.dataPtrs ++ [env.allocator.place s.heap.blocks (rows * k.size)] }

/-- The validity vector of a vector. -/
def createValidity (vec : FlatVector) : Buffers N → Buffers N :=
  createAdditionalBuffer env rows .uint8 fun row => env.num.ofNat (vec.RowIsValid row).toNat

mutual

def createDataView (name : Option String) (vec : FlatVector) (s : Buffers N) :
    Except String (ArgumentTypeDescription × Buffers N) :=
  let validity_idx := s.dataPtrs.length
  let s := createValidity env rows vec s
  match vec with
  | .number type _ data =>
    .ok ({ name, physicalType := type.physicalType, validityBuffer := some validity_idx
           dataBuffer := some s.dataPtrs.length },
      { s with dataPtrs := s.dataPtrs ++ [data] })
  | .varchar _ data size =>
    let data_idx := s.dataPtrs.length
    let s := createAdditionalBuffer env rows .float64 (fun row => env.num.ofNat (data row)) s
    let length_idx := s.dataPtrs.length
    let s := createAdditionalBuffer env rows .float64 (fun row => env.num.ofNat (size row)) s
    .ok ({ name, physicalType := .VARCHAR, validityBuffer := some validity_idx
           dataBuffer := some data_idx, lengthBuffer := some length_idx }, s)
  | .struct _ entries => do
    let (children, s) ← createDataViews entries s
    .ok ({ name, physicalType := .STRUCT, validityBuffer := some validity_idx, children }, s)
  | .other sqlType _ => .error ("Unsupported UDF argument type " ++ sqlType)

/-- The views of the entries of a struct. -/
def createDataViews (entries : StructEntries) (s : Buffers N) :
    Except String (List ArgumentTypeDescription × Buffers N) :=
  match entries with
  | .nil => .ok ([], s)
  | .cons name entry entries => do
    let (desc, s) ← createDataView (some name) entry s
    let (descs, s) ← createDataViews entries s
    .ok (desc :: descs, s)

end

/-- The views of the columns of a chunk. -/
def createColumnViews (columns : List FlatVector) (s : Buffers N) :
    Except String (List ArgumentTypeDescription × Buffers N) :=
  match columns with
  | [] => .ok ([], s)
  | vec :: columns => do
    let (desc, s) ← createDataView env rows none vec s
    let (descs, s) ← createColumnViews columns s
    .ok (desc :: descs, s)

end CreateDataView

/-! ## The arguments of a row -/

section Views

variable (h : Heap N) (ptr : Nat)

/-- `ptrToArray`; an array that is not over the memory has no elements. -/
def ptrToArray (ptype : PhysicalType) (n : Nat) : View :=
  match elementType ptype with
  | some k => ⟨h.grown, k, ptr, n⟩
  | none => ⟨h.grown, .uint8, ptr, 0⟩

def ptrToUint8Array (n : Nat) : View := ⟨h.grown, .uint8, ptr, n⟩

def ptrToFloat64Array (n : Nat) : View := ⟨h.grown, .float64, ptr, n⟩

end Views

/-- What reads an argument: the function that `buildResolver` returns, with what it has
captured. -/
inductive Resolver
  | strings (strings : List (Option String))
  | struct (validity : Option View) (children : List (String × Resolver))
  | data (validity : Option View) (data : View)

section Resolvers

variable [DecidableEq N] (env : Env N)

/-- `validity != null && !validity[row]` -/
def hides (h : Heap N) (row : Nat) : Option View → Bool
  | none => false
  | some validity =>
    match validity.get h env.num row with
    | none => true
    | some x => x = env.num.ofNat 0

/-- `array[row] as number` -/
def addressAt (h : Heap N) (array : View) (row : Nat) : Nat :=
  match array.get h env.num row with
  | none => 0
  | some x => env.num.toNat x

section BuildResolver

variable (ptrs : List Nat) (h : Heap N) (rows : Nat)

/-- `ptrs[i] as number`: no pointer is an offset of zero. -/
def ptrAt (i : Nat) : Nat := ptrs.getD i 0

/-- The strings of a VARCHAR argument. -/
def readStrings (validity : Option View) (raw stringLengths : View) : List (Option String) :=
  (List.range rows).map fun j =>
    if hides env h j validity then none
    else some (TextDecoder.decode
      (loadBytes env.num h.cells (addressAt env h raw j) (addressAt env h stringLengths j)))

mutual

def buildResolver (arg : ArgumentTypeDescription) : Except String Resolver :=
  match arg with
  | ⟨_, physicalType, validityBuffer, dataBuffer, lengthBuffer, children⟩ =>
    let validity := validityBuffer.map fun i => ptrToUint8Array h (ptrAt ptrs i) rows
    match physicalType with
    | .VARCHAR =>
      match dataBuffer with
      | none => .error "malformed data view, expected data buffer for VARCHAR argument"
      | some data =>
        match lengthBuffer with
        | none => .error "malformed data view, expected data length buffer for VARCHAR argument"
        | some length =>
          let raw := ptrToArray h (ptrAt ptrs data) .VARCHAR rows
          let stringLengths := ptrToFloat64Array h (ptrAt ptrs length) rows
          .ok (.strings (readStrings env h rows validity raw stringLengths))
    | .STRUCT => do
      let children ← buildResolvers children
      .ok (.struct validity children)
    | physicalType =>
      match dataBuffer with
      | none =>
        .error ("malformed data view, expected data buffer for argument of type: " ++
          physicalType.name)
      | some data => .ok (.data validity (ptrToArray h (ptrAt ptrs data) physicalType rows))

/-- The resolvers of the entries of a struct, with the properties they assign. -/
def buildResolvers (args : List ArgumentTypeDescription) :
    Except String (List (String × Resolver)) :=
  match args with
  | [] => .ok []
  | arg :: args => do
    let child ← buildResolver arg
    let children ← buildResolvers args
    .ok ((arg.name.getD "undefined", child) :: children)

end

/-- The resolvers of the arguments. -/
def buildArgResolvers (args : List ArgumentTypeDescription) : Except String (List Resolver) :=
  match args with
  | [] => .ok []
  | arg :: args => do
    let resolver ← buildResolver env ptrs h rows arg
    let resolvers ← buildArgResolvers args
    .ok (resolver :: resolvers)

end BuildResolver

section Resolve

variable (h : Heap N) (row : Nat)

mutual

/-- Call a resolver. -/
def resolve (r : Resolver) : JsVal N :=
  match r with
  | .strings strings =>
    match strings[row]? with
    | none => .undefined
    | some none => .null
    | some (some s) => .str s
  | .struct validity children =>
    if hides env h row validity then .null else .object (resolveChildren children)
  | .data validity data =>
    if hides env h row validity then .null
    else
      match data.get h env.num row with
      | none => .undefined
      | some x => .number x

def resolveChildren (children : List (String × Resolver)) : List (String × JsVal N) :=
  match children with
  | [] => []
  | (name, child) :: children => (name, resolve child) :: resolveChildren children

end

end Resolve

end Resolvers

/-! ## The call -/

/-- A function of the user, which may throw. -/
abbrev UDFFunction (N : Type) : Type := List (JsVal N) → Except String (JsVal N)

/-- The result type of a function: `out.GetType()`. -/
structure ReturnType where
  physicalType : PhysicalType
  /-- `out.GetType().id() == LogicalTypeId::VARCHAR`; a BLOB has the same physical type. -/
  isVarchar : Bool
  varchar : isVarchar = true → physicalType = .VARCHAR

section Call

variable [DecidableEq N] (env : Env N)

/-- `mod._malloc`: the allocation with a number. -/
def malloc (number : Nat) (h : Heap N) (n : Nat) : Heap N :=
  h.malloc env.allocator (env.grows number) n

/-- Where `mod._malloc` puts a block. -/
def mallocPtr (h : Heap N) (n : Nat) : Nat := env.allocator.place h.blocks n

/-- What the calls have left: the memory, and `rawResultData` where it is an array of values. -/
structure Progress (N : Type) where
  heap : Heap N
  rawResultData : List (JsVal N)

section Rows

variable (udf : UDFFunction N) (ptype : PhysicalType) (resolvers : List Resolver)
  (resultData resultValidity : View)

/-- One row of the call. -/
def callRow (i : Nat) (s : Progress N) : Except String (Progress N) := do
  let args := resolvers.map fun resolver => resolve env s.heap i resolver
  let res ← udf args
  let heap := if ptype = .VARCHAR then s.heap
    else resultData.set s.heap env.num i (env.toNumber res)
  .ok {
    heap := resultValidity.set heap env.num i (env.num.ofNat (if res.isNullish then 0 else 1))
    rawResultData := s.rawResultData ++ [res] }

/-- The first `n` rows. -/
def callRows (h : Heap N) : Nat → Except String (Progress N)
  | 0 => .ok ⟨h, []⟩
  | n + 1 => do
    let s ← callRows h n
    callRow env udf ptype resolvers resultData resultValidity n s

end Rows

/-- `TEXT_ENCODER.encode(res || '')` -/
def encodeResult (res : JsVal N) : List UInt8 :=
  textEncode (env.toText (if env.truthy res then res else .str ""))

/-- Copy the strings to the buffer, from `row` and `writerOffset` on. -/
def copyStrings (resultData resultStringBuf : View) :
    Heap N → Nat → Nat → List (List UInt8) → Heap N
  | h, _, _, [] => h
  | h, row, writerOffset, resultUTF8 :: rest =>
    let h := resultData.set h env.num row (env.num.ofNat writerOffset)
    let h := resultStringBuf.setAll env.num h writerOffset
      (resultUTF8.map fun b => env.num.ofNat b.toNat)
    copyStrings resultData resultStringBuf h (row + 1) (writerOffset + resultUTF8.length) rest

/-- The strings of a VARCHAR result in memory. -/
def encodeStrings (resultData : View) (rows : Nat) (s : Progress N) : Heap N :=
  let resultLengthsPtr := mallocPtr env s.heap (rows * getTypeSize .DOUBLE)
  let h := malloc env 2 s.heap (rows * getTypeSize .DOUBLE)
  let resultLengths := ptrToFloat64Array h resultLengthsPtr rows
  let resultDataUTF8 := s.rawResultData.map (encodeResult env)
  let h := resultLengths.setAll env.num h 0
    (resultDataUTF8.map fun utf8 => env.num.ofNat utf8.length)
  let totalLength := (resultDataUTF8.map List.length).sum
  let resultStringPtr := mallocPtr env h totalLength
  let h := malloc env 3 h totalLength
  copyStrings env resultData (ptrToUint8Array h resultStringPtr totalLength) h 0 0 resultDataUTF8

/-- Store the pointers of the result. -/
def storePointers (number : Nat) (h : Heap N) (data validity lengths : Nat) : Nat × Heap N :=
  let retPtr := mallocPtr env h (3 * 8)
  let h := malloc env number h (3 * 8)
  let retBuffer := ptrToFloat64Array h retPtr 3
  (retPtr, retBuffer.setAll env.num h 0
    [env.num.ofNat data, env.num.ofNat validity, env.num.ofNat lengths])

/-- `callScalarUDF`: the pointer in the response, and the memory; or the message of the error. -/
def callScalarUDF (runtime : Nat → Option (UDFFunction N)) (funcId : Nat) (h : Heap N) (rows : Nat)
    (args : List ArgumentTypeDescription) (ptype : PhysicalType) (ptrs : List Nat) :
    Except String (Nat × Heap N) :=
  match runtime funcId with
  | none => .error ("Unknown UDF with id: " ++ toString funcId)
  | some udf => do
    let argResolvers ← buildArgResolvers env ptrs h rows args
    let resultDataLen := rows * getTypeSize ptype
    let resultDataPtr := mallocPtr env h resultDataLen
    let h := malloc env 0 h resultDataLen
    let resultData := ptrToArray h resultDataPtr ptype rows
    let resultValidityPtr := mallocPtr env h rows
    let h := malloc env 1 h rows
    let resultValidity := ptrToUint8Array h resultValidityPtr rows
    if resultData.size h = 0 ∨ resultValidity.size h = 0 then
      .error "Can't create physical arrays for result"
    else
      let s ← callRows env udf ptype argResolvers resultData resultValidity h rows
      if ptype = .VARCHAR then
        let resultLengthsPtr := mallocPtr env s.heap (rows * getTypeSize .DOUBLE)
        let h := encodeStrings env resultData rows s
        .ok (storePointers env 4 h resultDataPtr resultValidityPtr resultLengthsPtr)
      else .ok (storePointers env 2 s.heap resultDataPtr resultValidityPtr 0)

end Call

/-! ## The result vector -/

/-- A value that DuckDB receives. -/
inductive Value (N : Type)
  | number (x : N)
  | text (bytes : List UInt8)

section Receive

variable [DecidableEq N] (env : Env N)

/-- The bytes of a `string_t`: up to twelve are in it. -/
def stringAt (h : Heap N) (a : Nat) : List UInt8 :=
  let length := env.num.toNat (load env.num h.cells .uint32 a)
  if length ≤ 12 then loadBytes env.num h.cells (a + 4) length
  else loadBytes env.num h.cells (env.num.toNat (load env.num h.cells .uint32 (a + 8))) length

/-- A valid row of the result, of which `data` are the values and `lengths` the string lengths. No
type without elements gets here. -/
def receiveValue (ret : ReturnType) (h : Heap N) (data lengths row : Nat) : Value N :=
  if ret.isVarchar then
    let string_ptr := env.num.toNat (load env.num h.cells .float64 (data + row * 8))
    let length := env.num.toNat (load env.num h.cells .float64 (lengths + row * 8))
    .text (loadBytes env.num h.cells string_ptr length)
  else if ret.physicalType = .VARCHAR then .text (stringAt env h (data + row * 16))
  else
    match elementType ret.physicalType with
    | some k => .number (load env.num h.cells k (data + row * k.size))
    | none => .text []

/-- Read the result vector by the pointers that `callScalarUDF` has left at `retPtr`. -/
def receive (ret : ReturnType) (rows retPtr : Nat) (h : Heap N) : List (Option (Value N)) :=
  let res_arr := fun i => env.num.toNat (load env.num h.cells .float64 (retPtr + i * 8))
  (List.range rows).map fun row =>
    if load env.num h.cells .uint8 (res_arr 1 + row) = env.num.ofNat 0 then none
    else some (receiveValue env ret h (res_arr 0) (res_arr 2) row)

def CallScalarUDFFunction (runtime : Nat → Option (UDFFunction N)) (funcId : Nat) (h : Heap N)
    (rows : Nat) (columns : List FlatVector) (ret : ReturnType) : Except String (List (Option (Value N))) := do
  let (args, s) ← createColumnViews env rows columns ⟨h, []⟩
  let (retPtr, h) ←
    callScalarUDF env runtime funcId s.heap rows args ret.physicalType s.dataPtrs
  .ok (receive env ret rows retPtr h)

end Receive

end Haybarn.Udf
