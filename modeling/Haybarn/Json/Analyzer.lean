import Haybarn.Json.Types

/-!
# Inferring the type of a JSON table (`json_analyzer.cc`)

`InferTableType` reads a document once, event by event. Rows are counted per first-level key
(`JSONStructArrayAnalyzer`), columns one after the other (`JSONFlatArrayAnalyzer`); both are the
same handler (`JSONArrayAnalyzer`) around different statistics (`Shape`), and both keep a
reservoir sample of nested elements and strings. From the counters and the sample comes the type.

Mirroring notes:
- `none` is a run that the code does not survive: a counter bumped through the null pointer, an
  `assert` or an assertion of rapidjson that fails, the members of something that is no object.
- `stats_` of the row analyzer points into `field_stats_`; the model holds the key of the entry.
  `field_names_` grows with `field_stats_`, so its size is the number of entries.
- The counters are unbounded.
- `slots` is what `Insert` draws once the reservoir is full, call by call.
- The loops of `InferTableType` are the states of a reader that takes one token at a time
  (`TableAnalyzer`); a token is an event with the position of the stream behind it.
-/

namespace Haybarn.Json

open Lib.JsonDoc

/-! ## Statistics -/

/-- Statistics about a JSON array. -/
@[ext] structure JSONArrayStats where
  counterBool : Nat := 0
  counterString : Nat := 0
  counterInt32 : Nat := 0
  counterInt64 : Nat := 0
  counterUint32 : Nat := 0
  counterUint32Max : Nat := 0
  counterUint64 : Nat := 0
  counterUint64Max : Nat := 0
  counterDouble : Nat := 0
  counterObject : Nat := 0
  counterArray : Nat := 0
  deriving DecidableEq, Repr

instance : Zero JSONArrayStats := ⟨{}⟩

instance : Add JSONArrayStats where
  add s t :=
    { counterBool := s.counterBool + t.counterBool
      counterString := s.counterString + t.counterString
      counterInt32 := s.counterInt32 + t.counterInt32
      counterInt64 := s.counterInt64 + t.counterInt64
      counterUint32 := s.counterUint32 + t.counterUint32
      counterUint32Max := s.counterUint32Max + t.counterUint32Max
      counterUint64 := s.counterUint64 + t.counterUint64
      counterUint64Max := s.counterUint64Max + t.counterUint64Max
      counterDouble := s.counterDouble + t.counterDouble
      counterObject := s.counterObject + t.counterObject
      counterArray := s.counterArray + t.counterArray }

/-- The `BUMP`s of the handlers: what the handler of an event adds to the counters. The other
handlers have none. -/
def bumps : Event → Option JSONArrayStats
  | .string _ => some { counterString := 1 }
  | .bool _ => some { counterBool := 1 }
  | .number x =>
    match x.kind with
    | .int => some { counterInt32 := 1 }
    | .int64 => some { counterInt64 := 1 }
    | .uint =>
      some { counterUint32 := 1, counterUint32Max := if 2 ^ 31 - 1 ≤ x.value then 1 else 0 }
    | .uint64 =>
      some { counterUint64 := 1, counterUint64Max := if 2 ^ 63 - 1 ≤ x.value then 1 else 0 }
    | .double => some { counterDouble := 1 }
  | .startObject => some { counterObject := 1 }
  | .startArray => some { counterArray := 1 }
  | .null | .key _ | .endObject _ | .endArray _ => none

/-! ## The sample -/

/-- A counter for reservoir sampling. -/
structure ReservoirSampleCounter where
  size : Nat := 0
  /-- How often the random engine was asked. -/
  draws : Nat := 0

/-- The slots that the random engine gives, `none` for an element that is left out. -/
abbrev Slots := Nat → Option (Fin 1024)

/-- `Insert` -/
def ReservoirSampleCounter.insert (slots : Slots) (c : ReservoirSampleCounter) :
    Option Nat × ReservoirSampleCounter :=
  if c.size < 1024 then (some c.size, { c with size := c.size + 1 })
  else ((slots c.draws).map (·.val), { c with draws := c.draws + 1 })

/-! ## The handlers -/

/-- What an analyzer counts into. -/
structure Shape (σ : Type) where
  /-- The nesting depth at which the actual data can be found. -/
  dataDepth : Nat
  /-- A key at that depth. -/
  key : String → σ → σ
  /-- `++stats_->COUNTER` -/
  bump : JSONArrayStats → σ → Option σ
  /-- What the end of an object or an array does to `stats_`. -/
  close : σ → σ

/-- `JSONArrayAnalyzer`. The start of the array is already consumed. -/
structure JSONArrayAnalyzer (σ : Type) where
  currentDepth : Nat := 1
  target : σ
  /-- The stack of the sample buffer. -/
  sampleBuffer : List Json := []
  sample : List Json := []
  sampleIdx : Option Nat := none
  sampleCounter : ReservoirSampleCounter := {}

namespace JSONArrayAnalyzer

variable {σ : Type} (S : Shape σ) (slots : Slots)

/-- Saw the closing array event? -/
def done (a : JSONArrayAnalyzer σ) : Bool := a.currentDepth == 0

/-- `BUMP` -/
def count (e : Event) (a : JSONArrayAnalyzer σ) : Option (JSONArrayAnalyzer σ) :=
  match bumps e with
  | none => some a
  | some d =>
    if a.currentDepth = S.dataDepth then (S.bump d a.target).map fun t => { a with target := t }
    else some a

/-- `if (current_depth_ == sample_depth_) sample_idx_ = sample_counter_.Insert();` -/
def choose (a : JSONArrayAnalyzer σ) : JSONArrayAnalyzer σ :=
  if a.currentDepth = 1 then
    { a with
      sampleIdx := (a.sampleCounter.insert slots).1
      sampleCounter := (a.sampleCounter.insert slots).2 }
  else a

/-- The event goes to the sample buffer if the element is sampled. -/
def write (e : Event) (a : JSONArrayAnalyzer σ) : JSONArrayAnalyzer σ :=
  if a.sampleIdx.isSome then { a with sampleBuffer := build a.sampleBuffer e } else a

/-- `Emit`: at the sample depth the buffer holds one value, which becomes the sample's. -/
def emit (a : JSONArrayAnalyzer σ) : Option (JSONArrayAnalyzer σ) :=
  match a.sampleIdx with
  | none => some a
  | some i =>
    if 1 < a.currentDepth then some a
    else
      match a.sampleBuffer with
      | [v] =>
        if i = a.sample.length then
          some { a with sample := a.sample ++ [v], sampleBuffer := [], sampleIdx := none }
        else if i < a.sample.length then
          some { a with sample := a.sample.set i v, sampleBuffer := [], sampleIdx := none }
        else none
      | _ => none

/-- The handler of an event. -/
def handle (a : JSONArrayAnalyzer σ) : Event → Option (JSONArrayAnalyzer σ)
  | .key k =>
    some (write (.key k)
      (if a.currentDepth = S.dataDepth then { a with target := S.key k a.target } else a))
  | .string s => (a.count S (.string s)).bind fun b => ((b.choose slots).write (.string s)).emit
  | .startObject =>
    (a.count S .startObject).map fun b =>
      write .startObject { b.choose slots with currentDepth := b.currentDepth + 1 }
  | .startArray =>
    (a.count S .startArray).map fun b =>
      write .startArray { b.choose slots with currentDepth := b.currentDepth + 1 }
  | .endObject n =>
    (write (.endObject n)
      { a with currentDepth := a.currentDepth - 1, target := S.close a.target }).emit
  | .endArray n =>
    (write (.endArray n)
      { a with currentDepth := a.currentDepth - 1, target := S.close a.target }).emit
  | e => (a.count S e).bind fun b => (b.write e).emit

/-- Event after event. -/
def feed (a : JSONArrayAnalyzer σ) : List Event → Option (JSONArrayAnalyzer σ)
  | [] => some a
  | e :: es => (a.handle S slots e).bind fun b => b.feed es

end JSONArrayAnalyzer

/-- Type detection helper for flat json arrays. -/
def flatArray : Shape JSONArrayStats where
  dataDepth := 1
  key _ t := t
  bump d t := some (t + d)
  close t := t

/-- The first-level fields with their statistics, and the one that is counted into. -/
structure FieldStats where
  stats : Option String := none
  fieldStats : List (String × JSONArrayStats) := []
  deriving DecidableEq

/-- The first-level field limit. -/
def fieldLimit : Nat := 100

/-- Add to the counters of an entry. -/
def addTo (k : String) (d : JSONArrayStats) (entries : List (String × JSONArrayStats)) :
    List (String × JSONArrayStats) :=
  entries.map fun e => if e.1 = k then (e.1, e.2 + d) else e

/-- Type detection helper for json struct arrays. -/
def structArray : Shape FieldStats where
  dataDepth := 2
  key k t :=
    if k ∈ t.fieldStats.map Prod.fst then { t with stats := some k }
    else if t.fieldStats.length < fieldLimit then
      { stats := some k, fieldStats := t.fieldStats ++ [(k, 0)] }
    else t
  bump d t := t.stats.map fun k => { t with fieldStats := addTo k d t.fieldStats }
  close t := { t with stats := none }

/-! ## From statistics to types -/

/-- The cascade for fields without objects, arrays and strings. `forced64` is what 64-bit
integers, or negative ones next to large ones of 32 bits, are forced into. -/
def scalarType (forced64 : DataType) (stats : JSONArrayStats) : DataType :=
  if stats.counterDouble > 0 then .float64
  else if stats.counterUint64Max > 0 then
    if stats.counterInt64 > 0 ∨ stats.counterInt32 > 0 then .float64 else .uint64
  else if (stats.counterInt64 > 0 ∨ stats.counterUint64 > 0) ∨
      (stats.counterInt32 > 0 ∧ stats.counterUint32Max > 0) then forced64
  else if stats.counterUint32Max > 0 then .uint32
  else if stats.counterInt32 > 0 ∨ stats.counterUint32 > 0 then .int32
  else if stats.counterBool > 0 then .boolean
  else .null

/-- The field has objects or arrays, which win over everything. -/
def inferredDirectly (stats : JSONArrayStats) : Bool :=
  stats.counterObject > 0 ∨ stats.counterArray > 0

/-- The field has strings, which win over numbers. -/
def inferredFromAnalyzers (stats : JSONArrayStats) : Bool :=
  ¬ inferredDirectly stats ∧ stats.counterString > 0

/-- `InferDataTypeImpl(stats, samples)`, the type of a column. -/
def inferColumnType (arrow : Externals) (stats : JSONArrayStats) (samples : List Json) : DataType :=
  if inferredDirectly stats then medianType arrow (samples.map inferDataType)
  else if inferredFromAnalyzers stats then
    inferFromHits (analyzers.map fun t => (t, samples.countP (testValue arrow t)))
  else scalarType .int64 stats

/-- The pending fields: the types seen in the sample, and the hits of the analyzers. -/
structure PendingFields where
  inferDirectly : List (String × List DataType)
  inferFromAnalyzers : List (String × List Nat)

/-- A member of a sampled row. -/
def PendingFields.member (arrow : Externals) (p : PendingFields) (m : String × Json) :
    PendingFields :=
  let name := getString m.1
  if name ∈ p.inferDirectly.map Prod.fst then
    { p with
      inferDirectly := p.inferDirectly.map fun e =>
        if e.1 = name then (e.1, e.2 ++ [inferDataType m.2]) else e }
  else if name ∈ p.inferFromAnalyzers.map Prod.fst then
    { p with
      inferFromAnalyzers := p.inferFromAnalyzers.map fun e =>
        if e.1 = name then
          (e.1, List.zipWith (fun h t => h + (testValue arrow t m.2).toNat) e.2 analyzers)
        else e }
  else p

/-- The members of all sampled rows. -/
def PendingFields.rows (arrow : Externals) (p : PendingFields) : List Json → Option PendingFields
  | [] => some p
  | .object members :: rest => (members.foldl (PendingFields.member arrow) p).rows arrow rest
  | _ :: _ => none

/-- `InferDataTypeImpl(field_stats, samples)`, the fields of the struct type of a row. -/
def inferRowFields (arrow : Externals) (fieldStats : List (String × JSONArrayStats))
    (samples : List Json) : Option (List (String × DataType)) :=
  let ready := (fieldStats.filter fun f =>
    ¬ inferredDirectly f.2 ∧ ¬ inferredFromAnalyzers f.2).map
      fun f => (f.1, scalarType .uint64 f.2)
  let pending : PendingFields :=
    { inferDirectly := (fieldStats.filter fun f => inferredDirectly f.2).map fun f => (f.1, [])
      inferFromAnalyzers := (fieldStats.filter fun f => inferredFromAnalyzers f.2).map
        fun f => (f.1, analyzers.map fun _ => 0) }
  -- Need to check the sample?
  if pending.inferDirectly.isEmpty ∧ pending.inferFromAnalyzers.isEmpty then
    some (sortFields ready)
  else
    (pending.rows arrow samples).map fun p =>
      sortFields (ready ++
        p.inferDirectly.map (fun e => (e.1, medianType arrow e.2)) ++
        p.inferFromAnalyzers.map fun e => (e.1, inferFromHits (analyzers.zip e.2)))

/-! ## `InferTableType` -/

/-- An event, and the position of the stream behind it. -/
structure Token where
  event : Event
  tell : Nat

structure FileRange where
  offset : Nat
  size : Nat
  deriving DecidableEq, Repr

/-- The type of a table. -/
inductive TableType
  | unrecognized
  | rowArray (fields : List (String × DataType))
  | columnObject (fields : List (String × DataType)) (columnBoundaries : List (String × FileRange))

/-- `insert` of a map leaves an entry that exists. -/
def insertBoundary (name : String) (range : FileRange)
    (boundaries : List (String × FileRange)) : List (String × FileRange) :=
  if name ∈ boundaries.map Prod.fst then boundaries else boundaries ++ [(name, range)]

/-- Where `InferTableType` is. -/
inductive TableAnalyzer
  /-- Peek into the document. -/
  | peek
  /-- In the rows. -/
  | rows (analyzer : JSONArrayAnalyzer FieldStats)
  /-- Before a column. -/
  | columns (fields : List (String × DataType)) (boundaries : List (String × FileRange))
  /-- Behind the key of a column. -/
  | column (fields : List (String × DataType)) (boundaries : List (String × FileRange))
    (name : String)
  /-- In a column. -/
  | elements (fields : List (String × DataType)) (boundaries : List (String × FileRange))
    (name : String) (columnBegin : Nat) (analyzer : JSONArrayAnalyzer JSONArrayStats)
  | returned (type : TableType)

variable (arrow : Externals) (slots : Slots)

/-- The reader takes a token. -/
def TableAnalyzer.next (t : Token) : TableAnalyzer → Option TableAnalyzer
  | .peek =>
    match t.event with
    | .startArray => some (.rows { target := {} })
    | .startObject => some (.columns [] [])
    | _ => some (.returned .unrecognized)
  | .rows a => (a.handle structArray slots t.event).map .rows
  | .columns fields boundaries =>
    match t.event with
    | .key name => some (.column fields boundaries name)
    | _ => some (.returned (.columnObject (sortFields fields) boundaries))
  | .column fields boundaries name =>
    match t.event with
    | .startArray => some (.elements fields boundaries name (t.tell - 1) { target := 0 })
    | _ => some (.returned .unrecognized)
  | .elements fields boundaries name columnBegin a =>
    (a.handle flatArray slots t.event).map fun b =>
      if b.done then
        .columns (fields ++ [(name, inferColumnType arrow b.target b.sample)])
          (insertBoundary name ⟨columnBegin, t.tell - columnBegin⟩ boundaries)
      else .elements fields boundaries name columnBegin b
  | .returned type => some (.returned type)

/-- The end of the document. -/
def TableAnalyzer.finish : TableAnalyzer → Option TableType
  | .rows a =>
    if a.done then (inferRowFields arrow a.target.fieldStats a.sample).map .rowArray else none
  | .returned type => some type
  | _ => none

/-- The reader takes the tokens of a document. -/
def TableAnalyzer.run (s : TableAnalyzer) : List Token → Option TableAnalyzer
  | [] => some s
  | t :: ts => (s.next arrow slots t).bind fun s' => s'.run ts

/-- `InferTableType` of the tokens of a well-formed document. -/
def inferTableType (tokens : List Token) : Option TableType :=
  (TableAnalyzer.run arrow slots .peek tokens).bind (TableAnalyzer.finish arrow)

end Haybarn.Json
