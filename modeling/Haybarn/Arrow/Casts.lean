import Haybarn.Arrow.Types

/-!
# Casts of query results (`arrow_casts.h`, `arrow_casts.cc`)

A query can ask for its bigints and decimals as doubles, its timestamps as dates and its durations
as times. `patchSchema` does so in the schema, `patchRecordBatch` in each batch.

The two do not agree on all batches. The schema is cast at every depth, the batch at the top only;
the schema has durations of nanoseconds as microseconds, the batch keeps them; and the columns that
are cast are read and written without their offset. `patched_iff` says for which batches the patched
batch has the types that the patched schema declares, and the converted values.

Mirroring notes:
- `castScalarTypes` tells by the address of a type whether anything has changed: it returns `none`
  for the type that it got, and so does `patchSchema` for its schema. A type that is put together
  again has another address, even when it is the same.
- A product of 64-bit integers wraps around, a quotient is truncated.
-/

namespace Haybarn.Arrow

/-- `QueryConfig`, the casts. -/
structure QueryConfig where
  castBigintToDouble : Option Bool := none
  castTimestampToDate : Option Bool := none
  castDurationToTime64 : Option Bool := none
  castDecimalToDouble : Option Bool := none

def QueryConfig.hasAnyCast (config : QueryConfig) : Bool :=
  config.castBigintToDouble.getD false || config.castTimestampToDate.getD false ||
    config.castDurationToTime64.getD false || config.castDecimalToDouble.getD false

/-! ## The schema -/

section Schema

/-- The casts of `patchSchema`. -/
def castScalar (config : QueryConfig) : ScalarType → Option ScalarType
  | .timestamp _ _ => if config.castTimestampToDate.getD false then some .date64 else none
  | .int64 => if config.castBigintToDouble.getD false then some .float64 else none
  | .uint64 => if config.castBigintToDouble.getD false then some .float64 else none
  | .duration _ => if config.castDurationToTime64.getD false then some (.time64 .micro) else none
  | .decimal128 _ _ => if config.castDecimalToDouble.getD false then some .float64 else none
  | _ => none

variable (castFn : ScalarType → Option ScalarType)

mutual

/-- `castScalarTypes` -/
def castScalarTypes : DataType → Option DataType
  | .scalar type => (castFn type).map .scalar
  | .struct fields =>
    if 0 < fields.length ∧ ¬ (castFields fields).2 then none
    else some (.struct (castFields fields).1)
  -- the new list type has a new value field
  | .list kind _ value => (castScalarTypes value).map (.list kind true)

/-- The fields with their types cast, and whether any has changed. -/
def castFields : List (FieldHead × DataType) → List (FieldHead × DataType) × Bool
  | [] => ([], false)
  | (head, type) :: rest =>
    ((head, (castScalarTypes type).getD type) :: (castFields rest).1,
      (castScalarTypes type).isSome || (castFields rest).2)

end

/-- `patchSchema` -/
def patchSchema (schema : Schema) (config : QueryConfig) : Option Schema :=
  if config.hasAnyCast then
    match castScalarTypes (castScalar config) (.struct schema) with
    | some (.struct fields) => some fields
    | _ => none
  else none

end Schema

/-! ## The batch -/

section Batch

variable {D : Type} (doubles : Doubles D) (config : QueryConfig)

/-- The loop over `in`, the raw values. -/
def castValues {α β : Type} (length : Nat) (f : α → β) (values : List α) : List β :=
  (values.take length).map f

def timestampToDate : TimeUnit → Int64 → Int64
  | .second, v => v * 1000
  | .milli, v => v
  | .micro, v => v / 1000
  | .nano, v => v / (1000 * 1000)

/-- The unit of the times. -/
def castToUnit : TimeUnit → TimeUnit
  | .nano => .nano
  | _ => .micro

def durationToTime : TimeUnit → Int64 → Int64
  | .second, v => v * 1000 * 1000
  | .milli, v => v * 1000
  | .micro, v => v
  | .nano, v => v

/-- A column of `patchRecordBatch`. -/
def patchColumn : Array D → Array D
  | .scalar .int64 data values =>
    if config.castBigintToDouble.getD false then
      .scalar .float64 data
        (castValues data.length (fun v => doubles.ofInt (Int64.toInt v)) values)
    else .scalar .int64 data values
  | .scalar .uint64 data values =>
    if config.castBigintToDouble.getD false then
      .scalar .float64 data
        (castValues data.length (fun v => doubles.ofInt (UInt64.toNat v)) values)
    else .scalar .uint64 data values
  | .scalar (.timestamp unit timezone) data values =>
    if config.castTimestampToDate.getD false then
      .scalar .date64 data (castValues data.length (timestampToDate unit) values)
    else .scalar (.timestamp unit timezone) data values
  | .scalar (.duration unit) data values =>
    if config.castDurationToTime64.getD false then
      .scalar (.time64 (castToUnit unit)) data
        (castValues data.length (durationToTime unit) values)
    else .scalar (.duration unit) data values
  | .scalar (.decimal128 precision scale) data values =>
    if config.castDecimalToDouble.getD false then
      -- `GetValue` adds the offset
      .scalar .float64 data
        (castValues data.length (fun v => doubles.ofDecimal v scale) (values.drop data.offset))
    else .scalar (.decimal128 precision scale) data values
  | column => column

/-- `patchRecordBatch`, where `none` is the schema of the batch. -/
def patchRecordBatch (batch : RecordBatch D) (schema : Option Schema) : RecordBatch D :=
  match schema with
  | none => batch
  | some schema =>
    { schema := schema
      numRows := batch.numRows
      columns := batch.columns.map (patchColumn doubles config) }

end Batch

/-! ## What a patched batch should be -/

section Patched

variable {D : Type} (doubles : Doubles D) (config : QueryConfig)

/-- A timestamp in milliseconds. -/
def toMillis : TimeUnit → Int → Int
  | .second, v => v * 1000
  | .milli, v => v
  | .micro, v => v.tdiv 1000
  | .nano, v => v.tdiv 1000000

/-- A duration in microseconds. -/
def toMicros : TimeUnit → Int → Int
  | .second, v => v * 1000000
  | .milli, v => v * 1000
  | .micro, v => v
  | .nano, v => v.tdiv 1000

/-- The conversion of a value of a scalar type. -/
def convertScalar : ScalarType → Datum D → Datum D
  | .int64, .int v =>
    if config.castBigintToDouble.getD false then .float (doubles.ofInt v) else .int v
  | .uint64, .int v =>
    if config.castBigintToDouble.getD false then .float (doubles.ofInt v) else .int v
  | .timestamp unit _, .int v =>
    if config.castTimestampToDate.getD false then .int (toMillis unit v) else .int v
  | .duration unit, .int v =>
    if config.castDurationToTime64.getD false then .int (toMicros unit v) else .int v
  | .decimal128 _ scale, .int v =>
    if config.castDecimalToDouble.getD false then .float (doubles.ofDecimal v scale) else .int v
  | _, x => x

mutual

/-- The conversion of a value, with the values inside it. -/
def convert : DataType → Value D → Value D
  | .scalar type, .datum x => .datum (convertScalar doubles config type x)
  | .struct fields, .struct members => .struct (convertMembers fields members)
  | .list _ _ value, .list elements => .list (elements.map (convert value))
  | _, v => v

def convertMembers : List (FieldHead × DataType) → List (String × Value D) →
    List (String × Value D)
  | (_, type) :: fields, (name, v) :: members =>
    (name, convert type v) :: convertMembers fields members
  | _, members => members

end

/-- A column holds the converted values of another one, with the nulls in place. -/
def Converted (old new : Array D) : Prop :=
  new.data.length = old.data.length ∧
    ∀ i < old.data.length, new.get i = (old.get i).map (convert doubles config old.type)

/-- A patched batch matches its schema. -/
structure Patched (batch out : RecordBatch D) : Prop where
  types : out.columns.map Array.type = out.schema.map Prod.snd
  values : List.Forall₂ (Converted doubles config) batch.columns out.columns

end Patched

/-! ## When it is -/

section Converts

variable {D : Type} (doubles : Doubles D) (config : QueryConfig)

mutual

/-- There is a struct without fields in a type. -/
def hasEmptyStruct : DataType → Bool
  | .scalar _ => false
  | .struct fields => fields.isEmpty || anyEmptyStruct fields
  | .list _ _ value => hasEmptyStruct value

def anyEmptyStruct : List (FieldHead × DataType) → Bool
  | [] => false
  | (_, type) :: rest => hasEmptyStruct type || anyEmptyStruct rest

end

mutual

/-- No type inside a type is cast. What a list type has around a struct without fields is made
anew, so it has to be nullable before. -/
def keeps : DataType → Bool
  | .scalar type => (castScalar config type).isNone
  | .struct fields => keepsAll fields
  | .list _ nullable value => keeps value && (nullable || !hasEmptyStruct value)

def keepsAll : List (FieldHead × DataType) → Bool
  | [] => true
  | (_, type) :: rest => keeps type && keepsAll rest

end

def Fits64 (v : Int) : Prop := -2 ^ 63 ≤ v ∧ v < 2 ^ 63

/-- The conversion of an entry fits, and the entry is where it is looked for. -/
def EntryConverts : (type : ScalarType) → ArrayData → List (type.Elem D) → Nat → Prop
  | .timestamp .second _, data, values, i =>
    ∀ v : Int64, values[data.offset + i]? = some v → Fits64 (v.toInt * 1000)
  | .duration .second, data, values, i =>
    ∀ v : Int64, values[data.offset + i]? = some v → Fits64 (v.toInt * 1000000)
  | .duration .milli, data, values, i =>
    ∀ v : Int64, values[data.offset + i]? = some v → Fits64 (v.toInt * 1000)
  | .decimal128 _ scale, data, values, i =>
    -- the offset is added once more
    ∀ v w : Int, values[data.offset + i]? = some v →
      values[data.offset + (data.offset + i)]? = some w →
      doubles.ofDecimal w scale = doubles.ofDecimal v scale
  | _, _, _, _ => True

/-- A column that comes out as the schema declares it. -/
def Array.Converts : Array D → Prop
  | .scalar type data values => (castScalar config type).isSome →
    type ≠ .duration .nano ∧ ∀ i < data.length, data.isValid i →
      data.offset + i < data.length ∧ EntryConverts doubles type data values i
  | column => keeps config column.type

end Converts

/-! ## Types that are kept -/

section Keeps

variable {config : QueryConfig}

/-- The flag of a cast that is not made. -/
theorem flag_of_none {α : Type} {flag : Bool} {x : α}
    (h : (if flag = true then some x else none) = none) : flag = false := by
  cases flag with
  | false => rfl
  | true => nomatch h

/-- The target of a cast that is made. -/
theorem target_of_some {α : Type} {flag : Bool} {x y : α}
    (h : (if flag = true then some x else none) = some y) : flag = true ∧ x = y := by
  cases flag with
  | false => nomatch h
  | true => exact ⟨rfl, Option.some.inj h⟩

theorem castScalar_ne {type type' : ScalarType} (h : castScalar config type = some type') :
    type' ≠ type := by
  intro heq
  subst heq
  cases type' with
  | timestamp unit timezone => nomatch (target_of_some h).2
  | int64 => nomatch (target_of_some h).2
  | uint64 => nomatch (target_of_some h).2
  | duration unit => nomatch (target_of_some h).2
  | decimal128 precision scale => nomatch (target_of_some h).2
  | _ => nomatch h

mutual

/-- A type that is kept is made anew when there is a struct without fields in it. -/
theorem isSome_castScalarTypes : ∀ {type : DataType}, keeps config type = true →
    (castScalarTypes (castScalar config) type).isSome = hasEmptyStruct type
  | .scalar type, h => by
    rw [keeps, Option.isNone_iff_eq_none] at h
    rw [castScalarTypes, h]
    rfl
  | .struct fields, h => by
    rw [keeps] at h
    have hfields := changed_castFields h
    rw [castScalarTypes, hasEmptyStruct, hfields]
    cases fields with
    | nil => rfl
    | cons f rest =>
      cases anyEmptyStruct (f :: rest) with
      | true => rfl
      | false => rfl
  | .list kind nullable value, h => by
    rw [keeps, Bool.and_eq_true] at h
    rw [castScalarTypes, hasEmptyStruct, Option.isSome_map, isSome_castScalarTypes h.1]

theorem changed_castFields : ∀ {fields : List (FieldHead × DataType)},
    keepsAll config fields = true →
      (castFields (castScalar config) fields).2 = anyEmptyStruct fields
  | [], _ => rfl
  | (head, type) :: rest, h => by
    rw [keepsAll, Bool.and_eq_true] at h
    rw [castFields, anyEmptyStruct, isSome_castScalarTypes h.1, changed_castFields h.2]

end

/-- Fields none of which has changed. -/
theorem castFields_unchanged {castFn : ScalarType → Option ScalarType}
    {fields : List (FieldHead × DataType)} (h : (castFields castFn fields).2 = false) :
    (castFields castFn fields).1 = fields := by
  induction fields with
  | nil => rfl
  | cons f rest ih =>
    obtain ⟨head, type⟩ := f
    rw [castFields, Bool.or_eq_false_iff] at h
    rw [castFields, ih h.2, Option.isSome_eq_false_iff.mp h.1 |> Option.isNone_iff_eq_none.mp]
    rfl

theorem getD_castStruct {castFn : ScalarType → Option ScalarType}
    (fields : List (FieldHead × DataType)) :
    (castScalarTypes castFn (.struct fields)).getD (.struct fields) =
      .struct (castFields castFn fields).1 := by
  rw [castScalarTypes]
  split
  next h =>
    have hunchanged : (castFields castFn fields).2 = false := by
      cases hchanged : (castFields castFn fields).2 with
      | false => rfl
      | true => exact absurd hchanged h.2
    rw [castFields_unchanged hunchanged]
    rfl
  next => rfl

mutual

/-- **The schema keeps a type exactly when the type inside it is kept.** -/
theorem getD_castScalarTypes : ∀ (type : DataType),
    (castScalarTypes (castScalar config) type).getD type = type ↔ keeps config type = true
  | .scalar type => by
    rw [castScalarTypes, keeps, Option.isNone_iff_eq_none]
    cases h : castScalar config type with
    | none => exact ⟨fun _ => rfl, fun _ => rfl⟩
    | some type' => exact ⟨fun heq => absurd (DataType.scalar.inj heq) (castScalar_ne h), nofun⟩
  | .struct fields => by
    rw [getD_castStruct, keeps, ← castFields_eq fields]
    exact ⟨fun h => DataType.struct.inj h, fun h => congrArg _ h⟩
  | .list kind nullable value => by
    have hvalue := getD_castScalarTypes value
    rw [castScalarTypes, keeps, Bool.and_eq_true, ← hvalue]
    cases h : castScalarTypes (castScalar config) value with
    | none =>
      rw [h] at hvalue
      have hempty := isSome_castScalarTypes (hvalue.mp rfl)
      rw [h] at hempty
      rw [← hempty]
      exact ⟨fun _ => ⟨rfl, Bool.or_true nullable⟩, fun _ => rfl⟩
    | some value' =>
      show DataType.list kind true value' = .list kind nullable value ↔ value' = value ∧ _
      constructor
      · intro heq
        obtain ⟨-, rfl, rfl⟩ := DataType.list.inj heq
        exact ⟨rfl, rfl⟩
      · intro ⟨hsame, hnullable⟩
        subst hsame
        rw [h] at hvalue
        have hempty := isSome_castScalarTypes (hvalue.mp rfl)
        rw [h] at hempty
        rw [← hempty] at hnullable
        cases nullable with
        | true => rfl
        | false => nomatch hnullable

theorem castFields_eq : ∀ (fields : List (FieldHead × DataType)),
    (castFields (castScalar config) fields).1 = fields ↔ keepsAll config fields = true
  | [] => ⟨fun _ => rfl, fun _ => rfl⟩
  | (head, type) :: rest => by
    rw [castFields, keepsAll, Bool.and_eq_true, ← getD_castScalarTypes type,
      ← castFields_eq rest]
    constructor
    · intro h
      obtain ⟨hfirst, hrest⟩ := List.cons.inj h
      exact ⟨congrArg Prod.snd hfirst, hrest⟩
    · intro ⟨hfirst, hrest⟩
      rw [hfirst, hrest]

end

end Keeps

/-! ## Values that are kept -/

section Values

variable {D : Type} {doubles : Doubles D} {config : QueryConfig}

theorem castScalar_of_no_cast (h : config.hasAnyCast = false) (type : ScalarType) :
    castScalar config type = none := by
  unfold QueryConfig.hasAnyCast at h
  simp only [Bool.or_eq_false_iff] at h
  obtain ⟨⟨⟨hbigint, htimestamp⟩, hduration⟩, hdecimal⟩ := h
  cases type with
  | timestamp unit timezone => rw [castScalar, htimestamp]; rfl
  | int64 => rw [castScalar, hbigint]; rfl
  | uint64 => rw [castScalar, hbigint]; rfl
  | duration unit => rw [castScalar, hduration]; rfl
  | decimal128 precision scale => rw [castScalar, hdecimal]; rfl
  | _ => rfl

theorem convertScalar_of_none {type : ScalarType} (h : castScalar config type = none)
    (x : Datum D) : convertScalar doubles config type x = x := by
  cases type with
  | timestamp unit timezone =>
    cases x with
    | int v => rw [convertScalar, flag_of_none h]; rfl
    | _ => rfl
  | int64 =>
    cases x with
    | int v => rw [convertScalar, flag_of_none h]; rfl
    | _ => rfl
  | uint64 =>
    cases x with
    | int v => rw [convertScalar, flag_of_none h]; rfl
    | _ => rfl
  | duration unit =>
    cases x with
    | int v => rw [convertScalar, flag_of_none h]; rfl
    | _ => rfl
  | decimal128 precision scale =>
    cases x with
    | int v => rw [convertScalar, flag_of_none h]; rfl
    | _ => rfl
  | _ => rfl

mutual

/-- The conversion keeps the values of a type that is kept. -/
theorem convert_of_keeps : ∀ {type : DataType} (_ : config.hasAnyCast = false ∨
    keeps config type = true) (v : Value D), convert doubles config type v = v
  | .scalar type, h, v => by
    have hnone : castScalar config type = none := by
      rcases h with h | h
      · exact castScalar_of_no_cast h type
      · rw [keeps, Option.isNone_iff_eq_none] at h
        exact h
    cases v with
    | datum x => rw [convert, convertScalar_of_none hnone]
    | _ => rfl
  | .struct fields, h, v => by
    cases v with
    | struct members =>
      rw [convert, convertMembers_of_keeps (h.imp_right fun h => by rwa [keeps] at h)]
    | _ => rfl
  | .list kind nullable value, h, v => by
    cases v with
    | list elements =>
      have hvalue : config.hasAnyCast = false ∨ keeps config value = true := by
        refine h.imp_right fun h => ?_
        rw [keeps, Bool.and_eq_true] at h
        exact h.1
      rw [convert, List.map_congr_left fun v _ => convert_of_keeps hvalue v]
      exact congrArg Value.list (List.map_id elements)
    | _ => rfl

theorem convertMembers_of_keeps : ∀ {fields : List (FieldHead × DataType)}
    (_ : config.hasAnyCast = false ∨ keepsAll config fields = true)
    (members : List (String × Value D)), convertMembers doubles config fields members = members
  | [], _, [] => rfl
  | [], _, _ :: _ => rfl
  | _ :: _, _, [] => rfl
  | (head, type) :: rest, h, (name, v) :: members => by
    have hboth : (config.hasAnyCast = false ∨ keeps config type = true) ∧
        (config.hasAnyCast = false ∨ keepsAll config rest = true) := by
      rcases h with h | h
      · exact ⟨.inl h, .inl h⟩
      · rw [keepsAll, Bool.and_eq_true] at h
        exact ⟨.inr h.1, .inr h.2⟩
    rw [convertMembers, convert_of_keeps hboth.1, convertMembers_of_keeps hboth.2]

end

/-- A column that is kept is its own conversion. -/
theorem converted_self {column : Array D}
    (h : config.hasAnyCast = false ∨ keeps config column.type = true) :
    Converted doubles config column column := by
  refine ⟨rfl, fun i _ => ?_⟩
  cases column.get i with
  | none => rfl
  | some v => rw [Option.map_some, convert_of_keeps h]

end Values

/-! ## Columns that are cast -/

section Columns

variable {D : Type} {doubles : Doubles D} {config : QueryConfig}

theorem getElem?_castValues {α β : Type} (n : Nat) (f : α → β) (values : List α) (j : Nat) :
    (castValues n f values)[j]? = if j < n then (values[j]?).map f else none := by
  unfold castValues
  rw [List.getElem?_map, List.getElem?_take]
  split
  next => rfl
  next => rfl

/-- Which entries a cast column has to have. -/
theorem converted_iff {type type' : ScalarType} {data : ArrayData} {values : List (type.Elem D)}
    {out : List (type'.Elem D)} :
    Converted doubles config (.scalar type data values) (.scalar type' data out) ↔
      ∀ i < data.length, data.isValid i = true →
        (out[data.offset + i]?).map type'.datum =
          (values[data.offset + i]?).map fun x =>
            convertScalar doubles config type (type.datum x) := by
  unfold Converted
  constructor
  · intro ⟨_, h⟩ i hi hvalid
    have hget := h i hi
    rw [Array.get, Array.get, if_pos hi, if_pos hi, if_pos hvalid, if_pos hvalid] at hget
    cases hold : values[data.offset + i]? with
    | none =>
      rw [hold] at hget
      cases hnew : out[data.offset + i]? with
      | none => rfl
      | some y => rw [hnew] at hget; nomatch hget
    | some x =>
      rw [hold] at hget
      cases hnew : out[data.offset + i]? with
      | none => rw [hnew] at hget; nomatch hget
      | some y =>
        rw [hnew] at hget
        have hdatum := Option.some.inj hget
        rw [Array.type, convert] at hdatum
        exact congrArg some (Value.datum.inj hdatum)
  · intro h
    refine ⟨rfl, fun i hi => ?_⟩
    have hi' : i < data.length := hi
    rw [Array.get, Array.get, if_pos hi', if_pos hi']
    cases hvalid : data.isValid i with
    | false => rfl
    | true =>
      have hentry := h i hi' hvalid
      rw [if_pos rfl, if_pos rfl]
      cases hold : values[data.offset + i]? with
      | none =>
        rw [hold] at hentry
        rw [Option.map_eq_none_iff.mp hentry]
        rfl
      | some x =>
        rw [hold] at hentry
        obtain ⟨y, hy, hdatum⟩ := Option.map_eq_some_iff.mp hentry
        rw [hy, Option.map_some, Option.map_some, Option.map_some, Array.type, convert, hdatum]

/-- A column that is cast entry by entry, without its offset. -/
theorem converted_castValues_iff {type type' : ScalarType} {data : ArrayData}
    {values : List (type.Elem D)} {f : type.Elem D → type'.Elem D}
    (hb : data.offset + data.length ≤ values.length) :
    Converted doubles config (.scalar type data values)
        (.scalar type' data (castValues data.length f values)) ↔
      ∀ i < data.length, data.isValid i = true → data.offset + i < data.length ∧
        ∀ x, values[data.offset + i]? = some x →
          type'.datum (f x) = convertScalar doubles config type (type.datum x) := by
  rw [converted_iff]
  refine forall_congr' fun i => forall_congr' fun hi => forall_congr' fun _ => ?_
  obtain ⟨x, hx⟩ : ∃ x, values[data.offset + i]? = some x :=
    ⟨_, List.getElem?_eq_getElem (by omega)⟩
  rw [getElem?_castValues, hx]
  by_cases hin : data.offset + i < data.length
  · rw [if_pos hin]
    constructor
    · intro h
      refine ⟨hin, fun y hy => ?_⟩
      obtain rfl := Option.some.inj hy
      exact Option.some.inj h
    · intro ⟨_, h⟩
      exact congrArg some (h x rfl)
  · rw [if_neg hin]
    exact ⟨nofun, fun h => absurd h.1 hin⟩

/-! ### Products and quotients -/

theorem toInt_mul_iff (v k : Int64) :
    (v * k).toInt = v.toInt * k.toInt ↔ Fits64 (v.toInt * k.toInt) := by
  unfold Fits64
  rw [Int64.toInt_mul, Int.bmod_def]
  generalize v.toInt * k.toInt = p
  omega

theorem toInt_timestampToDate (unit : TimeUnit) (v : Int64) :
    (timestampToDate unit v).toInt = toMillis unit v.toInt ↔
      (unit = .second → Fits64 (v.toInt * 1000)) := by
  cases unit with
  | second =>
    have hmul := toInt_mul_iff v 1000
    exact hmul.trans ⟨fun h _ => h, fun h => h rfl⟩
  | milli => exact ⟨fun _ => nofun, fun _ => rfl⟩
  | micro => exact ⟨fun _ => nofun, fun _ => Int64.toInt_div_of_ne_right v 1000 (by decide)⟩
  | nano =>
    exact ⟨fun _ => nofun, fun _ => Int64.toInt_div_of_ne_right v (1000 * 1000) (by decide)⟩

theorem toInt_durationToTime {unit : TimeUnit} (hunit : unit ≠ .nano) (v : Int64) :
    (durationToTime unit v).toInt = toMicros unit v.toInt ↔
      (unit = .second → Fits64 (v.toInt * 1000000)) ∧
      (unit = .milli → Fits64 (v.toInt * 1000)) := by
  cases unit with
  | second =>
    have hmul := toInt_mul_iff v (1000 * 1000)
    rw [durationToTime, Int64.mul_assoc]
    exact hmul.trans ⟨fun h => ⟨fun _ => h, nofun⟩, fun h => h.1 rfl⟩
  | milli =>
    have hmul := toInt_mul_iff v 1000
    exact hmul.trans ⟨fun h => ⟨nofun, fun _ => h⟩, fun h => h.2 rfl⟩
  | micro => exact ⟨fun _ => ⟨nofun, nofun⟩, fun _ => rfl⟩
  | nano => exact absurd rfl hunit

/-! ### A column -/

/-- What the schema declares for a column. -/
def declaredType (config : QueryConfig) (type : DataType) : DataType :=
  (castScalarTypes (castScalar config) type).getD type

/-- A patched column is what it should be. -/
def ColumnPatched (doubles : Doubles D) (config : QueryConfig) (column : Array D) : Prop :=
  (patchColumn doubles config column).type = declaredType config column.type ∧
    Converted doubles config column (patchColumn doubles config column)

theorem patchColumn_of_none {type : ScalarType} {data : ArrayData} {values : List (type.Elem D)}
    (h : castScalar config type = none) :
    patchColumn doubles config (.scalar type data values) = .scalar type data values := by
  cases type with
  | timestamp unit timezone => rw [patchColumn, flag_of_none h]; rfl
  | int64 => rw [patchColumn, flag_of_none h]; rfl
  | uint64 => rw [patchColumn, flag_of_none h]; rfl
  | duration unit => rw [patchColumn, flag_of_none h]; rfl
  | decimal128 precision scale => rw [patchColumn, flag_of_none h]; rfl
  | _ => rfl

/-- A column that is passed through. -/
theorem columnPatched_of_same {column : Array D}
    (h : patchColumn doubles config column = column) :
    ColumnPatched doubles config column ↔ keeps config column.type = true := by
  unfold ColumnPatched declaredType
  rw [h, ← getD_castScalarTypes]
  refine ⟨fun h => h.1.symm, fun heq => ⟨heq.symm, ?_⟩⟩
  exact converted_self (.inr ((getD_castScalarTypes _).mp heq))

/-- A column that is cast entry by entry. -/
theorem columnPatched_castValues {type type' target : ScalarType} {data : ArrayData}
    {values : List (type.Elem D)} {f : type.Elem D → type'.Elem D}
    (hcast : castScalar config type = some target)
    (hpatch : patchColumn doubles config (.scalar type data values) =
      .scalar type' data (castValues data.length f values))
    (hb : data.offset + data.length ≤ values.length) :
    ColumnPatched doubles config (.scalar type data values) ↔ type' = target ∧
      ∀ i < data.length, data.isValid i = true → data.offset + i < data.length ∧
        ∀ x, values[data.offset + i]? = some x →
          type'.datum (f x) = convertScalar doubles config type (type.datum x) := by
  unfold ColumnPatched declaredType
  rw [hpatch, converted_castValues_iff hb, Array.type, Array.type, castScalarTypes, hcast]
  refine and_congr_left fun _ => ?_
  exact ⟨fun h => DataType.scalar.inj h, fun h => congrArg _ h⟩

/-- The condition on a column that is cast. -/
theorem converts_iff {type target : ScalarType} {data : ArrayData} {values : List (type.Elem D)}
    (hcast : castScalar config type = some target) :
    (Array.scalar type data values).Converts doubles config ↔ type ≠ .duration .nano ∧
      ∀ i < data.length, data.isValid i = true →
        data.offset + i < data.length ∧ EntryConverts doubles type data values i := by
  have hsome : (castScalar config type).isSome = true := by
    rw [hcast]
    rfl
  exact ⟨fun h => h hsome, fun h _ => h⟩

/-- A column whose entries all fit. -/
theorem columnPatched_fitting {type type' : ScalarType} {data : ArrayData}
    {values : List (type.Elem D)} {f : type.Elem D → type'.Elem D}
    (hcast : castScalar config type = some type')
    (hpatch : patchColumn doubles config (.scalar type data values) =
      .scalar type' data (castValues data.length f values))
    (hb : data.offset + data.length ≤ values.length) (hnano : type ≠ .duration .nano)
    (hentry : ∀ i, (∀ x, values[data.offset + i]? = some x →
        type'.datum (f x) = convertScalar doubles config type (type.datum x)) ↔
      EntryConverts doubles type data values i) :
    ColumnPatched doubles config (.scalar type data values) ↔
      (Array.scalar type data values).Converts doubles config := by
  rw [columnPatched_castValues hcast hpatch hb, converts_iff hcast]
  refine and_congr ⟨fun _ => hnano, fun _ => rfl⟩ ?_
  refine forall_congr' fun i => forall_congr' fun _ => forall_congr' fun _ => ?_
  exact and_congr_right fun _ => hentry i

theorem columnPatched_int64 {data : ArrayData} {values : List Int64}
    (hflag : config.castBigintToDouble.getD false = true)
    (hb : data.offset + data.length ≤ values.length) :
    ColumnPatched doubles config (.scalar .int64 data values) ↔
      (Array.scalar .int64 data values).Converts doubles config := by
  refine columnPatched_fitting (if_pos hflag) (if_pos hflag) hb nofun fun i => ?_
  exact ⟨fun _ => trivial, fun _ v _ => (if_pos hflag).symm⟩

theorem columnPatched_uint64 {data : ArrayData} {values : List UInt64}
    (hflag : config.castBigintToDouble.getD false = true)
    (hb : data.offset + data.length ≤ values.length) :
    ColumnPatched doubles config (.scalar .uint64 data values) ↔
      (Array.scalar .uint64 data values).Converts doubles config := by
  refine columnPatched_fitting (if_pos hflag) (if_pos hflag) hb nofun fun i => ?_
  exact ⟨fun _ => trivial, fun _ v _ => (if_pos hflag).symm⟩

theorem columnPatched_timestamp {unit : TimeUnit} {timezone : String} {data : ArrayData}
    {values : List Int64} (hflag : config.castTimestampToDate.getD false = true)
    (hb : data.offset + data.length ≤ values.length) :
    ColumnPatched doubles config (.scalar (.timestamp unit timezone) data values) ↔
      (Array.scalar (.timestamp unit timezone) data values).Converts doubles config := by
  refine columnPatched_fitting (if_pos hflag) (if_pos hflag) hb nofun fun i => ?_
  have hdatum : ∀ v : Int64, (Datum.int (timestampToDate unit v).toInt : Datum D) =
      convertScalar doubles config (.timestamp unit timezone) (.int v.toInt) ↔
        (unit = .second → Fits64 (v.toInt * 1000)) := by
    intro v
    rw [← toInt_timestampToDate, convertScalar, if_pos hflag]
    exact ⟨fun h => Datum.int.inj h, fun h => congrArg _ h⟩
  refine (forall_congr' fun v => forall_congr' fun _ => hdatum v).trans ?_
  cases unit with
  | second => exact ⟨fun h v hv => h v hv rfl, fun h v hv _ => h v hv⟩
  | _ => exact ⟨fun _ => trivial, fun _ _ _ => nofun⟩

/-- The times of nanoseconds are not the microseconds that the schema declares. -/
theorem columnPatched_nano {data : ArrayData} {values : List Int64}
    (hflag : config.castDurationToTime64.getD false = true)
    (hb : data.offset + data.length ≤ values.length) :
    ColumnPatched doubles config (.scalar (.duration .nano) data values) ↔
      (Array.scalar (.duration .nano) data values).Converts doubles config := by
  have hcast : castScalar config (.duration .nano) = some (.time64 .micro) := if_pos hflag
  have hpatch : patchColumn doubles config (.scalar (.duration .nano) data values) =
      .scalar (.time64 .nano) data (castValues data.length (durationToTime .nano) values) :=
    if_pos hflag
  rw [columnPatched_castValues hcast hpatch hb, converts_iff hcast]
  constructor
  · intro h
    nomatch h.1
  · intro h
    exact absurd rfl h.1

theorem columnPatched_duration {unit : TimeUnit} {data : ArrayData} {values : List Int64}
    (hflag : config.castDurationToTime64.getD false = true)
    (hb : data.offset + data.length ≤ values.length) :
    ColumnPatched doubles config (.scalar (.duration unit) data values) ↔
      (Array.scalar (.duration unit) data values).Converts doubles config := by
  by_cases hnano : unit = .nano
  · subst hnano
    exact columnPatched_nano hflag hb
  have hunit : castToUnit unit = .micro := by
    cases unit with
    | nano => exact absurd rfl hnano
    | _ => rfl
  have hpatch : patchColumn doubles config (.scalar (.duration unit) data values) =
      .scalar (.time64 .micro) data (castValues data.length (durationToTime unit) values) := by
    rw [← hunit]
    exact if_pos hflag
  refine columnPatched_fitting (if_pos hflag) hpatch hb
    (fun h => hnano (ScalarType.duration.inj h)) fun i => ?_
  have hdatum : ∀ v : Int64, (Datum.int (durationToTime unit v).toInt : Datum D) =
      convertScalar doubles config (.duration unit) (.int v.toInt) ↔
        (unit = .second → Fits64 (v.toInt * 1000000)) ∧
          (unit = .milli → Fits64 (v.toInt * 1000)) := by
    intro v
    rw [← toInt_durationToTime hnano, convertScalar, if_pos hflag]
    exact ⟨fun h => Datum.int.inj h, fun h => congrArg _ h⟩
  refine (forall_congr' fun v => forall_congr' fun _ => hdatum v).trans ?_
  cases unit with
  | second => exact ⟨fun h v hv => (h v hv).1 rfl, fun h v hv => ⟨fun _ => h v hv, nofun⟩⟩
  | milli => exact ⟨fun h v hv => (h v hv).2 rfl, fun h v hv => ⟨nofun, fun _ => h v hv⟩⟩
  | _ => exact ⟨fun _ => trivial, fun _ _ _ => ⟨nofun, nofun⟩⟩

/-- Decimals are read with their offset, and written without. -/
theorem columnPatched_decimal {precision scale : Int} {data : ArrayData} {values : List Int}
    (hflag : config.castDecimalToDouble.getD false = true)
    (hb : data.offset + data.length ≤ values.length) :
    ColumnPatched doubles config (.scalar (.decimal128 precision scale) data values) ↔
      (Array.scalar (.decimal128 precision scale) data values).Converts doubles config := by
  have hcast : castScalar config (.decimal128 precision scale) = some .float64 := if_pos hflag
  have hpatch : patchColumn doubles config (.scalar (.decimal128 precision scale) data values) =
      .scalar .float64 data (castValues data.length (fun v => doubles.ofDecimal v scale)
        (values.drop data.offset)) := if_pos hflag
  unfold ColumnPatched declaredType
  rw [hpatch, converted_iff, Array.type, Array.type, castScalarTypes, hcast, converts_iff hcast]
  refine and_congr ⟨fun _ => nofun, fun _ => rfl⟩ ?_
  refine forall_congr' fun i => forall_congr' fun hi => forall_congr' fun _ => ?_
  obtain ⟨v, hv⟩ : ∃ v, values[data.offset + i]? = some v :=
    ⟨_, List.getElem?_eq_getElem (by omega)⟩
  show Option.map (ScalarType.datum .float64) (castValues data.length _ _)[data.offset + i]? =
    Option.map _ (values[data.offset + i]?) ↔ _
  rw [getElem?_castValues, List.getElem?_drop, hv]
  by_cases hin : data.offset + i < data.length
  · obtain ⟨w, hw⟩ : ∃ w, values[data.offset + (data.offset + i)]? = some w :=
      ⟨_, List.getElem?_eq_getElem (by omega)⟩
    rw [if_pos hin, hw]
    show some (Datum.float (doubles.ofDecimal w scale)) =
      some (convertScalar doubles config (.decimal128 precision scale) (.int v)) ↔ _
    rw [convertScalar, if_pos hflag]
    constructor
    · intro h
      refine ⟨hin, fun v' w' hv' hw' => ?_⟩
      obtain rfl := Option.some.inj (hv.symm.trans hv')
      obtain rfl := Option.some.inj (hw.symm.trans hw')
      exact Datum.float.inj (Option.some.inj h)
    · intro ⟨_, h⟩
      rw [h v w hv hw]
  · rw [if_neg hin]
    exact ⟨nofun, fun h => absurd h.1 hin⟩

/-- **A column comes out as the schema declares it exactly when it converts.** -/
theorem columnPatched_iff {column : Array D} (hb : column.InBounds) :
    ColumnPatched doubles config column ↔ column.Converts doubles config := by
  cases column with
  | struct data children => exact columnPatched_of_same rfl
  | list kind nullable data offsets values => exact columnPatched_of_same rfl
  | scalar type data values =>
    cases hcast : castScalar config type with
    | none =>
      have hkeeps : keeps config (Array.scalar type data values).type = true := by
        rw [Array.type, keeps, hcast]
        rfl
      refine (columnPatched_of_same (patchColumn_of_none hcast)).trans
        ⟨fun _ h => ?_, fun _ => hkeeps⟩
      rw [hcast] at h
      nomatch h
    | some target =>
      cases type with
      | int64 => exact columnPatched_int64 (target_of_some hcast).1 hb
      | uint64 => exact columnPatched_uint64 (target_of_some hcast).1 hb
      | timestamp unit timezone => exact columnPatched_timestamp (target_of_some hcast).1 hb
      | duration unit => exact columnPatched_duration (target_of_some hcast).1 hb
      | decimal128 precision scale => exact columnPatched_decimal (target_of_some hcast).1 hb
      | _ => nomatch hcast

end Columns

/-! ## Main result -/

section Main

variable {D : Type} {doubles : Doubles D} {config : QueryConfig}

/-- Every cast type of the fields is the type itself when no field has changed. -/
theorem keepsAll_of_unchanged {fields : List (FieldHead × DataType)}
    (h : (castFields (castScalar config) fields).2 = false) : keepsAll config fields = true :=
  (castFields_eq fields).mp (castFields_unchanged h)

theorem keeps_of_mem {fields : List (FieldHead × DataType)} (h : keepsAll config fields = true)
    {type : DataType} (hmem : type ∈ fields.map Prod.snd) : keeps config type = true := by
  induction fields with
  | nil => nomatch hmem
  | cons f rest ih =>
    obtain ⟨head, first⟩ := f
    rw [keepsAll, Bool.and_eq_true] at h
    rcases List.mem_cons.mp hmem with rfl | hmem
    · exact h.1
    · exact ih h.2 hmem

theorem types_castFields (fields : List (FieldHead × DataType)) :
    (castFields (castScalar config) fields).1.map Prod.snd =
      (fields.map Prod.snd).map (declaredType config) := by
  induction fields with
  | nil => rfl
  | cons f rest ih =>
    obtain ⟨head, type⟩ := f
    rw [castFields, List.map_cons, ih]
    rfl

/-- What `patchSchema` returns. -/
theorem patchSchema_cases (schema : Schema) (config : QueryConfig) :
    (patchSchema schema config = none ∧
      (config.hasAnyCast = false ∨ keepsAll config schema = true)) ∨
    (patchSchema schema config = some (castFields (castScalar config) schema).1 ∧
      config.hasAnyCast = true) := by
  unfold patchSchema
  cases hany : config.hasAnyCast with
  | false => exact .inl ⟨rfl, .inl rfl⟩
  | true =>
    rw [if_pos rfl, castScalarTypes]
    by_cases h : 0 < schema.length ∧ ¬ (castFields (castScalar config) schema).2 = true
    · rw [if_pos h]
      refine .inl ⟨rfl, .inr (keepsAll_of_unchanged ?_)⟩
      cases hchanged : (castFields (castScalar config) schema).2 with
      | false => rfl
      | true => exact absurd hchanged h.2
    · rw [if_neg h]
      exact .inr ⟨rfl, rfl⟩

theorem converts_of_keeps {column : Array D} (h : keeps config column.type = true) :
    column.Converts doubles config := by
  cases column with
  | scalar type data values =>
    rw [Array.type, keeps, Option.isNone_iff_eq_none] at h
    intro hsome
    rw [h] at hsome
    nomatch hsome
  | _ => exact h

/-- **Patched batches match the patched schema** exactly when every column converts: then the
columns have the types that the schema declares, at every depth, and hold the converted values. -/
theorem patched_iff (doubles : Doubles D) (config : QueryConfig) (batch : ValidBatch D) :
    Patched doubles config batch.toRecordBatch
        (patchRecordBatch doubles config batch.toRecordBatch (patchSchema batch.schema config)) ↔
      (config.hasAnyCast = true → ∀ column ∈ batch.columns, column.Converts doubles config) := by
  rcases patchSchema_cases batch.schema config with ⟨hschema, hkeeps⟩ | ⟨hschema, hany⟩
  · -- the schema is the one that the batch has, and so is the batch
    have hcolumn : ∀ column ∈ batch.columns,
        config.hasAnyCast = false ∨ keeps config column.type = true := by
      intro column hmem
      refine hkeeps.imp_right fun hall => keeps_of_mem hall ?_
      rw [← batch.types]
      exact List.mem_map.mpr ⟨column, hmem, rfl⟩
    rw [hschema]
    constructor
    · intro _ hany column hmem
      rcases hcolumn column hmem with hnone | hkept
      · rw [hany] at hnone
        nomatch hnone
      · exact converts_of_keeps hkept
    · intro _
      refine ⟨batch.types, List.forall₂_same.mpr fun column hmem => ?_⟩
      exact converted_self (hcolumn column hmem)
  · have hboth : Patched doubles config batch.toRecordBatch
        (patchRecordBatch doubles config batch.toRecordBatch
          (some (castFields (castScalar config) batch.schema).1)) ↔
        ∀ column ∈ batch.columns, ColumnPatched doubles config column := by
      have htypes : ((batch.columns.map (patchColumn doubles config)).map Array.type =
          (castFields (castScalar config) batch.schema).1.map Prod.snd) ↔
          ∀ column ∈ batch.columns, (patchColumn doubles config column).type =
            declaredType config column.type := by
        rw [types_castFields, ← batch.types, List.map_map, List.map_map]
        exact List.map_inj_left
      have hvalues : List.Forall₂ (Converted doubles config) batch.columns
          (batch.columns.map (patchColumn doubles config)) ↔
          ∀ column ∈ batch.columns,
            Converted doubles config column (patchColumn doubles config column) := by
        rw [List.forall₂_map_right_iff, List.forall₂_same]
      constructor
      · intro h column hmem
        exact ⟨htypes.mp h.types column hmem, hvalues.mp h.values column hmem⟩
      · intro h
        exact ⟨htypes.mpr fun column hmem => (h column hmem).1,
          hvalues.mpr fun column hmem => (h column hmem).2⟩
    rw [hschema, hboth]
    constructor
    · intro h _ column hmem
      exact (columnPatched_iff (batch.inBounds column hmem)).mp (h column hmem)
    · intro h column hmem
      exact (columnPatched_iff (batch.inBounds column hmem)).mpr (h hany column hmem)

/-! ### Batches that do not match -/

/-- Doubles to try, which keep what they have been made of. -/
def exactDoubles : Doubles (Int × Int) where
  ofInt v := (v, 0)
  ofDecimal v scale := (v, scale)

/-- A column without the first entry of its buffer. -/
def slicedBatch : ValidBatch (Int × Int) where
  schema := [(⟨"a", true⟩, .scalar .int64)]
  numRows := 2
  columns := [.scalar .int64 ⟨2, 1, none⟩ [1, 2, 3]]
  types := rfl
  inBounds := fun column hmem => by
    obtain rfl := List.mem_singleton.mp hmem
    exact Nat.le_refl 3

def nestedBatch : ValidBatch (Int × Int) where
  schema := [(⟨"s", true⟩, .struct [(⟨"a", true⟩, .scalar .int64)])]
  numRows := 1
  columns := [.struct ⟨1, 0, none⟩ [(⟨"a", true⟩, .scalar .int64 ⟨1, 0, none⟩ [7])]]
  types := rfl
  inBounds := fun column hmem => by
    obtain rfl := List.mem_singleton.mp hmem
    exact trivial

def nanoBatch : ValidBatch (Int × Int) where
  schema := [(⟨"d", true⟩, .scalar (.duration .nano))]
  numRows := 1
  columns := [.scalar (.duration .nano) ⟨1, 0, none⟩ [5000]]
  types := rfl
  inBounds := fun column hmem => by
    obtain rfl := List.mem_singleton.mp hmem
    exact Nat.le_refl 1

/-- A bigint in a struct stays one where the schema declares a double. A duration of nanoseconds
comes out as a time of nanoseconds where the schema declares microseconds. The second entry of a
column that does not start at its buffer's begin is read behind the new buffer. -/
theorem batches_not_patched :
    let bigints : QueryConfig := { castBigintToDouble := some true }
    let durations : QueryConfig := { castDurationToTime64 := some true }
    let patch := fun config (batch : ValidBatch (Int × Int)) =>
      patchRecordBatch exactDoubles config batch.toRecordBatch (patchSchema batch.schema config)
    ((patch bigints nestedBatch).schema.map Prod.snd =
        [.struct [(⟨"a", true⟩, .scalar .float64)]] ∧
      (patch bigints nestedBatch).columns.map Array.type =
        [.struct [(⟨"a", true⟩, .scalar .int64)]] ∧
      ¬ Patched exactDoubles bigints nestedBatch.toRecordBatch (patch bigints nestedBatch)) ∧
    ((patch durations nanoBatch).schema.map Prod.snd = [.scalar (.time64 .micro)] ∧
      (patch durations nanoBatch).columns.map Array.type = [.scalar (.time64 .nano)] ∧
      ¬ Patched exactDoubles durations nanoBatch.toRecordBatch (patch durations nanoBatch)) ∧
    (slicedBatch.columns.map (fun column => column.get 1) = [some (.datum (.int 3))] ∧
      (patch bigints slicedBatch).columns.map (fun column => column.get 1) = [none] ∧
      ¬ Patched exactDoubles bigints slicedBatch.toRecordBatch (patch bigints slicedBatch)) := by
  intro bigints durations patch
  refine ⟨⟨rfl, rfl, fun h => ?_⟩, ⟨rfl, rfl, fun h => ?_⟩, rfl, rfl, fun h => ?_⟩
  · have htypes : [DataType.struct [(⟨"a", true⟩, .scalar .int64)]] =
        [.struct [(⟨"a", true⟩, .scalar .float64)]] := h.types
    nomatch DataType.struct.inj (List.cons.inj htypes).1
  · have htypes : [DataType.scalar (.time64 .nano)] = [.scalar (.time64 .micro)] := h.types
    nomatch DataType.scalar.inj (List.cons.inj htypes).1
  · cases h.values with
    | cons hfirst _ =>
      have hentry := hfirst.2 1 (Nat.lt_succ_self 1)
      have hnone : (none : Option (Value (Int × Int))) =
          some (convert exactDoubles bigints (.scalar .int64) (.datum (.int 3))) := hentry
      nomatch hnone

end Main

end Haybarn.Arrow
