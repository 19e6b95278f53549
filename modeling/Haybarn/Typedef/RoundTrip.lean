import Haybarn.Typedef.Types

/-!
# Which types survive

A type that is written, read and mapped back has passed three tables. `Preserved` are the types
for which they compose to the identity: ten types without parameters, and lists and structs of
preserved types. `typedef_round_trip` says that there are no others; times come back as
timestamps, timestamps with a unit without it, maps as structs, and what `INVALID`, `UNKNOWN` and
`ANY` are written as cannot be read.

The proof goes through one lemma for each constructor of a type: the round trip of a list is the
list of the round trip of its child (`roundTrip_list`), and so for structs, where the member
`name` that is added to each child is in nobody's way (`sqlToArrowType_named`).
-/

namespace Haybarn.Typedef

open Haybarn.Arrow (TimeUnit FieldHead)
open Haybarn.Lib.JsonDoc (Json)

/-! ## What is preserved -/

def isKept : LogicalTypeId → Bool
  | .BOOLEAN | .TINYINT | .SMALLINT | .INTEGER | .BIGINT | .DATE | .TIMESTAMP | .FLOAT | .DOUBLE
  | .VARCHAR => true
  | _ => false

inductive Preserved : LogicalType → Prop
  | plain (id : LogicalTypeId) : isKept id = true → Preserved (.ofId id)
  | list (child : LogicalType) : Preserved child → Preserved (.list "" child)
  | struct (children : List (String × LogicalType)) :
      (∀ c ∈ children, c.1 ≠ "") → (∀ c ∈ children, Preserved c.2) →
      Preserved (.struct "" children)

/-! ## Results -/

theorem bind_eq_ok {α β : Type} {x : Result α} {f : α → Result β} {b : β} :
    x >>= f = .ok b ↔ ∃ a, x = .ok a ∧ f a = .ok b := by
  cases x with
  | error e =>
    constructor
    · intro h
      cases h
    · rintro ⟨a, ha, -⟩
      cases ha
  | ok a =>
    constructor
    · exact fun h => ⟨a, rfl, h⟩
    · rintro ⟨a', ha, h⟩
      obtain rfl := Except.ok.inj ha
      exact h

theorem ok_bind {α β : Type} (a : α) (f : α → Result β) : (Except.ok a >>= f) = f a := rfl

theorem bind_ok {α β : Type} (x : Result α) (f : α → β) :
    (x >>= fun a => Except.ok (f a)) = x.map f := by
  cases x <;> rfl

theorem map_eq_ok {α β : Type} {x : Result α} {f : α → β} {b : β} :
    x.map f = .ok b ↔ ∃ a, x = .ok a ∧ f a = b := by
  cases x with
  | error e =>
    constructor
    · intro h
      cases h
    · rintro ⟨a, ha, -⟩
      cases ha
  | ok a =>
    constructor
    · exact fun h => ⟨a, rfl, Except.ok.inj h⟩
    · rintro ⟨a', ha, rfl⟩
      obtain rfl := Except.ok.inj ha
      rfl

/-! ## Members that are not looked at -/

variable {obj obj' : Members} {key : String}

theorem memberType_eq (key : String) (obj : Members) : memberType key obj =
    match obj.lookup key with
    | none => .error .undefined
    | some (.object members) => sqlToArrowType members
    | some _ => .error (.invalid ("member is not an object: " ++ key)) := by
  induction obj with
  | nil => rw [memberType, List.lookup_nil]
  | cons m rest ih =>
    obtain ⟨k, v⟩ := m
    rw [memberType.eq_def, List.lookup_cons]
    dsimp only
    by_cases hk : key = k
    · rw [if_pos hk, beq_iff_eq.mpr hk]
      cases v <;> rfl
    · rw [if_neg hk, beq_eq_false_iff_ne.mpr hk]
      exact ih

theorem memberFields_eq (key : String) (obj : Members) : memberFields key obj =
    match obj.lookup key with
    | none => .error .undefined
    | some (.array fields) => sqlToArrowFields fields
    | some _ => .error (.invalid ("member is not an array: " ++ key)) := by
  induction obj with
  | nil => rw [memberFields, List.lookup_nil]
  | cons m rest ih =>
    obtain ⟨k, v⟩ := m
    rw [memberFields.eq_def, List.lookup_cons]
    dsimp only
    by_cases hk : key = k
    · rw [if_pos hk, beq_iff_eq.mpr hk]
      cases v <;> rfl
    · rw [if_neg hk, beq_eq_false_iff_ne.mpr hk]
      exact ih

/-- The objects have the same members, except for their names. -/
def AgreeButName (obj obj' : Members) : Prop :=
  ∀ key, key ≠ "name" → obj.lookup key = obj'.lookup key

theorem agreeButName_append (obj : Members) (v : Json) :
    AgreeButName (obj ++ [("name", v)]) obj := by
  intro key hk
  rw [List.lookup_append, List.lookup_cons, beq_eq_false_iff_ne.mpr hk]
  exact Option.or_none

namespace AgreeButName

theorem getString (h : AgreeButName obj obj') (hk : key ≠ "name") :
    getStringField obj key = getStringField obj' key := by
  unfold getStringField
  rw [h key hk]

theorem getInt (h : AgreeButName obj obj') (hk : key ≠ "name") (default : Int) :
    getIntField obj key default = getIntField obj' key default := by
  unfold getIntField
  rw [h key hk]

theorem getBool (h : AgreeButName obj obj') (hk : key ≠ "name") (default : Bool) :
    getBoolField obj key default = getBoolField obj' key default := by
  unfold getBoolField
  rw [h key hk]

theorem getArray (h : AgreeButName obj obj') (hk : key ≠ "name") :
    getArrayField obj key = getArrayField obj' key := by
  unfold getArrayField
  rw [h key hk]

theorem member (h : AgreeButName obj obj') (hk : key ≠ "name") :
    memberType key obj = memberType key obj' := by
  rw [memberType_eq, memberType_eq, h key hk]

theorem members (h : AgreeButName obj obj') (hk : key ≠ "name") :
    memberFields key obj = memberFields key obj' := by
  rw [memberFields_eq, memberFields_eq, h key hk]

theorem decimal (h : AgreeButName obj obj') (name : String) (p s : Int)
    (make : Int → Int → DataType) :
    readDecimal name p s make obj = readDecimal name p s make obj' := by
  unfold readDecimal
  rw [h.getInt (by decide), h.getInt (by decide)]

/-- The type does not depend on the name. -/
theorem type (h : AgreeButName obj obj') : sqlToArrowType obj = sqlToArrowType obj' := by
  rw [sqlToArrowType, sqlToArrowType, h.getString (by decide)]
  refine bind_congr fun name => ?_
  split
  · rfl
  · rfl
  · exact h.decimal _ _ _ _
  · exact h.decimal _ _ _ _
  · exact h.decimal _ _ _ _
  · unfold readFixedSizeBinaryType
    rw [h.getInt (by decide)]
  · rw [h.member (by decide), h.getInt (by decide)]
  · rw [h.member (by decide)]
  · rw [h.member (by decide), h.member (by decide), h.getBool (by decide)]
  · rw [h.members (by decide)]
  · unfold readUnionMode
    rw [h.members (by decide), h.getString (by decide), h.getArray (by decide)]
  · unfold readTimestampType
    rw [h "timezone" (by decide)]

end AgreeButName

/-! ## Reading what has been written -/

/-- The names that are written are in lower case. -/
theorem naming_toLower {id : LogicalTypeId} {name : String} (h : naming id = .name name) :
    name.toLower = name := by
  have hall : ∀ n ∈ ["invalid", "null", "unknown", "any", "bool", "int8", "int16", "int32",
      "int64", "date32[d]", "time[us]", "timestamp[s]", "timestamp[ms]", "timestamp",
      "timestamp[ns]", "float", "double", "utf8"], n.toLower = n := by decide +kernel
  refine hall name ?_
  cases id <;> cases h <;> decide

theorem struct_toLower : "struct".toLower = "struct" := by decide +kernel

theorem list_toLower : "list".toLower = "list" := by decide +kernel

theorem map_toLower : "map".toLower = "map" := by decide +kernel

theorem getString_first (name : String) (rest : Members) :
    getStringField (("sqlType", .string name) :: rest) "sqlType" = .ok name := rfl

/-- What is written for a type without children is read as the table says. -/
theorem sqlToArrowType_plain {id : LogicalTypeId} {name : String} (h : naming id = .name name) :
    sqlToArrowType [("sqlType", .string name)] =
      match arrowTypeMapping.lookup name with
      | some (.type t) => .ok t
      | some (.timestamp unit) => .ok (.timestamp unit "")
      | _ => .error (.invalid ("Unrecognized type name: " ++ name)) := by
  rw [sqlToArrowType, getString_first, ok_bind, naming_toLower h]
  cases id <;> cases h <;> rfl

theorem sqlToArrowType_list (value : Members) :
    sqlToArrowType [("sqlType", .string "list"), ("valueType", .object value)] =
      (sqlToArrowType value).map (.list .list ⟨"value", true⟩) := by
  rw [sqlToArrowType, getString_first, ok_bind, list_toLower]
  show (memberType "valueType" _ >>= fun value => _) = _
  rw [memberType_eq]
  exact bind_ok ..

theorem sqlToArrowType_struct (fields : List Json) :
    sqlToArrowType [("sqlType", .string "struct"), ("fields", .array fields)] =
      (sqlToArrowFields fields).map .struct := by
  rw [sqlToArrowType, getString_first, ok_bind, struct_toLower]
  show (memberFields "fields" _ >>= fun fields => _) = _
  rw [memberFields_eq]
  exact bind_ok ..

/-- What is read for a map is a map. -/
theorem sqlToArrowType_map {key value : Members} {t : DataType} (h : sqlToArrowType
    [("sqlType", .string "map"), ("keyType", .object key), ("valueType", .object value)] = .ok t) :
    ∃ head entry keysSorted, t = .map head entry keysSorted := by
  rw [sqlToArrowType, getString_first, ok_bind, map_toLower] at h
  obtain ⟨key', -, h⟩ := bind_eq_ok.mp h
  obtain ⟨value', -, h⟩ := bind_eq_ok.mp h
  obtain ⟨keysSorted, -, h⟩ := bind_eq_ok.mp h
  exact ⟨_, _, _, (Except.ok.inj h).symm⟩

/-- Written types have no members of a field. -/
theorem written_lookup {type : LogicalType} (h : writeSQLType type = .ok obj) :
    obj.lookup "name" = none ∧ obj.lookup "nullable" = none := by
  cases type with
  | plain id a c =>
    rw [writeSQLType] at h
    split at h
    · cases h
    · obtain rfl := Except.ok.inj h
      exact ⟨rfl, rfl⟩
    · obtain rfl := Except.ok.inj h
      exact ⟨rfl, rfl⟩
  | decimal p s =>
    obtain rfl := Except.ok.inj h
    exact ⟨rfl, rfl⟩
  | struct a children =>
    rw [writeSQLType] at h
    obtain ⟨fields, -, h⟩ := bind_eq_ok.mp h
    obtain rfl := Except.ok.inj h
    exact ⟨rfl, rfl⟩
  | list a child =>
    rw [writeSQLType] at h
    obtain ⟨value, -, h⟩ := bind_eq_ok.mp h
    obtain rfl := Except.ok.inj h
    exact ⟨rfl, rfl⟩
  | map a key value =>
    rw [writeSQLType] at h
    obtain ⟨key', -, h⟩ := bind_eq_ok.mp h
    obtain ⟨value', -, h⟩ := bind_eq_ok.mp h
    obtain rfl := Except.ok.inj h
    exact ⟨rfl, rfl⟩

/-- The field of a written type: its type, under a name that must not be empty. -/
theorem sqlToArrowField_named {type : LogicalType} (h : writeSQLType type = .ok obj)
    (name : String) {field : FieldHead × DataType} :
    sqlToArrowField (.object (obj ++ [("name", .string name)])) = .ok field ↔
      name ≠ "" ∧ ∃ t, sqlToArrowType obj = .ok t ∧ field = (⟨name, true⟩, t) := by
  obtain ⟨hname, hnullable⟩ := written_lookup h
  have hagree := agreeButName_append obj (.string name)
  have hgetName : getStringField (obj ++ [("name", .string name)]) "name" = .ok name := by
    unfold getStringField
    rw [List.lookup_append, hname]
    rfl
  have hgetNullable : getBoolField (obj ++ [("name", .string name)]) "nullable" true = .ok true := by
    unfold getBoolField
    rw [hagree "nullable" (by decide), hnullable]
  rw [sqlToArrowField, hgetName, ok_bind, hgetNullable, ok_bind, hagree.type, bind_eq_ok]
  by_cases hempty : name = ""
  · constructor
    · rintro ⟨t, -, h⟩
      rw [if_pos hempty] at h
      cases h
    · exact fun h => absurd hempty h.1
  · constructor
    · rintro ⟨t, ht, h⟩
      rw [if_neg hempty] at h
      exact ⟨hempty, t, ht, (Except.ok.inj h).symm⟩
    · rintro ⟨-, t, ht, rfl⟩
      exact ⟨t, ht, if_neg hempty⟩

/-! ## Round trips -/

/-- The round trip of the children of a struct. -/
def roundTripFields (children : List (String × LogicalType)) :
    Result (List (String × LogicalType)) := do
  let written ← writeSQLFields children
  let fields ← sqlToArrowFields written
  mapFields fields

theorem roundTrip_list {a : String} {child t : LogicalType} :
    roundTrip (.list a child) = .ok t ↔ ∃ c, roundTrip child = .ok c ∧ t = .list "" c := by
  unfold roundTrip
  rw [writeSQLType]
  simp only [bind_eq_ok]
  constructor
  · rintro ⟨_, ⟨value, hvalue, hok⟩, arrow, harrow, hmap⟩
    obtain rfl := Except.ok.inj hok
    rw [sqlToArrowType_list] at harrow
    obtain ⟨inner, hinner, rfl⟩ := map_eq_ok.mp harrow
    rw [mapArrowTypeToDuckDB] at hmap
    obtain ⟨c, hc, rfl⟩ := map_eq_ok.mp hmap
    exact ⟨c, ⟨value, hvalue, inner, hinner, hc⟩, rfl⟩
  · rintro ⟨c, ⟨value, hvalue, inner, hinner, hc⟩, rfl⟩
    refine ⟨_, ⟨value, hvalue, rfl⟩, .list .list ⟨"value", true⟩ inner, ?_, ?_⟩
    · rw [sqlToArrowType_list]
      exact map_eq_ok.mpr ⟨inner, hinner, rfl⟩
    · rw [mapArrowTypeToDuckDB]
      exact map_eq_ok.mpr ⟨c, hc, rfl⟩

theorem roundTrip_struct {a : String} {children : List (String × LogicalType)} {t : LogicalType} :
    roundTrip (.struct a children) = .ok t ↔
      ∃ cs, roundTripFields children = .ok cs ∧ t = .struct "" cs := by
  unfold roundTrip roundTripFields
  rw [writeSQLType]
  simp only [bind_eq_ok]
  constructor
  · rintro ⟨_, ⟨written, hwritten, hok⟩, arrow, harrow, hmap⟩
    obtain rfl := Except.ok.inj hok
    rw [sqlToArrowType_struct] at harrow
    obtain ⟨fields, hfields, rfl⟩ := map_eq_ok.mp harrow
    rw [mapArrowTypeToDuckDB] at hmap
    obtain ⟨cs, hcs, rfl⟩ := map_eq_ok.mp hmap
    exact ⟨cs, ⟨written, hwritten, fields, hfields, hcs⟩, rfl⟩
  · rintro ⟨cs, ⟨written, hwritten, fields, hfields, hcs⟩, rfl⟩
    refine ⟨_, ⟨written, hwritten, rfl⟩, .struct fields, ?_, ?_⟩
    · rw [sqlToArrowType_struct]
      exact map_eq_ok.mpr ⟨fields, hfields, rfl⟩
    · rw [mapArrowTypeToDuckDB]
      exact map_eq_ok.mpr ⟨cs, hcs, rfl⟩

theorem roundTripFields_cons {name : String} {type : LogicalType}
    {rest cs : List (String × LogicalType)} :
    roundTripFields ((name, type) :: rest) = .ok cs ↔ name ≠ "" ∧
      ∃ t ts, roundTrip type = .ok t ∧ roundTripFields rest = .ok ts ∧ cs = (name, t) :: ts := by
  unfold roundTrip roundTripFields
  rw [writeSQLFields]
  simp only [bind_eq_ok]
  constructor
  · rintro ⟨_, ⟨out, hout, written, hwritten, hok⟩, fields, hfields, hmap⟩
    obtain rfl := Except.ok.inj hok
    rw [sqlToArrowFields] at hfields
    obtain ⟨field, hfield, hfields⟩ := bind_eq_ok.mp hfields
    obtain ⟨more, hmore, hok⟩ := bind_eq_ok.mp hfields
    obtain rfl := Except.ok.inj hok
    obtain ⟨hname, arrow, harrow, rfl⟩ := (sqlToArrowField_named hout name).mp hfield
    rw [mapFields] at hmap
    obtain ⟨t, ht, hmap⟩ := bind_eq_ok.mp hmap
    obtain ⟨ts, hts, hok⟩ := bind_eq_ok.mp hmap
    exact ⟨hname, t, ts, ⟨out, hout, arrow, harrow, ht⟩, ⟨written, hwritten, more, hmore, hts⟩,
      (Except.ok.inj hok).symm⟩
  · rintro ⟨hname, t, ts, ⟨out, hout, arrow, harrow, ht⟩, ⟨written, hwritten, more, hmore, hts⟩,
      rfl⟩
    refine ⟨_, ⟨out, hout, written, hwritten, rfl⟩, (⟨name, true⟩, arrow) :: more, ?_, ?_⟩
    · rw [sqlToArrowFields]
      exact bind_eq_ok.mpr ⟨_, (sqlToArrowField_named hout name).mpr ⟨hname, arrow, harrow, rfl⟩,
        bind_eq_ok.mpr ⟨more, hmore, rfl⟩⟩
    · rw [mapFields]
      exact bind_eq_ok.mpr ⟨t, ht, bind_eq_ok.mpr ⟨ts, hts, rfl⟩⟩

/-- A map comes back as a struct. -/
theorem roundTrip_map {a : String} {key value t : LogicalType}
    (h : roundTrip (.map a key value) = .ok t) : ∃ cs, t = .struct "" cs := by
  unfold roundTrip at h
  rw [writeSQLType] at h
  obtain ⟨_, hwrite, h⟩ := bind_eq_ok.mp h
  obtain ⟨k, -, hwrite⟩ := bind_eq_ok.mp hwrite
  obtain ⟨v, -, hok⟩ := bind_eq_ok.mp hwrite
  obtain rfl := Except.ok.inj hok
  obtain ⟨arrow, harrow, hmap⟩ := bind_eq_ok.mp h
  obtain ⟨head, entry, keysSorted, rfl⟩ := sqlToArrowType_map harrow
  rw [mapArrowTypeToDuckDB] at hmap
  obtain ⟨c, -, rfl⟩ := map_eq_ok.mp hmap
  exact ⟨_, rfl⟩

/-- What is read when there is no member. -/
theorem sqlToArrowType_nothing (t : DataType) : sqlToArrowType [] ≠ .ok t := by
  rw [sqlToArrowType, show getStringField [] "sqlType" = .ok "" from rfl, ok_bind]
  have hlower : "".toLower = "" := by decide +kernel
  rw [hlower]
  intro h
  cases h

/-- The table from ids to ids: `none` where a type is not read back. -/
def returnedId : LogicalTypeId → Option LogicalTypeId
  | .SQLNULL => some .INVALID
  | .TIME | .TIMESTAMP_SEC | .TIMESTAMP_MS | .TIMESTAMP_NS => some .TIMESTAMP
  | id => if isKept id then some id else none

theorem mapped_plain {id : LogicalTypeId} {name : String} (h : naming id = .name name) :
    (sqlToArrowType [("sqlType", .string name)] >>= mapArrowTypeToDuckDB) =
      match returnedId id with
      | some id' => .ok (.ofId id')
      | none => .error (.invalid ("Unrecognized type name: " ++ name)) := by
  rw [sqlToArrowType_plain h]
  cases id <;> cases h <;> rfl

theorem roundTrip_plain {id : LogicalTypeId} {a c : String} {t : LogicalType} :
    roundTrip (.plain id a c) = .ok t ↔ ∃ id', returnedId id = some id' ∧ t = .ofId id' := by
  unfold roundTrip
  rw [writeSQLType]
  cases hn : naming id with
  | unsupported =>
    have hnone : returnedId id = none := by cases id <;> first | rfl | cases hn
    rw [hnone]
    constructor
    · intro h
      cases h
    · rintro ⟨_, hno, -⟩
      cases hno
  | nothing =>
    have hnone : returnedId id = none := by cases id <;> first | rfl | cases hn
    rw [hnone, ok_bind]
    constructor
    · intro h
      obtain ⟨arrow, harrow, -⟩ := bind_eq_ok.mp h
      exact absurd harrow (sqlToArrowType_nothing arrow)
    · rintro ⟨_, hno, -⟩
      cases hno
  | name n =>
    dsimp only
    rw [ok_bind, mapped_plain hn]
    cases returnedId id with
    | none =>
      constructor
      · intro h
        cases h
      · rintro ⟨_, hno, -⟩
        cases hno
    | some id' =>
      constructor
      · exact fun h => ⟨id', rfl, (Except.ok.inj h).symm⟩
      · rintro ⟨id'', hsome, rfl⟩
        obtain rfl := Option.some.inj hsome
        rfl

theorem returnedId_self {id : LogicalTypeId} : returnedId id = some id ↔ isKept id = true := by
  cases id <;> decide

/-! ## Exactly the preserved types -/

mutual

theorem preserved_of_roundTrip : ∀ {type : LogicalType}, roundTrip type = .ok type →
    Preserved type
  | .plain id a c, h => by
    obtain ⟨id', hreturned, heq⟩ := roundTrip_plain.mp h
    obtain ⟨rfl, rfl, rfl⟩ := LogicalType.plain.inj heq
    exact .plain id (returnedId_self.mp hreturned)
  | .decimal p s, h => by
    unfold roundTrip at h
    rw [writeSQLType, ok_bind] at h
    obtain ⟨arrow, harrow, -⟩ := bind_eq_ok.mp h
    exact absurd harrow (sqlToArrowType_nothing arrow)
  | .struct a children, h => by
    obtain ⟨cs, hcs, heq⟩ := roundTrip_struct.mp h
    obtain ⟨rfl, rfl⟩ := LogicalType.struct.inj heq
    exact .struct children (fun c hc => (preserved_of_fields hcs c hc).1)
      fun c hc => (preserved_of_fields hcs c hc).2
  | .list a child, h => by
    obtain ⟨c, hc, heq⟩ := roundTrip_list.mp h
    obtain ⟨rfl, rfl⟩ := LogicalType.list.inj heq
    exact .list child (preserved_of_roundTrip hc)
  | .map a key value, h => by
    obtain ⟨cs, heq⟩ := roundTrip_map h
    cases heq

theorem preserved_of_fields : ∀ {children : List (String × LogicalType)},
    roundTripFields children = .ok children → ∀ c ∈ children, c.1 ≠ "" ∧ Preserved c.2
  | [], _ => by
    intro c hc
    cases hc
  | (name, type) :: rest, h => by
    obtain ⟨hname, t, ts, htype, hrest, heq⟩ := roundTripFields_cons.mp h
    obtain ⟨hhead, rfl⟩ := List.cons.inj heq
    obtain ⟨-, rfl⟩ := Prod.mk.inj hhead
    intro c hc
    obtain rfl | hc := List.mem_cons.mp hc
    · exact ⟨hname, preserved_of_roundTrip htype⟩
    · exact preserved_of_fields hrest c hc

end

theorem roundTripFields_of_forall {children : List (String × LogicalType)}
    (hnames : ∀ c ∈ children, c.1 ≠ "") (htypes : ∀ c ∈ children, roundTrip c.2 = .ok c.2) :
    roundTripFields children = .ok children := by
  induction children with
  | nil =>
    unfold roundTripFields
    rw [writeSQLFields, ok_bind, sqlToArrowFields, ok_bind, mapFields]
  | cons c rest ih =>
    obtain ⟨name, type⟩ := c
    refine roundTripFields_cons.mpr ⟨hnames _ List.mem_cons_self, type, rest, ?_, ?_, rfl⟩
    · exact htypes _ List.mem_cons_self
    · exact ih (fun c hc => hnames c (List.mem_cons_of_mem _ hc))
        fun c hc => htypes c (List.mem_cons_of_mem _ hc)

theorem Preserved.roundTrip {type : LogicalType} (h : Preserved type) :
    roundTrip type = .ok type := by
  induction h with
  | plain id hid => exact roundTrip_plain.mpr ⟨id, returnedId_self.mpr hid, rfl⟩
  | list child _ ih => exact roundTrip_list.mpr ⟨child, ih, rfl⟩
  | struct children hnames _ ih =>
    exact roundTrip_struct.mpr ⟨children, roundTripFields_of_forall hnames ih, rfl⟩

/-- **Exactly the preserved types survive** being written, read and mapped, at every nesting
depth. -/
theorem typedef_round_trip (type : LogicalType) :
    roundTrip type = .ok type ↔ Preserved type :=
  ⟨preserved_of_roundTrip, Preserved.roundTrip⟩

/-- A time of day comes back as a timestamp. -/
theorem time_returns_as_timestamp :
    writeSQLType (.ofId .TIME) = .ok [("sqlType", .string "time[us]")] ∧
      roundTrip (.ofId .TIME) = .ok (.ofId .TIMESTAMP) ∧
      roundTrip (.ofId .TIME) ≠ .ok (.ofId .TIME) := by
  have htime : roundTrip (.ofId .TIME) = .ok (.ofId .TIMESTAMP) :=
    roundTrip_plain.mpr ⟨.TIMESTAMP, rfl, rfl⟩
  refine ⟨rfl, htime, fun h => ?_⟩
  rw [htime] at h
  cases h

end Haybarn.Typedef
