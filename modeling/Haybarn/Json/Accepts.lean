import Haybarn.Json.Inference

/-!
# Inferred types and their own data (`json_analyzer.cc`, `json_parser.cc`)

For a field whose values are numbers and nulls, the type that the column path infers is one whose
array parser accepts all of them. The row path infers the same type, save where integers are
forced into 64 bits: there the column path says `int64` and the row path `uint64`, which neither
is the same type nor accepts a negative value.
-/

namespace Haybarn.Json

open Lib.JsonDoc

/-! ## Kinds and ranges -/

/-- The range of an integer of each kind. -/
theorem kind_range (x : Number) :
    match x.kind with
    | .int => -2 ^ 31 ≤ x.value ∧ x.value ≤ 0
    | .int64 => -2 ^ 63 ≤ x.value ∧ x.value < -2 ^ 31
    | .uint => 0 ≤ x.value ∧ x.value < 2 ^ 32
    | .uint64 => 2 ^ 32 ≤ x.value ∧ x.value < 2 ^ 64
    | .double => True := by
  cases x with
  | real text => trivial
  | integer minus n =>
    cases minus with
    | true =>
      have hvalue : (Number.integer true n).value = -(n : Int) := rfl
      by_cases h31 : n ≤ 2 ^ 31
      · have hkind : (Number.integer true n).kind = .int := if_pos h31
        rw [hkind, hvalue]
        dsimp only
        omega
      · by_cases h63 : n ≤ 2 ^ 63
        · have hkind : (Number.integer true n).kind = .int64 :=
            (if_neg h31).trans (if_pos h63)
          rw [hkind, hvalue]
          dsimp only
          omega
        · have hkind : (Number.integer true n).kind = .double :=
            (if_neg h31).trans (if_neg h63)
          rw [hkind]
          trivial
    | false =>
      have hvalue : (Number.integer false n).value = (n : Int) := rfl
      by_cases h32 : n < 2 ^ 32
      · have hkind : (Number.integer false n).kind = .uint := if_pos h32
        rw [hkind, hvalue]
        dsimp only
        omega
      · by_cases h64 : n < 2 ^ 64
        · have hkind : (Number.integer false n).kind = .uint64 :=
            (if_neg h32).trans (if_pos h64)
          rw [hkind, hvalue]
          dsimp only
          omega
        · have hkind : (Number.integer false n).kind = .double :=
            (if_neg h32).trans (if_neg h64)
          rw [hkind]
          trivial

section Parsers

variable (arrow : Externals) {x : Number}

theorem accepts_null (t : DataType) : accepts arrow t .null = true := by
  cases t <;> rfl

theorem accepts_float64 : accepts arrow .float64 (.number x) = true := rfl

theorem accepts_signed {bits : Nat} {t : DataType} {name : String}
    (ht : appendValue arrow t (.number x) = parseSigned bits name (.number x))
    (hkind : isInt64 x = true) (hrange : x.value.bmod (2 ^ bits) = x.value) :
    accepts arrow t (.number x) = true := by
  unfold accepts
  rw [ht, parseSigned, if_pos hkind, if_pos hrange]
  rfl

theorem accepts_unsigned {bits : Nat} {t : DataType} {name : String}
    (ht : appendValue arrow t (.number x) = parseUnsigned bits name (.number x))
    (hkind : isUint64 x = true) (hrange : x.value % 2 ^ bits = x.value) :
    accepts arrow t (.number x) = true := by
  unfold accepts
  rw [ht, parseUnsigned, if_pos hkind, if_pos hrange]
  rfl

end Parsers

/-! ## Counters of numbers -/

/-- A null or a number. -/
def IsNumeric (v : Json) : Prop := v = .null ∨ ∃ x, v = .number x

/-- The literal has a minus sign. -/
def hasMinus : Number → Bool
  | .integer minus _ => minus
  | .real _ => false

/-- A minus sign makes a signed kind. -/
theorem kind_of_hasMinus {x : Number} (h : hasMinus x = true) (hdouble : x.kind ≠ .double) :
    x.kind = .int ∨ x.kind = .int64 := by
  cases x with
  | real text => nomatch h
  | integer minus n =>
    obtain rfl : minus = true := h
    unfold Number.kind at hdouble ⊢
    dsimp only at hdouble ⊢
    split
    next => exact .inl rfl
    next h31 =>
      rw [if_neg h31] at hdouble
      split
      next => exact .inr rfl
      next h63 =>
        rw [if_neg h63] at hdouble
        exact absurd rfl hdouble

/-- No other integer is an `int`. -/
theorem hasMinus_of_kind {x : Number} (h : x.kind = .int) : hasMinus x = true := by
  cases x with
  | real text => nomatch h
  | integer minus n =>
    cases minus with
    | true => rfl
    | false =>
      unfold Number.kind at h
      dsimp only at h
      split at h
      next => nomatch h
      next => split at h <;> nomatch h

section Counters

variable {vs : List Json}

/-- A counter of numbers and nulls counts numbers. -/
theorem counter_numbers (hvs : ∀ v ∈ vs, IsNumeric v) (c : JSONArrayStats → Nat) (hzero : c 0 = 0)
    (hadd : ∀ s t, c (s + t) = c s + c t) {p : Number → Prop}
    (hp : ∀ x, 0 < c (valueStats (.number x)) ↔ p x) :
    0 < c (statsOf vs) ↔ ∃ x, .number x ∈ vs ∧ p x := by
  rw [counter_statsOf c hzero hadd]
  constructor
  · rintro ⟨v, hv, hpos⟩
    rcases hvs v hv with rfl | ⟨x, rfl⟩
    · have hnone : c (valueStats .null) = 0 := hzero
      omega
    · exact ⟨x, hv, (hp x).mp hpos⟩
  · rintro ⟨x, hx, hpx⟩
    exact ⟨_, hx, (hp x).mpr hpx⟩

theorem ite_pos_iff {p : Prop} [Decidable p] : 0 < (if p then 1 else 0) ↔ p := by
  split
  next h => exact ⟨fun _ => h, fun _ => Nat.one_pos⟩
  next h => exact ⟨nofun, fun hp => absurd hp h⟩

/-- What the counters say about some numbers and nulls. -/
structure NumberCounters (vs : List Json) : Prop where
  object : ¬ 0 < (statsOf vs).counterObject
  array : ¬ 0 < (statsOf vs).counterArray
  string : ¬ 0 < (statsOf vs).counterString
  bool : ¬ 0 < (statsOf vs).counterBool
  int32 : 0 < (statsOf vs).counterInt32 ↔ ∃ x, .number x ∈ vs ∧ x.kind = .int
  int64 : 0 < (statsOf vs).counterInt64 ↔ ∃ x, .number x ∈ vs ∧ x.kind = .int64
  uint32 : 0 < (statsOf vs).counterUint32 ↔ ∃ x, .number x ∈ vs ∧ x.kind = .uint
  uint32Max : 0 < (statsOf vs).counterUint32Max ↔
    ∃ x, .number x ∈ vs ∧ x.kind = .uint ∧ 2 ^ 31 - 1 ≤ x.value
  uint64 : 0 < (statsOf vs).counterUint64 ↔ ∃ x, .number x ∈ vs ∧ x.kind = .uint64
  uint64Max : 0 < (statsOf vs).counterUint64Max ↔
    ∃ x, .number x ∈ vs ∧ x.kind = .uint64 ∧ 2 ^ 63 - 1 ≤ x.value
  double : 0 < (statsOf vs).counterDouble ↔ ∃ x, .number x ∈ vs ∧ x.kind = .double

theorem numberCounters (hvs : ∀ v ∈ vs, IsNumeric v) : NumberCounters vs where
  object h := by
    obtain ⟨x, -, hx⟩ := (counter_numbers hvs _ rfl (fun _ _ => rfl) (p := fun _ => False)
      fun x => by rw [valueStats_number]; cases x.kind <;> simp).mp h
    exact hx
  array h := by
    obtain ⟨x, -, hx⟩ := (counter_numbers hvs _ rfl (fun _ _ => rfl) (p := fun _ => False)
      fun x => by rw [valueStats_number]; cases x.kind <;> simp).mp h
    exact hx
  string h := by
    obtain ⟨x, -, hx⟩ := (counter_numbers hvs _ rfl (fun _ _ => rfl) (p := fun _ => False)
      fun x => by rw [valueStats_number]; cases x.kind <;> simp).mp h
    exact hx
  bool h := by
    obtain ⟨x, -, hx⟩ := (counter_numbers hvs _ rfl (fun _ _ => rfl) (p := fun _ => False)
      fun x => by rw [valueStats_number]; cases x.kind <;> simp).mp h
    exact hx
  int32 := counter_numbers hvs _ rfl (fun _ _ => rfl) fun x => by
    rw [valueStats_number]; cases x.kind <;> simp
  int64 := counter_numbers hvs _ rfl (fun _ _ => rfl) fun x => by
    rw [valueStats_number]; cases x.kind <;> simp
  uint32 := counter_numbers hvs _ rfl (fun _ _ => rfl) fun x => by
    rw [valueStats_number]; cases x.kind <;> simp
  uint32Max := counter_numbers hvs _ rfl (fun _ _ => rfl) fun x => by
    rw [valueStats_number]
    cases x.kind <;> simp [ite_pos_iff]
  uint64 := counter_numbers hvs _ rfl (fun _ _ => rfl) fun x => by
    rw [valueStats_number]; cases x.kind <;> simp
  uint64Max := counter_numbers hvs _ rfl (fun _ _ => rfl) fun x => by
    rw [valueStats_number]
    cases x.kind <;> simp [ite_pos_iff]
  double := counter_numbers hvs _ rfl (fun _ _ => rfl) fun x => by
    rw [valueStats_number]; cases x.kind <;> simp

end Counters

/-! ## Forced into 64 bits -/

/-- The branch in which the two paths differ. -/
def forcedInto64 (stats : JSONArrayStats) : Prop :=
  ¬ stats.counterDouble > 0 ∧ ¬ stats.counterUint64Max > 0 ∧
    ((stats.counterInt64 > 0 ∨ stats.counterUint64 > 0) ∨
      (stats.counterInt32 > 0 ∧ stats.counterUint32Max > 0))

theorem scalarType_forced {stats : JSONArrayStats} (h : forcedInto64 stats) (t : DataType) :
    scalarType t stats = t := by
  unfold scalarType
  rw [if_neg h.1, if_neg h.2.1, if_pos h.2.2]

theorem scalarType_free {stats : JSONArrayStats} (h : ¬ forcedInto64 stats) (t u : DataType) :
    scalarType t stats = scalarType u stats := by
  unfold scalarType
  split
  next => rfl
  next hdouble =>
    split
    next => rfl
    next hmax =>
      split
      next hforced => exact absurd ⟨hdouble, hmax, hforced⟩ h
      next => rfl

/-- The values are not forced into 64 bits: one of them is a double or as large as `int64` gets,
or all of them fit 32 bits and no negative one stands next to one as large as `int32` gets. -/
def NotForced (vs : List Json) : Prop :=
  (∃ x, .number x ∈ vs ∧ (x.kind = .double ∨ 2 ^ 63 - 1 ≤ x.value)) ∨
  ((∀ x, .number x ∈ vs → -2 ^ 31 ≤ x.value ∧ x.value < 2 ^ 32) ∧
    ¬ ((∃ x, .number x ∈ vs ∧ hasMinus x = true) ∧ ∃ x, .number x ∈ vs ∧ 2 ^ 31 - 1 ≤ x.value))

theorem forcedInto64_iff {vs : List Json} (hvs : ∀ v ∈ vs, IsNumeric v) :
    forcedInto64 (statsOf vs) ↔ ¬ NotForced vs := by
  have hc := numberCounters hvs
  unfold forcedInto64
  simp only [gt_iff_lt, hc.double, hc.uint64Max, hc.int64, hc.uint64, hc.int32, hc.uint32Max]
  constructor
  · rintro ⟨hdouble, hmax, hforced⟩ (⟨x, hx, hkind | hlarge⟩ | ⟨hfits, hmixed⟩)
    · exact hdouble ⟨x, hx, hkind⟩
    · have hrange := kind_range x
      cases hkind : x.kind with
      | double => exact hdouble ⟨x, hx, hkind⟩
      | uint64 => exact hmax ⟨x, hx, hkind, hlarge⟩
      | _ =>
        rw [hkind] at hrange
        dsimp only at hrange
        omega
    · rcases hforced with (⟨x, hx, hkind⟩ | ⟨x, hx, hkind⟩) | ⟨⟨x, hx, hkind⟩, y, hy, -, hlarge⟩
      · have hrange := kind_range x
        have hfit := hfits x hx
        rw [hkind] at hrange
        dsimp only at hrange
        omega
      · have hrange := kind_range x
        have hfit := hfits x hx
        rw [hkind] at hrange
        dsimp only at hrange
        omega
      · exact hmixed ⟨⟨x, hx, hasMinus_of_kind hkind⟩, y, hy, hlarge⟩
  · intro hnot
    have hdouble : ∀ x, .number x ∈ vs → x.kind ≠ .double :=
      fun x hx hkind => hnot (.inl ⟨x, hx, .inl hkind⟩)
    have hsmall : ∀ x, .number x ∈ vs → ¬ 2 ^ 63 - 1 ≤ x.value :=
      fun x hx hlarge => hnot (.inl ⟨x, hx, .inr hlarge⟩)
    refine ⟨fun ⟨x, hx, hkind⟩ => hdouble x hx hkind,
      fun ⟨x, hx, _, hlarge⟩ => hsmall x hx hlarge, ?_⟩
    by_cases hfits : ∀ x, .number x ∈ vs → -2 ^ 31 ≤ x.value ∧ x.value < 2 ^ 32
    · -- a negative value next to a large one
      have hmixed := not_not.mp fun h => hnot (.inr ⟨hfits, h⟩)
      obtain ⟨⟨x, hx, hminus⟩, y, hy, hlarge⟩ := hmixed
      rcases kind_of_hasMinus hminus (hdouble x hx) with hkind | hkind
      · have hrange := kind_range y
        have hfit := hfits y hy
        cases hy' : y.kind with
        | double => exact absurd hy' (hdouble y hy)
        | uint => exact .inr ⟨⟨x, hx, hkind⟩, y, hy, hy', hlarge⟩
        | uint64 => exact .inl (.inr ⟨y, hy, hy'⟩)
        | _ =>
          rw [hy'] at hrange
          dsimp only at hrange
          omega
      · exact .inl (.inl ⟨x, hx, hkind⟩)
    · -- a value that does not fit 32 bits
      obtain ⟨x, hx⟩ := not_forall.mp hfits
      obtain ⟨hx, hrange32⟩ := Classical.not_imp.mp hx
      have hrange := kind_range x
      cases hkind : x.kind with
      | double => exact absurd hkind (hdouble x hx)
      | int64 => exact .inl (.inl ⟨x, hx, hkind⟩)
      | uint64 => exact .inl (.inr ⟨x, hx, hkind⟩)
      | _ =>
        rw [hkind] at hrange
        dsimp only at hrange
        omega

/-! ## The inferred types -/

section Types

variable {arrow : Externals} {vs : List Json}

/-- The type of numbers and nulls comes from the counters alone. -/
theorem fieldType_numbers (hvs : ∀ v ∈ vs, IsNumeric v) (forced64 : DataType) (ss : List Json) :
    fieldType arrow forced64 (statsOf vs) ss = scalarType forced64 (statsOf vs) := by
  have hc := numberCounters hvs
  have hdirectly : ¬ inferredDirectly (statsOf vs) = true := fun h =>
    (of_decide_eq_true h).elim hc.object hc.array
  have hanalyzers : ¬ inferredFromAnalyzers (statsOf vs) = true := fun h =>
    hc.string (of_decide_eq_true h).2
  unfold fieldType
  rw [if_neg hdirectly, if_neg hanalyzers]

/-- **The column path infers a type that accepts its data.** -/
theorem scalarType_accepts (hvs : ∀ v ∈ vs, IsNumeric v) {v : Json} (hv : v ∈ vs) :
    accepts arrow (scalarType .int64 (statsOf vs)) v = true := by
  rcases hvs v hv with rfl | ⟨x, rfl⟩
  · exact accepts_null arrow _
  have hc := numberCounters hvs
  have hrange := kind_range x
  unfold scalarType
  split
  next => exact accepts_float64 arrow
  next hdouble =>
    split
    next =>
      split
      next => exact accepts_float64 arrow
      next hnegative =>
        -- all of them are unsigned
        cases hkind : x.kind with
        | double => exact absurd (hc.double.mpr ⟨x, hv, hkind⟩) hdouble
        | int => exact absurd (.inr (hc.int32.mpr ⟨x, hv, hkind⟩)) hnegative
        | int64 => exact absurd (.inl (hc.int64.mpr ⟨x, hv, hkind⟩)) hnegative
        | _ =>
          rw [hkind] at hrange
          dsimp only at hrange
          refine accepts_unsigned arrow rfl ?_ (by omega)
          unfold isUint64
          rw [hkind]
    next hmax =>
      split
      next =>
        -- none of them is as large as `int64` gets
        have hsmall : ¬ (x.kind = .uint64 ∧ 2 ^ 63 - 1 ≤ x.value) :=
          fun ⟨hkind, hlarge⟩ => hmax (hc.uint64Max.mpr ⟨x, hv, hkind, hlarge⟩)
        have hbounds : -2 ^ 63 ≤ x.value ∧ x.value < 2 ^ 63 ∧ isInt64 x = true := by
          unfold isInt64
          cases hkind : x.kind with
          | double => exact absurd (hc.double.mpr ⟨x, hv, hkind⟩) hdouble
          | uint64 =>
            have hlarge : ¬ 2 ^ 63 - 1 ≤ x.value := fun hlarge => hsmall ⟨hkind, hlarge⟩
            rw [hkind] at hrange
            dsimp only at hrange
            exact ⟨by omega, by omega, decide_eq_true (by omega)⟩
          | _ =>
            rw [hkind] at hrange
            dsimp only at hrange
            exact ⟨by omega, by omega, rfl⟩
        refine accepts_signed arrow rfl hbounds.2.2 (Int.bmod_eq_of_le ?_ ?_)
        · exact hbounds.1
        · exact hbounds.2.1
      next hforced =>
        have h64 : x.kind ≠ .int64 ∧ x.kind ≠ .uint64 :=
          ⟨fun hkind => hforced (.inl (.inl (hc.int64.mpr ⟨x, hv, hkind⟩))),
            fun hkind => hforced (.inl (.inr (hc.uint64.mpr ⟨x, hv, hkind⟩)))⟩
        split
        next hmax32 =>
          -- next to a large one there is no negative one
          cases hkind : x.kind with
          | double => exact absurd (hc.double.mpr ⟨x, hv, hkind⟩) hdouble
          | int64 => exact absurd hkind h64.1
          | uint64 => exact absurd hkind h64.2
          | int => exact absurd (.inr ⟨hc.int32.mpr ⟨x, hv, hkind⟩, hmax32⟩) hforced
          | uint =>
            rw [hkind] at hrange
            dsimp only at hrange
            refine accepts_unsigned arrow rfl ?_ (by omega)
            unfold isUint64
            rw [hkind]
        next hmax32 =>
          have hsmall : ¬ (x.kind = .uint ∧ 2 ^ 31 - 1 ≤ x.value) :=
            fun ⟨hkind, hlarge⟩ => hmax32 (hc.uint32Max.mpr ⟨x, hv, hkind, hlarge⟩)
          have hbounds : -2 ^ 31 ≤ x.value ∧ x.value < 2 ^ 31 ∧ isInt64 x = true ∧
              (x.kind = .int ∨ x.kind = .uint) := by
            unfold isInt64
            cases hkind : x.kind with
            | double => exact absurd (hc.double.mpr ⟨x, hv, hkind⟩) hdouble
            | int64 => exact absurd hkind h64.1
            | uint64 => exact absurd hkind h64.2
            | int =>
              rw [hkind] at hrange
              dsimp only at hrange
              exact ⟨by omega, by omega, rfl, .inl rfl⟩
            | uint =>
              have hlarge : ¬ 2 ^ 31 - 1 ≤ x.value := fun hlarge => hsmall ⟨hkind, hlarge⟩
              rw [hkind] at hrange
              dsimp only at hrange
              exact ⟨by omega, by omega, rfl, .inr rfl⟩
          obtain ⟨hlow, hhigh, hint64, hkind⟩ := hbounds
          have hany : (statsOf vs).counterInt32 > 0 ∨ (statsOf vs).counterUint32 > 0 :=
            hkind.imp (fun h => hc.int32.mpr ⟨x, hv, h⟩) fun h => hc.uint32.mpr ⟨x, hv, h⟩
          rw [if_pos hany]
          exact accepts_signed arrow rfl hint64 (Int.bmod_eq_of_le hlow hhigh)

end Types

/-! ## Main result -/

/-- Inferred both ways, the field of a row table and the column of a column table with the same
values have one type, and its parser accepts the values. -/
def InferredAlike (arrow : Externals) (slots : Slots) (tell : Nat → Nat) (rows : List Json)
    (columns : List (String × List Json)) (k : String) (vs : List Json) : Prop :=
  ∃ fields columnFields boundaries t,
    inferTableType arrow slots (tokensFrom tell 0 (events (.array rows))) =
      some (.rowArray fields) ∧
    inferTableType arrow slots (tokensFrom tell 0
        (events (.object (columns.map fun c => (c.1, .array c.2))))) =
      some (.columnObject columnFields boundaries) ∧
    (k, t) ∈ fields ∧ (k, t) ∈ columnFields ∧ ∀ v ∈ vs, accepts arrow t v = true

/-- **The two paths agree on a field of numbers and nulls, and its type accepts its data, exactly
when the values are not forced into 64 bits.** The column path alone always infers a type that
accepts its data. -/
theorem inferred_alike_iff (arrow : Externals) (slots : Slots) (tell : Nat → Nat) {rows : List Json}
    (hrows : Trackable rows) {columns : List (String × List Json)}
    (hcolumns : (columns.map Prod.fst).Nodup) {k : String}
    (hk : k ∈ (rows.flatMap members).map Prod.fst)
    (hcolumn : (k, valuesOf k (rows.flatMap members)) ∈ columns)
    (hnumeric : ∀ v ∈ valuesOf k (rows.flatMap members), IsNumeric v) :
    (InferredAlike arrow slots tell rows columns k (valuesOf k (rows.flatMap members)) ↔
      NotForced (valuesOf k (rows.flatMap members))) ∧
    ∃ columnFields boundaries t,
      inferTableType arrow slots (tokensFrom tell 0
          (events (.object (columns.map fun c => (c.1, .array c.2))))) =
        some (.columnObject columnFields boundaries) ∧
      (k, t) ∈ columnFields ∧
      ∀ v ∈ valuesOf k (rows.flatMap members), accepts arrow t v = true := by
  obtain ⟨fields, hfields, hmem⟩ := @inferTableType_rows arrow slots _ hrows tell
  have hcolumnFields := inferTableType_columns arrow slots tell columns
  have hforced := forcedInto64_iff hnumeric
  generalize hvs : valuesOf k (rows.flatMap members) = vs at *
  have hrow : ∀ t, (k, t) ∈ fields ↔ t = scalarType .uint64 (statsOf vs) := by
    intro t
    rw [hmem, hvs, rowFieldType, fieldType_numbers hnumeric]
    exact and_iff_right hk
  have hcol : ∀ t, (k, t) ∈ sortFields (columns.map fun c =>
      (c.1, columnType arrow c.2 (sampled slots {} c.2).sample)) ↔
      t = scalarType .int64 (statsOf vs) := by
    intro t
    rw [mem_sortFields, List.mem_map]
    constructor
    · rintro ⟨⟨k', vs'⟩, hc, heq⟩
      obtain ⟨rfl, rfl⟩ := Prod.mk.inj heq
      have hsame : vs' = vs :=
        congrArg Prod.snd (List.inj_on_of_nodup_map hcolumns hc hcolumn rfl)
      rw [hsame, columnType, fieldType_numbers hnumeric]
    · rintro rfl
      refine ⟨(k, vs), hcolumn, ?_⟩
      rw [columnType, fieldType_numbers hnumeric]
  have haccepts : ∀ v ∈ vs, accepts arrow (scalarType .int64 (statsOf vs)) v = true :=
    fun v hv => scalarType_accepts hnumeric hv
  refine ⟨?_, _, _, _, hcolumnFields, (hcol _).mpr rfl, haccepts⟩
  constructor
  · rintro ⟨fields', columnFields, boundaries, t, hfields', hcolumns', ht, ht', -⟩
    obtain rfl : fields = fields' := by
      have := hfields.symm.trans hfields'
      simpa using this
    obtain ⟨rfl, -⟩ : _ = columnFields ∧ _ = boundaries := by
      have := hcolumnFields.symm.trans hcolumns'
      simpa using this
    by_contra hnot
    have h := hforced.mpr hnot
    have hrowType := (hrow t).mp ht
    have hcolType := (hcol t).mp ht'
    rw [scalarType_forced h] at hrowType hcolType
    exact nomatch hrowType.symm.trans hcolType
  · intro hfree
    have hnot : ¬ forcedInto64 (statsOf vs) := fun h => hforced.mp h hfree
    refine ⟨fields, _, _, scalarType .int64 (statsOf vs), hfields, hcolumnFields, ?_,
      (hcol _).mpr rfl, haccepts⟩
    exact (hrow _).mpr (scalarType_free hnot _ _)

/-- Two rows whose field is an `int32` both ways. -/
theorem inferred_alike_two_rows :
    let arrow : Externals := ⟨fun _ => none, fun _ => "", fun _ => ""⟩
    let vs : List Json := [.number (.integer false 1), .number (.integer true 2)]
    let rows : List Json := vs.map fun v => .object [("a", v)]
    InferredAlike arrow (fun _ => none) id rows [("a", vs)] "a" vs := by
  intro arrow vs rows
  have hnumbers : ∀ v ∈ vs, v = .number (.integer false 1) ∨ v = .number (.integer true 2) := by
    intro v hv
    rcases List.mem_cons.mp hv with rfl | hv
    · exact .inl rfl
    · exact .inr (List.mem_singleton.mp hv)
  have hfree : NotForced vs := by
    refine .inr ⟨fun x hx => ?_, fun ⟨_, x, hx, hlarge⟩ => ?_⟩
    · rcases hnumbers _ hx with heq | heq
      · obtain rfl := Json.number.inj heq
        decide
      · obtain rfl := Json.number.inj heq
        decide
    · rcases hnumbers _ hx with heq | heq
      · obtain rfl := Json.number.inj heq
        exact absurd hlarge (by decide)
      · obtain rfl := Json.number.inj heq
        exact absurd hlarge (by decide)
  exact (@inferred_alike_iff arrow (fun _ => none) id rows
    ⟨by decide +kernel, by decide +kernel, by decide +kernel⟩ [("a", vs)]
    (List.nodup_singleton _) "a" (by decide +kernel) List.mem_cons_self
    fun v hv => (hnumbers v hv).elim (fun h => .inr ⟨_, h⟩) fun h => .inr ⟨_, h⟩).1.mpr hfree

/-- A negative value next to one as large as `int32` gets. The row path says `uint64`, whose
parser rejects the negative value; the column path says `int64`. -/
theorem row_type_rejects_its_data :
    let arrow : Externals := ⟨fun _ => none, fun _ => "", fun _ => ""⟩
    let vs : List Json :=
      [.number (.integer false 1), .number (.integer true 2), .number (.integer false (2 ^ 31))]
    let rows : List Json := vs.map fun v => .object [("a", v)]
    inferTableType arrow (fun _ => none) (tokensFrom id 0 (events (.array rows))) =
      some (.rowArray [("a", .uint64)]) ∧
    inferTableType arrow (fun _ => none) (tokensFrom id 0 (events (.object [("a", .array vs)]))) =
      some (.columnObject [("a", .int64)] [("a", ⟨1, 5⟩)]) ∧
    accepts arrow .uint64 (.number (.integer true 2)) = false ∧
    ¬ InferredAlike arrow (fun _ => none) id rows [("a", vs)] "a" vs := by
  intro arrow vs rows
  have hrows : inferTableType arrow (fun _ => none) (tokensFrom id 0 (events (.array rows))) =
      some (.rowArray [("a", .uint64)]) := by rfl
  refine ⟨hrows, by rfl, by rfl, ?_⟩
  rintro ⟨fields, _, _, t, hfields, -, ht, -, haccepts⟩
  obtain rfl : [("a", DataType.uint64)] = fields := by
    have := hrows.symm.trans hfields
    simpa using this
  obtain rfl : t = .uint64 := congrArg Prod.snd (List.mem_singleton.mp ht)
  have hnegative := haccepts (.number (.integer true 2)) (List.mem_cons_of_mem _ List.mem_cons_self)
  exact nomatch hnegative

end Haybarn.Json
