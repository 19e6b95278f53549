import Haybarn.Json.ArrayReader

/-!
# The JSON table readers (`json_table.cc`)

A table reader returns record batches until there are no more rows. The row reader has one array
reader for the rows, the column reader has one for each column and pads the shorter columns of a
batch with nulls.

Whatever the batch size, the batches of a row table are the rows through the struct parser
(`read_rows`), and the batches of a column table are the columns through their parsers, padded up
to the longest (`read_columns`). For columns the names must be distinct: the readers are kept by
name, so two fields of one name would share a reader.

Mirroring notes:
- A batch of rows is the list of its rows, a batch of columns the list of its columns.
- `column_readers_` is an association list. `insert` leaves an entry that exists.
- The stream of a column is what the parser reports for the bytes of its array.
-/

namespace Haybarn.Json

open Lib.JsonDoc

/-- Batch after batch, until the reader returns none or fails. `none` is a reader that has not
come to its end yet. -/
def readAll {σ B : Type} (next : σ → Except ReadError (Option B × σ)) :
    Nat → σ → Option (Except ReadError (List B))
  | 0, _ => none
  | fuel + 1, s =>
    match next s with
    | .error e => some (.error e)
    | .ok (none, _) => some (.ok [])
    | .ok (some batch, s') => (readAll next fuel s').map fun rest => rest.map (batch :: ·)

/-! ## Rows -/

section Rows

variable {V : Type} (isNull : V → Bool)

def nonZeroNulls : String :=
  "Unable to construct record batch from a StructArray with non-zero nulls."

/-- `RowArrayTableReader::ReadNext` -/
def rowReadNext (batchSize : Nat) (r : ArrayReader V) :
    Except ReadError (Option (List V) × ArrayReader V) :=
  match r.readNextN batchSize with
  | .error e => .error e
  | .ok r' =>
    -- `Finish` takes the builder
    if r'.builder.length = 0 then .ok (none, { r' with builder := [] })
    else if r'.builder.any isNull then .error (.invalid nonZeroNulls)
    else .ok (some r'.builder, { r' with builder := [] })

/-- All rows in one go. -/
def wholeRows (p : ArrayParser V) (rows : List Json) : Option (List V) :=
  match appendValues p.append rows with
  | .error _ => none
  | .ok values => if values.any isNull then none else some values

end Rows

/-! ## Columns -/

section Columns

variable {V : Type}

/-- The column readers by name. -/
abbrev ColumnReaders (V : Type) := List (String × ArrayReader V)

/-- The readers that `Prepare` makes for the fields of the table type. -/
def prepareReaders (stream : String → Option (List Event)) :
    List (String × ArrayParser V) → ColumnReaders V → ColumnReaders V
  | [], readers => readers
  | (name, p) :: fields, readers =>
    match stream name with
    | none => prepareReaders stream fields readers
    | some input =>
      if (readers.lookup name).isSome then prepareReaders stream fields readers
      else prepareReaders stream fields (readers ++ [(name, { input := input, parser := p })])

def setReader (name : String) (r : ArrayReader V) (readers : ColumnReaders V) :
    ColumnReaders V :=
  readers.map fun e => if e.1 = name then (e.1, r) else e

/-- Collect the next batch: each column reads, and the longest one gives the rows. -/
def readColumns (batchSize : Nat) : List String → ColumnReaders V → Nat →
    Except ReadError (ColumnReaders V × Nat)
  | [], readers, numRows => .ok (readers, numRows)
  | name :: names, readers, numRows =>
    match readers.lookup name with
    | none => .error .assertion
    | some r =>
      match r.readNextN batchSize with
      | .error e => .error e
      | .ok r' =>
        readColumns batchSize names (setReader name r' readers) (max numRows r'.builder.length)

/-- Pad columns with nulls (if necessary), and finish them. -/
def finishColumns (numRows : Nat) : List String → ColumnReaders V →
    List (List V) × ColumnReaders V
  | [], readers => ([], readers)
  | name :: names, readers =>
    match readers.lookup name with
    | none =>
      -- all readers are there, or reading has failed
      let rest := finishColumns numRows names readers
      ([] :: rest.1, rest.2)
    | some r =>
      let rest := finishColumns numRows names (setReader name { r with builder := [] } readers)
      ((r.builder ++ List.replicate (numRows - r.builder.length) r.parser.null) :: rest.1, rest.2)

/-- `ColumnObjectTableReader::ReadNext` -/
def columnReadNext (names : List String) (batchSize : Nat) (readers : ColumnReaders V) :
    Except ReadError (Option (List (List V)) × ColumnReaders V) :=
  match readColumns batchSize names readers 0 with
  | .error e => .error e
  | .ok (readers', numRows) =>
    -- no output rows?
    if numRows = 0 then .ok (none, readers')
    else
      let batch := finishColumns numRows names readers'
      .ok (some batch.1, batch.2)

/-- A field of the table type, with the elements of its array. -/
structure Column (V : Type) where
  name : String
  parser : ArrayParser V
  values : List Json

/-- All columns in one go. -/
def parseColumns : List (Column V) → Option (List (List V))
  | [] => some []
  | c :: cs =>
    match appendValues c.parser.append c.values with
    | .error _ => none
    | .ok values => (parseColumns cs).map (values :: ·)

/-- The length of the longest column. -/
def maxLength (cs : List (Column V)) : Nat := cs.foldr (fun c m => max c.values.length m) 0

/-- A column with nulls at its end. -/
def padded (n : Nat) (p : ArrayParser V) (values : List V) : List V :=
  values ++ List.replicate (n - values.length) p.null

/-- Columns with nulls at their ends. -/
def padColumns (n : Nat) (cs : List (Column V)) (columns : List (List V)) : List (List V) :=
  List.zipWith (fun c values => padded n c.parser values) cs columns

/-- The columns of a table, padded up to the longest. -/
def wholeColumns (cs : List (Column V)) : Option (List (List V)) :=
  (parseColumns cs).map (padColumns (maxLength cs) cs)

/-- Batches of some columns, one behind the other. -/
def concatenated (columns : Nat) (batches : List (List (List V))) : List (List V) :=
  batches.foldr (List.zipWith (· ++ ·)) (List.replicate columns [])

end Columns

/-! ## Values through a parser -/

section AppendValues

variable {α β : Type} {append : α → Except String β}

theorem length_appendValues {vs : List α} : ∀ {values : List β},
    appendValues append vs = .ok values → values.length = vs.length := by
  induction vs with
  | nil =>
    intro values h
    obtain rfl := Except.ok.inj h
    rfl
  | cons v rest ih =>
    intro values h
    rw [appendValues] at h
    split at h
    next => nomatch h
    next c _ =>
      split at h
      next => nomatch h
      next cs hcs =>
        obtain rfl := Except.ok.inj h
        rw [List.length_cons, List.length_cons, ih hcs]

theorem appendValues_append (us vs : List α) :
    appendValues append (us ++ vs) =
      match appendValues append us with
      | .error e => .error e
      | .ok xs =>
        match appendValues append vs with
        | .error e => .error e
        | .ok ys => .ok (xs ++ ys) := by
  induction us with
  | nil =>
    have hnil : appendValues append ([] : List α) = .ok [] := rfl
    rw [List.nil_append, hnil]
    cases appendValues append vs <;> rfl
  | cons u rest ih =>
    rw [List.cons_append, appendValues, appendValues, ih]
    cases append u with
    | error e => rfl
    | ok c =>
      cases appendValues append rest with
      | error e => rfl
      | ok xs => cases appendValues append vs <;> rfl

end AppendValues

/-! ## The row reader -/

section Rows

variable {V : Type} {isNull : V → Bool} {n : Nat}

/-- What came of a table: the batches that were read, one behind the other, are the table, and
none of them is empty or too long; or reading failed, and so does reading in one go. -/
def RowsRead (n : Nat) (result : Except ReadError (List (List V))) (whole : Option (List V)) :
    Prop :=
  match result with
  | .error _ => whole = none
  | .ok batches => whole = some batches.flatten ∧ ∀ b ∈ batches, 0 < b.length ∧ b.length ≤ n

theorem wholeRows_split (isNull : V → Bool) (p : ArrayParser V) (us vs : List Json) :
    wholeRows isNull p (us ++ vs) =
      (wholeRows isNull p us).bind fun xs => (wholeRows isNull p vs).map fun ys => xs ++ ys := by
  unfold wholeRows
  rw [appendValues_append]
  cases appendValues p.append us with
  | error e => rfl
  | ok xs =>
    cases appendValues p.append vs with
    | error e =>
      dsimp only
      split <;> rfl
    | ok ys =>
      dsimp only
      rw [List.any_append]
      cases xs.any isNull <;> cases ys.any isNull <;> rfl

/-- **The row reader in batches.** -/
theorem readAll_rows (hn : 1 ≤ n) : ∀ (fuel : Nat) {vs : List Json} {r : ArrayReader V},
    r.Pending vs → r.builder = [] → vs.length < fuel →
    ∃ result, readAll (rowReadNext isNull n) fuel r = some result ∧
      RowsRead n result (wholeRows isNull r.parser vs) := by
  intro fuel
  induction fuel with
  | zero => exact fun _ _ h => absurd h (Nat.not_lt_zero _)
  | succ fuel ih =>
    intro vs r hpending hbuilder hfuel
    obtain ⟨input, b, hnext, hread⟩ := ArrayReader.readNextN_spec hpending hn
    have hsplit := wholeRows_split isNull r.parser (vs.take n) (vs.drop n)
    rw [List.take_append_drop] at hsplit
    -- the whole table fails where this batch does
    have hfails : ∀ e, rowReadNext isNull n r = .error e →
        wholeRows isNull r.parser (vs.take n) = none →
        ∃ result, readAll (rowReadNext isNull n) (fuel + 1) r = some result ∧
          RowsRead n result (wholeRows isNull r.parser vs) := by
      intro e herror hnone
      refine ⟨.error e, ?_, ?_⟩
      · rw [readAll, herror]
      · show wholeRows isNull r.parser vs = none
        rw [hsplit, hnone]
        rfl
    unfold ArrayReader.delivered at hread
    rw [hbuilder] at hread
    cases happend : appendValues r.parser.append (vs.take n) with
    | error message =>
      rw [happend] at hread
      refine hfails (.invalid message) ?_ ?_
      · unfold rowReadNext
        rw [hread]
      · unfold wholeRows
        rw [happend]
    | ok values =>
      rw [happend] at hread
      dsimp only [List.nil_append] at hread
      have hlength := length_appendValues happend
      rw [List.length_take] at hlength
      by_cases hend : values.length = 0
      · -- the end of the rows
        have hnil : vs = [] := List.length_eq_zero_iff.mp (by omega)
        subst hnil
        refine ⟨.ok [], ?_, rfl, nofun⟩
        have hstep : rowReadNext isNull n r = .ok (none, ⟨input, b, r.parser, []⟩) := by
          unfold rowReadNext
          rw [hread]
          exact if_pos hend
        rw [readAll, hstep]
      · cases hnull : values.any isNull with
        | true =>
          refine hfails (.invalid nonZeroNulls) ?_ ?_
          · unfold rowReadNext
            rw [hread]
            exact (if_neg hend).trans (if_pos hnull)
          · unfold wholeRows
            rw [happend]
            exact if_pos hnull
        | false =>
          have hstep : rowReadNext isNull n r = .ok (some values, ⟨input, b, r.parser, []⟩) := by
            unfold rowReadNext
            rw [hread]
            exact (if_neg hend).trans (if_neg (by rw [hnull]; exact Bool.false_ne_true))
          have hbatch : wholeRows isNull r.parser (vs.take n) = some values := by
            unfold wholeRows
            rw [happend]
            exact if_neg (by rw [hnull]; exact Bool.false_ne_true)
          obtain ⟨result, hresult, hrest⟩ := ih (hnext []) rfl
            (by rw [List.length_drop]; omega)
          rw [hbatch, Option.bind_some] at hsplit
          refine ⟨result.map (values :: ·), ?_, ?_⟩
          · rw [readAll, hstep]
            show Option.map _ (readAll _ fuel _) = _
            rw [hresult]
            rfl
          · cases result with
            | error e =>
              have hnone : wholeRows isNull r.parser (vs.drop n) = none := hrest
              show wholeRows isNull r.parser vs = none
              rw [hsplit, hnone]
              rfl
            | ok batches =>
              obtain ⟨hwhole, hsizes⟩ := hrest
              refine ⟨?_, fun b hb => ?_⟩
              · rw [hsplit, hwhole]
                rfl
              · rcases List.mem_cons.mp hb with rfl | hb
                · omega
                · exact hsizes b hb

end Rows

/-! ## Readers by name -/

section Readers

variable {V : Type} {readers : ColumnReaders V} {name : String} {r : ArrayReader V}

theorem lookup_cons_ne {name' : String} (h : name ≠ name') :
    List.lookup name ((name', r) :: readers) = List.lookup name readers := by
  rw [List.lookup_cons, beq_false_of_ne h]

theorem lookup_setReader_self {r₀ : ArrayReader V} (h : readers.lookup name = some r₀) :
    (setReader name r readers).lookup name = some r := by
  unfold setReader
  induction readers with
  | nil => nomatch h
  | cons e rest ih =>
    obtain ⟨k, r'⟩ := e
    rw [List.map_cons]
    by_cases hk : k = name
    · subst hk
      rw [if_pos rfl]
      exact List.lookup_cons_self
    · rw [if_neg hk, lookup_cons_ne (Ne.symm hk)]
      rw [lookup_cons_ne (Ne.symm hk)] at h
      exact ih h

theorem lookup_setReader_ne {name' : String} (hne : name' ≠ name) :
    (setReader name r readers).lookup name' = readers.lookup name' := by
  unfold setReader
  induction readers with
  | nil => rfl
  | cons e rest ih =>
    obtain ⟨k, r'⟩ := e
    rw [List.map_cons]
    by_cases hk : k = name
    · subst hk
      rw [if_pos rfl, lookup_cons_ne hne, lookup_cons_ne hne]
      exact ih
    · rw [if_neg hk, List.lookup_cons, List.lookup_cons, ih]

end Readers

/-! ## A batch of columns -/

section Batch

variable {V : Type} {n : Nat}

/-- The first elements of a column. -/
def Column.take (n : Nat) (c : Column V) : Column V := { c with values := c.values.take n }

/-- The elements behind a batch. -/
def Column.drop (n : Nat) (c : Column V) : Column V := { c with values := c.values.drop n }

/-- The reader of a column has still to read its elements. -/
def Column.Reads (c : Column V) (readers : ColumnReaders V) : Prop :=
  ∃ r, readers.lookup c.name = some r ∧ r.parser = c.parser ∧ r.builder = [] ∧ r.Pending c.values

/-- The reader of a column has read a batch. -/
def Column.HasRead (n : Nat) (readers : ColumnReaders V) (c : Column V) (values : List V) : Prop :=
  ∃ r, readers.lookup c.name = some r ∧ r.parser = c.parser ∧ r.builder = values ∧
    ArrayReader.Pending (c.values.drop n) { r with builder := [] }

theorem maxLength_cons (c : Column V) (cs : List (Column V)) :
    maxLength (c :: cs) = max c.values.length (maxLength cs) := rfl

theorem length_le_maxLength {c : Column V} {cs : List (Column V)} (h : c ∈ cs) :
    c.values.length ≤ maxLength cs := by
  induction cs with
  | nil => nomatch h
  | cons d cs ih =>
    rw [maxLength_cons]
    rcases List.mem_cons.mp h with rfl | h
    · exact Nat.le_max_left _ _
    · exact Nat.le_trans (ih h) (Nat.le_max_right _ _)

theorem maxLength_take (cs : List (Column V)) :
    maxLength (cs.map (Column.take n)) = min n (maxLength cs) := by
  induction cs with
  | nil => exact (Nat.min_zero n).symm
  | cons c cs ih =>
    have hlength : (c.take n).values.length = min n c.values.length := List.length_take
    rw [List.map_cons, maxLength_cons, maxLength_cons, ih, hlength]
    omega

theorem maxLength_drop (cs : List (Column V)) :
    maxLength (cs.map (Column.drop n)) = maxLength cs - n := by
  induction cs with
  | nil => exact (Nat.zero_sub n).symm
  | cons c cs ih =>
    have hlength : (c.drop n).values.length = c.values.length - n := List.length_drop
    rw [List.map_cons, maxLength_cons, maxLength_cons, ih, hlength]
    omega

/-- **Every column reads its batch**, or one of them fails, and reading fails. -/
theorem readColumns_spec (hn : 1 ≤ n) (cs : List (Column V)) :
    ∀ (readers : ColumnReaders V) (numRows : Nat), (cs.map Column.name).Nodup →
      (∀ c ∈ cs, c.Reads readers) →
      match parseColumns (cs.map (Column.take n)) with
      | none => ∃ e, readColumns n (cs.map Column.name) readers numRows = .error e
      | some batch => ∃ readers', readColumns n (cs.map Column.name) readers numRows =
            .ok (readers', max numRows (maxLength (cs.map (Column.take n)))) ∧
          List.Forall₂ (Column.HasRead n readers') cs batch ∧
          ∀ name, name ∉ cs.map Column.name → readers'.lookup name = readers.lookup name := by
  induction cs with
  | nil =>
    intro readers numRows _ _
    have hzero : maxLength (([] : List (Column V)).map (Column.take n)) = 0 := rfl
    refine ⟨readers, ?_, .nil, fun _ _ => rfl⟩
    rw [hzero, Nat.max_zero]
    rfl
  | cons c cs ih =>
    intro readers numRows hnodup hreads
    obtain ⟨hc, hcs⟩ := List.nodup_cons.mp hnodup
    obtain ⟨r, hlookup, hparser, hbuilder, hpending⟩ := hreads c List.mem_cons_self
    obtain ⟨input, b, hnext, hread⟩ := ArrayReader.readNextN_spec hpending hn
    unfold ArrayReader.delivered at hread
    rw [hparser, hbuilder] at hread
    rw [List.map_cons, parseColumns]
    show match (match appendValues c.parser.append (c.values.take n) with
      | .error _ => none
      | .ok values => (parseColumns (cs.map (Column.take n))).map (values :: ·)) with
      | none => _ | some batch => _
    cases happend : appendValues c.parser.append (c.values.take n) with
    | error message =>
      rw [happend] at hread
      refine ⟨.invalid message, ?_⟩
      rw [List.map_cons, readColumns, hlookup]
      dsimp only
      rw [hread]
    | ok values =>
      rw [happend] at hread
      dsimp only [List.nil_append] at hread
      generalize hr' : (⟨input, b, c.parser, values⟩ : ArrayReader V) = r' at hread
      have hothers : ∀ d ∈ cs, d.Reads (setReader c.name r' readers) := by
        intro d hd
        obtain ⟨s, hs, hrest⟩ := hreads d (List.mem_cons_of_mem _ hd)
        refine ⟨s, ?_, hrest⟩
        rw [lookup_setReader_ne]
        · exact hs
        · intro heq
          exact hc (List.mem_map.mpr ⟨d, hd, heq⟩)
      have hstep : readColumns n ((c :: cs).map Column.name) readers numRows =
          readColumns n (cs.map Column.name) (setReader c.name r' readers)
            (max numRows r'.builder.length) := by
        rw [List.map_cons, readColumns, hlookup]
        dsimp only
        rw [hread]
      have hrest := ih (setReader c.name r' readers) (max numRows r'.builder.length) hcs hothers
      rw [hstep]
      cases hparse : parseColumns (cs.map (Column.take n)) with
      | none =>
        rw [hparse] at hrest
        exact hrest
      | some batch =>
        rw [hparse] at hrest
        obtain ⟨readers', hcolumns, hread', hsame⟩ := hrest
        refine ⟨readers', ?_, .cons ⟨r', ?_, ?_, ?_, ?_⟩ hread', fun name hname => ?_⟩
        · have hlength : r'.builder.length = (c.take n).values.length := by
            rw [← hr']
            exact length_appendValues happend
          rw [hcolumns, maxLength_cons, hlength, Nat.max_assoc]
        · rw [hsame c.name hc]
          exact lookup_setReader_self hlookup
        · rw [← hr']
        · rw [← hr']
        · rw [← hr', ← hparser]
          exact hnext []
        · rw [List.map_cons, List.mem_cons, not_or] at hname
          rw [hsame name hname.2]
          exact lookup_setReader_ne hname.1

/-- **Every column is padded and finished.** -/
theorem finishColumns_spec (numRows : Nat) {cs : List (Column V)} :
    ∀ {batch : List (List V)} {readers : ColumnReaders V}, (cs.map Column.name).Nodup →
      List.Forall₂ (Column.HasRead n readers) cs batch →
      (finishColumns numRows (cs.map Column.name) readers).1 =
          padColumns numRows cs batch ∧
        (∀ c ∈ cs, (c.drop n).Reads (finishColumns numRows (cs.map Column.name) readers).2) ∧
        ∀ name, name ∉ cs.map Column.name →
          (finishColumns numRows (cs.map Column.name) readers).2.lookup name =
            readers.lookup name := by
  induction cs with
  | nil =>
    intro batch readers _ hread
    cases hread
    exact ⟨rfl, nofun, fun _ _ => rfl⟩
  | cons c cs ih =>
    intro batch readers hnodup hread
    obtain ⟨hc, hcs⟩ := List.nodup_cons.mp hnodup
    cases hread with
    | @cons _ values _ batch hfirst hothers =>
      obtain ⟨r, hlookup, hparser, hbuilder, hpending⟩ := hfirst
      have hothers' : List.Forall₂
          (Column.HasRead n (setReader c.name { r with builder := [] } readers)) cs batch := by
        have hne : ∀ d ∈ cs, d.name ≠ c.name := fun d hd heq =>
          hc (List.mem_map.mpr ⟨d, hd, heq⟩)
        refine ((List.forall₂_and_left _ _).mpr ⟨hne, hothers⟩).imp ?_
        rintro d vs ⟨hd, s, hs, hrest⟩
        exact ⟨s, (lookup_setReader_ne hd).trans hs, hrest⟩
      obtain ⟨hbatch, hreads, hsame⟩ := ih hcs hothers'
      have hstep : finishColumns numRows ((c :: cs).map Column.name) readers =
          (padded numRows c.parser values ::
            (finishColumns numRows (cs.map Column.name)
              (setReader c.name { r with builder := [] } readers)).1,
            (finishColumns numRows (cs.map Column.name)
              (setReader c.name { r with builder := [] } readers)).2) := by
        rw [List.map_cons, finishColumns, hlookup, ← hbuilder, ← hparser]
        rfl
      rw [hstep]
      refine ⟨?_, fun d hd => ?_, fun name hname => ?_⟩
      · rw [padColumns, List.zipWith_cons_cons]
        exact congrArg (_ :: ·) hbatch
      · rcases List.mem_cons.mp hd with rfl | hd
        · refine ⟨{ r with builder := [] }, ?_, hparser, rfl, hpending⟩
          show List.lookup d.name _ = _
          rw [hsame d.name hc]
          exact lookup_setReader_self hlookup
        · exact hreads d hd
      · rw [List.map_cons, List.mem_cons, not_or] at hname
        show List.lookup name _ = _
        rw [hsame name hname.2]
        exact lookup_setReader_ne hname.1

end Batch

/-! ## A table in batches -/

section Whole

variable {V : Type} {n : Nat}

/-- Two tables with the same columns, one behind the other. -/
def behind (xs ys : List (List V)) : List (List V) := List.zipWith (· ++ ·) xs ys

theorem parseColumns_split (cs : List (Column V)) :
    parseColumns cs = (parseColumns (cs.map (Column.take n))).bind fun xs =>
      (parseColumns (cs.map (Column.drop n))).map fun ys => behind xs ys := by
  induction cs with
  | nil => rfl
  | cons c cs ih =>
    have hsplit := @appendValues_append _ _ c.parser.append (c.values.take n)
      (c.values.drop n)
    rw [List.take_append_drop] at hsplit
    rw [List.map_cons, List.map_cons, parseColumns, parseColumns, parseColumns, hsplit, ih]
    show _ = Option.bind (match appendValues c.parser.append (c.values.take n) with
      | .error _ => _ | .ok values => _) fun xs =>
        Option.map _ (match appendValues c.parser.append (c.values.drop n) with
          | .error _ => _ | .ok values => _)
    cases appendValues c.parser.append (c.values.take n) with
    | error e => rfl
    | ok xs =>
      cases appendValues c.parser.append (c.values.drop n) with
      | error e =>
        cases parseColumns (cs.map (Column.take n)) <;> rfl
      | ok ys =>
        cases parseColumns (cs.map (Column.take n)) with
        | none => rfl
        | some xss => cases parseColumns (cs.map (Column.drop n)) <;> rfl

/-- A parsed column has as many entries as elements. -/
theorem length_parseColumns {cs : List (Column V)} : ∀ {xs : List (List V)},
    parseColumns cs = some xs →
      List.Forall₂ (fun c vs => vs.length = c.values.length) cs xs := by
  induction cs with
  | nil =>
    intro xs h
    obtain rfl := Option.some.inj h
    exact .nil
  | cons c cs ih =>
    intro xs h
    rw [parseColumns] at h
    cases happend : appendValues c.parser.append c.values with
    | error e =>
      rw [happend] at h
      nomatch h
    | ok values =>
      rw [happend] at h
      obtain ⟨xss, hxss, rfl⟩ := Option.map_eq_some_iff.mp h
      exact .cons (length_appendValues happend) (ih hxss)

/-- The nulls behind a batch and behind the rest are those behind the column. -/
theorem padded_split {p : ArrayParser V} {xs ys : List V} {length total : Nat}
    (hx : xs.length = min n length) (hy : ys.length = length - n) (hle : length ≤ total) :
    padded total p (xs ++ ys) = padded (min n total) p xs ++ padded (total - n) p ys := by
  unfold padded
  rw [List.length_append]
  by_cases hfull : n ≤ length
  · -- the column fills the batch, so the nulls are all behind the rest
    have hnone : min n total - xs.length = 0 := by omega
    have hrest : total - (xs.length + ys.length) = total - n - ys.length := by omega
    rw [hnone, hrest, List.replicate_zero, List.append_nil, List.append_assoc]
  · -- the column ends in the batch
    have hnil : ys = [] := List.length_eq_zero_iff.mp (by omega)
    subst hnil
    have hsum : total - (xs.length + 0) = (min n total - xs.length) + (total - n - 0) := by omega
    rw [List.length_nil, hsum, List.replicate_add, List.append_nil, List.nil_append,
      List.append_assoc]

theorem padColumns_split {total : Nat} {cs : List (Column V)} :
    ∀ {xs ys : List (List V)}, (∀ c ∈ cs, c.values.length ≤ total) →
      List.Forall₂ (fun c vs => vs.length = c.values.length) (cs.map (Column.take n)) xs →
      List.Forall₂ (fun c vs => vs.length = c.values.length) (cs.map (Column.drop n)) ys →
      padColumns total cs (behind xs ys) =
        behind (padColumns (min n total) cs xs)
          (padColumns (total - n) (cs.map (Column.drop n)) ys) := by
  induction cs with
  | nil =>
    intro xs ys _ _ _
    rfl
  | cons c cs ih =>
    intro xs ys hle hx hy
    cases hx with
    | @cons _ vs _ xs hv hx =>
      cases hy with
      | @cons _ ws _ ys hw hy =>
        have hlengthv : vs.length = min n c.values.length := hv.trans List.length_take
        have hlengthw : ws.length = c.values.length - n := hw.trans List.length_drop
        have htail := ih (fun d hd => hle d (List.mem_cons_of_mem _ hd)) hx hy
        show padded total c.parser (vs ++ ws) :: _ = (_ ++ _) :: _
        rw [padded_split hlengthv hlengthw (hle c List.mem_cons_self)]
        exact congrArg (_ :: ·) htail

/-- A table in one go is its first batch and the table of the rest. -/
theorem wholeColumns_split (cs : List (Column V)) {batch : List (List V)}
    (h : parseColumns (cs.map (Column.take n)) = some batch) :
    wholeColumns cs = (wholeColumns (cs.map (Column.drop n))).map
      (behind (padColumns (min n (maxLength cs)) cs batch)) := by
  unfold wholeColumns
  rw [parseColumns_split (n := n) cs, h, Option.bind_some]
  cases hrest : parseColumns (cs.map (Column.drop n)) with
  | none => rfl
  | some ys =>
    have hsplit := padColumns_split (fun c hc => length_le_maxLength hc) (length_parseColumns h)
      (length_parseColumns hrest)
    rw [maxLength_drop]
    exact congrArg some hsplit

/-- A table without rows. -/
theorem wholeColumns_empty {cs : List (Column V)} (h : maxLength cs = 0) :
    wholeColumns cs = some (List.replicate cs.length []) := by
  have hempty : ∀ c ∈ cs, c.values = [] := fun c hc =>
    List.length_eq_zero_iff.mp (Nat.le_zero.mp (h ▸ length_le_maxLength hc))
  have hparse : parseColumns cs = some (List.replicate cs.length []) := by
    clear h
    induction cs with
    | nil => rfl
    | cons c cs ih =>
      rw [parseColumns, hempty c List.mem_cons_self,
        ih fun d hd => hempty d (List.mem_cons_of_mem _ hd)]
      rfl
  have hpadded : ∀ ds : List (Column V),
      padColumns 0 ds (List.replicate ds.length []) = List.replicate ds.length [] := by
    intro ds
    induction ds with
    | nil => rfl
    | cons d ds ih =>
      rw [List.length_cons, List.replicate_succ]
      exact congrArg (_ :: ·) ih
  unfold wholeColumns
  rw [hparse, h]
  exact congrArg some (hpadded cs)

/-- What came of a table of columns: the batches that were read, one behind the other, are the
padded columns, and each batch has as many entries in every column, not none and not too many; or
reading failed, and so does reading in one go. -/
def ColumnsRead (n : Nat) (cs : List (Column V))
    (result : Except ReadError (List (List (List V)))) : Prop :=
  match result with
  | .error _ => wholeColumns cs = none
  | .ok batches => wholeColumns cs = some (concatenated cs.length batches) ∧
      ∀ batch ∈ batches, ∃ rows, 0 < rows ∧ rows ≤ n ∧ ∀ column ∈ batch, column.length = rows

theorem length_padColumns {total : Nat} {cs : List (Column V)} : ∀ {xs : List (List V)},
    (∀ c ∈ cs, c.values.length ≤ total) →
    List.Forall₂ (fun c vs => vs.length = c.values.length) cs xs →
    ∀ column ∈ padColumns total cs xs, column.length = total := by
  induction cs with
  | nil => exact fun _ _ => nofun
  | cons c cs ih =>
    intro xs hle hx column hcolumn
    cases hx with
    | @cons _ vs _ xs hv hx =>
      rcases List.mem_cons.mp hcolumn with rfl | hcolumn
      · have hlength := hle c List.mem_cons_self
        show (vs ++ List.replicate (total - vs.length) c.parser.null).length = total
        rw [List.length_append, List.length_replicate]
        omega
      · exact ih (fun d hd => hle d (List.mem_cons_of_mem _ hd)) hx column hcolumn

/-- **The column reader in batches.** -/
theorem readAll_columns (hn : 1 ≤ n) : ∀ (fuel : Nat) {cs : List (Column V)}
    {readers : ColumnReaders V}, (cs.map Column.name).Nodup → (∀ c ∈ cs, c.Reads readers) →
    maxLength cs < fuel →
    ∃ result, readAll (columnReadNext (cs.map Column.name) n) fuel readers = some result ∧
      ColumnsRead n cs result := by
  intro fuel
  induction fuel with
  | zero => exact fun _ _ h => absurd h (Nat.not_lt_zero _)
  | succ fuel ih =>
    intro cs readers hnodup hreads hfuel
    have hcolumns := readColumns_spec hn cs readers 0 hnodup hreads
    cases hparse : parseColumns (cs.map (Column.take n)) with
    | none =>
      rw [hparse] at hcolumns
      obtain ⟨e, herror⟩ := hcolumns
      refine ⟨.error e, ?_, ?_⟩
      · have hstep : columnReadNext (cs.map Column.name) n readers = .error e := by
          unfold columnReadNext
          rw [herror]
        rw [readAll, hstep]
      · show wholeColumns cs = none
        unfold wholeColumns
        rw [parseColumns_split (n := n) cs, hparse]
        rfl
    | some batch =>
      rw [hparse] at hcolumns
      obtain ⟨readers', hread, hhas, -⟩ := hcolumns
      rw [Nat.zero_max, maxLength_take] at hread
      obtain ⟨hbatch, hrest, -⟩ := finishColumns_spec (min n (maxLength cs)) hnodup hhas
      by_cases hend : min n (maxLength cs) = 0
      · have hzero : maxLength cs = 0 := by omega
        refine ⟨.ok [], ?_, wholeColumns_empty hzero, nofun⟩
        have hstep : columnReadNext (cs.map Column.name) n readers = .ok (none, readers') := by
          unfold columnReadNext
          rw [hread]
          exact if_pos hend
        rw [readAll, hstep]
      · have hstep : columnReadNext (cs.map Column.name) n readers =
            .ok (some (finishColumns (min n (maxLength cs)) (cs.map Column.name) readers').1,
              (finishColumns (min n (maxLength cs)) (cs.map Column.name) readers').2) := by
          unfold columnReadNext
          rw [hread]
          exact if_neg hend
        have hnames : (cs.map (Column.drop n)).map Column.name = cs.map Column.name := by
          rw [List.map_map]
          rfl
        obtain ⟨result, hresult, hread'⟩ := @ih (cs.map (Column.drop n)) _
          (by rw [hnames]; exact hnodup)
          (fun d hd => by
            obtain ⟨c, hc, rfl⟩ := List.mem_map.mp hd
            exact hrest c hc)
          (by rw [maxLength_drop]; omega)
        rw [hnames] at hresult
        rw [hbatch] at hstep
        refine ⟨result.map (padColumns (min n (maxLength cs)) cs batch :: ·), ?_, ?_⟩
        · rw [readAll, hstep]
          show Option.map _ (readAll _ fuel _) = _
          rw [hresult]
          rfl
        · have hsplit := wholeColumns_split cs hparse
          cases result with
          | error e =>
            have hnone : wholeColumns (cs.map (Column.drop n)) = none := hread'
            show wholeColumns cs = none
            rw [hsplit, hnone]
            rfl
          | ok batches =>
            obtain ⟨hwhole, hsizes⟩ := hread'
            refine ⟨?_, fun b hb => ?_⟩
            · rw [hsplit, hwhole, List.length_map]
              rfl
            · rcases List.mem_cons.mp hb with rfl | hb
              · have htaken : padColumns (min n (maxLength cs)) cs batch =
                    padColumns (min n (maxLength cs)) (cs.map (Column.take n)) batch := by
                  unfold padColumns
                  rw [List.zipWith_map_left]
                  rfl
                rw [htaken]
                refine ⟨min n (maxLength cs), by omega, by omega, length_padColumns ?_
                  (length_parseColumns hparse)⟩
                intro c hc
                rw [← maxLength_take]
                exact length_le_maxLength hc
              · exact hsizes b hb

end Whole

/-! ## The readers of a document -/

section Prepared

variable {V : Type}

/-- The streams of the columns of a document. Of columns with one name the first counts. -/
def columnStream (columns : List (String × List Json)) (name : String) : Option (List Event) :=
  (columns.lookup name).map fun vs => events (.array vs)

/-- The fields of a table type with the arrays of a document. -/
def tableColumns (columns : List (String × List Json)) (fields : List (String × ArrayParser V)) :
    List (Column V) :=
  fields.map fun f => ⟨f.1, f.2, (columns.lookup f.1).getD []⟩

/-- The readers that a table of a document begins with. -/
def tableReaders (columns : List (String × List Json)) (fields : List (String × ArrayParser V)) :
    ColumnReaders V :=
  prepareReaders (columnStream columns) fields []

theorem lookup_append_some {readers more : ColumnReaders V} {name : String} {r : ArrayReader V}
    (h : readers.lookup name = some r) : (readers ++ more).lookup name = some r := by
  induction readers with
  | nil => nomatch h
  | cons e rest ih =>
    obtain ⟨k, r'⟩ := e
    rw [List.cons_append]
    by_cases hk : name = k
    · subst hk
      rw [List.lookup_cons_self] at h ⊢
      exact h
    · rw [lookup_cons_ne hk] at h ⊢
      exact ih h

theorem lookup_append_none {readers more : ColumnReaders V} {name : String}
    (h : readers.lookup name = none) : (readers ++ more).lookup name = more.lookup name := by
  induction readers with
  | nil => rfl
  | cons e rest ih =>
    obtain ⟨k, r'⟩ := e
    rw [List.cons_append]
    by_cases hk : name = k
    · subst hk
      rw [List.lookup_cons_self] at h
      nomatch h
    · rw [lookup_cons_ne hk] at h ⊢
      exact ih h

theorem prepareReaders_some {stream : String → Option (List Event)}
    (fields : List (String × ArrayParser V)) : ∀ {readers : ColumnReaders V} {name : String}
    {r : ArrayReader V}, readers.lookup name = some r →
      (prepareReaders stream fields readers).lookup name = some r := by
  induction fields with
  | nil => exact fun h => h
  | cons f fields ih =>
    intro readers name r h
    obtain ⟨k, p⟩ := f
    rw [prepareReaders]
    cases stream k with
    | none => exact ih h
    | some input =>
      dsimp only
      split
      next => exact ih h
      next => exact ih (lookup_append_some h)

/-- The reader of a name is that of the first field with the name. -/
theorem prepareReaders_none {stream : String → Option (List Event)} {name : String}
    {input : List Event} (hstream : stream name = some input)
    (fields : List (String × ArrayParser V)) : ∀ {readers : ColumnReaders V},
    readers.lookup name = none → name ∈ fields.map Prod.fst →
      ∃ p, (name, p) ∈ fields ∧ (prepareReaders stream fields readers).lookup name =
        some { input := input, parser := p } := by
  induction fields with
  | nil => exact fun _ h => nomatch h
  | cons f fields ih =>
    intro readers hnone hmem
    obtain ⟨k, p⟩ := f
    rw [prepareReaders]
    by_cases hk : name = k
    · subst hk
      rw [hstream, hnone]
      refine ⟨p, List.mem_cons_self, prepareReaders_some fields ?_⟩
      rw [lookup_append_none hnone]
      exact List.lookup_cons_self
    · have hmem' : name ∈ fields.map Prod.fst := (List.mem_cons.mp hmem).resolve_left hk
      have hrest : ∀ {readers' : ColumnReaders V}, readers'.lookup name = none →
          ∃ q, (name, q) ∈ (k, p) :: fields ∧
            (prepareReaders stream fields readers').lookup name =
              some { input := input, parser := q } := by
        intro readers' h
        obtain ⟨q, hq, hlookup⟩ := ih h hmem'
        exact ⟨q, List.mem_cons_of_mem _ hq, hlookup⟩
      cases stream k with
      | none => exact hrest hnone
      | some _ =>
        dsimp only
        split
        next => exact hrest hnone
        next =>
          refine hrest ?_
          rw [lookup_append_none hnone]
          exact lookup_cons_ne hk

/-- With distinct names every field has its own reader. -/
theorem tableReaders_reads {columns : List (String × List Json)}
    {fields : List (String × ArrayParser V)} (hnodup : (fields.map Prod.fst).Nodup)
    (hpresent : ∀ f ∈ fields, (columns.lookup f.1).isSome) :
    ∀ c ∈ tableColumns columns fields, c.Reads (tableReaders columns fields) := by
  intro c hc
  obtain ⟨⟨name, p⟩, hf, rfl⟩ := List.mem_map.mp hc
  obtain ⟨vs, hvs⟩ := Option.isSome_iff_exists.mp (hpresent _ hf)
  have hstream : columnStream columns name = some (events (.array vs)) := by
    unfold columnStream
    rw [hvs]
    rfl
  obtain ⟨q, hq, hlookup⟩ := @prepareReaders_none _ _ _ _ hstream fields [] rfl
    (List.mem_map.mpr ⟨_, hf, rfl⟩)
  have hsame : q = p := congrArg Prod.snd (List.inj_on_of_nodup_map hnodup hq hf rfl)
  refine ⟨_, hlookup, hsame, rfl, ?_⟩
  show ArrayReader.Pending ((columns.lookup name).getD []) _
  rw [hvs]
  exact .start vs q []

end Prepared

/-! ## Two fields of one name -/

section Duplicates

variable {V : Type} {n numRows : Nat} {a : String} {p : ArrayParser V}

/-- The reader of a name has some parser. -/
def HasParser (a : String) (p : ArrayParser V) (readers : ColumnReaders V) : Prop :=
  ∃ r, readers.lookup a = some r ∧ r.parser = p

/-- The reader of a name has nothing to deliver. -/
def Finished (a : String) (p : ArrayParser V) (readers : ColumnReaders V) : Prop :=
  ∃ r, readers.lookup a = some r ∧ r.parser = p ∧ r.builder = []

theorem HasParser.setReader {readers : ColumnReaders V} (h : HasParser a p readers)
    {name : String} {r r' : ArrayReader V} (hr : readers.lookup name = some r)
    (hr' : r'.parser = r.parser) : HasParser a p (setReader name r' readers) := by
  obtain ⟨s, hs, hparser⟩ := h
  by_cases hname : a = name
  · subst hname
    obtain rfl : r = s := Option.some.inj (hr.symm.trans hs)
    exact ⟨r', lookup_setReader_self hs, hr'.trans hparser⟩
  · exact ⟨s, (lookup_setReader_ne hname).trans hs, hparser⟩

theorem Finished.setReader {readers : ColumnReaders V} (h : Finished a p readers)
    {name : String} {r r' : ArrayReader V} (hr : readers.lookup name = some r)
    (hr' : r'.parser = r.parser) (hempty : r'.builder = []) :
    Finished a p (setReader name r' readers) := by
  obtain ⟨s, hs, hparser, hbuilder⟩ := h
  by_cases hname : a = name
  · subst hname
    obtain rfl : r = s := Option.some.inj (hr.symm.trans hs)
    exact ⟨r', lookup_setReader_self hs, hr'.trans hparser, hempty⟩
  · exact ⟨s, (lookup_setReader_ne hname).trans hs, hparser, hbuilder⟩

theorem hasParser_finishColumns (names : List String) : ∀ {readers : ColumnReaders V},
    HasParser a p readers → HasParser a p (finishColumns numRows names readers).2 := by
  induction names with
  | nil => exact fun h => h
  | cons name names ih =>
    intro readers h
    rw [finishColumns]
    cases hlookup : readers.lookup name with
    | none => exact ih h
    | some r => exact ih (h.setReader hlookup rfl)

/-- A field whose reader is finished gets nulls only. -/
theorem finishColumns_finished (mid post : List String) : ∀ {readers : ColumnReaders V},
    Finished a p readers →
      (finishColumns numRows (mid ++ a :: post) readers).1[mid.length]? =
        some (List.replicate numRows p.null) := by
  induction mid with
  | nil =>
    intro readers h
    obtain ⟨r, hlookup, hparser, hbuilder⟩ := h
    rw [List.nil_append, finishColumns, hlookup]
    show some (r.builder ++ List.replicate (numRows - r.builder.length) r.parser.null) = _
    rw [hbuilder, hparser]
    rfl
  | cons name mid ih =>
    intro readers h
    rw [List.cons_append, finishColumns]
    cases hlookup : readers.lookup name with
    | none => exact ih h
    | some r => exact ih (h.setReader hlookup rfl rfl)

/-- The second of two fields of one name gets nulls only. -/
theorem finishColumns_second (pre mid post : List String) : ∀ {readers : ColumnReaders V},
    HasParser a p readers →
      (finishColumns numRows (pre ++ a :: (mid ++ a :: post)) readers).1[pre.length +
        (mid.length + 1)]? = some (List.replicate numRows p.null) := by
  induction pre with
  | nil =>
    intro readers h
    obtain ⟨r, hlookup, hparser⟩ := h
    rw [List.nil_append, finishColumns, hlookup, List.length_nil, Nat.zero_add]
    exact finishColumns_finished mid post
      ⟨{ r with builder := [] }, lookup_setReader_self hlookup, hparser, rfl⟩
  | cons name pre ih =>
    intro readers h
    rw [List.cons_append, finishColumns, List.length_cons, Nat.add_right_comm]
    cases hlookup : readers.lookup name with
    | none => exact ih h
    | some r => exact ih (h.setReader hlookup rfl)

theorem parser_readLoop {q : ArrayParser V} {builder : List V} (es : List Event) :
    ∀ {b : ArrayBuffer} {r : ArrayReader V},
      ArrayReader.readLoop n q builder es b = .ok r → r.parser = q := by
  induction es with
  | nil =>
    intro b r h
    rw [ArrayReader.readLoop] at h
    split at h
    next => exact (Except.ok.inj h) ▸ rfl
    next => cases h
  | cons e es ih =>
    intro b r h
    rw [ArrayReader.readLoop] at h
    split at h
    next => exact (Except.ok.inj h) ▸ rfl
    next =>
      split at h
      next =>
        unfold ArrayReader.flush at h
        split at h
        next => cases h
        next =>
          split at h
          next => cases h
          next => exact (Except.ok.inj h) ▸ rfl
      next => exact ih h

theorem hasParser_readColumns (names : List String) : ∀ {readers : ColumnReaders V} {k : Nat}
    {result : ColumnReaders V × Nat}, HasParser a p readers →
      readColumns n names readers k = .ok result → HasParser a p result.1 := by
  induction names with
  | nil =>
    intro readers k result h hread
    obtain rfl := Except.ok.inj hread
    exact h
  | cons name names ih =>
    intro readers k result h hread
    rw [readColumns] at hread
    split at hread
    next => nomatch hread
    next r hlookup =>
      split at hread
      next => nomatch hread
      next r' hr' => exact ih (h.setReader hlookup (parser_readLoop _ hr')) hread

/-- In every batch of a run the second of two fields of one name holds nulls only. -/
theorem readAll_second (pre mid post : List String) : ∀ (fuel : Nat)
    {readers : ColumnReaders V} {batches : List (List (List V))}, HasParser a p readers →
      readAll (columnReadNext (pre ++ a :: (mid ++ a :: post)) n) fuel readers =
        some (.ok batches) →
      ∀ batch ∈ batches, ∃ k, batch[pre.length + (mid.length + 1)]? =
        some (List.replicate k p.null) := by
  intro fuel
  induction fuel with
  | zero => exact fun _ h => nomatch h
  | succ fuel ih =>
    intro readers batches h hread
    rw [readAll] at hread
    cases hstep : columnReadNext (pre ++ a :: (mid ++ a :: post)) n readers with
    | error e =>
      rw [hstep] at hread
      nomatch hread
    | ok step =>
      obtain ⟨batch?, readers'⟩ := step
      rw [hstep] at hread
      unfold columnReadNext at hstep
      cases hcolumns : readColumns n (pre ++ a :: (mid ++ a :: post)) readers 0 with
      | error e =>
        rw [hcolumns] at hstep
        nomatch hstep
      | ok result =>
        have hparser := hasParser_readColumns _ h hcolumns
        rw [hcolumns] at hstep
        dsimp only at hstep
        split at hstep
        next =>
          obtain ⟨rfl, -⟩ := Prod.mk.inj (Except.ok.inj hstep)
          obtain rfl := Except.ok.inj (Option.some.inj hread)
          exact nofun
        next =>
          obtain ⟨rfl, rfl⟩ := Prod.mk.inj (Except.ok.inj hstep)
          obtain ⟨rest, hrest, hmap⟩ := Option.map_eq_some_iff.mp hread
          cases rest with
          | error e => nomatch hmap
          | ok batches' =>
            obtain rfl := Except.ok.inj hmap
            intro batch hbatch
            rcases List.mem_cons.mp hbatch with rfl | hbatch
            · exact ⟨_, finishColumns_second pre mid post hparser⟩
            · exact ih (hasParser_finishColumns _ hparser) hrest batch hbatch

/-- Batches whose columns at some place hold nulls only hold nulls only at that place. -/
theorem concatenated_nulls {null : V} {columns i : Nat} (batches : List (List (List V))) :
    (∀ batch ∈ batches, ∃ k, batch[i]? = some (List.replicate k null)) →
      ∀ column, (concatenated columns batches)[i]? = some column → ∀ x ∈ column, x = null := by
  induction batches with
  | nil =>
    intro _ column hcolumn
    have hnil : column = [] := List.eq_of_mem_replicate (List.mem_of_getElem? hcolumn)
    rw [hnil]
    exact nofun
  | cons batch batches ih =>
    intro h column hcolumn x hx
    obtain ⟨k, hk⟩ := h batch List.mem_cons_self
    have hzip : (List.zipWith (· ++ ·) batch (concatenated columns batches))[i]? = some column :=
      hcolumn
    rw [List.getElem?_zipWith, hk] at hzip
    cases hrest : (concatenated columns batches)[i]? with
    | none =>
      rw [hrest] at hzip
      nomatch hzip
    | some rest =>
      rw [hrest] at hzip
      obtain rfl := Option.some.inj hzip
      rcases List.mem_append.mp hx with hx | hx
      · exact List.eq_of_mem_replicate hx
      · exact ih (fun b hb => h b (List.mem_cons_of_mem _ hb)) rest hrest x hx

/-- A column of a whole table starts with the entries of its elements. -/
theorem wholeColumns_getElem {cs : List (Column V)} {table : List (List V)}
    (h : wholeColumns cs = some table) {i : Nat} {c : Column V} (hc : cs[i]? = some c) :
    ∃ values, appendValues c.parser.append c.values = .ok values ∧
      table[i]? = some (padded (maxLength cs) c.parser values) := by
  have hparse : ∀ {ds : List (Column V)} {xs : List (List V)} {j : Nat} {d : Column V},
      parseColumns ds = some xs → ds[j]? = some d →
      ∃ values, appendValues d.parser.append d.values = .ok values ∧ xs[j]? = some values := by
    intro ds
    induction ds with
    | nil => exact fun _ hd => nomatch hd
    | cons e ds ih =>
      intro xs j d hxs hd
      rw [parseColumns] at hxs
      cases happend : appendValues e.parser.append e.values with
      | error message =>
        rw [happend] at hxs
        nomatch hxs
      | ok values =>
        rw [happend] at hxs
        obtain ⟨ys, hys, rfl⟩ := Option.map_eq_some_iff.mp hxs
        cases j with
        | zero =>
          obtain rfl := Option.some.inj hd
          exact ⟨values, happend, rfl⟩
        | succ j => exact @ih ys j d hys hd
  obtain ⟨xs, hxs, rfl⟩ := Option.map_eq_some_iff.mp h
  obtain ⟨values, hvalues, hi⟩ := hparse hxs hc
  refine ⟨values, hvalues, ?_⟩
  unfold padColumns
  rw [List.getElem?_zipWith, hc, hi]

end Duplicates

/-! ## Main results -/

section Main

variable {V : Type}

/-- What is read of the columns of a document, whatever the batch size. -/
def ReadsInBatches (columns : List (String × List Json))
    (fields : List (String × ArrayParser V)) : Prop :=
  ∀ n fuel, 1 ≤ n → maxLength (tableColumns columns fields) < fuel →
    ∃ result, readAll (columnReadNext (fields.map Prod.fst) n) fuel
        (tableReaders columns fields) = some result ∧
      ColumnsRead n (tableColumns columns fields) result

theorem names_tableColumns (columns : List (String × List Json))
    (fields : List (String × ArrayParser V)) :
    (tableColumns columns fields).map Column.name = fields.map Prod.fst := by
  unfold tableColumns
  rw [List.map_map]
  rfl

theorem readsInBatches_of_nodup {columns : List (String × List Json)}
    {fields : List (String × ArrayParser V)} (hnodup : (fields.map Prod.fst).Nodup)
    (hpresent : ∀ f ∈ fields, (columns.lookup f.1).isSome) : ReadsInBatches columns fields := by
  intro n fuel hn hfuel
  rw [← names_tableColumns columns fields] at hnodup ⊢
  exact readAll_columns hn fuel hnodup
    (tableReaders_reads (by rw [← names_tableColumns columns fields]; exact hnodup) hpresent) hfuel

/-- A list with a repetition. -/
theorem exists_repetition {names : List String} (h : ¬ names.Nodup) :
    ∃ a pre mid post, names = pre ++ a :: (mid ++ a :: post) := by
  induction names with
  | nil => exact absurd List.nodup_nil h
  | cons name names ih =>
    by_cases hmem : name ∈ names
    · obtain ⟨mid, post, rfl⟩ := List.append_of_mem hmem
      exact ⟨name, [], mid, post, rfl⟩
    · obtain ⟨a, pre, mid, post, rfl⟩ := ih fun hnodup => h (List.nodup_cons.mpr ⟨hmem, hnodup⟩)
      exact ⟨a, name :: pre, mid, post, rfl⟩

/-- A value that every field of a name takes, as something that is not what any of them pads
with. -/
def TakesValue (fields : List (String × ArrayParser V)) (a : String) : Prop :=
  ∃ v, ∀ f ∈ fields, f.1 = a → ∃ x, f.2.append v = .ok x ∧ ∀ g ∈ fields, g.1 = a → x ≠ g.2.null

/-- A document with one value in the columns of a name, and none in the others. -/
def oneValue (fields : List (String × ArrayParser V)) (a : String) (v : Json) :
    List (String × List Json) :=
  fields.map fun f => (f.1, if f.1 = a then [v] else [])

theorem lookup_oneValue {fields : List (String × ArrayParser V)} {a : String} {v : Json}
    {name : String} (h : name ∈ fields.map Prod.fst) :
    (oneValue fields a v).lookup name = some (if name = a then [v] else []) := by
  unfold oneValue
  induction fields with
  | nil => nomatch h
  | cons f fields ih =>
    rw [List.map_cons]
    by_cases hname : name = f.1
    · subst hname
      exact List.lookup_cons_self
    · rw [List.lookup_cons, beq_false_of_ne hname]
      exact ih ((List.mem_cons.mp h).resolve_left hname)

/-- **With two fields of one name a table is not read as it is.** -/
theorem not_readsInBatches {fields : List (String × ArrayParser V)}
    (hvalues : ∀ a ∈ fields.map Prod.fst, TakesValue fields a)
    (hdup : ¬ (fields.map Prod.fst).Nodup) :
    ∃ columns : List (String × List Json), (∀ f ∈ fields, (columns.lookup f.1).isSome) ∧
      ¬ ReadsInBatches columns fields := by
  obtain ⟨a, pre, mid, post, hnames⟩ := exists_repetition hdup
  have hmem : a ∈ fields.map Prod.fst := by
    rw [hnames]
    exact List.mem_append_right _ List.mem_cons_self
  obtain ⟨v, hv⟩ := hvalues a hmem
  refine ⟨oneValue fields a v, fun f hf => ?_, fun hreads => ?_⟩
  · rw [lookup_oneValue (List.mem_map.mpr ⟨f, hf, rfl⟩)]
    rfl
  -- the reader of the name has the parser of one of its fields
  have hstream : columnStream (oneValue fields a v) a = some (events (.array [v])) := by
    unfold columnStream
    rw [lookup_oneValue hmem, if_pos rfl]
    rfl
  obtain ⟨p, hp, hlookup⟩ := @prepareReaders_none _ _ _ _ hstream fields [] rfl hmem
  have hparser : HasParser a p (tableReaders (oneValue fields a v) fields) := ⟨_, hlookup, rfl⟩
  obtain ⟨result, hresult, hread⟩ := hreads 1 _ (Nat.le_refl 1) (Nat.lt_succ_self _)
  -- in one go all columns parse
  have hcolumns : ∀ c ∈ tableColumns (oneValue fields a v) fields,
      ∃ values, appendValues c.parser.append c.values = .ok values := by
    intro c hc
    obtain ⟨f, hf, rfl⟩ := List.mem_map.mp hc
    show ∃ values, appendValues f.2.append (((oneValue fields a v).lookup f.1).getD []) = _
    rw [lookup_oneValue (List.mem_map.mpr ⟨f, hf, rfl⟩), Option.getD_some]
    split
    next hname =>
      obtain ⟨x, hx, -⟩ := hv f hf hname
      refine ⟨[x], ?_⟩
      rw [appendValues, hx]
      rfl
    next => exact ⟨[], rfl⟩
  have hwhole : ∃ table, wholeColumns (tableColumns (oneValue fields a v) fields) = some table := by
    have hparse : ∀ ds : List (Column V),
        (∀ d ∈ ds, ∃ values, appendValues d.parser.append d.values = .ok values) →
        ∃ xs, parseColumns ds = some xs := by
      intro ds
      induction ds with
      | nil => exact fun _ => ⟨[], rfl⟩
      | cons d ds ih =>
        intro h
        obtain ⟨values, hvalues⟩ := h d List.mem_cons_self
        obtain ⟨xs, hxs⟩ := ih fun e he => h e (List.mem_cons_of_mem _ he)
        rw [parseColumns, hvalues, hxs]
        exact ⟨values :: xs, rfl⟩
    obtain ⟨xs, hxs⟩ := hparse _ hcolumns
    unfold wholeColumns
    rw [hxs]
    exact ⟨_, rfl⟩
  obtain ⟨table, htable⟩ := hwhole
  cases result with
  | error e =>
    have hnone : wholeColumns (tableColumns (oneValue fields a v) fields) = none := hread
    rw [htable] at hnone
    nomatch hnone
  | ok batches =>
    have hsame := Option.some.inj (htable.symm.trans hread.1)
    rw [hnames] at hresult
    have hsecond := readAll_second pre mid post _ hparser hresult
    -- the second field of the name, in the table and in the batches
    have hfield : ∃ f ∈ fields, f.1 = a ∧ fields[pre.length + (mid.length + 1)]? = some f := by
      have hget : (fields.map Prod.fst)[pre.length + (mid.length + 1)]? = some a := by
        rw [hnames, List.getElem?_append_right (Nat.le_add_right _ _), Nat.add_sub_cancel_left,
          List.getElem?_cons_succ, List.getElem?_append_right (Nat.le_refl _), Nat.sub_self]
        rfl
      rw [List.getElem?_map] at hget
      obtain ⟨f, hf, hname⟩ := Option.map_eq_some_iff.mp hget
      exact ⟨f, List.mem_of_getElem? hf, hname, hf⟩
    obtain ⟨f, hf, hname, hget⟩ := hfield
    have hcolumn : (tableColumns (oneValue fields a v) fields)[pre.length + (mid.length + 1)]? =
        some ⟨f.1, f.2, [v]⟩ := by
      unfold tableColumns
      rw [List.getElem?_map, hget, Option.map_some,
        lookup_oneValue (List.mem_map.mpr ⟨f, hf, rfl⟩), if_pos hname]
      rfl
    obtain ⟨values, hvaluesOk, hentry⟩ := wholeColumns_getElem htable hcolumn
    obtain ⟨x, hx, hnot⟩ := hv f hf hname
    have hone : values = [x] := by
      have happend : appendValues f.2.append [v] = .ok [x] := by
        rw [appendValues, hx]
        rfl
      exact Except.ok.inj (hvaluesOk.symm.trans happend)
    rw [hsame, hone] at hentry
    have hnull := concatenated_nulls batches hsecond _ hentry x List.mem_cons_self
    exact hnot (a, p) hp rfl hnull

/-- **Reading in batches is reading in one go**, for rows with every batch size; and for columns
with every batch size and every document that has them, exactly when no two fields have one
name. The other direction is said of fields that can be told from nulls. -/
theorem read_in_batches :
    (∀ (isNull : V → Bool) (p : ArrayParser V) (rows : List Json) (n fuel : Nat), 1 ≤ n →
      rows.length < fuel →
      ∃ result, readAll (rowReadNext isNull n) fuel
          { input := events (.array rows), parser := p } = some result ∧
        RowsRead n result (wholeRows isNull p rows)) ∧
    (∀ fields : List (String × ArrayParser V), (fields.map Prod.fst).Nodup →
      ∀ columns : List (String × List Json), (∀ f ∈ fields, (columns.lookup f.1).isSome) →
        ReadsInBatches columns fields) ∧
    ∀ fields : List (String × ArrayParser V), (∀ a ∈ fields.map Prod.fst, TakesValue fields a) →
      ((fields.map Prod.fst).Nodup ↔
        ∀ columns : List (String × List Json), (∀ f ∈ fields, (columns.lookup f.1).isSome) →
          ReadsInBatches columns fields) := by
  refine ⟨fun isNull p rows n fuel hn hfuel => ?_, fun fields hnodup columns hpresent => ?_,
    fun fields hvalues => ⟨fun hnodup columns hpresent => ?_, fun hreads => ?_⟩⟩
  · exact readAll_rows hn fuel (.start rows p []) rfl hfuel
  · exact readsInBatches_of_nodup hnodup hpresent
  · exact readsInBatches_of_nodup hnodup hpresent
  · by_contra hdup
    obtain ⟨columns, hpresent, hnot⟩ := not_readsInBatches hvalues hdup
    exact hnot (hreads columns hpresent)

/-- A parser of integers, for documents to try. -/
def integers : ArrayParser (Option Int) where
  append
    | .null => .ok none
    | .number x => .ok (some x.value)
    | v => jsonTypeError "signed int" v
  null := none

theorem read_in_batches_two_columns :
    ReadsInBatches [("a", [.null, .number (.integer false 1)]), ("b", [])]
      [("b", integers), ("a", integers)] :=
  read_in_batches.2.1 _ (by decide) _ (by decide)

/-- A document with two columns of one name. The first of the two fields gets what their reader
has read, the second one gets nulls. -/
theorem second_column_lost :
    let columns : List (String × List Json) :=
      [("a", [.number (.integer false 1), .number (.integer false 2)]),
        ("a", [.number (.integer false 3), .number (.integer false 4)])]
    let fields : List (String × ArrayParser (Option Int)) := [("a", integers), ("a", integers)]
    readAll (columnReadNext ["a", "a"] 1) 3 (tableReaders columns fields) =
      some (.ok [[[some 1, some 2], [none, none]]]) ∧
    wholeColumns (tableColumns columns fields) = some [[some 1, some 2], [some 1, some 2]] ∧
    ¬ ReadsInBatches columns fields := by
  intro columns fields
  have hread : readAll (columnReadNext ["a", "a"] 1) 3 (tableReaders columns fields) =
      some (.ok [[[some 1, some 2], [none, none]]]) := by rfl
  have hwhole : wholeColumns (tableColumns columns fields) =
      some [[some 1, some 2], [some 1, some 2]] := by rfl
  refine ⟨hread, hwhole, fun hreads => ?_⟩
  obtain ⟨result, hresult, hcolumns⟩ := hreads 1 3 (Nat.le_refl 1) (by decide)
  obtain rfl := Option.some.inj (hread.symm.trans hresult)
  have hsame := Option.some.inj (hwhole.symm.trans hcolumns.1)
  exact absurd hsame (by decide)

end Main

end Haybarn.Json
