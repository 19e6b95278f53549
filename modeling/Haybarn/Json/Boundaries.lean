import Haybarn.Json.Inference
import Haybarn.Json.TableReader

/-!
# The boundaries of declared columns (`json_analyzer.cc`, `json_table.cc`)

Who declares the columns of a column table skips the inference, so the reader has to find the
bytes of the columns itself: `FindColumnBoundaries` is a second pass over the document, with a
handler that only counts the depth.

That pass does not parse numbers, and has its handlers stop at one. So it finds a column as the
inference does until the first number of the document, cuts the array with the number short, and
leaves (`found_iff`). A declared column without boundaries has no reader, and reading stops at it.

Mirroring notes:
- Events come with the position of the stream behind them. Positions increase, and an opening
  bracket is one byte.
- With `kParseNumbersAsStringsFlag` a number goes to `RawNumber`, which returns false, and so does
  `IterativeParseNext`. In front of the parser is then a comma or a closing bracket, so there is
  no next key.
- A slice of the stream reports the events of its bytes. A size is never zero here, which would be
  all of the file.
-/

namespace Haybarn.Json

open Lib.JsonDoc

/-! ## `FindColumnBoundaries` -/

/-- `GetReaderEventName` -/
def getReaderEventName : Option Event → String
  | none => "NONE"
  | some (.key _) => "KEY"
  | some .null => "NULL_"
  | some (.string _) => "STRING"
  | some (.bool _) => "BOOL"
  | some (.number x) =>
    match x.kind with
    | .int => "INT32"
    | .int64 => "INT64"
    | .uint => "UINT32"
    | .uint64 => "UINT64"
    | .double => "DOUBLE"
  | some .startObject => "START_OBJECT"
  | some .startArray => "START_ARRAY"
  | some (.endObject _) => "END_OBJECT"
  | some (.endArray _) => "END_ARRAY"

/-- A helper to remember the last event. -/
structure EventReader where
  event : Option Event := none
  depth : Nat := 0

/-- The handler of the scan. It does not take numbers. -/
def EventReader.next (r : EventReader) : Event → Option EventReader
  | .number _ => none
  | e => some { event := some e, depth := depthBehind r.depth e }

def handlerTerminated : String := "Terminate parsing due to Handler error."

def unexpectedTopLevel : String := "Unexpected top-level JSON type"

def notAColumn (r : EventReader) : String :=
  "Invalid type. Expected start of column array, received: " ++ getReaderEventName r.event

/-- Where `FindColumnBoundaries` is. -/
inductive ColumnScanner
  /-- Consume the top-level object. -/
  | top
  /-- Before a column. -/
  | columns (reader : EventReader) (boundaries : List (String × FileRange))
  /-- Behind the key of a column. -/
  | column (reader : EventReader) (boundaries : List (String × FileRange)) (name : String)
  /-- In a column. -/
  | elements (reader : EventReader) (boundaries : List (String × FileRange)) (name : String)
    (columnBegin : Nat)
  | returned (result : Except ReadError (List (String × FileRange)))

namespace ColumnScanner

/-- The scan takes a token. -/
def next (s : ColumnScanner) (t : Token) : ColumnScanner :=
  match s with
  | .top =>
    match EventReader.next {} t.event with
    | none => .returned (.error (.invalid handlerTerminated))
    | some reader =>
      if reader.event = some .startObject then .columns reader []
      else .returned (.error (.invalid unexpectedTopLevel))
  | .columns reader boundaries =>
    match t.event with
    | .key name => .column reader boundaries name
    | _ => .returned (.ok boundaries)
  | .column reader boundaries name =>
    match reader.next t.event with
    | none => .returned (.error (.invalid (notAColumn reader)))
    | some reader' =>
      if reader'.event = some .startArray then .elements reader' boundaries name (t.tell - 1)
      else .returned (.error (.invalid (notAColumn reader')))
  | .elements reader boundaries name columnBegin =>
    let behind := insertBoundary name ⟨columnBegin, t.tell - columnBegin⟩ boundaries
    match reader.next t.event with
    -- there is no next key behind a number
    | none => .returned (.ok behind)
    | some reader' =>
      if reader'.depth = 1 then .columns reader' behind
      else .elements reader' boundaries name columnBegin
  | .returned result => .returned result

/-- The scan takes the tokens of a document. -/
def run (s : ColumnScanner) (tokens : List Token) : ColumnScanner := tokens.foldl next s

/-- The result, once there is one. -/
def result : ColumnScanner → Option (Except ReadError (List (String × FileRange)))
  | .returned result => some result
  | _ => none

end ColumnScanner

/-- `FindColumnBoundaries` of the tokens of a well-formed document. -/
def findColumnBoundaries (tokens : List Token) :
    Option (Except ReadError (List (String × FileRange))) :=
  (ColumnScanner.top.run tokens).result

/-! ## Reading the declared columns -/

section Reading

variable {V : Type}

/-- What the parser reports for a slice of the stream. -/
def slice (tokens : List Token) (r : FileRange) : List Event :=
  (tokens.filter fun t => r.offset < t.tell ∧ t.tell ≤ r.offset + r.size).map Token.event

/-- `ColumnObjectTableReader::Prepare`, with the boundaries that the table type comes with. -/
def prepare (tokens : List Token) (fields : List (String × ArrayParser V))
    (columnBoundaries : List (String × FileRange)) :
    Option (Except ReadError (ColumnReaders V)) :=
  let found :=
    -- the user might have provided the types explicitly
    if 0 < fields.length ∧ columnBoundaries.length = 0 then findColumnBoundaries tokens
    else some (.ok columnBoundaries)
  found.map fun result => result.map fun boundaries =>
    prepareReaders (fun name => (boundaries.lookup name).map (slice tokens)) fields []

/-- Prepare the table reader, and read all batches. -/
def readTable (tokens : List Token) (fields : List (String × ArrayParser V))
    (columnBoundaries : List (String × FileRange)) (n fuel : Nat) :
    Option (Except ReadError (List (List (List V)))) :=
  match prepare tokens fields columnBoundaries with
  | none => none
  | some (.error e) => some (.error e)
  | some (.ok readers) => readAll (columnReadNext (fields.map Prod.fst) n) fuel readers

end Reading

/-! ## Numbers -/

def isNumber : Event → Bool
  | .number _ => true
  | _ => false

/-- There is no number in an array, at any depth. -/
def numberFree (vs : List Json) : Bool := (elementEvents vs).all fun e => !isNumber e

theorem EventReader.next_of_not_number {e : Event} (h : isNumber e = false) (r : EventReader) :
    r.next e = some { event := some e, depth := depthBehind r.depth e } := by
  cases e with
  | number x => nomatch h
  | _ => rfl

theorem EventReader.next_number {e : Event} (h : isNumber e = true) (r : EventReader) :
    r.next e = none := by
  cases e with
  | number x => rfl
  | _ => nomatch h

/-! ## The scan of a column -/

namespace ColumnScanner

variable {tell : Nat → Nat} {boundaries : List (String × FileRange)} {name : String}

theorem run_append (s : ColumnScanner) (ts us : List Token) :
    s.run (ts ++ us) = (s.run ts).run us := List.foldl_append

theorem run_returned (result : Except ReadError (List (String × FileRange))) (ts : List Token) :
    (returned result).run ts = .returned result := by
  induction ts with
  | nil => rfl
  | cons t ts ih => exact ih

/-- As long as the events stay inside the array and none is a number, the scan stays in the
column. -/
theorem run_elements (columnBegin : Nat) (es : List Event) :
    ∀ (i : Nat) (reader : EventReader), Above 2 reader.depth es →
      (∀ e ∈ es, isNumber e = false) →
      ∃ event, (elements reader boundaries name columnBegin).run (tokensFrom tell i es) =
        .elements ⟨event, es.foldl depthBehind reader.depth⟩ boundaries name columnBegin := by
  induction es with
  | nil => exact fun i reader _ _ => ⟨reader.event, rfl⟩
  | cons e es ih =>
    intro i reader habove hnumber
    have hinside : ¬ depthBehind reader.depth e = 1 := by
      have hle : 2 ≤ depthBehind reader.depth e := habove.1
      omega
    have hstep : (elements reader boundaries name columnBegin).next ⟨e, tell i⟩ =
        .elements ⟨some e, depthBehind reader.depth e⟩ boundaries name columnBegin := by
      unfold next
      dsimp only
      rw [EventReader.next_of_not_number (hnumber e List.mem_cons_self)]
      exact if_neg hinside
    obtain ⟨event, hrun⟩ := ih (i + 1) ⟨some e, depthBehind reader.depth e⟩ habove.2
      fun e' he' => hnumber e' (List.mem_cons_of_mem _ he')
    refine ⟨event, ?_⟩
    show ((elements reader boundaries name columnBegin).next ⟨e, tell i⟩).run _ = _
    rw [hstep]
    exact hrun

/-- The key of a column, and the opening bracket. -/
theorem run_begin (i : Nat) (k : String) (reader : EventReader) (hdepth : reader.depth = 1) :
    (columns reader boundaries).run (tokensFrom tell i [.key k, .startArray]) =
      .elements ⟨some .startArray, 2⟩ boundaries k (tell (i + 1) - 1) := by
  show (column reader boundaries k).next ⟨.startArray, tell (i + 1)⟩ = _
  unfold next
  dsimp only
  rw [EventReader.next_of_not_number rfl, hdepth]
  exact if_pos rfl

/-- **A column without numbers.** The scan finds its bytes. -/
theorem run_column (i : Nat) (k : String) {vs : List Json} (hfree : numberFree vs = true)
    (reader : EventReader) (hdepth : reader.depth = 1) :
    ∃ reader' : EventReader, reader'.depth = 1 ∧
      (columns reader boundaries).run (tokensFrom tell i (.key k :: events (.array vs))) =
        .columns reader' (insertBoundary k (columnRange tell i vs) boundaries) := by
  have hlength : (events (.array vs)).length = (elementEvents vs).length + 2 := by
    rw [events, List.length_append, List.length_cons]
    rfl
  have hnumber : ∀ e ∈ elementEvents vs, isNumber e = false := by
    intro e he
    have hnot := List.all_eq_true.mp hfree e he
    rwa [Bool.not_eq_true'] at hnot
  obtain ⟨habove, hback⟩ := above_elementEvents (m := 2) vs (Nat.le_refl 2)
  obtain ⟨event, helements⟩ := @run_elements tell boundaries k (tell (i + 1) - 1)
    (elementEvents vs) (i + 2) ⟨some .startArray, 2⟩ habove hnumber
  have hsplit : tokensFrom tell i (.key k :: events (.array vs)) =
      tokensFrom tell i [.key k, .startArray] ++ (tokensFrom tell (i + 2) (elementEvents vs) ++
        tokensFrom tell (i + 2 + (elementEvents vs).length) [.endArray vs.length]) := by
    rw [← tokensFrom_append, events]
    rfl
  refine ⟨⟨some (.endArray vs.length), 1⟩, rfl, ?_⟩
  rw [hsplit, run_append, run_append, run_begin i k reader hdepth, helements]
  unfold columnRange
  rw [hlength, show i + ((elementEvents vs).length + 2) = i + 2 + (elementEvents vs).length by
    omega]
  show (elements ⟨event, (elementEvents vs).foldl depthBehind 2⟩ boundaries k _).next
    ⟨.endArray vs.length, tell (i + 2 + (elementEvents vs).length)⟩ = _
  rw [hback]
  rfl

/-- The bytes of a column up to its first number. -/
def truncatedRange (tell : Nat → Nat) (i : Nat) (vs : List Json) : FileRange where
  offset := tell (i + 1) - 1
  size := tell (i + 2 + ((elementEvents vs).takeWhile fun e => !isNumber e).length) -
    (tell (i + 1) - 1)

/-- The first number of a list of events. -/
theorem split_at_number {es : List Event} (h : es.all (fun e => !isNumber e) = false) :
    ∃ e post, isNumber e = true ∧ es = (es.takeWhile fun e => !isNumber e) ++ e :: post := by
  induction es with
  | nil => nomatch h
  | cons e es ih =>
    cases he : isNumber e with
    | true =>
      refine ⟨e, es, he, ?_⟩
      rw [List.takeWhile_cons_of_neg (by rw [he]; exact Bool.false_ne_true)]
      rfl
    | false =>
      rw [List.all_cons, he] at h
      obtain ⟨e', post, he', hes⟩ := ih h
      refine ⟨e', post, he', ?_⟩
      rw [List.takeWhile_cons_of_pos (by rw [he]; rfl), List.cons_append]
      exact congrArg (e :: ·) hes

/-- **A column with a number.** It is cut behind the number, and the scan is over. -/
theorem run_truncated (i : Nat) (k : String) {vs : List Json} (hfree : numberFree vs = false)
    (reader : EventReader) (hdepth : reader.depth = 1) :
    (columns reader boundaries).run (tokensFrom tell i (.key k :: events (.array vs))) =
      .returned (.ok (insertBoundary k (truncatedRange tell i vs) boundaries)) := by
  obtain ⟨e, post, he, hes⟩ := split_at_number hfree
  generalize hpre : ((elementEvents vs).takeWhile fun e => !isNumber e) = pre at hes
  have hnumber : ∀ e' ∈ pre, isNumber e' = false := by
    intro e' he'
    rw [← hpre] at he'
    have hnot := List.mem_takeWhile_imp he'
    rwa [Bool.not_eq_true'] at hnot
  have habove : Above 2 2 pre := by
    have hall := (above_elementEvents (m := 2) vs (Nat.le_refl 2)).1
    rw [hes, above_append] at hall
    exact hall.1
  obtain ⟨event, helements⟩ := @run_elements tell boundaries k (tell (i + 1) - 1)
    pre (i + 2) ⟨some .startArray, 2⟩ habove hnumber
  have hsplit : tokensFrom tell i (.key k :: events (.array vs)) =
      tokensFrom tell i [.key k, .startArray] ++ (tokensFrom tell (i + 2) pre ++
        tokensFrom tell (i + 2 + pre.length) (e :: (post ++ [.endArray vs.length]))) := by
    have happend := tokensFrom_append tell [.key k, .startArray]
      (pre ++ e :: (post ++ [.endArray vs.length])) i
    rw [tokensFrom_append tell pre] at happend
    rw [events, hes, List.cons_append, List.append_assoc]
    exact happend
  rw [hsplit, run_append, run_append, run_begin i k reader hdepth, helements]
  have hstep : (elements ⟨event, pre.foldl depthBehind 2⟩ boundaries k (tell (i + 1) - 1)).next
      ⟨e, tell (i + 2 + pre.length)⟩ =
      .returned (.ok (insertBoundary k (truncatedRange tell i vs) boundaries)) := by
    unfold next
    dsimp only
    rw [EventReader.next_number he]
    unfold truncatedRange
    rw [hpre]
  show (next _ ⟨e, tell (i + 2 + pre.length)⟩).run _ = _
  rw [hstep]
  exact run_returned _ _

end ColumnScanner

/-! ## The boundaries that are found -/

section Found

variable {tell : Nat → Nat} {boundaries : List (String × FileRange)}

/-- The columns in front of the first number of a document. -/
def columnsScanned (columns : List (String × List Json)) : List (String × List Json) :=
  columns.takeWhile fun c => numberFree c.2

theorem columnsScanned_cons (k : String) (vs : List Json) (rest : List (String × List Json)) :
    columnsScanned ((k, vs) :: rest) =
      if numberFree vs then (k, vs) :: columnsScanned rest else [] := by
  unfold columnsScanned
  rw [List.takeWhile_cons]

/-- The boundaries that the scan finds. -/
def foundRanges (tell : Nat → Nat) : Nat → List (String × List Json) →
    List (String × FileRange) → List (String × FileRange)
  | _, [], boundaries => boundaries
  | i, (k, vs) :: rest, boundaries =>
    if numberFree vs then
      foundRanges tell (i + 1 + (events (.array vs)).length) rest
        (insertBoundary k (columnRange tell i vs) boundaries)
    else insertBoundary k (ColumnScanner.truncatedRange tell i vs) boundaries

/-- The scan of all columns, and of the end of the object. -/
theorem run_found (columns : List (String × List Json)) (stop : Event)
    (hstop : ∀ name, stop ≠ .key name) :
    ∀ (i : Nat) (reader : EventReader) (boundaries : List (String × FileRange)),
      reader.depth = 1 →
      (ColumnScanner.columns reader boundaries).run (tokensFrom tell i
          (memberEvents (columns.map fun c => (c.1, .array c.2)) ++ [stop])) =
        .returned (.ok (foundRanges tell i columns boundaries)) := by
  induction columns with
  | nil =>
    intro i reader boundaries _
    rw [List.map_nil, memberEvents, List.nil_append]
    show (ColumnScanner.columns reader boundaries).next ⟨stop, tell i⟩ = _
    unfold ColumnScanner.next
    cases stop with
    | key name => exact absurd rfl (hstop name)
    | _ => rfl
  | cons c rest ih =>
    intro i reader boundaries hdepth
    obtain ⟨k, vs⟩ := c
    rw [List.map_cons, memberEvents, List.append_assoc, tokensFrom_append,
      ColumnScanner.run_append, foundRanges, List.length_cons,
      Nat.add_comm (events _).length 1, ← Nat.add_assoc]
    cases hfree : numberFree vs with
    | true =>
      obtain ⟨reader', hdepth', hrun⟩ :=
        @ColumnScanner.run_column tell boundaries i k vs hfree reader hdepth
      rw [hrun, if_pos rfl]
      exact ih _ reader' _ hdepth'
    | false =>
      rw [ColumnScanner.run_truncated i k hfree reader hdepth, if_neg Bool.false_ne_true]
      exact ColumnScanner.run_returned _ _

/-- The document of some columns. -/
def columnDocument (columns : List (String × List Json)) : Json :=
  .object (columns.map fun c => (c.1, .array c.2))

/-- **What `FindColumnBoundaries` finds.** -/
theorem findColumnBoundaries_columns (tell : Nat → Nat) (columns : List (String × List Json)) :
    findColumnBoundaries (tokensFrom tell 0 (events (columnDocument columns))) =
      some (.ok (foundRanges tell 1 columns [])) := by
  have hrun := @run_found tell columns
    (.endObject (columns.map fun c => (c.1, Json.array c.2)).length) nofun 1
    ⟨some .startObject, 1⟩ [] rfl
  unfold findColumnBoundaries columnDocument
  rw [events, List.cons_append, tokensFrom]
  show ((ColumnScanner.top.next ⟨.startObject, tell 0⟩).run _).result = _
  have hstart : ColumnScanner.top.next ⟨.startObject, tell 0⟩ =
      .columns ⟨some .startObject, 1⟩ [] := rfl
  rw [hstart, hrun]
  rfl

end Found

/-! ## Entries of the boundaries -/

section Lookup

variable {tell : Nat → Nat} {boundaries : List (String × FileRange)} {k name : String}
  {r range : FileRange}

theorem lookup_isSome {α : Type} {l : List (String × α)} :
    (l.lookup k).isSome = true ↔ k ∈ l.map Prod.fst := by
  induction l with
  | nil => exact ⟨nofun, nofun⟩
  | cons e l ih =>
    obtain ⟨k', x⟩ := e
    rw [List.map_cons, List.mem_cons, List.lookup_cons]
    by_cases hk : k = k'
    · subst hk
      rw [beq_self_eq_true]
      exact ⟨fun _ => .inl rfl, fun _ => rfl⟩
    · rw [beq_false_of_ne hk]
      exact ih.trans ⟨.inr, fun h => h.resolve_left hk⟩

/-- `insert` leaves an entry that exists. -/
theorem lookup_insertBoundary_some (h : boundaries.lookup k = some r) :
    (insertBoundary name range boundaries).lookup k = some r := by
  unfold insertBoundary
  split
  next => exact h
  next => rw [List.lookup_append, h, Option.some_or]

theorem lookup_insertBoundary_self (h : boundaries.lookup k = none) :
    (insertBoundary k range boundaries).lookup k = some range := by
  have hnot : k ∉ boundaries.map Prod.fst := fun hk => by
    have hsome := lookup_isSome.mpr hk
    rw [h] at hsome
    nomatch hsome
  unfold insertBoundary
  rw [if_neg hnot, List.lookup_append, h, Option.none_or]
  exact List.lookup_cons_self

theorem lookup_insertBoundary_ne (h : k ≠ name) :
    (insertBoundary name range boundaries).lookup k = boundaries.lookup k := by
  unfold insertBoundary
  split
  next => rfl
  next =>
    rw [List.lookup_append, List.lookup_cons, beq_false_of_ne h]
    exact Option.or_none

theorem lookup_columnRanges_some (columns : List (String × List Json)) :
    ∀ {i : Nat} {boundaries : List (String × FileRange)}, boundaries.lookup k = some r →
      (columnRanges tell i columns boundaries).lookup k = some r := by
  induction columns with
  | nil => exact fun h => h
  | cons c rest ih => exact fun h => ih (lookup_insertBoundary_some h)

/-- **The detected bytes of a column** are those of the first array under its key. -/
theorem lookup_columnRanges (columns : List (String × List Json)) {vs : List Json} :
    ∀ {i : Nat} {boundaries : List (String × FileRange)}, boundaries.lookup k = none →
      columns.lookup k = some vs →
      ∃ pre post, memberEvents (columns.map fun c => (c.1, .array c.2)) =
          pre ++ (.key k :: events (.array vs)) ++ post ∧
        (columnRanges tell i columns boundaries).lookup k =
          some (columnRange tell (i + pre.length) vs) := by
  induction columns with
  | nil => exact fun _ h => nomatch h
  | cons c rest ih =>
    intro i boundaries hnone hlookup
    obtain ⟨k', ws⟩ := c
    rw [List.map_cons, memberEvents, columnRanges]
    by_cases hk : k = k'
    · subst hk
      rw [List.lookup_cons_self] at hlookup
      obtain rfl := Option.some.inj hlookup
      exact ⟨[], memberEvents (rest.map fun c => (c.1, .array c.2)), rfl,
        lookup_columnRanges_some rest (lookup_insertBoundary_self hnone)⟩
    · rw [List.lookup_cons, beq_false_of_ne hk] at hlookup
      have hnone' : (insertBoundary k' (columnRange tell i ws) boundaries).lookup k = none := by
        rw [lookup_insertBoundary_ne hk]
        exact hnone
      obtain ⟨pre, post, hevents, hrange⟩ :=
        @ih (i + 1 + (events (.array ws)).length) _ hnone' hlookup
      refine ⟨.key k' :: events (.array ws) ++ pre, post, ?_, ?_⟩
      · rw [hevents]
        simp only [List.cons_append, List.append_assoc]
      · rw [hrange, List.length_append, List.length_cons]
        congr 2
        omega

/-- Of the columns in front of the first number the scan finds what the inference detects. -/
theorem found_of_scanned (columns : List (String × List Json)) :
    ∀ {i : Nat} {boundaries : List (String × FileRange)},
      k ∈ (columnsScanned columns).map Prod.fst ∨ (boundaries.lookup k).isSome = true →
      (foundRanges tell i columns boundaries).lookup k =
        (columnRanges tell i columns boundaries).lookup k := by
  induction columns with
  | nil => exact fun _ => rfl
  | cons c rest ih =>
    intro i boundaries h
    obtain ⟨k', vs⟩ := c
    rw [columnsScanned_cons] at h
    rw [foundRanges, columnRanges]
    cases hfree : numberFree vs with
    | true =>
      rw [hfree, if_pos rfl, List.map_cons, List.mem_cons] at h
      rw [if_pos rfl]
      refine ih ?_
      by_cases hk : k = k'
      · subst hk
        refine .inr ?_
        cases hlookup : boundaries.lookup k with
        | some r => rw [lookup_insertBoundary_some hlookup]; rfl
        | none => rw [lookup_insertBoundary_self hlookup]; rfl
      · rw [lookup_insertBoundary_ne hk]
        exact h.imp_left fun h => h.resolve_left hk
    | false =>
      rw [hfree, if_neg Bool.false_ne_true] at h
      obtain ⟨r, hr⟩ := Option.isSome_iff_exists.mp (h.resolve_left List.not_mem_nil)
      rw [if_neg Bool.false_ne_true, lookup_insertBoundary_some hr,
        lookup_columnRanges_some rest (lookup_insertBoundary_some hr)]

/-- A cut column ends before the column does. -/
theorem truncatedRange_ne (htell : StrictMono tell) (i : Nat) {vs : List Json}
    (hfree : numberFree vs = false) :
    ColumnScanner.truncatedRange tell i vs ≠ columnRange tell i vs := by
  intro heq
  have hshort : ((elementEvents vs).takeWhile fun e => !isNumber e).length <
      (elementEvents vs).length := by
    obtain ⟨e, post, -, hes⟩ := ColumnScanner.split_at_number hfree
    have hlength := congrArg List.length hes
    rw [List.length_append, List.length_cons] at hlength
    omega
  have hlength : (events (.array vs)).length = (elementEvents vs).length + 2 := by
    rw [events, List.length_append, List.length_cons]
    rfl
  have hsize := congrArg FileRange.size heq
  unfold ColumnScanner.truncatedRange columnRange at hsize
  rw [hlength] at hsize
  dsimp only at hsize
  have hbefore : tell (i + 2 + ((elementEvents vs).takeWhile fun e => !isNumber e).length) <
      tell (i + ((elementEvents vs).length + 2)) := htell (by omega)
  have hbegin : tell (i + 1) <
      tell (i + 2 + ((elementEvents vs).takeWhile fun e => !isNumber e).length) :=
    htell (by omega)
  omega

/-- Of the others it does not. -/
theorem not_found (htell : StrictMono tell) (columns : List (String × List Json)) :
    ∀ {i : Nat} {boundaries : List (String × FileRange)},
      k ∉ (columnsScanned columns).map Prod.fst → boundaries.lookup k = none →
      k ∈ columns.map Prod.fst →
      (foundRanges tell i columns boundaries).lookup k ≠
        (columnRanges tell i columns boundaries).lookup k := by
  induction columns with
  | nil => exact fun _ _ h => absurd h List.not_mem_nil
  | cons c rest ih =>
    intro i boundaries hscanned hnone hmem
    obtain ⟨k', vs⟩ := c
    rw [columnsScanned_cons] at hscanned
    rw [foundRanges, columnRanges]
    cases hfree : numberFree vs with
    | true =>
      rw [hfree, if_pos rfl, List.map_cons, List.mem_cons, not_or] at hscanned
      rw [if_pos rfl]
      refine ih hscanned.2 ?_ ((List.mem_cons.mp hmem).resolve_left hscanned.1)
      rw [lookup_insertBoundary_ne hscanned.1]
      exact hnone
    | false =>
      rw [if_neg Bool.false_ne_true]
      by_cases hk : k = k'
      · subst hk
        rw [lookup_insertBoundary_self hnone,
          lookup_columnRanges_some rest (lookup_insertBoundary_self hnone)]
        exact fun h => truncatedRange_ne htell i hfree (Option.some.inj h)
      · have hnone' : (insertBoundary k' (columnRange tell i vs) boundaries).lookup k = none := by
          rw [lookup_insertBoundary_ne hk]
          exact hnone
        obtain ⟨ws, hws⟩ := Option.isSome_iff_exists.mp
          (lookup_isSome.mpr ((List.mem_cons.mp hmem).resolve_left hk))
        obtain ⟨_, _, -, hrange⟩ :=
          @lookup_columnRanges tell k rest ws (i + 1 + (events (.array vs)).length) _ hnone' hws
        rw [lookup_insertBoundary_ne hk, hnone, hrange]
        exact fun h => by cases h

/-- **The scan finds the bytes that the inference detects exactly for the columns in front of the
first number of the document.** -/
theorem found_iff (htell : StrictMono tell) {columns : List (String × List Json)}
    (hk : k ∈ columns.map Prod.fst) :
    (foundRanges tell 1 columns []).lookup k = (columnRanges tell 1 columns []).lookup k ↔
      k ∈ (columnsScanned columns).map Prod.fst := by
  constructor
  · intro heq
    by_contra hscanned
    exact not_found htell columns hscanned rfl hk heq
  · exact fun hscanned => found_of_scanned columns (.inl hscanned)

end Lookup

/-! ## Slices of a document -/

section Slices

variable {tell : Nat → Nat}

theorem mem_tokensFrom {t : Token} (es : List Event) :
    ∀ {i : Nat}, t ∈ tokensFrom tell i es → ∃ j, i ≤ j ∧ j < i + es.length ∧ t.tell = tell j := by
  induction es with
  | nil => exact fun h => nomatch h
  | cons e es ih =>
    intro i h
    rw [tokensFrom] at h
    rw [List.length_cons]
    rcases List.mem_cons.mp h with rfl | h
    · exact ⟨i, Nat.le_refl i, by omega, rfl⟩
    · obtain ⟨j, hle, hlt, hj⟩ := ih h
      exact ⟨j, by omega, by omega, hj⟩

/-- The bytes from one event to another report these events and those between them. -/
theorem slice_between (htell : StrictMono tell) {pre mid post : List Event} (hpre : pre ≠ [])
    (hmid : mid ≠ []) :
    slice (tokensFrom tell 0 (pre ++ mid ++ post)) ⟨tell pre.length - 1,
      tell (pre.length + mid.length - 1) - (tell pre.length - 1)⟩ = mid := by
  have hprelength : 0 < pre.length := List.length_pos_iff.mpr hpre
  have hmidlength : 0 < mid.length := List.length_pos_iff.mpr hmid
  have hbegin : 0 < tell pre.length := Nat.lt_of_le_of_lt (Nat.zero_le _) (htell hprelength)
  have hend : tell pre.length ≤ tell (pre.length + mid.length - 1) :=
    htell.monotone (by omega)
  have hbefore : (tokensFrom tell 0 pre).filter (fun t => tell pre.length - 1 < t.tell ∧
      t.tell ≤ tell (pre.length + mid.length - 1)) = [] := by
    refine List.filter_eq_nil_iff.mpr fun t ht h => ?_
    obtain ⟨j, -, hlt, hj⟩ := mem_tokensFrom pre ht
    have hless : tell j < tell pre.length := htell (by omega)
    have := (of_decide_eq_true h).1
    omega
  have hinside : (tokensFrom tell pre.length mid).filter (fun t => tell pre.length - 1 < t.tell ∧
      t.tell ≤ tell (pre.length + mid.length - 1)) = tokensFrom tell pre.length mid := by
    refine List.filter_eq_self.mpr fun t ht => ?_
    obtain ⟨j, hle, hlt, hj⟩ := mem_tokensFrom mid ht
    have hfrom : tell pre.length ≤ tell j := htell.monotone hle
    have hto : tell j ≤ tell (pre.length + mid.length - 1) := htell.monotone (by omega)
    exact decide_eq_true ⟨by omega, by omega⟩
  have hbehind : (tokensFrom tell (pre.length + mid.length) post).filter (fun t =>
      tell pre.length - 1 < t.tell ∧ t.tell ≤ tell (pre.length + mid.length - 1)) = [] := by
    refine List.filter_eq_nil_iff.mpr fun t ht h => ?_
    obtain ⟨j, hle, -, hj⟩ := mem_tokensFrom post ht
    have hmore : tell (pre.length + mid.length - 1) < tell j := htell (by omega)
    have := (of_decide_eq_true h).2
    omega
  have hsum : tell pre.length - 1 + (tell (pre.length + mid.length - 1) - (tell pre.length - 1)) =
      tell (pre.length + mid.length - 1) := by
    omega
  unfold slice
  dsimp only
  rw [hsum, List.append_assoc, tokensFrom_append, tokensFrom_append, Nat.zero_add,
    List.filter_append, List.filter_append, hbefore, hinside, hbehind, List.nil_append,
    List.append_nil, map_event_tokensFrom]

/-- **The detected bytes of a column are its array.** -/
theorem slice_detected (htell : StrictMono tell) {columns : List (String × List Json)}
    {k : String} {vs : List Json} (h : columns.lookup k = some vs) :
    ((columnRanges tell 1 columns []).lookup k).map
        (slice (tokensFrom tell 0 (events (columnDocument columns)))) =
      some (events (.array vs)) := by
  obtain ⟨pre, post, hevents, hrange⟩ := @lookup_columnRanges tell k columns vs 1 [] rfl h
  have hdocument : events (columnDocument columns) =
      (.startObject :: pre ++ [.key k]) ++ events (.array vs) ++
        (post ++ [.endObject (columns.map fun c => (c.1, Json.array c.2)).length]) := by
    have hobject : ∀ ms, events (.object ms) =
        .startObject :: memberEvents ms ++ [.endObject ms.length] := fun ms => by rw [events]
    unfold columnDocument
    rw [hobject, hevents]
    simp only [List.cons_append, List.append_assoc, List.nil_append]
  have harray : events (.array vs) ≠ [] := by
    rw [events]
    exact nofun
  have hslice := @slice_between tell htell (.startObject :: pre ++ [.key k]) (events (.array vs))
    (post ++ [.endObject (columns.map fun c => (c.1, Json.array c.2)).length])
    (by rw [List.cons_append]; exact nofun) harray
  have hlength : (Event.startObject :: pre ++ [Event.key k]).length = 1 + pre.length + 1 := by
    rw [List.length_append, List.length_cons, List.length_singleton]
    omega
  rw [hrange, Option.map_some, hdocument]
  unfold columnRange
  rw [hlength, show 1 + pre.length + 1 + (events (.array vs)).length - 1 =
    1 + pre.length + (events (.array vs)).length by omega] at hslice
  rw [hslice]

end Slices

/-! ## Declared columns -/

section Declared

variable {V : Type} {tell : Nat → Nat}

theorem prepareReaders_congr {stream stream' : String → Option (List Event)}
    (fields : List (String × ArrayParser V)) : ∀ {readers : ColumnReaders V},
    (∀ f ∈ fields, stream f.1 = stream' f.1) →
      prepareReaders stream fields readers = prepareReaders stream' fields readers := by
  induction fields with
  | nil => exact fun _ => rfl
  | cons f fields ih =>
    intro readers h
    obtain ⟨name, p⟩ := f
    have hrest : ∀ f ∈ fields, stream f.1 = stream' f.1 := fun f hf =>
      h f (List.mem_cons_of_mem _ hf)
    have hname : stream name = stream' name := h _ List.mem_cons_self
    rw [prepareReaders, prepareReaders, hname]
    cases stream' name with
    | none => exact ih hrest
    | some input =>
      dsimp only
      split
      next => exact ih hrest
      next => exact ih hrest

/-- Without boundaries there is no reader. -/
theorem prepareReaders_absent {stream : String → Option (List Event)} {k : String}
    (hk : stream k = none) (fields : List (String × ArrayParser V)) :
    ∀ {readers : ColumnReaders V}, readers.lookup k = none →
      (prepareReaders stream fields readers).lookup k = none := by
  induction fields with
  | nil => exact fun h => h
  | cons f fields ih =>
    intro readers h
    obtain ⟨name, p⟩ := f
    rw [prepareReaders]
    cases hname : stream name with
    | none => exact ih h
    | some input =>
      have hne : k ≠ name := by
        intro heq
        rw [heq, hname] at hk
        cases hk
      dsimp only
      split
      next => exact ih h
      next =>
        refine ih ?_
        rw [lookup_append_none h]
        exact lookup_cons_ne hne

/-- A column without a reader fails. -/
theorem readColumns_absent {n : Nat} {k : String} (names : List String) (hk : k ∈ names) :
    ∀ {readers : ColumnReaders V} {numRows : Nat}, readers.lookup k = none →
      ∃ e, readColumns n names readers numRows = .error e := by
  induction names with
  | nil => nomatch hk
  | cons name names ih =>
    intro readers numRows h
    rw [readColumns]
    by_cases hname : k = name
    · subst hname
      rw [h]
      exact ⟨.assertion, rfl⟩
    · have hmem : k ∈ names := (List.mem_cons.mp hk).resolve_left hname
      cases readers.lookup name with
      | none => exact ⟨.assertion, rfl⟩
      | some r =>
        dsimp only
        cases r.readNextN n with
        | error e => exact ⟨e, rfl⟩
        | ok r' =>
          refine ih hmem ?_
          rw [lookup_setReader_ne hname]
          exact h

/-- The streams of the fields are those of the arrays, so the readers are those of the table. -/
theorem readTable_eq {columns : List (String × List Json)} {fields : List (String × ArrayParser V)}
    {columnBoundaries boundaries : List (String × FileRange)} {n fuel : Nat}
    (hfound : fields ≠ [] → (if 0 < fields.length ∧ columnBoundaries.length = 0 then
      findColumnBoundaries (tokensFrom tell 0 (events (columnDocument columns)))
      else some (.ok columnBoundaries)) = some (.ok boundaries))
    (hstreams : ∀ f ∈ fields, (boundaries.lookup f.1).map
      (slice (tokensFrom tell 0 (events (columnDocument columns)))) =
        columnStream columns f.1) :
    readTable (tokensFrom tell 0 (events (columnDocument columns))) fields columnBoundaries n fuel =
      readAll (columnReadNext (fields.map Prod.fst) n) fuel (tableReaders columns fields) := by
  unfold readTable
  have hprepare : prepare (tokensFrom tell 0 (events (columnDocument columns))) fields
      columnBoundaries = some (.ok (tableReaders columns fields)) := by
    unfold prepare tableReaders
    cases fields with
    | nil =>
      dsimp only
      rw [if_neg fun h => absurd h.1 (Nat.lt_irrefl 0)]
      rfl
    | cons f fields =>
      dsimp only
      rw [hfound (List.cons_ne_nil f fields)]
      exact congrArg (fun readers => some (Except.ok readers))
        (prepareReaders_congr (f :: fields) hstreams)
  rw [hprepare]

/-- With the boundaries of the inference the readers are those of the arrays. -/
theorem readTable_detected (htell : StrictMono tell) {columns : List (String × List Json)}
    {fields : List (String × ArrayParser V)} {n fuel : Nat}
    (hpresent : ∀ f ∈ fields, f.1 ∈ columns.map Prod.fst) :
    readTable (tokensFrom tell 0 (events (columnDocument columns))) fields
        (columnRanges tell 1 columns []) n fuel =
      readAll (columnReadNext (fields.map Prod.fst) n) fuel (tableReaders columns fields) := by
  have hstreams : ∀ f ∈ fields, ((columnRanges tell 1 columns []).lookup f.1).map
      (slice (tokensFrom tell 0 (events (columnDocument columns)))) =
        columnStream columns f.1 := by
    intro f hf
    obtain ⟨vs, hvs⟩ := Option.isSome_iff_exists.mp (lookup_isSome.mpr (hpresent f hf))
    unfold columnStream
    rw [slice_detected htell hvs, hvs]
    rfl
  refine readTable_eq (fun hne => ?_) hstreams
  obtain ⟨f, hf⟩ := List.exists_mem_of_ne_nil _ hne
  rw [if_neg]
  intro h
  have hnil := List.length_eq_zero_iff.mp h.2
  obtain ⟨vs, hvs⟩ := Option.isSome_iff_exists.mp (lookup_isSome.mpr (hpresent f hf))
  have hslice := slice_detected htell hvs
  rw [hnil] at hslice
  nomatch hslice

/-- **What the inference has found is where the reader reads**: with the boundaries of the inferred
table, columns of the document under different names are read whole, whatever the batch size. -/
theorem inferred_boundaries_read (arrow : Externals) (slots : Slots) (htell : StrictMono tell)
    {columns : List (String × List Json)} {fields : List (String × ArrayParser V)}
    (hnodup : (fields.map Prod.fst).Nodup) (hpresent : ∀ f ∈ fields, f.1 ∈ columns.map Prod.fst) :
    ∃ types boundaries, inferTableType arrow slots
        (tokensFrom tell 0 (events (columnDocument columns))) =
          some (.columnObject types boundaries) ∧
      ∀ n fuel, 1 ≤ n → maxLength (tableColumns columns fields) < fuel →
        ∃ result, readTable (tokensFrom tell 0 (events (columnDocument columns))) fields boundaries
            n fuel = some result ∧ ColumnsRead n (tableColumns columns fields) result := by
  refine ⟨_, _, inferTableType_columns arrow slots tell columns, fun n fuel hn hfuel => ?_⟩
  rw [readTable_detected htell hpresent]
  exact readsInBatches_of_nodup hnodup (fun f hf => lookup_isSome.mpr (hpresent f hf)) n fuel hn
    hfuel

/-- The columns of a table agree with the detected ones: they are found where the inference detects
them, and reading gives their arrays and nulls for those that are absent. -/
def DeclaredAgree (arrow : Externals) (slots : Slots) (tell : Nat → Nat)
    (columns : List (String × List Json)) (fields : List (String × ArrayParser V)) : Prop :=
  (∃ found types detected,
    findColumnBoundaries (tokensFrom tell 0 (events (columnDocument columns))) = some (.ok found) ∧
    inferTableType arrow slots (tokensFrom tell 0 (events (columnDocument columns))) =
      some (.columnObject types detected) ∧
    ∀ f ∈ fields, f.1 ∈ columns.map Prod.fst → found.lookup f.1 = detected.lookup f.1) ∧
  ∀ n fuel, 1 ≤ n → maxLength (tableColumns columns fields) < fuel →
    ∃ result, readTable (tokensFrom tell 0 (events (columnDocument columns))) fields [] n fuel =
        some result ∧
      ColumnsRead n (tableColumns columns fields) result

/-- Every declared column is in the document, in front of the first number. -/
def Scanned (columns : List (String × List Json)) (fields : List (String × ArrayParser V)) :
    Prop :=
  ∀ f ∈ fields, f.1 ∈ (columnsScanned columns).map Prod.fst

theorem mem_of_scanned {columns : List (String × List Json)} {k : String}
    (h : k ∈ (columnsScanned columns).map Prod.fst) : k ∈ columns.map Prod.fst :=
  ((List.takeWhile_prefix _).map Prod.fst).subset h

theorem declaredAgree_of_scanned (arrow : Externals) (slots : Slots) (htell : StrictMono tell)
    {columns : List (String × List Json)} {fields : List (String × ArrayParser V)}
    (hnodup : (fields.map Prod.fst).Nodup) (h : Scanned columns fields) :
    DeclaredAgree arrow slots tell columns fields := by
  have hpresent : ∀ f ∈ fields, (columns.lookup f.1).isSome := fun f hf =>
    lookup_isSome.mpr (mem_of_scanned (h f hf))
  have hsame : ∀ f ∈ fields, (foundRanges tell 1 columns []).lookup f.1 =
      (columnRanges tell 1 columns []).lookup f.1 := fun f hf =>
    found_of_scanned columns (.inl (h f hf))
  refine ⟨⟨_, _, _, findColumnBoundaries_columns tell columns,
    inferTableType_columns arrow slots tell columns, fun f hf _ => hsame f hf⟩, ?_⟩
  intro n fuel hn hfuel
  have hread := @readTable_eq V tell columns fields [] (foundRanges tell 1 columns []) n fuel
    (fun hne => by
      rw [if_pos ⟨List.length_pos_iff.mpr hne, rfl⟩]
      exact findColumnBoundaries_columns tell columns)
    (fun f hf => by
      obtain ⟨vs, hvs⟩ := Option.isSome_iff_exists.mp (hpresent f hf)
      unfold columnStream
      rw [hsame f hf, slice_detected htell hvs, hvs]
      rfl)
  rw [hread]
  exact readsInBatches_of_nodup hnodup hpresent n fuel hn hfuel

/-- An absent column stops the reader. -/
theorem readTable_absent {columns : List (String × List Json)}
    {fields : List (String × ArrayParser V)} {f : String × ArrayParser V} (hf : f ∈ fields)
    (habsent : f.1 ∉ columns.map Prod.fst) (n fuel : Nat) :
    ∃ e, readTable (tokensFrom tell 0 (events (columnDocument columns))) fields [] n (fuel + 1) =
      some (.error e) := by
  have hne : 0 < fields.length := List.length_pos_of_mem hf
  have hnone : ∀ (columns : List (String × List Json)) (i : Nat)
      (boundaries : List (String × FileRange)), f.1 ∉ columns.map Prod.fst →
      boundaries.lookup f.1 = none → (foundRanges tell i columns boundaries).lookup f.1 = none := by
    intro columns
    induction columns with
    | nil => exact fun _ _ _ h => h
    | cons c rest ih =>
      intro i boundaries hnot hb
      obtain ⟨k, vs⟩ := c
      rw [List.map_cons, List.mem_cons, not_or] at hnot
      rw [foundRanges]
      split
      next => exact ih _ _ hnot.2 (by rw [lookup_insertBoundary_ne hnot.1]; exact hb)
      next => rw [lookup_insertBoundary_ne hnot.1]; exact hb
  have hstream : ((foundRanges tell 1 columns []).lookup f.1).map
      (slice (tokensFrom tell 0 (events (columnDocument columns)))) = none := by
    rw [hnone columns 1 [] habsent rfl]
    rfl
  have hreader := @prepareReaders_absent V (fun name =>
    ((foundRanges tell 1 columns []).lookup name).map
      (slice (tokensFrom tell 0 (events (columnDocument columns))))) f.1 hstream fields [] rfl
  have hprepare : prepare (tokensFrom tell 0 (events (columnDocument columns))) fields [] =
      some (.ok (prepareReaders (fun name => ((foundRanges tell 1 columns []).lookup name).map
        (slice (tokensFrom tell 0 (events (columnDocument columns))))) fields [])) := by
    unfold prepare
    dsimp only
    rw [if_pos ⟨hne, rfl⟩, findColumnBoundaries_columns]
    rfl
  unfold readTable
  rw [hprepare]
  generalize prepareReaders _ fields [] = readers at hreader ⊢
  obtain ⟨e, he⟩ := @readColumns_absent V n f.1 (fields.map Prod.fst)
    (List.mem_map.mpr ⟨f, hf, rfl⟩) readers 0 hreader
  have hstep : columnReadNext (fields.map Prod.fst) n readers = .error e := by
    unfold columnReadNext
    rw [he]
  refine ⟨e, ?_⟩
  dsimp only
  rw [readAll, hstep]

/-- **Declared columns agree with the detected ones** when all of them are in the document, in
front of its first number; and when their values convert to their types, in no other case. -/
theorem declared_agree (arrow : Externals) (slots : Slots) (htell : StrictMono tell)
    (columns : List (String × List Json)) (fields : List (String × ArrayParser V))
    (hnodup : (fields.map Prod.fst).Nodup) :
    (Scanned columns fields → DeclaredAgree arrow slots tell columns fields) ∧
    ((wholeColumns (tableColumns columns fields)).isSome →
      (DeclaredAgree arrow slots tell columns fields ↔ Scanned columns fields)) := by
  refine ⟨declaredAgree_of_scanned arrow slots htell hnodup, fun hconvert => ⟨?_,
    declaredAgree_of_scanned arrow slots htell hnodup⟩⟩
  intro hagree f hf
  by_cases hpresent : f.1 ∈ columns.map Prod.fst
  · obtain ⟨⟨found, types, detected, hfound, hdetected, hsame⟩, -⟩ := hagree
    rw [findColumnBoundaries_columns] at hfound
    obtain rfl := Except.ok.inj (Option.some.inj hfound)
    have htype := inferTableType_columns arrow slots tell columns
    unfold columnDocument at hdetected
    rw [htype] at hdetected
    obtain ⟨-, rfl⟩ := TableType.columnObject.inj (Option.some.inj hdetected)
    exact (found_iff htell hpresent).mp (hsame f hf hpresent)
  · -- a table that stops is not the one that its values make
    obtain ⟨result, hresult, hread⟩ := hagree.2 1 _ (Nat.le_refl 1) (Nat.lt_succ_self _)
    obtain ⟨e, he⟩ := @readTable_absent V tell columns fields f hf hpresent 1
      (maxLength (tableColumns columns fields))
    rw [he] at hresult
    obtain rfl := Option.some.inj hresult
    have hnone : wholeColumns (tableColumns columns fields) = none := hread
    rw [hnone] at hconvert
    nomatch hconvert

/-- The positions of a text that gives three bytes to every event. -/
def everyThree (i : Nat) : Nat := 3 * i + 1

theorem strictMono_everyThree : StrictMono everyThree := by
  intro i j h
  unfold everyThree
  omega

theorem declared_agree_nested :
    DeclaredAgree ⟨fun _ => none, fun _ => "", fun _ => ""⟩ (fun _ => none) everyThree
      [("a", [.array [.string "1"]]), ("b", [.null, .null]), ("c", [.number (.integer false 1)])]
      [("b", integers)] :=
  (declared_agree _ _ strictMono_everyThree _ [("b", integers)] (List.nodup_singleton "b")).1
      fun f hf => by
    obtain rfl := List.mem_singleton.mp hf
    exact List.mem_cons_of_mem _ List.mem_cons_self

/-- Two integers, which the scan would cut apart. -/
theorem inferred_boundaries_read_numbers :
    let columns : List (String × List Json) :=
      [("a", [.number (.integer false 1), .number (.integer false 2)])]
    let tokens := tokensFrom everyThree 0 (events (columnDocument columns))
    ∃ types boundaries result, inferTableType ⟨fun _ => none, fun _ => "", fun _ => ""⟩
        (fun _ => none) tokens = some (.columnObject types boundaries) ∧
      readTable tokens [("a", integers)] boundaries 1 3 = some result ∧
      ColumnsRead 1 (tableColumns columns [("a", integers)]) result := by
  intro columns tokens
  have hpresent : ∀ f ∈ [("a", integers)], f.1 ∈ columns.map Prod.fst := by
    intro f hf
    rw [List.mem_singleton.mp hf]
    exact List.mem_cons_self
  obtain ⟨types, boundaries, htypes, hread⟩ := inferred_boundaries_read _ _ strictMono_everyThree
    (show ([("a", integers)].map Prod.fst).Nodup from List.nodup_singleton "a") hpresent
  obtain ⟨result, hresult, hcolumns⟩ := hread 1 3 (Nat.le_refl 1) (by decide)
  exact ⟨types, boundaries, result, htypes, hresult, hcolumns⟩

/-- The only column of a document holds two integers. The scan cuts it behind the first of them,
the inference does not, and reading fails. So it does for a column that is absent. -/
theorem column_cut_at_number :
    let arrow : Externals := ⟨fun _ => none, fun _ => "", fun _ => ""⟩
    let columns : List (String × List Json) :=
      [("a", [.number (.integer false 1), .number (.integer false 2)])]
    let tokens := tokensFrom everyThree 0 (events (columnDocument columns))
    findColumnBoundaries tokens = some (.ok [("a", ⟨6, 4⟩)]) ∧
    inferTableType arrow (fun _ => none) tokens =
      some (.columnObject [("a", .int32)] [("a", ⟨6, 10⟩)]) ∧
    readTable tokens [("a", integers)] [] 2 4 = some (.error .execution) ∧
    readTable tokens [("b", integers)] [] 2 4 = some (.error .assertion) ∧
    wholeColumns (tableColumns columns [("a", integers)]) = some [[some 1, some 2]] ∧
    ¬ DeclaredAgree arrow (fun _ => none) everyThree columns [("a", integers)] ∧
    ¬ DeclaredAgree arrow (fun _ => none) everyThree columns [("b", integers)] := by
  intro arrow columns tokens
  have hread : readTable tokens [("a", integers)] [] 2 4 = some (.error .execution) := by rfl
  have habsent : readTable tokens [("b", integers)] [] 2 4 = some (.error .assertion) := by rfl
  have hwhole : wholeColumns (tableColumns columns [("a", integers)]) =
      some [[some 1, some 2]] := by rfl
  have hempty : wholeColumns (tableColumns columns [("b", integers)]) = some [[]] := by rfl
  refine ⟨by rfl, by rfl, hread, habsent, hwhole, fun h => ?_, fun h => ?_⟩
  · obtain ⟨result, hresult, hcolumns⟩ := h.2 2 4 (by omega) (by decide)
    obtain rfl := Option.some.inj (hread.symm.trans hresult)
    exact nomatch hwhole.symm.trans hcolumns
  · obtain ⟨result, hresult, hcolumns⟩ := h.2 2 4 (by omega) (by decide)
    obtain rfl := Option.some.inj (habsent.symm.trans hresult)
    exact nomatch hempty.symm.trans hcolumns

end Declared

end Haybarn.Json
