import Haybarn.Json.Boundaries

/-!
# Malformed documents (`json_analyzer.cc`)

The loops over the columns of a document end at whatever is no key: `InferTableType` leaves its
loop as if the object had been closed there, and the scan of `FindColumnBoundaries` leaves a column
where a call fails. So a text that breaks off behind a column is taken for a table of the columns
in front of the error. The loop over the rows, and the one over the elements of a column, report
the error; a key that no array follows gives up.

Mirroring notes:
- rapidjson is a parameter: what it reports of a text (`Reading`). Up to the first call that fails,
  the events are those of a document, or a beginning of them.
- What the calls behind a failed one report is not documented, so it is a parameter of the scan
  (`Later`), and the scan has to get along with all of it. `InferTableType` makes no such call.
- A text may go on behind its top-level value. The call that reports the end then fails, and the
  handler has taken the event. No handler of the analyzer fails there.
- With `kParseNumbersAsStringsFlag` a call fails at a number, and the ones behind it are again a
  parameter. Otherwise both passes see the same events.
- Of the errors of `InferTableType` the model holds that there is one.

`malformed_table_iff` is the result.
-/

namespace Haybarn.Json

open Lib.JsonDoc

/-! ## What the parser reports -/

/-- How the calls of `IterativeParseNext` come to an end. -/
inductive Ending
  /-- The top-level value has ended, and the text with it. -/
  | complete
  /-- The call that has reported the end of the top-level value fails. -/
  | trailing (error : String) (tell : Nat)
  /-- The call behind the events fails. -/
  | malformed (error : String) (tell : Nat)
  deriving DecidableEq

/-- The text is well-formed up to the end of its top-level value. -/
def Ending.wellFormed : Ending → Bool
  | .malformed _ _ => false
  | _ => true

/-- What the parser reports of a text. -/
structure Reading where
  events : List Event
  /-- The position of the stream behind an event. -/
  tell : Nat → Nat
  ending : Ending
  whole : ending.wellFormed = true → ∃ v, events = Lib.JsonDoc.events v
  viable : ending.wellFormed = false →
    ∃ v, events <+: Lib.JsonDoc.events v ∧ events ≠ Lib.JsonDoc.events v

def Reading.tokens (r : Reading) : List Token := tokensFrom r.tell 0 r.events

/-! ## `InferTableType` -/

/-- A call has failed. -/
def TableAnalyzer.fail : TableAnalyzer → Except ReadError TableType
  | .peek | .rows _ | .elements .. => .error .execution
  -- `while (next() && ...)` is over
  | .columns fields boundaries => .ok (.columnObject (sortFields fields) boundaries)
  | .column .. => .ok .unrecognized
  | .returned type => .ok type

/-- `InferTableType` -/
def inferTable (arrow : Externals) (slots : Slots) (r : Reading) :
    Option (Except ReadError TableType) :=
  match r.ending with
  | .complete => (inferTableType arrow slots r.tokens).map .ok
  | .trailing _ _ => (TableAnalyzer.run arrow slots .peek r.tokens.dropLast).map TableAnalyzer.fail
  | .malformed _ _ => (TableAnalyzer.run arrow slots .peek r.tokens).map TableAnalyzer.fail

/-- The table has a row or a column shape. -/
def TableType.recognized : TableType → Bool
  | .unrecognized => false
  | _ => true

/-! ## `FindColumnBoundaries` -/

/-- A call of `IterativeParseNext`. -/
inductive Call
  | reports (t : Token)
  | fails (error : String) (tell : Nat)

/-- The calls behind one that has failed: some, and then only ones that fail. -/
structure Later where
  calls : List Call
  error : String
  tell : Nat

/-- The calls up to one that fails. -/
def Reading.calls (r : Reading) : List Call :=
  match r.ending with
  | .complete => r.tokens.map .reports
  | .trailing error tell => r.tokens.dropLast.map .reports ++ [.fails error tell]
  | .malformed error tell => r.tokens.map .reports ++ [.fails error tell]

/-- The handler of the scan does not take it. -/
def Call.refused : Call → Bool
  | .reports t => isNumber t.event
  | .fails _ _ => true

/-- The calls of the scan. -/
def scanCalls (later : List Call) : List Call → List Call
  | [] => []
  | c :: cs => if c.refused then c :: later else c :: scanCalls later cs

namespace ColumnScanner

/-- The scan makes a call. -/
def call (s : ColumnScanner) : Call → ColumnScanner
  | .reports t =>
    match s with
    | .elements reader boundaries name columnBegin =>
      if isNumber t.event then
        .columns reader (insertBoundary name ⟨columnBegin, t.tell - columnBegin⟩ boundaries)
      else s.next t
    | s => s.next t
  | .fails error tell =>
    match s with
    | .top => .returned (.error (.invalid error))
    | .columns _ boundaries => .returned (.ok boundaries)
    | .column reader _ _ => .returned (.error (.invalid (notAColumn reader)))
    -- `while (next_event() && ...)` is over
    | .elements reader boundaries name columnBegin =>
      .columns reader (insertBoundary name ⟨columnBegin, tell - columnBegin⟩ boundaries)
    | .returned result => .returned result

/-- From here on every call fails. -/
def fail (error : String) (tell : Nat) (s : ColumnScanner) :
    Except ReadError (List (String × FileRange)) :=
  match s with
  | .top => .error (.invalid error)
  | .columns _ boundaries => .ok boundaries
  | .column reader _ _ => .error (.invalid (notAColumn reader))
  | .elements _ boundaries name columnBegin =>
    .ok (insertBoundary name ⟨columnBegin, tell - columnBegin⟩ boundaries)
  | .returned result => result

end ColumnScanner

/-- `FindColumnBoundaries` -/
def findBoundaries (r : Reading) (later : Later) : Except ReadError (List (String × FileRange)) :=
  ((scanCalls later.calls r.calls).foldl ColumnScanner.call .top).fail later.error later.tell

/-! ## Taking malformed text for a table -/

/-- `InferTableType` finds a table only in well-formed text. -/
def InferenceStrict (arrow : Externals) (slots : Slots) (r : Reading) : Prop :=
  ∀ type, inferTable arrow slots r = some (.ok type) → type.recognized = true →
    r.ending.wellFormed = true

/-- `FindColumnBoundaries` succeeds only with well-formed text. -/
def ScanStrict (r : Reading) : Prop :=
  ∀ later found, findBoundaries r later = .ok found → r.ending.wellFormed = true

/-- The events of some columns. -/
def columnEvents (columns : List (String × List Json)) : List Event :=
  memberEvents (columns.map fun c => (c.1, .array c.2))

/-- Between two columns, or behind the last one. -/
def BetweenColumns (es : List Event) : Prop :=
  ∃ columns, es = .startObject :: columnEvents columns

/-- In a column. -/
def InColumn (es : List Event) : Prop :=
  ∃ columns k vs inner, inner <+: elementEvents vs ∧
    es = .startObject :: (columnEvents columns ++ .key k :: .startArray :: inner)

/-- The events in front of the first number. -/
def frontOfNumber (es : List Event) : List Event := es.takeWhile fun e => !isNumber e

/-- The members in front of the first one that is no array. -/
theorem columns_or_other (members : List (String × Json)) :
    ∃ columns : List (String × List Json), members = columns.map (fun c => (c.1, .array c.2)) ∨
      ∃ k v post, (∀ vs, v ≠ .array vs) ∧
        members = columns.map (fun c => (c.1, .array c.2)) ++ (k, v) :: post := by
  induction members with
  | nil => exact ⟨[], .inl rfl⟩
  | cons m members ih =>
    obtain ⟨k, v⟩ := m
    by_cases harray : ∃ vs, v = .array vs
    · obtain ⟨vs, rfl⟩ := harray
      obtain ⟨columns, rfl | ⟨k', v', post, hv, rfl⟩⟩ := ih
      · exact ⟨(k, vs) :: columns, .inl rfl⟩
      · exact ⟨(k, vs) :: columns, .inr ⟨k', v', post, hv, rfl⟩⟩
    · exact ⟨[], .inr ⟨k, v, members, fun vs h => harray ⟨vs, h⟩, rfl⟩⟩

theorem memberEvents_append (ms ns : List (String × Json)) :
    memberEvents (ms ++ ns) = memberEvents ms ++ memberEvents ns := by
  induction ms with
  | nil => rfl
  | cons m ms ih =>
    obtain ⟨k, v⟩ := m
    rw [List.cons_append, memberEvents, memberEvents, ih, List.append_assoc]

/-- A value that is no array begins with something else than the start of one. -/
theorem events_other {v : Json} (h : ∀ vs, v ≠ .array vs) :
    ∃ e rest, events v = e :: rest ∧ e ≠ .startArray := by
  cases v with
  | array vs => exact absurd rfl (h vs)
  | object members =>
    exact ⟨.startObject, memberEvents members ++ [.endObject members.length], by rw [events]; rfl,
      by simp⟩
  | null => exact ⟨.null, [], by rw [events], by simp⟩
  | bool b => exact ⟨.bool b, [], by rw [events], by simp⟩
  | number x => exact ⟨.number x, [], by rw [events], by simp⟩
  | string s => exact ⟨.string s, [], by rw [events], by simp⟩

/-- Where reading an object stops early: between columns, behind the key of one, in a column, or
with a member that is no column. -/
inductive Stopped : List Event → Prop
  | between (columns : List (String × List Json)) : Stopped (.startObject :: columnEvents columns)
  | key (columns : List (String × List Json)) (k : String) :
    Stopped (.startObject :: (columnEvents columns ++ [.key k]))
  | column (columns : List (String × List Json)) (k : String) (vs : List Json) (inner : List Event)
    (h : inner <+: elementEvents vs) :
    Stopped (.startObject :: (columnEvents columns ++ .key k :: .startArray :: inner))
  | other (columns : List (String × List Json)) (k : String) (e : Event) (rest : List Event)
    (h : e ≠ .startArray) : Stopped (.startObject :: (columnEvents columns ++ .key k :: e :: rest))

/-- **A beginning of an object** stops in one of these ways. -/
theorem stopped_of_prefix {v : Json} {es : List Event} (h : .startObject :: es <+: events v)
    (hne : .startObject :: es ≠ events v) : Stopped (.startObject :: es) := by
  obtain ⟨pre, rest, rfl, hrest⟩ := prefix_object h hne
  obtain ⟨columns, rfl | ⟨k, w, post, hw, rfl⟩⟩ := columns_or_other pre
  · cases hrest with
    | nothing => rw [List.append_nil]; exact .between columns
    | key k => exact .key columns k
    | array k vs inner hinner => exact .column columns k vs inner hinner
    | object k inner => exact .other columns k .startObject inner (by simp)
  · obtain ⟨e, behind, he, hother⟩ := events_other hw
    have hmembers : memberEvents (columns.map (fun c => (c.1, Json.array c.2)) ++ (k, w) :: post) ++
        rest = columnEvents columns ++ .key k :: e :: (behind ++ memberEvents post ++ rest) := by
      rw [memberEvents_append, memberEvents, he]
      simp [columnEvents]
    rw [hmembers]
    exact .other columns k e _ hother

/-! ## The inference -/

section Inference

variable (arrow : Externals) (slots : Slots)

theorem run_returned (type : TableType) (ts : List Token) :
    (TableAnalyzer.returned type).run arrow slots ts = some (.returned type) := by
  induction ts with
  | nil => rfl
  | cons t ts ih => exact ih

/-- In the elements of a column the reader stays in it. -/
theorem run_inside (fields : List (String × DataType)) (boundaries : List (String × FileRange))
    (name : String) (columnBegin : Nat) (ts : List Token) :
    ∀ a : JSONArrayAnalyzer JSONArrayStats, Above 1 a.currentDepth (ts.map Token.event) →
      ∀ s, (TableAnalyzer.elements fields boundaries name columnBegin a).run arrow slots ts =
          some s →
        ∃ b, s = .elements fields boundaries name columnBegin b := by
  intro a habove s hrun
  cases hfeed : a.feed flatArray slots (ts.map Token.event) with
  | some b =>
    rw [run_elements arrow slots fields boundaries name columnBegin ts habove hfeed] at hrun
    exact ⟨b, (Option.some.inj hrun).symm⟩
  | none =>
    induction ts generalizing a with
    | nil => cases hfeed
    | cons t ts ih =>
      rw [TableAnalyzer.run, TableAnalyzer.next] at hrun
      cases hc : a.handle flatArray slots t.event with
      | none =>
        rw [hc] at hrun
        cases hrun
      | some c =>
        have hdepth := JSONArrayAnalyzer.depth_handle hc
        have hinside : ¬ c.done = true := by
          unfold JSONArrayAnalyzer.done
          rw [hdepth, beq_iff_eq]
          exact Nat.ne_of_gt habove.1
        rw [hc, Option.map_some, if_neg hinside, Option.bind_some] at hrun
        rw [List.map_cons, JSONArrayAnalyzer.feed, hc, Option.bind_some] at hfeed
        exact ih c (by rw [hdepth]; exact habove.2) hrun hfeed

/-- Behind some columns the reader is between two. -/
theorem run_between (tell : Nat → Nat) (columns : List (String × List Json)) (rest : List Event) :
    ∃ fields boundaries, TableAnalyzer.run arrow slots .peek
        (tokensFrom tell 0 (.startObject :: (columnEvents columns ++ rest))) =
      (TableAnalyzer.columns fields boundaries).run arrow slots
        (tokensFrom tell (1 + (columnEvents columns).length) rest) := by
  obtain ⟨fields, boundaries, hcolumns⟩ : ∃ fields boundaries,
      (TableAnalyzer.columns [] []).run arrow slots (tokensFrom tell 1 (columnEvents columns)) =
        some (.columns fields boundaries) :=
    ⟨_, _, run_columns arrow slots tell columns 1 [] []⟩
  refine ⟨fields, boundaries, ?_⟩
  rw [tokensFrom, TableAnalyzer.run, TableAnalyzer.next, Option.bind_some, tokensFrom_append,
    run_append, hcolumns, Option.bind_some]

/-- Between two columns a call that fails is taken for the end of the object. -/
theorem fail_between (tell : Nat → Nat) {es : List Event} (h : BetweenColumns es) :
    ∃ s type, TableAnalyzer.run arrow slots .peek (tokensFrom tell 0 es) = some s ∧
      s.fail = .ok type ∧ type.recognized = true := by
  obtain ⟨columns, rfl⟩ := h
  obtain ⟨fields, boundaries, hrun⟩ := run_between arrow slots tell columns []
  rw [List.append_nil] at hrun
  exact ⟨.columns fields boundaries, _, hrun, rfl, rfl⟩

/-- **Elsewhere it is not**: the error is reported, or the inference gives up. -/
theorem fail_of_stopped (tell : Nat → Nat) {es : List Event} (h : Stopped es)
    (hbetween : ¬ BetweenColumns es) {s : TableAnalyzer}
    (hrun : TableAnalyzer.run arrow slots .peek (tokensFrom tell 0 es) = some s)
    {type : TableType} (hfail : s.fail = .ok type) : type = .unrecognized := by
  cases h with
  | between columns => exact absurd ⟨columns, rfl⟩ hbetween
  | key columns k =>
    obtain ⟨fields, boundaries, heq⟩ := run_between arrow slots tell columns [.key k]
    rw [heq] at hrun
    obtain rfl := Option.some.inj hrun
    exact (Except.ok.inj hfail).symm
  | column columns k vs inner hinner =>
    obtain ⟨fields, boundaries, heq⟩ :=
      run_between arrow slots tell columns (.key k :: .startArray :: inner)
    rw [heq, tokensFrom, tokensFrom, TableAnalyzer.run, TableAnalyzer.next, Option.bind_some,
      TableAnalyzer.run, TableAnalyzer.next, Option.bind_some] at hrun
    have habove : Above 1 1 inner := by
      obtain ⟨more, hmore⟩ := hinner
      have hall := (above_elementEvents vs (Nat.le_refl 1)).1
      rw [← hmore, above_append] at hall
      exact hall.1
    obtain ⟨b, rfl⟩ := run_inside arrow slots fields boundaries k _ _ _
      (by rw [map_event_tokensFrom]; exact habove) s hrun
    cases hfail
  | other columns k e rest hother =>
    obtain ⟨fields, boundaries, heq⟩ := run_between arrow slots tell columns (.key k :: e :: rest)
    rw [heq, tokensFrom, tokensFrom, TableAnalyzer.run, TableAnalyzer.next, Option.bind_some,
      TableAnalyzer.run] at hrun
    have hnext : ∀ name i, TableAnalyzer.next arrow slots ⟨e, i⟩ (.column fields boundaries name) =
        some (.returned .unrecognized) := by
      intro name i
      cases e <;> first | rfl | exact absurd rfl hother
    rw [hnext, Option.bind_some, run_returned] at hrun
    obtain rfl := Option.some.inj hrun
    exact (Except.ok.inj hfail).symm

/-- Text that does not begin with an object is no table if it is malformed. -/
theorem fail_of_other_start (tell : Nat → Nat) {es : List Event} (h : es.head? ≠ some .startObject)
    {s : TableAnalyzer} (hrun : TableAnalyzer.run arrow slots .peek (tokensFrom tell 0 es) = some s)
    {type : TableType} (hfail : s.fail = .ok type) : type = .unrecognized := by
  cases es with
  | nil =>
    obtain rfl := Option.some.inj hrun
    cases hfail
  | cons e rest =>
    rw [tokensFrom, TableAnalyzer.run] at hrun
    by_cases harray : e = .startArray
    · obtain rfl := harray
      rw [TableAnalyzer.next, Option.bind_some, run_rows] at hrun
      obtain ⟨b, -, rfl⟩ := Option.map_eq_some_iff.mp hrun
      cases hfail
    · have hnext : TableAnalyzer.next arrow slots ⟨e, tell 0⟩ .peek =
          some (.returned .unrecognized) := by
        cases e <;> first | rfl | exact absurd rfl harray | exact absurd rfl h
      rw [hnext, Option.bind_some, run_returned] at hrun
      obtain rfl := Option.some.inj hrun
      exact (Except.ok.inj hfail).symm

/-- **The inference** takes malformed text for a table if it breaks off between two columns, and
only then. -/
theorem inferenceStrict_iff (r : Reading) :
    InferenceStrict arrow slots r ↔ (r.ending.wellFormed = true ∨ ¬ BetweenColumns r.events) := by
  cases hending : r.ending with
  | complete => exact ⟨fun _ => .inl rfl, fun _ _ _ _ => by rw [hending]; rfl⟩
  | trailing error tell => exact ⟨fun _ => .inl rfl, fun _ _ _ _ => by rw [hending]; rfl⟩
  | malformed error tell =>
    have hmalformed : r.ending.wellFormed = false := by rw [hending]; rfl
    have hinfer : inferTable arrow slots r =
        (TableAnalyzer.run arrow slots .peek r.tokens).map TableAnalyzer.fail := by
      unfold inferTable
      rw [hending]
    constructor
    · intro hstrict
      refine .inr fun hbetween => ?_
      obtain ⟨s, type, hrun, hfail, htable⟩ := fail_between arrow slots r.tell hbetween
      have hwhole := hstrict type
        (by rw [hinfer, Reading.tokens, hrun, Option.map_some, hfail]) htable
      rw [hmalformed] at hwhole
      cases hwhole
    · intro h type htype htable
      have hbetween : ¬ BetweenColumns r.events := h.resolve_left (by rw [Ending.wellFormed]; simp)
      rw [hinfer] at htype
      obtain ⟨s, hrun, hfail⟩ := Option.map_eq_some_iff.mp htype
      have hunrecognized : type = .unrecognized := by
        by_cases hstart : r.events.head? = some .startObject
        · obtain ⟨v, hbegin, hne⟩ := r.viable hmalformed
          obtain ⟨rest, hrest⟩ := List.head?_eq_some_iff.mp hstart
          rw [hrest] at hbegin hne
          have hstopped : Stopped r.events := hrest ▸ stopped_of_prefix hbegin hne
          exact fail_of_stopped arrow slots r.tell hstopped hbetween hrun hfail
        · exact fail_of_other_start arrow slots r.tell hstart hrun hfail
      rw [hunrecognized] at htable
      cases htable

end Inference

/-! ## The scan -/

section Scan

variable {tell : Nat → Nat}

theorem map_reports (es : List Event) (h : ∀ e ∈ es, isNumber e = false) :
    ∀ (i : Nat) (s : ColumnScanner),
      ((tokensFrom tell i es).map Call.reports).foldl ColumnScanner.call s =
        s.run (tokensFrom tell i es) := by
  induction es with
  | nil => exact fun _ _ => rfl
  | cons e es ih =>
    intro i s
    have hcall : s.call (.reports ⟨e, tell i⟩) = s.next ⟨e, tell i⟩ := by
      have hnumber : ¬ isNumber e = true := by simp [h e List.mem_cons_self]
      cases s with
      | elements reader boundaries name columnBegin => exact if_neg hnumber
      | _ => rfl
    rw [tokensFrom, List.map_cons, List.foldl_cons, hcall,
      ih (fun e he => h e (List.mem_cons_of_mem _ he))]
    rfl

/-- The calls of the scan: those in front of the first number, and the one that fails. -/
theorem scanCalls_eq (later : List Call) (last : Call) (hlast : last.refused = true)
    (es : List Event) : ∀ i : Nat,
    ∃ c : Call, c.refused = true ∧
      scanCalls later ((tokensFrom tell i es).map Call.reports ++ [last]) =
        (tokensFrom tell i (frontOfNumber es)).map Call.reports ++ c :: later := by
  induction es with
  | nil => exact fun i => ⟨last, hlast, by simp [tokensFrom, frontOfNumber, scanCalls, hlast]⟩
  | cons e es ih =>
    intro i
    cases he : isNumber e with
    | true =>
      refine ⟨.reports ⟨e, tell i⟩, he, ?_⟩
      simp [tokensFrom, frontOfNumber, scanCalls, Call.refused, he]
    | false =>
      obtain ⟨c, hc, heq⟩ := ih (i + 1)
      refine ⟨c, hc, ?_⟩
      have hfront : frontOfNumber (e :: es) = e :: frontOfNumber es := by
        simp [frontOfNumber, he]
      rw [hfront, tokensFrom, tokensFrom, List.map_cons, List.map_cons, List.cons_append,
        List.cons_append, scanCalls, heq]
      simp [Call.refused, he]

theorem not_number_of_front {es : List Event} : ∀ e ∈ frontOfNumber es, isNumber e = false := by
  intro e he
  have hnot := List.mem_takeWhile_imp he
  rwa [Bool.not_eq_true'] at hnot

namespace ColumnScanner

theorem calls_returned (result : Except ReadError (List (String × FileRange))) (cs : List Call) :
    cs.foldl call (returned result) = returned result := by
  induction cs with
  | nil => rfl
  | cons c cs ih =>
    have hcall : (returned result).call c = .returned result := by cases c <;> rfl
    rw [List.foldl_cons, hcall, ih]

/-- Behind some columns without numbers the scan is between two. -/
theorem run_between (columns : List (String × List Json)) :
    ∀ (i : Nat) (reader : EventReader) (boundaries : List (String × FileRange)),
      reader.depth = 1 → (∀ e ∈ columnEvents columns, isNumber e = false) →
      ∃ (reader' : EventReader) (boundaries' : List (String × FileRange)), reader'.depth = 1 ∧
        (ColumnScanner.columns reader boundaries).run (tokensFrom tell i (columnEvents columns)) =
          .columns reader' boundaries' := by
  induction columns with
  | nil => exact fun i reader boundaries hdepth _ => ⟨reader, boundaries, hdepth, rfl⟩
  | cons c columns ih =>
    intro i reader boundaries hdepth hnumber
    obtain ⟨k, vs⟩ := c
    have hsplit : columnEvents ((k, vs) :: columns) =
        .key k :: events (.array vs) ++ columnEvents columns := by
      unfold columnEvents
      rw [List.map_cons, memberEvents]
    rw [hsplit] at hnumber ⊢
    have hfree : numberFree vs = true := by
      refine List.all_eq_true.mpr fun e he => ?_
      rw [hnumber e (by rw [events]; simp [he])]
      rfl
    obtain ⟨reader', hdepth', hrun⟩ :=
      @ColumnScanner.run_column tell boundaries i k vs hfree reader hdepth
    rw [tokensFrom_append, run_append, hrun]
    exact ih _ reader' _ hdepth' fun e he => hnumber e (List.mem_append_right _ he)

/-- So it is when the columns are those of an object. -/
theorem run_top (columns : List (String × List Json)) (rest : List Event)
    (h : ∀ e ∈ columnEvents columns, isNumber e = false) :
    ∃ (reader : EventReader) (boundaries : List (String × FileRange)), reader.depth = 1 ∧
      top.run (tokensFrom tell 0 (.startObject :: (columnEvents columns ++ rest))) =
        (ColumnScanner.columns reader boundaries).run
          (tokensFrom tell (1 + (columnEvents columns).length) rest) := by
  obtain ⟨reader, boundaries, hdepth, hrun⟩ :=
    @run_between tell columns 1 ⟨some .startObject, 1⟩ [] rfl h
  refine ⟨reader, boundaries, hdepth, ?_⟩
  rw [tokensFrom, tokensFrom_append, ← hrun, ← run_append]
  rfl

/-- Where the scan goes on behind a call that fails. -/
def Open (s : ColumnScanner) : Prop :=
  (∃ reader boundaries, s = .columns reader boundaries) ∨
    ∃ reader boundaries name columnBegin, s = .elements reader boundaries name columnBegin

/-- Where it reports that call. -/
def Reports (s : ColumnScanner) : Prop :=
  s = .top ∨ (∃ reader boundaries name, s = .column reader boundaries name) ∨
    ∃ e, s = .returned (.error e)

theorem Open.succeeds {s : ColumnScanner} (h : s.Open) {c : Call} (hc : c.refused = true)
    (error : String) (tell : Nat) : ∃ found, (s.call c).fail error tell = .ok found := by
  rcases h with ⟨reader, boundaries, rfl⟩ | ⟨reader, boundaries, name, columnBegin, rfl⟩
  · cases c with
    | fails e i => exact ⟨boundaries, rfl⟩
    | reports t =>
      obtain ⟨e, i⟩ := t
      cases e with
      | number x => exact ⟨boundaries, rfl⟩
      | _ => cases hc
  · cases c with
    | fails e i => exact ⟨_, rfl⟩
    | reports t =>
      have hcall : (elements reader boundaries name columnBegin).call (.reports t) =
          .columns reader (insertBoundary name ⟨columnBegin, t.tell - columnBegin⟩ boundaries) :=
        if_pos hc
      exact ⟨_, by rw [hcall]; rfl⟩

theorem Reports.error {s : ColumnScanner} (h : s.Reports) {c : Call} (hc : c.refused = true) :
    ∃ e, s.call c = .returned (.error e) := by
  rcases h with rfl | ⟨reader, boundaries, name, rfl⟩ | ⟨e, rfl⟩
  · cases c with
    | fails e i => exact ⟨_, rfl⟩
    | reports t =>
      obtain ⟨e, i⟩ := t
      cases e with
      | number x => exact ⟨_, rfl⟩
      | _ => cases hc
  · cases c with
    | fails e i => exact ⟨_, rfl⟩
    | reports t =>
      refine ⟨.invalid (notAColumn reader), ?_⟩
      show (column reader boundaries name).next t = _
      unfold next
      dsimp only
      rw [EventReader.next_number hc]
  · cases c <;> exact ⟨e, rfl⟩

variable {es : List Event}

/-- Between two columns and in a column the scan goes on. -/
theorem open_of_columns (hnumber : ∀ e ∈ es, isNumber e = false)
    (h : BetweenColumns es ∨ InColumn es) : (top.run (tokensFrom tell 0 es)).Open := by
  rcases h with ⟨columns, rfl⟩ | ⟨columns, k, vs, inner, hinner, rfl⟩
  · obtain ⟨reader, boundaries, -, hrun⟩ := @run_top tell columns []
      fun e he => hnumber e (List.mem_cons_of_mem _ he)
    rw [List.append_nil] at hrun
    exact .inl ⟨reader, boundaries, hrun⟩
  · obtain ⟨reader, boundaries, hdepth, hrun⟩ :=
      @run_top tell columns (.key k :: .startArray :: inner)
        fun e he => hnumber e (List.mem_cons_of_mem _ (List.mem_append_left _ he))
    have habove : Above 2 2 inner := by
      obtain ⟨more, hmore⟩ := hinner
      have hall := (above_elementEvents vs (Nat.le_refl 2)).1
      rw [← hmore, above_append] at hall
      exact hall.1
    have hsplit := tokensFrom_append tell [.key k, .startArray] inner
      (1 + (columnEvents columns).length)
    obtain ⟨event, helements⟩ := @run_elements tell boundaries k
      (tell (1 + (columnEvents columns).length + 1) - 1) inner
      (1 + (columnEvents columns).length + 2) ⟨some .startArray, 2⟩ habove
      fun e he => hnumber e (List.mem_cons_of_mem _ (List.mem_append_right _
        (List.mem_cons_of_mem _ (List.mem_cons_of_mem _ he))))
    refine .inr ⟨⟨event, inner.foldl depthBehind 2⟩, boundaries, k,
      tell (1 + (columnEvents columns).length + 1) - 1, ?_⟩
    rw [hrun]
    refine (congrArg _ hsplit).trans ?_
    rw [run_append, run_begin _ k reader hdepth]
    exact helements

/-- **Elsewhere it reports the error.** -/
theorem reports_of_stopped (hnumber : ∀ e ∈ es, isNumber e = false) (h : Stopped es)
    (hnot : ¬ (BetweenColumns es ∨ InColumn es)) : (top.run (tokensFrom tell 0 es)).Reports := by
  cases h with
  | between columns => exact absurd (.inl ⟨columns, rfl⟩) hnot
  | column columns k vs inner hinner =>
    exact absurd (.inr ⟨columns, k, vs, inner, hinner, rfl⟩) hnot
  | key columns k =>
    obtain ⟨reader, boundaries, -, hrun⟩ := @run_top tell columns [.key k]
      fun e he => hnumber e (List.mem_cons_of_mem _ (List.mem_append_left _ he))
    exact .inr (.inl ⟨reader, boundaries, k, hrun⟩)
  | other columns k e rest hother =>
    obtain ⟨reader, boundaries, -, hrun⟩ := @run_top tell columns (.key k :: e :: rest)
      fun e he => hnumber e (List.mem_cons_of_mem _ (List.mem_append_left _ he))
    have he : isNumber e = false := hnumber e (List.mem_cons_of_mem _
      (List.mem_append_right _ (List.mem_cons_of_mem _ List.mem_cons_self)))
    have hnext : ∀ i, ∃ error,
        (column reader boundaries k).next ⟨e, i⟩ = .returned (.error error) := by
      intro i
      unfold next
      dsimp only
      rw [EventReader.next_of_not_number he]
      exact ⟨_, if_neg fun h => hother (Option.some.inj h)⟩
    obtain ⟨error, herror⟩ := hnext (tell (1 + (columnEvents columns).length + 1))
    refine .inr (.inr ⟨error, ?_⟩)
    rw [hrun]
    show ((column reader boundaries k).next _).run _ = _
    rw [herror]
    exact run_returned _ _

/-- So it does if the text does not begin with an object. -/
theorem reports_of_other_start (hnumber : ∀ e ∈ es, isNumber e = false)
    (h : es.head? ≠ some .startObject) : (top.run (tokensFrom tell 0 es)).Reports := by
  cases es with
  | nil => exact .inl rfl
  | cons e rest =>
    have hnext : top.next ⟨e, tell 0⟩ = .returned (.error (.invalid unexpectedTopLevel)) := by
      unfold next
      dsimp only
      rw [EventReader.next_of_not_number (hnumber e List.mem_cons_self)]
      exact if_neg h
    refine .inr (.inr ⟨.invalid unexpectedTopLevel, ?_⟩)
    show (top.next ⟨e, tell 0⟩).run _ = _
    rw [hnext]
    exact run_returned _ _

end ColumnScanner

/-- **The scan** succeeds with malformed text if the text, or its part in front of the first number,
breaks off between two columns or in one, and only then. -/
theorem scanStrict_iff (r : Reading) : ScanStrict r ↔
    (r.ending.wellFormed = true ∨ ¬ (BetweenColumns (frontOfNumber r.events) ∨
      InColumn (frontOfNumber r.events))) := by
  cases hending : r.ending with
  | complete => exact ⟨fun _ => .inl rfl, fun _ _ _ _ => by rw [hending]; rfl⟩
  | trailing error tell => exact ⟨fun _ => .inl rfl, fun _ _ _ _ => by rw [hending]; rfl⟩
  | malformed error tell =>
    have hmalformed : r.ending.wellFormed = false := by rw [hending]; rfl
    have hscan : ∀ later : Later, ∃ c : Call, c.refused = true ∧ findBoundaries r later =
        (later.calls.foldl ColumnScanner.call
          ((ColumnScanner.top.run (tokensFrom r.tell 0 (frontOfNumber r.events))).call c)).fail
            later.error later.tell := by
      intro later
      obtain ⟨c, hc, hcalls⟩ := @scanCalls_eq r.tell later.calls (.fails error tell) rfl r.events 0
      refine ⟨c, hc, ?_⟩
      unfold findBoundaries Reading.calls
      rw [hending]
      dsimp only
      rw [Reading.tokens, hcalls, List.foldl_append, map_reports _ not_number_of_front]
      rfl
    constructor
    · intro hstrict
      refine .inr fun hopen => ?_
      obtain ⟨c, hc, hfind⟩ := hscan ⟨[], error, tell⟩
      obtain ⟨found, hfound⟩ :=
        (@ColumnScanner.open_of_columns r.tell _ not_number_of_front hopen).succeeds hc error tell
      have hwhole := hstrict ⟨[], error, tell⟩ found (hfind.trans hfound)
      rw [hmalformed] at hwhole
      cases hwhole
    · intro h later found hfound
      have hclosed := h.resolve_left (by rw [Ending.wellFormed]; simp)
      obtain ⟨c, hc, hfind⟩ := hscan later
      have hreports : (ColumnScanner.top.run
          (tokensFrom r.tell 0 (frontOfNumber r.events))).Reports := by
        by_cases hstart : (frontOfNumber r.events).head? = some .startObject
        · obtain ⟨v, hbegin, hne⟩ := r.viable hmalformed
          have hfront : frontOfNumber r.events <+: r.events := List.takeWhile_prefix _
          obtain ⟨rest, hrest⟩ := List.head?_eq_some_iff.mp hstart
          have hfront' : .startObject :: rest <+: events v := hrest ▸ hfront.trans hbegin
          have hne' : .startObject :: rest ≠ events v := by
            intro heq
            rw [← hrest] at heq
            exact hne (hbegin.eq_of_length_le (heq ▸ hfront.length_le))
          have hstopped : Stopped (frontOfNumber r.events) :=
            hrest ▸ stopped_of_prefix hfront' hne'
          exact ColumnScanner.reports_of_stopped not_number_of_front hstopped hclosed
        · exact ColumnScanner.reports_of_other_start not_number_of_front hstart
      obtain ⟨e, he⟩ := hreports.error hc
      rw [hfind, he, ColumnScanner.calls_returned] at hfound
      cases hfound

end Scan

/-- **Malformed text is taken for a table** exactly where it breaks off between two columns, or, by
the scan, in a column; and the scan takes no notice of what is behind the first number. So whatever
the parser reports of a text: the inference is strict with it if and only if the text is well-formed
up to the end of its top-level value, or breaks off elsewhere. So is the scan, whatever the calls
behind a failed one report. -/
theorem malformed_table_iff (parse : List UInt8 → Reading) (arrow : Externals) (slots : Slots)
    (text : List UInt8) :
    (InferenceStrict arrow slots (parse text) ↔
      ((parse text).ending.wellFormed = true ∨ ¬ BetweenColumns (parse text).events)) ∧
    (ScanStrict (parse text) ↔
      ((parse text).ending.wellFormed = true ∨
        ¬ (BetweenColumns (frontOfNumber (parse text).events) ∨
          InColumn (frontOfNumber (parse text).events)))) :=
  ⟨inferenceStrict_iff arrow slots (parse text), scanStrict_iff (parse text)⟩

/-- `{"a":[]`, which breaks off behind a column. -/
def brokenOff : Reading where
  events := [.startObject, .key "a", .startArray, .endArray 0]
  tell := fun i => [1, 4, 6, 7].getD i 7
  ending := .malformed "Missing a comma or \x7d after an object member." 7
  whole := fun h => by cases h
  viable := fun _ => ⟨.object [("a", .array [])],
    ⟨[.endObject 1], by simp [events, memberEvents, elementEvents]⟩,
    by simp [events, memberEvents, elementEvents]⟩

/-- A text whose first call fails. -/
def failsAtOnce : Reading where
  events := []
  tell := fun _ => 0
  ending := .malformed "The document is empty." 0
  whole := fun h => by cases h
  viable := fun _ => ⟨.null, List.nil_prefix, by simp [events]⟩

/-- What rapidjson reports of that text. -/
def parseBrokenOff (text : List UInt8) : Reading :=
  if text = [123, 34, 97, 34, 58, 91, 93] then brokenOff else failsAtOnce

/-- The inference and the scan both find the column `a`. -/
theorem column_before_error :
    let arrow : Externals := ⟨fun _ => none, fun _ => "", fun _ => ""⟩
    let text : List UInt8 := [123, 34, 97, 34, 58, 91, 93]
    inferTable arrow (fun _ => none) (parseBrokenOff text) =
      some (.ok (.columnObject [("a", .null)] [("a", ⟨5, 2⟩)])) ∧
    (∀ later, findBoundaries (parseBrokenOff text) later = .ok [("a", ⟨5, 2⟩)]) ∧
    (parseBrokenOff text).ending.wellFormed = false ∧
    ¬ ∀ (parse : List UInt8 → Reading) (arrow : Externals) (slots : Slots) (text : List UInt8),
      InferenceStrict arrow slots (parse text) ∧ ScanStrict (parse text) := by
  intro arrow text
  have hinfer : inferTable arrow (fun _ => none) (parseBrokenOff text) =
      some (.ok (.columnObject [("a", .null)] [("a", ⟨5, 2⟩)])) := by rfl
  refine ⟨hinfer, fun later => ?_, rfl, fun h => ?_⟩
  · unfold findBoundaries
    have hcalls :
        (scanCalls later.calls (parseBrokenOff text).calls).foldl ColumnScanner.call .top =
        later.calls.foldl ColumnScanner.call (.returned (.ok [("a", ⟨5, 2⟩)])) := by rfl
    rw [hcalls, ColumnScanner.calls_returned]
    rfl
  · have hstrict := (h parseBrokenOff arrow (fun _ => none) text).1 _ hinfer rfl
    cases hstrict

end Haybarn.Json
