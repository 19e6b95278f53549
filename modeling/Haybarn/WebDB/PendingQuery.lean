import Haybarn.Lib.Run

/-!
# Pending queries of a connection

`WebDB::Connection` (`webdb.cc`) runs a script statement by statement: `PendingQuery` extracts
the statements and starts the first one, `PollPendingQuery` executes tasks of the one that is
pending and starts the next one when it is done, `CancelPendingQuery` interrupts it, and
`FetchQueryResults` reads the result of the last one.

Mirroring notes:

* what DuckDB answers is up to the event: every call returns whatever it can return, or
  throws. A pending result is a number that is new for each one that DuckDB returns;
* `std::move` out of `current_pending_statements_[i]` leaves an empty pointer there, which is
  `none`;
* a turn of the loop of `PollPendingQuery` carries the time that has elapsed after it. A list
  of turns that ends too early or too late is not an event;
* the schemas, and the dictionaries that were sent, are left out;
* `log` records what is done to the pending results, `produced` whether the last statement of
  the script has been executed. No function reads either.

`pending_query_correct` is about the calls in an orderly run; `cancel_after_last_result` shows
what `CancelPendingQuery` does after the last one, where the pending result is not reset.
-/

namespace Haybarn.WebDB

open Haybarn.Lib

abbrev Statement := Nat

/-- A `PendingQueryResult` of DuckDB. -/
abbrev Pending := Nat

inductive PendingExecutionResult
  | RESULT_READY | RESULT_NOT_READY | EXECUTION_ERROR | BLOCKED | NO_TASKS_AVAILABLE
  | EXECUTION_FINISHED
  deriving DecidableEq, Repr

/-- What `connection_.PendingQuery` does. -/
inductive Started
  | threw
  /-- It returns a result that has an error. -/
  | failed
  | ok
  deriving DecidableEq, Repr

/-- What DuckDB does in one turn of the loop of `PollPendingQuery`, and the time after it. -/
structure Turn where
  /-- `ExecuteTask`, which may throw. -/
  task : Option PendingExecutionResult
  /-- `Execute` throws. -/
  executeThrows : Bool := false
  /-- `PendingQuery` for the next statement. -/
  next : Started := .ok
  elapsed : Nat := 0
  deriving DecidableEq, Repr

/-- What a call replies. -/
inductive Reply
  /-- `nullptr` -/
  | null
  /-- The serialized schema of `StreamQueryResult`. -/
  | schema
  | chunk
  | retry
  | error (message : String)
  /-- An error of DuckDB's or arrow's. -/
  | engineError
  /-- An exception leaves the function. -/
  | threw
  | bool (b : Bool)
  deriving DecidableEq, Repr

/-- What the code does to the statements and to the pending results. -/
inductive Use
  /-- It moves out what is at the index, `none` if the index is not within the script. -/
  | picked (statement : Option (Option Statement))
  | polled (p : Pending)
  /-- `Execute` has returned. -/
  | executed (p : Pending)
  /-- `CancelPendingQuery` returns `true`. -/
  | canceled (produced : Bool)
  deriving DecidableEq, Repr

structure Connection where
  current_pending_statements : List (Option Statement)
  current_pending_statement_index : Nat
  current_pending_query_result : Option Pending
  current_pending_query_was_canceled : Bool
  /-- `current_query_result_ != nullptr` -/
  current_query_result : Bool
  /-- The flag that `Interrupt` sets and `ClearInterrupt` clears. -/
  interrupted : Bool
  nextPending : Pending
  produced : Bool
  log : List Use
  deriving DecidableEq, Repr

namespace Connection

def initial : Connection where
  current_pending_statements := []
  current_pending_statement_index := 0
  current_pending_query_result := none
  current_pending_query_was_canceled := false
  current_query_result := false
  interrupted := false
  nextPending := 0
  produced := false
  log := []

def use (c : Connection) (u : Use) : Connection := { c with log := c.log ++ [u] }

/-- `std::move(current_pending_statements_[current_pending_statement_index_])` -/
def pick (c : Connection) : Connection :=
  { c with
    current_pending_statements :=
      c.current_pending_statements.set c.current_pending_statement_index none
    log := c.log ++ [.picked c.current_pending_statements[c.current_pending_statement_index]?] }

/-- `current_pending_query_result_ = std::move(result)` with a new result. -/
def receive (c : Connection) : Connection :=
  { c with current_pending_query_result := some c.nextPending, nextPending := c.nextPending + 1 }

/-- `current_pending_query_result_.reset(); current_pending_statements_.clear();` -/
def abandon (c : Connection) : Connection :=
  { c with current_pending_query_result := none, current_pending_statements := [] }

/-- `StreamQueryResult`; importing the schema may fail. -/
def streamQueryResult (c : Connection) (importFails : Bool) : Connection × Reply :=
  ({ c with current_query_result := true, produced := true },
    if importFails then .engineError else .schema)

/-- `Execute` has returned: the last statement's result is streamed, or the next statement is
started. A reply ends the loop. -/
def advance (c : Connection) (p : Pending) (next : Started) (importFails : Bool) :
    Connection × Option Reply :=
  let executed := c.use (.executed p)
  let index := c.current_pending_statement_index + 1
  let done := { executed with current_pending_statement_index := index }
  if index = c.current_pending_statements.length then
    let (streamed, reply) := done.streamQueryResult importFails
    (streamed, some reply)
  else
    match next with
    | .threw => (done.pick, some .threw)
    | .failed => (done.pick.abandon, some .engineError)
    | .ok => (done.pick.receive, none)

/-- The `switch` of `PollPendingQuery`. -/
def turn (c : Connection) (p : Pending) (t : Turn) (importFails : Bool) :
    Connection × Option Reply :=
  let polled := c.use (.polled p)
  match t.task with
  | none => (polled, some .threw)
  | some .EXECUTION_FINISHED | some .RESULT_READY =>
    if t.executeThrows then (polled, some .threw) else polled.advance p t.next importFails
  | some .BLOCKED | some .NO_TASKS_AVAILABLE => (polled, some .null)
  | some .RESULT_NOT_READY => (polled, none)
  | some .EXECUTION_ERROR => (polled.abandon, some .engineError)

/-- The loop of `PollPendingQuery`. The last turn ends it, by a reply or by the time. -/
def pollLoop (interval : Nat) (importFails : Bool) :
    Connection → List Turn → Option (Connection × Reply)
  | _, [] => none
  | c, t :: rest =>
    match c.current_pending_query_result with
    | none => none
    | some p =>
      match c.turn p t importFails with
      | (c', some reply) => if rest = [] then some (c', reply) else none
      | (c', none) =>
        if t.elapsed < interval then pollLoop interval importFails c' rest
        else if rest = [] then some (c', .null) else none

def PollPendingQuery (interval : Nat) (importFails : Bool) (c : Connection) (turns : List Turn) :
    Option (Connection × Reply) :=
  if c.current_pending_query_was_canceled then some (c, .error "query was canceled")
  else if c.current_pending_query_result = none then some (c, .error "no active pending query")
  else c.pollLoop interval importFails turns

/-- Within `PendingQuery` an exception is caught. -/
def caught : Connection × Reply → Connection × Reply
  | (c, .threw) => (c, .engineError)
  | r => r

/-- The part of `PendingQuery` after the statements have been extracted. -/
def startScript (c : Connection) (statements : List Statement) : Connection :=
  { c with
    current_pending_statements := statements.map some
    current_pending_statement_index := 0
    produced := false }.pick

/-- `PendingQuery`; `statements` is what `ExtractStatements` returns, `none` if it throws. -/
def PendingQuery (interval : Nat) (importFails : Bool) (c : Connection)
    (statements : Option (List Statement)) (first : Started) (turns : List Turn) :
    Option (Connection × Reply) :=
  match statements, first with
  | none, _ => some (c, .engineError)
  | some [], _ => some (c, .error "no statements")
  | some script, .threw => some (c.startScript script, .engineError)
  | some script, .failed =>
    some ({ c.startScript script with current_pending_statements := [] }, .engineError)
  | some script, .ok =>
    let started := { (c.startScript script).receive with
      current_pending_query_was_canceled := false
      current_query_result := false }
    if interval > 0 then (started.PollPendingQuery interval importFails turns).map caught
    else some (started, .null)

/-- The loop of `CancelPendingQuery`: `some true` if the query has ended, `some false` if it is
blocked or an exception has been thrown. -/
def runToInterrupt : List (Option PendingExecutionResult) → Option Bool
  | [] => none
  | some .RESULT_NOT_READY :: rest => runToInterrupt rest
  | some .NO_TASKS_AVAILABLE :: rest => runToInterrupt rest
  | some .BLOCKED :: rest => if rest = [] then some false else none
  | none :: rest => if rest = [] then some false else none
  | some _ :: rest => if rest = [] then some true else none

def CancelPendingQuery (c : Connection) (tasks : List (Option PendingExecutionResult)) :
    Option (Connection × Reply) :=
  match c.current_pending_query_result, c.current_query_result with
  | some p, false =>
    (runToInterrupt tasks).map fun ended =>
      let polled := { c with log := c.log ++ tasks.map fun _ => Use.polled p }
      let dropped := { polled with interrupted := !ended, current_pending_query_was_canceled := true }
      (dropped.abandon.use (.canceled c.produced), .bool true)
  | _, _ => some (c, .bool false)

/-- What reading a streamed result does. -/
inductive Fetched
  | retry
  | error
  | chunk
  | end
  deriving DecidableEq, Repr

def FetchQueryResults (c : Connection) (fetched : Fetched) : Connection × Reply :=
  if c.current_query_result then
    match fetched with
    | .retry => (c, .retry)
    | .error => (c, .engineError)
    | .chunk => (c, .chunk)
    | .end => ({ c with current_query_result := false }, .null)
  else (c, .null)

end Connection

/-! ## Steps -/

inductive Event
  | PendingQuery (statements : Option (List Statement)) (first : Started) (turns : List Turn)
  | PollPendingQuery (turns : List Turn)
  | CancelPendingQuery (tasks : List (Option PendingExecutionResult))
  | FetchQueryResults (fetched : Connection.Fetched)
  deriving DecidableEq, Repr

/-- A call, and what it replies. `importFails` says whether arrow rejects the schema. -/
def call (interval : Nat) (c : Connection) : Bool × Event → Option (Connection × Reply)
  | (importFails, .PendingQuery statements first turns) =>
    c.PendingQuery interval importFails statements first turns
  | (importFails, .PollPendingQuery turns) => c.PollPendingQuery interval importFails turns
  | (_, .CancelPendingQuery tasks) => c.CancelPendingQuery tasks
  | (_, .FetchQueryResults fetched) => some (c.FetchQueryResults fetched)

def step (interval : Nat) (c : Connection) (e : Bool × Event) : Option Connection :=
  (call interval c e).map Prod.fst

/-! ## What the calls are allowed to do -/

/-- The use is fine after the others: a statement is picked within the script and once, a result
that was executed is neither polled nor executed again, and a cancel that returns `true` comes
before the last statement's result. -/
def Fine (log : List Use) : Use → Prop
  | .picked statement => ∃ x, statement = some (some x)
  | .polled p => .executed p ∉ log
  | .executed p => .executed p ∉ log
  | .canceled produced => produced = false

/-- Every use is fine after those before it. -/
def Correct (log : List Use) : Prop := ∀ pre u post, log = pre ++ u :: post → Fine pre u

/-- The calls reach the pending result only while it has not been executed; and when the script
of a pending result has been dropped (by a `PendingQuery` that failed), it is never ready. -/
def Orderly (c : Connection) : Bool × Event → Prop
  | (_, .PollPendingQuery turns) => c.current_pending_query_was_canceled = false →
      ∀ p ∈ c.current_pending_query_result, Use.executed p ∉ c.log ∧
        (c.current_pending_statements = [] → ∀ t ∈ turns,
          t.task ≠ some .EXECUTION_FINISHED ∧ t.task ≠ some .RESULT_READY)
  | (_, .CancelPendingQuery _) => c.current_query_result = false →
      ∀ p ∈ c.current_pending_query_result, Use.executed p ∉ c.log
  | _ => True

instance (c : Connection) : (e : Bool × Event) → Decidable (Orderly c e)
  | (_, .PollPendingQuery turns) => inferInstanceAs (Decidable (_ = false →
      ∀ p ∈ c.current_pending_query_result, Use.executed p ∉ c.log ∧
        (c.current_pending_statements = [] → ∀ t ∈ turns,
          t.task ≠ some .EXECUTION_FINISHED ∧ t.task ≠ some .RESULT_READY)))
  | (_, .CancelPendingQuery _) => inferInstanceAs (Decidable (_ = false →
      ∀ p ∈ c.current_pending_query_result, Use.executed p ∉ c.log))
  | (_, .PendingQuery ..) => inferInstanceAs (Decidable True)
  | (_, .FetchQueryResults _) => inferInstanceAs (Decidable True)

/-! ## The record -/

theorem Correct.nil : Correct [] := fun pre u post h => by simp at h

theorem Correct.snoc {log : List Use} {u : Use} (h : Correct log) (hu : Fine log u) :
    Correct (log ++ [u]) := by
  intro pre v post heq
  rcases List.eq_nil_or_concat post with rfl | ⟨post', w, rfl⟩
  · obtain ⟨rfl, hv⟩ := List.append_inj' heq rfl
    obtain rfl := List.head_eq_of_cons_eq hv
    exact hu
  · rw [List.concat_eq_append, ← List.cons_append, ← List.append_assoc] at heq
    exact h _ _ _ (List.append_inj' heq rfl).1

theorem executed_mem_poll {log : List Use} {p q : Pending} :
    Use.executed p ∈ log ++ [.polled q] ↔ Use.executed p ∈ log := by simp

theorem executed_mem_pick {log : List Use} {p : Pending} {st : Option (Option Statement)} :
    Use.executed p ∈ log ++ [.picked st] ↔ Use.executed p ∈ log := by simp

theorem executed_mem_polled {log : List Use} {p q : Pending}
    {tasks : List (Option PendingExecutionResult)} :
    Use.executed p ∈ log ++ tasks.map (fun _ => Use.polled q) ↔ Use.executed p ∈ log := by
  rw [List.mem_append, or_iff_left]
  intro h
  obtain ⟨_, -, h⟩ := List.mem_map.mp h
  cases h

/-- A result that has not been executed may be polled any number of times. -/
theorem Correct.polled {p : Pending} (tasks : List (Option PendingExecutionResult)) :
    ∀ {log : List Use}, Correct log → Use.executed p ∉ log →
      Correct (log ++ tasks.map fun _ => Use.polled p) := by
  induction tasks with
  | nil => intro log h _; rw [List.map_nil, List.append_nil]; exact h
  | cons _ rest ih =>
    intro log h hp
    rw [List.map_cons, ← List.singleton_append, ← List.append_assoc]
    refine ih (h.snoc hp) ?_
    rw [executed_mem_poll]
    exact hp

/-! ## The invariant -/

namespace Connection

/-- The pending result has not been executed. -/
def Open (c : Connection) : Prop := ∀ p ∈ c.current_pending_query_result, Use.executed p ∉ c.log

/-- The pending result is that of the statement at the index, and those after it have not been
moved out. -/
def AtIndex (c : Connection) : Prop :=
  c.current_pending_statement_index < c.current_pending_statements.length ∧
    ∀ i, c.current_pending_statement_index < i → i < c.current_pending_statements.length →
      ∃ x, c.current_pending_statements[i]? = some (some x)

structure Inv (c : Connection) : Prop where
  correct : Correct c.log
  fresh : ∀ p, Use.executed p ∈ c.log → p < c.nextPending
  old : ∀ p ∈ c.current_pending_query_result, p < c.nextPending
  index : ∀ p ∈ c.current_pending_query_result, Use.executed p ∉ c.log →
    c.current_pending_statements ≠ [] → c.AtIndex
  unproduced : ∀ p ∈ c.current_pending_query_result, Use.executed p ∉ c.log → c.produced = false

variable {c c' : Connection} {p : Pending} {interval : Nat} {importFails : Bool}

theorem initial_inv : initial.Inv := ⟨.nil, nofun, nofun, nofun, nofun⟩

theorem Inv.use_polled (h : c.Inv) (hp : Use.executed p ∉ c.log) : (c.use (.polled p)).Inv where
  correct := h.correct.snoc hp
  fresh q hq := h.fresh q ((executed_mem_poll).mp hq)
  old := h.old
  index q hq hopen := h.index q hq fun hex => hopen ((executed_mem_poll).mpr hex)
  unproduced q hq hopen := h.unproduced q hq fun hex => hopen ((executed_mem_poll).mpr hex)

theorem Inv.abandon (h : c.Inv) : c.abandon.Inv :=
  ⟨h.correct, h.fresh, nofun, nofun, nofun⟩

/-- A new pending result, for the statement that has just been picked. -/
theorem Inv.receive (hcorrect : Correct c.log)
    (hfresh : ∀ q, Use.executed q ∈ c.log → q < c.nextPending) (hindex : c.AtIndex)
    (hproduced : c.produced = false) : c.receive.Inv where
  correct := hcorrect
  fresh q hq := Nat.lt_succ_of_lt (hfresh q hq)
  old q hq := by
    obtain rfl := Option.some.inj hq
    exact Nat.lt_succ_self _
  index _ _ _ _ := hindex
  unproduced _ _ _ := hproduced

theorem receive_open (hfresh : ∀ q, Use.executed q ∈ c.log → q < c.nextPending) :
    c.receive.Open := by
  intro q hq hex
  obtain rfl := Option.some.inj hq
  exact Nat.lt_irrefl _ (hfresh _ hex)

theorem pick_atIndex (hlt : c.current_pending_statement_index < c.current_pending_statements.length)
    (hrest : ∀ i, c.current_pending_statement_index < i → i < c.current_pending_statements.length →
      ∃ x, c.current_pending_statements[i]? = some (some x)) : c.pick.AtIndex := by
  refine ⟨by simpa [pick] using hlt, fun i hi hlen => ?_⟩
  have hne : c.current_pending_statement_index ≠ i := Nat.ne_of_lt hi
  rw [pick, List.length_set] at hlen
  rw [pick, List.getElem?_set_ne hne]
  exact hrest i hi hlen

/-! ## Polling -/

/-- `Execute` returned a result: what is pending has been executed, unless the next statement has
been started. -/
theorem advance_inv {next : Started} {r : Option Reply} (h : c.Inv)
    (hp : c.current_pending_query_result = some p) (hopen : Use.executed p ∉ c.log)
    (hleft : c.current_pending_statements ≠ [])
    (hc : c.advance p next importFails = (c', r)) :
    c'.Inv ∧ (r = none → c'.Open ∧ c'.current_pending_statements ≠ []) := by
  obtain ⟨hlt, hrest⟩ := h.index p hp hopen hleft
  have hproduced := h.unproduced p hp hopen
  have hcorrect : Correct (c.log ++ [.executed p]) := h.correct.snoc hopen
  have hfresh : ∀ q, Use.executed q ∈ c.log ++ [.executed p] → q < c.nextPending := by
    intro q hq
    rcases List.mem_append.mp hq with hq | hq
    · exact h.fresh q hq
    · obtain rfl := Use.executed.inj (List.mem_singleton.mp hq)
      exact h.old q hp
  have hdone : ∀ q ∈ c.current_pending_query_result, Use.executed q ∈ c.log ++ [.executed p] := by
    intro q hq
    obtain rfl := Option.some.inj (hp.symm.trans hq)
    exact List.mem_append_right _ (List.mem_singleton_self _)
  unfold advance at hc
  dsimp only at hc
  split at hc
  next =>
    cases hc
    exact ⟨⟨hcorrect, hfresh, h.old, fun q hq hno => absurd (hdone q hq) hno,
      fun q hq hno => absurd (hdone q hq) hno⟩, nofun⟩
  next hlast =>
    have hnext : c.current_pending_statement_index + 1 < c.current_pending_statements.length := by
      have := hlt
      omega
    obtain ⟨x, hx⟩ := hrest _ (Nat.lt_succ_self _) hnext
    have hpicked : Correct (c.log ++ [.executed p] ++
        [.picked c.current_pending_statements[c.current_pending_statement_index + 1]?]) :=
      hcorrect.snoc ⟨x, hx⟩
    have hfresh' : ∀ q, Use.executed q ∈ c.log ++ [.executed p] ++
        [.picked c.current_pending_statements[c.current_pending_statement_index + 1]?] →
        q < c.nextPending :=
      fun q hq => hfresh q ((executed_mem_pick).mp hq)
    split at hc
    next =>
      cases hc
      refine ⟨⟨hpicked, hfresh', h.old, ?_, ?_⟩, nofun⟩ <;>
        exact fun q hq hno => absurd ((executed_mem_pick).mpr (hdone q hq)) hno
    next =>
      cases hc
      exact ⟨⟨hpicked, hfresh', nofun, nofun, nofun⟩, nofun⟩
    next =>
      cases hc
      refine ⟨.receive hpicked hfresh' (pick_atIndex hnext fun i hi hlen =>
        hrest i (Nat.lt_of_succ_lt hi) hlen) hproduced, fun _ => ⟨receive_open hfresh', ?_⟩⟩
      exact fun hnil => hleft ((List.set_eq_nil_iff ..).mp hnil)

/-- One turn of the loop. -/
theorem turn_inv {t : Turn} {r : Option Reply} (h : c.Inv)
    (hp : c.current_pending_query_result = some p) (hopen : Use.executed p ∉ c.log)
    (hready : c.current_pending_statements = [] →
      t.task ≠ some .EXECUTION_FINISHED ∧ t.task ≠ some .RESULT_READY)
    (hc : c.turn p t importFails = (c', r)) :
    c'.Inv ∧ (r = none → c'.Open ∧
      (c'.current_pending_statements = [] → c.current_pending_statements = [])) := by
  have hpolled := h.use_polled hopen
  have hopen' : Use.executed p ∉ c.log ++ [.polled p] := by
    rw [executed_mem_poll]
    exact hopen
  have hadvance : t.task = some .EXECUTION_FINISHED ∨ t.task = some .RESULT_READY →
      ∀ {r}, (c.use (.polled p)).advance p t.next importFails = (c', r) → c'.Inv ∧ (r = none →
        c'.Open ∧ (c'.current_pending_statements = [] → c.current_pending_statements = [])) := by
    intro htask r hc
    have hleft : c.current_pending_statements ≠ [] := fun hnil =>
      htask.elim (hready hnil).1 (hready hnil).2
    obtain ⟨hinv, hnone⟩ := advance_inv hpolled hp hopen' hleft hc
    exact ⟨hinv, fun hr => ⟨(hnone hr).1, fun hnil => absurd hnil (hnone hr).2⟩⟩
  unfold turn at hc
  dsimp only at hc
  split at hc
  next => cases hc; exact ⟨hpolled, nofun⟩
  next htask =>
    split at hc
    next => cases hc; exact ⟨hpolled, nofun⟩
    next => exact hadvance (.inl htask) hc
  next htask =>
    split at hc
    next => cases hc; exact ⟨hpolled, nofun⟩
    next => exact hadvance (.inr htask) hc
  next => cases hc; exact ⟨hpolled, nofun⟩
  next => cases hc; exact ⟨hpolled, nofun⟩
  next =>
    cases hc
    refine ⟨hpolled, fun _ => ⟨fun q hq => ?_, id⟩⟩
    obtain rfl := Option.some.inj (hp.symm.trans hq)
    exact hopen'
  next => cases hc; exact ⟨hpolled.abandon, nofun⟩

/-- The whole loop, by induction on the turns. -/
theorem pollLoop_inv {turns : List Turn} : ∀ {c : Connection} {r : Connection × Reply},
    c.Inv → c.Open → (c.current_pending_statements = [] → ∀ t ∈ turns,
      t.task ≠ some .EXECUTION_FINISHED ∧ t.task ≠ some .RESULT_READY) →
    c.pollLoop interval importFails turns = some r → r.1.Inv := by
  induction turns with
  | nil => intro c r _ _ _ hc; cases hc
  | cons t rest ih =>
    intro c r h hopen hready hc
    rw [pollLoop] at hc
    split at hc
    next => cases hc
    next p hp =>
      have hturn : ∀ {c' r'}, c.turn p t importFails = (c', r') → c'.Inv ∧ (r' = none → c'.Open ∧
          (c'.current_pending_statements = [] → c.current_pending_statements = [])) :=
        turn_inv h hp (hopen p hp) fun hnil => hready hnil t List.mem_cons_self
      split at hc
      next c' reply ht =>
        split at hc
        · cases hc; exact (hturn ht).1
        · cases hc
      next c' ht =>
        obtain ⟨hinv, hnone⟩ := hturn ht
        obtain ⟨hopen', hnil⟩ := hnone rfl
        split at hc
        · exact ih hinv hopen' (fun h' t' ht' =>
            hready (hnil h') t' (List.mem_cons_of_mem _ ht')) hc
        · split at hc
          · cases hc; exact hinv
          · cases hc

theorem PollPendingQuery_inv {turns : List Turn} {r : Connection × Reply} (h : c.Inv)
    (hok : c.current_pending_query_was_canceled = false →
      ∀ p ∈ c.current_pending_query_result, Use.executed p ∉ c.log ∧
        (c.current_pending_statements = [] → ∀ t ∈ turns,
          t.task ≠ some .EXECUTION_FINISHED ∧ t.task ≠ some .RESULT_READY))
    (hc : c.PollPendingQuery interval importFails turns = some r) : r.1.Inv := by
  unfold PollPendingQuery at hc
  split at hc
  next => cases hc; exact h
  next hcanceled =>
    split at hc
    next => cases hc; exact h
    next hsome =>
      obtain ⟨p, hp⟩ := Option.ne_none_iff_exists'.mp hsome
      have hok := hok (Bool.eq_false_iff.mpr hcanceled)
      exact pollLoop_inv h (fun q hq => (hok q hq).1) (hok p hp).2 hc

/-! ## The other calls -/

/-- The first statement of a script is moved out, the others are still there. -/
theorem startScript_spec {script : List Statement} (h : c.Inv) (hscript : script ≠ []) :
    Correct (c.startScript script).log ∧
      (∀ q, Use.executed q ∈ (c.startScript script).log ↔ Use.executed q ∈ c.log) ∧
      (c.startScript script).AtIndex := by
  have hpos : 0 < (script.map some).length := by
    rw [List.length_map]
    exact List.length_pos_iff.mpr hscript
  refine ⟨h.correct.snoc ?_, fun q => executed_mem_pick, pick_atIndex hpos fun i _ hi => ?_⟩
  · exact ⟨script.get ⟨0, by simpa using hpos⟩, by simp⟩
  · have hlt : i < script.length := by simpa using hi
    exact ⟨script[i], by simp [List.getElem?_eq_getElem hlt]⟩

theorem PendingQuery_inv {statements : Option (List Statement)} {first : Started}
    {turns : List Turn} {r : Connection × Reply} (h : c.Inv)
    (hc : c.PendingQuery interval importFails statements first turns = some r) : r.1.Inv := by
  unfold PendingQuery at hc
  split at hc
  next => cases hc; exact h
  next => cases hc; exact h
  next script hscript =>
    cases hc
    obtain ⟨hcorrect, hmem, hindex⟩ := startScript_spec h hscript
    exact ⟨hcorrect, fun q hq => h.fresh q ((hmem q).mp hq), h.old, fun _ _ _ _ => hindex,
      fun _ _ _ => rfl⟩
  next script hscript =>
    cases hc
    obtain ⟨hcorrect, hmem, -⟩ := startScript_spec h hscript
    exact ⟨hcorrect, fun q hq => h.fresh q ((hmem q).mp hq), h.old,
      fun _ _ _ hne => absurd rfl hne, fun _ _ _ => rfl⟩
  next script hscript =>
    obtain ⟨hcorrect, hmem, hindex⟩ := startScript_spec h hscript
    have hfresh : ∀ q, Use.executed q ∈ (c.startScript script).log → q < c.nextPending :=
      fun q hq => h.fresh q ((hmem q).mp hq)
    have hstarted : (c.startScript script).receive.Inv := .receive hcorrect hfresh hindex rfl
    -- The two flags that are reset play no part in the invariant.
    have hinv : { (c.startScript script).receive with
        current_pending_query_was_canceled := false, current_query_result := false }.Inv :=
      ⟨hstarted.correct, hstarted.fresh, hstarted.old, hstarted.index, hstarted.unproduced⟩
    dsimp only at hc
    split at hc
    next =>
      obtain ⟨r', hr', rfl⟩ := Option.map_eq_some_iff.mp hc
      have hpolled : r'.1.Inv := by
        refine PollPendingQuery_inv hinv (fun _ p hp => ⟨receive_open hfresh p hp, ?_⟩) hr'
        intro hnil
        have hlen := hindex.1
        rw [show (c.startScript script).current_pending_statements = [] from hnil] at hlen
        exact absurd hlen (Nat.not_lt_zero _)
      unfold caught
      split <;> exact hpolled
    next => cases hc; exact hinv

theorem CancelPendingQuery_inv {tasks : List (Option PendingExecutionResult)}
    {r : Connection × Reply} (h : c.Inv) (hok : c.current_query_result = false → c.Open)
    (hc : c.CancelPendingQuery tasks = some r) : r.1.Inv := by
  unfold CancelPendingQuery at hc
  split at hc
  next p hp hresult =>
    obtain ⟨ended, -, rfl⟩ := Option.map_eq_some_iff.mp hc
    have hopen := hok hresult p hp
    have hcorrect := (h.correct.polled tasks hopen).snoc
      (u := .canceled c.produced) (h.unproduced p hp hopen)
    refine ⟨hcorrect, fun q hq => h.fresh q ?_, nofun, nofun, nofun⟩
    have hq : Use.executed q ∈ c.log ++ (tasks.map fun _ => Use.polled p) ++
        [.canceled c.produced] := hq
    rw [List.mem_append, List.mem_singleton, or_iff_left nofun, executed_mem_polled] at hq
    exact hq
  next => cases hc; exact h

theorem FetchQueryResults_inv (h : c.Inv) (fetched : Fetched) :
    (c.FetchQueryResults fetched).1.Inv := by
  unfold FetchQueryResults
  split
  · cases fetched with
    | «end» => exact ⟨h.correct, h.fresh, h.old, h.index, h.unproduced⟩
    | retry => exact h
    | error => exact h
    | chunk => exact h
  · exact h

end Connection

/-! ## Runs -/

open Connection

theorem step_inv {interval : Nat} {c c' : Connection} {e : Bool × Event} (h : c.Inv)
    (hok : Orderly c e) (hs : step interval c e = some c') : c'.Inv := by
  obtain ⟨r, hr, rfl⟩ := Option.map_eq_some_iff.mp hs
  obtain ⟨importFails, e⟩ := e
  cases e with
  | PendingQuery statements first turns => exact PendingQuery_inv h hr
  | PollPendingQuery turns => exact PollPendingQuery_inv h hok hr
  | CancelPendingQuery tasks => exact CancelPendingQuery_inv h hok hr
  | FetchQueryResults fetched =>
    obtain rfl := Option.some.inj hr
    exact FetchQueryResults_inv h fetched

/-- **The pending-query state machine.** In every run whose calls reach a pending result only
before it has been executed, statements are picked within the script, no result is used after it
has been executed, and a cancel that returns `true` comes before the last result. -/
theorem pending_query_correct {interval : Nat} {es : List (Bool × Event)} {c : Connection}
    (hrun : Run (step interval) Orderly .initial es c) : Correct c.log :=
  (hrun.invariant initial_inv fun _ _ _ h hok hs => step_inv h hok hs).correct

/-- A script of two statements: the first is done in the first call, the second is polled,
canceled, and polled again. -/
def canceledScript : List (Bool × Event) :=
  [(false, .PendingQuery (some [7, 8]) .ok
      [{ task := some .RESULT_NOT_READY }, { task := some .RESULT_READY, elapsed := 100 }]),
    (false, .PollPendingQuery [{ task := some .BLOCKED }]),
    (false, .CancelPendingQuery [some .RESULT_NOT_READY, some .EXECUTION_ERROR]),
    (false, .PollPendingQuery [])]

theorem pending_query_correct_canceled :
    ∃ c, Run (step 100) Orderly .initial canceledScript c ∧ c.log.length = 9 ∧ Correct c.log := by
  have hrun : Run (step 100) Orderly .initial canceledScript _ := .of_execute rfl
  exact ⟨_, hrun, rfl, pending_query_correct hrun⟩

/-- The last statement's result has been streamed and read to its end; the pending result is
still there, and a cancel returns `true`. -/
theorem cancel_after_last_result : ∃ c c', Run (step 100) Always .initial
    [(false, .PendingQuery (some [7]) .ok [{ task := some .RESULT_READY }]),
      (false, .FetchQueryResults .chunk), (false, .FetchQueryResults .end)] c ∧
    call 100 c (false, .CancelPendingQuery [none]) = some (c', .bool true) ∧
    c.produced = true ∧ ¬ Correct c'.log := by
  refine ⟨_, _, .of_execute rfl, rfl, rfl, fun h => ?_⟩
  have hcancel : true = false := h _ (.canceled true) [] rfl
  cases hcancel

end Haybarn.WebDB
