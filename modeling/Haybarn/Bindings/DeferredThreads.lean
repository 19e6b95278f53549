import Haybarn.Lib.JsMap
import Haybarn.Lib.Regex
import Haybarn.Lib.Run

/-!
# Single-threaded extension loads

A `LOAD` or `INSTALL` runs with the database's `threads` setting at 1. The bindings look at the
text of a query: if it begins like an extension load they lower the setting on a connection of their
own, and remember in `_deferredThreads` what it was; the setting stays at 1 over consecutive loads,
and is restored before the next statement of another kind.

Mirroring notes:

* the text is matched with the expression itself (`EXTENSION_LOAD_RE`). What DuckDB's parser makes
  of a text is a parameter: a list of statements, of which only loads and the setting of `threads`
  are told apart (a `RESET threads` sets the default);
* a call on the database works on the statements of a script in turn: the event says how many it
  finishes. It also works on the one behind them, if there is one, which fails or goes on later. A
  statement that sets `threads` does so when it is finished;
* a pending query is worked on by `pollPendingQuery` and `fetchQueryResults`, until it has ended, is
  cancelled or is replaced. The statements from the one that is being executed are in `pending`;
* a query of the bindings' own may fail: the read of the setting (then the load runs as it is),
  `SET threads=1` (which throws out of the call) and the restoring `SET`;
* `prescribed` is what the configuration and the user's statements have set last, and `ran` a
  record of what was worked on and under which setting. No function reads them.

`threads_prescribed` says when every other statement runs with the threads prescribed;
`script_behind_load` is a run where it does not.
-/

namespace Haybarn.Bindings.DeferredThreads

open Haybarn.Lib

/-- A SQL statement. -/
inductive Statement
  /-- `LOAD`, `INSTALL`, `FORCE INSTALL` -/
  | load
  /-- `SET threads=n` -/
  | setThreads (n : Nat)
  | other
  deriving DecidableEq, Repr

/-- The source of the expression, whose flag is `i`. -/
def EXTENSION_LOAD_SOURCE : List Char :=
  "^\\s*(?:--[^\\n]*\\n\\s*|\\/\\*[\\s\\S]*?\\*\\/\\s*)*(?:force\\s+)?(?:install|load)\\b".toList

def EXTENSION_LOAD_RE : Option Regex :=
  (Regex.parse EXTENSION_LOAD_SOURCE).map Regex.ignoreCase

/-- `EXTENSION_LOAD_RE.test(text)` -/
def isExtensionLoad (text : List Char) : Prop := ∃ r ∈ EXTENSION_LOAD_RE, r.Test text

instance (text : List Char) : Decidable (isExtensionLoad text) :=
  inferInstanceAs (Decidable (∃ r ∈ EXTENSION_LOAD_RE, r.Test text))

/-- A statement that was worked on, the setting then, and what was prescribed then. -/
structure Ran where
  statement : Statement
  threads : Nat
  prescribed : Nat
  deriving DecidableEq, Repr

/-- Which of the bindings' own queries fail. -/
structure Own where
  readFails : Bool := false
  setFails : Bool := false
  restoreFails : Bool := false
  deriving DecidableEq, Repr

abbrev ConnId := Nat

structure State where
  /-- `_config?.singleThreadedExtensionLoad !== false` -/
  enabled : Bool
  deferredThreads : Option Nat
  /-- The `threads` setting of the database. -/
  threads : Nat
  pending : JsMap ConnId (List Statement)
  prescribed : Nat
  ran : List Ran
  deriving DecidableEq, Repr

namespace State

/-- A database that has been opened with a thread count. -/
def opened (threads : Nat) (enabled : Bool) (ran : List Ran) : State :=
  ⟨enabled, none, threads, [], threads, ran⟩

/-! ## The database -/

/-- A statement is worked on. -/
def touch (s : State) (statement : Statement) : State :=
  { s with ran := s.ran ++ [⟨statement, s.threads, s.prescribed⟩] }

/-- A statement is finished. -/
def finish (s : State) : Statement → State
  | .setThreads n => { s with threads := n, prescribed := n }
  | _ => s

/-- Finish `k` of the statements and work on the next one. -/
def work (s : State) : List Statement → Nat → State
  | [], _ => s
  | statement :: _, 0 => s.touch statement
  | statement :: rest, k + 1 => ((s.touch statement).finish statement).work rest k

/-! ## The bindings -/

def restoreDeferredThreads (s : State) (own : Own) : State :=
  match s.deferredThreads with
  | none => s
  | some threads =>
    if own.restoreFails then s else { s with threads := threads, deferredThreads := none }

/-- What is done before `work()`; `none` if it throws. -/
def withSingleThreadedExtensionLoad (s : State) (text : List Char) (own : Own) : Option State :=
  if s.enabled = false then some s
  else if ¬ isExtensionLoad text then some (s.restoreDeferredThreads own)
  -- still single-threaded from the previous LOAD
  else if s.deferredThreads.isSome then some s
  else if own.readFails ∨ s.threads ≤ 1 then some s
  else if own.setFails then none
  else some { s with threads := 1, deferredThreads := some s.threads }

/-- A call that throws before it works changes nothing. -/
def runQuery (parse : List Char → List Statement) (s : State) (text : List Char) (k : Nat)
    (own : Own) : State :=
  match s.withSingleThreadedExtensionLoad text own with
  | none => s
  | some s => s.work (parse text) k

def startPendingQuery (parse : List Char → List Statement) (s : State) (conn : ConnId)
    (text : List Char) (k : Nat) (own : Own) : State :=
  match s.withSingleThreadedExtensionLoad text own with
  | none => s
  | some s =>
    { s with pending := s.pending.set conn ((parse text).drop k) }.work (parse text) k

/-- `pollPendingQuery` and `fetchQueryResults`, where there is something to work on. -/
def poll (s : State) (conn : ConnId) (k : Nat) : State :=
  match s.pending.get conn with
  | none => s
  | some rest => { s with pending := s.pending.set conn (rest.drop k) }.work rest k

/-- `runPrepared`, `sendPrepared` and the insertions. -/
def runStatement (s : State) (statement : Statement) (k : Nat) (own : Own) : State :=
  (s.restoreDeferredThreads own).work [statement] k

/-- A prepared statement whose result is streamed. -/
def sendPrepared (s : State) (conn : ConnId) (statement : Statement) (own : Own) : State :=
  let s := s.restoreDeferredThreads own
  { s with pending := s.pending.set conn [statement] }.work [statement] 0

end State

inductive Event
  /-- `open` and `reset`. -/
  | opened (threads : Nat) (enabled : Bool)
  | runQuery (text : List Char) (k : Nat) (own : Own)
  | startPendingQuery (conn : ConnId) (text : List Char) (k : Nat) (own : Own)
  | poll (conn : ConnId) (k : Nat)
  /-- A pending query has ended, is cancelled or is given up. -/
  | ended (conn : ConnId)
  | createPrepared (own : Own)
  | runPrepared (statement : Statement) (k : Nat) (own : Own)
  | sendPrepared (conn : ConnId) (statement : Statement) (own : Own)
  | insert (k : Nat) (own : Own)
  deriving DecidableEq, Repr

def step (parse : List Char → List Statement) (s : State) : Event → Option State
  | .opened threads enabled => some (.opened threads enabled s.ran)
  | .runQuery text k own => some (s.runQuery parse text k own)
  | .startPendingQuery conn text k own => some (s.startPendingQuery parse conn text k own)
  | .poll conn k => some (s.poll conn k)
  | .ended conn => some { s with pending := s.pending.delete conn }
  | .createPrepared own => some (s.restoreDeferredThreads own)
  | .runPrepared statement k own => some (s.runStatement statement k own)
  | .sendPrepared conn statement own => some (s.sendPrepared conn statement own)
  | .insert k own => some (s.runStatement .other k own)

/-! ## The condition -/

/-- The text is taken for an extension load, and the setting is or is put at 1 for it. -/
def State.Defers (s : State) (text : List Char) (own : Own) : Prop :=
  s.enabled = true ∧ isExtensionLoad text ∧
    (s.deferredThreads.isSome ∨ (own.readFails = false ∧ own.setFails = false ∧ 1 < s.threads))

/-- While the setting is at 1 for them, only extension loads are worked on: a script that begins
like an extension load consists of such loads, and a pending query that is polled has nothing else
left. And the restoring `SET` succeeds. -/
def Fits (parse : List Char → List Statement) (s : State) : Event → Prop
  | .opened .. => True
  | .runQuery text _ own | .startPendingQuery _ text _ own =>
    own.restoreFails = false ∧ (s.Defers text own → ∀ st ∈ parse text, st = .load)
  | .poll conn _ =>
    s.deferredThreads.isSome → ∀ rest ∈ s.pending.get conn, ∀ st ∈ rest, st = .load
  | .ended _ => True
  | .createPrepared own | .runPrepared _ _ own | .sendPrepared _ _ own | .insert _ own =>
    own.restoreFails = false

/-- Every statement but an extension load has run with the setting that was prescribed, and what is
to be restored is what is prescribed. -/
structure Prescribed (s : State) : Prop where
  ran : ∀ r ∈ s.ran, r.statement ≠ .load → r.threads = r.prescribed
  settled : s.deferredThreads = none → s.threads = s.prescribed
  deferred : ∀ n, s.deferredThreads = some n → n = s.prescribed
  enabled : s.deferredThreads.isSome → s.enabled = true

variable {s s' : State} {parse : List Char → List Statement} {own : Own} {text : List Char}

namespace Prescribed

/-- Nothing is deferred, and the setting is the one prescribed. -/
theorem of_settled (hran : ∀ r ∈ s.ran, r.statement ≠ .load → r.threads = r.prescribed)
    (hnone : s.deferredThreads = none) (heq : s.threads = s.prescribed) : Prescribed s := by
  refine ⟨hran, fun _ => heq, fun n hn => ?_, fun hd => ?_⟩
  · rw [hnone] at hn
    cases hn
  · rw [hnone] at hd
    cases hd

theorem of_pending (h : Prescribed s) (pending : JsMap ConnId (List Statement)) :
    Prescribed { s with pending := pending } := ⟨h.ran, h.settled, h.deferred, h.enabled⟩

/-- One statement: a load, or another one while nothing is deferred. -/
theorem of_touch (h : Prescribed s) {st : Statement}
    (hst : st = .load ∨ s.deferredThreads = none) : Prescribed (s.touch st) := by
  refine ⟨fun r hr hne => ?_, h.settled, h.deferred, h.enabled⟩
  rcases List.mem_append.mp hr with hr | hr
  · exact h.ran r hr hne
  · obtain rfl := List.mem_singleton.mp hr
    rcases hst with hload | hnone
    · exact absurd hload hne
    · exact h.settled hnone

theorem of_finish (h : Prescribed s) {st : Statement}
    (hst : st = .load ∨ s.deferredThreads = none) : Prescribed (s.finish st) := by
  cases st with
  | load => exact h
  | other => exact h
  | setThreads n =>
    have hnone : s.deferredThreads = none := hst.resolve_left (by simp)
    exact of_settled h.ran hnone rfl

theorem finish_deferred (s : State) (st : Statement) :
    (s.finish st).deferredThreads = s.deferredThreads := by
  cases st <;> rfl

/-- **The statements of a script.** -/
theorem of_work {sts : List Statement} (h : Prescribed s)
    (hall : s.deferredThreads.isSome → ∀ st ∈ sts, st = .load) (k : Nat) :
    Prescribed (s.work sts k) := by
  induction sts generalizing s k with
  | nil => cases k <;> exact h
  | cons st rest ih =>
    have hst : st = .load ∨ s.deferredThreads = none := by
      cases hd : s.deferredThreads with
      | none => exact .inr rfl
      | some n => exact .inl (hall (by rw [hd]; rfl) st (List.mem_cons_self ..))
    have htouch := h.of_touch hst
    cases k with
    | zero => exact htouch
    | succ k =>
      refine ih (htouch.of_finish hst) ?_ k
      rw [finish_deferred]
      exact fun hd st' hmem => hall hd st' (List.mem_cons_of_mem _ hmem)

/-- **What is restored is what is prescribed.** -/
theorem of_restore (h : Prescribed s) (hown : own.restoreFails = false) :
    Prescribed (s.restoreDeferredThreads own) ∧
      (s.restoreDeferredThreads own).deferredThreads = none := by
  unfold State.restoreDeferredThreads
  split
  next hnone => exact ⟨h, hnone⟩
  next n hsome =>
    rw [if_neg (by rw [hown]; simp)]
    exact ⟨of_settled h.ran rfl (h.deferred n hsome), rfl⟩

/-- Before a query: nothing is deferred behind it, or the text was taken for a load. -/
theorem of_with (h : Prescribed s) (hown : own.restoreFails = false)
    (hs : s.withSingleThreadedExtensionLoad text own = some s') :
    Prescribed s' ∧ (s'.deferredThreads.isSome → s.Defers text own) := by
  unfold State.withSingleThreadedExtensionLoad at hs
  split at hs
  next hdis =>
    obtain rfl := Option.some.inj hs
    refine ⟨h, fun hd => ?_⟩
    rw [h.enabled hd] at hdis
    cases hdis
  next hen =>
    have hen : s.enabled = true := by simpa using hen
    split at hs
    next =>
      obtain rfl := Option.some.inj hs
      obtain ⟨hp, hnone⟩ := h.of_restore hown
      exact ⟨hp, fun hd => by rw [hnone] at hd; cases hd⟩
    next hload =>
      have hload := not_not.mp hload
      split at hs
      next hd =>
        obtain rfl := Option.some.inj hs
        exact ⟨h, fun _ => ⟨hen, hload, .inl hd⟩⟩
      next hd =>
        have hnone : s.deferredThreads = none := by simpa using hd
        split at hs
        next =>
          obtain rfl := Option.some.inj hs
          exact ⟨h, fun hd' => absurd hd' hd⟩
        next hmany =>
          obtain ⟨hread, hmany⟩ := not_or.mp hmany
          split at hs
          next => cases hs
          next hset =>
            obtain rfl := Option.some.inj hs
            refine ⟨⟨h.ran, fun hn => (by cases hn), fun n hn => ?_, fun _ => hen⟩, fun _ => ?_⟩
            · obtain rfl := Option.some.inj hn
              exact h.settled hnone
            · exact ⟨hen, hload, .inr ⟨by simpa using hread, by simpa using hset, by omega⟩⟩

/-- **One event**, under the condition. -/
theorem of_step (h : Prescribed s) {e : Event} (hok : Fits parse s e)
    (hs : step parse s e = some s') : Prescribed s' := by
  cases e with
  | opened threads enabled =>
    obtain rfl := Option.some.inj hs
    exact of_settled h.ran rfl rfl
  | runQuery text k own =>
    obtain rfl := Option.some.inj hs
    unfold State.runQuery
    split
    next => exact h
    next s₁ hw =>
      obtain ⟨hp, hd⟩ := h.of_with hok.1 hw
      exact hp.of_work (fun hsome => hok.2 (hd hsome)) k
  | startPendingQuery conn text k own =>
    obtain rfl := Option.some.inj hs
    unfold State.startPendingQuery
    split
    next => exact h
    next s₁ hw =>
      obtain ⟨hp, hd⟩ := h.of_with hok.1 hw
      exact (hp.of_pending (s₁.pending.set conn ((parse text).drop k))).of_work
        (fun hsome => hok.2 (hd hsome)) k
  | poll conn k =>
    obtain rfl := Option.some.inj hs
    unfold State.poll
    split
    next => exact h
    next rest hrest =>
      exact (h.of_pending (s.pending.set conn (rest.drop k))).of_work
        (fun hsome => hok hsome rest hrest) k
  | ended conn =>
    obtain rfl := Option.some.inj hs
    exact h.of_pending _
  | createPrepared own =>
    obtain rfl := Option.some.inj hs
    exact (h.of_restore hok).1
  | runPrepared st k own =>
    obtain rfl := Option.some.inj hs
    obtain ⟨hp, hnone⟩ := h.of_restore hok
    exact hp.of_work (fun hsome => by rw [hnone] at hsome; cases hsome) k
  | sendPrepared conn st own =>
    obtain rfl := Option.some.inj hs
    obtain ⟨hp, hnone⟩ := h.of_restore hok
    exact (hp.of_pending ((s.restoreDeferredThreads own).pending.set conn [st])).of_work
      (fun hsome => by rw [hnone] at hsome; cases hsome) 0
  | insert k own =>
    obtain rfl := Option.some.inj hs
    obtain ⟨hp, hnone⟩ := h.of_restore hok
    exact hp.of_work (fun hsome => by rw [hnone] at hsome; cases hsome) k

end Prescribed

/-- **When the deferral is not seen.** Whatever DuckDB makes of the texts, in every run of queries,
pending queries, prepared statements and insertions whose steps meet the condition, every statement
but an extension load runs with the setting that the configuration and the user's statements
prescribe, and what is restored is what they prescribe. -/
theorem threads_prescribed (parse : List Char → List Statement) (threads : Nat) (enabled : Bool)
    {es : List Event} (h : Run (step parse) (Fits parse) (.opened threads enabled []) es s) :
    Prescribed s := by
  have hinitial : Prescribed (.opened threads enabled []) :=
    .of_settled (fun r hr => by cases hr) rfl rfl
  exact h.invariant hinitial fun _ _ _ hp hok hs => hp.of_step hok hs

/-! ## Two runs -/

instance (s : State) (text : List Char) (own : Own) : Decidable (s.Defers text own) :=
  inferInstanceAs (Decidable (_ ∧ _ ∧ _))

instance (parse : List Char → List Statement) (s : State) (e : Event) :
    Decidable (Fits parse s e) :=
  match e with
  | .opened .. => inferInstanceAs (Decidable True)
  | .runQuery text _ own | .startPendingQuery _ text _ own => inferInstanceAs
      (Decidable (own.restoreFails = false ∧ (s.Defers text own → ∀ st ∈ parse text, st = .load)))
  | .poll conn _ => inferInstanceAs (Decidable
      (s.deferredThreads.isSome → ∀ rest ∈ s.pending.get conn, ∀ st ∈ rest, st = .load))
  | .ended _ => inferInstanceAs (Decidable True)
  | .createPrepared own | .runPrepared _ _ own | .sendPrepared _ _ own | .insert _ own =>
    inferInstanceAs (Decidable (own.restoreFails = false))

/-- What DuckDB makes of the texts below. -/
def parseText (text : List Char) : List Statement :=
  if text = "load httpfs".toList then [.load]
  else if text = "/* spatial */ INSTALL spatial; LOAD spatial".toList then [.load, .load]
  else if text = "SET threads=2; SELECT 42".toList then [.setThreads 2, .other]
  else if text = "LOAD httpfs; SET threads=2".toList then [.load, .setThreads 2]
  else if text = "SELECT 42".toList then [.other]
  else []

/-- Two loads in a row, and a script that sets the threads and is worked on in two calls. -/
theorem threads_prescribed_loads :
    ∃ s, Run (step parseText) (Fits parseText) (.opened 4 true [])
      [.runQuery "load httpfs".toList 1 {},
        .runQuery "/* spatial */ INSTALL spatial; LOAD spatial".toList 2 {},
        .startPendingQuery 0 "SET threads=2; SELECT 42".toList 1 {}, .poll 0 0] s ∧
      s.ran.map Ran.threads = [1, 1, 1, 4, 2, 2] ∧ Prescribed s := by
  obtain ⟨s, hrun, hs⟩ := Run.exists_of_execute (show (execute (step parseText) (Fits parseText)
      (.opened 4 true []) [.runQuery "load httpfs".toList 1 {},
        .runQuery "/* spatial */ INSTALL spatial; LOAD spatial".toList 2 {},
        .startPendingQuery 0 "SET threads=2; SELECT 42".toList 1 {}, .poll 0 0]).map
      (fun s => decide (s.ran.map Ran.threads = [1, 1, 1, 4, 2, 2])) = some true
    by decide +kernel)
  exact ⟨s, hrun, of_decide_eq_true hs, threads_prescribed parseText 4 true hrun⟩

/-- A script that begins with a load: the `SET` behind it runs with one thread, and is overridden
before the next query. -/
theorem script_behind_load :
    ∃ s, Run (step parseText) Always (.opened 4 true [])
      [.runQuery "LOAD httpfs; SET threads=2".toList 2 {}, .runQuery "SELECT 42".toList 1 {}] s ∧
      s.ran = [⟨.load, 1, 4⟩, ⟨.setThreads 2, 1, 4⟩, ⟨.other, 4, 2⟩] ∧ ¬ Prescribed s := by
  obtain ⟨s, hrun, hs⟩ := Run.exists_of_execute (show (execute (step parseText) Always
      (.opened 4 true []) [.runQuery "LOAD httpfs; SET threads=2".toList 2 {},
        .runQuery "SELECT 42".toList 1 {}]).map
      (fun s => decide (s.ran = [⟨.load, 1, 4⟩, ⟨.setThreads 2, 1, 4⟩, ⟨.other, 4, 2⟩])) =
        some true by decide +kernel)
  have hran := of_decide_eq_true hs
  refine ⟨s, hrun, hran, fun hp => ?_⟩
  have hmem : (⟨.other, 4, 2⟩ : Ran) ∈ s.ran := by
    rw [hran]
    simp
  have heq : 4 = 2 := hp.ran _ hmem (by simp)
  omega

end Haybarn.Bindings.DeferredThreads
