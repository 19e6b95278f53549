import Haybarn.Lib.Run

/-!
# The cancel watcher of the worker dispatcher

`worker_dispatcher.ts` answers the requests of all connections on one worker. While a
pending query runs, an interval timer watches a flag in shared memory and cancels the query
when the flag is raised. There is one watcher for all connections: `_startCancelWatch`
arms it, `_stopCancelWatch` disarms it, and both are called from the handlers of several
requests.

Mirroring notes:

* one event is what the worker's event loop runs in one go: an arriving message, a message
  that has waited for the prefetches, a tick of an interval, the end of an instantiation.
  Of the handlers that await (`OPEN`, `PREFETCH_EXTENSIONS`, `REGISTER_FILE_HANDLE`,
  `REGISTER_OPFS_FILE_NAME`) the part after the `await` touches nothing that is modelled
  here, its error path included;
* what the bindings do is up to the event: each call throws or returns, and
  `startPendingQuery` and `pollPendingQuery` return a result or `null`. A call on bindings
  that are `null` throws;
* a request carries the connection that its handler reads; the responses are left out;
* the main thread writes the flag whenever it likes, and may register another flag;
* `armedFor` and `cancels` are a record that no handler reads.

`cancel_watch_isolated` says exactly when a run keeps the watcher of one connection apart from
the requests of the others; `poll_disarms_other_connection` is a run that does not.
-/

namespace Haybarn.Worker

open Haybarn.Lib

abbrev ConnId := Nat
abbrev TimerId := Nat

/-- A view of a shared 4-byte buffer (`Int32Array`). -/
abbrev Flag := Nat

inductive WorkerRequestType
  | CANCEL_PENDING_QUERY | CLOSE_PREPARED | COLLECT_FILE_STATISTICS | REGISTER_OPFS_FILE_NAME
  | CONNECT | COPY_FILE_TO_BUFFER | COPY_FILE_TO_PATH | CREATE_PREPARED | DISCONNECT | DROP_FILE
  | DROP_FILES | EXPORT_FILE_STATISTICS | FETCH_QUERY_RESULTS | FLUSH_FILES | GET_FEATURE_FLAGS
  | GET_INTERRUPT_HANDLE | GET_TABLE_NAMES | GET_VERSION | GLOB_FILE_INFOS
  | INSERT_ARROW_FROM_IPC_STREAM | INSERT_CSV_FROM_PATH | INSERT_JSON_FROM_PATH | INSTANTIATE
  | OPEN | PING | POLL_PENDING_QUERY | PREFETCH_EXTENSIONS | REGISTER_FILE_BUFFER
  | REGISTER_FILE_HANDLE | REGISTER_FILE_URL | RESET | RUN_PREPARED | RUN_QUERY | SEND_PREPARED
  | START_PENDING_QUERY | TOKENIZE
  deriving DecidableEq, Repr

structure WorkerRequest where
  type : WorkerRequestType
  /-- The connection in `request.data`. -/
  conn : ConnId := 0
  deriving DecidableEq, Repr

/-- What a call of the bindings does. -/
inductive Outcome
  | threw
  /-- It returns, and `result` says whether what it returns is not `null`. -/
  | returned (result : Bool)
  deriving DecidableEq, Repr

/-- What the calls of one handler do. -/
structure Calls where
  /-- `cancelPendingQuery` in `_attemptCancel` throws. -/
  cancelThrows : Bool := false
  call : Outcome
  deriving DecidableEq, Repr

/-- A cancel that a raised flag has caused, and the watcher that was armed then. -/
structure Cancel where
  watcher : Option TimerId
  conn : ConnId
  deriving DecidableEq, Repr

structure Dispatcher where
  /-- `_bindings !== null` -/
  bindings : Bool
  cancelWatcher : Option TimerId
  cancelConn : Option ConnId
  cancelInt32 : Option Flag
  /-- `globalThis.cancelInt32` -/
  globalInt32 : Option Flag
  flags : Flag → Int
  /-- The intervals that have not been cleared, each with the view its callback captured. -/
  intervals : List (TimerId × Flag)
  nextTimer : TimerId
  /-- The requests that wait for the prefetches. -/
  waiting : List WorkerRequest
  /-- The requests whose `instantiate` has not ended. -/
  instantiating : Nat
  /-- Which connection each watcher was armed for. -/
  armedFor : TimerId → Option ConnId
  cancels : List Cancel

namespace Dispatcher

def initial : Dispatcher where
  bindings := false
  cancelWatcher := none
  cancelConn := none
  cancelInt32 := none
  globalInt32 := none
  flags _ := 0
  intervals := []
  nextTimer := 0
  waiting := []
  instantiating := 0
  armedFor _ := none
  cancels := []

/-! ## The watcher -/

def clearInterval (d : Dispatcher) (w : TimerId) : Dispatcher :=
  { d with intervals := d.intervals.filter fun i => i.1 ≠ w }

def startCancelWatch (d : Dispatcher) (connId : ConnId) : Dispatcher :=
  match d.globalInt32 with
  | none => d
  | some int32 =>
    let cleared :=
      match d.cancelWatcher with
      | some w => d.clearInterval w
      | none => d
    { cleared with
      cancelConn := some connId
      cancelInt32 := some int32
      cancelWatcher := some d.nextTimer
      intervals := cleared.intervals ++ [(d.nextTimer, int32)]
      nextTimer := d.nextTimer + 1
      armedFor := Function.update d.armedFor d.nextTimer (some connId) }

/-- The flag is zeroed only after `cancelPendingQuery` has returned. -/
def attemptCancel (d : Dispatcher) (w : Option TimerId) (int32 : Flag) (conn : Option ConnId)
    (cancelThrows : Bool) : Dispatcher :=
  match conn, d.bindings with
  | some c, true =>
    let called := { d with cancels := d.cancels ++ [⟨w, c⟩] }
    if cancelThrows then called else { called with flags := Function.update d.flags int32 0 }
  | _, _ => d

def stopCancelWatch (d : Dispatcher) : Dispatcher :=
  let cleared :=
    match d.cancelWatcher with
    | some w => { d.clearInterval w with cancelWatcher := none }
    | none => d
  { cleared with cancelConn := none, cancelInt32 := none }

/-- The callback of an interval. -/
def tick (d : Dispatcher) (w : TimerId) (int32 : Flag) (cancelThrows : Bool) : Dispatcher :=
  if d.flags int32 = 1 then d.attemptCancel (some w) int32 d.cancelConn cancelThrows else d

/-! ## The requests -/

/-- The synchronous check at the top of `POLL_PENDING_QUERY`. -/
def checkFlag (d : Dispatcher) (conn : ConnId) (cancelThrows : Bool) : Dispatcher :=
  match d.cancelInt32 with
  | some int32 =>
    if some conn = d.cancelConn ∧ d.flags int32 = 1 then
      d.attemptCancel d.cancelWatcher int32 d.cancelConn cancelThrows
    else d
  | none => d

/-- The `catch` of `onMessage`. -/
def caught (d : Dispatcher) (request : WorkerRequest) : Dispatcher :=
  match d.cancelConn, request.type with
  | some c, .START_PENDING_QUERY => if request.conn = c then d.stopCancelWatch else d
  | some c, .POLL_PENDING_QUERY => if request.conn = c then d.stopCancelWatch else d
  | _, _ => d

/-- What the call does, given whether there are bindings. -/
def outcome (d : Dispatcher) (calls : Calls) : Outcome :=
  if d.bindings then calls.call else .threw

/-- The `switch` on the request types, within the `try`. -/
def handle (d : Dispatcher) (request : WorkerRequest) (calls : Calls) : Dispatcher :=
  match request.type, d.outcome calls with
  | .RESET, _ => d.stopCancelWatch
  | .OPEN, _ => d.stopCancelWatch
  | .DISCONNECT, _ => if d.cancelConn = some request.conn then d.stopCancelWatch else d
  | .START_PENDING_QUERY, .threw => (d.startCancelWatch request.conn).caught request
  | .START_PENDING_QUERY, .returned result =>
    let started := d.startCancelWatch request.conn
    if result then started.stopCancelWatch else started
  | .POLL_PENDING_QUERY, .threw => (d.checkFlag request.conn calls.cancelThrows).caught request
  | .POLL_PENDING_QUERY, .returned result =>
    let checked := d.checkFlag request.conn calls.cancelThrows
    if result then checked.stopCancelWatch else checked
  | .CANCEL_PENDING_QUERY, _ => d.stopCancelWatch
  | _, _ => d

/-- `onMessage`, up to its end or its first `await`. -/
def onMessage (d : Dispatcher) (request : WorkerRequest) (prefetchesRunning : Bool)
    (calls : Calls) : Dispatcher :=
  match request.type with
  | .PING => d
  | .INSTANTIATE => { d with instantiating := d.instantiating + 1 }
  | _ =>
    if d.bindings = false then d
    else if prefetchesRunning ∧ request.type ≠ .PREFETCH_EXTENSIONS then
      { d with waiting := d.waiting ++ [request] }
    else d.handle request calls

end Dispatcher

/-! ## Steps -/

inductive Event
  /-- The main thread writes a flag. -/
  | store (flag : Flag) (value : Int)
  /-- `init-cancel-sab` arrives. -/
  | initCancelSab (flag : Flag)
  | message (request : WorkerRequest) (prefetchesRunning : Bool) (calls : Calls)
  /-- The prefetches have ended for the request at the index. -/
  | prefetched (index : Nat) (calls : Calls)
  /-- An `instantiate` ends. -/
  | instantiated (ok : Bool)
  /-- The timer of an interval fires. -/
  | tick (index : Nat) (cancelThrows : Bool)
  deriving DecidableEq, Repr

def step (d : Dispatcher) : Event → Option Dispatcher
  | .store flag value => some { d with flags := Function.update d.flags flag value }
  | .initCancelSab flag => some { d with globalInt32 := some flag }
  | .message request prefetchesRunning calls => some (d.onMessage request prefetchesRunning calls)
  | .prefetched index calls =>
    d.waiting[index]?.map fun request =>
      { d with waiting := d.waiting.eraseIdx index }.handle request calls
  | .instantiated ok =>
    if d.instantiating = 0 then none
    else some { d with instantiating := d.instantiating - 1, bindings := ok }
  | .tick index cancelThrows => d.intervals[index]?.map fun i => d.tick i.1 i.2 cancelThrows

/-- The request whose handler the event runs. -/
def Dispatcher.handles (d : Dispatcher) : Event → Option (WorkerRequest × Calls)
  | .message request prefetchesRunning calls =>
    if request.type = .PING ∨ request.type = .INSTANTIATE ∨ d.bindings = false ∨
        prefetchesRunning ∧ request.type ≠ .PREFETCH_EXTENSIONS then none
    else some (request, calls)
  | .prefetched index calls => d.waiting[index]?.map (·, calls)
  | _ => none

/-! ## Isolation -/

/-- A watcher that runs, and the connection it was armed for. -/
def Dispatcher.Armed (d : Dispatcher) (w : TimerId) (c : ConnId) : Prop :=
  (∃ int32, (w, int32) ∈ d.intervals) ∧ d.armedFor w = some c

/-- The events that may disarm a watcher for `c`: those of `c` itself, those that reset or
open the database, and a newer arming. -/
inductive MayDisarm (registered : Option Flag) (c : ConnId) (request : WorkerRequest)
    (outcome : Outcome) : Prop
  | result (htype : request.type = .START_PENDING_QUERY ∨ request.type = .POLL_PENDING_QUERY)
      (hconn : request.conn = c) (hresult : outcome ≠ .returned false)
  | cancelled (htype : request.type = .CANCEL_PENDING_QUERY) (hconn : request.conn = c)
  | disconnected (htype : request.type = .DISCONNECT) (hconn : request.conn = c)
  | database (htype : request.type = .RESET ∨ request.type = .OPEN)
  | rearmed (htype : request.type = .START_PENDING_QUERY) (hflag : registered ≠ none)

/-- What the claim of isolation says of one step. -/
structure Isolated (d : Dispatcher) (e : Event) (d' : Dispatcher) : Prop where
  disarmed : ∀ w c, d.Armed w c → ¬ d'.Armed w c →
    ∃ request calls, d.handles e = some (request, calls) ∧
      MayDisarm d.globalInt32 c request (d.outcome calls)
  cancels : d'.cancels = d.cancels ∨ ∃ w c int32, d.Armed w c ∧ (w, int32) ∈ d.intervals ∧
    d.flags int32 = 1 ∧ d'.cancels = d.cancels ++ [⟨some w, c⟩]

/-- The step is isolated, whatever it leads to. -/
def IsolatedStep (d : Dispatcher) (e : Event) : Prop := ∀ d', step d e = some d' → Isolated d e d'

/-- The two requests that disarm the watcher whoever it was armed for: a poll that brings a
result, and a cancel. -/
def Dispatcher.Disarming (d : Dispatcher) (request : WorkerRequest) (calls : Calls) : Prop :=
  request.type = .POLL_PENDING_QUERY ∧ d.outcome calls = .returned true ∨
    request.type = .CANCEL_PENDING_QUERY

instance (d : Dispatcher) (request : WorkerRequest) (calls : Calls) :
    Decidable (d.Disarming request calls) := inferInstanceAs (Decidable (_ ∨ _))

/-- These two do not come from another connection while a watcher is armed. -/
def Undisturbed (d : Dispatcher) (e : Event) : Prop :=
  ∀ x ∈ d.handles e, ∀ c ∈ d.cancelConn, d.Disarming x.1 x.2 → x.1.conn = c

instance (d : Dispatcher) (e : Event) : Decidable (Undisturbed d e) :=
  inferInstanceAs (Decidable (∀ x ∈ d.handles e, ∀ c ∈ d.cancelConn, _ → _))

/-! ## At most one watcher -/

namespace Dispatcher

structure Idle (d : Dispatcher) : Prop where
  watcher : d.cancelWatcher = none
  conn : d.cancelConn = none
  view : d.cancelInt32 = none
  intervals : d.intervals = []

structure Watching (d : Dispatcher) (w : TimerId) (c : ConnId) (int32 : Flag) : Prop where
  watcher : d.cancelWatcher = some w
  conn : d.cancelConn = some c
  view : d.cancelInt32 = some int32
  intervals : d.intervals = [(w, int32)]
  armed : d.armedFor w = some c
  registered : d.globalInt32 ≠ none
  old : w < d.nextTimer

/-- **The invariant**: no interval runs, or just the one of the watcher, which is armed for
`cancelConn`. -/
def Inv (d : Dispatcher) : Prop := d.Idle ∨ ∃ w c int32, d.Watching w c int32

variable {d : Dispatcher} {w : TimerId} {c : ConnId} {int32 : Flag} {request : WorkerRequest}
  {calls : Calls}

theorem Idle.not_armed (h : d.Idle) : ¬ d.Armed w c := by
  rintro ⟨⟨int32, hw⟩, -⟩
  rw [h.intervals] at hw
  cases hw

theorem Watching.is_armed (h : d.Watching w c int32) : d.Armed w c :=
  ⟨⟨int32, by rw [h.intervals]; exact List.mem_singleton_self _⟩, h.armed⟩

theorem Watching.eq_of_armed {w' : TimerId} {c' : ConnId} (h : d.Watching w c int32)
    (h' : d.Armed w' c') : w' = w ∧ c' = c := by
  obtain ⟨⟨int32', hw⟩, hc⟩ := h'
  rw [h.intervals, List.mem_singleton, Prod.mk.injEq] at hw
  obtain ⟨rfl, -⟩ := hw
  exact ⟨rfl, Option.some.inj (hc.symm.trans h.armed)⟩

theorem Idle.inv (h : d.Idle) : d.Inv := .inl h

theorem Watching.inv (h : d.Watching w c int32) : d.Inv := .inr ⟨w, c, int32, h⟩

theorem Inv.conn_of_armed (h : d.Inv) (ha : d.Armed w c) : d.cancelConn = some c := by
  obtain hi | ⟨w', c', int32, hw⟩ := h
  · exact absurd ha hi.not_armed
  · rw [(hw.eq_of_armed ha).2, hw.conn]

theorem stopCancelWatch_idle (h : d.Inv) : d.stopCancelWatch.Idle := by
  obtain hi | ⟨w, c, int32, hw⟩ := h
  · rw [stopCancelWatch, hi.watcher]
    exact ⟨hi.watcher, rfl, rfl, hi.intervals⟩
  · rw [stopCancelWatch, hw.watcher]
    refine ⟨rfl, rfl, rfl, ?_⟩
    simp [clearInterval, hw.intervals]

@[simp] theorem stopCancelWatch_cancels : d.stopCancelWatch.cancels = d.cancels := by
  unfold stopCancelWatch
  split <;> rfl

theorem startCancelWatch_watching (h : d.Inv) (hflag : d.globalInt32 = some int32) :
    (d.startCancelWatch c).Watching d.nextTimer c int32 := by
  rw [startCancelWatch, hflag]
  obtain hi | ⟨w, c', int32', hw⟩ := h
  · simp only [hi.watcher]
    refine ⟨rfl, rfl, rfl, by simp [hi.intervals], Function.update_self .., ?_, Nat.lt_succ_self _⟩
    rw [hflag]; exact Option.some_ne_none _
  · simp only [hw.watcher]
    refine ⟨rfl, rfl, rfl, by simp [clearInterval, hw.intervals], Function.update_self .., ?_,
      Nat.lt_succ_self _⟩
    exact hw.registered

theorem startCancelWatch_of_none (hflag : d.globalInt32 = none) : d.startCancelWatch c = d := by
  rw [startCancelWatch, hflag]

theorem startCancelWatch_cancels : (d.startCancelWatch c).cancels = d.cancels := by
  unfold startCancelWatch
  split
  · rfl
  · dsimp only
    split <;> rfl

/-- Without a registered flag nothing is ever armed. -/
theorem Inv.idle_of_none (h : d.Inv) (hflag : d.globalInt32 = none) : d.Idle :=
  h.resolve_right fun ⟨_, _, _, hw⟩ => hw.registered hflag

theorem Idle.stopCancelWatch_eq (h : d.Idle) : d.stopCancelWatch = d := by
  obtain ⟨hw, hc, hv, -⟩ := h
  rw [stopCancelWatch, hw]
  cases d
  dsimp only at hw hc hv ⊢
  rw [hw, hc, hv]

/-! ## What leaves the watcher as it is -/

/-- The watcher is the same, and a cancel was for the connection it is armed for. -/
structure Kept (d d' : Dispatcher) : Prop where
  watcher : d'.cancelWatcher = d.cancelWatcher
  conn : d'.cancelConn = d.cancelConn
  view : d'.cancelInt32 = d.cancelInt32
  intervals : d'.intervals = d.intervals
  armedFor : d'.armedFor = d.armedFor
  registered : d.globalInt32 ≠ none → d'.globalInt32 ≠ none
  nextTimer : d'.nextTimer = d.nextTimer
  cancels : d.Inv → d'.cancels = d.cancels ∨ ∃ w c int32, d.Armed w c ∧ (w, int32) ∈ d.intervals ∧
    d.flags int32 = 1 ∧ d'.cancels = d.cancels ++ [⟨some w, c⟩]

namespace Kept

variable {d' : Dispatcher}

theorem rfl' : Kept d d := ⟨rfl, rfl, rfl, rfl, rfl, id, rfl, fun _ => .inl rfl⟩

theorem armed (h : Kept d d') : d'.Armed w c ↔ d.Armed w c := by
  rw [Armed, Armed, h.intervals, h.armedFor]

theorem inv (h : Kept d d') (hinv : d.Inv) : d'.Inv := by
  obtain hi | ⟨w, c, int32, hw⟩ := hinv
  · exact Idle.inv ⟨h.watcher.trans hi.watcher, h.conn.trans hi.conn, h.view.trans hi.view,
      h.intervals.trans hi.intervals⟩
  · exact Watching.inv ⟨h.watcher.trans hw.watcher, h.conn.trans hw.conn, h.view.trans hw.view,
      h.intervals.trans hw.intervals, by rw [h.armedFor]; exact hw.armed,
      h.registered hw.registered, by rw [h.nextTimer]; exact hw.old⟩

/-- A cancel with a raised flag is for `cancelConn`, which the one watcher is armed for. -/
theorem attemptCancel {cancelThrows : Bool} (hw : d.Watching w c int32)
    (hflag : d.flags int32 = 1) :
    Kept d (d.attemptCancel (some w) int32 (some c) cancelThrows) := by
  unfold Dispatcher.attemptCancel
  split
  next c' hc _ =>
    obtain rfl := Option.some.inj hc
    have hcancel : ∃ w' c' int32', d.Armed w' c' ∧ (w', int32') ∈ d.intervals ∧
        d.flags int32' = 1 ∧ d.cancels ++ [⟨some w, c⟩] = d.cancels ++ [⟨some w', c'⟩] :=
      ⟨w, c, int32, hw.is_armed, by rw [hw.intervals]; exact List.mem_singleton_self _, hflag, rfl⟩
    dsimp only
    split
    · exact ⟨rfl, rfl, rfl, rfl, rfl, id, rfl, fun _ => .inr hcancel⟩
    · exact ⟨rfl, rfl, rfl, rfl, rfl, id, rfl, fun _ => .inr hcancel⟩
  next => exact rfl'

theorem checkFlag {cancelThrows : Bool} (hinv : d.Inv) (conn : ConnId) :
    Kept d (d.checkFlag conn cancelThrows) := by
  unfold Dispatcher.checkFlag
  split
  next int32 hview =>
    split
    next hflag =>
      obtain hi | ⟨w, c, int32', hw⟩ := hinv
      · rw [hi.view] at hview; cases hview
      · obtain rfl : int32' = int32 := Option.some.inj (hw.view.symm.trans hview)
        rw [hw.watcher, hw.conn]
        exact attemptCancel hw hflag.2
    next => exact rfl'
  next => exact rfl'

theorem tick {cancelThrows : Bool} (hinv : d.Inv) {i : TimerId × Flag} (hi : i ∈ d.intervals) :
    Kept d (d.tick i.1 i.2 cancelThrows) := by
  unfold Dispatcher.tick
  split
  next hflag =>
    obtain hidle | ⟨w, c, int32, hw⟩ := hinv
    · rw [hidle.intervals] at hi; cases hi
    · rw [hw.intervals, List.mem_singleton] at hi
      subst hi
      rw [hw.conn]
      exact attemptCancel hw hflag
  next => exact rfl'

end Kept

/-! ## What a handler does to the watcher -/

/-- What `handle` does to the watcher: it leaves it, stops it, or arms a newer one. -/
inductive Handled (d : Dispatcher) (request : WorkerRequest) (calls : Calls) : Dispatcher → Prop
  | kept {d' : Dispatcher} (hkept : Kept d d') (hother : ¬ d.Disarming request calls) :
      Handled d request calls d'
  | stopped {d' : Dispatcher} (hkept : Kept d d') (hstop : d.Disarming request calls ∨
      ∀ c, d.cancelConn = some c → MayDisarm d.globalInt32 c request (d.outcome calls)) :
      Handled d request calls d'.stopCancelWatch
  | started {f : Flag} (htype : request.type = .START_PENDING_QUERY)
      (hflag : d.globalInt32 = some f) :
      Handled d request calls (d.startCancelWatch request.conn)
  | startedAndStopped {f : Flag} (htype : request.type = .START_PENDING_QUERY)
      (hflag : d.globalInt32 = some f) :
      Handled d request calls (d.startCancelWatch request.conn).stopCancelWatch

theorem caught_start (htype : request.type = .START_PENDING_QUERY)
    (hw : d.Watching w request.conn int32) : d.caught request = d.stopCancelWatch := by
  rw [caught, hw.conn, htype]
  exact if_pos rfl

theorem caught_idle (h : d.Idle) : d.caught request = d := by
  rw [caught, h.conn]

theorem handle_start (hinv : d.Inv) (htype : request.type = .START_PENDING_QUERY) :
    Handled d request calls (d.handle request calls) := by
  have hother : ¬ d.Disarming request calls := by
    rintro (⟨h, -⟩ | h) <;> rw [htype] at h <;> cases h
  rw [handle, htype]
  cases hflag : d.globalInt32 with
  | none =>
    have hidle := hinv.idle_of_none hflag
    rw [startCancelWatch_of_none hflag, caught_idle hidle]
    cases d.outcome calls with
    | threw =>
      dsimp only
      exact .kept .rfl' hother
    | returned result =>
      dsimp only
      rw [hidle.stopCancelWatch_eq, ite_self]
      exact .kept .rfl' hother
  | some int32 =>
    cases d.outcome calls with
    | threw =>
      dsimp only
      rw [caught_start htype (startCancelWatch_watching hinv hflag)]
      exact .startedAndStopped htype hflag
    | returned result =>
      cases result with
      | true => exact .startedAndStopped htype hflag
      | false => exact .started htype hflag

theorem handle_poll (hinv : d.Inv) (htype : request.type = .POLL_PENDING_QUERY) :
    Handled d request calls (d.handle request calls) := by
  have hkept : Kept d (d.checkFlag request.conn calls.cancelThrows) :=
    .checkFlag hinv request.conn
  rw [handle, htype]
  cases hout : d.outcome calls with
  | threw =>
    have hother : ¬ d.Disarming request calls := by
      rintro (⟨-, h⟩ | h)
      · rw [hout] at h; cases h
      · rw [htype] at h; cases h
    dsimp only
    rw [caught, htype, hkept.conn]
    split
    next c hc _ =>  cases ‹_ = WorkerRequestType.START_PENDING_QUERY›
    next c hc _ =>
      split
      next hconn =>
        refine .stopped hkept (.inr fun c' hc' => ?_)
        obtain rfl : c' = c := Option.some.inj (hc'.symm.trans hc)
        exact .result (.inr htype) hconn (by rw [hout]; nofun)
      next => exact .kept hkept hother
    next => exact .kept hkept hother
  | returned result =>
    cases result with
    | true => exact .stopped hkept (.inl (.inl ⟨htype, hout⟩))
    | false =>
      refine .kept hkept ?_
      rintro (⟨-, h⟩ | h)
      · rw [hout] at h; cases h
      · rw [htype] at h; cases h

/-- The other requests. -/
theorem handle_other (hstart : request.type ≠ .START_PENDING_QUERY)
    (hpoll : request.type ≠ .POLL_PENDING_QUERY) :
    Handled d request calls (d.handle request calls) := by
  unfold handle
  split
  next htype => exact .stopped .rfl' (.inr fun _ _ => .database (.inl htype))
  next htype => exact .stopped .rfl' (.inr fun _ _ => .database (.inr htype))
  next htype =>
    split
    next hconn =>
      refine .stopped .rfl' (.inr fun c hc => .disconnected htype ?_)
      exact Option.some.inj (hconn.symm.trans hc)
    next =>
      refine .kept .rfl' ?_
      rintro (⟨h, -⟩ | h) <;> rw [htype] at h <;> cases h
  next htype _ => exact absurd htype hstart
  next htype _ => exact absurd htype hstart
  next htype _ => exact absurd htype hpoll
  next htype _ => exact absurd htype hpoll
  next htype => exact .stopped .rfl' (.inl (.inr htype))
  next hcancel _ _ _ _ =>
    refine .kept .rfl' ?_
    rintro (⟨h, -⟩ | h)
    · exact hpoll h
    · exact hcancel h

/-- The requests that wait play no part. -/
theorem Inv.of_waiting {waiting : List WorkerRequest} (h : d.Inv) :
    { d with waiting := waiting }.Inv := by
  obtain hi | ⟨w, c, int32, hw⟩ := h
  · exact Idle.inv ⟨hi.watcher, hi.conn, hi.view, hi.intervals⟩
  · exact Watching.inv
      ⟨hw.watcher, hw.conn, hw.view, hw.intervals, hw.armed, hw.registered, hw.old⟩

theorem handle_handled (hinv : d.Inv) : Handled d request calls (d.handle request calls) := by
  by_cases hstart : request.type = .START_PENDING_QUERY
  · exact handle_start hinv hstart
  · by_cases hpoll : request.type = .POLL_PENDING_QUERY
    · exact handle_poll hinv hpoll
    · exact handle_other hstart hpoll

namespace Handled

variable {d' : Dispatcher}

theorem inv (h : Handled d request calls d') (hinv : d.Inv) : d'.Inv := by
  cases h with
  | kept hkept _ => exact hkept.inv hinv
  | stopped hkept _ => exact (stopCancelWatch_idle (hkept.inv hinv)).inv
  | started _ hflag => exact (startCancelWatch_watching hinv hflag).inv
  | startedAndStopped _ hflag =>
    exact (stopCancelWatch_idle (startCancelWatch_watching hinv hflag).inv).inv

theorem cancels (h : Handled d request calls d') (hinv : d.Inv) :
    d'.cancels = d.cancels ∨ ∃ w c int32, d.Armed w c ∧ (w, int32) ∈ d.intervals ∧
      d.flags int32 = 1 ∧ d'.cancels = d.cancels ++ [⟨some w, c⟩] := by
  cases h with
  | kept hkept _ => exact hkept.cancels hinv
  | stopped hkept _ => rw [stopCancelWatch_cancels]; exact hkept.cancels hinv
  | started _ _ => exact .inl startCancelWatch_cancels
  | startedAndStopped _ _ =>
    exact .inl (stopCancelWatch_cancels.trans startCancelWatch_cancels)

/-- A watcher for `c` is disarmed for a reason that concerns `c`, exactly if the request is not
one of the two that disarm any watcher, or is one of `c`. -/
theorem isolated_iff (h : Handled d request calls d') (hinv : d.Inv) :
    (∀ w c, d.Armed w c → ¬ d'.Armed w c → MayDisarm d.globalInt32 c request (d.outcome calls)) ↔
      ∀ c, d.cancelConn = some c → d.Disarming request calls → request.conn = c := by
  have hreason : ∀ c, d.Disarming request calls → request.conn = c →
      MayDisarm d.globalInt32 c request (d.outcome calls) := by
    rintro c (⟨htype, hout⟩ | htype) hconn
    · exact .result (.inr htype) hconn (by rw [hout]; nofun)
    · exact .cancelled htype hconn
  have hconn : ∀ c, d.Disarming request calls →
      MayDisarm d.globalInt32 c request (d.outcome calls) → request.conn = c := by
    intro c hdis hmay
    cases hmay with
    | result _ hconn _ => exact hconn
    | cancelled _ hconn => exact hconn
    | disconnected _ hconn => exact hconn
    | database htype =>
      obtain ⟨h, -⟩ | h := hdis <;> rw [h] at htype <;> obtain h | h := htype <;> cases h
    | rearmed htype _ => obtain ⟨h, -⟩ | h := hdis <;> rw [h] at htype <;> cases htype
  constructor
  · intro hall c hc hdis
    obtain hi | ⟨w, c', int32, hw⟩ := id hinv
    · rw [hi.conn] at hc; cases hc
    · obtain rfl : c' = c := Option.some.inj (hw.conn.symm.trans hc)
      have hgone : ¬ d'.Armed w c' := by
        cases h with
        | kept _ hother => exact absurd hdis hother
        | stopped hkept _ => exact (stopCancelWatch_idle (hkept.inv hinv)).not_armed
        | started htype _ => obtain ⟨h, -⟩ | h := hdis <;> rw [h] at htype <;> cases htype
        | startedAndStopped _ hflag =>
          exact (stopCancelWatch_idle (startCancelWatch_watching hinv hflag).inv).not_armed
      exact hconn c' hdis (hall w c' hw.is_armed hgone)
  · intro hcond w c harmed hgone
    have hc := hinv.conn_of_armed harmed
    cases h with
    | kept hkept _ => exact absurd (hkept.armed.mpr harmed) hgone
    | stopped _ hstop =>
      obtain hdis | hmay := hstop
      · exact hreason c hdis (hcond c hc hdis)
      · exact hmay c hc
    | started htype hflag => exact .rearmed htype (by rw [hflag]; nofun)
    | startedAndStopped htype hflag => exact .rearmed htype (by rw [hflag]; nofun)

end Handled

end Dispatcher

/-! ## Runs -/

open Dispatcher

variable {d d' : Dispatcher} {e : Event} {es : List Event}

/-- A message that runs no handler leaves the watcher as it is. -/
theorem onMessage_kept {request : WorkerRequest} {prefetchesRunning : Bool} {calls : Calls}
    (h : request.type = .PING ∨ request.type = .INSTANTIATE ∨ d.bindings = false ∨
      prefetchesRunning ∧ request.type ≠ .PREFETCH_EXTENSIONS) :
    Kept d (d.onMessage request prefetchesRunning calls) := by
  unfold onMessage
  split
  next => exact .rfl'
  next => exact ⟨rfl, rfl, rfl, rfl, rfl, id, rfl, fun _ => .inl rfl⟩
  next hping hinst =>
    split
    next => exact .rfl'
    next hb =>
      split
      next => exact ⟨rfl, rfl, rfl, rfl, rfl, id, rfl, fun _ => .inl rfl⟩
      next hwait =>
        obtain h | h | h | h := h
        · exact absurd h hping
        · exact absurd h hinst
        · exact absurd h hb
        · exact absurd h hwait

theorem onMessage_handle {request : WorkerRequest} {prefetchesRunning : Bool} {calls : Calls}
    (h : ¬ (request.type = .PING ∨ request.type = .INSTANTIATE ∨ d.bindings = false ∨
      prefetchesRunning ∧ request.type ≠ .PREFETCH_EXTENSIONS)) :
    d.onMessage request prefetchesRunning calls = d.handle request calls := by
  simp only [not_or] at h
  obtain ⟨hping, hinst, hb, hwait⟩ := h
  unfold onMessage
  split
  next htype => exact absurd htype hping
  next htype => exact absurd htype hinst
  next => rw [if_neg hb, if_neg hwait]

/-- An event runs one handler, or leaves the watcher as it is. -/
theorem step_handles (hinv : d.Inv) (h : step d e = some d') :
    d.handles e = none ∧ Kept d d' ∨ ∃ waiting request calls,
      d.handles e = some (request, calls) ∧
        Handled { d with waiting := waiting } request calls d' := by
  cases e with
  | store flag value =>
    obtain rfl := Option.some.inj h
    exact .inl ⟨rfl, rfl, rfl, rfl, rfl, rfl, id, rfl, fun _ => .inl rfl⟩
  | initCancelSab flag =>
    obtain rfl := Option.some.inj h
    exact .inl ⟨rfl, rfl, rfl, rfl, rfl, rfl, fun _ => Option.some_ne_none _, rfl,
      fun _ => .inl rfl⟩
  | message request prefetchesRunning calls =>
    obtain rfl := Option.some.inj h
    by_cases hnot : request.type = .PING ∨ request.type = .INSTANTIATE ∨ d.bindings = false ∨
        prefetchesRunning ∧ request.type ≠ .PREFETCH_EXTENSIONS
    · exact .inl ⟨if_pos hnot, onMessage_kept hnot⟩
    · rw [onMessage_handle hnot]
      exact .inr ⟨d.waiting, request, calls, if_neg hnot, handle_handled hinv⟩
  | prefetched index calls =>
    obtain ⟨request, hreq, rfl⟩ := Option.map_eq_some_iff.mp h
    refine .inr ⟨d.waiting.eraseIdx index, request, calls, ?_, handle_handled hinv.of_waiting⟩
    rw [handles, hreq]
    rfl
  | instantiated ok =>
    rw [step] at h
    split at h
    · cases h
    · obtain rfl := Option.some.inj h
      exact .inl ⟨rfl, rfl, rfl, rfl, rfl, rfl, id, rfl, fun _ => .inl rfl⟩
  | tick index cancelThrows =>
    obtain ⟨i, hi, rfl⟩ := Option.map_eq_some_iff.mp h
    exact .inl ⟨rfl, .tick hinv (List.mem_of_getElem? hi)⟩

theorem step_inv (hinv : d.Inv) (h : step d e = some d') : d'.Inv := by
  obtain ⟨-, hkept⟩ | ⟨_, _, _, -, hhandled⟩ := step_handles hinv h
  · exact hkept.inv hinv
  · exact hhandled.inv hinv.of_waiting

theorem initial_inv : initial.Inv := .inl ⟨rfl, rfl, rfl, rfl⟩

/-- One step is isolated exactly if it is undisturbed. -/
theorem step_isolated_iff (hinv : d.Inv) (h : step d e = some d') :
    Isolated d e d' ↔ Undisturbed d e := by
  obtain ⟨hnone, hkept⟩ | ⟨_, request, calls, hsome, hhandled⟩ := step_handles hinv h
  · have hundisturbed : Undisturbed d e := by
      rw [Undisturbed, hnone]
      nofun
    exact iff_of_true ⟨fun w c harmed hgone => absurd (hkept.armed.mpr harmed) hgone,
      hkept.cancels hinv⟩ hundisturbed
  · have hundisturbed : Undisturbed d e ↔
        ∀ c, d.cancelConn = some c → d.Disarming request calls → request.conn = c := by
      rw [Undisturbed, hsome]
      constructor
      · exact fun hcond => hcond _ rfl
      · intro hcond x hx
        obtain rfl := Option.some.inj hx
        exact hcond
    have hiff : (∀ w c, d.Armed w c → ¬ d'.Armed w c →
          MayDisarm d.globalInt32 c request (d.outcome calls)) ↔
        ∀ c, d.cancelConn = some c → d.Disarming request calls → request.conn = c :=
      hhandled.isolated_iff hinv.of_waiting
    rw [hundisturbed, ← hiff]
    constructor
    · intro hiso w c harmed hgone
      obtain ⟨request', calls', hsome', hmay⟩ := hiso.disarmed w c harmed hgone
      obtain ⟨rfl, rfl⟩ := Prod.mk.inj (Option.some.inj (hsome.symm.trans hsome'))
      exact hmay
    · exact fun hall => ⟨fun w c harmed hgone =>
        ⟨request, calls, hsome, hall w c harmed hgone⟩,
        hhandled.cancels hinv.of_waiting⟩

/-- **Isolation of the cancel watcher.** A run disarms watchers and cancels queries only for
reasons that concern the connection the watcher is armed for, exactly if none of its steps
handles a poll with a result or a cancel of another connection while a watcher is armed. -/
theorem cancel_watch_isolated (es : List Event) (d : Dispatcher) :
    Run step IsolatedStep initial es d ↔ Run step Undisturbed initial es d := by
  have hinv : ∀ {ok es d}, Run step ok initial es d → d.Inv := fun hrun =>
    hrun.invariant initial_inv fun _ _ _ hinv _ hs => step_inv hinv hs
  constructor
  · intro hrun
    induction hrun with
    | nil => exact .nil
    | snoc hprev hok hs ih =>
      exact .snoc ih ((step_isolated_iff (hinv hprev) hs).mp (hok _ hs)) hs
  · intro hrun
    induction hrun with
    | nil => exact .nil
    | snoc hprev hok hs ih =>
      refine .snoc ih (fun d'' hs' => ?_) hs
      exact (step_isolated_iff (hinv hprev) hs').mpr hok

/-- Two connections with a pending query each; the watcher is armed for the second one when
the first one's query is done. -/
def twoQueries : List Event :=
  [.initCancelSab 0,
    .message ⟨.INSTANTIATE, 0⟩ false ⟨false, .returned true⟩, .instantiated true,
    .message ⟨.START_PENDING_QUERY, 1⟩ false ⟨false, .returned false⟩,
    .message ⟨.START_PENDING_QUERY, 2⟩ false ⟨false, .returned false⟩]

/-- The poll that brings the result of connection 1 disarms the watcher of connection 2. -/
theorem poll_disarms_other_connection :
    ∃ d d', Run step Always initial twoQueries d ∧
      step d (.message ⟨.POLL_PENDING_QUERY, 1⟩ false ⟨false, .returned true⟩) = some d' ∧
      d.cancelConn = some 2 ∧ d'.cancelConn = none ∧
      ¬ Isolated d (.message ⟨.POLL_PENDING_QUERY, 1⟩ false ⟨false, .returned true⟩) d' := by
  obtain ⟨d, hrun, hd⟩ := Run.exists_of_execute
    (show (execute step Always initial twoQueries).map (fun d => decide
      (¬ Undisturbed d (.message ⟨.POLL_PENDING_QUERY, 1⟩ false ⟨false, .returned true⟩) ∧
        d.cancelConn = some 2 ∧ (d.onMessage ⟨.POLL_PENDING_QUERY, 1⟩ false
          ⟨false, .returned true⟩).cancelConn = none)) = some true by decide +kernel)
  obtain ⟨hdisturbed, hconn, hgone⟩ := of_decide_eq_true hd
  have hinv : d.Inv := hrun.invariant initial_inv fun _ _ _ hinv _ hs => step_inv hinv hs
  exact ⟨d, _, hrun, rfl, hconn, hgone, fun hiso =>
    hdisturbed ((step_isolated_iff hinv rfl).mp hiso)⟩

end Haybarn.Worker
