import Haybarn.Worker.CancelWatch

/-!
# The replies of the worker dispatcher

`onMessage` of `worker_dispatcher.ts` answers every request with a response that carries its
message id. Some requests are answered before the dispatcher looks at its bindings, some are
refused because there are none, and the others run a case of a large `switch` within a `try`
whose `catch` answers with the exception.

Mirroring notes:

* the worker runs one thing at a time, but a handler may be suspended at an `await` while
  other messages arrive: `INSTANTIATE` until the module is there, any request until the
  running prefetches have ended, and four requests until a call of their own has. An event is
  an arriving message or the end of one `await`, up to the next `await` or the end;
* what the bindings do is up to the event: the call of a handler throws an error or returns a
  value. A call on bindings that are `null` throws the engine's `TypeError`;
* a response that cannot be cloned makes `postMessage` throw within the `try`, before it is
  posted, so it counts as a call that throws;
* the watcher that some handlers arm and disarm posts nothing; it is the subject of
  `CancelWatch`. The `messageId` of a response is read by nobody and left out;
* `received` is a record that no handler reads.

`one_reply` is the bookkeeping: in a run in which no `INSTANTIATE` arrives when there are
bindings already, each request has one terminal response, or a suspended handler that will post
it. `second_instantiate_replies_twice` is a run with two.
-/

namespace Haybarn.Worker.Replies

open Haybarn.Lib

abbrev MessageId := Nat

/-- What a call returns; nothing here looks into it. -/
abbrev Value := Nat

inductive WorkerResponseType
  | CONNECTION_INFO | ERROR | FEATURE_FLAGS | FILE_BUFFER | FILE_INFOS | FILE_SIZE
  | FILE_STATISTICS | INSTANTIATE_PROGRESS | INTERRUPT_HANDLE | LOG | PROGRESS_UPDATE | OK
  | PREPARED_STATEMENT_ID | QUERY_PLAN | QUERY_RESULT | QUERY_RESULT_CHUNK | QUERY_RESULT_HEADER
  | QUERY_RESULT_HEADER_OR_NULL | REGISTERED_FILE | SCRIPT_TOKENS | SUCCESS | TABLE_NAMES
  | VERSION_STRING
  deriving DecidableEq, Repr

/-- Progress and log messages answer no request. -/
def WorkerResponseType.terminal : WorkerResponseType → Bool
  | .INSTANTIATE_PROGRESS | .LOG | .PROGRESS_UPDATE => false
  | _ => true

/-- An error, as `failWith` reads it. -/
structure JsError where
  name : String
  message : String
  deriving DecidableEq, Repr

inductive ResponseData
  | null
  | value (v : Value)
  | error (e : JsError)
  deriving DecidableEq, Repr

structure Response where
  requestId : MessageId
  type : WorkerResponseType
  data : ResponseData
  deriving DecidableEq, Repr

structure Request where
  messageId : MessageId
  type : WorkerRequestType
  /-- `data.path` of `OPEN` -/
  path : Option String := none
  /-- `data[2] !== false` of `INSTANTIATE` -/
  forwardProgress : Bool := true
  deriving DecidableEq, Repr

/-- What the calls of a handler do, up to its end or its `await`. -/
inductive Call
  | threw (e : JsError)
  | returned (value : Value)
  deriving DecidableEq, Repr

/-- Where a handler is suspended. -/
inductive Await
  /-- `await this.instantiate(..)` -/
  | instantiate
  /-- `await waitForPrefetches()` -/
  | prefetches
  /-- An `await` within the `switch`. -/
  | call
  deriving DecidableEq, Repr

/-- What the dispatcher finds in its worker. -/
structure Env where
  /-- `typeof XMLHttpRequest !== 'undefined'` -/
  browser : Bool
  /-- The `TypeError` of a call on bindings that are `null`. -/
  nullBindings : JsError

structure Dispatcher where
  /-- `_bindings !== null` -/
  bindings : Bool
  suspended : List (Request × Await)
  posted : List Response
  received : List Request

def alreadyInitialized : JsError := ⟨"Error", "duckdb already initialized"⟩

def notInitialized : JsError := ⟨"Error", "duckdb is not initialized"⟩

/-- The type of the response to a request that does not fail. -/
def replyType : WorkerRequestType → WorkerResponseType
  | .GET_VERSION => .VERSION_STRING
  | .GET_FEATURE_FLAGS => .FEATURE_FLAGS
  | .CONNECT => .CONNECTION_INFO
  | .CREATE_PREPARED => .PREPARED_STATEMENT_ID
  | .RUN_PREPARED => .QUERY_RESULT
  | .RUN_QUERY => .QUERY_RESULT
  | .SEND_PREPARED => .QUERY_RESULT_HEADER
  | .START_PENDING_QUERY => .QUERY_RESULT_HEADER_OR_NULL
  | .POLL_PENDING_QUERY => .QUERY_RESULT_HEADER_OR_NULL
  | .GET_INTERRUPT_HANDLE => .INTERRUPT_HANDLE
  | .CANCEL_PENDING_QUERY => .SUCCESS
  | .FETCH_QUERY_RESULTS => .QUERY_RESULT_CHUNK
  | .GET_TABLE_NAMES => .TABLE_NAMES
  | .GLOB_FILE_INFOS => .FILE_INFOS
  | .COPY_FILE_TO_BUFFER => .FILE_BUFFER
  | .EXPORT_FILE_STATISTICS => .FILE_STATISTICS
  | .TOKENIZE => .SCRIPT_TOKENS
  | _ => .OK

/-- The case of the request awaits something. -/
def Request.awaits (env : Env) (request : Request) : Bool :=
  match request.type with
  | .PREFETCH_EXTENSIONS => env.browser
  | .OPEN =>
    match request.path with
    | some path => "opfs://".toList.isPrefixOf path.toList
    | none => false
  | .REGISTER_FILE_HANDLE | .REGISTER_OPFS_FILE_NAME => true
  | _ => false

namespace Dispatcher

def initial : Dispatcher := ⟨false, [], [], []⟩

/-! ## Responses -/

def postMessage (d : Dispatcher) (response : Response) : Dispatcher :=
  { d with posted := d.posted ++ [response] }

def sendOK (d : Dispatcher) (request : Request) : Dispatcher :=
  d.postMessage ⟨request.messageId, .OK, .null⟩

def failWith (d : Dispatcher) (request : Request) (e : JsError) : Dispatcher :=
  d.postMessage ⟨request.messageId, .ERROR, .error e⟩

def reply (d : Dispatcher) (request : Request) (value : Value) : Dispatcher :=
  match replyType request.type with
  | .OK => d.sendOK request
  | type => d.postMessage ⟨request.messageId, type, .value value⟩

/-! ## Handlers -/

def suspend (d : Dispatcher) (request : Request) (await : Await) : Dispatcher :=
  { d with suspended := d.suspended ++ [(request, await)] }

/-- What the calls of a handler do, given whether there are bindings. `PREFETCH_EXTENSIONS`
ignores what `getExtensionUrl` throws, and calls nothing outside a browser. -/
def outcome (env : Env) (d : Dispatcher) (request : Request) (call : Call) : Call :=
  match request.type with
  | .PREFETCH_EXTENSIONS => if env.browser then call else .returned 0
  | _ => if d.bindings then call else .threw env.nullBindings

/-- The `switch` within the `try`, up to its end or its `await`. -/
def handle (env : Env) (d : Dispatcher) (request : Request) (call : Call) : Dispatcher :=
  match d.outcome env request call with
  | .threw e => d.failWith request e
  | .returned value =>
    if request.awaits env then d.suspend request .call else d.reply request value

/-- What follows the `await` of a case. Only `OPEN` uses the bindings there. -/
def handleAwaited (env : Env) (d : Dispatcher) (request : Request) (call : Call) : Dispatcher :=
  match call with
  | .threw e => d.failWith request e
  | .returned value =>
    if request.type = .OPEN ∧ d.bindings = false then d.failWith request env.nullBindings
    else d.reply request value

/-- What follows `await this.instantiate(..)`. -/
def instantiated (d : Dispatcher) (request : Request) : Call → Dispatcher
  | .returned _ => { d with bindings := true }.sendOK request
  | .threw e => { d with bindings := false }.failWith request e

def onMessage (env : Env) (d : Dispatcher) (request : Request) (prefetchesRunning : Bool)
    (call : Call) : Dispatcher :=
  match request.type with
  | .PING => d.sendOK request
  | .INSTANTIATE =>
    -- there is no `return` after the failure
    let refused := if d.bindings then d.failWith request alreadyInitialized else d
    refused.suspend request .instantiate
  | _ =>
    if d.bindings = false then d.failWith request notInitialized
    else if prefetchesRunning ∧ request.type ≠ .PREFETCH_EXTENSIONS then
      d.suspend request .prefetches
    else d.handle env request call

/-- What follows the `await` of a suspended handler. -/
def resume (env : Env) (d : Dispatcher) (request : Request) (call : Call) :
    Await → Dispatcher
  | .instantiate => d.instantiated request call
  | .prefetches => d.handle env request call
  | .call => d.handleAwaited env request call

def receive (d : Dispatcher) (request : Request) : Dispatcher :=
  { d with received := d.received ++ [request] }

def drop (d : Dispatcher) (index : Nat) : Dispatcher :=
  { d with suspended := d.suspended.eraseIdx index }

end Dispatcher

/-! ## Steps -/

inductive Event
  | message (request : Request) (prefetchesRunning : Bool) (call : Call)
  /-- The `await` of a suspended handler has ended. -/
  | resumed (index : Nat) (call : Call)
  /-- A running `instantiate` reports its progress. -/
  | progress (index : Nat) (value : Value)
  | log (entry : Value)
  deriving DecidableEq, Repr

def step (env : Env) (d : Dispatcher) : Event → Option Dispatcher
  | .message request prefetchesRunning call =>
    some ((d.receive request).onMessage env request prefetchesRunning call)
  | .resumed index call =>
    d.suspended[index]?.map fun s => (d.drop index).resume env s.1 call s.2
  | .progress index value =>
    match d.suspended[index]? with
    | some (request, .instantiate) =>
      if request.forwardProgress then
        some (d.postMessage ⟨request.messageId, .INSTANTIATE_PROGRESS, .value value⟩)
      else none
    | _ => none
  | .log entry => some (d.postMessage ⟨0, .LOG, .value entry⟩)

/-- An `INSTANTIATE` arrives only when there are no bindings. -/
def Uninstantiated (d : Dispatcher) : Event → Prop
  | .message request _ _ => request.type = .INSTANTIATE → d.bindings = false
  | _ => True

instance (d : Dispatcher) (e : Event) : Decidable (Uninstantiated d e) :=
  match e with
  | .message _ _ _ => inferInstanceAs (Decidable (_ → _))
  | .resumed _ _ => .isTrue trivial
  | .progress _ _ => .isTrue trivial
  | .log _ => .isTrue trivial

/-! ## Counting -/

/-- What a request contributes to the count of a message id. -/
def Request.count (request : Request) (m : MessageId) : Nat :=
  if request.messageId = m then 1 else 0

namespace Dispatcher

/-- The terminal responses with the message id. -/
def replies (d : Dispatcher) (m : MessageId) : Nat :=
  d.posted.countP fun r => r.type.terminal && r.requestId == m

/-- The suspended handlers of requests with the message id. -/
def pending (d : Dispatcher) (m : MessageId) : Nat :=
  d.suspended.countP fun s => s.1.messageId == m

def requests (d : Dispatcher) (m : MessageId) : Nat :=
  d.received.countP fun r => r.messageId == m

/-- **One reply a request**: each request has had one terminal response, or its handler is
suspended and has posted none. -/
def Answered (d : Dispatcher) : Prop := ∀ m, d.replies m + d.pending m = d.requests m

variable {env : Env} {d d' : Dispatcher} {request : Request} {call : Call} {m : MessageId}

/-- The replies and the handlers that owe one. -/
def answers (d : Dispatcher) (m : MessageId) : Nat := d.replies m + d.pending m

theorem answers_postMessage {response : Response} (hterm : response.type.terminal = true)
    (hid : response.requestId = request.messageId) :
    (d.postMessage response).answers m = d.answers m + request.count m := by
  unfold answers replies pending postMessage Request.count
  rw [List.countP_append, List.countP_singleton, hterm, hid]
  simp only [Bool.true_and, beq_iff_eq]
  omega

theorem answers_postMessage_of_not_terminal {response : Response}
    (hterm : response.type.terminal = false) :
    (d.postMessage response).answers m = d.answers m := by
  unfold answers replies pending postMessage
  rw [List.countP_append, List.countP_singleton, hterm]
  rfl

theorem answers_failWith {e : JsError} :
    (d.failWith request e).answers m = d.answers m + request.count m :=
  answers_postMessage rfl rfl

theorem answers_sendOK : (d.sendOK request).answers m = d.answers m + request.count m :=
  answers_postMessage rfl rfl

theorem terminal_replyType (type : WorkerRequestType) : (replyType type).terminal = true := by
  cases type <;> rfl

theorem answers_reply {value : Value} :
    (d.reply request value).answers m = d.answers m + request.count m := by
  unfold reply
  split
  · exact answers_sendOK
  · exact answers_postMessage (terminal_replyType _) rfl

theorem answers_suspend {await : Await} :
    (d.suspend request await).answers m = d.answers m + request.count m := by
  unfold answers pending replies suspend Request.count
  rw [List.countP_append, List.countP_singleton]
  simp only [beq_iff_eq]
  omega

theorem answers_handle :
    (d.handle env request call).answers m = d.answers m + request.count m := by
  unfold handle
  split
  · exact answers_failWith
  · split
    · exact answers_suspend
    · exact answers_reply

theorem answers_handleAwaited :
    (d.handleAwaited env request call).answers m = d.answers m + request.count m := by
  unfold handleAwaited
  split
  · exact answers_failWith
  · split
    · exact answers_failWith
    · exact answers_reply

theorem answers_instantiated :
    (d.instantiated request call).answers m = d.answers m + request.count m := by
  cases call with
  | returned _ => exact answers_sendOK
  | threw _ => exact answers_failWith

theorem answers_resume {await : Await} :
    (d.resume env request call await).answers m = d.answers m + request.count m := by
  cases await with
  | instantiate => exact answers_instantiated
  | prefetches => exact answers_handle
  | call => exact answers_handleAwaited

/-- A message owes one answer, and an `INSTANTIATE` that finds bindings owes two. -/
theorem answers_onMessage {prefetchesRunning : Bool} :
    (d.onMessage env request prefetchesRunning call).answers m = d.answers m +
      request.count m * if request.type = .INSTANTIATE ∧ d.bindings = true then 2 else 1 := by
  unfold onMessage
  split
  next hping =>
    rw [answers_sendOK, hping]
    simp
  next hinst =>
    rw [answers_suspend]
    split
    next hb =>
      rw [answers_failWith, if_pos ⟨hinst, hb⟩]
      omega
    next hb =>
      rw [if_neg fun h => hb h.2]
      omega
  next hinst =>
    have hone : (if request.type = .INSTANTIATE ∧ d.bindings = true then 2 else 1) = 1 :=
      if_neg fun h => hinst h.1
    rw [hone, Nat.mul_one]
    split
    · exact answers_failWith
    · split
      · exact answers_suspend
      · exact answers_handle

theorem answers_drop {index : Nat} {await : Await}
    (h : d.suspended[index]? = some (request, await)) :
    (d.drop index).answers m + request.count m = d.answers m := by
  obtain ⟨hlt, hget⟩ := List.getElem?_eq_some_iff.mp h
  have hperm := (List.getElem_cons_eraseIdx_perm hlt).countP_eq fun s => s.1.messageId == m
  rw [hget, List.countP_cons] at hperm
  simp only [beq_iff_eq] at hperm
  unfold answers pending replies drop Request.count
  dsimp only
  omega

theorem requests_receive : (d.receive request).requests m = d.requests m + request.count m := by
  unfold requests receive Request.count
  rw [List.countP_append, List.countP_singleton]
  simp only [beq_iff_eq]

/-! The handlers keep the record. -/

theorem received_reply {value : Value} : (d.reply request value).received = d.received := by
  unfold reply
  split <;> rfl

theorem received_handle : (d.handle env request call).received = d.received := by
  unfold handle
  split
  · rfl
  · split
    · rfl
    · exact received_reply

theorem received_resume {await : Await} :
    (d.resume env request call await).received = d.received := by
  cases await with
  | instantiate => cases call <;> rfl
  | prefetches => exact received_handle
  | call =>
    unfold resume handleAwaited
    dsimp only
    split
    · rfl
    · split
      · rfl
      · exact received_reply

theorem received_onMessage {prefetchesRunning : Bool} :
    (d.onMessage env request prefetchesRunning call).received = d.received := by
  unfold onMessage
  split
  · rfl
  · dsimp only [suspend]
    split <;> rfl
  · split
    · rfl
    · split
      · rfl
      · exact received_handle

/-- A handler that is resumed ends, unless it had only waited for the prefetches; then it may
be suspended once more, at an `await` of its own. -/
theorem suspended_resume {await : Await} :
    (d.resume env request call await).suspended = d.suspended ∨
      await = .prefetches ∧ (d.resume env request call await).suspended =
        d.suspended ++ [(request, .call)] := by
  have hreply : ∀ value, (d.reply request value).suspended = d.suspended := by
    intro value
    unfold reply
    split <;> rfl
  cases await with
  | instantiate => left; cases call <;> rfl
  | prefetches =>
    unfold resume handle
    dsimp only
    split
    · exact .inl rfl
    · split
      · exact .inr ⟨rfl, rfl⟩
      · exact .inl (hreply _)
  | call =>
    left
    unfold resume handleAwaited
    dsimp only
    split
    · rfl
    · split
      · rfl
      · exact hreply _

end Dispatcher

/-! ## Runs -/

variable {env : Env} {d d' : Dispatcher} {e : Event}

/-- One step keeps the count, exactly if it is not an `INSTANTIATE` that finds bindings. -/
theorem step_answered_iff (hd : d.Answered) (h : step env d e = some d') :
    d'.Answered ↔ Uninstantiated d e := by
  cases e with
  | message request prefetchesRunning call =>
    obtain rfl := Option.some.inj h
    have hcount : ∀ m,
        ((d.receive request).onMessage env request prefetchesRunning call).answers m =
          d.answers m + request.count m *
            if request.type = .INSTANTIATE ∧ d.bindings = true then 2 else 1 :=
      fun m => Dispatcher.answers_onMessage
    have hrequests : ∀ m,
        ((d.receive request).onMessage env request prefetchesRunning call).requests m =
          d.requests m + request.count m := by
      intro m
      unfold Dispatcher.requests
      rw [Dispatcher.received_onMessage]
      exact Dispatcher.requests_receive
    constructor
    · intro hd' hinst
      by_contra hb
      have hboth : request.type = .INSTANTIATE ∧ d.bindings = true :=
        ⟨hinst, by simpa using hb⟩
      have hm := hcount request.messageId
      have hr := hrequests request.messageId
      have hbefore : d.answers request.messageId = d.requests request.messageId := hd _
      have hafter := hd' request.messageId
      have hown : request.count request.messageId = 1 := if_pos rfl
      rw [if_pos hboth, hown] at hm
      rw [hown] at hr
      unfold Dispatcher.answers at hm hbefore
      omega
    · intro hun m
      have hone : ¬ (request.type = .INSTANTIATE ∧ d.bindings = true) := by
        rintro ⟨hinst, hb⟩
        rw [hun hinst] at hb
        cases hb
      have hm := hcount m
      rw [if_neg hone, Nat.mul_one, show d.answers m = d.requests m from hd m] at hm
      exact hm.trans (hrequests m).symm
  | resumed index call =>
    obtain ⟨⟨request, await⟩, hs, rfl⟩ := Option.map_eq_some_iff.mp h
    refine iff_of_true (fun m => ?_) trivial
    have hdrop := Dispatcher.answers_drop (m := m) hs
    have hresume : ((d.drop index).resume env request call await).answers m =
        (d.drop index).answers m + request.count m := Dispatcher.answers_resume
    have hbefore : d.answers m = d.requests m := hd m
    unfold Dispatcher.requests
    rw [Dispatcher.received_resume]
    exact hresume.trans (hdrop.trans hbefore)
  | progress index value =>
    refine iff_of_true ?_ trivial
    unfold step at h
    dsimp only at h
    split at h
    · split at h
      · obtain rfl := Option.some.inj h
        exact fun m => (Dispatcher.answers_postMessage_of_not_terminal rfl).trans (hd m)
      · cases h
    · cases h
  | log entry =>
    obtain rfl := Option.some.inj h
    refine iff_of_true (fun m => ?_) trivial
    exact (Dispatcher.answers_postMessage_of_not_terminal rfl).trans (hd m)

/-- **One reply a request.** In a run in which no `INSTANTIATE` arrives when there are bindings,
each request has exactly one terminal response, or a suspended handler that has posted none. -/
theorem one_reply (env : Env) (es : List Event) (d : Dispatcher)
    (hrun : Run (step env) Uninstantiated .initial es d) : d.Answered :=
  hrun.invariant (fun _ => rfl) fun _ _ _ hd hok hs => (step_answered_iff hd hs).mpr hok

/-- A worker outside a browser. -/
def node : Env := ⟨false, ⟨"TypeError", "Cannot read properties of null"⟩⟩

/-- A query before the module is there, one after, and one that throws. -/
def session : List Event :=
  [.message ⟨0, .RUN_QUERY, none, true⟩ false (.returned 7),
    .message ⟨1, .INSTANTIATE, none, true⟩ false (.returned 0), .progress 0 50,
    .resumed 0 (.returned 0), .message ⟨2, .RUN_QUERY, none, true⟩ true (.returned 7), .log 3,
    .resumed 0 (.returned 7),
    .message ⟨3, .CONNECT, none, true⟩ false (.threw ⟨"Error", "no memory"⟩)]

theorem one_reply_session : ∃ d : Dispatcher, Run (step node) Uninstantiated .initial session d ∧
    d.suspended = [] ∧ d.Answered := by
  obtain ⟨d, hrun, hd⟩ := Run.exists_of_execute
    (show (execute (step node) Uninstantiated .initial session).map
      (fun d => d.suspended.isEmpty) = some true from rfl)
  exact ⟨d, hrun, List.isEmpty_iff.mp hd, one_reply node session d hrun⟩

/-- The second `INSTANTIATE` is refused and carried out: it has two terminal responses. -/
theorem second_instantiate_replies_twice :
    ∃ d : Dispatcher, Run (step node) Always .initial
      [.message ⟨0, .INSTANTIATE, none, true⟩ false (.returned 0), .resumed 0 (.returned 0),
        .message ⟨1, .INSTANTIATE, none, true⟩ false (.returned 0), .resumed 0 (.returned 0)] d ∧
      d.suspended = [] ∧ d.requests 1 = 1 ∧ d.replies 1 = 2 :=
  ⟨_, .of_execute rfl, rfl, rfl, rfl⟩

end Haybarn.Worker.Replies
