import Haybarn.Worker.Replies

/-!
# The tasks of the asynchronous bindings

`async_bindings.ts` is the other end of the dispatcher's channel. Each call of the bindings
makes a task, enters it into `_pendingRequests` under a fresh message id, posts the request and
hands out a promise; a response looks its task up by its `requestId`, removes it and resolves or
rejects. The worker may fail in between, or be taken away.

Mirroring notes:

* a promise is the one that `postTask` hands out, which waits for the promise of its task. When
  `worker.postMessage` throws, `postTask` rejects and leaves its entry behind;
* `settled` is a record of which promise has been settled, by what and how, and `handed` one of
  the message id that each promise was given;
* `listeners` says that the listeners are on the worker, which only `detach` takes off, and
  `alive` that the worker still runs. Messages that are under way may arrive after it has ended;
* a response may have any type, also one that is not a `WorkerResponseType`. The data of an
  `ERROR` is an object, as `failWith` makes it. The listeners of progress and log entries are
  left out: they touch no task.

`tasks_settled` says when no promise is forgotten; `forgotten_promise` has a run for each way to
forget one.
-/

namespace Haybarn.Worker.AsyncTasks

open Haybarn.Lib Replies

abbrev PromiseId := Nat

/-- A task in `_pendingRequests`. -/
structure Pending where
  mid : MessageId
  type : WorkerRequestType
  promise : PromiseId
  /-- `postTask` has not thrown, so its promise follows the one of the task. -/
  awaited : Bool
  deriving DecidableEq, Repr

/-- Why a promise was settled. -/
inductive Cause
  /-- The response with this `requestId`. -/
  | response (requestId : MessageId)
  | noWorker
  | postFailed
  deriving DecidableEq, Repr

inductive Outcome
  | resolved (data : ResponseData)
  | undefined
  | rejected (e : JsError)
  deriving DecidableEq, Repr

structure Settlement where
  promise : PromiseId
  cause : Cause
  outcome : Outcome
  deriving DecidableEq, Repr

/-- `event.data` -/
structure Incoming where
  requestId : Option MessageId
  /-- `none` for a string that is not a `WorkerResponseType` -/
  type : Option WorkerResponseType
  data : ResponseData
  deriving DecidableEq, Repr

structure AsyncDuckDB where
  /-- `_worker !== null` -/
  worker : Bool
  listeners : Bool
  alive : Bool
  nextMessageId : MessageId
  pendingRequests : List Pending
  handed : List (Option MessageId)
  settled : List Settlement

/-- The type of the response that resolves a task. -/
def expectedType : WorkerRequestType → WorkerResponseType
  | .CLOSE_PREPARED | .COLLECT_FILE_STATISTICS | .REGISTER_OPFS_FILE_NAME | .COPY_FILE_TO_PATH
  | .DISCONNECT | .DROP_FILE | .DROP_FILES | .FLUSH_FILES | .INSERT_ARROW_FROM_IPC_STREAM
  | .INSERT_CSV_FROM_PATH | .INSERT_JSON_FROM_PATH | .OPEN | .PING | .PREFETCH_EXTENSIONS
  | .REGISTER_FILE_BUFFER | .REGISTER_FILE_HANDLE | .REGISTER_FILE_URL | .RESET => .OK
  | .INSTANTIATE => .OK
  | .GLOB_FILE_INFOS => .FILE_INFOS
  | .GET_VERSION => .VERSION_STRING
  | .GET_FEATURE_FLAGS => .FEATURE_FLAGS
  | .GET_TABLE_NAMES => .TABLE_NAMES
  | .TOKENIZE => .SCRIPT_TOKENS
  | .COPY_FILE_TO_BUFFER => .FILE_BUFFER
  | .EXPORT_FILE_STATISTICS => .FILE_STATISTICS
  | .CONNECT => .CONNECTION_INFO
  | .RUN_PREPARED | .RUN_QUERY => .QUERY_RESULT
  | .SEND_PREPARED => .QUERY_RESULT_HEADER
  | .START_PENDING_QUERY => .QUERY_RESULT_HEADER_OR_NULL
  | .POLL_PENDING_QUERY => .QUERY_RESULT_HEADER_OR_NULL
  | .GET_INTERRUPT_HANDLE => .INTERRUPT_HANDLE
  | .CANCEL_PENDING_QUERY => .SUCCESS
  | .FETCH_QUERY_RESULTS => .QUERY_RESULT_CHUNK
  | .CREATE_PREPARED => .PREPARED_STATEMENT_ID

/-- What the dispatcher replies is what the bindings expect. -/
theorem expectedType_eq_replyType (type : WorkerRequestType) :
    expectedType type = replyType type := by
  cases type <;> rfl

/-- The message goes on with the type. -/
def unexpectedType : JsError := ⟨"Error", "unexpected response type"⟩

/-- The error that an `ERROR` response with this data is turned into. -/
def errorOf : ResponseData → JsError
  | .error e => e
  | _ => ⟨"undefined", "undefined"⟩

/-- The three types that `onMessage` handles first. -/
def Incoming.unassociated (response : Incoming) : Bool :=
  response.type = some .PROGRESS_UPDATE || response.type = some .LOG ||
    response.type = some .INSTANTIATE_PROGRESS

/-- How the response settles its task. -/
def Incoming.outcome (response : Incoming) (type : WorkerRequestType) : Outcome :=
  if response.type = some .ERROR then .rejected (errorOf response.data)
  else if response.type = some (expectedType type) then .resolved response.data
  else .rejected unexpectedType

namespace AsyncDuckDB

/-- The constructor, with or without a worker to attach to. -/
def initial (worker : Bool) : AsyncDuckDB := ⟨worker, worker, worker, 0, [], [], []⟩

/-! ## Tasks and responses -/

/-- Settle the promise of the task, if `postTask` still waits for it. -/
def settle (c : AsyncDuckDB) (task : Pending) (cause : Cause) (outcome : Outcome) :
    AsyncDuckDB :=
  if task.awaited then { c with settled := c.settled ++ [⟨task.promise, cause, outcome⟩] } else c

/-- `postTask`; `e` is what `worker.postMessage` throws, if it throws. -/
def postTask (c : AsyncDuckDB) (type : WorkerRequestType) (e : Option JsError) : AsyncDuckDB :=
  let promise := c.handed.length
  if c.worker = false then
    { c with handed := c.handed ++ [none]
             settled := c.settled ++ [⟨promise, .noWorker, .undefined⟩] }
  else
    let mid := c.nextMessageId
    let entered :=
      { c with nextMessageId := mid + 1
               handed := c.handed ++ [some mid]
               pendingRequests := c.pendingRequests ++ [⟨mid, type, promise, e.isNone⟩] }
    match e with
    | none => entered
    | some e =>
      { entered with settled := entered.settled ++ [⟨promise, .postFailed, .rejected e⟩] }

def onMessage (c : AsyncDuckDB) (response : Incoming) : AsyncDuckDB :=
  if response.unassociated then c
  else
    match response.requestId with
    | none => c
    | some requestId =>
      match c.pendingRequests.find? (·.mid == requestId) with
      | none => c
      | some task =>
        { c with pendingRequests := c.pendingRequests.eraseP (·.mid == requestId) }.settle task
          (.response requestId) (response.outcome task.type)

/-! ## The worker goes away -/

/-- `onError`; a `fatal` error is one after which the worker does not run. -/
def onError (c : AsyncDuckDB) (fatal : Bool) : AsyncDuckDB :=
  { c with alive := c.alive && !fatal, pendingRequests := [] }

def onClose (c : AsyncDuckDB) : AsyncDuckDB :=
  let closed := { c with alive := false }
  if closed.pendingRequests.length ≠ 0 then closed else { closed with pendingRequests := [] }

def detach (c : AsyncDuckDB) : AsyncDuckDB :=
  if c.worker = false then c else { c with worker := false, listeners := false }

def terminate (c : AsyncDuckDB) : AsyncDuckDB :=
  if c.worker = false then c else { c with worker := false, alive := false }

end AsyncDuckDB

/-! ## Steps -/

inductive Event
  | post (type : WorkerRequestType) (e : Option JsError)
  | message (response : Incoming)
  | error (fatal : Bool)
  | close
  | detach
  | terminate
  deriving DecidableEq, Repr

def step (c : AsyncDuckDB) : Event → Option AsyncDuckDB
  | .post type e => some (c.postTask type e)
  | .message response => if c.listeners then some (c.onMessage response) else none
  | .error fatal => if c.listeners then some (c.onError fatal) else none
  | .close => if c.listeners then some c.onClose else none
  | .detach => some c.detach
  | .terminate => some c.terminate

namespace AsyncDuckDB

/-- The worker can still respond. -/
def Responsive (c : AsyncDuckDB) : Prop := c.listeners = true ∧ c.alive = true

instance (c : AsyncDuckDB) : Decidable c.Responsive := inferInstanceAs (Decidable (_ ∧ _))

/-- No promise waits for a response. -/
def Quiet (c : AsyncDuckDB) : Prop := ∀ task ∈ c.pendingRequests, task.awaited = false

instance (c : AsyncDuckDB) : Decidable c.Quiet :=
  inferInstanceAs (Decidable (∀ task ∈ c.pendingRequests, _))

end AsyncDuckDB

/-- The worker fails, closes or is taken away only when nothing waits for it, and a task is
posted to no worker or to one that can respond. -/
def Careful (c : AsyncDuckDB) : Event → Prop
  | .post _ e => c.worker = true → e = none → c.Responsive
  | .message _ => True
  | .error _ => c.Quiet
  | .close => c.Quiet
  | .detach => c.worker = true → c.Quiet
  | .terminate => c.worker = true → c.Quiet

instance (c : AsyncDuckDB) (e : Event) : Decidable (Careful c e) :=
  match e with
  | .post _ _ => inferInstanceAs (Decidable (_ → _ → _))
  | .message _ => .isTrue trivial
  | .error _ => inferInstanceAs (Decidable c.Quiet)
  | .close => inferInstanceAs (Decidable c.Quiet)
  | .detach => inferInstanceAs (Decidable (_ → _))
  | .terminate => inferInstanceAs (Decidable (_ → _))

/-! ## Counting -/

/-- What a task contributes to the count of a promise. -/
def Pending.count (task : Pending) (p : PromiseId) : Nat :=
  if task.awaited && task.promise == p then 1 else 0

namespace AsyncDuckDB

/-- How often the promise has been settled. -/
def settlements (c : AsyncDuckDB) (p : PromiseId) : Nat :=
  c.settled.countP fun s => s.promise == p

/-- The pending tasks that the promise waits for. -/
def waitsFor (c : AsyncDuckDB) (p : PromiseId) : Nat :=
  c.pendingRequests.countP fun task => task.awaited && task.promise == p

/-- **No promise is forgotten**: each one has been settled exactly once, or it waits for one
task whose response can still come. -/
structure Accounted (c : AsyncDuckDB) : Prop where
  once : ∀ p : Nat, p < c.handed.length → c.settlements p + c.waitsFor p = 1
  responsive : ¬ c.Quiet → c.Responsive

/-- What every run keeps: no promise is settled twice, and a response settles only the promise
that was given its id. -/
structure Inv (c : AsyncDuckDB) : Prop where
  atMostOnce : ∀ p : Nat, c.settlements p + c.waitsFor p ≤ if p < c.handed.length then 1 else 0
  pending : ∀ task ∈ c.pendingRequests, c.handed[task.promise]? = some (some task.mid)
  responded : ∀ s ∈ c.settled, ∀ requestId, s.cause = .response requestId →
    c.handed[s.promise]? = some (some requestId)

variable {c c' : AsyncDuckDB} {p : Nat}

theorem waitsFor_eq_zero_of_quiet (h : c.Quiet) : c.waitsFor p = 0 := by
  unfold waitsFor
  rw [List.countP_eq_zero]
  intro task htask
  rw [h task htask]
  exact Bool.false_ne_true

theorem waitsFor_pos {task : Pending} (htask : task ∈ c.pendingRequests)
    (hawaited : task.awaited = true) : 0 < c.waitsFor task.promise := by
  unfold waitsFor
  rw [List.countP_pos_iff]
  exact ⟨task, htask, by rw [hawaited]; exact beq_self_eq_true task.promise⟩

theorem exists_awaited (h : ¬ c.Quiet) :
    ∃ task ∈ c.pendingRequests, task.awaited = true := by
  unfold Quiet at h
  push Not at h
  obtain ⟨task, htask, hawaited⟩ := h
  exact ⟨task, htask, by simpa using hawaited⟩

theorem settlements_settle {task : Pending} {cause : Cause} {outcome : Outcome} :
    (c.settle task cause outcome).settlements p = c.settlements p + task.count p := by
  unfold settle settlements Pending.count
  split
  next h =>
    rw [List.countP_append, List.countP_singleton, h, Bool.true_and]
  next h =>
    rw [Bool.not_eq_true] at h
    rw [h, Bool.false_and, if_neg Bool.false_ne_true]
    rfl

theorem waitsFor_settle {task : Pending} {cause : Cause} {outcome : Outcome} :
    (c.settle task cause outcome).waitsFor p = c.waitsFor p := by
  unfold settle
  split <;> rfl

/-- Deleting the entry of a message id takes away what its task contributed. -/
theorem countP_eraseP {tasks : List Pending} {task : Pending} {requestId : MessageId}
    (h : tasks.find? (·.mid == requestId) = some task) :
    (tasks.eraseP (·.mid == requestId)).countP (fun t => t.awaited && t.promise == p) +
      task.count p = tasks.countP fun t => t.awaited && t.promise == p := by
  obtain ⟨hmid, before, after, rfl, hbefore⟩ := List.find?_eq_some_iff_append.mp h
  have herase : (before ++ task :: after).eraseP (·.mid == requestId) = before ++ after := by
    rw [List.eraseP_append_right _ (fun t ht => by simpa using hbefore t ht), List.eraseP_cons,
      hmid]
    rfl
  rw [herase, List.countP_append, List.countP_append, List.countP_cons]
  unfold Pending.count
  omega

theorem mem_of_find {tasks : List Pending} {task : Pending} {requestId : MessageId}
    (h : tasks.find? (·.mid == requestId) = some task) : task ∈ tasks ∧ task.mid = requestId :=
  ⟨List.mem_of_find?_eq_some h, by simpa using List.find?_some h⟩

/-- What a message does: nothing, or it takes a task and settles its promise. -/
theorem onMessage_cases (c : AsyncDuckDB) (response : Incoming) :
    c.onMessage response = c ∨ ∃ requestId task,
      c.pendingRequests.find? (·.mid == requestId) = some task ∧
        c.onMessage response =
          { c with pendingRequests := c.pendingRequests.eraseP (·.mid == requestId) }.settle task
            (.response requestId) (response.outcome task.type) := by
  unfold onMessage
  split
  · exact .inl rfl
  · split
    · exact .inl rfl
    next requestId _ =>
      split
      · exact .inl rfl
      next task htask => exact .inr ⟨requestId, task, htask, rfl⟩

theorem handed_settle {task : Pending} {cause : Cause} {outcome : Outcome} :
    (c.settle task cause outcome).handed = c.handed := by
  unfold settle
  split <;> rfl

theorem pendingRequests_settle {task : Pending} {cause : Cause} {outcome : Outcome} :
    (c.settle task cause outcome).pendingRequests = c.pendingRequests := by
  unfold settle
  split <;> rfl

theorem responsive_settle {task : Pending} {cause : Cause} {outcome : Outcome} :
    (c.settle task cause outcome).Responsive ↔ c.Responsive := by
  unfold settle
  split <;> exact Iff.rfl

/-! ## What each step does to the count -/

/-- A message moves its task from the waiting ones to the settled ones. -/
theorem onMessage_count {response : Incoming} :
    (c.onMessage response).settlements p + (c.onMessage response).waitsFor p =
      c.settlements p + c.waitsFor p := by
  obtain hsame | ⟨requestId, task, htask, hset⟩ := c.onMessage_cases response
  · rw [hsame]
  · rw [hset, settlements_settle, waitsFor_settle]
    have hcount := countP_eraseP (p := p) htask
    unfold settlements waitsFor
    dsimp only
    omega

theorem onMessage_handed {response : Incoming} : (c.onMessage response).handed = c.handed := by
  obtain hsame | ⟨requestId, task, -, hset⟩ := c.onMessage_cases response
  · rw [hsame]
  · rw [hset, handed_settle]

/-- A message leaves the worker alone and adds no task. -/
theorem onMessage_kept {response : Incoming} :
    ((c.onMessage response).Responsive ↔ c.Responsive) ∧
      ∀ task ∈ (c.onMessage response).pendingRequests, task ∈ c.pendingRequests := by
  obtain hsame | ⟨requestId, task, -, hset⟩ := c.onMessage_cases response
  · rw [hsame]
    exact ⟨Iff.rfl, fun _ h => h⟩
  · rw [hset, responsive_settle, pendingRequests_settle]
    exact ⟨Iff.rfl, fun _ h => List.mem_of_mem_eraseP h⟩

theorem postTask_of_no_worker (h : c.worker = false) (type : WorkerRequestType)
    (e : Option JsError) : c.postTask type e =
      { c with handed := c.handed ++ [none]
               settled := c.settled ++ [⟨c.handed.length, .noWorker, .undefined⟩] } :=
  if_pos h

theorem postTask_of_worker (h : ¬ c.worker = false) (type : WorkerRequestType)
    (e : Option JsError) : c.postTask type e =
      { c with nextMessageId := c.nextMessageId + 1
               handed := c.handed ++ [some c.nextMessageId]
               pendingRequests :=
                 c.pendingRequests ++ [⟨c.nextMessageId, type, c.handed.length, e.isNone⟩]
               settled :=
                 match e with
                 | none => c.settled
                 | some e => c.settled ++ [⟨c.handed.length, .postFailed, .rejected e⟩] } := by
  unfold postTask
  rw [if_neg h]
  cases e <;> rfl

theorem postTask_handed (c : AsyncDuckDB) (type : WorkerRequestType) (e : Option JsError) :
    ∃ mid, (c.postTask type e).handed = c.handed ++ [mid] := by
  unfold postTask
  split
  · exact ⟨none, rfl⟩
  · cases e with
    | none => exact ⟨some c.nextMessageId, rfl⟩
    | some e => exact ⟨some c.nextMessageId, rfl⟩

/-- A post adds the new promise, waiting or settled at once. -/
theorem postTask_count {type : WorkerRequestType} {e : Option JsError} :
    (c.postTask type e).settlements p + (c.postTask type e).waitsFor p =
      c.settlements p + c.waitsFor p + if c.handed.length = p then 1 else 0 := by
  unfold postTask settlements waitsFor
  split
  · rw [List.countP_append, List.countP_singleton]
    simp only [beq_iff_eq]
    omega
  · cases e with
    | none =>
      dsimp only
      rw [List.countP_append, List.countP_singleton]
      simp only [Option.isNone_none, Bool.true_and, beq_iff_eq]
      omega
    | some e =>
      dsimp only
      rw [List.countP_append, List.countP_append, List.countP_singleton, List.countP_singleton]
      simp only [Option.isNone_some, Bool.false_and, beq_iff_eq, Bool.false_eq_true, if_false]
      omega

/-! ## The invariant -/

theorem getElem?_append_of_some {mids : List (Option MessageId)} {m mid : Option MessageId}
    (h : mids[p]? = some mid) : (mids ++ [m])[p]? = some mid := by
  obtain ⟨hlt, -⟩ := List.getElem?_eq_some_iff.mp h
  rw [List.getElem?_append_left hlt, h]

theorem Inv.onMessage (h : c.Inv) (response : Incoming) : (c.onMessage response).Inv where
  atMostOnce p := by
    rw [onMessage_count, onMessage_handed]
    exact h.atMostOnce p
  pending task htask := by
    rw [onMessage_handed]
    exact h.pending task (onMessage_kept.2 task htask)
  responded s hs requestId hcause := by
    rw [onMessage_handed]
    obtain hsame | ⟨requestId', task, htask, hset⟩ := c.onMessage_cases response
    · rw [hsame] at hs
      exact h.responded s hs requestId hcause
    · rw [hset] at hs
      unfold settle at hs
      split at hs
      next =>
        obtain hs | hs := List.mem_append.mp hs
        · exact h.responded s hs requestId hcause
        · obtain rfl := List.mem_singleton.mp hs
          obtain rfl : requestId' = requestId := by injection hcause
          obtain ⟨hmem, rfl⟩ := mem_of_find htask
          exact h.pending task hmem
      next => exact h.responded s hs requestId hcause

theorem Inv.postTask (h : c.Inv) (type : WorkerRequestType) (e : Option JsError) :
    (c.postTask type e).Inv where
  atMostOnce p := by
    obtain ⟨mid, hhanded⟩ := c.postTask_handed type e
    have hbefore := h.atMostOnce p
    rw [postTask_count, hhanded, List.length_append, List.length_singleton]
    by_cases hlt : p < c.handed.length
    · rw [if_pos hlt] at hbefore
      have hold : ¬ c.handed.length = p := by omega
      have hlt' : p < c.handed.length + 1 := by omega
      rw [if_neg hold, if_pos hlt']
      exact hbefore
    · rw [if_neg hlt] at hbefore
      by_cases hnew : c.handed.length = p
      · have hlt' : p < c.handed.length + 1 := by omega
        rw [if_pos hnew, if_pos hlt']
        omega
      · rw [if_neg hnew]
        omega
  pending task htask := by
    by_cases hw : c.worker = false
    · rw [postTask_of_no_worker hw] at htask ⊢
      exact getElem?_append_of_some (h.pending task htask)
    · rw [postTask_of_worker hw] at htask ⊢
      obtain htask | htask := List.mem_append.mp htask
      · exact getElem?_append_of_some (h.pending task htask)
      · obtain rfl := List.mem_singleton.mp htask
        exact List.getElem?_concat_length
  responded s hs requestId hcause := by
    have hnew : ∀ cause {outcome mid}, cause ≠ .response requestId →
        s ∈ c.settled ++ [⟨c.handed.length, cause, outcome⟩] →
          (c.handed ++ [mid])[s.promise]? = some (some requestId) := by
      intro cause _ _ hne hs
      obtain hs | hs := List.mem_append.mp hs
      · exact getElem?_append_of_some (h.responded s hs requestId hcause)
      · obtain rfl := List.mem_singleton.mp hs
        exact absurd hcause hne
    by_cases hw : c.worker = false
    · rw [postTask_of_no_worker hw] at hs ⊢
      dsimp only at hs
      exact hnew .noWorker nofun hs
    · rw [postTask_of_worker hw] at hs ⊢
      cases e with
      | none => exact getElem?_append_of_some (h.responded s hs requestId hcause)
      | some e =>
        dsimp only at hs
        exact hnew .postFailed nofun hs

/-- Dropping the pending tasks, or the worker, settles nothing. -/
theorem Inv.of_settled_eq (h : c.Inv) (hsettled : c'.settled = c.settled)
    (hhanded : c'.handed = c.handed)
    (hpending : c'.pendingRequests = c.pendingRequests ∨ c'.pendingRequests = []) : c'.Inv where
  atMostOnce p := by
    have hbefore := h.atMostOnce p
    unfold settlements waitsFor at hbefore ⊢
    rw [hsettled, hhanded]
    obtain hp | hp := hpending <;> rw [hp]
    · exact hbefore
    · rw [List.countP_nil]
      omega
  pending task htask := by
    rw [hhanded]
    obtain hp | hp := hpending <;> rw [hp] at htask
    · exact h.pending task htask
    · cases htask
  responded s hs := by
    rw [hsettled] at hs
    rw [hhanded]
    exact h.responded s hs

theorem initial_inv (worker : Bool) : (initial worker).Inv :=
  ⟨fun _ => Nat.zero_le _, nofun, nofun⟩

/-! ## Accounting -/

theorem initial_accounted (worker : Bool) : (initial worker).Accounted :=
  ⟨nofun, fun h => absurd (fun _ htask => nomatch htask) h⟩

/-- When the worker can no longer respond, the promises that waited for it are forgotten. -/
theorem accounted_iff_of_gone (hacc : c.Accounted) (hsettled : c'.settled = c.settled)
    (hhanded : c'.handed = c.handed) (hpending : c'.pendingRequests = c.pendingRequests)
    (hgone : ¬ c'.Responsive) : c'.Accounted ↔ c.Quiet := by
  constructor
  · intro h
    by_contra hquiet
    refine hgone (h.responsive fun hq => hquiet ?_)
    unfold Quiet at hq
    rwa [hpending] at hq
  · intro hquiet
    constructor
    · intro p hp
      rw [hhanded] at hp
      have hbefore := hacc.once p hp
      unfold settlements waitsFor at hbefore ⊢
      rw [hsettled, hpending]
      exact hbefore
    · intro h
      refine absurd ?_ h
      unfold Quiet
      rwa [hpending]

/-- Clearing the pending tasks forgets the promises that waited for them. -/
theorem accounted_iff_of_cleared (hinv : c.Inv) (hacc : c.Accounted)
    (hsettled : c'.settled = c.settled) (hhanded : c'.handed = c.handed)
    (hpending : c'.pendingRequests = []) : c'.Accounted ↔ c.Quiet := by
  have hquiet' : c'.Quiet := by
    unfold Quiet
    rw [hpending]
    nofun
  have hwaits : ∀ p, c'.waitsFor p = 0 := fun p => waitsFor_eq_zero_of_quiet hquiet'
  have hsame : ∀ p, c'.settlements p = c.settlements p := by
    intro p
    unfold settlements
    rw [hsettled]
  constructor
  · intro h
    by_contra hquiet
    obtain ⟨task, htask, hawaited⟩ := exists_awaited hquiet
    obtain ⟨hlt, -⟩ := List.getElem?_eq_some_iff.mp (hinv.pending task htask)
    have hpos := waitsFor_pos htask hawaited
    have hbefore := hacc.once task.promise hlt
    have hafter := h.once task.promise (by rw [hhanded]; exact hlt)
    rw [hsame, hwaits] at hafter
    omega
  · intro hquiet
    constructor
    · intro p hp
      rw [hhanded] at hp
      have hbefore := hacc.once p hp
      rw [waitsFor_eq_zero_of_quiet hquiet] at hbefore
      rw [hsame, hwaits]
      exact hbefore
    · exact fun h => absurd hquiet' h

theorem Accounted.onMessage (h : c.Accounted) (response : Incoming) :
    (c.onMessage response).Accounted where
  once p hp := by
    rw [onMessage_handed] at hp
    rw [onMessage_count]
    exact h.once p hp
  responsive hquiet := by
    obtain ⟨task, htask, hawaited⟩ := exists_awaited hquiet
    refine onMessage_kept.1.mpr (h.responsive fun hq => ?_)
    have hnot := hq task (onMessage_kept.2 task htask)
    rw [hawaited] at hnot
    cases hnot

/-- The promise of a post is the new one: it counts once, and so do the others. -/
theorem Accounted.postTask_once (hinv : c.Inv) (h : c.Accounted) (type : WorkerRequestType)
    (e : Option JsError) (p : Nat) (hp : p < (c.postTask type e).handed.length) :
    (c.postTask type e).settlements p + (c.postTask type e).waitsFor p = 1 := by
  obtain ⟨mid, hhanded⟩ := c.postTask_handed type e
  rw [hhanded, List.length_append, List.length_singleton] at hp
  rw [postTask_count]
  by_cases hlt : p < c.handed.length
  · have hold : ¬ c.handed.length = p := by omega
    rw [if_neg hold]
    exact h.once p hlt
  · have hnew : c.handed.length = p := by omega
    have hnone := hinv.atMostOnce p
    rw [if_neg hlt] at hnone
    rw [if_pos hnew]
    omega

theorem postTask_accounted_iff (hinv : c.Inv) (h : c.Accounted) (type : WorkerRequestType)
    (e : Option JsError) : (c.postTask type e).Accounted ↔
      (c.worker = true → e = none → c.Responsive) := by
  have honce := h.postTask_once hinv type e
  by_cases hw : c.worker = false
  · refine iff_of_true ⟨honce, fun hquiet => ?_⟩ (fun hw' => by rw [hw] at hw'; cases hw')
    rw [postTask_of_no_worker hw] at hquiet ⊢
    exact h.responsive hquiet
  · have hworker : c.worker = true := by simpa using hw
    rw [postTask_of_worker hw] at honce ⊢
    constructor
    · intro hacc _ he
      subst he
      refine hacc.responsive fun hquiet => ?_
      have hnot := hquiet ⟨c.nextMessageId, type, c.handed.length, true⟩
        (List.mem_append_right _ (List.mem_singleton_self _))
      cases hnot
    · intro hcare
      refine ⟨honce, fun hquiet => ?_⟩
      obtain ⟨task, htask, hawaited⟩ := exists_awaited hquiet
      obtain htask | htask := List.mem_append.mp htask
      · refine h.responsive fun hq => ?_
        have hnot := hq task htask
        rw [hawaited] at hnot
        cases hnot
      · obtain rfl := List.mem_singleton.mp htask
        cases e with
        | none => exact hcare hworker rfl
        | some e => cases hawaited

end AsyncDuckDB

open AsyncDuckDB

variable {c c' : AsyncDuckDB} {e : Event}

/-- An event by which the worker fails, closes or is taken away settles no promise, and leaves
the pending tasks or forgets them all. -/
theorem step_inv (hinv : c.Inv) (h : step c e = some c') : c'.Inv := by
  cases e with
  | post type e =>
    obtain rfl := Option.some.inj h
    exact hinv.postTask type e
  | message response =>
    unfold step at h
    dsimp only at h
    split at h
    · obtain rfl := Option.some.inj h
      exact hinv.onMessage response
    · cases h
  | error fatal =>
    unfold step at h
    dsimp only at h
    split at h
    · obtain rfl := Option.some.inj h
      exact hinv.of_settled_eq rfl rfl (.inr rfl)
    · cases h
  | close =>
    unfold step at h
    dsimp only at h
    split at h
    · obtain rfl := Option.some.inj h
      unfold onClose
      dsimp only
      split
      · exact hinv.of_settled_eq rfl rfl (.inl rfl)
      · exact hinv.of_settled_eq rfl rfl (.inr rfl)
    · cases h
  | detach =>
    obtain rfl := Option.some.inj h
    unfold detach
    split
    · exact hinv
    · exact hinv.of_settled_eq rfl rfl (.inl rfl)
  | terminate =>
    obtain rfl := Option.some.inj h
    unfold terminate
    split
    · exact hinv
    · exact hinv.of_settled_eq rfl rfl (.inl rfl)

/-- One step forgets no promise, exactly if it is careful. -/
theorem step_accounted_iff (hinv : c.Inv) (hacc : c.Accounted) (h : step c e = some c') :
    c'.Accounted ↔ Careful c e := by
  cases e with
  | post type e =>
    obtain rfl := Option.some.inj h
    exact postTask_accounted_iff hinv hacc type e
  | message response =>
    unfold step at h
    dsimp only at h
    split at h
    · obtain rfl := Option.some.inj h
      exact iff_of_true (hacc.onMessage response) trivial
    · cases h
  | error fatal =>
    unfold step at h
    dsimp only at h
    split at h
    · obtain rfl := Option.some.inj h
      exact accounted_iff_of_cleared hinv hacc rfl rfl rfl
    · cases h
  | close =>
    unfold step at h
    dsimp only at h
    split at h
    · obtain rfl := Option.some.inj h
      unfold onClose
      dsimp only
      split
      next => exact accounted_iff_of_gone hacc rfl rfl rfl fun hr => nomatch hr.2
      next => exact accounted_iff_of_cleared hinv hacc rfl rfl rfl
    · cases h
  | detach =>
    obtain rfl := Option.some.inj h
    unfold detach Careful
    split
    next hw => exact iff_of_true hacc (fun hw' => by rw [hw] at hw'; cases hw')
    next hw =>
      have hiff := @accounted_iff_of_gone c { c with worker := false, listeners := false } hacc rfl rfl rfl
        fun hr => Bool.false_ne_true hr.1
      refine hiff.trans ?_
      exact ⟨fun hq _ => hq, fun hq => hq (by simpa using hw)⟩
  | terminate =>
    obtain rfl := Option.some.inj h
    unfold terminate Careful
    split
    next hw => exact iff_of_true hacc (fun hw' => by rw [hw] at hw'; cases hw')
    next hw =>
      have hiff := @accounted_iff_of_gone c { c with worker := false, alive := false } hacc rfl rfl rfl
        fun hr => Bool.false_ne_true hr.2
      refine hiff.trans ?_
      exact ⟨fun hq _ => hq, fun hq => hq (by simpa using hw)⟩

/-- **Every promise is settled once.** In a run in which the worker fails, closes or is taken
away only when nothing waits for it, and no task is posted to a worker that is gone, each
promise has been settled exactly once or waits for one task of a worker that can respond; and
a response has settled only the promise that was given its id. -/
theorem tasks_settled (worker : Bool) (es : List Event) (c : AsyncDuckDB)
    (hrun : Run step Careful (.initial worker) es c) :
    c.Accounted ∧ ∀ s ∈ c.settled, ∀ requestId, s.cause = .response requestId →
      c.handed[s.promise]? = some (some requestId) := by
  have h : c.Inv ∧ c.Accounted := by
    refine hrun.invariant (P := fun c => c.Inv ∧ c.Accounted)
      ⟨AsyncDuckDB.initial_inv worker, initial_accounted worker⟩ ?_
    intro _ _ _ ⟨hinv, hacc⟩ hok hs
    exact ⟨step_inv hinv hs, (step_accounted_iff hinv hacc hs).mpr hok⟩
  exact ⟨h.2, h.1.responded⟩

/-- Two tasks answered in the other order, the second one with a wrong type, then a task
without a worker. -/
def twoTasks : List Event :=
  [.post .PING none, .post .CONNECT none, .message ⟨some 5, some .OK, .null⟩,
    .message ⟨some 1, some .OK, .null⟩, .message ⟨some 0, some .OK, .null⟩, .terminate,
    .post .PING none]

theorem tasks_settled_two : ∃ c, Run step Careful (.initial true) twoTasks c ∧ c.Quiet ∧
    c.handed.length = 3 ∧ c.Accounted := by
  obtain ⟨c, hrun, hc⟩ := Run.exists_of_execute
    (show (execute step Careful (.initial true) twoTasks).map
      (fun c => decide (c.Quiet ∧ c.handed.length = 3)) = some true from rfl)
  obtain ⟨hquiet, hlen⟩ := of_decide_eq_true hc
  exact ⟨c, hrun, hquiet, hlen, (tasks_settled true twoTasks c hrun).1⟩

/-- A task that is pending when the worker fails, closes or is taken away, or that is posted
to a worker that has closed: its promise has not been settled, and no response can come. -/
theorem forgotten_promise :
    ∀ es ∈ [[.post .PING none, .error true], [.post .PING none, .error false],
      [.post .PING none, .close], [.post .PING none, .detach], [.post .PING none, .terminate],
      [.close, .post .PING none]],
    ∃ c, Run step Always (.initial true) es c ∧ c.handed.length = 1 ∧ c.settlements 0 = 0 ∧
      ¬ c.Accounted := by
  intro es hes
  have hforgotten : ∃ c, Run step Always (.initial true) es c ∧
      decide (c.handed.length = 1 ∧ c.settlements 0 = 0 ∧ (c.Responsive → c.Quiet)) = true := by
    simp only [List.mem_cons, List.not_mem_nil, or_false] at hes
    obtain rfl | rfl | rfl | rfl | rfl | rfl := hes <;> exact ⟨_, .of_execute rfl, rfl⟩
  obtain ⟨c, hrun, hc⟩ := hforgotten
  obtain ⟨hlen, hsettled, hgone⟩ := of_decide_eq_true hc
  refine ⟨c, hrun, hlen, hsettled, fun hacc => ?_⟩
  have honce := hacc.once 0 (by omega)
  have hquiet : c.Quiet := by
    by_contra hnot
    exact hnot (hgone (hacc.responsive hnot))
  rw [hsettled, waitsFor_eq_zero_of_quiet hquiet] at honce
  cases honce

/-- The worker fails while a task waits for it. -/
theorem forgotten_tasks : ∃ c,
    Run step Always (.initial true) [.post .PING none, .error true] c ∧ c.handed.length = 1 ∧
      c.settlements 0 = 0 ∧ ¬ c.Accounted :=
  forgotten_promise _ (List.mem_cons_self ..)

end Haybarn.Worker.AsyncTasks
