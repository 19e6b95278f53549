import Mathlib

/-!
# The HTTP mailbox

A thread that needs an HTTP response puts a request in one of the slots of a mailbox and
waits; a helper Worker serves the slots with `fetch`. `Call` is one call of
`FetchViaHelper`, `Serve` is `serve` of one slot, and a step is one atomic access to the
mailbox by one of them, so that a run is an interleaving of any number of calls with the
helper.

Mirroring notes:
- Callers run in parallel with the helper. The tasks of the helper are interleaved here at
  the same grain, which is more than its event loop allows.
- A pointer lane holds the call whose input it points to, or the number of a buffer.
  Buffers are numbered as they are allocated and a number is not used twice, so a use
  after `free` is a use of a freed number.
- There is no clock: where the caller looks at one, the event says what it sees (`Luck`).
  So `PROGRESS`, which restarts one, is not modelled, nor is the doorbell: the helper scans
  whenever it likes, as it does once a second without it.
- What the browser does with bytes and headers is `Web`; what a server answers is the
  event's (`Fate`).
- `holder` is not a lane: it is the call between its claim of the slot and the step by which
  it gives the slot up, for the statements about owners.
-/

namespace Haybarn.Http

abbrev CallId := Nat
abbrev BufferId := Nat

/-- `kSlots`. -/
def kSlots : Nat := 64

inductive State
  | free
  | claimed
  | request
  | inFlight
  | needsBuffer
  | bufferProvided
  | done
  | failed
  | cancelled
  deriving DecidableEq, Repr

inductive FetchOutcome
  | unavailable
  | ok
  | failed
  | cancelled
  | timedOut
  deriving DecidableEq, Repr

/-- What a caller hands over: the arguments of `FetchViaHelper`. -/
structure Request where
  url : List UInt8
  method : List UInt8
  headers : List (List UInt8 × List UInt8) := []
  body : List UInt8 := []
  /-- There is a cancellation flag. -/
  cancellation : Bool := true
  timeoutSeconds : Nat := 0
  deriving DecidableEq, Repr

/-- The lanes of a slot. -/
structure Slot where
  state : State := .free
  abort : Bool := false
  url : Option CallId := none
  urlLen : Nat := 0
  method : Option CallId := none
  methodLen : Nat := 0
  headers : Option CallId := none
  headerCount : Nat := 0
  body : Option CallId := none
  bodyLen : Nat := 0
  size : Nat := 0
  buffer : Option BufferId := none
  copied : Bool := false
  abandoned : Bool := false
  holder : Option CallId := none
  deriving DecidableEq, Repr

/-- What the helper makes of a request: the arguments of `fetch`. -/
structure Asked where
  url : String := ""
  method : String := ""
  headers : List (String × String) := []
  body : Option (List UInt8) := none
  deriving DecidableEq, Repr

structure Response where
  status : Nat
  headers : List (String × String)
  body : List UInt8
  deriving DecidableEq, Repr

/-- A response, and what it is the response to: the call whose URL was read and the request
made. -/
structure Fetch where
  caller : Option CallId
  asked : Asked
  response : Response
  deriving DecidableEq, Repr

/-- What a step does besides changing its slot. -/
inductive Effect
  | nothing
  | unready
  | alloc (size : Nat)
  | free (b : BufferId)
  | write (b : BufferId) (bytes : List UInt8)
  | fetched (f : Fetch)
  deriving DecidableEq, Repr

structure Move (α : Type) where
  who : α
  slot : Slot
  effect : Effect := .nothing

/-! ## The caller -/

/-- Why a caller raised abort. -/
inductive Reason
  | cancelled
  | timedOut
  deriving DecidableEq, Repr

def Reason.outcome : Reason → FetchOutcome
  | .cancelled => .cancelled
  | .timedOut => .timedOut

/-- Where a call is: the next access to the mailbox. -/
inductive CallPC
  | unborn
  | checkReady
  | claim
  /-- The stores of the lanes, and after them that of `REQUEST`. -/
  | fill (k : Nat)
  | poll
  | readSize
  | storeBuffer
  | provide
  | collect
  | release
  | leave (outcome : FetchOutcome)
  | wait
  | recheck
  | takeBack
  | unready
  | decide
  | raiseAbort
  | withdraw
  | checkCopied
  | abandon
  /-- The compare-exchanges after `ABANDONED`. -/
  | sweep (rest : List State)
  | returned (outcome : FetchOutcome)
  deriving DecidableEq, Repr

/-- The slot is the call's. -/
def CallPC.holding : CallPC → Bool
  | .unborn | .checkReady | .claim | .unready | .sweep _ | .returned _ => false
  | _ => true

structure Call where
  pc : CallPC := .unborn
  request : Request := { url := [], method := [] }
  /-- The slot tried or claimed. -/
  slot : Nat := 0
  buffer : Option BufferId := none
  /-- `abort_reason`, once `aborted_at` is set. -/
  aborted : Option Reason := none
  deriving DecidableEq, Repr

/-- What a caller finds when it looks at its clock, its cancellation flag or `malloc`. -/
inductive Luck
  | nothing
  /-- `kPickupTimeout`, or after an abort `kAbortGrace`, has passed. -/
  | overdue
  | cancelled
  | timedOut
  | noMemory
  deriving DecidableEq, Repr

/-- The stores between the claim and `REQUEST`, in their order. -/
def fills (c : CallId) (r : Request) : List (Slot → Slot) :=
  [fun σ => { σ with url := some c },
   fun σ => { σ with urlLen := r.url.length },
   fun σ => { σ with method := some c },
   fun σ => { σ with methodLen := r.method.length },
   fun σ => { σ with headers := some c },
   fun σ => { σ with headerCount := r.headers.length },
   fun σ => { σ with body := some c },
   fun σ => { σ with bodyLen := r.body.length },
   fun σ => { σ with size := 0 },
   fun σ => { σ with buffer := none },
   fun σ => { σ with copied := false },
   fun σ => { σ with abandoned := false },
   fun σ => { σ with abort := false }]

/-- The switch at the head of the waiting loop. -/
def dispatch : State → CallPC
  | .needsBuffer => .readSize
  | .done => .collect
  | .failed | .cancelled => .release
  | _ => .wait

/-- Give the slot back. -/
def Slot.release (σ : Slot) : Slot := { σ with state := .free, holder := none }

/-- The values the caller tries to replace by `FREE` after `ABANDONED`. -/
def finished : List State := [.done, .failed, .cancelled]

/-- What `FAILED` or `CANCELLED` means to the caller. -/
def Call.failure (x : Call) : FetchOutcome :=
  match x.buffer, x.aborted with
  | some _, _ => .failed
  | none, some reason => reason.outcome
  | none, none => .failed

/-- The outcome of a call that gave up. -/
def Call.givenUp (x : Call) : FetchOutcome :=
  match x.aborted with
  | some reason => reason.outcome
  | none => .cancelled

/-- The cancellation flag and the timeout. -/
def Request.gaveUp (r : Request) : Luck → Option Reason
  | .cancelled => if r.cancellation then some .cancelled else none
  | .timedOut => if 0 < r.timeoutSeconds then some .timedOut else none
  | _ => none

/-- `FetchViaHelper`, one access to the mailbox: `ready` is the header lane, `fresh` the
buffer `malloc` would return. -/
def Call.step (c : CallId) (ready : Bool) (fresh : BufferId) (luck : Luck) (σ : Slot) (x : Call) :
    Option (Move Call) :=
  match x.pc with
  | .unborn => none
  | .checkReady =>
    some { who := { x with pc := if ready then .claim else .returned .unavailable }, slot := σ }
  | .claim =>
    if σ.state = .free then
      some { who := { x with pc := .fill 0 }
             slot := { σ with state := .claimed, holder := some c } }
    else if x.slot + 1 < kSlots then some { who := { x with slot := x.slot + 1 }, slot := σ }
    else some { who := { x with pc := .returned .unavailable }, slot := σ }
  | .fill k =>
    match (fills c x.request)[k]? with
    | some store => some { who := { x with pc := .fill (k + 1) }, slot := store σ }
    | none => some { who := { x with pc := .poll }, slot := { σ with state := .request } }
  | .poll => some { who := { x with pc := dispatch σ.state }, slot := σ }
  | .readSize =>
    if x.aborted.isSome ∨ luck = .noMemory then
      some { who := { x with pc := .storeBuffer, buffer := none }, slot := σ }
    else
      some { who := { x with pc := .storeBuffer, buffer := some fresh }, slot := σ
             effect := .alloc σ.size }
  | .storeBuffer =>
    some { who := { x with pc := .provide }, slot := { σ with buffer := x.buffer } }
  | .provide =>
    some { who := { x with pc := .poll }, slot := { σ with state := .bufferProvided } }
  | .collect => some { who := { x with pc := .returned .ok }, slot := σ.release }
  | .release =>
    some { who := { x with pc := .leave x.failure }, slot := σ
           effect := match x.buffer with
             | some b => .free b
             | none => .nothing }
  | .leave outcome => some { who := { x with pc := .returned outcome }, slot := σ.release }
  | .wait => some { who := { x with pc := .recheck }, slot := σ }
  | .recheck =>
    some { who := { x with
             pc := if σ.state = .request ∧ luck = .overdue then .takeBack else .decide }
           slot := σ }
  | .takeBack =>
    if σ.state = .request then some { who := { x with pc := .unready }, slot := σ.release }
    else some { who := { x with pc := .decide }, slot := σ }
  | .unready =>
    some { who := { x with pc := .returned .unavailable }, slot := σ, effect := .unready }
  | .decide =>
    match x.aborted, x.request.gaveUp luck with
    | none, some reason =>
      some { who := { x with pc := .raiseAbort, aborted := some reason }, slot := σ }
    | none, none => some { who := { x with pc := .poll }, slot := σ }
    | some _, _ =>
      some { who := { x with pc := if luck = .overdue then .withdraw else .poll }, slot := σ }
  | .raiseAbort => some { who := { x with pc := .poll }, slot := { σ with abort := true } }
  | .withdraw =>
    if σ.state = .request then
      some { who := { x with pc := .returned x.givenUp }, slot := σ.release }
    else some { who := { x with pc := .checkCopied }, slot := σ }
  | .checkCopied =>
    some { who := { x with pc := if σ.copied then .abandon else .poll }, slot := σ }
  | .abandon =>
    some { who := { x with pc := .sweep finished }
           slot := { σ with abandoned := true, holder := none } }
  | .sweep (value :: rest) =>
    some { who := { x with pc := .sweep rest }
           slot := { σ with state := if σ.state = value then .free else σ.state } }
  | .sweep [] => some { who := { x with pc := .returned x.givenUp }, slot := σ }
  | .returned _ => none

/-! ## The helper -/

/-- `TextDecoder`, `TextEncoder` and `Headers` of the browser. -/
structure Web where
  decode : List UInt8 → String
  encode : String → List UInt8
  /-- `headers.append` accepts the pair. -/
  appendable : String → String → Bool

variable (web : Web)

/-- The `n` low bytes of a number, the lowest first. -/
def littleEndian (n value : Nat) : List UInt8 :=
  (List.range n).map fun i => UInt8.ofNat (value / 256 ^ i)

/-- `encode`: the wire format of a response. -/
def Response.wire (r : Response) : List UInt8 :=
  let head := web.encode ("\r\n".intercalate (r.headers.map fun h => h.1 ++ ": " ++ h.2))
  littleEndian 2 r.status ++ littleEndian 4 head.length ++ head ++
    littleEndian 4 r.body.length ++ r.body

/-- A header of the request is added: not the `User-Agent`, the `Host` under another name. -/
def addHeader (headers : List (String × String)) (h : List UInt8 × List UInt8) :
    List (String × String) :=
  let name := web.decode h.1
  if name = "User-Agent" then headers
  else
    let name := if name = "Host" then "X-Host-Override" else name
    if web.appendable name (web.decode h.2) then headers ++ [(name, web.decode h.2)] else headers

/-- The headers of a request, the first `n` of them. -/
def outgoingHeaders (r : Request) (n : Nat) : List (String × String) :=
  (r.headers.take n).foldl (addHeader web) []

/-- What is fetched for a request. -/
def outgoing (r : Request) : Asked where
  url := web.decode r.url
  method := web.decode r.method
  headers := outgoingHeaders web r r.headers.length
  body := if 0 < r.body.length then some r.body else none

/-- The inputs that are read with a pointer and a length. -/
inductive Part
  | url
  | method
  | body
  deriving DecidableEq, Repr

/-- Where `serve` is: the next access to the mailbox or to the memory of a caller. -/
inductive ServePC
  | idle
  | claim
  /-- The lanes of a part are loaded. -/
  | point (part : Part) (asked : Asked)
  /-- The bytes of a part are copied from the caller's memory. -/
  | copy (part : Part) (ptr : Option CallId) (len : Nat) (asked : Asked)
  | pointHeaders (asked : Asked)
  | copyHeader (ptr : Option CallId) (count i : Nat) (asked : Asked)
  | unreadable
  | storeCopied (asked : Asked)
  | fetching (asked : Asked)
  | storeSize (response : List UInt8)
  | announce (response : List UInt8)
  | awaitBuffer (response : List UInt8)
  | readBuffer (response : List UInt8)
  | write (b : BufferId) (response : List UInt8)
  | finish (state : State)
  | checkAbandoned (state : State)
  | freeSlot (state : State)
  deriving DecidableEq, Repr

structure Serve where
  pc : ServePC := .idle
  /-- `controller.signal.aborted`. -/
  aborted : Bool := false
  deriving DecidableEq, Repr

/-- What comes from outside: memory that cannot be read, the end of the `fetch`. -/
inductive Fate
  | nothing
  | throws
  | responds (response : Response)
  | rejects
  deriving DecidableEq, Repr

/-- The part a slot points to. -/
def Slot.lanes (σ : Slot) : Part → Option CallId × Nat
  | .url => (σ.url, σ.urlLen)
  | .method => (σ.method, σ.methodLen)
  | .body => (σ.body, σ.bodyLen)

/-- After the lanes of a part: its bytes, unless it is a body of no bytes. -/
def pointed (part : Part) (ptr : Option CallId) (len : Nat) (asked : Asked) : ServePC :=
  if part = .body ∧ len = 0 then .storeCopied asked else .copy part ptr len asked

/-- A part that has been copied goes into the request. -/
def copied (part : Part) (r : Request) (len : Nat) (asked : Asked) : ServePC :=
  match part with
  | .url => .point .method { asked with url := web.decode (r.url.take len) }
  | .method => .pointHeaders { asked with method := web.decode (r.method.take len) }
  | .body => .storeCopied { asked with body := some (r.body.take len) }

/-- `serve`, one access at a time; `memory` is what the pointers of a call point to. -/
def Serve.step (memory : CallId → Request) (fate : Fate) (σ : Slot) (v : Serve) :
    Option (Move Serve) :=
  match v.pc with
  | .idle => none
  | .claim =>
    if σ.state = .request then
      some { who := { v with pc := .point .url {} }, slot := { σ with state := .inFlight } }
    else some { who := { v with pc := .idle }, slot := σ }
  | .point part asked =>
    some { who := { v with pc := pointed part (σ.lanes part).1 (σ.lanes part).2 asked }, slot := σ }
  | .copy part ptr len asked =>
    if fate = .throws then some { who := { v with pc := .unreadable }, slot := σ }
    else ptr.map fun c =>
      { who := { v with pc := copied web part (memory c) len asked }, slot := σ }
  | .pointHeaders asked =>
    some { who := { v with pc := .copyHeader σ.headers σ.headerCount 0 asked }, slot := σ }
  | .copyHeader ptr count i asked =>
    if i < count then
      if fate = .throws then some { who := { v with pc := .unreadable }, slot := σ }
      else ptr.bind fun c => (memory c).headers[i]?.map fun h =>
        { who := { v with pc := .copyHeader ptr count (i + 1)
                            { asked with headers := addHeader web asked.headers h } }
          slot := σ }
    else some { who := { v with pc := .point .body asked }, slot := σ }
  | .unreadable =>
    some { who := { v with pc := .finish .failed }, slot := { σ with copied := true } }
  | .storeCopied asked =>
    some { who := { pc := .fetching asked, aborted := false }, slot := { σ with copied := true } }
  | .fetching asked =>
    match fate with
    | .responds response =>
      some { who := { v with pc := .storeSize (response.wire web) }, slot := σ
             effect := .fetched { caller := σ.url, asked, response } }
    | .rejects =>
      some { who := { v with pc := .finish (if v.aborted then .cancelled else .failed) }, slot := σ }
    | _ => none
  | .storeSize response =>
    some { who := { v with pc := .announce response }, slot := { σ with size := response.length } }
  | .announce response =>
    some { who := { v with pc := .awaitBuffer response }, slot := { σ with state := .needsBuffer } }
  | .awaitBuffer response =>
    if σ.state = .needsBuffer then some { who := v, slot := σ }
    else some { who := { v with pc := .readBuffer response }, slot := σ }
  | .readBuffer response =>
    match σ.buffer with
    | none => some { who := { v with pc := .finish .cancelled }, slot := σ }
    | some b => some { who := { v with pc := .write b response }, slot := σ }
  | .write b response =>
    some { who := { v with pc := .finish .done }, slot := σ, effect := .write b response }
  | .finish state =>
    some { who := { v with pc := .checkAbandoned state }, slot := { σ with state } }
  | .checkAbandoned state =>
    some { who := { v with pc := if σ.abandoned then .freeSlot state else .idle }, slot := σ }
  | .freeSlot state =>
    some { who := { v with pc := .idle }
           slot := { σ with state := if σ.state = state then .free else σ.state } }

/-! ## The mailbox -/

structure Buffer where
  size : Nat := 0
  contents : Option (List UInt8) := none
  freed : Bool := false
  deriving DecidableEq, Repr

structure Mailbox where
  ready : Bool := false
  slots : Nat → Slot := fun _ => {}
  calls : Nat → Call := fun _ => {}
  serves : Nat → Serve := fun _ => {}
  buffers : Nat → Buffer := fun _ => {}
  /-- What `malloc` returns next. -/
  fresh : BufferId := 0
  fetches : List Fetch := []

inductive Event
  /-- `duckdb_web_http_fetch_ready`. -/
  | ready
  /-- `FetchViaHelper` is called. -/
  | start (c : CallId) (r : Request)
  | call (c : CallId) (luck : Luck)
  /-- The helper's scan of the slots comes to a slot. -/
  | scan (s : Nat)
  | serve (s : Nat) (fate : Fate)
  /-- `watchAbort` looks at the abort lane. -/
  | watch (s : Nat)
  /-- The caller is done with the buffer it was given. -/
  | freeResult (c : CallId)
  deriving DecidableEq, Repr

namespace Mailbox

def apply (st : Mailbox) : Effect → Mailbox
  | .nothing => st
  | .unready => { st with ready := false }
  | .alloc size =>
    { st with buffers := Function.update st.buffers st.fresh { size }, fresh := st.fresh + 1 }
  | .free b =>
    { st with buffers := Function.update st.buffers b { st.buffers b with freed := true } }
  | .write b bytes =>
    { st with buffers := Function.update st.buffers b { st.buffers b with contents := some bytes } }
  | .fetched f => { st with fetches := st.fetches ++ [f] }

/-- What is left of a call's step: its new state, its slot, the effect. -/
def moveCall (st : Mailbox) (c : CallId) (m : Move Call) : Mailbox :=
  ({ st with
      calls := Function.update st.calls c m.who
      slots := Function.update st.slots (st.calls c).slot m.slot }).apply m.effect

def moveServe (st : Mailbox) (s : Nat) (m : Move Serve) : Mailbox :=
  ({ st with
      serves := Function.update st.serves s m.who
      slots := Function.update st.slots s m.slot }).apply m.effect

def step (st : Mailbox) : Event → Option Mailbox
  | .ready => some { st with ready := true }
  | .start c r =>
    if (st.calls c).pc = .unborn then
      some { st with calls := Function.update st.calls c { pc := .checkReady, request := r } }
    else none
  | .call c luck =>
    ((st.calls c).step c st.ready st.fresh luck (st.slots (st.calls c).slot)).map (st.moveCall c)
  | .scan s =>
    if s < kSlots ∧ (st.serves s).pc = .idle ∧ (st.slots s).state = .request then
      some { st with serves := Function.update st.serves s { pc := .claim } }
    else none
  | .serve s fate =>
    ((st.serves s).step web (fun c => (st.calls c).request) fate (st.slots s)).map (st.moveServe s)
  | .watch s =>
    match (st.serves s).pc with
    | .fetching asked =>
      if (st.slots s).abort then
        some { st with serves := Function.update st.serves s { pc := .fetching asked, aborted := true } }
      else none
    | _ => none
  | .freeResult c =>
    match (st.calls c).pc, (st.calls c).buffer with
    | .returned .ok, some b => if (st.buffers b).freed then none else some (st.apply (.free b))
    | _, _ => none

end Mailbox

end Haybarn.Http
