import Haybarn.Lib.Run
import Haybarn.Lib.Utf8

/-!
# Asking the user for an authorization code

`duckdb_wasm_open_auth_url` of `js-stubs.js` on the engine's worker and `oauth-bridge.ts` on the
page. A call clears the flag of a shared buffer, posts the URL and waits for the flag; the page
opens a popup, waits for a callback on a broadcast channel, and writes the code, or an error,
into the buffer.

Mirroring notes:

* the worker and the page run concurrently: an event is one access to the shared buffer, or what
  the page's event loop does between two accesses. `writeSab` is spread over `store` events,
  one for each lane and byte it stores;
* both sides have the buffer. A call is named by a number, and so are the popup and the handler
  of its message; a popup blocker leaves a call without either;
* every open `BroadcastChannel` gets every callback, also those of popups that other pages of
  the origin opened (`none`). The delivery to each channel is an event of its own;
* timers fire whenever they like: the clock of the page and the intervals that the worker counts
  are independent;
* of a message only what `onmessage` reads is kept; a missing string is `""`, as both are falsy.
  The text of `_duckdb_wasm_auth_error` is left out;
* `flagBy`, `relayed` and `returned` are a record that no handler reads.
-/

namespace Haybarn.OAuth

open Haybarn.Lib

/-- An `oauth-callback` message. -/
structure Callback where
  code : String
  error : String
  errorDescription : String
  deriving DecidableEq, Repr

/-- `SAB_BYTES - 8` -/
def maxBytes : Nat := 8184

/-- The shared buffer: `int32[0]`, `int32[1]`, and the bytes from 8 on. -/
structure Sab where
  flag : Int
  len : Nat
  bytes : Nat → UInt8

/-- A plain store of `writeSab`. -/
inductive Store
  | len (n : Nat)
  | byte (i : Nat) (b : UInt8)
  deriving DecidableEq, Repr

def Sab.store (sab : Sab) : Store → Sab
  | .len n => { sab with len := n }
  | .byte i b => { sab with bytes := Function.update sab.bytes i b }

def byteStores (bytes : List UInt8) : List Store := bytes.mapIdx .byte

/-- The stores of `writeSab` before the one of the flag. -/
def payloadStores (payload : String) : List Store :=
  let encoded := textEncode payload
  if maxBytes < encoded.length then byteStores (encoded.take maxBytes) ++ [.len maxBytes]
  else .len encoded.length :: byteStores encoded

/-- Why the page writes into the buffer. -/
inductive Origin
  /-- A callback that was relayed by a popup of this page, or of another one. -/
  | callback (popup : Option Nat) (m : Callback)
  | timeout (call : Nat)
  | blocked (call : Nat)
  deriving DecidableEq, Repr

def Origin.isBlocked : Origin → Bool
  | .blocked _ => true
  | _ => false

/-- A `writeSab` in progress: what is left to store, and whether the flag has been. -/
structure Write where
  origin : Origin
  data : List Store
  flag : Int
  raised : Bool := false

/-- `writeSab` -/
def writeSab (origin : Origin) (flag : Int) (payload : String) : Write :=
  { origin, flag, data := payloadStores payload }

/-- What `onmessage` writes. -/
def Callback.write (popup : Option Nat) (m : Callback) : Write :=
  if m.code ≠ "" then writeSab (.callback popup m) 1 m.code
  else
    let err := if m.errorDescription ≠ "" then m.errorDescription
      else if m.error ≠ "" then m.error else "Authentication failed"
    writeSab (.callback popup m) (-1) err

/-- A handler with its channel: `inbox` are the messages still to be delivered. -/
structure Handler where
  inbox : List (Option Nat × Callback)
  settled : Bool
  deriving DecidableEq, Repr

/-- A channel that is still open gets the message. -/
def Handler.receive (r : Option Nat × Callback) (x : Handler) : Handler :=
  if x.settled then x else { x with inbox := x.inbox ++ [r] }

/-- Where the worker is in `duckdb_wasm_open_auth_url`. -/
inductive Worker
  | idle
  /-- The flag is cleared, the URL not yet posted. -/
  | posting (call : Nat) (timeout : Int)
  /-- Before the load in the head of the loop. -/
  | polling (call : Nat) (timeout : Int) (elapsed : Nat)
  /-- Before `Atomics.wait`, and in it. -/
  | entering (call : Nat) (timeout : Int) (elapsed : Nat)
  | waiting (call : Nat) (timeout : Int) (elapsed : Nat)
  /-- Behind the loop. -/
  | ended (call : Nat)
  | measuring (call : Nat) (flag : Int)
  | copying (call : Nat) (flag : Int) (len : Nat) (got : List UInt8)
  deriving DecidableEq, Repr

/-- The call that the worker is in. -/
def Worker.call : Worker → Option Nat
  | .idle => none
  | .posting c _ | .polling c _ _ | .entering c _ _ | .waiting c _ _ | .ended c
  | .measuring c _ | .copying c _ _ _ => some c

structure State where
  sab : Sab
  worker : Worker
  /-- How many calls there have been. -/
  calls : Nat
  /-- The `open-auth-url` messages on their way. -/
  posted : List Nat
  handlers : Nat → Option Handler
  writing : Option Write
  /-- What has stored the flag since it was cleared. -/
  flagBy : Option Origin
  relayed : List (Option Nat × Callback)
  /-- The calls that have returned, with the code. -/
  returned : List (Nat × Option (List UInt8))

def State.initial : State where
  sab := { flag := 0, len := 0, bytes := fun _ => 0 }
  worker := .idle
  calls := 0
  posted := []
  handlers _ := none
  writing := none
  flagBy := none
  relayed := []
  returned := []

inductive Event
  /-- An extension calls the stub. -/
  | call (timeout : Int)
  /-- The worker goes on; `ok` says whether `_malloc` succeeds. -/
  | work (ok : Bool)
  /-- `Atomics.wait` times out. -/
  | timedOut
  /-- The page handles the next message; `ok` says whether the popup opens. -/
  | popup (ok : Bool)
  /-- A popup posts its callback. -/
  | relay (popup : Option Nat) (m : Callback)
  /-- The channel of a handler delivers. -/
  | message (handler : Nat)
  /-- The timer of a handler fires. -/
  | timer (handler : Nat)
  /-- The page makes its next access to the buffer. -/
  | store
  deriving DecidableEq, Repr

namespace State

/-! ## The worker -/

def beginCall (s : State) (timeout : Int) : State :=
  { s with
    sab := { s.sab with flag := 0 }
    worker := .posting s.calls timeout
    calls := s.calls + 1
    flagBy := none }

def ret (s : State) (call : Nat) (code : Option (List UInt8)) : State :=
  { s with worker := .idle, returned := s.returned ++ [(call, code)] }

/-- The next byte; the last one ends the call. -/
def copy (s : State) (call : Nat) (flag : Int) (len : Nat) (got : List UInt8) : State :=
  let got := got ++ [s.sab.bytes got.length]
  if got.length < len then { s with worker := .copying call flag len got }
  else s.ret call (if flag = -1 then none else some got)

def measure (s : State) (call : Nat) (flag : Int) (ok : Bool) : State :=
  if s.sab.len = 0 then s.ret call none
  else if flag = -1 ∨ ok then { s with worker := .copying call flag s.sab.len [] }
  else s.ret call none

def work (s : State) (ok : Bool) : Option State :=
  match s.worker with
  | .idle | .waiting _ _ _ => none
  | .posting c t => some { s with posted := s.posted ++ [c], worker := .polling c t 0 }
  | .polling c t e =>
    some { s with worker := if s.sab.flag = 0 then .entering c t e else .ended c }
  | .entering c t e =>
    some { s with worker := if s.sab.flag = 0 then .waiting c t e else .polling c t e }
  | .ended c => some { s with worker := .measuring c s.sab.flag }
  | .measuring c flag => some (s.measure c flag ok)
  | .copying c flag len got => some (s.copy c flag len got)

/-- An interval of two seconds is over. -/
def timedOut (s : State) : Option State :=
  match s.worker with
  | .waiting c t e =>
    if 0 < t ∧ t ≤ e + 2000 then some (s.ret c none)
    else some { s with worker := .polling c t (e + 2000) }
  | _ => none

/-! ## The page -/

def setHandler (s : State) (h : Nat) (x : Handler) : State :=
  { s with handlers := Function.update s.handlers h (some x) }

/-- `handleOpenAuthUrl` -/
def openPopup (s : State) (ok : Bool) : Option State :=
  match s.writing, s.posted with
  | none, c :: rest =>
    let s := { s with posted := rest }
    if ok then some (s.setHandler c { inbox := [], settled := false })
    else some { s with
      writing := some (writeSab (.blocked c) (-1) "Popup blocked by browser") }
  | _, _ => none

/-- A callback; the popup of a call exists once its handler does. -/
def relay (s : State) (popup : Option Nat) (m : Callback) : Option State :=
  if popup.all fun c => (s.handlers c).isSome then
    some { s with
      handlers := fun h => (s.handlers h).map (Handler.receive (popup, m))
      relayed := s.relayed ++ [(popup, m)] }
  else none

/-- `cleanup`, then the write. -/
def settle (s : State) (h : Nat) (w : Write) : State :=
  { s.setHandler h { inbox := [], settled := true } with writing := some w }

/-- The message that the channel of a handler delivers next. -/
def nextMessage (s : State) (h : Nat) : Option (Option Nat × Callback) :=
  match s.handlers h with
  | some x => if x.settled then none else x.inbox.head?
  | none => none

/-- `bc.onmessage` -/
def message (s : State) (h : Nat) : Option State :=
  match s.writing, s.nextMessage h with
  | none, some (popup, m) => some (s.settle h (m.write popup))
  | _, _ => none

/-- `timeoutTimer` -/
def timer (s : State) (h : Nat) : Option State :=
  match s.writing, s.handlers h with
  | none, some x =>
    if x.settled then none
    else some (s.settle h (writeSab (.timeout h) (-1) "Authentication timed out"))
  | _, _ => none

/-- `Atomics.notify` -/
def notify (s : State) : State :=
  match s.worker with
  | .waiting c t e => { s with worker := .polling c t e }
  | _ => s

/-- The next access of `writeSab`. -/
def store (s : State) : Option State :=
  match s.writing with
  | none => none
  | some w =>
    match w.data with
    | d :: data => some { s with sab := s.sab.store d, writing := some { w with data } }
    | [] =>
      if w.raised then some { s.notify with writing := none }
      else some { s with
        sab := { s.sab with flag := w.flag }
        writing := some { w with raised := true }
        flagBy := some w.origin }

end State

def step (s : State) : Event → Option State
  | .call timeout => if s.worker = .idle then some (s.beginCall timeout) else none
  | .work ok => s.work ok
  | .timedOut => s.timedOut
  | .popup ok => s.openPopup ok
  | .relay popup m => s.relay popup m
  | .message h => s.message h
  | .timer h => s.timer h
  | .store => s.store

end Haybarn.OAuth
