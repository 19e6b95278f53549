import Haybarn.Lib.Run
import Haybarn.Sab.Calls

/-!
# A channel: many clients, many workers, reused slots

All the slots of a channel, with any number of clients that open slots, use them
under the claim they were given and release them, and any number of workers that
call the worker-side operations for any slot and any claim, however stale. Every
event is the start of a call, one atomic step of one, or its return.

A client that holds a claim has a sending side and a receiving side, each inside
at most one call (`SendOp`, `RecvOp`); it releases the slot when both are out of
their calls. A worker is inside at most one call (`Task`), which carries the
claim it serves; the claim is not zero (with zero the three guarded operations
return at once and touch nothing).

A ring byte carries the side and the claim of the call that stored it (`Cell`).
Nothing reads these marks: they are what a proof can say about a byte's origin.
-/

namespace Haybarn.Sab

/-- Who stored a byte. -/
inductive Side
  | client
  | worker
  deriving DecidableEq, Repr

/-- A ring byte and its origin. -/
structure Cell where
  byte : UInt8
  side : Side
  claim : Int32
  deriving DecidableEq, Repr

/-- The header fields the operations read. -/
structure Channel where
  nSlots : Nat
  ringCap : Nat
  features : Int32
  deriving DecidableEq, Repr

namespace Channel

/-- The chunk as the call's source bytes. -/
def cells (side : Side) (claim : Int32) (chunk : List UInt8) (i : Nat) : Cell :=
  { byte := chunk.getD i 0, side, claim }

inductive SendOp
  | write (chunk : List UInt8) (pc : WritePC)
  | eos (pc : ClosePC)
  deriving DecidableEq, Repr

inductive RecvOp
  | read (n : Nat) (pc : ReadPC Cell)
  | stubRead (n : Nat) (pc : ReadPC Cell)
  | query (pc : QueryPC)
  deriving DecidableEq, Repr

inductive Client
  | idle
  | opening (pc : OpenPC)
  | holding (claim : Int32) (slot : Nat) (send : Option SendOp) (recv : Option RecvOp)
  deriving DecidableEq, Repr

inductive WorkOp
  | read (n : Nat) (pc : ReadPC Cell)
  | write (chunk : List UInt8) (pc : WritePC)
  | close (pc : ClosePC)
  | error (code detail : Int32) (pc : ErrorPC)
  deriving DecidableEq, Repr

structure Task where
  claim : Int32
  slot : Nat
  op : WorkOp
  deriving DecidableEq, Repr

structure State where
  slots : Nat → Slot Cell
  claimSeq : Int32
  clients : Nat → Client
  workers : Nat → Option Task

namespace State

variable (st : State)

def setSlot (s : Nat) (sl : Slot Cell) : State :=
  { st with slots := Function.update st.slots s sl }

def setClient (i : Nat) (c : Client) : State :=
  { st with clients := Function.update st.clients i c }

def setWorker (j : Nat) (t : Option Task) : State :=
  { st with workers := Function.update st.workers j t }

end State

/-! ## The calls in progress -/

variable (ch : Channel)

def sendWrite (claim : Int32) (chunk : List UInt8) : WriteCall Cell :=
  stubWrite ch.ringCap (cells .client claim chunk) chunk.length

def recvRead (n : Nat) : ReadCall := Sab.stubRead ch.ringCap n

def workWrite (claim : Int32) (chunk : List UInt8) : WriteCall Cell :=
  workerWrite ch.ringCap (cells .worker claim chunk) chunk.length claim

def workRead (claim : Int32) (n : Nat) : ReadCall := workerRead ch.ringCap n claim

/-- The next step of the sending side. -/
def SendOp.next (claim : Int32) : SendOp → Option (Instr Cell SendOp)
  | .write chunk pc => ((ch.sendWrite claim chunk).next pc).map (.map (.write chunk))
  | .eos pc => (Closer.stubWriteEos.next pc).map (.map .eos)

/-- The next step of the receiving side. -/
def RecvOp.next : RecvOp → Option (Instr Cell RecvOp)
  | .read n pc => ((ch.recvRead n).next pc).map (.map (.read n))
  | .stubRead n pc => ((ch.recvRead n).stubNext pc).map (.map (.stubRead n))
  | .query pc => pc.next.map (.map .query)

/-- The next step of a worker's call. -/
def WorkOp.next (claim : Int32) : WorkOp → Option (Instr Cell WorkOp)
  | .read n pc => ((ch.workRead claim n).next pc).map (.map (.read n))
  | .write chunk pc => ((ch.workWrite claim chunk).next pc).map (.map (.write chunk))
  | .close pc => ((Closer.workerCloseW2c claim).next pc).map (.map .close)
  | .error code detail pc =>
    (ErrorCall.next { code, detail, claim } pc).map (.map (.error code detail))

/-- The call has returned. -/
def SendOp.isDone : SendOp → Bool
  | .write _ (.done _) => true
  | .eos (.done _) => true
  | _ => false

def RecvOp.isDone : RecvOp → Bool
  | .read _ (.done _ _) => true
  | .stubRead _ (.done _ _) => true
  | .query (.done _) => true
  | _ => false

def WorkOp.isDone : WorkOp → Bool
  | .read _ (.done _ _) => true
  | .write _ (.done _) => true
  | .close (.done _) => true
  | .error _ _ .done => true
  | _ => false

/-! ## Events -/

/-- A call of the sending side. -/
inductive SendCall
  | write (chunk : List UInt8)
  | eos
  deriving DecidableEq, Repr

/-- A call of the receiving side: `stubRead`, its counterpart in `js-stubs.js`, or
the query for a terminal error. -/
inductive RecvCall
  | read (n : Nat)
  | stubRead (n : Nat)
  | query
  deriving DecidableEq, Repr

inductive WorkCall
  | read (n : Nat)
  | write (chunk : List UInt8)
  | close
  | error (code detail : Int32)
  deriving DecidableEq, Repr

def SendCall.start (claim : Int32) : SendCall → SendOp
  | .write chunk => .write chunk ((ch.sendWrite claim chunk).loop 0)
  | .eos => .eos Closer.stubWriteEos.start

def RecvCall.start : RecvCall → RecvOp
  | .read n => .read n (ch.recvRead n).loop
  | .stubRead n => .stubRead n .loadWrite
  | .query => .query (.start ch.features)

def WorkCall.start (claim : Int32) : WorkCall → WorkOp
  | .read n => .read n (ch.workRead claim n).loop
  | .write chunk => .write chunk ((ch.workWrite claim chunk).loop 0)
  | .close => .close (Closer.workerCloseW2c claim).start
  | .error code detail => .error code detail .storeCode

inductive Event
  | openSlot (i : Nat)
  | openStep (i : Nat)
  | release (i : Nat)
  | send (i : Nat) (call : SendCall)
  | sendStep (i : Nat)
  | recv (i : Nat) (call : RecvCall)
  | recvStep (i : Nat)
  | work (j : Nat) (claim : Int32) (slot : Nat) (call : WorkCall)
  | workStep (j : Nat)
  deriving DecidableEq, Repr

/-- The next step of an open, or its return. -/
def openStep (st : State) (i : Nat) : OpenPC → Option State
  | .addSeq => some <|
    { st with claimSeq := st.claimSeq + 1 }.setClient i
      (.opening (.probe ch.nSlots (nextClaim st.claimSeq) 0))
  | .opened id s => some (st.setClient i (.holding id s none none))
  | .failed => some (st.setClient i .idle)
  | pc =>
    match pc.slot?, pc.next ch.nSlots with
    | some s, some ins =>
      some ((st.setSlot s (ins.exec (st.slots s)).1).setClient i
        (.opening (ins.exec (st.slots s)).2))
    | _, _ => none

/-- One event. -/
def step (st : State) : Event → Option State
  | .openSlot i =>
    if st.clients i = .idle then some (st.setClient i (.opening .addSeq)) else none
  | .openStep i =>
    match st.clients i with
    | .opening pc => ch.openStep st i pc
    | _ => none
  | .release i =>
    match st.clients i with
    | .holding _ s none none =>
      some ((st.setSlot s ((slotRelease ()).exec (st.slots s)).1).setClient i .idle)
    | _ => none
  | .send i call =>
    match st.clients i with
    | .holding claim s none recv =>
      some (st.setClient i (.holding claim s (some (call.start ch claim)) recv))
    | _ => none
  | .sendStep i =>
    match st.clients i with
    | .holding claim s (some op) recv =>
      match op.next ch claim with
      | some ins =>
        some ((st.setSlot s (ins.exec (st.slots s)).1).setClient i
          (.holding claim s (some (ins.exec (st.slots s)).2) recv))
      | none => if op.isDone then some (st.setClient i (.holding claim s none recv)) else none
    | _ => none
  | .recv i call =>
    match st.clients i with
    | .holding claim s send none =>
      some (st.setClient i (.holding claim s send (some (call.start ch))))
    | _ => none
  | .recvStep i =>
    match st.clients i with
    | .holding claim s send (some op) =>
      match op.next ch with
      | some ins =>
        some ((st.setSlot s (ins.exec (st.slots s)).1).setClient i
          (.holding claim s send (some (ins.exec (st.slots s)).2)))
      | none => if op.isDone then some (st.setClient i (.holding claim s send none)) else none
    | _ => none
  | .work j claim slot call =>
    if st.workers j = none ∧ claim ≠ 0 then
      some (st.setWorker j (some { claim, slot, op := call.start ch claim }))
    else none
  | .workStep j =>
    match st.workers j with
    | some t =>
      match t.op.next ch t.claim with
      | some ins =>
        some ((st.setSlot t.slot (ins.exec (st.slots t.slot)).1).setWorker j
          (some { t with op := (ins.exec (st.slots t.slot)).2 }))
      | none => if t.op.isDone then some (st.setWorker j none) else none
    | none => none

/-- A channel nobody uses yet: every slot is free. The other lanes and the rings
hold anything. -/
structure Init (st : State) : Prop where
  free : ∀ s, (st.slots s).lane .state = 0
  clients : ∀ i, st.clients i = .idle
  workers : ∀ j, st.workers j = none

/-- A channel whose memory is all zero. -/
def fresh : State :=
  { slots := fun _ => { lane := fun _ => 0, ring := fun _ _ => ⟨0, .client, 0⟩ }
    claimSeq := 0, clients := fun _ => .idle, workers := fun _ => none }

theorem init_fresh : Init fresh := ⟨fun _ => rfl, fun _ => rfl, fun _ => rfl⟩

/-- The events of an open that finds slot 0 free. -/
def openEvents (i : Nat) : List Event := .openSlot i :: List.replicate 15 (.openStep i)

/-- A channel of one slot with rings of four bytes. -/
def oneSlot : Channel := { nSlots := 1, ringCap := 4, features := FEATURE_TERMINAL_ERROR }

end Channel

end Haybarn.Sab
