import Haybarn.Sab.Ring

/-!
# The calls of the two ends of a slot

The exported operations of `lib/vgi-sab-ring.js` around the two ring loops: the
client's `slotOpen`, `slotRelease`, `stubWrite`, `stubRead`, `stubWriteEos` and
`stubTerminalError`, and the worker's `workerRead`, `workerWrite`,
`workerCloseW2c` and `workerCloseError`. The `vgi_wasm_slot_*` functions of
`lib/js-stubs.js` perform the same atomic steps in the same order, apart from
the read loop (`ReadCall.stubNext`).

Mirroring notes:
- a worker call whose served claim is `undefined` first loads `STATE` and then
  does what the call with that value does, so only the call with a value is a
  program here;
- the header is written once by `initChannel`; what is read from it is a
  parameter of the programs (`ringCap`, `nSlots`, `features`).
-/

namespace Haybarn.Sab

variable {β : Type}

/-! ## Reading and writing -/

/-- `stubWrite`. -/
def stubWrite (ringCap : Nat) (src : Nat → β) (n : Nat) : WriteCall β :=
  { dir := .c2w, ringCap, src, n, servedClaim := none }

/-- `workerWrite`. -/
def workerWrite (ringCap : Nat) (src : Nat → β) (n : Nat) (servedClaim : Int32) : WriteCall β :=
  { dir := .w2c, ringCap, src, n, servedClaim := some servedClaim }

/-- `stubRead`. -/
def stubRead (ringCap n : Nat) : ReadCall :=
  { dir := .w2c, ringCap, n, claimSafeClose := true, servedClaim := none }

/-- `workerRead`. -/
def workerRead (ringCap n : Nat) (servedClaim : Int32) : ReadCall :=
  { dir := .c2w, ringCap, n, claimSafeClose := false, servedClaim := some servedClaim }

/-! ## Closing a direction -/

/-- Which call closes a direction. -/
inductive Closer
  | stubWriteEos
  | workerCloseW2c (claim : Int32)
  deriving DecidableEq, Repr

/-- Inside a closing call. -/
inductive ClosePC
  | acquire (pc : AcquirePC)
  | store
  | release
  | done (result : Bool)
  deriving DecidableEq, Repr

namespace Closer

/-- The direction the call closes. -/
def dir : Closer → Dir
  | .stubWriteEos => .c2w
  | .workerCloseW2c _ => .w2c

/-- What the closed lane is set to. -/
def token : Closer → Int32
  | .stubWriteEos => 1
  | .workerCloseW2c claim => claim

/-- The first step of the call. -/
def start : Closer → ClosePC
  | .stubWriteEos => .store
  | .workerCloseW2c claim => enterAcquire claim .acquire fun ok => if ok then .store else .done false

/-- The next step of `stubWriteEos` or `workerCloseW2c`. -/
def next (c : Closer) : ClosePC → Option (Instr β ClosePC)
  | .acquire pc => match c with
    | .stubWriteEos => none
    | .workerCloseW2c claim => some <|
        acquireWorkerOperation claim .acquire (fun ok => if ok then .store else .done false) pc
  | .store => some <| .store c.dir.closedLane c.token <| match c with
    | .stubWriteEos => .done true
    | .workerCloseW2c _ => .release
  | .release => match c with
    | .stubWriteEos => none
    | .workerCloseW2c claim => some (releaseWorkerOperation claim (.done true))
  | .done _ => none

end Closer

/-! ## Terminal errors -/

/-- The arguments of `workerCloseError`. -/
structure ErrorCall where
  code : Int32
  detail : Int32
  claim : Int32
  deriving DecidableEq, Repr

/-- Inside `workerCloseError`. -/
inductive ErrorPC
  | storeCode
  | storeDetail
  | storeClaim
  | storeClosed
  | done
  deriving DecidableEq, Repr

/-- The next step of `workerCloseError`. No reservation is taken. -/
def ErrorCall.next (c : ErrorCall) : ErrorPC → Option (Instr β ErrorPC)
  | .storeCode => some (.store .terminalCode c.code .storeDetail)
  | .storeDetail => some (.store .terminalDetail c.detail .storeClaim)
  | .storeClaim => some (.store .terminalClaim c.claim .storeClosed)
  | .storeClosed => some (.store .w2cClosed c.claim .done)
  | .done => none

/-- `FEATURE_TERMINAL_ERROR`. -/
def FEATURE_TERMINAL_ERROR : Int32 := 1

/-- Inside `stubTerminalError`; `none` is its `null`. -/
inductive QueryPC
  | loadClaim
  | loadTag (claim : Int32)
  | loadCode (claim : Int32)
  | loadDetail (claim code : Int32)
  | recheckState (claim code detail : Int32)
  | recheckTag (claim code detail : Int32)
  | done (result : Option (Int32 × Int32))
  deriving DecidableEq, Repr

namespace QueryPC

/-- The entry of `stubTerminalError`: the feature bit is looked at first. -/
def start (features : Int32) : QueryPC :=
  if features &&& FEATURE_TERMINAL_ERROR = 0 then .done none else .loadClaim

/-- The next step of `stubTerminalError`. -/
def next : QueryPC → Option (Instr β QueryPC)
  | .loadClaim => some <| .load .state fun claim =>
      if claim = 0 then .done none else .loadTag claim
  | .loadTag claim => some <| .load .terminalClaim fun tag =>
      if tag ≠ claim then .done none else .loadCode claim
  | .loadCode claim => some (.load .terminalCode fun code => .loadDetail claim code)
  | .loadDetail claim code => some <|
      .load .terminalDetail fun detail => .recheckState claim code detail
  | .recheckState claim code detail => some <| .load .state fun st =>
      if st ≠ claim then .done none else .recheckTag claim code detail
  | .recheckTag claim code detail => some <| .load .terminalClaim fun tag =>
      if tag ≠ claim then .done none else .done (some (code, detail))
  | .done _ => none

end QueryPC

/-! ## Opening and releasing a slot -/

/-- `slotRelease`, a single store. -/
def slotRelease {σ : Type} (k : σ) : Instr β σ := .store .state 0 k

/-- The lanes `slotOpen` resets, in the order of its stores. -/
def resetLanes : List Lane :=
  [.c2wWrite, .c2wRead, .c2wClosed, .w2cWrite, .w2cRead, .w2cClosed,
    .terminalClaim, .terminalCode, .terminalDetail]

/-- The claim id taken from the sequence lane's old value. -/
def nextClaim (seq : Int32) : Int32 := if seq + 1 = 0 then 1 else seq + 1

theorem nextClaim_ne_zero (seq : Int32) : nextClaim seq ≠ 0 := by
  unfold nextClaim
  split
  · decide
  · assumption

/-- Inside `slotOpen`: `s` is the slot being probed. `opened` is the return of `s`,
with the claim id that is now in its `STATE`; `failed` is the return of `-1`. -/
inductive OpenPC
  | addSeq
  | reserve (id : Int32) (s : Nat)
  | checkState (id : Int32) (s : Nat)
  | unreserve (id : Int32) (s : Nat)
  | reset (id : Int32) (s : Nat) (l : Lane) (rest : List Lane)
  | publish (id : Int32) (s : Nat)
  | unlock (id : Int32) (s : Nat)
  | opened (id : Int32) (s : Nat)
  | failed
  deriving DecidableEq, Repr

namespace OpenPC

/-- The head of `for (let s = 0; s < hdr.nSlots; s++)`. -/
def probe (nSlots : Nat) (id : Int32) (s : Nat) : OpenPC :=
  if s < nSlots then .reserve id s else .failed

/-- The next of the nine stores, or the publication after them. -/
def resetFrom (id : Int32) (s : Nat) : List Lane → OpenPC
  | [] => .publish id s
  | l :: rest => .reset id s l rest

/-- The slot the next step works on. -/
def slot? : OpenPC → Option Nat
  | .reserve _ s => some s
  | .checkState _ s => some s
  | .unreserve _ s => some s
  | .reset _ s _ _ => some s
  | .publish _ s => some s
  | .unlock _ s => some s
  | _ => none

/-- The next step of `slotOpen` on the slot it works on. -/
def next (nSlots : Nat) : OpenPC → Option (Instr β OpenPC)
  | .addSeq => none
  | .reserve id s => some <| .compareExchange .reservation 0 id fun owner =>
      if owner = 0 then .checkState id s else probe nSlots id (s + 1)
  | .checkState id s => some <| .load .state fun st =>
      if st ≠ 0 then .unreserve id s else resetFrom id s resetLanes
  | .unreserve id s => some (.store .reservation 0 (probe nSlots id (s + 1)))
  | .reset id s l rest => some (.store l 0 (resetFrom id s rest))
  | .publish id s => some (.store .state id (.unlock id s))
  | .unlock id s => some (.store .reservation 0 (.opened id s))
  | .opened _ _ => none
  | .failed => none

end OpenPC

end Haybarn.Sab
