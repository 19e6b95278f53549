import Haybarn.Sab.Slot

/-!
# `ringWrite` and `ringRead`, one atomic step at a time

The blocking ring operations of `lib/vgi-sab-ring.js`, and the read loop of the
engine-side copy in `lib/js-stubs.js`, as programs over `Instr`. A program
counter carries the JavaScript locals that are live at that point; the program
maps it to its next step, or to `none` when the call has returned.

Mirroring notes:
- JavaScript numbers are exact here (`Int`); only a lane is 32 bits wide, so
  `Atomics.store(i32, l, w + k)` is `Int32.ofInt (w.toInt + k)`. `%` is the
  remainder that takes the sign of its left operand, `Int.tmod`.
- `Atomics.notify` changes nothing and `Atomics.wait` may return at once, so the
  first is left out and the second is a `pause`.
- `servedClaim = none` is the JavaScript `undefined`: the client side, which
  neither takes nor releases the reservation. `js-stubs.js`'s `ringWrite` is
  `ringWrite` with `servedClaim = none`.
- The `finally` of both loops is `leave`: when a claim is served, the
  reservation is given back before the call goes on or returns.
-/

namespace Haybarn.Sab

variable {β σ : Type}

/-! ## The worker reservation -/

/-- Inside `acquireWorkerOperation`. -/
inductive AcquirePC
  | loadState
  | reserve
  | recheck
  | undo
  | wait
  deriving DecidableEq, Repr

/-- `acquireWorkerOperation`, past its test that the claim is not `SLOT_FREE`:
`lift` embeds its program counter in the caller's, `ret` receives the result. -/
def acquireWorkerOperation (servedClaim : Int32) (lift : AcquirePC → σ) (ret : Bool → σ) :
    AcquirePC → Instr β σ
  | .loadState => .load .state fun v => if v ≠ servedClaim then ret false else lift .reserve
  | .reserve => .compareExchange .reservation 0 servedClaim fun owner =>
      if owner = 0 then lift .recheck else lift .wait
  | .recheck => .load .state fun v => if v = servedClaim then ret true else lift .undo
  | .undo => .compareExchange .reservation servedClaim 0 fun _ => ret false
  | .wait => .pause (lift .loadState)

/-- The entry of `acquireWorkerOperation`. -/
def enterAcquire (servedClaim : Int32) (lift : AcquirePC → σ) (ret : Bool → σ) : σ :=
  if servedClaim = 0 then ret false else lift .loadState

/-- `releaseWorkerOperation`. -/
def releaseWorkerOperation (servedClaim : Int32) (k : σ) : Instr β σ :=
  .compareExchange .reservation servedClaim 0 fun _ => k

/-! ## Where a copy falls in the ring -/

/-- A copy of `k` bytes at some stream position: `pos` is the position reduced
modulo the capacity, `first` the part up to the ring's end. -/
structure Span where
  k : Int
  pos : Int
  first : Int
  deriving DecidableEq, Repr

/-- The span of `k` bytes at position `x`. -/
def span (ringCap : Nat) (x k : Int) : Span :=
  { k := k, pos := x.tmod ringCap, first := min k (ringCap - x.tmod ringCap) }

/-- Neither part of the copy has a negative length, and both stay between the
ring's first byte and its end. -/
def Span.Inside (ringCap : Nat) (sp : Span) : Prop :=
  0 ≤ sp.first ∧ sp.first ≤ sp.k ∧ 0 ≤ sp.pos ∧ sp.pos + sp.first ≤ ringCap ∧
    sp.k - sp.first ≤ ringCap

instance (ringCap : Nat) (sp : Span) : Decidable (sp.Inside ringCap) :=
  inferInstanceAs (Decidable (_ ∧ _ ∧ _ ∧ _ ∧ _))

/-- The ring index of the copy's `i`-th byte: `pos + i` in the first part, counted
from the ring's start in the second. -/
def Span.index (sp : Span) (i : Nat) : Nat :=
  if (i : Int) < sp.first then (sp.pos + i).toNat else (i - sp.first).toNat

/-! ## `ringWrite` -/

/-- The arguments of a `ringWrite` call: `src` holds `n` bytes. -/
structure WriteCall (β : Type) where
  dir : Dir
  ringCap : Nat
  src : Nat → β
  n : Nat
  servedClaim : Option Int32

/-- Inside `ringWrite`; `off` is the JavaScript local of that name. -/
inductive WritePC
  | acquire (off : Nat) (pc : AcquirePC)
  | loadWrite (off : Nat)
  | loadRead (off : Nat) (w : Int32)
  | plan (off : Nat) (w r : Int32)
  | copy (off : Nat) (w : Int32) (k i : Nat)
  | publish (off : Nat) (w : Int32) (k : Nat)
  | wait (off : Nat)
  | release (next : WritePC)
  | outOfRing
  | done (result : Nat)
  deriving DecidableEq, Repr

namespace WriteCall

variable (c : WriteCall β)

/-- The head of `while (off < n)`. -/
def loop (off : Nat) : WritePC :=
  if off < c.n then
    match c.servedClaim with
    | none => .loadWrite off
    | some claim => enterAcquire claim (.acquire off) fun ok => if ok then .loadWrite off else .done off
  else .done c.n

/-- Leave the `try` block: release the reservation if a claim is served. -/
def leave (next : WritePC) : WritePC :=
  match c.servedClaim with
  | none => next
  | some _ => .release next

/-- `ringCap - (w - r)`. -/
def free (w r : Int32) : Int := c.ringCap - (w.toInt - r.toInt)

/-- `Math.min(free, n - off)`. -/
def size (off : Nat) (w r : Int32) : Int := min (c.free w r) (c.n - off)

/-- The next step of `ringWrite`. -/
def next : WritePC → Option (Instr β WritePC)
  | .acquire off pc => c.servedClaim.map fun claim =>
      acquireWorkerOperation claim (.acquire off)
        (fun ok => if ok then .loadWrite off else .done off) pc
  | .loadWrite off => some (.load c.dir.writeLane fun w => .loadRead off w)
  | .loadRead off w => some (.load c.dir.readLane fun r => .plan off w r)
  | .plan off w r => some <| .pause <|
      if c.free w r = 0 then c.leave (.wait off)
      else if (span c.ringCap w.toInt (c.size off w r)).Inside c.ringCap ∧ 0 < c.size off w r then
        .copy off w (c.size off w r).toNat 0
      else .outOfRing
  | .copy off w k i => some <|
      .storeByte c.dir ((span c.ringCap w.toInt k).index i) (c.src (off + i)) <|
        if i + 1 < k then .copy off w k (i + 1) else .publish off w k
  | .publish off w k => some <|
      .store c.dir.writeLane (Int32.ofInt (w.toInt + k)) (c.leave (c.loop (off + k)))
  | .wait off => some (.pause (c.loop off))
  | .release pc => c.servedClaim.map fun claim => releaseWorkerOperation claim pc
  | .outOfRing => none
  | .done _ => none

end WriteCall

/-! ## `ringRead` -/

/-- The arguments of a `ringRead` call. -/
structure ReadCall where
  dir : Dir
  ringCap : Nat
  n : Nat
  claimSafeClose : Bool
  servedClaim : Option Int32
  deriving DecidableEq, Repr

/-- Inside `ringRead`; `dst` holds the bytes copied so far. `again` is set in the
engine-side copy after its one bounded wait. -/
inductive ReadPC (β : Type)
  | acquire (pc : AcquirePC)
  | loadWrite
  | loadRead (w : Int32)
  | plan (w r : Int32) (again : Bool)
  | loadClosed (w r : Int32) (again : Bool)
  | loadState (closed w r : Int32) (again : Bool)
  | wait
  | waitOnce (r : Int32)
  | reloadWrite (r : Int32)
  | copy (r : Int32) (k : Nat) (dst : List β)
  | consume (r : Int32) (k : Nat) (dst : List β)
  | release (next : ReadPC β)
  | outOfRing
  | done (result : Int) (dst : List β)
  deriving DecidableEq, Repr

namespace ReadCall

variable (c : ReadCall)

/-- The head of `for (;;)`. -/
def loop : ReadPC β :=
  match c.servedClaim with
  | none => .loadWrite
  | some claim => enterAcquire claim .acquire fun ok => if ok then .loadWrite else .done 0 []

/-- Leave the `try` block: release the reservation if a claim is served. -/
def leave (next : ReadPC β) : ReadPC β :=
  match c.servedClaim with
  | none => next
  | some _ => .release next

/-- `w - r`. -/
def avail (w r : Int32) : Int := w.toInt - r.toInt

/-- `Math.min(avail, n)`. -/
def size (w r : Int32) : Int := min (avail w r) c.n

/-- The branch with `avail` not zero: copy `k` bytes, or publish at once when
`k` is zero. -/
def startCopy (w r : Int32) : ReadPC β :=
  if (span c.ringCap r.toInt (c.size w r)).Inside c.ringCap then
    if 0 < c.size w r then .copy r (c.size w r).toNat [] else .consume r 0 []
  else .outOfRing

/-- One byte of the copy out of the ring. -/
def copyByte (r : Int32) (k : Nat) (dst : List β) : Instr β (ReadPC β) :=
  .loadByte c.dir ((span c.ringCap r.toInt k).index dst.length) fun b =>
    if dst.length + 1 < k then .copy r k (dst ++ [b]) else .consume r k (dst ++ [b])

/-- The next step of `ringRead` in `vgi-sab-ring.js`. -/
def next : ReadPC β → Option (Instr β (ReadPC β))
  | .acquire pc => c.servedClaim.map fun claim =>
      acquireWorkerOperation claim .acquire (fun ok => if ok then .loadWrite else .done 0 []) pc
  | .loadWrite => some (.load c.dir.writeLane fun w => .loadRead w)
  | .loadRead w => some (.load c.dir.readLane fun r => .plan w r false)
  | .plan w r again => some <| .pause <|
      if avail w r = 0 then .loadClosed w r again else c.startCopy w r
  | .loadClosed w r again => some <| .load c.dir.closedLane fun closed =>
      if closed = 0 then c.leave .wait
      else if c.claimSafeClose then .loadState closed w r again
      else c.leave (.done 0 [])
  | .loadState closed _ _ _ => some <| .load .state fun st =>
      if closed = st then c.leave (.done 0 []) else c.leave .wait
  | .wait => some (.pause c.loop)
  | .copy r k dst => some (c.copyByte r k dst)
  | .consume r k dst => some <|
      .store c.dir.readLane (Int32.ofInt (r.toInt + k)) (c.leave (.done k dst))
  | .release pc => c.servedClaim.map fun claim => releaseWorkerOperation claim pc
  | .waitOnce _ => none
  | .reloadWrite _ => none
  | .outOfRing => none
  | .done _ _ => none

/-- The next step of `vgiSab.ringRead` in `js-stubs.js`: no served claim, a close
counts only for the claim in `STATE`, and an empty ring is looked at twice, with
one bounded wait between, before `-2` (would block) is returned. -/
def stubNext : ReadPC β → Option (Instr β (ReadPC β))
  | .loadWrite => some (.load c.dir.writeLane fun w => .loadRead w)
  | .loadRead w => some (.load c.dir.readLane fun r => .plan w r false)
  | .plan w r again => some <| .pause <|
      if avail w r = 0 then .loadClosed w r again else c.startCopy w r
  | .loadClosed w r again => some <| .load c.dir.closedLane fun closed =>
      if closed = 0 then (if again then .done (-2) [] else .waitOnce r)
      else .loadState closed w r again
  | .loadState closed _ r again => some <| .load .state fun st =>
      if closed = st then .done 0 [] else if again then .done (-2) [] else .waitOnce r
  | .waitOnce r => some (.pause (.reloadWrite r))
  | .reloadWrite r => some (.load c.dir.writeLane fun w => .plan w r true)
  | .copy r k dst => some (c.copyByte r k dst)
  | .consume r k dst => some <|
      .store c.dir.readLane (Int32.ofInt (r.toInt + k)) (.done k dst)
  | .acquire _ => none
  | .wait => none
  | .release _ => none
  | .outOfRing => none
  | .done _ _ => none

end ReadCall

/-! ## What a call has done so far -/

/-- How many bytes of the chunk the call has written so far. -/
def WritePC.off : WritePC → Nat
  | .acquire off _ => off
  | .loadWrite off => off
  | .loadRead off _ => off
  | .plan off _ _ => off
  | .copy off _ _ _ => off
  | .publish off _ _ => off
  | .wait off => off
  | .release pc => pc.off
  | .outOfRing => 0
  | .done result => result

/-- The bytes the call has consumed and not yet returned. -/
def ReadPC.consumed : ReadPC β → List β
  | .release pc => pc.consumed
  | .done _ dst => dst
  | _ => []

/-- The bytes the next step publishes. -/
def WriteCall.published (c : WriteCall β) : WritePC → List β
  | .publish off _ k => (List.range k).map fun j => c.src (off + j)
  | _ => []

/-- The bytes the next step consumes. -/
def ReadPC.fetched : ReadPC β → List β
  | .consume _ _ dst => dst
  | _ => []

end Haybarn.Sab
