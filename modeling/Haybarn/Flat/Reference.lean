import Haybarn.Flat.Heap
import Haybarn.Sab.Slot

/-!
# The client side of `lib/vgi-sab-ring.js` on the flat memory

The functions the header of that file says the engine's slot stubs wrap, run one
call at a time. `buf` is the memory of the `Op`, and `src` and `dst` are views of
that same memory (`Module.HEAPU8`), so that `srcOff` and `dstOff` are pointers.

Mirroring notes:
- `servedClaim` is `undefined` on the client side: no reservation is taken.
- The `while` and `for` loops that copy get `fuel` rounds; a loop that would only
  turn round a wait is `stop .blocked`.
- `null` and `{ code, detail }` are `none` and `some (code, detail)`.
-/

namespace Haybarn.Flat

open Haybarn.Lib Haybarn.Sab

/-! ## The lanes of the channel header -/

/-- `HDR_N_SLOTS`. -/
def hdrNSlots : Int := 2

/-- `HDR_RING_CAP`. -/
def hdrRingCap : Int := 3

/-- `HDR_SLOT_STRIDE`. -/
def hdrSlotStride : Int := 4

/-- `HDR_SLOTS_OFF`. -/
def hdrSlotsOff : Int := 5

/-- `HDR_FEATURES`. -/
def hdrFeatures : Int := 6

/-- `HDR_CLAIM_SEQ`. -/
def hdrClaimSeq : Int := 8

/-- `SLOT_CONTROL_BYTES`. -/
def slotControlBytes : Int := 64

/-- `FEATURE_TERMINAL_ERROR`. -/
def featureTerminalError : Int32 := 1

/-- Lane `l` of the control block that starts at lane `ctl`. -/
def at_ (ctl : Int) (l : Lane) : Int := ctl + l.index

/-- The header fields both files read. -/
structure Header where
  nSlots : Num
  ringCap : Num
  slotStride : Num
  slotsOff : Num

/-- The features word lacks the terminal-error bit. -/
def lacksTerminalError (features : Int) : Prop :=
  Num.toInt32 features &&& featureTerminalError = 0

instance (features : Int) : Decidable (lacksTerminalError features) :=
  inferInstanceAs (Decidable (_ = _))

namespace Reference

/-- `header`. -/
def header (base : Int) : Op Header := do
  let h := Num.shr2 base
  let nSlots ← peek (h + hdrNSlots)
  let ringCap ← peek (h + hdrRingCap)
  let slotStride ← peek (h + hdrSlotStride)
  let slotsOff ← peek (h + hdrSlotsOff)
  return { nSlots, ringCap, slotStride, slotsOff }

/-- `slotBase`. -/
def slotBase (base : Int) (hdr : Header) (slot : Int) : Num :=
  base + hdr.slotsOff + slot * hdr.slotStride

/-- The `for` loop of `slotOpen` from slot `s` on, with `left` slots to look at. -/
def slotOpenFrom (base : Int) (hdr : Header) (id : Int32) : (left : Nat) → (s : Nat) → Op Int
  | 0, _ => return -1
  | left + 1, s => do
    let sb := (slotBase base hdr s).shr2
    let owner ← compareExchange (at_ sb .reservation) 0 id
    if owner = 0 then
      let state ← load (at_ sb .state)
      if state ≠ 0 then
        store (at_ sb .reservation) (0 : Int)
        notify (at_ sb .reservation)
        slotOpenFrom base hdr id left (s + 1)
      else
        store (at_ sb .c2wWrite) (0 : Int)
        store (at_ sb .c2wRead) (0 : Int)
        store (at_ sb .c2wClosed) (0 : Int)
        store (at_ sb .w2cWrite) (0 : Int)
        store (at_ sb .w2cRead) (0 : Int)
        store (at_ sb .w2cClosed) (0 : Int)
        store (at_ sb .terminalClaim) (0 : Int)
        store (at_ sb .terminalCode) (0 : Int)
        store (at_ sb .terminalDetail) (0 : Int)
        store (at_ sb .state) id.toInt
        store (at_ sb .reservation) (0 : Int)
        notify (at_ sb .reservation)
        notify (at_ sb .state)
        return s
    else slotOpenFrom base hdr id left (s + 1)

/-- `slotOpen`. -/
def slotOpen (base : Int) : Op Int := do
  let hdr ← header base
  let old ← add (Num.shr2 base + hdrClaimSeq) 1
  let id := Num.toInt32 (old + 1 : Int)
  let id := if id = 0 then 1 else id
  slotOpenFrom base hdr id hdr.nSlots.toInteger.toNat 0

/-- `slotRelease`. -/
def slotRelease (base slot : Int) : Op Unit := do
  let hdr ← header base
  store (at_ (slotBase base hdr slot).shr2 .state) (0 : Int)

/-- `ringWrite`, from byte `off` of the source on. -/
def ringWrite (ctl : Int) (writeLane readLane : Lane) (dataByteOff ringCap : Num)
    (srcOff n : Int) : (fuel : Nat) → (off : Num) → Op Int
  | 0, _ => Prog.stop .outOfFuel
  | fuel + 1, off =>
    if off.lt n then do
      let w ← load (at_ ctl writeLane)
      let r ← load (at_ ctl readLane)
      let free := ringCap - (w - r : Int)
      if free = .int 0 then
        wait (at_ ctl readLane)
        Prog.stop .blocked
      else
        let k := Num.min free (n - off)
        let pos := w % ringCap
        let first := Num.min k (ringCap - pos)
        setSubarray (srcOff + off) (srcOff + off + first) (dataByteOff + pos)
        .onlyIf (first.lt k) (setSubarray (srcOff + off + first) (srcOff + off + k) dataByteOff)
        store (at_ ctl writeLane) (w + k)
        notify (at_ ctl writeLane)
        ringWrite ctl writeLane readLane dataByteOff ringCap srcOff n fuel (off + k)
    else return n

/-- The test `closed !== 0 && (!claimSafeClose || closed === STATE)` of `ringRead`. -/
def closedFor (ctl : Int) (claimSafeClose : Bool) (closed : Int) : Op Bool :=
  if closed = 0 then return false
  else if claimSafeClose then do
    let state ← load (at_ ctl .state)
    return closed = state
  else return true

/-- The branch of `ringRead` that copies, with `avail` and `r` read. -/
def ringTake (ctl : Int) (readLane : Lane) (dataByteOff ringCap : Num) (dstOff n : Int)
    (avail r : Int) : Op Int := do
  let k := min avail n
  let pos : Num := r % ringCap
  let first := Num.min k (ringCap - pos)
  setSubarray (dataByteOff + pos) (dataByteOff + pos + first) dstOff
  .onlyIf (first.lt k) (setSubarray dataByteOff (dataByteOff + k - first) (dstOff + first))
  store (at_ ctl readLane) (r + k : Int)
  notify (at_ ctl readLane)
  return k

/-- `ringRead`. -/
def ringRead (ctl : Int) (writeLane readLane closedLane : Lane) (dataByteOff ringCap : Num)
    (dstOff n : Int) (claimSafeClose : Bool) : Op Int := do
  let w ← load (at_ ctl writeLane)
  let r ← load (at_ ctl readLane)
  let avail := w - r
  if avail = 0 then
    let closed ← load (at_ ctl closedLane)
    let eos ← closedFor ctl claimSafeClose closed
    if eos then return 0
    else
      wait (at_ ctl writeLane)
      Prog.stop .blocked
  else ringTake ctl readLane dataByteOff ringCap dstOff n avail r

/-- `stubWrite`. -/
def stubWrite (fuel : Nat) (base slot srcOff n : Int) : Op Int := do
  let hdr ← header base
  let sb := slotBase base hdr slot
  ringWrite sb.shr2 .c2wWrite .c2wRead (sb + slotControlBytes) hdr.ringCap srcOff n fuel (.int 0)

/-- `stubWriteEos`. -/
def stubWriteEos (base slot : Int) : Op Unit := do
  let hdr ← header base
  let sb := slotBase base hdr slot
  store (at_ sb.shr2 .c2wClosed) (1 : Int)
  notify (at_ sb.shr2 .c2wWrite)

/-- `stubRead`. -/
def stubRead (base slot dstOff n : Int) : Op Int := do
  let hdr ← header base
  let sb := slotBase base hdr slot
  ringRead sb.shr2 .w2cWrite .w2cRead .w2cClosed (sb + slotControlBytes + hdr.ringCap)
    hdr.ringCap dstOff n true

/-- `stubTerminalError`. -/
def stubTerminalError (base slot : Int) : Op (Option (Int × Int)) := do
  let hdr ← header base
  let sb := (slotBase base hdr slot).shr2
  let features ← load (Num.shr2 base + hdrFeatures)
  if lacksTerminalError features then return none
  let claim ← load (at_ sb .state)
  if claim = 0 then return none
  let terminalClaim ← load (at_ sb .terminalClaim)
  if terminalClaim ≠ claim then return none
  let code ← load (at_ sb .terminalCode)
  let detail ← load (at_ sb .terminalDetail)
  let claim' ← load (at_ sb .state)
  if claim' ≠ claim then return none
  let terminalClaim' ← load (at_ sb .terminalClaim)
  if terminalClaim' ≠ claim then return none
  return some (code, detail)

/-- `stubReadWithTerminal`. -/
def stubReadWithTerminal (base slot dstOff n : Int) : Op Int := do
  let result ← stubRead base slot dstOff n
  if result = 0 then
    let error ← stubTerminalError base slot
    return if error.isSome then -3 else result
  else return result

end Reference

end Haybarn.Flat
