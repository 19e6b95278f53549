import Haybarn.Flat.Reference

/-!
# The slot functions of `lib/js-stubs.js` on the flat memory

The hand-maintained second copy of the ring protocol, the one the engine calls. A
pointer is an unsigned 32-bit address; how it reaches JavaScript, and which shift
turns an address into a lane, is the `Addressing` the functions take. The file
itself is `signed`: the functions declare no pointer signature, so a pointer
arrives as a signed integer, and lanes are computed with `>> 2`. `unsigned` is the
same text with the pointers coerced (`>>> 0`) and the lanes computed with `>>> 2`,
which is what an access at the unsigned address means.
-/

namespace Haybarn.Flat

open Haybarn.Lib Haybarn.Sab

/-- How a pointer arrives, and how an address becomes a lane. -/
structure Addressing where
  ptr : UInt32 → Int
  shr2 : Num → Int

/-- `js-stubs.js` as it is. -/
def signed : Addressing := { ptr := fun p => p.toInt32.toInt, shr2 := Num.shr2 }

/-- Every access at the unsigned address. -/
def unsigned : Addressing := { ptr := fun p => p.toNat, shr2 := Num.ushr2 }

namespace Stubs

variable (a : Addressing)

/-- `vgiSab.hdr`. -/
def hdr (base : Int) : Op Header := do
  let h := a.shr2 base
  let nSlots ← peek (h + 2)
  let ringCap ← peek (h + 3)
  let slotStride ← peek (h + 4)
  let slotsOff ← peek (h + 5)
  return { nSlots, ringCap, slotStride, slotsOff }

/-- `vgiSab.slotByte`. -/
def slotByte (base : Int) (hdr : Header) (slot : Int) : Num :=
  base + hdr.slotsOff + slot * hdr.slotStride

/-- `vgiSab.ringWrite`, from byte `off` of the source on. -/
def ringWrite (ctl : Int) (writeLane readLane : Lane) (dataByte ringCap : Num)
    (srcPtr n : Int) : (fuel : Nat) → (off : Num) → Op Int
  | 0, _ => Prog.stop .outOfFuel
  | fuel + 1, off =>
    if off.lt n then do
      let w ← load (at_ ctl writeLane)
      let r ← load (at_ ctl readLane)
      let free := ringCap - (w - r : Int)
      if free = .int 0 then
        wait (at_ ctl readLane)
        Prog.stop .blocked
      else
        let k := Num.min free (n - off)
        let pos := w % ringCap
        let first := Num.min k (ringCap - pos)
        copyWithin (dataByte + pos) (srcPtr + off) (srcPtr + off + first)
        .onlyIf (first.lt k) (copyWithin dataByte (srcPtr + off + first) (srcPtr + off + k))
        store (at_ ctl writeLane) (w + k)
        notify (at_ ctl writeLane)
        ringWrite ctl writeLane readLane dataByte ringCap srcPtr n fuel (off + k)
    else return n

/-- `isEos` inside `vgiSab.ringRead`. -/
def isEos (ctl : Int) (closedLane : Lane) : Op Bool := do
  let cl ← load (at_ ctl closedLane)
  if cl = 0 then return false
  else
    let state ← load (at_ ctl .state)
    return cl = state

/-- `vgiSab.ringRead` past its looks at an empty ring, with `avail` and `r` read. -/
def ringTake (ctl : Int) (readLane : Lane) (dataByte ringCap : Num) (dstPtr n : Int)
    (avail r : Int) : Op Int := do
  let k := min avail n
  let pos : Num := r % ringCap
  let first := Num.min k (ringCap - pos)
  copyWithin dstPtr (dataByte + pos) (dataByte + pos + first)
  .onlyIf (first.lt k) (copyWithin (dstPtr + first) dataByte (dataByte + k - first))
  store (at_ ctl readLane) (r + k : Int)
  notify (at_ ctl readLane)
  return k

/-- `vgiSab.ringRead`. -/
def ringRead (ctl : Int) (writeLane readLane closedLane : Lane) (dataByte ringCap : Num)
    (dstPtr n : Int) : Op Int := do
  let w ← load (at_ ctl writeLane)
  let r ← load (at_ ctl readLane)
  let avail := w - r
  if avail = 0 then
    let eos ← isEos ctl closedLane
    if eos then return 0
    else
      wait (at_ ctl writeLane)
      let w ← load (at_ ctl writeLane)
      let avail := w - r
      if avail = 0 then
        let eos ← isEos ctl closedLane
        if eos then return 0
        else return -2
      else ringTake ctl readLane dataByte ringCap dstPtr n avail r
  else ringTake ctl readLane dataByte ringCap dstPtr n avail r

/-- `vgi_wasm_slot_open`'s `for` loop from slot `s` on, with `left` slots to look at. -/
def slotOpenFrom (base : Int) (hdr : Header) (id : Int32) : (left : Nat) → (s : Nat) → Op Int
  | 0, _ => return -1
  | left + 1, s => do
    let sb := a.shr2 (slotByte base hdr s)
    let owner ← compareExchange (at_ sb .reservation) 0 id
    if owner = 0 then
      let state ← load (at_ sb .state)
      if state ≠ 0 then
        store (at_ sb .reservation) (0 : Int)
        notify (at_ sb .reservation)
        slotOpenFrom base hdr id left (s + 1)
      else
        store (at_ sb .c2wWrite) (0 : Int)
        store (at_ sb .c2wRead) (0 : Int)
        store (at_ sb .c2wClosed) (0 : Int)
        store (at_ sb .w2cWrite) (0 : Int)
        store (at_ sb .w2cRead) (0 : Int)
        store (at_ sb .w2cClosed) (0 : Int)
        store (at_ sb .terminalClaim) (0 : Int)
        store (at_ sb .terminalCode) (0 : Int)
        store (at_ sb .terminalDetail) (0 : Int)
        store (at_ sb .state) id.toInt
        store (at_ sb .reservation) (0 : Int)
        notify (at_ sb .reservation)
        notify (at_ sb .state)
        return s
    else slotOpenFrom base hdr id left (s + 1)

/-- `vgi_wasm_slot_open`. -/
def slotOpen (region : UInt32) : Op Int := do
  let hdr ← hdr a (a.ptr region)
  let claimSeqLane := a.shr2 (a.ptr region) + hdrClaimSeq
  let old ← add claimSeqLane 1
  let id := Num.toInt32 (old + 1 : Int)
  let id := if id = 0 then 1 else id
  slotOpenFrom a (a.ptr region) hdr id hdr.nSlots.toInteger.toNat 0

/-- `vgi_wasm_slot_write`. -/
def slotWrite (fuel : Nat) (region : UInt32) (slot : Int) (dataPtr : UInt32) (n : Int) :
    Op Int := do
  let hdr ← hdr a (a.ptr region)
  let sb := slotByte (a.ptr region) hdr slot
  ringWrite (a.shr2 sb) .c2wWrite .c2wRead (sb + slotControlBytes) hdr.ringCap (a.ptr dataPtr) n
    fuel (.int 0)

/-- `vgi_wasm_slot_write_eos`. -/
def slotWriteEos (region : UInt32) (slot : Int) : Op Unit := do
  let hdr ← hdr a (a.ptr region)
  let sb := a.shr2 (slotByte (a.ptr region) hdr slot)
  store (at_ sb .c2wClosed) (1 : Int)
  notify (at_ sb .c2wWrite)

/-- The condition of `vgi_wasm_slot_read` for `-3`, once nothing was read. -/
def terminalSet (base sb : Int) : Op Bool := do
  let features ← load (a.shr2 base + hdrFeatures)
  if lacksTerminalError features then return false
  let state ← load (at_ sb .state)
  if state = 0 then return false
  let terminalClaim ← load (at_ sb .terminalClaim)
  let state' ← load (at_ sb .state)
  return terminalClaim = state'

/-- `vgi_wasm_slot_read`. -/
def slotRead (region : UInt32) (slot : Int) (dataPtr : UInt32) (n : Int) : Op Int := do
  let hdr ← hdr a (a.ptr region)
  let sb := slotByte (a.ptr region) hdr slot
  let result ← ringRead (a.shr2 sb) .w2cWrite .w2cRead .w2cClosed
    (sb + slotControlBytes + hdr.ringCap) hdr.ringCap (a.ptr dataPtr) n
  if result = 0 then
    let terminal ← terminalSet a (a.ptr region) (a.shr2 sb)
    return if terminal then -3 else result
  else return result

/-- `vgi_wasm_slot_terminal_error`. -/
def slotTerminalError (region : UInt32) (slot : Int) (codePtr detailPtr : UInt32) :
    Op Int := do
  let hdr ← hdr a (a.ptr region)
  let sb := a.shr2 (slotByte (a.ptr region) hdr slot)
  let features ← load (a.shr2 (a.ptr region) + hdrFeatures)
  if lacksTerminalError features then return 0
  let claim ← load (at_ sb .state)
  if claim = 0 then return 0
  let terminalClaim ← load (at_ sb .terminalClaim)
  if terminalClaim ≠ claim then return 0
  let code ← load (at_ sb .terminalCode)
  let detail ← load (at_ sb .terminalDetail)
  let claim' ← load (at_ sb .state)
  if claim' ≠ claim then return 0
  let terminalClaim' ← load (at_ sb .terminalClaim)
  if terminalClaim' ≠ claim then return 0
  .onlyIf (codePtr != 0) (store (a.shr2 (a.ptr codePtr)) code)
  .onlyIf (detailPtr != 0) (store (a.shr2 (a.ptr detailPtr)) detail)
  return 1

/-- `vgi_wasm_slot_release`. -/
def slotRelease (region : UInt32) (slot : Int) : Op Unit := do
  let hdr ← hdr a (a.ptr region)
  let sb := a.shr2 (slotByte (a.ptr region) hdr slot)
  store (at_ sb .state) (0 : Int)
  notify (at_ sb .state)

end Stubs

/-! ## The calls -/

/-- A call of the engine: pointers are addresses, `slot` and `n` are `int32_t`. -/
inductive Call
  | open (region : UInt32)
  | write (region : UInt32) (slot : Int32) (dataPtr : UInt32) (n : Int32)
  | writeEos (region : UInt32) (slot : Int32)
  | read (region : UInt32) (slot : Int32) (dataPtr : UInt32) (n : Int32)
  | terminalError (region : UInt32) (slot : Int32) (codePtr detailPtr : UInt32)
  | release (region : UInt32) (slot : Int32)
  deriving DecidableEq, Repr

/-- The call as `js-stubs.js` answers it; a function without result gives `0`. -/
def Stubs.call (a : Addressing) (fuel : Nat) : Call → Op Int
  | .open region => slotOpen a region
  | .write region slot dataPtr n => slotWrite a fuel region slot.toInt dataPtr n.toInt
  | .writeEos region slot => do
    slotWriteEos a region slot.toInt
    return 0
  | .read region slot dataPtr n => slotRead a region slot.toInt dataPtr n.toInt
  | .terminalError region slot codePtr detailPtr =>
    slotTerminalError a region slot.toInt codePtr detailPtr
  | .release region slot => do
    slotRelease a region slot.toInt
    return 0

end Haybarn.Flat
