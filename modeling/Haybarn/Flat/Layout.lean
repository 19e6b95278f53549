import Haybarn.Flat.Refine

/-!
# A channel in the 4 GiB address space

Where the header at `base` says the slots are, as unsigned addresses, and which of
those addresses the signed arithmetic of `js-stubs.js` still reaches. An address
below 2^31 gives the same lane either way; from 2^31 on the signed lane is negative,
which no lane is.

The memory stays below 4 GiB: Emscripten's `getHeapMax` stops one page short of it.
-/

namespace Haybarn.Flat

open Haybarn.Lib Haybarn.Sab

/-- The header fields of a channel, as the numbers they are meant to be. -/
structure Geometry where
  nSlots : Nat
  ringCap : Nat
  slotStride : Nat
  slotsOff : Nat

namespace Geometry

/-- The address of a slot's control block. -/
def slotAddr (g : Geometry) (base slot : Nat) : Nat := base + g.slotsOff + slot * g.slotStride

/-- The header as the functions read it. -/
def header (g : Geometry) : Header :=
  { nSlots := .int g.nSlots, ringCap := .int g.ringCap, slotStride := .int g.slotStride,
    slotsOff := .int g.slotsOff }

/-- The header at `base` describes a channel that lies inside the memory. -/
structure Describes (g : Geometry) (base : Nat) (m : Memory) : Prop where
  size : m.size < 4294967296
  nSlots : laneAt m (base / 4 + hdrNSlots) = g.nSlots
  ringCap : laneAt m (base / 4 + hdrRingCap) = g.ringCap
  slotStride : laneAt m (base / 4 + hdrSlotStride) = g.slotStride
  slotsOff : laneAt m (base / 4 + hdrSlotsOff) = g.slotsOff
  header : base + 64 ≤ m.size
  off : 64 ≤ g.slotsOff
  stride : 64 + 2 * g.ringCap ≤ g.slotStride
  inside : base + g.slotsOff + g.nSlots * g.slotStride ≤ m.size

namespace Describes

variable {g : Geometry} {base slot : Nat} {m : Memory}

/-- A slot of the channel lies inside the memory, rings included. -/
theorem slot_inside (h : g.Describes base m) (hs : slot < g.nSlots) :
    g.slotAddr base slot + 64 + 2 * g.ringCap ≤ m.size := by
  have hle : (slot + 1) * g.slotStride ≤ g.nSlots * g.slotStride := Nat.mul_le_mul_right _ hs
  have hexp : (slot + 1) * g.slotStride = slot * g.slotStride + g.slotStride := Nat.succ_mul ..
  have hstride := h.stride
  have hinside := h.inside
  unfold slotAddr
  omega

/-- The slots follow the header's lanes. -/
theorem header_before (h : g.Describes base m) : base + 64 ≤ g.slotAddr base slot := by
  have hoff := h.off
  unfold slotAddr
  omega

/-- Control blocks of different slots do not meet. -/
theorem slot_after (h : g.Describes base m) {slot' : Nat} (hs : slot < slot') :
    g.slotAddr base slot + 64 ≤ g.slotAddr base slot' := by
  have hle : (slot + 1) * g.slotStride ≤ slot' * g.slotStride := Nat.mul_le_mul_right _ hs
  have hexp : (slot + 1) * g.slotStride = slot * g.slotStride + g.slotStride := Nat.succ_mul ..
  have hstride := h.stride
  unfold slotAddr
  omega

theorem slot_lt (h : g.Describes base m) (hs : slot < g.nSlots) :
    g.slotAddr base slot < 4294967296 := by
  have hsize := h.size
  have hinside := h.slot_inside hs
  omega

end Describes

end Geometry

/-! ## Pointers and shifts from 2^31 on -/

theorem signed_ptr_high {p : UInt32} (h : 2147483648 ≤ p.toNat) :
    signed.ptr p = p.toNat - 4294967296 := by
  show p.toInt32.toInt = _
  have hlt : p.toNat < 4294967296 := p.toNat_lt
  have hbmod : p.toInt32.toInt = (p.toNat : Int).bmod 4294967296 := BitVec.toInt_eq_toNat_bmod _
  rw [hbmod, Int.bmod_def]
  split <;> omega

theorem unsigned_shr2 {x : Nat} (h : x < 4294967296) : unsigned.shr2 (x : Int) = x / 4 :=
  Num.ushr2_of_lt (by omega) (by omega)

theorem signed_shr2 {x : Nat} (h : x < 2147483648) : signed.shr2 (x : Int) = x / 4 := by
  show Num.shr2 _ = _
  rw [Num.shr2_eq_ushr2 (by omega) (by omega)]
  exact Num.ushr2_of_lt (by omega) (by omega)

theorem signed_shr2_neg {x : Nat} (h : 2147483648 ≤ x) (h' : x < 4294967296) :
    signed.shr2 (x : Int) < 0 := Num.shr2_neg (by omega) (by omega)

/-- The lane a pointer from 2^31 on gives: its distance from 4 GiB, negative. -/
theorem signed_shr2_ptr_high {p : UInt32} (h : 2147483648 ≤ p.toNat) :
    signed.shr2 (signed.ptr p) = (p.toNat - 4294967296 : Int) / 4 := by
  have hlt : p.toNat < 4294967296 := p.toNat_lt
  rw [signed_ptr_high h]
  have hbmod : ((p.toNat : Int) - 4294967296).bmod 4294967296 = p.toNat - 4294967296 := by
    rw [Int.bmod_def]
    split <;> omega
  have hint : (Num.int (p.toNat - 4294967296)).toInt32.toInt = p.toNat - 4294967296 :=
    (BitVec.toInt_ofInt ..).trans hbmod
  show (Num.int (p.toNat - 4294967296)).toInt32.toInt / 4 = _
  rw [hint]

/-! ## Reading the header -/

variable {g : Geometry} {region : UInt32} {m : Memory}

theorem validLane_of {m : Memory} {addr : Nat} (h : addr + 64 ≤ m.size) {k : Int} (h0 : 0 ≤ k)
    (hk : k < 16) : ValidLane m (addr / 4 + k) := by
  unfold ValidLane
  omega

/-- Read at the unsigned address, the header is the geometry. -/
theorem hdr_unsigned (h : g.Describes region.toNat m) :
    ∃ l, Stubs.hdr unsigned (unsigned.ptr region) m = (.ok g.header, m, l) := by
  have hlt : region.toNat < 4294967296 := region.toNat_lt
  have hbase : unsigned.shr2 (unsigned.ptr region) = region.toNat / 4 := unsigned_shr2 hlt
  have hvalid : ∀ k : Int, 0 ≤ k → k < 16 → ValidLane m (region.toNat / 4 + k) :=
    fun k h0 hk => validLane_of h.header h0 hk
  have h2 : laneAt m (region.toNat / 4 + 2) = g.nSlots := h.nSlots
  have h3 : laneAt m (region.toNat / 4 + 3) = g.ringCap := h.ringCap
  have h4 : laneAt m (region.toNat / 4 + 4) = g.slotStride := h.slotStride
  have h5 : laneAt m (region.toNat / 4 + 5) = g.slotsOff := h.slotsOff
  unfold Stubs.hdr
  rw [hbase, Prog.bind_ok (peek_valid (hvalid 2 (by decide) (by decide))),
    Prog.bind_ok (peek_valid (hvalid 3 (by decide) (by decide))),
    Prog.bind_ok (peek_valid (hvalid 4 (by decide) (by decide))),
    Prog.bind_ok (peek_valid (hvalid 5 (by decide) (by decide))), h2, h3, h4, h5]
  exact ⟨_, rfl⟩

/-- Below 2^31 both ways read the same header. -/
theorem hdr_low (hr : region.toNat < 2147483648) :
    Stubs.hdr signed (signed.ptr region) = Stubs.hdr unsigned (unsigned.ptr region) := by
  unfold Stubs.hdr
  rw [signed_ptr hr, signed_shr2 hr, show unsigned.ptr region = region.toNat from rfl,
    unsigned_shr2 (by omega)]

theorem hdr_log_head (a : Addressing) (base : Int) :
    ((Stubs.hdr a base).log m).head? = some (.lane (a.shr2 base + 2)) := by
  unfold Stubs.hdr
  exact Prog.log_bind_head? rfl

end Haybarn.Flat
