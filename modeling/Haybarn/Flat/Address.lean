import Haybarn.Flat.Layout

/-!
# Which addresses the slot functions reach

The same call is made twice from one memory, once as `js-stubs.js` computes its
addresses (`signed`) and once with every access at the unsigned address (`unsigned`),
and the logs of accesses are compared. They agree exactly when everything the call
has to look at lies below 2^31: the channel's base, the control block of each slot it
looks at, and a data or result pointer it really uses. The bytes of a ring may lie
beyond 2^31, because they are addressed by plain addition.
-/

namespace Haybarn.Flat

open Haybarn.Lib Haybarn.Sab

/-! ## Comparing two runs -/

/-- From `m`, the accesses of `x` and `y` are the same exactly when `P`, and then so
are the results and the memories. -/
structure AgreesWhen {α : Type} (x y : Op α) (m : Memory) (P : Prop) : Prop where
  log_iff : x.log m = y.log m ↔ P
  same : P → x m = y m

namespace AgreesWhen

variable {α β : Type} {x y : Op α} {f f' : α → Op β} {m m' : Memory} {P Q : Prop} {a : α}
  {l : List Access}

theorem of_same (h : x m = y m) (hP : P) : AgreesWhen x y m P :=
  ⟨⟨fun _ => hP, fun _ => congrArg (fun r => r.2.2) h⟩, fun _ => h⟩

theorem of_differs (h : x.log m ≠ y.log m) (hP : ¬ P) : AgreesWhen x y m P :=
  ⟨⟨fun he => absurd he h, fun hp => absurd hp hP⟩, fun hp => absurd hp hP⟩

theorem iff (h : AgreesWhen x y m P) (hPQ : P ↔ Q) : AgreesWhen x y m Q :=
  ⟨h.log_iff.trans hPQ, fun hq => h.same (hPQ.mpr hq)⟩

/-- A common first part does not matter. -/
theorem bind_left {z : Op α} (hz : z m = (.ok a, m', l)) (h : AgreesWhen (f a) (f' a) m' P) :
    AgreesWhen (z >>= f) (z >>= f') m P := by
  refine ⟨(Prog.log_bind_inj hz).trans h.log_iff, fun hp => ?_⟩
  rw [Prog.bind_ok hz, Prog.bind_ok hz, h.same hp]

theorem log_ne_of_head {w w' : Access} (hx : (x.log m).head? = some w)
    (hy : (y.log m).head? = some w') (h : w ≠ w') : x.log m ≠ y.log m := by
  intro he
  rw [he, hy] at hx
  exact h (Option.some.inj hx).symm

end AgreesWhen

variable {α : Type} {g : Geometry} {region : UInt32} {m : Memory} {P : Prop}

/-- From a base of 2^31 on, already the first access to the header goes astray. -/
theorem AgreesWhen.header {f f' : Header → Op α} (h : g.Describes region.toNat m)
    (hlow : region.toNat < 2147483648 → AgreesWhen (f g.header) (f' g.header) m P) :
    AgreesWhen (Stubs.hdr signed (signed.ptr region) >>= f)
      (Stubs.hdr unsigned (unsigned.ptr region) >>= f') m (region.toNat < 2147483648 ∧ P) := by
  by_cases hr : region.toNat < 2147483648
  · obtain ⟨l, hl⟩ := hdr_unsigned h
    rw [hdr_low hr]
    exact (AgreesWhen.bind_left hl (hlow hr)).iff ⟨fun hp => ⟨hr, hp⟩, fun hp => hp.2⟩
  · have hsize := h.size
    have hheader := h.header
    have hneg := signed_shr2_ptr_high (show 2147483648 ≤ region.toNat by omega)
    have hpos : unsigned.shr2 (unsigned.ptr region) = region.toNat / 4 := unsigned_shr2 (by omega)
    refine .of_differs ?_ fun hp => hr hp.1
    apply AgreesWhen.log_ne_of_head (Prog.log_bind_head? (hdr_log_head signed _))
      (Prog.log_bind_head? (hdr_log_head unsigned _))
    intro he
    have hlane := Access.lane.inj he
    omega

/-- A control block at or past 2^31 is looked for at a negative lane. -/
theorem AgreesWhen.slot {f q : Int → Op α} {addr : Nat} (haddr : addr < 4294967296)
    {k : Lane} (hf : ∀ ctl, ((f ctl).log m).head? = some (.lane (at_ ctl k)))
    (hq : ∀ ctl, ((q ctl).log m).head? = some (.lane (at_ ctl k)))
    (hlow : addr < 2147483648 → AgreesWhen (f (addr / 4)) (q (addr / 4)) m P) :
    AgreesWhen (f (signed.shr2 (addr : Int))) (q (unsigned.shr2 (addr : Int))) m
      (addr < 2147483648 ∧ P) := by
  rw [unsigned_shr2 haddr]
  by_cases ha : addr < 2147483648
  · rw [signed_shr2 ha]
    exact (hlow ha).iff ⟨fun hp => ⟨ha, hp⟩, fun hp => hp.2⟩
  · have hneg := signed_shr2_neg (by omega) haddr
    refine .of_differs ?_ fun hp => ha hp.1
    apply AgreesWhen.log_ne_of_head (hf _) (hq _)
    intro he
    have hlane : signed.shr2 (addr : Int) + k.index = addr / 4 + k.index := Access.lane.inj he
    omega

theorem store_bind_head {f : Unit → Op α} {i : Int} {v : Num} :
    ((store i v >>= f).log m).head? = some (.lane i) := Prog.log_bind_head? (by simp [store])

theorem load_bind_head {f : Int → Op α} {i : Int} :
    ((load i >>= f).log m).head? = some (.lane i) := Prog.log_bind_head? (by simp [load])

/-! ## Slots of the channel -/

/-- The address of a slot that a call names. -/
def Geometry.slotOf (g : Geometry) (region : UInt32) (slot : Int32) : Nat :=
  g.slotAddr region.toNat slot.toInt.toNat

/-- The call names a slot of the channel. -/
def Geometry.HasSlot (g : Geometry) (slot : Int32) : Prop :=
  0 ≤ slot.toInt ∧ slot.toInt < g.nSlots

theorem slotByte_nat (base s : Nat) :
    Stubs.slotByte base g.header s = .int (g.slotAddr base s) := by
  unfold Stubs.slotByte Geometry.slotAddr
  show Num.int (_ + _ + _ * _) = _
  push_cast
  rfl

theorem slotByte_eq {slot : Int32} (hs : g.HasSlot slot) :
    Stubs.slotByte region.toNat g.header slot.toInt = .int (g.slotOf region slot) := by
  obtain ⟨h0, -⟩ := hs
  have hslot : slot.toInt = (slot.toInt.toNat : Int) := by omega
  rw [hslot]
  exact slotByte_nat ..

theorem slotOf_lt (h : g.Describes region.toNat m) {slot : Int32} (hs : g.HasSlot slot) :
    g.slotOf region slot < 4294967296 := by
  obtain ⟨h0, hlt⟩ := hs
  exact h.slot_lt (by omega)

/-- A lane of a slot's control block. -/
theorem slot_validLane (h : g.Describes region.toNat m) {slot : Int32} (hs : g.HasSlot slot)
    (l : Lane) : ValidLane m (at_ (g.slotOf region slot / 4) l) := by
  obtain ⟨h0, hlt⟩ := hs
  have hin := h.slot_inside (show slot.toInt.toNat < g.nSlots by omega)
  have hl : l.index < 16 := by cases l <;> decide
  have hdef : g.slotOf region slot = g.slotAddr region.toNat slot.toInt.toNat := rfl
  unfold ValidLane at_
  omega

/-! ## Closing and releasing -/

theorem slotWriteEos_agrees (h : g.Describes region.toNat m) {slot : Int32} (hs : g.HasSlot slot)
    {f : Unit → Op α} :
    AgreesWhen (Stubs.slotWriteEos signed region slot.toInt >>= f)
      (Stubs.slotWriteEos unsigned region slot.toInt >>= f) m
      (region.toNat < 2147483648 ∧ g.slotOf region slot < 2147483648 ∧ True) := by
  unfold Stubs.slotWriteEos
  rw [bind_assoc, bind_assoc]
  refine .header h fun hr => ?_
  rw [signed_ptr hr, show unsigned.ptr region = region.toNat from rfl, slotByte_eq hs]
  let body := fun sb : Int => (do
    store (at_ sb .c2wClosed) (1 : Int)
    notify (at_ sb .c2wWrite)) >>= f
  have hhead : ∀ ctl, ((body ctl).log m).head? = some (.lane (at_ ctl .c2wClosed)) :=
    fun ctl => Prog.log_bind_head? store_bind_head
  exact AgreesWhen.slot (f := body) (slotOf_lt h hs) hhead hhead fun _ => .of_same rfl trivial

theorem slotRelease_agrees (h : g.Describes region.toNat m) {slot : Int32} (hs : g.HasSlot slot)
    {f : Unit → Op α} :
    AgreesWhen (Stubs.slotRelease signed region slot.toInt >>= f)
      (Stubs.slotRelease unsigned region slot.toInt >>= f) m
      (region.toNat < 2147483648 ∧ g.slotOf region slot < 2147483648 ∧ True) := by
  unfold Stubs.slotRelease
  rw [bind_assoc, bind_assoc]
  refine .header h fun hr => ?_
  rw [signed_ptr hr, show unsigned.ptr region = region.toNat from rfl, slotByte_eq hs]
  let body := fun sb : Int => (do
    store (at_ sb .state) (0 : Int)
    notify (at_ sb .state)) >>= f
  have hhead : ∀ ctl, ((body ctl).log m).head? = some (.lane (at_ ctl .state)) :=
    fun ctl => Prog.log_bind_head? store_bind_head
  exact AgreesWhen.slot (f := body) (slotOf_lt h hs) hhead hhead fun _ => .of_same rfl trivial

/-! ## Copies -/

theorem relative_nonneg {size : Nat} {x : Int} (h0 : 0 ≤ x) (h : x ≤ size) :
    relative size (.int x) = x.toNat := by
  show (if x < 0 then _ else min x.toNat size) = x.toNat
  rw [if_neg (by omega)]
  omega

theorem relative_neg {size : Nat} {x : Int} (h : x < 0) :
    relative size (.int x) = (size + x).toNat := if_pos h

/-- A copy that fits, as the log shows it. -/
theorem copyWithin_log {target start k : Int} (hk : 0 < k)
    (hsrc : relative m.size (.int (start + k)) = relative m.size (.int start) + k.toNat)
    (hdst : relative m.size (.int target) + k.toNat ≤ m.size) :
    (copyWithin (.int target) (.int start) (.int (start + k))).log m =
      [.copy (relative m.size (.int target)) (relative m.size (.int start)) k.toNat] := by
  have hcount : min (relative m.size (.int (start + k)) - relative m.size (.int start))
      (m.size - relative m.size (.int target)) = k.toNat := by
    rw [hsrc]
    omega
  show (if min _ _ = 0 then _ else _) = _
  rw [hcount, if_neg (by omega)]

/-- `p + k`, wherever `p` lies, as a pair of indices counted from the same end. -/
theorem relative_ptr {p : UInt32} {k : Int} (hsize : m.size < 4294967296)
    (hfit : p.toNat + k ≤ m.size) (hp : p.toNat < m.size) :
    relative m.size (.int (signed.ptr p)) =
      (if p.toNat < 2147483648 then p.toNat else m.size + p.toNat - 4294967296) ∧
    (0 < k → relative m.size (.int (signed.ptr p + k)) =
      relative m.size (.int (signed.ptr p)) + k.toNat) := by
  by_cases h : p.toNat < 2147483648
  · rw [if_pos h, signed_ptr h, relative_nonneg (by omega) (by omega)]
    refine ⟨by omega, fun _ => ?_⟩
    rw [relative_nonneg (by omega) (by omega)]
    omega
  · rw [if_neg h, signed_ptr_high (by omega), relative_neg (by omega)]
    refine ⟨by omega, fun _ => ?_⟩
    rw [relative_neg (by omega)]
    omega

/-- A copy from a buffer past 2^31 reads other bytes. -/
theorem copy_from_high {p : UInt32} {k d : Int} (hsize : m.size < 4294967296)
    (hp : 2147483648 ≤ p.toNat) (hk : 0 < k) (hd : 0 ≤ d) (hring : d + k ≤ m.size)
    (hfit : p.toNat + k ≤ m.size) :
    ∃ e e', (copyWithin (.int d) (.int (signed.ptr p)) (.int (signed.ptr p + k))).log m = [e] ∧
      (copyWithin (.int d) (.int (unsigned.ptr p)) (.int (unsigned.ptr p + k))).log m = [e'] ∧
      e ≠ e' := by
  have hup : unsigned.ptr p = p.toNat := rfl
  obtain ⟨hs, hs'⟩ := relative_ptr (p := p) (k := k) hsize hfit (by omega)
  have hdst : relative m.size (.int d) + k.toNat ≤ m.size := by
    rw [relative_nonneg hd (by omega)]
    omega
  have hu' : relative m.size (.int (unsigned.ptr p + k)) =
      relative m.size (.int (unsigned.ptr p)) + k.toNat := by
    rw [hup, relative_nonneg (by omega) (by omega), relative_nonneg (by omega) (by omega)]
    omega
  refine ⟨_, _, copyWithin_log hk (hs' hk) hdst, copyWithin_log hk hu' hdst, fun he => ?_⟩
  have hsrc := (Access.copy.inj he).2.1
  rw [hs, if_neg (by omega), hup, relative_nonneg (by omega) (by omega)] at hsrc
  omega

/-- A copy to a buffer past 2^31 writes other bytes. -/
theorem copy_to_high {p : UInt32} {k d : Int} (hsize : m.size < 4294967296)
    (hp : 2147483648 ≤ p.toNat) (hk : 0 < k) (hd : 0 ≤ d) (hring : d + k ≤ m.size)
    (hfit : p.toNat + k ≤ m.size) :
    ∃ e e', (copyWithin (.int (signed.ptr p)) (.int d) (.int (d + k))).log m = [e] ∧
      (copyWithin (.int (unsigned.ptr p)) (.int d) (.int (d + k))).log m = [e'] ∧ e ≠ e' := by
  have hup : unsigned.ptr p = p.toNat := rfl
  obtain ⟨hs, -⟩ := relative_ptr (p := p) (k := k) hsize hfit (by omega)
  have hsrc : relative m.size (.int (d + k)) = relative m.size (.int d) + k.toNat := by
    rw [relative_nonneg (by omega) (by omega), relative_nonneg (by omega) (by omega)]
    omega
  have hs' : relative m.size (.int (signed.ptr p)) + k.toNat ≤ m.size := by
    rw [hs, if_neg (by omega)]
    omega
  have hu' : relative m.size (.int (unsigned.ptr p)) + k.toNat ≤ m.size := by
    rw [hup, relative_nonneg (by omega) (by omega)]
    omega
  refine ⟨_, _, copyWithin_log hk hsrc hs', copyWithin_log hk hsrc hu', fun he => ?_⟩
  have hdst := (Access.copy.inj he).1
  rw [hs, if_neg (by omega), hup, relative_nonneg (by omega) (by omega)] at hdst
  omega

/-! ## Writing -/

/-- The positions of a direction are those of a ring of `cap` bytes. -/
def Positions (m : Memory) (ctl : Int) (writeLane readLane : Lane) (cap : Nat) : Prop :=
  0 ≤ laneAt m (at_ ctl readLane) ∧ laneAt m (at_ ctl readLane) ≤ laneAt m (at_ ctl writeLane) ∧
    laneAt m (at_ ctl writeLane) ≤ laneAt m (at_ ctl readLane) + cap

theorem ringWrite_head {ctl : Int} {writeLane readLane : Lane} {data cap : Num} {src n : Int}
    {fuel : Nat} (hn : 0 < n) :
    ((Stubs.ringWrite ctl writeLane readLane data cap src n (fuel + 1) (.int 0)).log m).head? =
      some (.lane (at_ ctl writeLane)) := by
  unfold Stubs.ringWrite
  rw [if_pos (by simpa using hn)]
  exact load_bind_head

/-- The first round of a write, once its control block is found: it uses the data
pointer exactly when the ring has room. -/
theorem ringWrite_agrees {ctl : Int} {writeLane readLane : Lane} {data cap : Nat}
    {dataPtr : UInt32} {n : Int} (fuel : Nat) (hn : 0 < n) (hsize : m.size < 4294967296)
    (hw : ValidLane m (at_ ctl writeLane)) (hr : ValidLane m (at_ ctl readLane))
    (hpos : Positions m ctl writeLane readLane cap) (hring : data + cap ≤ m.size)
    (hbuf : dataPtr.toNat + n ≤ m.size) :
    AgreesWhen
      (Stubs.ringWrite ctl writeLane readLane (.int data) (.int cap) (signed.ptr dataPtr) n
        (fuel + 1) (.int 0))
      (Stubs.ringWrite ctl writeLane readLane (.int data) (.int cap) (unsigned.ptr dataPtr) n
        (fuel + 1) (.int 0)) m
      (laneAt m (at_ ctl writeLane) - laneAt m (at_ ctl readLane) < cap →
        dataPtr.toNat < 2147483648) := by
  by_cases hp : dataPtr.toNat < 2147483648
  · exact .of_same (by rw [signed_ptr hp]; rfl) fun _ => hp
  unfold Stubs.ringWrite
  rw [if_pos (by simpa using hn), if_pos (by simpa using hn)]
  refine .bind_left (load_valid hw) (.bind_left (load_valid hr) ?_)
  obtain ⟨hr0, hrw, hwr⟩ := hpos
  generalize laneAt m (at_ ctl writeLane) = w at hrw hwr ⊢
  generalize laneAt m (at_ ctl readLane) = r at hr0 hrw hwr ⊢
  by_cases hfull : (cap : Int) - (w - r) = 0
  · have hz : Num.int cap - Num.int (w - r) = .int 0 := congrArg Num.int hfull
    rw [if_pos hz, if_pos hz]
    refine .of_same rfl fun hroom => absurd hroom ?_
    omega
  · have hz : Num.int cap - Num.int (w - r) ≠ .int 0 := fun h => hfull (Num.int.inj h)
    rw [if_neg hz, if_neg hz]
    refine .of_differs ?_ fun hroom => hp (hroom (by omega))
    -- the first part of the copy is not empty, so its source shows in the log
    have hcap : (cap : Int) ≠ 0 := by omega
    have hmod0 : 0 ≤ w.tmod cap := Int.tmod_nonneg _ (by omega)
    have hmod : w.tmod cap < cap := Int.tmod_lt_of_pos w (by omega)
    simp only [Num.int_sub, Num.int_min, Num.int_mod hcap, Num.int_add]
    have hfirst : 0 < min (min ((cap : Int) - (w - r)) (n - 0)) ((cap : Int) - w.tmod cap) := by
      omega
    rw [Int.add_zero, Int.add_zero]
    obtain ⟨e, e', he, he', hne⟩ := copy_from_high hsize (show 2147483648 ≤ dataPtr.toNat by omega)
      hfirst (show 0 ≤ (data : Int) + w.tmod cap by omega) (by omega) (by omega)
    exact AgreesWhen.log_ne_of_head (Prog.log_bind_head? (congrArg List.head? he))
      (Prog.log_bind_head? (congrArg List.head? he')) hne

/-- A write of nothing looks at no slot. -/
theorem ringWrite_none {ctl : Int} {writeLane readLane : Lane} {data cap : Num} {src n : Int}
    (fuel : Nat) (hn : n ≤ 0) :
    Stubs.ringWrite ctl writeLane readLane data cap src n (fuel + 1) (.int 0) = pure n := by
  unfold Stubs.ringWrite
  rw [if_neg (by simpa using hn)]

/-- The direction's positions in the slot a call names. -/
def Geometry.PositionsAt (g : Geometry) (m : Memory) (region : UInt32) (slot : Int32) (d : Dir) :
    Prop :=
  Positions m (g.slotOf region slot / 4) d.writeLane d.readLane g.ringCap

theorem slot_rings_inside (h : g.Describes region.toNat m) {slot : Int32} (hs : g.HasSlot slot) :
    g.slotOf region slot + 64 + 2 * g.ringCap ≤ m.size := by
  obtain ⟨h0, hlt⟩ := hs
  exact h.slot_inside (by omega)

/-- The bytes of a direction in the slot that a call names: what was sent and not yet
received. -/
def Geometry.pending (g : Geometry) (m : Memory) (region : UInt32) (slot : Int32) (d : Dir) :
    Int :=
  laneAt m (at_ (g.slotOf region slot / 4) d.writeLane) -
    laneAt m (at_ (g.slotOf region slot / 4) d.readLane)

theorem slotWrite_agrees (h : g.Describes region.toNat m) {slot : Int32} (hs : g.HasSlot slot)
    {dataPtr : UInt32} {n : Int} (fuel : Nat) (hpos : g.PositionsAt m region slot .c2w)
    (hbuf : dataPtr.toNat + n ≤ m.size) :
    AgreesWhen (Stubs.slotWrite signed (fuel + 1) region slot.toInt dataPtr n)
      (Stubs.slotWrite unsigned (fuel + 1) region slot.toInt dataPtr n) m
      (region.toNat < 2147483648 ∧ (0 < n → g.slotOf region slot < 2147483648 ∧
        (g.pending m region slot .c2w < g.ringCap → dataPtr.toNat < 2147483648))) := by
  unfold Stubs.slotWrite
  refine .header h fun hr => ?_
  rw [signed_ptr hr, show unsigned.ptr region = region.toNat from rfl, slotByte_eq hs]
  by_cases hn : 0 < n
  · have hin := slot_rings_inside h hs
    let data : Nat := g.slotOf region slot + 64
    let f := fun ctl => Stubs.ringWrite ctl .c2wWrite .c2wRead (.int data) (.int g.ringCap)
      (signed.ptr dataPtr) n (fuel + 1) (.int 0)
    let q := fun ctl => Stubs.ringWrite ctl .c2wWrite .c2wRead (.int data) (.int g.ringCap)
      (unsigned.ptr dataPtr) n (fuel + 1) (.int 0)
    have hslot := AgreesWhen.slot (f := f) (q := q) (slotOf_lt h hs)
      (fun _ => ringWrite_head hn) (fun _ => ringWrite_head hn) fun _ =>
        ringWrite_agrees fuel hn h.size (slot_validLane h hs _) (slot_validLane h hs _) hpos
          (by omega) hbuf
    exact hslot.iff ⟨fun hp _ => hp, fun hp => hp hn⟩
  · exact .of_same (by rw [ringWrite_none fuel (by omega), ringWrite_none fuel (by omega)])
      fun hn' => absurd hn' hn

/-! ## Reading -/

theorem isEos_apply {ctl : Int} {closedLane : Lane} (hc : ValidLane m (at_ ctl closedLane))
    (hs : ValidLane m (at_ ctl .state)) :
    ∃ l, Stubs.isEos ctl closedLane m = (.ok (eosAt m ctl closedLane), m, l) := by
  have hrun := isEos_run hc fun _ => hs
  rcases h : Stubs.isEos ctl closedLane m with ⟨r, m', l⟩
  unfold Prog.run at hrun
  rw [h] at hrun
  obtain ⟨hval, hmem⟩ := Prod.ext_iff.mp hrun
  exact ⟨l, Prod.ext hval (Prod.ext hmem rfl)⟩

/-- A read of an empty ring never comes to use the data pointer. -/
theorem ringRead_empty_ptr {ctl : Int} {writeLane readLane closedLane : Lane} {data cap : Num}
    {dst dst' n : Int} (hw : ValidLane m (at_ ctl writeLane)) (hr : ValidLane m (at_ ctl readLane))
    (hc : ValidLane m (at_ ctl closedLane)) (hs : ValidLane m (at_ ctl .state))
    (h : laneAt m (at_ ctl writeLane) - laneAt m (at_ ctl readLane) = 0) :
    Stubs.ringRead ctl writeLane readLane closedLane data cap dst n m =
      Stubs.ringRead ctl writeLane readLane closedLane data cap dst' n m := by
  obtain ⟨l, hl⟩ := isEos_apply hc hs
  unfold Stubs.ringRead
  rw [Prog.bind_ok (load_valid hw), Prog.bind_ok (load_valid hw), Prog.bind_ok (load_valid hr),
    Prog.bind_ok (load_valid hr), if_pos h, if_pos h, Prog.bind_ok hl, Prog.bind_ok hl]
  by_cases he : eosAt m ctl closedLane = true
  · rw [if_pos he, if_pos he]
  · rw [if_neg he, if_neg he, Prog.bind_ok (wait_valid hw), Prog.bind_ok (wait_valid hw),
      Prog.bind_ok (load_valid hw), Prog.bind_ok (load_valid hw), if_pos h, if_pos h]

/-- Nor does a read of nothing. -/
theorem ringTake_none_ptr {ctl : Int} {readLane : Lane} {data cap : Nat} {dst dst' avail r : Int}
    (hcap : 0 < cap) (ha : 0 ≤ avail) :
    Stubs.ringTake ctl readLane (.int data) (.int cap) dst 0 avail r m =
      Stubs.ringTake ctl readLane (.int data) (.int cap) dst' 0 avail r m := by
  have hk : min avail 0 = 0 := by omega
  have hmod : r.tmod cap < cap := Int.tmod_lt_of_pos r (by omega)
  have hfirst : min 0 ((cap : Int) - r.tmod cap) = 0 := by omega
  have hnone : ∀ (t : Int) (x : Num), copyWithin (.int t) x x m = (.ok (), m, []) := by
    intro t x
    show (_, m.copy _ _ (min (_ - _) _), if min (_ - _) _ = 0 then _ else _) = _
    rw [Nat.sub_self, Nat.zero_min, if_pos rfl, Memory.copy_zero]
  unfold Stubs.ringTake
  simp only [hk, Num.int_mod (show (cap : Int) ≠ 0 by omega), Num.int_sub, Num.int_min, hfirst,
    Num.int_add, Int.add_zero]
  rw [Prog.bind_ok (hnone dst _), Prog.bind_ok (hnone dst' _)]
  rfl

/-- A read of a ring, once its control block is found: it uses the data pointer exactly
when it has bytes to give. -/
theorem ringRead_reaches {ctl : Int} {writeLane readLane closedLane : Lane} {data cap : Nat}
    {dataPtr : UInt32} {n : Int} {after : Int → Op Int} (hn : 0 ≤ n) (hsize : m.size < 4294967296)
    (hw : ValidLane m (at_ ctl writeLane)) (hr : ValidLane m (at_ ctl readLane))
    (hc : ValidLane m (at_ ctl closedLane)) (hs : ValidLane m (at_ ctl .state))
    (hpos : Positions m ctl writeLane readLane cap) (hring : data + cap ≤ m.size)
    (hbuf : dataPtr.toNat + n ≤ m.size) :
    AgreesWhen
      (Stubs.ringRead ctl writeLane readLane closedLane (.int data) (.int cap)
        (signed.ptr dataPtr) n >>= after)
      (Stubs.ringRead ctl writeLane readLane closedLane (.int data) (.int cap)
        (unsigned.ptr dataPtr) n >>= after) m
      (laneAt m (at_ ctl writeLane) - laneAt m (at_ ctl readLane) ≠ 0 → 0 < n →
        dataPtr.toNat < 2147483648) := by
  by_cases hp : dataPtr.toNat < 2147483648
  · exact .of_same (by rw [signed_ptr hp]; rfl) fun _ _ => hp
  by_cases h0 : laneAt m (at_ ctl writeLane) - laneAt m (at_ ctl readLane) = 0
  · exact .of_same (Prog.bind_eq (ringRead_empty_ptr hw hr hc hs h0)) fun ha => absurd h0 ha
  unfold Stubs.ringRead
  simp only [bind_assoc]
  refine .bind_left (load_valid hw) (.bind_left (load_valid hr) ?_)
  rw [if_neg h0, if_neg h0]
  obtain ⟨hr0, hrw, hwr⟩ := hpos
  generalize laneAt m (at_ ctl writeLane) = w at h0 hrw hwr ⊢
  generalize laneAt m (at_ ctl readLane) = r at h0 hr0 hrw hwr ⊢
  by_cases hn0 : 0 < n
  · refine .of_differs ?_ fun hroom => hp (hroom h0 hn0)
    -- the first part of the copy is not empty, so its target shows in the log
    have hcap : (cap : Int) ≠ 0 := by omega
    have hmod0 : 0 ≤ r.tmod cap := Int.tmod_nonneg _ hr0
    have hmod : r.tmod cap < cap := Int.tmod_lt_of_pos r (by omega)
    have hfirst : 0 < min (min (w - r) n) ((cap : Int) - r.tmod cap) := by omega
    unfold Stubs.ringTake
    simp only [Num.int_sub, Num.int_min, Num.int_mod hcap, Num.int_add, bind_assoc]
    obtain ⟨e, e', he, he', hne⟩ := copy_to_high hsize (show 2147483648 ≤ dataPtr.toNat by omega)
      hfirst (show 0 ≤ (data : Int) + r.tmod cap by omega) (by omega) (by omega)
    exact AgreesWhen.log_ne_of_head (Prog.log_bind_head? (congrArg List.head? he))
      (Prog.log_bind_head? (congrArg List.head? he')) hne
  · obtain rfl : n = 0 := by omega
    exact .of_same (Prog.bind_eq (ringTake_none_ptr (by omega) (by omega)))
      fun _ hlt => absurd hlt hn0

theorem slotRead_reaches (h : g.Describes region.toNat m) {slot : Int32} (hs : g.HasSlot slot)
    {dataPtr : UInt32} {n : Int} (hn : 0 ≤ n) (hpos : g.PositionsAt m region slot .w2c)
    (hbuf : dataPtr.toNat + n ≤ m.size) :
    AgreesWhen (Stubs.slotRead signed region slot.toInt dataPtr n)
      (Stubs.slotRead unsigned region slot.toInt dataPtr n) m
      (region.toNat < 2147483648 ∧ g.slotOf region slot < 2147483648 ∧
        (g.pending m region slot .w2c ≠ 0 → 0 < n → dataPtr.toNat < 2147483648)) := by
  unfold Stubs.slotRead
  refine .header h fun hr => ?_
  rw [signed_ptr hr, show unsigned.ptr region = region.toNat from rfl, slotByte_eq hs]
  have hin := slot_rings_inside h hs
  let data : Nat := g.slotOf region slot + 64 + g.ringCap
  let after := fun (ctl result : Int) => if result = 0 then do
      let terminal ← Stubs.terminalSet unsigned region.toNat ctl
      return if terminal then -3 else result
    else (return result : Op Int)
  let f := fun ctl => Stubs.ringRead ctl .w2cWrite .w2cRead .w2cClosed (.int data)
    (.int g.ringCap) (signed.ptr dataPtr) n >>= after ctl
  let q := fun ctl => Stubs.ringRead ctl .w2cWrite .w2cRead .w2cClosed (.int data)
    (.int g.ringCap) (unsigned.ptr dataPtr) n >>= after ctl
  have hslot := AgreesWhen.slot (f := f) (q := q) (slotOf_lt h hs)
    (fun _ => Prog.log_bind_head? load_bind_head) (fun _ => Prog.log_bind_head? load_bind_head)
    fun _ => ringRead_reaches hn h.size (slot_validLane h hs _) (slot_validLane h hs _)
      (slot_validLane h hs _) (slot_validLane h hs _) hpos (by omega) hbuf
  -- the features lane is in the header, which both find
  have hfeatures : Stubs.terminalSet signed region.toNat = Stubs.terminalSet unsigned region.toNat := by
    funext sb
    unfold Stubs.terminalSet
    rw [signed_shr2 hr, unsigned_shr2 (by omega)]
  rw [hfeatures]
  exact hslot

/-! ## The terminal error -/

/-- A result pointer from 2^31 on is written at a negative lane. -/
theorem store_ptr_agrees {p : UInt32} {v : Num} {f q : Unit → Op α}
    (h : p.toNat < 2147483648 → AgreesWhen (store (p.toNat / 4 : Int) v >>= f)
      (store (p.toNat / 4 : Int) v >>= q) m P) :
    AgreesWhen (store (signed.shr2 (signed.ptr p)) v >>= f)
      (store (unsigned.shr2 (unsigned.ptr p)) v >>= q) m (p.toNat < 2147483648 ∧ P) := by
  have hlt : p.toNat < 4294967296 := p.toNat_lt
  rw [show unsigned.shr2 (unsigned.ptr p) = (p.toNat / 4 : Int) from unsigned_shr2 hlt]
  by_cases hp : p.toNat < 2147483648
  · rw [signed_ptr hp, signed_shr2 hp]
    exact (h hp).iff ⟨fun hq => ⟨hp, hq⟩, fun hq => hq.2⟩
  · have hneg := signed_shr2_ptr_high (show 2147483648 ≤ p.toNat by omega)
    refine .of_differs ?_ fun hq => hp hq.1
    apply AgreesWhen.log_ne_of_head store_bind_head store_bind_head
    intro he
    have hlane := Access.lane.inj he
    omega

/-- A result that is stored only when the caller asks for it. -/
theorem optional_store_agrees {p : UInt32} {v : Num} {f q : Unit → Op α}
    (hp : p ≠ 0 → p.toNat + 4 ≤ m.size)
    (h : ∀ m' : Memory, m'.size = m.size → AgreesWhen (f ()) (q ()) m' P) :
    AgreesWhen (Prog.onlyIf (p != 0) (store (signed.shr2 (signed.ptr p)) v) >>= f)
      (Prog.onlyIf (p != 0) (store (unsigned.shr2 (unsigned.ptr p)) v) >>= q) m
      (p.toNat < 2147483648 ∧ P) := by
  by_cases h0 : p = 0
  · subst h0
    exact (h m rfl).iff ⟨fun hP => ⟨by decide, hP⟩, fun hP => hP.2⟩
  · have hb : (p != 0) = true := bne_iff_ne.mpr h0
    rw [hb]
    refine store_ptr_agrees fun hlow => ?_
    have hv : ValidLane m (p.toNat / 4 : Int) := by
      have hfit := hp h0
      unfold ValidLane
      omega
    exact .bind_left (store_valid hv) (h _ rfl)

/-- The two stores of a reported error. -/
theorem deliver_agrees {codePtr detailPtr : UInt32} {code detail : Num}
    (hc : codePtr ≠ 0 → codePtr.toNat + 4 ≤ m.size)
    (hd : detailPtr ≠ 0 → detailPtr.toNat + 4 ≤ m.size) :
    AgreesWhen (do
        .onlyIf (codePtr != 0) (store (signed.shr2 (signed.ptr codePtr)) code)
        .onlyIf (detailPtr != 0) (store (signed.shr2 (signed.ptr detailPtr)) detail)
        return 1 : Op Int)
      (do
        .onlyIf (codePtr != 0) (store (unsigned.shr2 (unsigned.ptr codePtr)) code)
        .onlyIf (detailPtr != 0) (store (unsigned.shr2 (unsigned.ptr detailPtr)) detail)
        return 1) m
      (codePtr.toNat < 2147483648 ∧ detailPtr.toNat < 2147483648 ∧ True) :=
  optional_store_agrees hc fun _ hsize =>
    optional_store_agrees (fun h => hsize ▸ hd h) fun _ _ => .of_same rfl trivial

/-- The slot carries a terminal error of the claim in `STATE`. -/
def Geometry.HasError (g : Geometry) (m : Memory) (region : UInt32) (slot : Int32) : Prop :=
  laneAt m (at_ (g.slotOf region slot / 4) .state) ≠ 0 ∧
    laneAt m (at_ (g.slotOf region slot / 4) .terminalClaim) =
      laneAt m (at_ (g.slotOf region slot / 4) .state)

/-- The header offers terminal errors. -/
def OffersErrors (m : Memory) (region : UInt32) : Prop :=
  ¬ lacksTerminalError (laneAt m (region.toNat / 4 + hdrFeatures))

/-- `vgi_wasm_slot_terminal_error` from its look at the claim on. -/
def reportError (a : Addressing) (codePtr detailPtr : UInt32) (sb : Int) : Op Int := do
  let claim ← load (at_ sb .state)
  if claim = 0 then return 0
  let terminalClaim ← load (at_ sb .terminalClaim)
  if terminalClaim ≠ claim then return 0
  let code ← load (at_ sb .terminalCode)
  let detail ← load (at_ sb .terminalDetail)
  let claim' ← load (at_ sb .state)
  if claim' ≠ claim then return 0
  let terminalClaim' ← load (at_ sb .terminalClaim)
  if terminalClaim' ≠ claim then return 0
  .onlyIf (codePtr != 0) (store (a.shr2 (a.ptr codePtr)) code)
  .onlyIf (detailPtr != 0) (store (a.shr2 (a.ptr detailPtr)) detail)
  return 1

theorem reportError_agrees (h : g.Describes region.toNat m) {slot : Int32} (hs : g.HasSlot slot)
    {codePtr detailPtr : UInt32} (hc : codePtr ≠ 0 → codePtr.toNat + 4 ≤ m.size)
    (hd : detailPtr ≠ 0 → detailPtr.toNat + 4 ≤ m.size) :
    AgreesWhen (reportError signed codePtr detailPtr (g.slotOf region slot / 4))
      (reportError unsigned codePtr detailPtr (g.slotOf region slot / 4)) m
      (g.HasError m region slot →
        codePtr.toNat < 2147483648 ∧ detailPtr.toNat < 2147483648 ∧ True) := by
  have hv := slot_validLane h hs
  unfold reportError
  refine .bind_left (load_valid (hv .state)) ?_
  by_cases h0 : laneAt m (at_ (g.slotOf region slot / 4) .state) = 0
  · rw [if_pos h0, if_pos h0]
    exact .of_same rfl fun herror => absurd h0 herror.1
  rw [if_neg h0, if_neg h0]
  refine .bind_left (load_valid (hv .terminalClaim)) ?_
  by_cases he : laneAt m (at_ (g.slotOf region slot / 4) .terminalClaim) =
      laneAt m (at_ (g.slotOf region slot / 4) .state)
  · rw [if_neg (not_not_intro he), if_neg (not_not_intro he)]
    refine .bind_left (load_valid (hv .terminalCode)) ?_
    refine .bind_left (load_valid (hv .terminalDetail)) ?_
    refine .bind_left (load_valid (hv .state)) ?_
    rw [if_neg (not_not_intro rfl), if_neg (not_not_intro rfl)]
    refine .bind_left (load_valid (hv .terminalClaim)) ?_
    rw [if_neg (not_not_intro he), if_neg (not_not_intro he)]
    exact (deliver_agrees hc hd).iff ⟨fun hp _ => hp, fun hp => hp ⟨h0, he⟩⟩
  · rw [if_pos he, if_pos he]
    exact .of_same rfl fun herror => absurd herror.2 he

theorem slotTerminalError_agrees (h : g.Describes region.toNat m) {slot : Int32}
    (hs : g.HasSlot slot) {codePtr detailPtr : UInt32}
    (hc : codePtr ≠ 0 → codePtr.toNat + 4 ≤ m.size)
    (hd : detailPtr ≠ 0 → detailPtr.toNat + 4 ≤ m.size) :
    AgreesWhen (Stubs.slotTerminalError signed region slot.toInt codePtr detailPtr)
      (Stubs.slotTerminalError unsigned region slot.toInt codePtr detailPtr) m
      (region.toNat < 2147483648 ∧ (OffersErrors m region → g.slotOf region slot < 2147483648 ∧
        (g.HasError m region slot →
          codePtr.toNat < 2147483648 ∧ detailPtr.toNat < 2147483648 ∧ True))) := by
  unfold Stubs.slotTerminalError
  refine .header h fun hr => ?_
  rw [signed_ptr hr, show unsigned.ptr region = region.toNat from rfl, slotByte_eq hs,
    signed_shr2 hr, unsigned_shr2 (show region.toNat < 4294967296 by omega)]
  have hfeatures : ValidLane m (region.toNat / 4 + hdrFeatures) :=
    validLane_of h.header (by decide) (by decide)
  refine .bind_left (load_valid hfeatures) ?_
  by_cases hl : lacksTerminalError (laneAt m (region.toNat / 4 + hdrFeatures))
  · rw [if_pos hl, if_pos hl]
    exact .of_same rfl fun hoffers => absurd hl hoffers
  rw [if_neg hl, if_neg hl]
  have hslot := AgreesWhen.slot (f := reportError signed codePtr detailPtr)
    (q := reportError unsigned codePtr detailPtr) (slotOf_lt h hs) (fun _ => load_bind_head)
    (fun _ => load_bind_head) fun _ => reportError_agrees h hs hc hd
  exact hslot.iff ⟨fun hp _ => hp, fun hp => hp hl⟩

/-! ## Opening -/

/-- Another opener holds slot `s`, or a claim does. -/
def Geometry.Taken (g : Geometry) (m : Memory) (base s : Nat) : Prop :=
  laneAt m (at_ (g.slotAddr base s / 4) .reservation) ≠ 0 ∨
    laneAt m (at_ (g.slotAddr base s / 4) .state) ≠ 0

theorem laneAt_setLane_ne {i j : Int} {v : Int32} (h : j.toNat ≠ i.toNat) :
    laneAt (m.setLane i.toNat v) j = laneAt m j :=
  congrArg Int32.toInt (Memory.lane_setLane_ne h)

/-- Two memories agree on what an opener looks at, from slot `s` on. -/
def SlotsAgree (g : Geometry) (base s : Nat) (m m' : Memory) : Prop :=
  m'.size = m.size ∧ ∀ t, s ≤ t →
    laneAt m' (at_ (g.slotAddr base t / 4) .reservation) =
      laneAt m (at_ (g.slotAddr base t / 4) .reservation) ∧
    laneAt m' (at_ (g.slotAddr base t / 4) .state) = laneAt m (at_ (g.slotAddr base t / 4) .state)

/-- A store to an earlier slot's control block, or to the header, is not seen. -/
theorem SlotsAgree.setLane {base s : Nat} {m' : Memory} {i : Int} {v : Int32}
    (h : SlotsAgree g base s m m') (h0 : 0 ≤ i) (hi : ∀ t, s ≤ t → i < g.slotAddr base t / 4) :
    SlotsAgree g base s m (m'.setLane i.toNat v) := by
  refine ⟨h.1, fun t ht => ?_⟩
  have hlt := hi t ht
  have hne : ∀ l : Lane, (at_ (g.slotAddr base t / 4) l).toNat ≠ i.toNat := by
    intro l
    have hat : at_ (g.slotAddr base t / 4) l = g.slotAddr base t / 4 + l.index := rfl
    omega
  rw [laneAt_setLane_ne (hne _), laneAt_setLane_ne (hne _)]
  exact h.2 t ht

theorem SlotsAgree.succ {base s : Nat} {m' : Memory} (h : SlotsAgree g base s m m') :
    SlotsAgree g base (s + 1) m m' := ⟨h.1, fun t ht => h.2 t (by omega)⟩

theorem compareExchange_held {i : Int} {id : Int32} (hv : ValidLane m i) (h : laneAt m i ≠ 0) :
    compareExchange i 0 id m = (.ok (laneAt m i), m, [.lane i]) := by
  have hne : m.lane i.toNat ≠ 0 := fun he => h (by unfold laneAt; rw [he]; rfl)
  exact (atLane_valid hv).trans (by rw [if_neg hne]; rfl)

theorem compareExchange_free {i : Int} {id : Int32} (hv : ValidLane m i) (h : laneAt m i = 0) :
    compareExchange i 0 id m = (.ok 0, m.setLane i.toNat id, [.lane i]) := by
  have he : m.lane i.toNat = 0 := Int32.toInt_inj.mp h
  exact (atLane_valid hv).trans (by rw [if_pos he, he]; rfl)

theorem compareExchange_bind_head {f : Int → Op α} {i : Int} {x y : Int32} :
    ((compareExchange i x y >>= f).log m).head? = some (.lane i) :=
  Prog.log_bind_head? (by simp [compareExchange])

/-- The addresses an opener reaches from slot `s` on are below 2^31: those of every slot
behind slots that are all taken. -/
def Geometry.OpensLow (g : Geometry) (m : Memory) (base s : Nat) : Prop :=
  ∀ t, s ≤ t → t < g.nSlots → (∀ u, s ≤ u → u < t → g.Taken m base u) →
    g.slotAddr base t < 2147483648

/-- Behind a taken slot, the opener goes on to the next. -/
theorem Geometry.opensLow_taken {base s : Nat} (hs : s < g.nSlots) (ht : g.Taken m base s) :
    g.OpensLow m base s ↔
      g.slotAddr base s < 2147483648 ∧ g.OpensLow m base (s + 1) := by
  refine ⟨fun h => ⟨h s (by omega) hs (fun u hu hu' => by omega), fun t h1 h2 htaken => ?_⟩, ?_⟩
  · refine h t (by omega) h2 fun u hu hu' => ?_
    by_cases hus : u = s
    · exact hus ▸ ht
    · exact htaken u (by omega) hu'
  · intro h t h1 h2 htaken
    by_cases hts : t = s
    · exact hts ▸ h.1
    · exact h.2 t (by omega) h2 fun u hu hu' => htaken u (by omega) hu'

/-- A slot that is not taken is the last one looked at. -/
theorem Geometry.opensLow_free {base s : Nat} (hs : s < g.nSlots) (ht : ¬ g.Taken m base s) :
    g.OpensLow m base s ↔ g.slotAddr base s < 2147483648 ∧ True := by
  refine ⟨fun h => ⟨h s (by omega) hs (fun u hu hu' => by omega), trivial⟩, ?_⟩
  intro h t h1 _ htaken
  by_cases hts : t = s
  · exact hts ▸ h.1
  · exact absurd (htaken s (by omega) (by omega)) ht

/-- One look at a slot, with `next` for the slots behind it. -/
def openStep (next : Op Int) (id : Int32) (s : Nat) (sb : Int) : Op Int := do
  let owner ← compareExchange (at_ sb .reservation) 0 id
  if owner = 0 then
    let state ← load (at_ sb .state)
    if state ≠ 0 then
      store (at_ sb .reservation) (0 : Int)
      notify (at_ sb .reservation)
      next
    else
      store (at_ sb .c2wWrite) (0 : Int)
      store (at_ sb .c2wRead) (0 : Int)
      store (at_ sb .c2wClosed) (0 : Int)
      store (at_ sb .w2cWrite) (0 : Int)
      store (at_ sb .w2cRead) (0 : Int)
      store (at_ sb .w2cClosed) (0 : Int)
      store (at_ sb .terminalClaim) (0 : Int)
      store (at_ sb .terminalCode) (0 : Int)
      store (at_ sb .terminalDetail) (0 : Int)
      store (at_ sb .state) id.toInt
      store (at_ sb .reservation) (0 : Int)
      notify (at_ sb .reservation)
      notify (at_ sb .state)
      return s
  else next

/-- The loop over the slots. -/
theorem slotOpenFrom_agrees {base : Nat} {id : Int32} (h : g.Describes base m) (left : Nat) :
    ∀ (s : Nat) (m' : Memory), s + left = g.nSlots → SlotsAgree g base s m m' →
      AgreesWhen (Stubs.slotOpenFrom signed base g.header id left s)
        (Stubs.slotOpenFrom unsigned base g.header id left s) m' (g.OpensLow m base s) := by
  induction left with
  | zero =>
    intro s m' hs _
    exact .of_same rfl fun t h1 h2 => by omega
  | succ left ih =>
    intro s m' hleft hagree
    have hs : s < g.nSlots := by omega
    have hin := h.slot_inside hs
    have hvalid : ∀ l : Lane, ValidLane m' (at_ (g.slotAddr base s / 4) l) := by
      intro l
      have hl : l.index < 16 := by cases l <;> decide
      have hsize := hagree.1
      unfold ValidLane at_
      omega
    let f := openStep (Stubs.slotOpenFrom signed base g.header id left (s + 1)) id s
    let q := openStep (Stubs.slotOpenFrom unsigned base g.header id left (s + 1)) id s
    show AgreesWhen (f (signed.shr2 (Stubs.slotByte base g.header s)))
      (q (unsigned.shr2 (Stubs.slotByte base g.header s))) m' _
    rw [slotByte_nat]
    obtain ⟨hres, hst⟩ := hagree.2 s (Nat.le_refl s)
    have hresAt : at_ (g.slotAddr base s / 4) .reservation = g.slotAddr base s / 4 + 10 := rfl
    have hstAt : at_ (g.slotAddr base s / 4) .state = g.slotAddr base s / 4 + 0 := rfl
    have hne : (at_ (g.slotAddr base s / 4) .state).toNat ≠
        (at_ (g.slotAddr base s / 4) .reservation).toNat := by omega
    have hnext : ∀ (m'' : Memory) (v : Int32), SlotsAgree g base (s + 1) m m'' →
        SlotsAgree g base (s + 1) m
          (m''.setLane (at_ (g.slotAddr base s / 4) .reservation).toNat v) := by
      intro m'' v hm
      refine hm.setLane (by omega) fun t ht => ?_
      have hafter := h.slot_after (show s < t by omega)
      omega
    by_cases hr0 : laneAt m' (at_ (g.slotAddr base s / 4) .reservation) = 0
    · by_cases hs0 : laneAt m' (at_ (g.slotAddr base s / 4) .state) = 0
      · -- free: both take it
        have hfree : ¬ g.Taken m base s := by
          unfold Geometry.Taken
          rw [← hres, ← hst, hr0, hs0]
          simp
        refine (AgreesWhen.slot (f := f) (q := q) (h.slot_lt hs)
          (fun _ => compareExchange_bind_head) (fun _ => compareExchange_bind_head)
          fun _ => ?_).iff (g.opensLow_free hs hfree).symm
        refine .bind_left (compareExchange_free (hvalid _) hr0) ?_
        refine .bind_left (load_valid (hvalid _)) ?_
        rw [laneAt_setLane_ne hne, hs0]
        exact .of_same rfl trivial
      · have htaken : g.Taken m base s := .inr (hst ▸ hs0)
        refine (AgreesWhen.slot (f := f) (q := q) (h.slot_lt hs)
          (fun _ => compareExchange_bind_head) (fun _ => compareExchange_bind_head)
          fun _ => ?_).iff (g.opensLow_taken hs htaken).symm
        refine .bind_left (compareExchange_free (hvalid _) hr0) ?_
        refine .bind_left (load_valid (hvalid _)) ?_
        rw [laneAt_setLane_ne hne, if_pos hs0, if_pos hs0]
        refine .bind_left (store_valid (hvalid _)) (.bind_left (notify_valid (hvalid _)) ?_)
        -- the reservation is given back before the next slot is looked at
        exact ih (s + 1) _ (by omega) (hnext _ _ (hnext _ _ hagree.succ))
    · have htaken : g.Taken m base s := .inl (hres ▸ hr0)
      refine (AgreesWhen.slot (f := f) (q := q) (h.slot_lt hs)
        (fun _ => compareExchange_bind_head) (fun _ => compareExchange_bind_head)
        fun _ => ?_).iff (g.opensLow_taken hs htaken).symm
      refine .bind_left (compareExchange_held (hvalid _) hr0) ?_
      rw [if_neg hr0, if_neg hr0]
      exact ih (s + 1) m' (by omega) hagree.succ

theorem slotOpen_agrees (h : g.Describes region.toNat m) :
    AgreesWhen (Stubs.slotOpen signed region) (Stubs.slotOpen unsigned region) m
      (region.toNat < 2147483648 ∧ g.OpensLow m region.toNat 0) := by
  unfold Stubs.slotOpen
  refine .header h fun hr => ?_
  rw [signed_ptr hr, show unsigned.ptr region = region.toNat from rfl, signed_shr2 hr,
    unsigned_shr2 (show region.toNat < 4294967296 by omega)]
  have hseq : ValidLane m (region.toNat / 4 + hdrClaimSeq) :=
    validLane_of h.header (by decide) (by decide)
  refine .bind_left (atLane_valid hseq) ?_
  have hnSlots : g.header.nSlots.toInteger.toNat = g.nSlots := Int.toNat_natCast _
  rw [hnSlots]
  refine slotOpenFrom_agrees h g.nSlots 0 _ (by omega) ?_
  -- the claim counter lies before every slot
  have hself : SlotsAgree g region.toNat 0 m m := ⟨rfl, fun _ _ => ⟨rfl, rfl⟩⟩
  have hat : (region.toNat / 4 + hdrClaimSeq : Int) = region.toNat / 4 + 8 := rfl
  refine hself.setLane (by omega) fun t _ => ?_
  have hbefore : region.toNat + 64 ≤ g.slotAddr region.toNat t := h.header_before
  omega

/-! ## Every call -/

/-- The channel a call is made on. -/
def Call.channel : Call → UInt32
  | .open region => region
  | .write region _ _ _ => region
  | .writeEos region _ => region
  | .read region _ _ _ => region
  | .terminalError region _ _ _ => region
  | .release region _ => region

/-- The call is made on channel `g` with addresses below the memory size: its slot is one
of the channel, its buffer lies in the memory and its ring positions are those of a ring. -/
def Call.Fits (g : Geometry) (m : Memory) : Call → Prop
  | .open _ => True
  | .write region slot dataPtr n => g.HasSlot slot ∧ 0 ≤ n.toInt ∧
      dataPtr.toNat + n.toInt ≤ m.size ∧ g.PositionsAt m region slot .c2w
  | .writeEos _ slot => g.HasSlot slot
  | .read region slot dataPtr n => g.HasSlot slot ∧ 0 ≤ n.toInt ∧
      dataPtr.toNat + n.toInt ≤ m.size ∧ g.PositionsAt m region slot .w2c
  | .terminalError _ slot codePtr detailPtr => g.HasSlot slot ∧
      (codePtr ≠ 0 → codePtr.toNat + 4 ≤ m.size) ∧ (detailPtr ≠ 0 → detailPtr.toNat + 4 ≤ m.size)
  | .release _ slot => g.HasSlot slot

/-- Everything the call has to look at lies below 2^31. -/
def Call.ReachesLow (g : Geometry) (m : Memory) : Call → Prop
  | .open region => region.toNat < 2147483648 ∧ g.OpensLow m region.toNat 0
  | .write region slot dataPtr n => region.toNat < 2147483648 ∧ (0 < n.toInt →
      g.slotOf region slot < 2147483648 ∧
        (g.pending m region slot .c2w < g.ringCap → dataPtr.toNat < 2147483648))
  | .writeEos region slot => region.toNat < 2147483648 ∧ g.slotOf region slot < 2147483648
  | .read region slot dataPtr n => region.toNat < 2147483648 ∧
      g.slotOf region slot < 2147483648 ∧
        (g.pending m region slot .w2c ≠ 0 → 0 < n.toInt → dataPtr.toNat < 2147483648)
  | .terminalError region slot codePtr detailPtr => region.toNat < 2147483648 ∧
      (OffersErrors m region → g.slotOf region slot < 2147483648 ∧ (g.HasError m region slot →
        codePtr.toNat < 2147483648 ∧ detailPtr.toNat < 2147483648))
  | .release region slot => region.toNat < 2147483648 ∧ g.slotOf region slot < 2147483648

/-- **A slot function accesses what lies at the unsigned addresses exactly when
everything it has to look at lies below 2^31**, and then it does to the memory what the
same function does at the unsigned addresses. -/
theorem accesses_unsigned_iff (g : Geometry) (m : Memory) (fuel : Nat) (c : Call)
    (h : g.Describes c.channel.toNat m) (hc : c.Fits g m) :
    ((Stubs.call signed (fuel + 1) c).log m = (Stubs.call unsigned (fuel + 1) c).log m ↔
      c.ReachesLow g m) ∧
    (c.ReachesLow g m →
      Stubs.call signed (fuel + 1) c m = Stubs.call unsigned (fuel + 1) c m) := by
  have hagrees : AgreesWhen (Stubs.call signed (fuel + 1) c) (Stubs.call unsigned (fuel + 1) c) m
      (c.ReachesLow g m) := by
    cases c with
    | «open» region => exact slotOpen_agrees h
    | write region slot dataPtr n =>
      obtain ⟨hs, -, hbuf, hpos⟩ := hc
      exact slotWrite_agrees h hs fuel hpos hbuf
    | writeEos region slot =>
      exact (slotWriteEos_agrees h hc).iff (by simp [Call.ReachesLow, Call.channel])
    | read region slot dataPtr n =>
      obtain ⟨hs, hn, hbuf, hpos⟩ := hc
      exact slotRead_reaches h hs hn hpos hbuf
    | terminalError region slot codePtr detailPtr =>
      obtain ⟨hs, hcode, hdetail⟩ := hc
      exact (slotTerminalError_agrees h hs hcode hdetail).iff (by simp [Call.ReachesLow, Call.channel])
    | release region slot =>
      exact (slotRelease_agrees h hc).iff (by simp [Call.ReachesLow, Call.channel])
  exact ⟨hagrees.log_iff, hagrees.same⟩

/-- A channel of one slot with rings of 8 bytes at `base`, in a memory of `size` bytes. -/
def channelAt (size base : Nat) : Memory :=
  ((((({ size := size, byte := fun _ => 0 } : Memory).setLane (base / 4 + 2) 1).setLane
    (base / 4 + 3) 8).setLane (base / 4 + 4) 128).setLane (base / 4 + 5) 64).setLane
    (base / 4 + 6) 1

/-- Its geometry. -/
def oneSlotGeometry : Geometry := { nSlots := 1, ringCap := 8, slotStride := 128, slotsOff := 64 }

theorem channelAt_low : oneSlotGeometry.Describes 0 (channelAt 4096 0) where
  size := by decide
  nSlots := by decide +kernel
  ringCap := by decide +kernel
  slotStride := by decide +kernel
  slotsOff := by decide +kernel
  header := by decide
  off := by decide
  stride := by decide
  inside := by decide

theorem channelAt_high : oneSlotGeometry.Describes 2147483648 (channelAt 2147549184 2147483648) where
  size := by decide
  nSlots := by decide +kernel
  ringCap := by decide +kernel
  slotStride := by decide +kernel
  slotsOff := by decide +kernel
  header := by decide
  off := by decide
  stride := by decide
  inside := by decide

instance (g : Geometry) (slot : Int32) : Decidable (g.HasSlot slot) :=
  inferInstanceAs (Decidable (_ ∧ _))

instance (m : Memory) (ctl : Int) (writeLane readLane : Lane) (cap : Nat) :
    Decidable (Positions m ctl writeLane readLane cap) :=
  inferInstanceAs (Decidable (_ ∧ _ ∧ _))

theorem accesses_unsigned_iff_lowWrite :
    Stubs.call signed 2 (.write 0 0 1024 3) (channelAt 4096 0) =
      Stubs.call unsigned 2 (.write 0 0 1024 3) (channelAt 4096 0) :=
  (accesses_unsigned_iff oneSlotGeometry (channelAt 4096 0) 1 (.write 0 0 1024 3) channelAt_low
    ⟨by decide, by decide, by decide, by unfold Geometry.PositionsAt; decide +kernel⟩).2
    ⟨by decide, fun _ => ⟨by decide, fun _ => by decide⟩⟩

/-- A channel past 2 GiB: releasing its slot does not touch the slot. -/
theorem accesses_astray :
    ¬ ∀ (g : Geometry) (m : Memory) (fuel : Nat) (c : Call), g.Describes c.channel.toNat m →
      c.Fits g m →
      (Stubs.call signed (fuel + 1) c).log m = (Stubs.call unsigned (fuel + 1) c).log m := by
  intro h
  have hrelease := h oneSlotGeometry (channelAt 2147549184 2147483648) 0 (.release 2147483648 0)
    channelAt_high (show oneSlotGeometry.HasSlot 0 by decide)
  revert hrelease
  decide +kernel

end Haybarn.Flat
