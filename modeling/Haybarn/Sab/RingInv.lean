import Haybarn.Lib.Window
import Haybarn.Sab.Calls

/-!
# What one step of `ringWrite` or `ringRead` does to a ring

The invariant of one direction of a slot (`RingOk`): the read position is at
most the write position, which is at most the capacity ahead of it, and every
byte in between satisfies a predicate `P` of its stream position. The predicate
is a parameter: for the first-in-first-out proof it says which byte it is, for
claim isolation it says who stored it.

`WriteCall.Ok` and `ReadCall.Ok` are the proof outlines of the two programs:
what a party knows at each program counter about the positions it has loaded
and the bytes it has copied. `WriteCall.step_cases` and `ReadCall.step_cases`
say once what a step can do (`WriterMove`, `ReaderMove`); that the other party's
outline survives a move is `WriteCall.Ok.of_readerMove` and
`ReadCall.Ok.of_writerMove`, and nothing else unfolds the programs.

Positions are lanes, so all of this is under the condition that a published
position still fits one: `w + k < 2^31`.
-/

namespace Haybarn.Sab

open Haybarn.Lib

variable {β : Type} {cap : Nat} {d : Dir} {P Q : Nat → β → Prop} {s s' : Slot β}

/-! ## The arithmetic of a span -/

/-- A nonnegative position below the lane limit survives a store and a load. -/
theorem toInt_ofInt_pos {x : Int} (h0 : 0 ≤ x) (h : x < 2 ^ 31) : (Int32.ofInt x).toInt = x :=
  Int32.toInt_ofInt_of_le (by omega) h

/-- A copy of at most `cap` bytes at a nonnegative position stays in the ring. -/
theorem span_inside {x k : Int} (hcap : 0 < cap) (hx : 0 ≤ x) (hk0 : 0 ≤ k) (hk : k ≤ cap) :
    (span cap x k).Inside cap := by
  have h0 : 0 ≤ x.tmod cap := Int.tmod_nonneg _ hx
  have h1 : x.tmod cap < cap := Int.tmod_lt_of_pos _ (by omega)
  refine ⟨?_, ?_, h0, ?_, ?_⟩ <;> simp only [span] <;> omega

/-- The `i`-th byte of a copy at position `x` is kept in cell `(x + i) % cap`. -/
theorem span_index {x i k : Nat} (hk : k ≤ cap) (hi : i < k) :
    (span cap x k).index i = (x + i) % cap := by
  have hcap : 0 < cap := by omega
  have hlt : x % cap < cap := Nat.mod_lt _ hcap
  have hmod : (x : Int).tmod cap = ((x % cap : Nat) : Int) := rfl
  have hsum : (x + i) % cap = (x % cap + i) % cap := (Nat.mod_add_mod ..).symm
  simp only [Span.index, span, hmod, hsum]
  generalize x % cap = m at hlt
  split
  next h => rw [Nat.mod_eq_of_lt (by omega)]; omega
  next h => rw [Nat.mod_eq_sub_mod (by omega), Nat.mod_eq_of_lt (by omega)]; omega

/-! ## The invariant of a direction -/

/-- The write position of direction `d`. -/
def Slot.writePos (s : Slot β) (d : Dir) : Int := (s.lane d.writeLane).toInt

/-- The read position of direction `d`. -/
def Slot.readPos (s : Slot β) (d : Dir) : Int := (s.lane d.readLane).toInt

/-- Positions in order and at most a capacity apart, and `P` of every byte
written and not yet read. -/
structure RingOk (cap : Nat) (d : Dir) (P : Nat → β → Prop) (s : Slot β) : Prop where
  read_nonneg : 0 ≤ s.readPos d
  read_le : s.readPos d ≤ s.writePos d
  write_le : s.writePos d ≤ s.readPos d + cap
  window : Window cap (s.ring d) (s.readPos d).toNat (s.writePos d).toNat P

/-- Two slots agree on everything direction `d` is made of. -/
structure SameDir (d : Dir) (s s' : Slot β) : Prop where
  write : s'.lane d.writeLane = s.lane d.writeLane
  read : s'.lane d.readLane = s.lane d.readLane
  ring : s'.ring d = s.ring d

theorem SameDir.refl (d : Dir) (s : Slot β) : SameDir d s s := ⟨rfl, rfl, rfl⟩

theorem SameDir.writePos (h : SameDir d s s') : s'.writePos d = s.writePos d := by
  rw [Slot.writePos, Slot.writePos, h.write]

theorem SameDir.readPos (h : SameDir d s s') : s'.readPos d = s.readPos d := by
  rw [Slot.readPos, Slot.readPos, h.read]

theorem RingOk.of_sameDir (h : RingOk cap d P s) (hs : SameDir d s s') : RingOk cap d P s' := by
  refine ⟨?_, ?_, ?_, ?_⟩
  · rw [hs.readPos]; exact h.read_nonneg
  · rw [hs.readPos, hs.writePos]; exact h.read_le
  · rw [hs.readPos, hs.writePos]; exact h.write_le
  · rw [hs.readPos, hs.writePos, hs.ring]; exact h.window

/-- The predicate of the bytes in flight may be weakened. -/
theorem RingOk.mono (h : RingOk cap d P s) (hP : ∀ p b, P p b → Q p b) : RingOk cap d Q s :=
  ⟨h.read_nonneg, h.read_le, h.write_le,
    h.window.mono (Nat.le_refl _) (Nat.le_refl _) fun p b _ _ => hP p b⟩

/-! ## The outlines -/

/-- What the caller of `ringWrite` knows at each program counter. -/
def WriteCall.Ok (c : WriteCall β) (s : Slot β) : WritePC → Prop
  | .acquire off _ => off < c.n
  | .loadWrite off => off < c.n
  | .loadRead off w => off < c.n ∧ w = s.lane c.dir.writeLane
  | .plan off w r => off < c.n ∧ w = s.lane c.dir.writeLane ∧
      r.toInt ≤ s.readPos c.dir ∧ s.writePos c.dir ≤ r.toInt + c.ringCap
  | .copy off w k i => w = s.lane c.dir.writeLane ∧ i < k ∧ k ≤ c.ringCap ∧ off + k ≤ c.n ∧
      s.writePos c.dir + k ≤ s.readPos c.dir + c.ringCap ∧
      Window c.ringCap (s.ring c.dir) (s.writePos c.dir).toNat ((s.writePos c.dir).toNat + i)
        fun p b => b = c.src (off + (p - (s.writePos c.dir).toNat))
  | .publish off w k => w = s.lane c.dir.writeLane ∧ 0 < k ∧ off + k ≤ c.n ∧
      s.writePos c.dir + k ≤ s.readPos c.dir + c.ringCap ∧
      Window c.ringCap (s.ring c.dir) (s.writePos c.dir).toNat ((s.writePos c.dir).toNat + k)
        fun p b => b = c.src (off + (p - (s.writePos c.dir).toNat))
  | .release pc => c.Ok s pc
  | .wait off => off < c.n
  | .outOfRing => False
  | .done result => result ≤ c.n

/-- What the caller of `ringRead` knows at each program counter; `P` is what the
bytes in flight satisfy. -/
def ReadCall.Ok (c : ReadCall) (P : Nat → β → Prop) (s : Slot β) : ReadPC β → Prop
  | .loadRead w => s.readPos c.dir ≤ w.toInt ∧ w.toInt ≤ s.writePos c.dir
  | .plan w r _ => r = s.lane c.dir.readLane ∧ s.readPos c.dir ≤ w.toInt ∧
      w.toInt ≤ s.writePos c.dir
  | .loadClosed w r _ => r = s.lane c.dir.readLane ∧ w.toInt = s.readPos c.dir
  | .loadState _ w r _ => r = s.lane c.dir.readLane ∧ w.toInt = s.readPos c.dir
  | .waitOnce r => r = s.lane c.dir.readLane
  | .reloadWrite r => r = s.lane c.dir.readLane
  | .copy r k dst => r = s.lane c.dir.readLane ∧ dst.length < k ∧ k ≤ c.n ∧ k ≤ c.ringCap ∧
      s.readPos c.dir + k ≤ s.writePos c.dir ∧
      ∀ j b, dst[j]? = some b → P ((s.readPos c.dir).toNat + j) b
  | .consume r k dst => r = s.lane c.dir.readLane ∧ dst.length = k ∧ k ≤ c.n ∧
      s.readPos c.dir + k ≤ s.writePos c.dir ∧
      ∀ j b, dst[j]? = some b → P ((s.readPos c.dir).toNat + j) b
  | .release pc => c.Ok P s pc
  | .acquire _ => True
  | .loadWrite => True
  | .wait => True
  | .outOfRing => False
  | .done result dst => dst.length = result.toNat

theorem ReadCall.Ok.mono {c : ReadCall} {pc : ReadPC β} (h : c.Ok P s pc)
    (hP : ∀ p b, P p b → Q p b) : c.Ok Q s pc := by
  induction pc with
  | copy r k dst =>
    obtain ⟨hr, hlen, hn, hc, hk, hdst⟩ := h
    exact ⟨hr, hlen, hn, hc, hk, fun j b hj => hP _ _ (hdst j b hj)⟩
  | consume r k dst =>
    obtain ⟨hr, hlen, hn, hk, hdst⟩ := h
    exact ⟨hr, hlen, hn, hk, fun j b hj => hP _ _ (hdst j b hj)⟩
  | release pc ih => exact ih h
  | _ => exact h

/-! ## What a step does -/

/-- The effects of `ringWrite`'s steps on its direction, publishing `new`. -/
inductive WriterMove (cap : Nat) (d : Dir) (new : List β) (s s' : Slot β) : Prop
  | quiet (hnew : new = []) (h : SameDir d s s')
  | byte (q : Nat) (b : β) (hnew : new = []) (hq : (s.writePos d).toNat ≤ q)
      (hcap : (q : Int) < s.readPos d + cap) (h : s' = s.setByte d (q % cap) b)
  | publish (hcap : s.writePos d + new.length ≤ s.readPos d + cap)
      (hfit : s.writePos d + new.length < 2 ^ 31)
      (hwin : Window cap (s.ring d) (s.writePos d).toNat ((s.writePos d).toNat + new.length)
        fun p b => new[p - (s.writePos d).toNat]? = some b)
      (h : s' = s.setLane d.writeLane (Int32.ofInt (s.writePos d + new.length)))

/-- The effects of `ringRead`'s steps on its direction, consuming `got`. -/
inductive ReaderMove (d : Dir) (P : Nat → β → Prop) (got : List β) (s s' : Slot β) : Prop
  | quiet (hgot : got = []) (h : SameDir d s s')
  | consume (hk : s.readPos d + got.length ≤ s.writePos d)
      (hP : ∀ j b, got[j]? = some b → P ((s.readPos d).toNat + j) b)
      (h : s' = s.setLane d.readLane (Int32.ofInt (s.readPos d + got.length)))

/-- The position the next step publishes, if it publishes one. -/
def WritePC.target : WritePC → Int
  | .publish _ w k => w.toInt + k
  | _ => 0

section Moves

variable {k q : Nat} {b : β}

theorem Slot.writePos_publish (hfit : s.writePos d + k < 2 ^ 31) (h0 : 0 ≤ s.writePos d) :
    (s.setLane d.writeLane (Int32.ofInt (s.writePos d + k))).writePos d = s.writePos d + k := by
  rw [Slot.writePos, Slot.setLane_lane_self, toInt_ofInt_pos (by omega) hfit]

theorem Slot.readPos_publish (v : Int32) :
    (s.setLane d.writeLane v).readPos d = s.readPos d := by
  rw [Slot.readPos, Slot.setLane_lane_ne _ _ (d.readLane_ne_writeLane d)]; rfl

theorem Slot.readPos_consume (hk : s.readPos d + k ≤ s.writePos d) (h0 : 0 ≤ s.readPos d) :
    (s.setLane d.readLane (Int32.ofInt (s.readPos d + k))).readPos d = s.readPos d + k := by
  have hw : s.writePos d < 2 ^ 31 := Int32.toInt_lt _
  rw [Slot.readPos, Slot.setLane_lane_self, toInt_ofInt_pos (by omega) (by omega)]

theorem Slot.writePos_consume (v : Int32) :
    (s.setLane d.readLane v).writePos d = s.writePos d := by
  rw [Slot.writePos, Slot.setLane_lane_ne _ _ (d.writeLane_ne_readLane d)]; rfl

/-- Storing a byte past the write position keeps the invariant. -/
theorem RingOk.setByte (h : RingOk cap d P s) (hq : (s.writePos d).toNat ≤ q)
    (hcap : (q : Int) < s.readPos d + cap) : RingOk cap d P (s.setByte d (q % cap) b) := by
  have := h.read_nonneg
  refine ⟨h.read_nonneg, h.read_le, h.write_le, ?_⟩
  rw [Slot.setByte_ring_self]
  exact h.window.update_outside hq (by omega) b

/-- Publishing `k` copied bytes keeps the invariant. -/
theorem RingOk.publish (h : RingOk cap d P s) (hk : s.writePos d + k ≤ s.readPos d + cap)
    (hfit : s.writePos d + k < 2 ^ 31)
    (hw : Window cap (s.ring d) (s.writePos d).toNat ((s.writePos d).toNat + k) P) :
    RingOk cap d P (s.setLane d.writeLane (Int32.ofInt (s.writePos d + k))) := by
  have h0 := h.read_nonneg
  have hle := h.read_le
  have hwp := Slot.writePos_publish hfit (by omega)
  refine ⟨?_, ?_, ?_, ?_⟩ <;> rw [Slot.readPos_publish]
  · exact h0
  · rw [hwp]; omega
  · rw [hwp]; omega
  · rw [hwp, Slot.setLane_ring,
      show (s.writePos d + k).toNat = (s.writePos d).toNat + k by omega]
    exact h.window.append hw

/-- Consuming `k` available bytes keeps the invariant. -/
theorem RingOk.consume (h : RingOk cap d P s) (hk : s.readPos d + k ≤ s.writePos d) :
    RingOk cap d P (s.setLane d.readLane (Int32.ofInt (s.readPos d + k))) := by
  have h0 := h.read_nonneg
  have hle := h.write_le
  have hrp := Slot.readPos_consume hk h0
  have hwp := Slot.writePos_consume (d := d) (s := s) (Int32.ofInt (s.readPos d + k))
  refine ⟨?_, ?_, ?_, ?_⟩
  · rw [hrp]; omega
  · rw [hrp, hwp]; exact hk
  · rw [hrp, hwp]; omega
  · rw [hrp, hwp, Slot.setLane_ring]
    exact h.window.mono (by omega) (Nat.le_refl _) fun _ _ _ _ h => h

end Moves

/-- The invariant survives the reader's steps. -/
theorem RingOk.of_readerMove {got : List β} (h : RingOk cap d P s)
    (hm : ReaderMove d P got s s') : RingOk cap d P s' := by
  cases hm with
  | quiet _ hs => exact h.of_sameDir hs
  | consume hk _ hs => exact hs ▸ h.consume hk

/-- The invariant survives the writer's steps, for every predicate `Q` that
follows from `P` and holds of the published bytes. -/
theorem RingOk.of_writerMove {new : List β} (h : RingOk cap d P s)
    (hm : WriterMove cap d new s s') (hPQ : ∀ p b, P p b → Q p b)
    (hnew : ∀ j b, new[j]? = some b → Q ((s.writePos d).toNat + j) b) : RingOk cap d Q s' := by
  have hQ := h.mono hPQ
  cases hm with
  | quiet _ hs => exact hQ.of_sameDir hs
  | byte q b _ hq hcap hs => exact hs ▸ hQ.setByte hq hcap
  | publish hcap hfit hwin hs =>
    refine hs ▸ hQ.publish hcap hfit (hwin.mono (Nat.le_refl _) (Nat.le_refl _) ?_)
    intro p b h1 h2 hb
    have := hnew _ _ hb
    rwa [show (s.writePos d).toNat + (p - (s.writePos d).toNat) = p by omega] at this

/-- The writer's outline survives the reader's steps: the read position only
grows, and nothing else changes. -/
theorem WriteCall.Ok.of_readerMove {c : WriteCall β} {got : List β}
    (hR : RingOk cap c.dir P s) (hm : ReaderMove c.dir P got s s') :
    ∀ {pc : WritePC}, c.Ok s pc → c.Ok s' pc := by
  have hlane : s'.lane c.dir.writeLane = s.lane c.dir.writeLane := by
    cases hm with
    | quiet _ hs => exact hs.write
    | consume hk _ hs => rw [hs, Slot.setLane_lane_ne _ _ (c.dir.writeLane_ne_readLane _)]
  have hw : s'.writePos c.dir = s.writePos c.dir := by
    rw [Slot.writePos, Slot.writePos, hlane]
  have hr : s.readPos c.dir ≤ s'.readPos c.dir := by
    cases hm with
    | quiet _ hs => exact Int.le_of_eq hs.readPos.symm
    | consume hk _ hs => rw [hs, Slot.readPos_consume hk hR.read_nonneg]; omega
  have hb : s'.ring c.dir = s.ring c.dir := by
    cases hm with
    | quiet _ hs => exact hs.ring
    | consume hk _ hs => rw [hs, Slot.setLane_ring]
  intro pc h
  induction pc with
  | acquire off pc => exact h
  | loadWrite off => exact h
  | loadRead off w => exact ⟨h.1, by rw [hlane]; exact h.2⟩
  | plan off w r =>
    obtain ⟨hoff, hwl, hrp, hcap⟩ := h
    exact ⟨hoff, by rw [hlane]; exact hwl, by omega, by rw [hw]; exact hcap⟩
  | copy off w k i =>
    obtain ⟨hwl, hi, hkc, hn, hk, hwin⟩ := h
    exact ⟨by rw [hlane]; exact hwl, hi, hkc, hn, by rw [hw]; omega, by rw [hw, hb]; exact hwin⟩
  | publish off w k =>
    obtain ⟨hwl, hk0, hn, hk, hwin⟩ := h
    exact ⟨by rw [hlane]; exact hwl, hk0, hn, by rw [hw]; omega, by rw [hw, hb]; exact hwin⟩
  | wait off => exact h
  | release pc ih => exact ih h
  | outOfRing => exact h
  | done n => exact h

/-- The reader's outline survives the writer's steps: the write position only
grows, and the reader's bytes are its own. -/
theorem ReadCall.Ok.of_writerMove {c : ReadCall} {new : List β} (h0 : 0 ≤ s.writePos c.dir)
    (hm : WriterMove cap c.dir new s s') : ∀ {pc : ReadPC β}, c.Ok P s pc → c.Ok P s' pc := by
  have hlane : s'.lane c.dir.readLane = s.lane c.dir.readLane := by
    cases hm with
    | quiet _ hs => exact hs.read
    | byte q b _ hq hcap hs => rw [hs, Slot.setByte_lane]
    | publish hcap hfit hwin hs => rw [hs, Slot.setLane_lane_ne _ _ (c.dir.readLane_ne_writeLane _)]
  have hr : s'.readPos c.dir = s.readPos c.dir := by rw [Slot.readPos, Slot.readPos, hlane]
  have hw : s.writePos c.dir ≤ s'.writePos c.dir := by
    cases hm with
    | quiet _ hs => exact Int.le_of_eq hs.writePos.symm
    | byte q b _ hq hcap hs => rw [hs]; exact Int.le_refl _
    | publish hcap hfit hwin hs => rw [hs, Slot.writePos_publish hfit h0]; omega
  intro pc h
  induction pc with
  | loadRead w => obtain ⟨h1, h2⟩ := h; exact ⟨by rw [hr]; exact h1, by omega⟩
  | plan w r again =>
    obtain ⟨hrl, h1, h2⟩ := h
    exact ⟨by rw [hlane]; exact hrl, by rw [hr]; exact h1, by omega⟩
  | loadClosed w r again => exact ⟨by rw [hlane]; exact h.1, by rw [hr]; exact h.2⟩
  | loadState closed w r again => exact ⟨by rw [hlane]; exact h.1, by rw [hr]; exact h.2⟩
  | waitOnce r => exact Eq.trans h hlane.symm
  | reloadWrite r => exact Eq.trans h hlane.symm
  | copy r k dst =>
    obtain ⟨hrl, hlen, hn, hc, hk, hdst⟩ := h
    exact ⟨by rw [hlane]; exact hrl, hlen, hn, hc, by rw [hr]; omega, by rw [hr]; exact hdst⟩
  | consume r k dst =>
    obtain ⟨hrl, hlen, hn, hk, hdst⟩ := h
    exact ⟨by rw [hlane]; exact hrl, hlen, hn, by rw [hr]; omega, by rw [hr]; exact hdst⟩
  | release pc ih => exact ih h
  | acquire pc => trivial
  | loadWrite => trivial
  | wait => trivial
  | outOfRing => exact h
  | done n dst => exact h

section Positions

variable {new : List β}

theorem WriterMove.writePos (hm : WriterMove cap d new s s') (h0 : 0 ≤ s.writePos d) :
    s'.writePos d = s.writePos d + new.length := by
  cases hm with
  | quiet hnew hs => rw [hs.writePos, hnew, List.length_nil]; omega
  | byte q b hnew _ _ hs => rw [hs, hnew]; exact (Int.add_zero _).symm
  | publish _ hfit _ hs => rw [hs, Slot.writePos_publish hfit h0]

theorem WriterMove.readPos (hm : WriterMove cap d new s s') : s'.readPos d = s.readPos d := by
  cases hm with
  | quiet _ hs => exact hs.readPos
  | byte q b _ _ _ hs => rw [hs]; rfl
  | publish _ _ _ hs => rw [hs, Slot.readPos_publish]

theorem ReaderMove.readPos (hm : ReaderMove d P new s s') (h0 : 0 ≤ s.readPos d) :
    s'.readPos d = s.readPos d + new.length := by
  cases hm with
  | quiet hnew hs => rw [hs.readPos, hnew, List.length_nil]; omega
  | consume hk _ hs => rw [hs, Slot.readPos_consume hk h0]

theorem ReaderMove.writePos (hm : ReaderMove d P new s s') : s'.writePos d = s.writePos d := by
  cases hm with
  | quiet _ hs => exact hs.writePos
  | consume _ _ hs => rw [hs, Slot.writePos_consume]

end Positions

/-! ## The steps of `ringWrite` -/

section Acquire

variable {σ : Type} (claim : Int32) (lift : AcquirePC → σ) (ret : Bool → σ)

/-- Taking the reservation stores to no other lane. -/
theorem acquire_lane (pc : AcquirePC) (s : Slot β) {l : Lane} (hl : l ≠ .reservation) :
    ((acquireWorkerOperation claim lift ret pc).exec s).1.lane l = s.lane l := by
  refine Instr.exec_lane ?_ s
  cases pc <;> simp [acquireWorkerOperation, Instr.lane?, hl.symm]

theorem release_lane (k : σ) (s : Slot β) {l : Lane} (hl : l ≠ .reservation) :
    ((releaseWorkerOperation claim k).exec s).1.lane l = s.lane l := by
  refine Instr.exec_lane ?_ s
  simp [releaseWorkerOperation, Instr.lane?, hl.symm]

/-- Taking the reservation touches no lane but the reservation, and no ring. -/
theorem acquire_sameDir (pc : AcquirePC) (d : Dir) (s : Slot β) :
    SameDir d s ((acquireWorkerOperation claim lift ret pc).exec s).1 := by
  refine ⟨acquire_lane claim lift ret pc s (by simp), acquire_lane claim lift ret pc s (by simp), ?_⟩
  refine Instr.exec_ring ?_ s
  cases pc <;> simp [acquireWorkerOperation, Instr.ring?]

/-- What holds of every program counter of the sub-program and of both results
holds of the continuation. -/
theorem acquire_next (Φ : σ → Prop) (hl : ∀ pc, Φ (lift pc)) (hr : ∀ ok, Φ (ret ok))
    (pc : AcquirePC) (s : Slot β) :
    Φ ((acquireWorkerOperation claim lift ret pc).exec s).2 := by
  cases pc with
  | loadState =>
    show Φ (if s.lane .state ≠ claim then ret false else lift .reserve)
    split
    · exact hr _
    · exact hl _
  | reserve =>
    show Φ (if s.lane .reservation = 0 then lift .recheck else lift .wait)
    split <;> exact hl _
  | recheck =>
    show Φ (if s.lane .state = claim then ret true else lift .undo)
    split
    · exact hr _
    · exact hl _
  | undo => exact hr _
  | wait => exact hl _

theorem release_sameDir (k : σ) (d : Dir) (s : Slot β) :
    SameDir d s ((releaseWorkerOperation claim k).exec s).1 := by
  refine ⟨release_lane claim k s (by simp), release_lane claim k s (by simp), ?_⟩
  refine Instr.exec_ring ?_ s
  simp [releaseWorkerOperation, Instr.ring?]

end Acquire

namespace WriteCall

variable {c : WriteCall β} {off : Nat} {pc : WritePC}

theorem loop_ok (c : WriteCall β) (s : Slot β) (off : Nat) : c.Ok s (c.loop off) := by
  unfold loop enterAcquire
  split
  next hoff =>
    split
    · exact hoff
    · split
      · exact Nat.le_of_lt hoff
      · exact hoff
  · exact Nat.le_refl _

theorem leave_ok (h : c.Ok s pc) : c.Ok s (c.leave pc) := by
  unfold leave
  split <;> exact h

/-- The outline looks only at the call's own direction. -/
theorem Ok.of_sameDir (hs : SameDir c.dir s s') : ∀ {pc : WritePC}, c.Ok s pc → c.Ok s' pc := by
  intro pc h
  induction pc with
  | acquire off pc => exact h
  | loadWrite off => exact h
  | loadRead off w => exact ⟨h.1, by rw [hs.write]; exact h.2⟩
  | plan off w r => simpa only [Ok, hs.write, hs.readPos, hs.writePos] using h
  | copy off w k i => simpa only [Ok, hs.write, hs.readPos, hs.writePos, hs.ring] using h
  | publish off w k => simpa only [Ok, hs.write, hs.readPos, hs.writePos, hs.ring] using h
  | wait off => exact h
  | release pc ih => exact ih h
  | outOfRing => exact h
  | done n => exact h

/-- The computed free space lies in `[0, ringCap]`. -/
theorem free_bounds {w r : Int32} (hR : RingOk c.ringCap c.dir P s)
    (h : c.Ok s (.plan off w r)) : 0 ≤ c.free w r ∧ c.free w r ≤ c.ringCap := by
  obtain ⟨-, rfl, hr, hcap⟩ := h
  have hle := hR.read_le
  simp only [free]
  simp only [Slot.writePos] at hle hcap
  omega

/-- The planned copy has at least one byte when there is space, fits what is
left of the chunk, and stays in the ring. -/
theorem plan_inside {w r : Int32} (hR : RingOk c.ringCap c.dir P s)
    (h : c.Ok s (.plan off w r)) (hfree : c.free w r ≠ 0) :
    (span c.ringCap w.toInt (c.size off w r)).Inside c.ringCap ∧ 0 < c.size off w r := by
  have hb := free_bounds hR h
  obtain ⟨hoff, rfl, -, -⟩ := h
  have h0 := hR.read_nonneg
  have hle := hR.read_le
  have hsize : 0 < c.size off (s.lane c.dir.writeLane) r := by
    simp only [size]
    omega
  refine ⟨span_inside (by omega) ?_ (by omega) ?_, hsize⟩
  · exact Int.le_trans h0 hle
  · simp only [size]
    omega

/-- What a step of `ringWrite` can do, and that it keeps the outline. -/
theorem step_cases {ins : Instr β WritePC} (hR : RingOk c.ringCap c.dir P s) (h : c.Ok s pc)
    (hn : c.next pc = some ins) (hfit : pc.target < 2 ^ 31) :
    WriterMove c.ringCap c.dir (c.published pc) s (ins.exec s).1 ∧
      c.Ok (ins.exec s).1 (ins.exec s).2 := by
  have h0 := hR.read_nonneg
  have hle := hR.read_le
  cases pc with
  | acquire off pc =>
    obtain ⟨claim, -, rfl⟩ := Option.map_eq_some_iff.mp hn
    have hs := acquire_sameDir claim (WritePC.acquire off)
      (fun ok => if ok then .loadWrite off else .done off) pc c.dir s
    refine ⟨.quiet rfl hs, acquire_next claim (WritePC.acquire off) _ (c.Ok _) (fun _ => h) ?_ pc s⟩
    rintro (_ | _)
    · exact Nat.le_of_lt h
    · exact h
  | loadWrite off =>
    obtain rfl := Option.some.inj hn
    exact ⟨.quiet rfl (.refl ..), h, rfl⟩
  | loadRead off w =>
    obtain rfl := Option.some.inj hn
    exact ⟨.quiet rfl (.refl ..), h.1, h.2, Int.le_refl _, hR.write_le⟩
  | plan off w r =>
    obtain rfl := Option.some.inj hn
    refine ⟨.quiet rfl (.refl ..), ?_⟩
    show c.Ok s (if c.free w r = 0 then _ else _)
    split
    next => exact leave_ok h.1
    next hfree =>
      have hin := plan_inside hR h hfree
      obtain ⟨hoff, rfl, hr, hwr⟩ := h
      rw [if_pos hin]
      have hs1 : c.size off (s.lane c.dir.writeLane) r ≤ c.free (s.lane c.dir.writeLane) r :=
        Int.min_le_left ..
      have hs2 : c.size off (s.lane c.dir.writeLane) r ≤ c.n - off := Int.min_le_right ..
      have hpos := hin.2
      have hfree : c.free (s.lane c.dir.writeLane) r = c.ringCap - (s.writePos c.dir - r.toInt) :=
        rfl
      exact ⟨rfl, by omega, by omega, by omega, by omega, .empty (by omega)⟩
  | copy off w k i =>
    obtain rfl := Option.some.inj hn
    obtain ⟨rfl, hi, hkc, hn', hk, hwin⟩ := h
    have hwp : (s.lane c.dir.writeLane).toInt = ((s.writePos c.dir).toNat : Int) := by
      rw [Int.toNat_of_nonneg (by omega)]; rfl
    have hidx : (span c.ringCap (s.lane c.dir.writeLane).toInt k).index i
        = ((s.writePos c.dir).toNat + i) % c.ringCap := by
      rw [hwp]; exact span_index hkc hi
    simp only [Instr.exec, hidx]
    refine ⟨.byte ((s.writePos c.dir).toNat + i) (c.src (off + i)) rfl (by omega) (by omega) rfl,
      ?_⟩
    have hwin' := hwin.snoc (by omega) (c.src (off + i))
      (by rw [show (s.writePos c.dir).toNat + i - (s.writePos c.dir).toNat = i by omega])
    split
    next hlt =>
      exact ⟨rfl, hlt, hkc, hn', hk, by rw [Slot.setByte_ring_self]; exact hwin'⟩
    next hge =>
      obtain rfl : k = i + 1 := by omega
      exact ⟨rfl, by omega, hn', hk, by rw [Slot.setByte_ring_self]; exact hwin'⟩
  | publish off w k =>
    obtain rfl := Option.some.inj hn
    obtain ⟨rfl, hk0, hn', hk, hwin⟩ := h
    have hlen : (c.published (.publish off (s.lane c.dir.writeLane) k)).length = k := by
      simp [published]
    refine ⟨.publish (by rw [hlen]; exact hk) (by rw [hlen]; exact hfit) ?_ (by rw [hlen]; rfl),
      leave_ok (loop_ok ..)⟩
    rw [hlen]
    refine hwin.mono (Nat.le_refl _) (Nat.le_refl _) fun p b h1 h2 hb => ?_
    have hp : p - (s.writePos c.dir).toNat < k := by omega
    simp only [published, List.getElem?_map, List.getElem?_range hp, Option.map_some, hb]
  | wait off =>
    obtain rfl := Option.some.inj hn
    exact ⟨.quiet rfl (.refl ..), loop_ok ..⟩
  | release pc =>
    obtain ⟨claim, -, rfl⟩ := Option.map_eq_some_iff.mp hn
    have hs := release_sameDir claim pc c.dir s
    exact ⟨.quiet rfl hs, Ok.of_sameDir hs (show c.Ok s pc from h)⟩
  | outOfRing => exact absurd h id
  | done n => cases hn

/-- `ringWrite` stores to no lane but its write lane and, when a claim is served,
the reservation. -/
theorem step_lane {ins : Instr β WritePC} (h : c.next pc = some ins) (s : Slot β) {l : Lane}
    (hl : ∀ claim, c.servedClaim = some claim → l ≠ .reservation) (hw : l ≠ c.dir.writeLane) :
    (ins.exec s).1.lane l = s.lane l := by
  cases pc with
  | acquire off pc =>
    obtain ⟨claim, hc, rfl⟩ := Option.map_eq_some_iff.mp h
    exact acquire_lane _ _ _ _ _ (hl claim hc)
  | release pc =>
    obtain ⟨claim, hc, rfl⟩ := Option.map_eq_some_iff.mp h
    exact release_lane _ _ _ (hl claim hc)
  | publish off w k =>
    obtain rfl := Option.some.inj h
    exact Slot.setLane_lane_ne _ _ hw
  | loadWrite off => obtain rfl := Option.some.inj h; rfl
  | loadRead off w => obtain rfl := Option.some.inj h; rfl
  | plan off w r => obtain rfl := Option.some.inj h; rfl
  | copy off w k i => obtain rfl := Option.some.inj h; rfl
  | wait off => obtain rfl := Option.some.inj h; rfl
  | outOfRing => cases h
  | done n => cases h

/-- `ringWrite` leaves the other direction alone. -/
theorem step_otherDir {ins : Instr β WritePC} (h : c.next pc = some ins) (hd : d ≠ c.dir)
    (s : Slot β) : SameDir d s (ins.exec s).1 := by
  refine ⟨step_lane h s (fun _ _ => by simp) ?_, step_lane h s (fun _ _ => by simp) (by simp), ?_⟩
  · exact fun he => hd (Dir.writeLane_inj he)
  refine Instr.exec_ring ?_ s
  cases pc with
  | acquire off pc =>
    obtain ⟨claim, -, rfl⟩ := Option.map_eq_some_iff.mp h
    cases pc <;> exact nofun
  | release pc =>
    obtain ⟨claim, -, rfl⟩ := Option.map_eq_some_iff.mp h
    exact nofun
  | copy off w k i =>
    obtain rfl := Option.some.inj h
    exact fun he => hd (Option.some.inj he).symm
  | loadWrite off => obtain rfl := Option.some.inj h; exact nofun
  | loadRead off w => obtain rfl := Option.some.inj h; exact nofun
  | plan off w r => obtain rfl := Option.some.inj h; exact nofun
  | publish off w k => obtain rfl := Option.some.inj h; exact nofun
  | wait off => obtain rfl := Option.some.inj h; exact nofun
  | outOfRing => cases h
  | done n => cases h

theorem leave_off (c : WriteCall β) (pc : WritePC) : (c.leave pc).off = pc.off := by
  unfold leave
  split <;> rfl

theorem loop_off (c : WriteCall β) {off : Nat} (h : off ≤ c.n) : (c.loop off).off = off := by
  unfold loop enterAcquire
  split
  next =>
    split
    · rfl
    · split <;> rfl
  next hge => exact Nat.le_antisymm (Nat.le_of_not_lt hge) h

/-- The count of bytes written grows by what a step publishes. -/
theorem step_off {ins : Instr β WritePC} (hR : RingOk c.ringCap c.dir P s) (h : c.Ok s pc)
    (hn : c.next pc = some ins) :
    (ins.exec s).2.off = pc.off + (c.published pc).length := by
  cases pc with
  | acquire off pc =>
    obtain ⟨claim, -, rfl⟩ := Option.map_eq_some_iff.mp hn
    refine acquire_next claim (WritePC.acquire off) _ (fun pc => pc.off = off) (fun _ => rfl) ?_ pc s
    rintro (_ | _) <;> rfl
  | loadWrite off => obtain rfl := Option.some.inj hn; rfl
  | loadRead off w => obtain rfl := Option.some.inj hn; rfl
  | plan off w r =>
    obtain rfl := Option.some.inj hn
    show (if c.free w r = 0 then c.leave (.wait off) else _ : WritePC).off = off
    split
    next => exact leave_off ..
    next hfree => rw [if_pos (plan_inside hR h hfree)]; rfl
  | copy off w k i =>
    obtain rfl := Option.some.inj hn
    show (if i + 1 < k then _ else _ : WritePC).off = off
    split <;> rfl
  | publish off w k =>
    obtain rfl := Option.some.inj hn
    show (c.leave (c.loop (off + k))).off = off + (c.published (.publish off w k)).length
    rw [leave_off, loop_off c h.2.2.1]
    simp [published]
  | wait off =>
    obtain rfl := Option.some.inj hn
    exact loop_off c (Nat.le_of_lt h)
  | release pc =>
    obtain ⟨claim, -, rfl⟩ := Option.map_eq_some_iff.mp hn
    rfl
  | outOfRing => cases hn
  | done n => cases hn

/-- The call never writes past its chunk. -/
theorem Ok.off_le (h : c.Ok s pc) : pc.off + (c.published pc).length ≤ c.n := by
  induction pc with
  | acquire off pc => exact Nat.le_of_lt h
  | loadWrite off => exact Nat.le_of_lt h
  | loadRead off w => exact Nat.le_of_lt h.1
  | plan off w r => exact Nat.le_of_lt h.1
  | copy off w k i =>
    obtain ⟨-, -, -, hn, -⟩ := h
    exact Nat.le_trans (Nat.le_add_right off k) hn
  | publish off w k =>
    rw [published, List.length_map, List.length_range]
    exact h.2.2.1
  | wait off => exact Nat.le_of_lt h
  | release pc ih =>
    have := ih h
    exact Nat.le_trans (Nat.le_add_right ..) this
  | outOfRing => exact Nat.zero_le _
  | done n => exact h

/-- A step that publishes a position publishes that of its last byte. -/
theorem Ok.target_eq (h : c.Ok s pc) :
    pc.target = 0 ∨ pc.target = s.writePos c.dir + (c.published pc).length := by
  cases pc with
  | publish off w k =>
    obtain ⟨rfl, -⟩ := h
    refine .inr ?_
    simp only [WritePC.target, published, List.length_map, List.length_range]
    rfl
  | _ => exact .inl rfl

/-- What a step publishes is the next part of the chunk. -/
theorem take_off_append (c : WriteCall β) (pc : WritePC) :
    (List.range pc.off).map c.src ++ c.published pc
      = (List.range (pc.off + (c.published pc).length)).map c.src := by
  cases pc with
  | publish off w k => simp [published, WritePC.off, List.range_add, Function.comp_def]
  | _ => simp [published]

end WriteCall

/-! ## The steps of `ringRead` -/

namespace ReadCall

variable {c : ReadCall} {pc : ReadPC β}

theorem loop_ok (c : ReadCall) (P : Nat → β → Prop) (s : Slot β) : c.Ok P s c.loop := by
  unfold loop enterAcquire
  split
  · exact trivial
  · split
    · exact rfl
    · exact trivial

theorem leave_ok (h : c.Ok P s pc) : c.Ok P s (c.leave pc) := by
  unfold leave
  split <;> exact h

/-- The outline looks only at the call's own direction. -/
theorem Ok.of_sameDir (hs : SameDir c.dir s s') :
    ∀ {pc : ReadPC β}, c.Ok P s pc → c.Ok P s' pc := by
  intro pc h
  induction pc with
  | acquire pc => exact h
  | loadWrite => exact h
  | release pc ih => exact ih h
  | wait => exact h
  | outOfRing => exact h
  | done n dst => exact h
  | _ => simpa only [Ok, hs.read, hs.readPos, hs.writePos] using h

/-- The computed number of available bytes lies in `[0, ringCap]`. -/
theorem avail_bounds {w r : Int32} {again : Bool} (hR : RingOk c.ringCap c.dir P s)
    (h : c.Ok P s (.plan w r again)) : 0 ≤ avail w r ∧ avail w r ≤ c.ringCap := by
  obtain ⟨rfl, h1, h2⟩ := h
  have hle := hR.write_le
  have hr : (s.lane c.dir.readLane).toInt = s.readPos c.dir := rfl
  simp only [avail, hr]
  omega

/-- The planned copy stays in the ring. -/
theorem plan_inside {w r : Int32} {again : Bool} (hR : RingOk c.ringCap c.dir P s)
    (h : c.Ok P s (.plan w r again)) (havail : avail w r ≠ 0) :
    (span c.ringCap r.toInt (c.size w r)).Inside c.ringCap := by
  have hb := avail_bounds hR h
  obtain ⟨rfl, -, -⟩ := h
  refine span_inside (by omega) hR.read_nonneg ?_ ?_ <;> simp only [size] <;> omega

theorem startCopy_ok {w r : Int32} {again : Bool} (hR : RingOk c.ringCap c.dir P s)
    (h : c.Ok P s (.plan w r again)) (havail : avail w r ≠ 0) :
    c.Ok P s (c.startCopy w r) := by
  have hin := plan_inside hR h havail
  have hb := avail_bounds hR h
  have hs1 : c.size w r ≤ avail w r := Int.min_le_left ..
  have hs2 : c.size w r ≤ c.n := Int.min_le_right ..
  obtain ⟨rfl, h1, h2⟩ := h
  have hav : avail w (s.lane c.dir.readLane) = w.toInt - s.readPos c.dir := rfl
  rw [startCopy, if_pos hin]
  split
  next hpos =>
    refine ⟨rfl, ?_, by omega, by omega, by omega, by simp⟩
    show 0 < (c.size w (s.lane c.dir.readLane)).toNat
    omega
  next => exact ⟨rfl, rfl, Nat.zero_le _, by omega, by simp⟩

/-- One byte of the copy: the cell read is that of the next position. -/
theorem copyByte_ok {r : Int32} {k : Nat} {dst : List β} (hR : RingOk c.ringCap c.dir P s)
    (h : c.Ok P s (.copy r k dst)) : c.Ok P s ((c.copyByte r k dst).exec s).2 := by
  obtain ⟨rfl, hlen, hn, hkc, hk, hdst⟩ := h
  have h0 := hR.read_nonneg
  have hrp : (s.lane c.dir.readLane).toInt = ((s.readPos c.dir).toNat : Int) := by
    rw [Int.toNat_of_nonneg h0]; rfl
  have hidx : (span c.ringCap (s.lane c.dir.readLane).toInt k).index dst.length
      = ((s.readPos c.dir).toNat + dst.length) % c.ringCap := by
    rw [hrp]; exact span_index hkc hlen
  have hb := hR.window ((s.readPos c.dir).toNat + dst.length) (by omega) (by omega)
  simp only [copyByte, Instr.exec, hidx]
  generalize s.ring c.dir (((s.readPos c.dir).toNat + dst.length) % c.ringCap) = b at hb
  have hdst' : ∀ j b', (dst ++ [b])[j]? = some b' → P ((s.readPos c.dir).toNat + j) b' := by
    intro j b' hj
    rcases Nat.lt_trichotomy j dst.length with hlt | rfl | hgt
    · exact hdst j b' (by rwa [List.getElem?_append_left hlt] at hj)
    · rw [List.getElem?_concat_length, Option.some.injEq] at hj
      exact hj ▸ hb
    · rw [List.getElem?_eq_none (by simp; omega)] at hj
      cases hj
  have hlen' : (dst ++ [b]).length = dst.length + 1 := by simp
  split
  next hlt => exact ⟨rfl, by omega, hn, hkc, hk, hdst'⟩
  next hge => exact ⟨rfl, by omega, hn, hk, hdst'⟩

/-- What a step of `ringRead` can do, and that it keeps the outline. -/
theorem step_cases {ins : Instr β (ReadPC β)} (hR : RingOk c.ringCap c.dir P s)
    (h : c.Ok P s pc) (hn : c.next pc = some ins) :
    ReaderMove c.dir P pc.fetched s (ins.exec s).1 ∧ c.Ok P (ins.exec s).1 (ins.exec s).2 := by
  cases pc with
  | acquire pc =>
    obtain ⟨claim, -, rfl⟩ := Option.map_eq_some_iff.mp hn
    refine ⟨.quiet rfl (acquire_sameDir ..),
      acquire_next claim ReadPC.acquire _ (c.Ok P _) (fun _ => trivial) ?_ pc s⟩
    rintro (_ | _)
    · exact rfl
    · exact trivial
  | loadWrite =>
    obtain rfl := Option.some.inj hn
    exact ⟨.quiet rfl (.refl ..), hR.read_le, Int.le_refl _⟩
  | loadRead w =>
    obtain rfl := Option.some.inj hn
    exact ⟨.quiet rfl (.refl ..), rfl, h.1, h.2⟩
  | plan w r again =>
    obtain rfl := Option.some.inj hn
    refine ⟨.quiet rfl (.refl ..), ?_⟩
    show c.Ok P s (if avail w r = 0 then _ else _)
    split
    next hz => exact ⟨h.1, by obtain ⟨rfl, -, -⟩ := h; exact Int.sub_eq_zero.mp hz⟩
    next hne => exact startCopy_ok hR h hne
  | loadClosed w r again =>
    obtain rfl := Option.some.inj hn
    refine ⟨.quiet rfl (.refl ..), ?_⟩
    show c.Ok P s (if s.lane c.dir.closedLane = 0 then _ else if c.claimSafeClose then _ else _)
    split
    · exact leave_ok trivial
    · split
      · exact h
      · exact leave_ok rfl
  | loadState closed w r again =>
    obtain rfl := Option.some.inj hn
    refine ⟨.quiet rfl (.refl ..), ?_⟩
    show c.Ok P s (if closed = s.lane .state then _ else _)
    split
    · exact leave_ok rfl
    · exact leave_ok trivial
  | wait =>
    obtain rfl := Option.some.inj hn
    exact ⟨.quiet rfl (.refl ..), loop_ok ..⟩
  | copy r k dst =>
    obtain rfl := Option.some.inj hn
    exact ⟨.quiet rfl (.refl ..), copyByte_ok hR h⟩
  | consume r k dst =>
    obtain rfl := Option.some.inj hn
    obtain ⟨rfl, rfl, -, hk, hdst⟩ := h
    exact ⟨.consume hk hdst rfl, leave_ok rfl⟩
  | release pc =>
    obtain ⟨claim, -, rfl⟩ := Option.map_eq_some_iff.mp hn
    have hs := release_sameDir claim pc c.dir s
    exact ⟨.quiet rfl hs, Ok.of_sameDir hs (show c.Ok P s pc from h)⟩
  | waitOnce r => cases hn
  | reloadWrite r => cases hn
  | outOfRing => cases hn
  | done n dst => cases hn

/-- The same for the read loop of `js-stubs.js`. -/
theorem stub_step_cases {ins : Instr β (ReadPC β)} (hR : RingOk c.ringCap c.dir P s)
    (h : c.Ok P s pc) (hn : c.stubNext pc = some ins) :
    ReaderMove c.dir P pc.fetched s (ins.exec s).1 ∧ c.Ok P (ins.exec s).1 (ins.exec s).2 := by
  cases pc with
  | loadWrite =>
    obtain rfl := Option.some.inj hn
    exact ⟨.quiet rfl (.refl ..), hR.read_le, Int.le_refl _⟩
  | loadRead w =>
    obtain rfl := Option.some.inj hn
    exact ⟨.quiet rfl (.refl ..), rfl, h.1, h.2⟩
  | plan w r again =>
    obtain rfl := Option.some.inj hn
    refine ⟨.quiet rfl (.refl ..), ?_⟩
    show c.Ok P s (if avail w r = 0 then _ else _)
    split
    next hz => exact ⟨h.1, by obtain ⟨rfl, -, -⟩ := h; exact Int.sub_eq_zero.mp hz⟩
    next hne => exact startCopy_ok hR h hne
  | loadClosed w r again =>
    obtain rfl := Option.some.inj hn
    refine ⟨.quiet rfl (.refl ..), ?_⟩
    show c.Ok P s (if s.lane c.dir.closedLane = 0 then if again then _ else _ else _)
    split
    · split
      · exact rfl
      · exact h.1
    · exact h
  | loadState closed w r again =>
    obtain rfl := Option.some.inj hn
    refine ⟨.quiet rfl (.refl ..), ?_⟩
    show c.Ok P s (if closed = s.lane .state then _ else if again then _ else _)
    split
    · exact rfl
    · split
      · exact rfl
      · exact h.1
  | waitOnce r =>
    obtain rfl := Option.some.inj hn
    exact ⟨.quiet rfl (.refl ..), h⟩
  | reloadWrite r =>
    obtain rfl := Option.some.inj hn
    exact ⟨.quiet rfl (.refl ..), h, hR.read_le, Int.le_refl _⟩
  | copy r k dst =>
    obtain rfl := Option.some.inj hn
    exact ⟨.quiet rfl (.refl ..), copyByte_ok hR h⟩
  | consume r k dst =>
    obtain rfl := Option.some.inj hn
    obtain ⟨rfl, rfl, -, hk, hdst⟩ := h
    exact ⟨.consume hk hdst rfl, rfl⟩
  | acquire pc => cases hn
  | wait => cases hn
  | release pc => cases hn
  | outOfRing => cases hn
  | done n dst => cases hn

/-- `ringRead` stores to no lane but its read lane and, when a claim is served,
the reservation. -/
theorem step_lane {ins : Instr β (ReadPC β)} (h : c.next pc = some ins) (s : Slot β) {l : Lane}
    (hl : ∀ claim, c.servedClaim = some claim → l ≠ .reservation) (hr : l ≠ c.dir.readLane) :
    (ins.exec s).1.lane l = s.lane l := by
  cases pc with
  | acquire pc =>
    obtain ⟨claim, hc, rfl⟩ := Option.map_eq_some_iff.mp h
    exact acquire_lane _ _ _ _ _ (hl claim hc)
  | release pc =>
    obtain ⟨claim, hc, rfl⟩ := Option.map_eq_some_iff.mp h
    exact release_lane _ _ _ (hl claim hc)
  | consume r k dst =>
    obtain rfl := Option.some.inj h
    exact Slot.setLane_lane_ne _ _ hr
  | loadWrite => obtain rfl := Option.some.inj h; rfl
  | loadRead w => obtain rfl := Option.some.inj h; rfl
  | plan w r again => obtain rfl := Option.some.inj h; rfl
  | loadClosed w r again => obtain rfl := Option.some.inj h; rfl
  | loadState closed w r again => obtain rfl := Option.some.inj h; rfl
  | wait => obtain rfl := Option.some.inj h; rfl
  | copy r k dst => obtain rfl := Option.some.inj h; rfl
  | waitOnce r => cases h
  | reloadWrite r => cases h
  | outOfRing => cases h
  | done n dst => cases h

/-- The read loop of `js-stubs.js` stores to no lane but its read lane. -/
theorem stub_step_lane {ins : Instr β (ReadPC β)} (h : c.stubNext pc = some ins) (s : Slot β)
    {l : Lane} (hr : l ≠ c.dir.readLane) : (ins.exec s).1.lane l = s.lane l := by
  cases pc with
  | consume r k dst =>
    obtain rfl := Option.some.inj h
    exact Slot.setLane_lane_ne _ _ hr
  | loadWrite => obtain rfl := Option.some.inj h; rfl
  | loadRead w => obtain rfl := Option.some.inj h; rfl
  | plan w r again => obtain rfl := Option.some.inj h; rfl
  | loadClosed w r again => obtain rfl := Option.some.inj h; rfl
  | loadState closed w r again => obtain rfl := Option.some.inj h; rfl
  | waitOnce r => obtain rfl := Option.some.inj h; rfl
  | reloadWrite r => obtain rfl := Option.some.inj h; rfl
  | copy r k dst => obtain rfl := Option.some.inj h; rfl
  | acquire pc => cases h
  | wait => cases h
  | release pc => cases h
  | outOfRing => cases h
  | done n dst => cases h

/-- `ringRead` stores to no ring. -/
theorem step_ring {ins : Instr β (ReadPC β)} (h : c.next pc = some ins) (d : Dir) (s : Slot β) :
    (ins.exec s).1.ring d = s.ring d := by
  refine Instr.exec_ring ?_ s
  cases pc with
  | acquire pc =>
    obtain ⟨claim, -, rfl⟩ := Option.map_eq_some_iff.mp h
    cases pc <;> exact nofun
  | release pc =>
    obtain ⟨claim, -, rfl⟩ := Option.map_eq_some_iff.mp h
    exact nofun
  | waitOnce r => cases h
  | reloadWrite r => cases h
  | outOfRing => cases h
  | done n dst => cases h
  | _ => obtain rfl := Option.some.inj h; exact nofun

theorem stub_step_ring {ins : Instr β (ReadPC β)} (h : c.stubNext pc = some ins) (d : Dir)
    (s : Slot β) : (ins.exec s).1.ring d = s.ring d := by
  refine Instr.exec_ring ?_ s
  cases pc with
  | acquire pc => cases h
  | wait => cases h
  | release pc => cases h
  | outOfRing => cases h
  | done n dst => cases h
  | _ => obtain rfl := Option.some.inj h; exact nofun

/-- `ringRead` leaves the other direction alone. -/
theorem step_otherDir {ins : Instr β (ReadPC β)} (h : c.next pc = some ins) (hd : d ≠ c.dir)
    (s : Slot β) : SameDir d s (ins.exec s).1 :=
  ⟨step_lane h s (fun _ _ => by simp) (by simp),
    step_lane h s (fun _ _ => by simp) fun he => hd (Dir.readLane_inj he), step_ring h d s⟩

theorem stub_step_otherDir {ins : Instr β (ReadPC β)} (h : c.stubNext pc = some ins)
    (hd : d ≠ c.dir) (s : Slot β) : SameDir d s (ins.exec s).1 :=
  ⟨stub_step_lane h s (by simp), stub_step_lane h s fun he => hd (Dir.readLane_inj he),
    stub_step_ring h d s⟩

theorem leave_consumed (c : ReadCall) (pc : ReadPC β) : (c.leave pc).consumed = pc.consumed := by
  unfold leave
  split <;> rfl

theorem loop_consumed (c : ReadCall) : (c.loop : ReadPC β).consumed = [] := by
  unfold loop enterAcquire
  split
  · rfl
  · split <;> rfl

theorem startCopy_consumed (c : ReadCall) (w r : Int32) :
    (c.startCopy w r : ReadPC β).consumed = [] := by
  unfold startCopy
  split
  · split <;> rfl
  · rfl

/-- The bytes consumed and not yet returned grow by what a step consumes. -/
theorem step_consumed {ins : Instr β (ReadPC β)} (hn : c.next pc = some ins) (s : Slot β) :
    (ins.exec s).2.consumed = pc.consumed ++ pc.fetched := by
  cases pc with
  | acquire pc =>
    obtain ⟨claim, -, rfl⟩ := Option.map_eq_some_iff.mp hn
    refine acquire_next claim ReadPC.acquire _ (fun pc => pc.consumed = []) (fun _ => rfl) ?_ pc s
    rintro (_ | _) <;> rfl
  | loadWrite => obtain rfl := Option.some.inj hn; rfl
  | loadRead w => obtain rfl := Option.some.inj hn; rfl
  | plan w r again =>
    obtain rfl := Option.some.inj hn
    show (if avail w r = 0 then _ else _ : ReadPC β).consumed = []
    split
    · rfl
    · exact startCopy_consumed ..
  | loadClosed w r again =>
    obtain rfl := Option.some.inj hn
    show (if s.lane c.dir.closedLane = 0 then _ else if c.claimSafeClose then _ else _
      : ReadPC β).consumed = []
    split
    · exact leave_consumed ..
    · split
      · rfl
      · exact leave_consumed ..
  | loadState closed w r again =>
    obtain rfl := Option.some.inj hn
    show (if closed = s.lane .state then _ else _ : ReadPC β).consumed = []
    split <;> exact leave_consumed ..
  | wait => obtain rfl := Option.some.inj hn; exact loop_consumed c
  | copy r k dst =>
    obtain rfl := Option.some.inj hn
    show (if dst.length + 1 < k then _ else _ : ReadPC β).consumed = []
    split <;> rfl
  | consume r k dst => obtain rfl := Option.some.inj hn; exact leave_consumed ..
  | release pc =>
    obtain ⟨claim, -, rfl⟩ := Option.map_eq_some_iff.mp hn
    exact (List.append_nil _).symm
  | waitOnce r => cases hn
  | reloadWrite r => cases hn
  | outOfRing => cases hn
  | done n dst => cases hn

theorem stub_step_consumed {ins : Instr β (ReadPC β)} (hn : c.stubNext pc = some ins)
    (s : Slot β) : (ins.exec s).2.consumed = pc.consumed ++ pc.fetched := by
  cases pc with
  | loadWrite => obtain rfl := Option.some.inj hn; rfl
  | loadRead w => obtain rfl := Option.some.inj hn; rfl
  | plan w r again =>
    obtain rfl := Option.some.inj hn
    show (if avail w r = 0 then _ else _ : ReadPC β).consumed = []
    split
    · rfl
    · exact startCopy_consumed ..
  | loadClosed w r again =>
    obtain rfl := Option.some.inj hn
    show (if s.lane c.dir.closedLane = 0 then if again then _ else _ else _
      : ReadPC β).consumed = []
    split
    · split <;> rfl
    · rfl
  | loadState closed w r again =>
    obtain rfl := Option.some.inj hn
    show (if closed = s.lane .state then _ else if again then _ else _ : ReadPC β).consumed = []
    split
    · rfl
    · split <;> rfl
  | waitOnce r => obtain rfl := Option.some.inj hn; rfl
  | reloadWrite r => obtain rfl := Option.some.inj hn; rfl
  | copy r k dst =>
    obtain rfl := Option.some.inj hn
    show (if dst.length + 1 < k then _ else _ : ReadPC β).consumed = []
    split <;> rfl
  | consume r k dst => obtain rfl := Option.some.inj hn; rfl
  | acquire pc => cases hn
  | wait => cases hn
  | release pc => cases hn
  | outOfRing => cases hn
  | done n dst => cases hn

end ReadCall

/-! ## The steps of the closing calls -/

namespace Closer

/-- What a step of a closing call is. -/
theorem step_cases {c : Closer} {pc : ClosePC} {ins : Instr β ClosePC}
    (h : c.next pc = some ins) :
    (∃ claim apc, pc = .acquire apc ∧ ins = acquireWorkerOperation claim .acquire
      (fun ok => if ok then .store else .done false) apc) ∨
    (∃ k, pc = .store ∧ ins = .store c.dir.closedLane c.token k ∧ (k = .done true ∨ k = .release)) ∨
    (∃ claim, pc = .release ∧ ins = releaseWorkerOperation claim (.done true)) := by
  cases c with
  | stubWriteEos =>
    cases pc with
    | store => exact .inr (.inl ⟨_, rfl, (Option.some.inj h).symm, .inl rfl⟩)
    | acquire apc => cases h
    | release => cases h
    | done result => cases h
  | workerCloseW2c claim =>
    cases pc with
    | acquire apc => exact .inl ⟨claim, apc, rfl, (Option.some.inj h).symm⟩
    | store => exact .inr (.inl ⟨_, rfl, (Option.some.inj h).symm, .inr rfl⟩)
    | release => exact .inr (.inr ⟨claim, rfl, (Option.some.inj h).symm⟩)
    | done result => cases h

/-- The closing calls store to no lane but their closed lane and the reservation. -/
theorem step_lane {c : Closer} {pc : ClosePC} {ins : Instr β ClosePC}
    (h : c.next pc = some ins) (s : Slot β) {l : Lane} (hl : l ≠ .reservation)
    (hc : pc = .store → l ≠ c.dir.closedLane) : (ins.exec s).1.lane l = s.lane l := by
  rcases step_cases h with ⟨claim, apc, -, rfl⟩ | ⟨k, hpc, rfl, -⟩ | ⟨claim, -, rfl⟩
  · exact acquire_lane _ _ _ _ _ hl
  · exact Slot.setLane_lane_ne _ _ (hc hpc)
  · exact release_lane _ _ _ hl

/-- The closing calls store to no ring. -/
theorem step_ring {c : Closer} {pc : ClosePC} {ins : Instr β ClosePC}
    (h : c.next pc = some ins) (s : Slot β) (d : Dir) : (ins.exec s).1.ring d = s.ring d := by
  rcases step_cases h with ⟨claim, apc, -, rfl⟩ | ⟨k, -, rfl, -⟩ | ⟨claim, -, rfl⟩
  · exact (acquire_sameDir _ _ _ _ d s).ring
  · rfl
  · exact (release_sameDir _ _ d s).ring

theorem step_sameDir {c : Closer} {pc : ClosePC} {ins : Instr β ClosePC}
    (h : c.next pc = some ins) (d : Dir) (s : Slot β) : SameDir d s (ins.exec s).1 :=
  ⟨step_lane h s (by simp) fun _ => by simp, step_lane h s (by simp) fun _ => by simp,
    step_ring h s d⟩

end Closer

end Haybarn.Sab
