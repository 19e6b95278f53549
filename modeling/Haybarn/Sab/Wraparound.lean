import Haybarn.Sab.PipeInv

/-!
# Streams of 2^31 bytes

The positions of a ring are Int32 lanes that only grow, so a claim that moves
2^31 bytes stores the position -2^31. This module builds such a run, one byte at
a time through a ring of capacity one: `round_run` moves one byte, `rounds_run`
is the induction that brings both positions to any `k < 2^31`, and after 2^31 - 1
rounds one more byte makes the reader compute a negative number of available
bytes (`arith_unsafe`).
-/

namespace Haybarn.Sab.Pipe

open Haybarn.Lib

variable {s : State} {k : Nat}

/-- Client to worker through one byte, under claim 7. -/
def oneByte : Pipe := clientToWorker 1 7

theorem claim_ne_zero : (7 : Int32) ≠ 0 := by decide

/-- Nobody is calling; the positions are `w` and `r`. -/
structure At (w r : Nat) (s : State) : Prop where
  write : (s.slot.lane .c2wWrite).toInt = w
  read : (s.slot.lane .c2wRead).toInt = r
  state : s.slot.lane .state = 7
  reservation : s.slot.lane .reservation = 0
  producer : s.producer = .idle
  consumer : s.consumer = .idle

/-- A `stubWrite` of one byte that finds space. -/
def writeOne : List Event := .write [0] :: List.replicate 6 .produce

/-- A `workerRead` up to its second load. -/
def readLoads : List Event := .read 1 :: List.replicate 5 .consume

/-- A `workerRead` of one byte that finds it. -/
def readOne : List Event := .read 1 :: List.replicate 10 .consume

/-- A position grows by one as long as it fits its lane. -/
theorem toInt_succ {w : Int32} (h : w.toInt = k) (hk : k + 1 < 2 ^ 31) :
    (w + 1).toInt = ((k + 1 : Nat) : Int) := by
  have hw : Int32.ofInt (w.toInt + 1) = w + 1 := by simp
  rw [← hw, h]
  exact toInt_ofInt_pos (by omega) (by omega)

theorem writeOne_run (h : At k k s) :
    ∃ s', Run oneByte.step Always s writeOne s' ∧
      s'.slot.lane .c2wWrite = s.slot.lane .c2wWrite + 1 ∧
      s'.slot.lane .c2wRead = s.slot.lane .c2wRead ∧
      s'.slot.lane .state = 7 ∧ s'.slot.lane .reservation = 0 ∧
      s'.producer = .idle ∧ s'.consumer = .idle := by
  have hex : ∃ s', execute oneByte.step Always s writeOne = some s' ∧
      s'.slot.lane .c2wWrite = s.slot.lane .c2wWrite + 1 ∧
      s'.slot.lane .c2wRead = s.slot.lane .c2wRead ∧
      s'.slot.lane .state = 7 ∧ s'.slot.lane .reservation = 0 ∧
      s'.producer = .idle ∧ s'.consumer = .idle := by
    simp only [execute, writeOne, List.replicate, Always, oneByte, clientToWorker, step, produce,
      writeCall, WriteCall.loop, WriteCall.next, WriteCall.free, WriteCall.size, WriteCall.leave,
      span, Span.Inside, Instr.exec, Dir.writeLane, Dir.readLane, h.write, h.read, h.state,
      h.reservation, h.producer, h.consumer, ↓reduceIte, reduceCtorEq, ne_eq, not_false_eq_true,
      true_and, and_self, List.getD_eq_getElem?_getD, List.length_cons, List.length_nil,
      List.getElem_cons_zero, List.take_succ_cons, List.take_nil, getElem?_pos, Nat.zero_add,
      Nat.add_zero, Nat.lt_add_one, Nat.lt_irrefl, Int.cast_ofNat_Int, Int.tmod_one, Int.sub_zero,
      Int.sub_self, Int.zero_add, Int.min_assoc, Int.min_self, Int.zero_le_ofNat, Int.reduceEq,
      Int.reduceLT, Int.toNat_one, Std.le_refl, Int32.ofInt_add, Int32.ofInt_toInt,
      Int32.reduceOfInt, Option.map_none, Option.bind_fun_some, Option.bind_some,
      Option.getD_some, Option.some.injEq, exists_eq_left', Slot.setLane_lane_self,
      Slot.setLane_lane_ne, Slot.setByte_lane]
  obtain ⟨s', hs', hpost⟩ := hex
  exact ⟨s', .of_execute hs', hpost⟩

theorem readOne_run (h : At (k + 1) k s) (hk : k + 1 < 2 ^ 31) :
    ∃ s', Run oneByte.step Always s readOne s' ∧ At (k + 1) (k + 1) s' := by
  have hone : (k : Int) + 1 - k = 1 := by omega
  have hex : ∃ s', execute oneByte.step Always s readOne = some s' ∧ At (k + 1) (k + 1) s' := by
    simp only [execute, readOne, List.replicate, Always, oneByte, clientToWorker, step, consume,
      readCall, readNext, readStart, ReadCall.loop, enterAcquire, acquireWorkerOperation,
      releaseWorkerOperation, ReadCall.next, ReadCall.avail, ReadCall.size, ReadCall.startCopy,
      ReadCall.copyByte, ReadCall.leave, span, Span.Inside, Instr.exec, Dir.writeLane,
      Dir.readLane, h.write, h.read, h.state, h.reservation, h.consumer, hone, ↓reduceIte,
      reduceCtorEq, ne_eq, ite_not, not_false_eq_true, Bool.false_eq_true, true_and, and_self,
      List.length_nil, List.nil_append, Nat.zero_add, Nat.lt_irrefl, Int.cast_ofNat_Int,
      Int.natCast_add, Int.tmod_one, Int.sub_zero, Int.sub_self, Int.zero_add, Int.min_assoc,
      Int.min_self, Int.zero_le_ofNat, Int.reduceEq, Int.reduceLT, Int.toNat_one, Std.le_refl,
      claim_ne_zero, Int32.ofInt_add, Int32.ofInt_toInt, Int32.reduceOfInt, Option.map_some,
      Option.bind_fun_some, Option.bind_some, Option.some.injEq, exists_eq_left',
      Slot.setLane_lane_self, Slot.setLane_lane_ne, Slot.setLane_ring]
    exact ⟨h.write, toInt_succ h.read hk, h.state, rfl, h.producer, rfl⟩
  obtain ⟨s', hs', hpost⟩ := hex
  exact ⟨s', .of_execute hs', hpost⟩

/-- One byte from the client to the worker. -/
theorem round_run (h : At k k s) (hk : k + 1 < 2 ^ 31) :
    ∃ es s', Run oneByte.step Always s es s' ∧ At (k + 1) (k + 1) s' := by
  obtain ⟨s₁, hrun₁, hw, hr, hst, hres, hp, hc⟩ := writeOne_run h
  have h₁ : At (k + 1) k s₁ :=
    ⟨by rw [hw]; exact toInt_succ h.write hk, by rw [hr]; exact h.read, hst, hres, hp, hc⟩
  obtain ⟨s₂, hrun₂, h₂⟩ := readOne_run h₁ hk
  exact ⟨_, s₂, hrun₁.trans hrun₂, h₂⟩

/-- Any number of bytes whose positions fit, one at a time. -/
theorem rounds_run (h : At 0 0 s) (k : Nat) (hk : k < 2 ^ 31) :
    ∃ es s', Run oneByte.step Always s es s' ∧ At k k s' := by
  induction k with
  | zero => exact ⟨[], s, .nil, h⟩
  | succ k ih =>
    obtain ⟨es, s₁, hrun₁, h₁⟩ := ih (by omega)
    obtain ⟨fs, s₂, hrun₂, h₂⟩ := round_run h₁ hk
    exact ⟨_, s₂, hrun₁.trans hrun₂, h₂⟩

/-- The reader's two loads, whatever they find. -/
theorem readLoads_run (hst : s.slot.lane .state = 7) (hres : s.slot.lane .reservation = 0)
    (hc : s.consumer = .idle) :
    ∃ s', Run oneByte.step Always s readLoads s' ∧
      s'.consumer = .reading 1 (.plan (s.slot.lane .c2wWrite) (s.slot.lane .c2wRead) false) := by
  have hex : ∃ s', execute oneByte.step Always s readLoads = some s' ∧
      s'.consumer = .reading 1 (.plan (s.slot.lane .c2wWrite) (s.slot.lane .c2wRead) false) := by
    simp only [execute, readLoads, List.replicate, Always, oneByte, clientToWorker, step, consume,
      readCall, readNext, readStart, ReadCall.loop, enterAcquire, acquireWorkerOperation,
      ReadCall.next, Instr.exec, Dir.writeLane, Dir.readLane, hst, hres, hc, ↓reduceIte,
      reduceCtorEq, ne_eq, ite_not, not_false_eq_true, Bool.false_eq_true, claim_ne_zero,
      Int32.ofInt_add, Int32.ofInt_toInt, Option.map_some, Option.bind_fun_some,
      Option.bind_some, Option.some.injEq, exists_eq_left', Slot.setLane_lane_ne]
  obtain ⟨s', hs', hpost⟩ := hex
  exact ⟨s', .of_execute hs', hpost⟩

/-- **The ring arithmetic is not safe for every stream**: after 2^31 bytes, sent
and read one at a time, the reader computes a negative number of available
bytes. -/
theorem arith_unsafe : ¬ ∀ (p : Pipe), 0 < p.ringCap → ∀ s₀ es s, p.Init s₀ →
    Run p.step Always s₀ es s → ArithSafe p s := by
  intro hall
  obtain ⟨es, s₁, hrun₁, h₁⟩ :=
    rounds_run (show At 0 0 (fresh 7) from ⟨rfl, rfl, rfl, rfl, rfl, rfl⟩) (2 ^ 31 - 1) (by omega)
  obtain ⟨s₂, hrun₂, hw, hr, hst, hres, -, hc⟩ := writeOne_run h₁
  obtain ⟨s₃, hrun₃, hpc⟩ := readLoads_run hst hres hc
  have hsafe := hall oneByte (by decide) (fresh 7) _ s₃ (init_fresh ..)
    ((hrun₁.trans hrun₂).trans hrun₃)
  have havail := (hsafe.avail _ _ _ _ hpc).1
  -- the last position stored is 2^31 - 1 + 1, as an Int32
  have hlast : s₁.slot.lane .c2wWrite = 2147483647 := Int32.toInt_inj.mp h₁.write
  have hwrap : (s₂.slot.lane .c2wWrite).toInt = -2147483648 := by
    rw [hw, hlast]
    rfl
  have hread : (s₂.slot.lane .c2wRead).toInt = 2147483647 := by
    rw [hr]
    exact h₁.read
  unfold ReadCall.avail at havail
  rw [hwrap, hread] at havail
  omega

end Haybarn.Sab.Pipe
