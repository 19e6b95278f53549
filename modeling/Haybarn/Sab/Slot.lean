import Mathlib

/-!
# One slot of a VGI channel, and the atomic steps on it

`lib/vgi-sab-ring.js` keeps a slot of the channel as a control block of Int32
lanes followed by two byte rings: `c2w` (client to worker) and `w2c` (worker to
client). Every function of that file touches a slot only through `Atomics` on a
lane and through byte copies into or out of a ring, so a party inside a call is
a program counter with its local variables, and what it does next is one
`Instr`: a lane load, a lane store, a compare-exchange, one byte of a copy, or
nothing at all (`Atomics.wait`, which may return at any time because of its
timeout, and the plain arithmetic between two accesses).

The cell type `β` is a byte for the functions themselves; a proof that has to
say where a byte came from instantiates it with bytes that carry their author.

Ring indices are relative to the ring's first byte (`dataByteOff`). A copy whose
indices would leave the ring is not an `Instr`: the programs go to an
`outOfRing` program counter instead, because what such a copy does depends on
what lies next to the ring.
-/

namespace Haybarn.Sab

/-- The lanes of a slot's control block, in the order of the ABI
(`SLOT_STATE = 0`, …, `SLOT_RESERVATION = 10`). -/
inductive Lane
  | state
  | c2wWrite
  | c2wRead
  | c2wClosed
  | w2cWrite
  | w2cRead
  | w2cClosed
  | terminalClaim
  | terminalCode
  | terminalDetail
  | reservation
  deriving DecidableEq, Repr

/-- The lane's index in the control block. -/
def Lane.index : Lane → Nat
  | .state => 0
  | .c2wWrite => 1
  | .c2wRead => 2
  | .c2wClosed => 3
  | .w2cWrite => 4
  | .w2cRead => 5
  | .w2cClosed => 6
  | .terminalClaim => 7
  | .terminalCode => 8
  | .terminalDetail => 9
  | .reservation => 10

/-- The two directions of a slot. -/
inductive Dir
  | c2w
  | w2c
  deriving DecidableEq, Repr

namespace Dir

def writeLane : Dir → Lane
  | .c2w => .c2wWrite
  | .w2c => .w2cWrite

def readLane : Dir → Lane
  | .c2w => .c2wRead
  | .w2c => .w2cRead

def closedLane : Dir → Lane
  | .c2w => .c2wClosed
  | .w2c => .w2cClosed

theorem writeLane_inj {d d' : Dir} (h : d.writeLane = d'.writeLane) : d = d' := by
  cases d <;> cases d' <;> first | rfl | cases h

theorem readLane_inj {d d' : Dir} (h : d.readLane = d'.readLane) : d = d' := by
  cases d <;> cases d' <;> first | rfl | cases h

variable (d : Dir)

@[simp] theorem writeLane_ne_readLane (d' : Dir) : d.writeLane ≠ d'.readLane := by
  cases d <;> cases d' <;> decide

@[simp] theorem readLane_ne_writeLane (d' : Dir) : d.readLane ≠ d'.writeLane :=
  fun h => writeLane_ne_readLane d' d h.symm

@[simp] theorem writeLane_ne_closedLane (d' : Dir) : d.writeLane ≠ d'.closedLane := by
  cases d <;> cases d' <;> decide

@[simp] theorem closedLane_ne_writeLane (d' : Dir) : d.closedLane ≠ d'.writeLane :=
  fun h => writeLane_ne_closedLane d' d h.symm

@[simp] theorem readLane_ne_closedLane (d' : Dir) : d.readLane ≠ d'.closedLane := by
  cases d <;> cases d' <;> decide

@[simp] theorem closedLane_ne_readLane (d' : Dir) : d.closedLane ≠ d'.readLane :=
  fun h => readLane_ne_closedLane d' d h.symm

@[simp] theorem writeLane_ne_state : d.writeLane ≠ .state := by cases d <;> decide

@[simp] theorem readLane_ne_state : d.readLane ≠ .state := by cases d <;> decide

@[simp] theorem closedLane_ne_state : d.closedLane ≠ .state := by cases d <;> decide

@[simp] theorem writeLane_ne_reservation : d.writeLane ≠ .reservation := by
  cases d <;> decide

@[simp] theorem readLane_ne_reservation : d.readLane ≠ .reservation := by
  cases d <;> decide

@[simp] theorem closedLane_ne_reservation : d.closedLane ≠ .reservation := by
  cases d <;> decide

end Dir

/-- The shared words and bytes of one slot. -/
structure Slot (β : Type) where
  lane : Lane → Int32
  ring : Dir → Nat → β

namespace Slot

variable {β : Type}

/-- `Atomics.store` on a lane. -/
def setLane (s : Slot β) (l : Lane) (v : Int32) : Slot β :=
  { s with lane := Function.update s.lane l v }

/-- One byte stored into a ring. -/
def setByte (s : Slot β) (d : Dir) (i : Nat) (b : β) : Slot β :=
  { s with ring := Function.update s.ring d (Function.update (s.ring d) i b) }

variable (s : Slot β) (l l' : Lane) (v : Int32) (d d' : Dir) (i : Nat) (b : β)

@[simp] theorem setLane_lane_self : (s.setLane l v).lane l = v := Function.update_self ..

@[simp] theorem setLane_lane_ne {l l' : Lane} (h : l' ≠ l) :
    (s.setLane l v).lane l' = s.lane l' := Function.update_of_ne h ..

@[simp] theorem setLane_ring : (s.setLane l v).ring = s.ring := rfl

@[simp] theorem setByte_lane : (s.setByte d i b).lane = s.lane := rfl

@[simp] theorem setByte_ring_self :
    (s.setByte d i b).ring d = Function.update (s.ring d) i b := Function.update_self ..

@[simp] theorem setByte_ring_ne {d d' : Dir} (h : d' ≠ d) :
    (s.setByte d i b).ring d' = s.ring d' := Function.update_of_ne h ..

end Slot

/-- The next atomic step of a party, with its continuation. -/
inductive Instr (β σ : Type)
  | load (l : Lane) (k : Int32 → σ)
  | store (l : Lane) (v : Int32) (k : σ)
  | compareExchange (l : Lane) (expected replacement : Int32) (k : Int32 → σ)
  | loadByte (d : Dir) (i : Nat) (k : β → σ)
  | storeByte (d : Dir) (i : Nat) (b : β) (k : σ)
  | pause (k : σ)

namespace Instr

variable {β σ τ : Type}

/-- Execute one atomic step: the slot afterwards and the continuation. -/
def exec : Instr β σ → Slot β → Slot β × σ
  | .load l k, s => (s, k (s.lane l))
  | .store l v k, s => (s.setLane l v, k)
  | .compareExchange l expected replacement k, s =>
    (if s.lane l = expected then s.setLane l replacement else s, k (s.lane l))
  | .loadByte d i k, s => (s, k (s.ring d i))
  | .storeByte d i b k, s => (s.setByte d i b, k)
  | .pause k, s => (s, k)

/-- Run a sub-program's step inside its caller. -/
def map (f : σ → τ) : Instr β σ → Instr β τ
  | .load l k => .load l fun v => f (k v)
  | .store l v k => .store l v (f k)
  | .compareExchange l expected replacement k =>
    .compareExchange l expected replacement fun v => f (k v)
  | .loadByte d i k => .loadByte d i fun b => f (k b)
  | .storeByte d i b k => .storeByte d i b (f k)
  | .pause k => .pause (f k)

/-- The lane a step may store to. -/
def lane? : Instr β σ → Option Lane
  | .store l _ _ => some l
  | .compareExchange l _ _ _ => some l
  | _ => none

/-- The ring a step may store to. -/
def ring? : Instr β σ → Option Dir
  | .storeByte d _ _ _ => some d
  | _ => none

@[simp] theorem exec_map (f : σ → τ) (ins : Instr β σ) (s : Slot β) :
    (ins.map f).exec s = ((ins.exec s).1, f (ins.exec s).2) := by
  cases ins <;> rfl

/-- A step leaves every other lane alone. -/
theorem exec_lane {ins : Instr β σ} {l : Lane} (h : ins.lane? ≠ some l) (s : Slot β) :
    (ins.exec s).1.lane l = s.lane l := by
  cases ins with
  | load => rfl
  | store l' v k => exact s.setLane_lane_ne v fun he => h (he ▸ rfl)
  | compareExchange l' e r k =>
    have hne : l ≠ l' := fun he => h (he ▸ rfl)
    show (if s.lane l' = e then s.setLane l' r else s).lane l = s.lane l
    split
    · exact s.setLane_lane_ne r hne
    · rfl
  | loadByte => rfl
  | storeByte => rfl
  | pause => rfl

/-- A step leaves every other ring alone. -/
theorem exec_ring {ins : Instr β σ} {d : Dir} (h : ins.ring? ≠ some d) (s : Slot β) :
    (ins.exec s).1.ring d = s.ring d := by
  cases ins with
  | load => rfl
  | store => rfl
  | compareExchange l e r k =>
    show (if s.lane l = e then s.setLane l r else s).ring d = s.ring d
    split <;> rfl
  | loadByte => rfl
  | storeByte d' i b k => exact s.setByte_ring_ne i b fun he => h (he ▸ rfl)
  | pause => rfl

end Instr

end Haybarn.Sab
