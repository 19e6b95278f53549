import Haybarn.Lib.Memory
import Haybarn.Lib.Prog

/-!
# JavaScript numbers and typed arrays

What `lib/vgi-sab-ring.js` and `lib/js-stubs.js` use of JavaScript when they work on
`Module.HEAPU8.buffer`: numbers, an `Int32Array` and a `Uint8Array` over the whole
memory, `Atomics`, and the two ways to copy bytes.

Mirroring notes:
- A number is an integer or `NaN`, which is also what `undefined` becomes in
  arithmetic (a typed array read at an invalid index gives `undefined`). Integers
  are exact; the files compute nothing that is not one.
- An integer index of `Atomics` must be valid, otherwise it throws a `RangeError`;
  a plain read `i[x]` never throws.
- `copyWithin` counts a negative index from the end and clamps whatever is left
  outside; `set` throws a `RangeError` when the copy would not fit.
- There are no concurrent steps here, so a wait for a lane to change lasts for
  ever. One that is bounded (the stubs) returns and the program goes on; one that
  is inside a loop which only such a change can end is `stop .blocked`.

Every access is logged: the lane, or the bytes of a copy that copies something.
-/

namespace Haybarn.Flat

open Haybarn.Lib

/-! ## Numbers -/

/-- A JavaScript number: an integer, or `NaN`. -/
inductive Num
  | nan
  | int (x : Int)
  deriving DecidableEq, Repr

namespace Num

instance : Coe Int Num := ⟨.int⟩

/-- An operation that is `NaN` as soon as one side is. -/
def lift (f : Int → Int → Int) : Num → Num → Num
  | .int x, .int y => .int (f x y)
  | _, _ => .nan

instance : Add Num := ⟨lift (· + ·)⟩
instance : Sub Num := ⟨lift (· - ·)⟩
instance : Mul Num := ⟨lift (· * ·)⟩

/-- `%`: the remainder with the sign of its left side, `NaN` for a zero divisor. -/
def rem : Num → Num → Num
  | .int x, .int y => if y = 0 then .nan else .int (x.tmod y)
  | _, _ => .nan

instance : Mod Num := ⟨rem⟩

/-- `Math.min`. -/
def min : Num → Num → Num := lift Min.min

/-- `x < y`; false when a side is `NaN`. -/
def lt : Num → Num → Bool
  | .int x, .int y => x < y
  | _, _ => false

/-- `ToIntegerOrInfinity`: how an index, a count or a stored value is read. -/
def toInteger : Num → Int
  | .int x => x
  | .nan => 0

/-- `x | 0`: the number as a signed 32-bit integer. -/
def toInt32 (x : Num) : Int32 := Int32.ofInt x.toInteger

/-- `x >> 2`. -/
def shr2 (x : Num) : Int := x.toInt32.toInt / 4

/-- `x >>> 2`. -/
def ushr2 (x : Num) : Int := (x.toInteger % 4294967296) / 4

variable (x y : Int)

@[simp] theorem int_add : int x + int y = int (x + y) := rfl

@[simp] theorem int_sub : int x - int y = int (x - y) := rfl

@[simp] theorem int_mul : int x * int y = int (x * y) := rfl

@[simp] theorem int_min : min (int x) (int y) = int (Min.min x y) := rfl

@[simp] theorem int_lt : lt (int x) (int y) = decide (x < y) := rfl

@[simp] theorem toInteger_int : (int x).toInteger = x := rfl

variable {x y}

theorem add_nan (z : Num) : z + nan = nan := by cases z <;> rfl

theorem add_zero (z : Num) : z + int 0 = z := by
  cases z with
  | nan => rfl
  | int z => exact congrArg int (Int.add_zero z)

theorem int_mod (h : y ≠ 0) : int x % int y = int (x.tmod y) := if_neg h

/-- Below 2^31 the two shifts agree. -/
theorem shr2_eq_ushr2 (h0 : 0 ≤ x) (h : x < 2147483648) : (int x).shr2 = (int x).ushr2 := by
  have hbmod : x.bmod 4294967296 = x := by
    rw [Int.bmod_def]
    split <;> omega
  have hint : (int x).toInt32.toInt = x := (BitVec.toInt_ofInt ..).trans hbmod
  have hmod : x % 4294967296 = x := by omega
  show (int x).toInt32.toInt / 4 = x % 4294967296 / 4
  rw [hint, hmod]

/-- From 2^31 on the signed shift is negative. -/
theorem shr2_neg (h : 2147483648 ≤ x) (h' : x < 4294967296) : (int x).shr2 < 0 := by
  have hbmod : x.bmod 4294967296 = x - 4294967296 := by
    rw [Int.bmod_def]
    split <;> omega
  have hint : (int x).toInt32.toInt = x - 4294967296 := (BitVec.toInt_ofInt ..).trans hbmod
  show (int x).toInt32.toInt / 4 < 0
  rw [hint]
  omega

theorem ushr2_of_lt (h0 : 0 ≤ x) (h : x < 4294967296) : (int x).ushr2 = x / 4 := by
  show x % 4294967296 / 4 = x / 4
  rw [Int.emod_eq_of_lt h0 h]

end Num

/-! ## The typed arrays -/

/-- One access to the memory: a lane by its index, or the bytes of a copy. -/
inductive Access
  | lane (i : Int)
  | copy (target source count : Nat)
  deriving DecidableEq, Repr

/-- Why a call does not return: it throws, it waits for another party, or the
rounds given to its loop are used up. -/
inductive Stop
  | rangeError
  | blocked
  | outOfFuel
  deriving DecidableEq, Repr

/-- A program on the memory. -/
abbrev Op := Prog Memory Access Stop

/-- An index of the `Int32Array`. -/
def ValidLane (m : Memory) (i : Int) : Prop := 0 ≤ i ∧ i < m.size / 4

instance (m : Memory) (i : Int) : Decidable (ValidLane m i) :=
  inferInstanceAs (Decidable (_ ∧ _))

/-- Log lane `i`, and throw a `RangeError` unless it is an index of the array. -/
def atLane {α : Type} (i : Int) (f : Memory → α × Memory) : Op α := fun m =>
  if ValidLane m i then (.ok (f m).1, (f m).2, [.lane i]) else (.error .rangeError, m, [.lane i])

/-- `i32[i]`. -/
def peek (i : Int) : Op Num := fun m =>
  (.ok (if ValidLane m i then .int (m.lane i.toNat).toInt else .nan), m, [.lane i])

/-- `Atomics.load(i32, i)`. -/
def load (i : Int) : Op Int := atLane i fun m => ((m.lane i.toNat).toInt, m)

/-- `Atomics.store(i32, i, v)`. -/
def store (i : Int) (v : Num) : Op Unit := atLane i fun m => ((), m.setLane i.toNat v.toInt32)

/-- `Atomics.add(i32, i, v)`. -/
def add (i v : Int) : Op Int := atLane i fun m =>
  ((m.lane i.toNat).toInt, m.setLane i.toNat (m.lane i.toNat + Int32.ofInt v))

/-- `Atomics.compareExchange(i32, i, expected, replacement)`. -/
def compareExchange (i : Int) (expected replacement : Int32) : Op Int := atLane i fun m =>
  ((m.lane i.toNat).toInt,
    if m.lane i.toNat = expected then m.setLane i.toNat replacement else m)

/-- `Atomics.wait(i32, i, …)`: it reads the lane, and that is all that shows. -/
def wait (i : Int) : Op Unit := atLane i fun m => ((), m)

/-- `Atomics.notify(i32, i)`: the index is checked, no memory is accessed. -/
def notify (i : Int) : Op Unit := fun m =>
  (if ValidLane m i then .ok () else .error .rangeError, m, [])

/-- An index argument of `copyWithin` or `subarray` in an array of `size` bytes. -/
def relative (size : Nat) (x : Num) : Nat :=
  if x.toInteger < 0 then (size + x.toInteger).toNat else Min.min x.toInteger.toNat size

/-- Copy bytes, with the copy in the log when there is one. -/
def copyBytes (target source count : Nat) : Op Unit := fun m =>
  (.ok (), m.copy target source count, if count = 0 then [] else [.copy target source count])

/-- `u8.copyWithin(target, start, end)`. -/
def copyWithin (target start stop : Num) : Op Unit := fun m =>
  copyBytes (relative m.size target) (relative m.size start)
    (Min.min (relative m.size stop - relative m.size start)
      (m.size - relative m.size target)) m

/-- `u8.set(u8.subarray(begin, end), offset)`. -/
def setSubarray (start stop offset : Num) : Op Unit := fun m =>
  if offset.toInteger < 0 ∨
      m.size < offset.toInteger + (relative m.size stop - relative m.size start : Nat) then
    (.error .rangeError, m, [])
  else
    copyBytes offset.toInteger.toNat (relative m.size start)
      (relative m.size stop - relative m.size start) m

/-! ## What the operations do -/

variable {m : Memory} {α : Type} {i : Int} {v : Num} {x y c : Int}

/-- The value a load of lane `i` gives. -/
def laneAt (m : Memory) (i : Int) : Int := (m.lane i.toNat).toInt

theorem atLane_valid {f : Memory → α × Memory} (h : ValidLane m i) :
    atLane i f m = (.ok (f m).1, (f m).2, [.lane i]) := if_pos h

theorem atLane_invalid {f : Memory → α × Memory} (h : ¬ ValidLane m i) :
    atLane i f m = (.error .rangeError, m, [.lane i]) := if_neg h

@[simp] theorem atLane_log {f : Memory → α × Memory} : (atLane i f).log m = [.lane i] := by
  unfold Prog.log
  by_cases h : ValidLane m i
  · rw [atLane_valid h]
  · rw [atLane_invalid h]

theorem load_valid (h : ValidLane m i) : load i m = (.ok (laneAt m i), m, [.lane i]) :=
  atLane_valid h

theorem peek_valid (h : ValidLane m i) : peek i m = (.ok (.int (laneAt m i)), m, [.lane i]) := by
  show (Except.ok (if ValidLane m i then _ else _), m, _) = _
  rw [if_pos h]
  rfl

theorem store_valid (h : ValidLane m i) :
    store i v m = (.ok (), m.setLane i.toNat v.toInt32, [.lane i]) := atLane_valid h

theorem wait_valid (h : ValidLane m i) : wait i m = (.ok (), m, [.lane i]) := atLane_valid h

theorem notify_valid (h : ValidLane m i) : notify i m = (.ok (), m, []) := by
  show (if ValidLane m i then _ else _, _) = _
  rw [if_pos h]

/-- **Where `set` does not throw, `copyWithin` copies the same bytes**: it has
nothing to clamp. -/
theorem setSubarray_refines (start stop offset : Num) :
    Prog.Refines (· = Stop.rangeError) (setSubarray start stop offset)
      (copyWithin offset start stop) := by
  refine .of_run fun m => ?_
  by_cases h : offset.toInteger < 0 ∨
      m.size < offset.toInteger + (relative m.size stop - relative m.size start : Nat)
  · left
    refine ⟨.rangeError, ?_, rfl⟩
    unfold Prog.run setSubarray
    rw [if_pos h]
  · right
    obtain ⟨h0, hfit⟩ := not_or.mp h
    have htarget : relative m.size offset = offset.toInteger.toNat := by
      unfold relative
      rw [if_neg h0]
      omega
    have hcount : Min.min (relative m.size stop - relative m.size start)
        (m.size - relative m.size offset) = relative m.size stop - relative m.size start := by
      omega
    unfold Prog.run setSubarray copyWithin
    rw [if_neg h, hcount, htarget]

end Haybarn.Flat
