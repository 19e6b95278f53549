import Mathlib

/-!
# A byte memory with 32-bit lanes

A memory is a number of bytes; lane `i` is the little-endian 32-bit integer in
bytes `4 * i` to `4 * i + 3`. Beside the three ways to change a memory (a byte, a
lane, a block copied from elsewhere in it) stand the facts a proof uses: a change
elsewhere is not seen in a lane (`lane_setLane_ne`).

`copy` takes the whole source before it stores, so source and target may overlap.

`write` puts a list of bytes somewhere, `Holds` says that they are there; writes that follow
each other are one write (`write_write`).
-/

namespace Haybarn.Lib

/-- `size` bytes. What `byte` says past them does not matter. -/
@[ext] structure Memory where
  size : Nat
  byte : Nat → UInt8

namespace Memory

variable (m : Memory) {i j dst src count : Nat} {v : Int32}

/-- The four bytes of a lane as a number. -/
def word (i : Nat) : Nat :=
  (m.byte (4 * i)).toNat + 256 * (m.byte (4 * i + 1)).toNat +
    65536 * (m.byte (4 * i + 2)).toNat + 16777216 * (m.byte (4 * i + 3)).toNat

/-- The lane read as a signed integer. -/
def lane (i : Nat) : Int32 := (UInt32.ofNat (m.word i)).toInt32

/-- Store a lane. -/
def setLane (i : Nat) (v : Int32) : Memory :=
  { m with byte := fun j =>
      if j / 4 = i then UInt8.ofNat (v.toUInt32.toNat / 256 ^ (j % 4)) else m.byte j }

/-- Copy `count` bytes from `src` to `dst`. -/
def copy (dst src count : Nat) : Memory :=
  { m with byte := fun j =>
      if dst ≤ j ∧ j < dst + count then m.byte (src + (j - dst)) else m.byte j }

variable {m}

/-- A lane is its four bytes. -/
theorem lane_congr {m' : Memory} (h : ∀ k, k < 4 → m'.byte (4 * i + k) = m.byte (4 * i + k)) :
    m'.lane i = m.lane i := by
  unfold lane word
  rw [h 1 (by decide), h 2 (by decide), h 3 (by decide), show 4 * i = 4 * i + 0 from rfl,
    h 0 (by decide)]

theorem byte_setLane (hj : j / 4 ≠ i) : (m.setLane i v).byte j = m.byte j := if_neg hj

theorem lane_setLane_ne (h : j ≠ i) : (m.setLane i v).lane j = m.lane j := by
  refine lane_congr fun k hk => byte_setLane ?_
  omega

theorem copy_zero : m.copy dst src 0 = m := by
  refine Memory.ext rfl (funext fun j => if_neg ?_)
  omega

theorem word_lt (i : Nat) : m.word i < 4294967296 := by
  have h0 := (m.byte (4 * i)).toNat_lt
  have h1 := (m.byte (4 * i + 1)).toNat_lt
  have h2 := (m.byte (4 * i + 2)).toNat_lt
  have h3 := (m.byte (4 * i + 3)).toNat_lt
  unfold word
  omega

/-- Storing what a lane holds changes nothing. -/
theorem setLane_lane (i : Nat) : m.setLane i (m.lane i) = m := by
  refine Memory.ext rfl (funext fun j => ?_)
  show (if j / 4 = i then _ else _) = _
  by_cases hj : j / 4 = i
  · have hword : (m.lane i).toUInt32.toNat = m.word i := by
      unfold lane
      rw [UInt32.toUInt32_toInt32, UInt32.toNat_ofNat', Nat.mod_eq_of_lt (word_lt i)]
    rw [if_pos hj, hword]
    have h0 := (m.byte (4 * i)).toNat_lt
    have h1 := (m.byte (4 * i + 1)).toNat_lt
    have h2 := (m.byte (4 * i + 2)).toNat_lt
    have h3 := (m.byte (4 * i + 3)).toNat_lt
    have hcases : j = 4 * i ∨ j = 4 * i + 1 ∨ j = 4 * i + 2 ∨ j = 4 * i + 3 := by omega
    refine UInt8.toNat_inj.mp ?_
    rw [UInt8.toNat_ofNat']
    unfold word
    rcases hcases with rfl | rfl | rfl | rfl
    · rw [show 4 * i % 4 = 0 by omega]
      omega
    · rw [show (4 * i + 1) % 4 = 1 by omega]
      omega
    · rw [show (4 * i + 2) % 4 = 2 by omega]
      omega
    · rw [show (4 * i + 3) % 4 = 3 by omega]
      omega
  · rw [if_neg hj]

/-! ## Blocks of bytes -/

/-- The `n` bytes at `a`. -/
def read (m : Memory) (a n : Nat) : List UInt8 := (List.range n).map fun i => m.byte (a + i)

/-- Write bytes at `a`. -/
def write (m : Memory) (a : Nat) (bs : List UInt8) : Memory :=
  { m with byte := fun j => if a ≤ j then bs[j - a]?.getD (m.byte j) else m.byte j }

/-- The bytes at `a` are these. -/
def Holds (m : Memory) (a : Nat) (bs : List UInt8) : Prop :=
  ∀ i, (h : i < bs.length) → m.byte (a + i) = bs[i]

variable {a : Nat} {bs xs ys : List UInt8}

@[simp] theorem write_size : (m.write a bs).size = m.size := rfl

@[simp] theorem write_nil : m.write a [] = m := by
  refine Memory.ext rfl (funext fun j => ?_)
  show (if a ≤ j then _ else _) = _
  split <;> rfl

/-- Two writes that follow each other. -/
theorem write_write (m : Memory) (a : Nat) (xs ys : List UInt8) :
    (m.write a xs).write (a + xs.length) ys = m.write a (xs ++ ys) := by
  refine Memory.ext rfl (funext fun j => ?_)
  show (if a + xs.length ≤ j then ys[j - (a + xs.length)]?.getD
      (if a ≤ j then xs[j - a]?.getD (m.byte j) else m.byte j)
    else if a ≤ j then xs[j - a]?.getD (m.byte j) else m.byte j) =
      if a ≤ j then (xs ++ ys)[j - a]?.getD (m.byte j) else m.byte j
  by_cases hlow : a + xs.length ≤ j
  · have hpast : xs[j - a]? = none := List.getElem?_eq_none (by omega)
    have hright : (xs ++ ys)[j - a]? = ys[j - (a + xs.length)]? := by
      rw [List.getElem?_append_right (by omega),
        show j - a - xs.length = j - (a + xs.length) by omega]
    have ha : a ≤ j := by omega
    rw [if_pos hlow, if_pos ha, if_pos ha, hpast, hright]
    rfl
  · rw [if_neg hlow]
    by_cases ha : a ≤ j
    · rw [if_pos ha, if_pos ha, List.getElem?_append_left (by omega)]
    · rw [if_neg ha, if_neg ha]

theorem holds_write : (m.write a bs).Holds a bs := by
  intro i h
  show (if a ≤ a + i then _ else _) = _
  rw [if_pos (Nat.le_add_right a i), Nat.add_sub_cancel_left, List.getElem?_eq_getElem h]
  rfl

theorem holds_append : m.Holds a (xs ++ ys) ↔ m.Holds a xs ∧ m.Holds (a + xs.length) ys := by
  constructor
  · intro h
    constructor
    · intro i hi
      have hlt : i < (xs ++ ys).length := by
        rw [List.length_append]
        omega
      rw [h i hlt, List.getElem_append_left hi]
    · intro i hi
      have hlt : xs.length + i < (xs ++ ys).length := by
        rw [List.length_append]
        omega
      have hget := h (xs.length + i) hlt
      rw [List.getElem_append_right (Nat.le_add_right _ _)] at hget
      simp only [Nat.add_sub_cancel_left] at hget
      rw [Nat.add_assoc, hget]
  · rintro ⟨hx, hy⟩ i hi
    by_cases hlt : i < xs.length
    · rw [hx i hlt, List.getElem_append_left hlt]
    · have hi' : i - xs.length < ys.length := by
        rw [List.length_append] at hi
        omega
      have hget := hy (i - xs.length) hi'
      rw [show a + xs.length + (i - xs.length) = a + i by omega] at hget
      rw [hget, List.getElem_append_right (by omega)]

theorem Holds.read (h : m.Holds a bs) : m.read a bs.length = bs := by
  unfold Memory.read
  refine List.ext_getElem (by rw [List.length_map, List.length_range]) ?_
  intro i _ hi
  rw [List.getElem_map, List.getElem_range]
  exact h i hi

end Memory

end Haybarn.Lib
