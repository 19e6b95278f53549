import Mathlib

/-!
# Contents as functions

The contents of a file or a buffer as a function from positions: what is behind its end is in the
function as well, and nobody looks at it. Writing a list (`put`) and copying from one to another
(`copy`) are then defined position by position, and `segment` reads a list.
-/

namespace Haybarn.Lib

variable {α : Type}

/-- Write a list at `a`. -/
def put (c : Nat → α) (a : Nat) (bs : List α) : Nat → α := fun i =>
  if a ≤ i then (bs[i - a]?).getD (c i) else c i

/-- Copy the first `n` positions of `src` to `a`. -/
def copy (c : Nat → α) (a : Nat) (src : Nat → α) (n : Nat) : Nat → α := fun i =>
  if a ≤ i ∧ i < a + n then src (i - a) else c i

/-- The `n` positions from `a` on. -/
def segment (c : Nat → α) (a n : Nat) : List α := (List.range n).map fun i => c (a + i)

variable {c d src : Nat → α} {a i m n : Nat} {bs xs ys : List α}

theorem put_of_lt (h : i < a) : put c a bs i = c i := if_neg (by omega)

theorem put_of_ge (h : a + bs.length ≤ i) : put c a bs i = c i := by
  unfold put
  split
  · rw [List.getElem?_eq_none (by omega), Option.getD_none]
  · rfl

theorem copy_of_mem (h : a ≤ i) (h' : i < a + n) : copy c a src n i = src (i - a) :=
  if_pos ⟨h, h'⟩

theorem copy_of_notMem (h : ¬ (a ≤ i ∧ i < a + n)) : copy c a src n i = c i := if_neg h

@[simp] theorem put_nil : put c a [] = c := by
  funext i
  exact ite_self _

/-- Two writes that follow each other. -/
theorem put_append : put (put c a xs) (a + xs.length) ys = put c a (xs ++ ys) := by
  funext i
  unfold put
  by_cases hfar : a + xs.length ≤ i
  · have hbehind : xs.length ≤ i - a := by omega
    have hsub : i - a - xs.length = i - (a + xs.length) := by omega
    rw [if_pos hfar, if_pos (by omega), if_pos (by omega), List.getElem?_append_right hbehind,
      hsub, List.getElem?_eq_none hbehind, Option.getD_none]
  · rw [if_neg hfar]
    split
    · rw [List.getElem?_append_left (by omega)]
    · rfl

theorem put_congr (h : c i = d i) : put c a bs i = put d a bs i := by
  unfold put
  rw [h]

/-- Where the list is written it does not matter what was there. -/
theorem put_of_mem (h : a ≤ i) (h' : i < a + bs.length) : put c a bs i = put d a bs i := by
  unfold put
  rw [if_pos h, if_pos h, List.getElem?_eq_getElem (by omega)]
  rfl

@[simp] theorem length_segment : (segment c a n).length = n := by
  rw [segment, List.length_map, List.length_range]

theorem segment_congr (h : ∀ i, a ≤ i → i < a + n → c i = d i) : segment c a n = segment d a n :=
  List.map_congr_left fun i hi =>
    h (a + i) (by omega) (Nat.add_lt_add_left (List.mem_range.mp hi) a)

theorem segment_append : segment c a m ++ segment c (a + m) n = segment c a (m + n) := by
  unfold segment
  rw [List.range_add, List.map_append, List.map_map]
  congr 1
  refine List.map_congr_left fun i _ => ?_
  show c (a + m + i) = c (a + (m + i))
  rw [Nat.add_assoc]

/-! ## Contents of a size -/

/-- A number of bytes. -/
structure Contents where
  size : Nat
  bytes : Nat → UInt8

namespace Contents

def empty : Contents := ⟨0, fun _ => 0⟩

/-- The bytes are the same. -/
def Same (a b : Contents) : Prop := a.size = b.size ∧ ∀ i, i < a.size → a.bytes i = b.bytes i

theorem Same.refl (a : Contents) : a.Same a := ⟨rfl, fun _ _ => rfl⟩

theorem Same.trans {a b c : Contents} (h : a.Same b) (h' : b.Same c) : a.Same c := by
  refine ⟨h.1.trans h'.1, fun i hi => ?_⟩
  rw [h.2 i hi, h'.2 i (h.1 ▸ hi)]

/-- The bytes, and zeros behind them. -/
def padded (c : Contents) : Nat → UInt8 := fun i => if i < c.size then c.bytes i else 0

/-- What a file of the system makes of a write; a gap is filled with zeros. -/
def write (c : Contents) (offset : Nat) (bs : List UInt8) : Contents where
  size := if bs.length = 0 then c.size else max c.size (offset + bs.length)
  bytes := put c.padded offset bs

def truncate (c : Contents) (newSize : Nat) : Contents := ⟨newSize, c.padded⟩

/-- At most `n` bytes from the position on. -/
def read (c : Contents) (n offset : Nat) : List UInt8 :=
  segment c.bytes offset (min n (c.size - offset))

end Contents

end Haybarn.Lib
