import Mathlib

/-!
# Slices of a list

A buffer that holds a part of a file holds a slice of it. `slice xs a n` is the part of
`xs` that starts at `a` and has at most `n` elements; what a copy out of a buffer yields
is a slice of a slice, and what a reader collects are slices one after the other.
-/

namespace Haybarn.Lib

variable {α : Type}

/-- The elements at `a`, `a + 1`, … of `xs`, at most `n` of them. -/
def slice (xs : List α) (a n : Nat) : List α := (xs.drop a).take n

variable (xs : List α) (a b m n : Nat)

@[simp] theorem length_slice : (slice xs a n).length = min n (xs.length - a) := by
  rw [slice, List.length_take, List.length_drop]

@[simp] theorem slice_zero : slice xs a 0 = [] := List.take_zero

theorem slice_past (h : xs.length ≤ a) : slice xs a n = [] := by
  rw [slice, List.drop_eq_nil_of_le h, List.take_nil]

theorem take_slice : (slice xs a n).take m = slice xs a (min m n) := by
  rw [slice, slice, List.take_take]

theorem drop_slice : (slice xs a n).drop b = slice xs (a + b) (n - b) := by
  rw [slice, slice, List.drop_take, List.drop_drop]

theorem getElem?_slice {i : Nat} (h : i < n) : (slice xs a n)[i]? = xs[a + i]? := by
  rw [slice, List.getElem?_take_of_lt h, List.getElem?_drop]

/-- A slice of a slice. -/
theorem slice_slice : slice (slice xs a n) b m = slice xs (a + b) (min m (n - b)) := by
  rw [slice, drop_slice, take_slice]

/-- Two slices that follow each other. -/
theorem slice_append : slice xs a n ++ slice xs (a + n) m = slice xs a (n + m) := by
  rw [slice, slice, slice, List.take_add, List.drop_drop]

/-! ## Writing into a list -/

/-- Write `bs` at `a`. What lies between the end of the list and `a` becomes `pad`. -/
def overwrite (pad : α) (xs : List α) (a : Nat) (bs : List α) : List α :=
  xs.take a ++ List.replicate (a - xs.length) pad ++ bs ++ xs.drop (a + bs.length)

variable {pad : α} {xs bs : List α} {a b n : Nat}

theorem overwrite_of_le (h : a ≤ xs.length) :
    overwrite pad xs a bs = xs.take a ++ bs ++ xs.drop (a + bs.length) := by
  rw [overwrite, Nat.sub_eq_zero_of_le h, List.replicate_zero, List.append_nil]

theorem getElem?_overwrite (h : a ≤ xs.length) (i : Nat) : (overwrite pad xs a bs)[i]? =
    if i < a then xs[i]? else if i < a + bs.length then bs[i - a]? else xs[i]? := by
  have htake : (xs.take a).length = a := by rw [List.length_take, Nat.min_eq_left h]
  rw [overwrite_of_le h, List.append_assoc]
  split
  next hi =>
    rw [List.getElem?_append_left (by omega), List.getElem?_take_of_lt hi]
  next hi =>
    rw [List.getElem?_append_right (by omega), htake]
    split
    next hb => rw [List.getElem?_append_left (by omega)]
    next hb =>
      rw [List.getElem?_append_right (by omega), List.getElem?_drop]
      congr 1
      omega

/-- Writing inside a list does not change its length. -/
theorem length_overwrite (h : a + bs.length ≤ xs.length) :
    (overwrite pad xs a bs).length = xs.length := by
  rw [overwrite_of_le (by omega)]
  simp only [List.length_append, List.length_take, List.length_drop]
  omega

/-- Writing behind the end of a list makes it longer. -/
theorem length_overwrite_max :
    (overwrite pad xs a bs).length = max xs.length (a + bs.length) := by
  unfold overwrite
  simp only [List.length_append, List.length_take, List.length_replicate, List.length_drop]
  omega

theorem getElem?_slice_ite (i : Nat) : (slice xs a n)[i]? = if i < n then xs[a + i]? else none := by
  split
  next hi => exact getElem?_slice xs a n hi
  next hi =>
    rw [List.getElem?_eq_none_iff, length_slice]
    omega

/-- What is written is not seen in a slice that lies apart. -/
theorem slice_overwrite_apart (ha : a ≤ xs.length) (h : b + n ≤ a ∨ a + bs.length ≤ b) :
    slice (overwrite pad xs a bs) b n = slice xs b n := by
  apply List.ext_getElem?
  intro i
  rw [getElem?_slice_ite, getElem?_slice_ite, getElem?_overwrite ha]
  split
  next hi =>
    split
    next => rfl
    next =>
      split
      next => omega
      next => rfl
  next => rfl

/-- What is written is read back. -/
theorem slice_overwrite_self (h : a + bs.length ≤ xs.length)
    (hn : bs.length = min n (xs.length - a)) : slice (overwrite pad xs a bs) a n = bs := by
  apply List.ext_getElem?
  intro i
  rw [getElem?_slice_ite, getElem?_overwrite (by omega)]
  by_cases hi : i < bs.length
  · rw [if_pos (by omega), if_neg (by omega), if_pos (by omega)]
    congr 1
    omega
  · rw [List.getElem?_eq_none (Nat.le_of_not_lt hi)]
    split
    next hin =>
      rw [if_neg (by omega), if_neg (by omega), List.getElem?_eq_none (by omega)]
    next => rfl

end Haybarn.Lib
