import Mathlib

/-!
# A log in a ring

The entries of a log, each in the slot that its number has modulo the size of the ring: an entry
takes the slot of the one that is `size` entries older. `InRing` says what the slots then hold, and
`InRing.eq_recent_iff` when they hold the most recent entries in the order in which they came.

The slots are the values of a table with sorted keys (`putKey`); as long as the keys start at zero
and have no gap, the table is the list of its values (`enum`).
-/

namespace Haybarn.Lib

variable {α : Type}

/-! ## Tables with sorted keys -/

/-- Add an entry, or replace the one that has the key. -/
def putKey (k : Nat) (v : α) : List (Nat × α) → List (Nat × α)
  | [] => [(k, v)]
  | (k', v') :: rest =>
    if k < k' then (k, v) :: (k', v') :: rest
    else if k = k' then (k, v) :: rest
    else (k', v') :: putKey k v rest

/-- The values with their positions, counted from `k`. -/
def enum (k : Nat) : List α → List (Nat × α)
  | [] => []
  | v :: vs => (k, v) :: enum (k + 1) vs

@[simp] theorem map_snd_enum (vs : List α) (k : Nat) : (enum k vs).map (·.2) = vs := by
  induction vs generalizing k with
  | nil => rfl
  | cons v vs ih => rw [enum, List.map_cons, ih]

theorem putKey_end (v : α) (vs : List α) (k : Nat) :
    putKey (k + vs.length) v (enum k vs) = enum k (vs ++ [v]) := by
  induction vs generalizing k with
  | nil => rfl
  | cons w vs ih =>
    have hlen : k + (w :: vs).length = k + 1 + vs.length := by
      rw [List.length_cons]
      omega
    rw [enum, putKey, if_neg (by rw [List.length_cons]; omega),
      if_neg (by rw [List.length_cons]; omega), hlen, ih]
    rfl

theorem putKey_set (v : α) (vs : List α) (k i : Nat) (h : i < vs.length) :
    putKey (k + i) v (enum k vs) = enum k (vs.set i v) := by
  induction vs generalizing k i with
  | nil => exact absurd h (Nat.not_lt_zero _)
  | cons w vs ih =>
    rw [enum, putKey, if_neg (by omega)]
    cases i with
    | zero =>
      rw [if_pos (by omega), List.set_cons_zero]
      rfl
    | succ i =>
      have hi : k + (i + 1) = k + 1 + i := by omega
      rw [if_neg (by omega), hi, ih (k + 1) i (by simpa using h), List.set_cons_succ]
      rfl

/-! ## The ring -/

/-- The last `size` entries. -/
def recent (size : Nat) (xs : List α) : List α := xs.drop (xs.length - size)

/-- What writing an entry makes of the slots. -/
def ringWrite (size : Nat) (slots : List α) (n : Nat) (x : α) : List α :=
  if n < size then slots ++ [x] else slots.set (n % size) x

/-- Each of the last `size` entries is in its slot. -/
structure InRing (size : Nat) (xs slots : List α) : Prop where
  length : slots.length = min xs.length size
  slot : ∀ j, j < xs.length → xs.length ≤ j + size → slots[j % size]? = xs[j]?

variable {size : Nat} {xs slots : List α}

theorem InRing.nil : InRing size ([] : List α) [] :=
  ⟨(Nat.zero_min size).symm, fun _ hj => absurd hj (Nat.not_lt_zero _)⟩

/-- One entry more. -/
theorem InRing.write (hsize : 0 < size) (h : InRing size xs slots) (x : α) :
    InRing size (xs ++ [x]) (ringWrite size slots xs.length x) := by
  have hlen := h.length
  unfold ringWrite
  split
  next hlt =>
    refine ⟨by simp only [List.length_append, List.length_singleton]; omega, fun j hj hrecent => ?_⟩
    rw [List.length_append, List.length_singleton] at hj hrecent
    rw [Nat.mod_eq_of_lt (by omega)]
    by_cases hlast : j < xs.length
    · rw [List.getElem?_append_left (by omega), List.getElem?_append_left hlast,
        ← h.slot j hlast (by omega), Nat.mod_eq_of_lt (by omega)]
    · rw [List.getElem?_append_right (by omega), List.getElem?_append_right (by omega)]
      congr 1
      omega
  next hge =>
    refine ⟨by simp only [List.length_set, List.length_append, List.length_singleton]; omega,
      fun j hj hrecent => ?_⟩
    rw [List.length_append, List.length_singleton] at hj hrecent
    have hslot := Nat.mod_lt xs.length hsize
    by_cases hlast : j < xs.length
    · -- the entry that is replaced is `size` entries older than the new one
      have hne : xs.length % size ≠ j % size := by
        intro heq
        have hmod : (xs.length - j) % size = 0 := Nat.sub_mod_eq_zero_of_mod_eq heq
        rw [Nat.mod_eq_of_lt (by omega)] at hmod
        omega
      rw [List.getElem?_set_ne hne, List.getElem?_append_left hlast,
        h.slot j hlast (by omega)]
    · obtain rfl : j = xs.length := by omega
      rw [List.getElem?_set_self (by omega), List.getElem?_append_right (by omega), Nat.sub_self]
      rfl

/-- The `i`-th of the last `size` entries, once the ring is full. -/
theorem InRing.recent_slot (h : InRing size xs slots) (hfull : size ≤ xs.length) {i : Nat}
    (hi : i < size) : (recent size xs)[i]? = slots[(i + xs.length) % size]? := by
  unfold recent
  rw [List.getElem?_drop, ← h.slot _ (by omega) (by omega)]
  congr 1
  rw [show i + xs.length = xs.length - size + i + size by omega, Nat.add_mod_right]

/-- As long as the ring is not full, the slots are the entries. -/
theorem InRing.eq_of_le (h : InRing size xs slots) (hle : xs.length ≤ size) : slots = xs := by
  have hlen := h.length
  refine List.ext_getElem? fun j => ?_
  by_cases hj : j < xs.length
  · rw [← h.slot j hj (by omega), Nat.mod_eq_of_lt (by omega)]
  · rw [List.getElem?_eq_none (by omega), List.getElem?_eq_none (by omega)]

/-- **When the slots, from the first to the last, are the most recent entries in their order.** -/
theorem InRing.eq_recent_iff (h : InRing size xs slots) : slots = recent size xs ↔
    xs.length ≤ size ∨
      ∀ i < size, (recent size xs)[i]? = (recent size xs)[(i + xs.length) % size]? := by
  by_cases hle : xs.length ≤ size
  · have hrecent : recent size xs = xs := by
      unfold recent
      rw [Nat.sub_eq_zero_of_le hle, List.drop_zero]
    simp only [hle, true_or, iff_true]
    rw [hrecent, h.eq_of_le hle]
  · have hfull : size ≤ xs.length := by omega
    simp only [hle, false_or]
    constructor
    · intro heq i hi
      rw [h.recent_slot hfull hi, ← heq]
    · intro hperiod
      refine List.ext_getElem? fun k => ?_
      by_cases hk : k < size
      · -- the entry that is in slot `k`
        have hi : (k + (size - xs.length % size)) % size < size := Nat.mod_lt _ (by omega)
        have hik : ((k + (size - xs.length % size)) % size + xs.length) % size = k := by
          have hlt := Nat.mod_lt xs.length (show 0 < size by omega)
          rw [Nat.mod_add_mod, show k + (size - xs.length % size) + xs.length =
            k + size + (xs.length - xs.length % size) by have := Nat.mod_le xs.length size; omega,
            Nat.add_mod, Nat.sub_mod_eq_zero_of_mod_eq (Nat.mod_mod _ _).symm, Nat.add_zero,
            Nat.mod_mod, Nat.add_mod_right, Nat.mod_eq_of_lt hk]
        have hslot := h.recent_slot hfull hi
        rw [hperiod _ hi, hik] at hslot
        exact hslot.symm
      · have hlen := h.length
        rw [List.getElem?_eq_none (by omega), List.getElem?_eq_none]
        unfold recent
        rw [List.length_drop]
        omega

end Haybarn.Lib
