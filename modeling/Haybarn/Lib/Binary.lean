import Mathlib

/-!
# Reading bytes by position

What stands at a position of some bytes (`At`), numbers in LEB128, and readers that take an
encoded item at a position and change a state with it.

A reader reads an encoding (`Reads`) if it takes every encoded item that stands at its position,
and takes nothing else: whatever it has accepted within the bytes was an encoded item. Reading
several items in a row keeps that (`Reads.times`).
-/

namespace Haybarn.Lib.Binary

variable {b xs ys : List UInt8} {o n : Nat}

/-- The bytes `xs` stand at `o`. -/
def At (b : List UInt8) (o : Nat) (xs : List UInt8) : Prop := xs <+: b.drop o

theorem at_nil : At b o [] := List.nil_prefix

theorem at_append : At b o (xs ++ ys) ↔ At b o xs ∧ At b (o + xs.length) ys := by
  unfold At
  rw [← List.drop_drop]
  constructor
  · rintro ⟨rest, hrest⟩
    rw [← hrest, List.append_assoc]
    refine ⟨List.prefix_append _ _, ?_⟩
    rw [List.drop_left]
    exact List.prefix_append _ _
  · rintro ⟨⟨rest, hrest⟩, hys⟩
    rw [← hrest, List.drop_left] at hys
    rw [← hrest]
    exact (List.prefix_append_right_inj xs).mpr hys

theorem at_cons {x : UInt8} : At b o (x :: xs) ↔ b[o]? = some x ∧ At b (o + 1) xs := by
  unfold At
  rw [← List.drop_drop, ← List.head?_drop]
  cases hdrop : b.drop o with
  | nil => simp
  | cons y rest => simp [List.cons_prefix_cons, eq_comm]

theorem At.le (h : At b o xs) (hne : xs ≠ []) : o + xs.length ≤ b.length := by
  have hle := h.length_le
  have hpos := List.length_pos_of_ne_nil hne
  rw [List.length_drop] at hle
  omega

/-- What stands somewhere, if that is within the bytes. -/
theorem at_take (h : o + n ≤ b.length) :
    At b o ((b.drop o).take n) ∧ ((b.drop o).take n).length = n := by
  refine ⟨List.take_prefix _ _, ?_⟩
  rw [List.length_take, List.length_drop]
  omega

theorem At.take_eq (h : At b o xs) : (b.drop o).take xs.length = xs :=
  (List.prefix_iff_eq_take.mp h).symm

/-! ## LEB128 -/

/-- The bytes of a number: all but the last one say that there are more. -/
def isLeb : List UInt8 → Bool
  | [] => false
  | x :: xs => if x &&& 128 = 0 then xs.isEmpty else isLeb xs

/-- The value of the number at the beginning. -/
def lebValue : List UInt8 → Nat
  | [] => 0
  | x :: xs => (x &&& 127).toNat + if x &&& 128 = 0 then 0 else 128 * lebValue xs

/-- How many bytes it has. At the end of the bytes one more is asked for. -/
def lebLength : List UInt8 → Nat
  | [] => 1
  | x :: xs => if x &&& 128 = 0 then 1 else lebLength xs + 1

/-- A number as it is written. -/
structure Leb where
  bytes : List UInt8
  ok : isLeb bytes = true
  deriving DecidableEq

/-- Its value if it is unsigned. -/
def Leb.value (l : Leb) : Nat := lebValue l.bytes

theorem leb_append {l : List UInt8} (h : isLeb l = true) (rest : List UInt8) :
    lebLength (l ++ rest) = l.length ∧ lebValue (l ++ rest) = lebValue l := by
  induction l with
  | nil => cases h
  | cons x l ih =>
    rw [isLeb] at h
    rw [List.cons_append, lebLength, lebValue, lebValue]
    by_cases hx : x &&& 128 = 0
    · rw [if_pos hx] at h
      rw [if_pos hx, if_pos hx, if_pos hx, List.isEmpty_iff.mp h]
      exact ⟨rfl, rfl⟩
    · rw [if_neg hx] at h
      obtain ⟨hlength, hvalue⟩ := ih h
      rw [if_neg hx, if_neg hx, if_neg hx, hlength, hvalue]
      exact ⟨rfl, rfl⟩

theorem leb_take (l : List UInt8) (h : lebLength l ≤ l.length) :
    isLeb (l.take (lebLength l)) = true := by
  induction l with
  | nil => simp [lebLength] at h
  | cons x l ih =>
    rw [lebLength] at h ⊢
    by_cases hx : x &&& 128 = 0
    · rw [if_pos hx, List.take_succ_cons, List.take_zero, isLeb, if_pos hx]
      rfl
    · rw [if_neg hx, List.length_cons] at h
      rw [if_neg hx, List.take_succ_cons, isLeb, if_neg hx]
      exact ih (by omega)

/-- **A number that stands somewhere** is the one that is read there. -/
theorem leb_complete (l : Leb) (h : At b o l.bytes) :
    lebLength (b.drop o) = l.bytes.length ∧ lebValue (b.drop o) = l.value := by
  obtain ⟨rest, hrest⟩ := h
  rw [← hrest]
  exact leb_append l.ok rest

/-- **The number that is read** stands there. -/
theorem leb_sound (h : o + lebLength (b.drop o) ≤ b.length) :
    ∃ l : Leb, At b o l.bytes ∧ l.bytes.length = lebLength (b.drop o) ∧
      l.value = lebValue (b.drop o) := by
  have hok := leb_take (b.drop o) (by rw [List.length_drop]; omega)
  obtain ⟨hat, hlength⟩ := at_take h
  refine ⟨⟨_, hok⟩, hat, hlength, ?_⟩
  obtain ⟨-, hvalue⟩ := leb_append hok ((b.drop o).drop (lebLength (b.drop o)))
  rw [List.take_append_drop] at hvalue
  exact hvalue.symm

theorem lebLength_pos (l : List UInt8) : 0 < lebLength l := by
  cases l with
  | nil => exact Nat.one_pos
  | cons x l =>
    rw [lebLength]
    split <;> omega

/-! ## Readers -/

section Readers

variable {ε σ α : Type}

/-- What has succeeded did so step by step. -/
theorem exists_of_bind {β : Type} {x : Except ε α} {f : α → Except ε β} {r : β}
    (h : x >>= f = .ok r) : ∃ a, x = .ok a ∧ f a = .ok r := by
  cases x with
  | error e => cases h
  | ok a => exact ⟨a, rfl, h⟩

/-- A reader: from a position and a state to the position behind what it has read. -/
abbrev Reader (ε σ : Type) := Nat → σ → Except ε (Nat × σ)

/-- The reader reads the items of an encoding, and does to the state what they do. -/
structure Reads (b : List UInt8) (read : Reader ε σ) (encode : α → List UInt8) (act : σ → α → σ) :
    Prop where
  complete : ∀ a o s, At b o (encode a) → read o s = .ok (o + (encode a).length, act s a)
  sound : ∀ o s o' s', read o s = .ok (o', s') → o' ≤ b.length →
    ∃ a, At b o (encode a) ∧ o' = o + (encode a).length ∧ s' = act s a
  forward : ∀ o s o' s', read o s = .ok (o', s') → o ≤ o'

/-- `for (; n--;)` -/
def times (read : Reader ε σ) : Nat → Reader ε σ
  | 0, o, s => .ok (o, s)
  | n + 1, o, s => read o s >>= fun r => times read n r.1 r.2

variable {read : Reader ε σ} {encode : α → List UInt8} {act : σ → α → σ}

theorem times_complete (h : Reads b read encode act) (as : List α) :
    ∀ (o : Nat) (s : σ), At b o (as.flatMap encode) →
      times read as.length o s = .ok (o + (as.flatMap encode).length, as.foldl act s) := by
  induction as with
  | nil => exact fun _ _ _ => rfl
  | cons a as ih =>
    intro o s hat
    rw [List.flatMap_cons] at hat ⊢
    obtain ⟨ha, has⟩ := at_append.mp hat
    rw [List.length_cons, times, h.complete a o s ha]
    show times read as.length (o + (encode a).length) (act s a) = _
    rw [ih _ _ has, List.length_append, Nat.add_assoc]
    rfl

theorem times_forward (h : Reads b read encode act) (n : Nat) :
    ∀ (o : Nat) (s : σ) (o' : Nat) (s' : σ), times read n o s = .ok (o', s') → o ≤ o' := by
  induction n with
  | zero =>
    intro o s o' s' hread
    obtain ⟨rfl, -⟩ := Prod.mk.inj (Except.ok.inj hread)
    exact Nat.le_refl _
  | succ n ih =>
    intro o s o' s' hread
    obtain ⟨r, hfirst, hrest⟩ := exists_of_bind hread
    exact Nat.le_trans (h.forward o s r.1 r.2 hfirst) (ih r.1 r.2 o' s' hrest)

theorem times_sound (h : Reads b read encode act) (n : Nat) :
    ∀ (o : Nat) (s : σ) (o' : Nat) (s' : σ), times read n o s = .ok (o', s') → o' ≤ b.length →
      ∃ as : List α, as.length = n ∧ At b o (as.flatMap encode) ∧
        o' = o + (as.flatMap encode).length ∧ s' = as.foldl act s := by
  induction n with
  | zero =>
    intro o s o' s' hread _
    obtain ⟨rfl, rfl⟩ := Prod.mk.inj (Except.ok.inj hread)
    exact ⟨[], rfl, at_nil, rfl, rfl⟩
  | succ n ih =>
    intro o s o' s' hread hle
    obtain ⟨r, hfirst, hrest⟩ := exists_of_bind hread
    have hmiddle := times_forward h n r.1 r.2 o' s' hrest
    obtain ⟨as, hlength, has, ho', hs'⟩ := ih r.1 r.2 o' s' hrest hle
    obtain ⟨a, ha, ho, hs⟩ := h.sound o s r.1 r.2 hfirst (Nat.le_trans hmiddle hle)
    rw [ho] at has ho'
    refine ⟨a :: as, by rw [List.length_cons, hlength], ?_, ?_, by rw [hs', hs]; rfl⟩
    · rw [List.flatMap_cons]
      exact at_append.mpr ⟨ha, has⟩
    · rw [ho', List.flatMap_cons, List.length_append, Nat.add_assoc]

end Readers

end Haybarn.Lib.Binary
