import Haybarn.Shell.PromptBuffer

/-!
# What reflow writes

`reflow` writes the characters of the text in order and puts a wrap behind each full row, so a line
of the text has as many wraps as full rows (`wraps`, `length_reflowed`). Behind the last character
of a full row there are two positions that stand for the same place in the text, one before the
wrap and one behind it (`standsAt_iff`).
-/

namespace Haybarn.Shell

open Haybarn.Lib

/-- The number of characters on a row. -/
def rowWidth (width : Nat) : Nat := max 1 (width - (promptWidth + 1))

/-- The number of full rows in a text. -/
def wraps (width : Nat) (t : List Char) : Nat :=
  ((t.splitOn '\n').map fun line => line.length / rowWidth width).sum

/-- The wraps of a text whose first character is written to column `col`. -/
def wrapsFrom (width col : Nat) (t : List Char) : Nat :=
  match t.splitOn '\n' with
  | line :: lines =>
    (col + line.length) / rowWidth width + (lines.map fun line => line.length / rowWidth width).sum
  | [] => 0

theorem rowWidth_pos (width : Nat) : 0 < rowWidth width := by
  unfold rowWidth
  omega

theorem wrapsFrom_zero (width : Nat) (t : List Char) : wrapsFrom width 0 t = wraps width t := by
  unfold wrapsFrom wraps
  cases t.splitOn '\n' with
  | nil => rfl
  | cons line lines =>
    dsimp only
    rw [Nat.zero_add, List.map_cons, List.sum_cons]

theorem wrapsFrom_nil {width col : Nat} (h : col < rowWidth width) :
    wrapsFrom width col [] = 0 := by
  simp [wrapsFrom, Nat.div_eq_of_lt h]

theorem wrapsFrom_newline {width col : Nat} (h : col < rowWidth width) (t : List Char) :
    wrapsFrom width col ('\n' :: t) = wrapsFrom width 0 t := by
  rw [wrapsFrom_zero]
  unfold wrapsFrom wraps List.splitOn
  rw [List.splitOnP_cons_eq_if_modifyHead]
  simp [Nat.div_eq_of_lt h]

theorem wrapsFrom_cons {width col : Nat} {c : Char} (hc : c ≠ '\n') (t : List Char) :
    wrapsFrom width col (c :: t) = wrapsFrom width (col + 1) t := by
  unfold wrapsFrom List.splitOn
  rw [List.splitOnP_cons_eq_if_modifyHead, if_neg (by simpa using hc)]
  cases List.splitOnP (· == '\n') t with
  | nil => rfl
  | cons line lines =>
    have hcol : col + (line.length + 1) = col + 1 + line.length := by omega
    simp [hcol]

/-- A row that is full is followed by an empty one. -/
theorem wrapsFrom_rowWidth (width : Nat) (t : List Char) :
    wrapsFrom width (rowWidth width) t = wrapsFrom width 0 t + 1 := by
  unfold wrapsFrom
  cases h : t.splitOn '\n' with
  | nil => exact absurd h (List.splitOnP_ne_nil _ t)
  | cons line lines =>
    dsimp only
    rw [Nat.add_div_left _ (rowWidth_pos width), Nat.zero_add]
    omega

/-! ## The characters -/

theorem reflowed_strip (width : Nat) (t : List Char) :
    ∀ n, reflowed width n (strip paragraphSeperator t) = reflowed width n t := by
  induction t with
  | nil => exact fun _ => rfl
  | cons c t ih =>
    intro n
    by_cases hc : c = paragraphSeperator
    · rw [hc, strip_cons_self, ih, reflowed, if_pos rfl]
    · rw [strip_cons_of_ne _ hc]
      simp only [reflowed, if_neg hc, ih]

theorem strip_reflowed (width : Nat) (t : List Char) :
    ∀ n, strip paragraphSeperator (reflowed width n t) = strip paragraphSeperator t := by
  induction t with
  | nil => exact fun _ => rfl
  | cons c t ih =>
    intro n
    by_cases hc : c = paragraphSeperator
    · rw [hc, strip_cons_self, reflowed, if_pos rfl, ih]
    · rw [strip_cons_of_ne _ hc]
      simp only [reflowed, if_neg hc]
      split
      · rw [strip_cons_of_ne _ hc, ih]
      · split
        · rw [strip_cons_of_ne _ hc, strip_cons_self, ih]
        · rw [strip_cons_of_ne _ hc, ih]

theorem reflowed_append (width : Nat) (s t : List Char) :
    ∀ n, ∃ m, reflowed width n (s ++ t) = reflowed width n s ++ reflowed width m t := by
  induction s with
  | nil => exact fun n => ⟨n, rfl⟩
  | cons c s ih =>
    intro n
    simp only [List.cons_append, reflowed]
    split
    · exact ih n
    · split
      · obtain ⟨m, hm⟩ := ih promptWidth
        exact ⟨m, by rw [hm, List.cons_append]⟩
      · split
        · obtain ⟨m, hm⟩ := ih promptWidth
          exact ⟨m, by rw [hm, List.cons_append, List.cons_append]⟩
        · obtain ⟨m, hm⟩ := ih (n + 1)
          exact ⟨m, by rw [hm, List.cons_append]⟩

/-- The character is written first, and at most one wrap behind it. -/
theorem reflowed_cons {c : Char} (hc : c ≠ paragraphSeperator) (width n : Nat) (t : List Char) :
    ∃ m, reflowed width n (c :: t) = c :: reflowed width m t
      ∨ reflowed width n (c :: t) = c :: paragraphSeperator :: reflowed width m t := by
  simp only [reflowed, if_neg hc]
  split
  · exact ⟨_, Or.inl rfl⟩
  · split
    · exact ⟨_, Or.inr rfl⟩
    · exact ⟨_, Or.inl rfl⟩

theorem reflowed_concat {c : Char} (hc : c ≠ paragraphSeperator) (width n : Nat) (s : List Char) :
    reflowed width n (s ++ [c]) = reflowed width n s ++ [c]
      ∨ reflowed width n (s ++ [c]) = reflowed width n s ++ [c, paragraphSeperator] := by
  obtain ⟨m, happend⟩ := reflowed_append width s [c] n
  rw [happend]
  obtain ⟨k, h | h⟩ := reflowed_cons hc width m []
  · exact Or.inl (by rw [h, reflowed])
  · exact Or.inr (by rw [h, reflowed])

theorem length_reflowedFrom (width : Nat) {t : List Char} (ht : paragraphSeperator ∉ t) :
    ∀ col, col < rowWidth width →
      (reflowed width (promptWidth + col) t).length = t.length + wrapsFrom width col t := by
  induction t with
  | nil =>
    intro col hcol
    rw [wrapsFrom_nil hcol]
    rfl
  | cons c t ih =>
    rw [List.mem_cons, not_or] at ht
    have ih := ih ht.2
    intro col hcol
    rw [reflowed, if_neg (Ne.symm ht.1)]
    split
    · next hc =>
      have hrest := ih 0 (rowWidth_pos width)
      rw [Nat.add_zero] at hrest
      rw [hc, wrapsFrom_newline hcol, List.length_cons, List.length_cons, hrest]
      omega
    · next hc =>
      rw [wrapsFrom_cons hc]
      split
      · next hfull =>
        -- The wrap is written exactly when the row has no more room.
        have hcol' : col + 1 = rowWidth width := by
          unfold rowWidth at hcol ⊢
          omega
        have hrest := ih 0 (rowWidth_pos width)
        rw [Nat.add_zero] at hrest
        rw [hcol', wrapsFrom_rowWidth, List.length_cons, List.length_cons, List.length_cons, hrest]
        omega
      · next hroom =>
        have hrest := ih (col + 1) (by unfold rowWidth; omega)
        rw [Nat.add_assoc, List.length_cons, List.length_cons, hrest]
        omega

/-- One wrap for each full row. -/
theorem length_reflowed (width : Nat) {t : List Char} (ht : paragraphSeperator ∉ t) :
    (reflowed width promptWidth t).length = t.length + wraps width t := by
  rw [← wrapsFrom_zero]
  exact length_reflowedFrom width ht 0 (rowWidth_pos width)

theorem wraps_concat {c : Char} {s : List Char} (width : Nat) (h : paragraphSeperator ∉ s ++ [c]) :
    (reflowed width promptWidth (s ++ [c]) = reflowed width promptWidth s ++ [c]
        ∧ wraps width (s ++ [c]) = wraps width s)
      ∨ (reflowed width promptWidth (s ++ [c])
          = reflowed width promptWidth s ++ [c, paragraphSeperator]
        ∧ wraps width (s ++ [c]) = wraps width s + 1) := by
  have hlength := length_reflowed width h
  rw [List.mem_append, not_or, List.mem_singleton] at h
  have hs := length_reflowed width h.1
  rcases reflowed_concat (Ne.symm h.2) width promptWidth s with hcat | hcat
  · rw [hcat, List.length_append, List.length_append, List.length_singleton] at hlength
    exact Or.inl ⟨hcat, by omega⟩
  · rw [hcat, List.length_append, List.length_append, List.length_singleton,
      List.length_cons, List.length_singleton] at hlength
    exact Or.inr ⟨hcat, by omega⟩

theorem wraps_dropLast_le (width : Nat) {s : List Char} (hs : paragraphSeperator ∉ s) :
    wraps width s.dropLast ≤ wraps width s := by
  rcases List.eq_nil_or_concat' s with rfl | ⟨s', c, rfl⟩
  · exact Nat.le_refl _
  · rw [List.dropLast_concat]
    rcases wraps_concat width hs with ⟨-, h⟩ | ⟨-, h⟩ <;> omega

/-! ## Positions -/

/-- Position `q` of a buffer that begins with the layout of `t` is right behind `t`: behind a wrap
that ends it, or before that wrap. -/
def StandsAt (width : Nat) (t : List Char) (q : Nat) : Prop :=
  q = t.length + wraps width t ∨ q = t.length + wraps width t.dropLast

instance (width : Nat) (t : List Char) (q : Nat) : Decidable (StandsAt width t q) :=
  inferInstanceAs (Decidable (_ ∨ _))

/-- What stands behind the layout of `s` begins with a character of the text. -/
theorem logical_reflowed_pos {t : List Char} (ht : paragraphSeperator ∉ t) (width n : Nat)
    {k : Nat} (hk : 0 < k) (hle : k ≤ (reflowed width n t).length) :
    0 < logical paragraphSeperator (reflowed width n t) k := by
  cases t with
  | nil =>
    rw [reflowed, List.length_nil] at hle
    omega
  | cons c t =>
    have hc : c ≠ paragraphSeperator := fun h => ht (h ▸ List.mem_cons_self)
    obtain ⟨k, rfl⟩ : ∃ j, k = j + 1 := ⟨k - 1, by omega⟩
    obtain ⟨m, h | h⟩ := reflowed_cons hc width n t
    · rw [h, logical, List.take_succ_cons, strip_cons_of_ne _ hc, List.length_cons]
      omega
    · rw [h, logical, List.take_succ_cons, strip_cons_of_ne _ hc, List.length_cons]
      omega

/-- Right behind the layout of `s`, and nowhere further. -/
theorem logical_behind {width n : Nat} {s t r : List Char} (ht : paragraphSeperator ∉ t)
    (hr : strip paragraphSeperator r = s) {k : Nat} (hk : k ≤ (reflowed width n t).length) :
    logical paragraphSeperator (r ++ reflowed width n t) (r.length + k) = s.length ↔ k = 0 := by
  rw [logical_append_right, hr]
  constructor
  · intro h
    by_contra hne
    have := logical_reflowed_pos ht width n (Nat.pos_of_ne_zero hne) hk
    omega
  · rintro rfl
    rfl

/-- **The positions that stand for a place in the text**: no others do. -/
theorem standsAt_iff (width : Nat) {s t : List Char} (h : paragraphSeperator ∉ s ++ t) (q : Nat) :
    (q ≤ (reflowed width promptWidth (s ++ t)).length
        ∧ logical paragraphSeperator (reflowed width promptWidth (s ++ t)) q = s.length)
      ↔ StandsAt width s q := by
  rw [List.mem_append, not_or] at h
  obtain ⟨hs, ht⟩ := h
  obtain ⟨m, happend⟩ := reflowed_append width s t promptWidth
  have hlength := length_reflowed width hs
  have htext : strip paragraphSeperator (reflowed width promptWidth s) = s := by
    rw [strip_reflowed, strip_eq_self _ hs]
  rw [happend, List.length_append]
  unfold StandsAt
  by_cases hq : (reflowed width promptWidth s).length ≤ q
  · -- Behind the whole layout of `s`.
    obtain ⟨k, rfl⟩ := Nat.exists_eq_add_of_le hq
    have hwraps : wraps width s.dropLast ≤ wraps width s := wraps_dropLast_le width hs
    constructor
    · rintro ⟨hle, hlogical⟩
      have hk := (logical_behind ht htext (by omega)).mp hlogical
      left
      omega
    · intro hstands
      have hk : k = 0 := by omega
      subst hk
      exact ⟨by omega, (logical_behind ht htext (Nat.zero_le _)).mpr rfl⟩
  · -- Before the wrap that ends the layout of `s`, if there is one.
    have hq : q < (reflowed width promptWidth s).length := Nat.lt_of_not_le hq
    rw [logical_append_left _ (Nat.le_of_lt hq)]
    rcases List.eq_nil_or_concat' s with rfl | ⟨s', c, rfl⟩
    · rw [reflowed, List.length_nil] at hq
      omega
    · rw [List.dropLast_concat]
      have hs' : paragraphSeperator ∉ s' := fun h => hs (List.mem_append_left _ h)
      have hc : c ≠ paragraphSeperator := fun h => hs (by simp [h])
      have hlength' := length_reflowed width hs'
      have htext' : strip paragraphSeperator (reflowed width promptWidth s') = s' := by
        rw [strip_reflowed, strip_eq_self _ hs']
      have hbefore : q ≤ (reflowed width promptWidth s').length →
          logical paragraphSeperator (reflowed width promptWidth s') q ≤ s'.length := by
        intro _
        have h := logical_le paragraphSeperator (reflowed width promptWidth s') q
        rw [htext'] at h
        exact h
      rcases wraps_concat width hs with ⟨hcat, hwraps⟩ | ⟨hcat, hwraps⟩
      · rw [hcat, List.length_append, List.length_singleton] at hq
        rw [hcat, logical_append_left _ (by omega)]
        simp only [List.length_append, List.length_cons, List.length_nil]
        have := hbefore (by omega)
        omega
      · rw [hcat, List.length_append, List.length_cons, List.length_singleton] at hq
        simp only [hcat, List.length_append, List.length_cons, List.length_nil]
        by_cases hlast : q = (reflowed width promptWidth s').length + 1
        · subst hlast
          rw [logical_append_right, htext', logical, List.take_succ_cons,
            strip_cons_of_ne _ hc, List.length_cons]
          rw [List.take_zero, strip_nil, List.length_nil]
          omega
        · rw [logical_append_left _ (by omega)]
          have := hbefore (by omega)
          omega

end Haybarn.Shell
