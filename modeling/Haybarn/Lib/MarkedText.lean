import Mathlib

/-!
# Text with marks in it

A buffer holds a text and, between its characters, marks that are not part of it. Taking the marks
out (`strip`) gives the text, and a position in the buffer stands for the position in the text that
has as many characters before it (`logical`). Cutting the buffer at a position cuts the text at the
position that it stands for.
-/

namespace Haybarn.Lib

variable {α : Type} [DecidableEq α] (mark : α)

/-- The text: what is not a mark. -/
def strip (r : List α) : List α := r.filter (· ≠ mark)

/-- The position in the text that a position in the buffer stands for. -/
def logical (r : List α) (p : Nat) : Nat := (strip mark (r.take p)).length

@[simp] theorem strip_nil : strip mark [] = [] := rfl

@[simp] theorem strip_append (a b : List α) : strip mark (a ++ b) = strip mark a ++ strip mark b :=
  List.filter_append a b

@[simp] theorem strip_cons_self (r : List α) : strip mark (mark :: r) = strip mark r := by
  simp [strip]

theorem strip_cons_of_ne {c : α} (h : c ≠ mark) (r : List α) :
    strip mark (c :: r) = c :: strip mark r := by
  simp [strip, h]

theorem strip_eq_self {t : List α} (h : mark ∉ t) : strip mark t = t := by
  unfold strip
  rw [List.filter_eq_self]
  intro c hc
  rw [decide_eq_true_eq]
  rintro rfl
  exact h hc

/-- A text with a mark in it is not its own text. -/
theorem strip_eq_self_iff {t : List α} : strip mark t = t ↔ mark ∉ t := by
  refine ⟨fun h hmem => ?_, strip_eq_self mark⟩
  rw [← h] at hmem
  have := (List.mem_filter.mp hmem).2
  simp at this

theorem notMem_strip (r : List α) : mark ∉ strip mark r := by
  intro h
  have := (List.mem_filter.mp h).2
  simp at this

theorem logical_append_left {r s : List α} {p : Nat} (h : p ≤ r.length) :
    logical mark (r ++ s) p = logical mark r p := by
  rw [logical, List.take_append_of_le_length h, logical]

theorem logical_append_right (r s : List α) (p : Nat) :
    logical mark (r ++ s) (r.length + p) = (strip mark r).length + logical mark s p := by
  rw [logical, List.take_length_add_append, strip_append, List.length_append, logical]

theorem logical_length (r : List α) : logical mark r r.length = (strip mark r).length := by
  rw [logical, List.take_length]

theorem logical_le (r : List α) (p : Nat) : logical mark r p ≤ (strip mark r).length := by
  have h := congrArg List.length (strip_append mark (r.take p) (r.drop p))
  rw [List.take_append_drop, List.length_append] at h
  unfold logical
  omega

theorem strip_cut (r : List α) (p : Nat) :
    strip mark r = strip mark (r.take p) ++ strip mark (r.drop p) := by
  rw [← strip_append, List.take_append_drop]

/-- The text before a position. -/
theorem take_logical (r : List α) (p : Nat) :
    (strip mark r).take (logical mark r p) = strip mark (r.take p) := by
  rw [strip_cut mark r p]
  exact List.take_left

/-- The text behind a position. -/
theorem drop_logical (r : List α) (p : Nat) :
    (strip mark r).drop (logical mark r p) = strip mark (r.drop p) := by
  rw [strip_cut mark r p]
  exact List.drop_left

end Haybarn.Lib
