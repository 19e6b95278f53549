import Mathlib

/-!
# A window of stream positions in a ring

A single-producer single-consumer ring of capacity `cap` keeps position `p` of
an unbounded stream in cell `p % cap`. `Window cap cells lo hi P` says that the
cells of the positions `lo ≤ p < hi` satisfy `P p`; a ring is right when this
holds of the bytes written and not yet read. Two positions less than `cap`
apart never share a cell (`mod_ne_of_lt`), so a store at a position past the
window, and less than `cap` past its start, leaves the window alone
(`Window.update_outside`) and extends it when it is the next one
(`Window.snoc`).

Nothing here knows what the cells hold or who stores to them.
-/

namespace Haybarn.Lib

variable {β : Type} {cap lo mid hi lo' hi' p q : Nat} {cells : Nat → β} {P Q : Nat → β → Prop}

/-- Distinct positions less than `cap` apart are kept in distinct cells. -/
theorem mod_ne_of_lt (hpq : p < q) (hq : q < p + cap) : p % cap ≠ q % cap := by
  intro he
  have hd : cap ∣ q - p :=
    Nat.dvd_of_mod_eq_zero (Nat.sub_mod_eq_zero_of_mod_eq he.symm)
  have := Nat.le_of_dvd (by omega) hd
  omega

/-- The cells of the positions `lo ≤ p < hi` satisfy `P p`. -/
def Window (cap : Nat) (cells : Nat → β) (lo hi : Nat) (P : Nat → β → Prop) : Prop :=
  ∀ p, lo ≤ p → p < hi → P p (cells (p % cap))

namespace Window

theorem empty (h : hi ≤ lo) : Window cap cells lo hi P := fun _ h1 h2 => absurd h2 (by omega)

theorem mono (h : Window cap cells lo hi P) (hlo : lo ≤ lo') (hhi : hi' ≤ hi)
    (hP : ∀ p b, lo' ≤ p → p < hi' → P p b → Q p b) : Window cap cells lo' hi' Q :=
  fun p h1 h2 => hP p _ h1 h2 (h p (by omega) (by omega))

theorem append (h : Window cap cells lo mid P) (h' : Window cap cells mid hi P) :
    Window cap cells lo hi P := by
  intro p h1 h2
  rcases Nat.lt_or_ge p mid with hlt | hge
  · exact h p h1 hlt
  · exact h' p hge h2

/-- A store past the window and less than `cap` past its start is not seen in it. -/
theorem update_outside (h : Window cap cells lo hi P) (hq : hi ≤ q) (hcap : q < lo + cap)
    (b : β) : Window cap (Function.update cells (q % cap) b) lo hi P := by
  intro p h1 h2
  rw [Function.update_of_ne (mod_ne_of_lt (by omega) (by omega))]
  exact h p h1 h2

/-- A store at the window's end extends it by one position. -/
theorem snoc (h : Window cap cells lo hi P) (hcap : hi < lo + cap) (b : β) (hb : P hi b) :
    Window cap (Function.update cells (hi % cap) b) lo (hi + 1) P := by
  refine (h.update_outside (Nat.le_refl _) hcap b).append fun p h1 h2 => ?_
  obtain rfl : p = hi := by omega
  rw [Function.update_self]
  exact hb

end Window

end Haybarn.Lib
