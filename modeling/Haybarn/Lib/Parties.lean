import Mathlib

/-!
# What the parties of a system hold between them

Parties `P` are each at some place, `place : P → L`, and what a party holds is read off
its place. Two things are said about all the parties at once:

* **exclusion**: a latch that one party holds exclusively is held by nobody else
  (`Exclusion`);
* **tally**: a reference count is the number of references that the parties have
  between them.

Both are about one party moving: `Exclusion.move` asks for what the mover acquires,
`tally_move` says how the sum changes.
-/

namespace Haybarn.Lib

variable {P L K : Type}

/-- Nobody else holds a latch that a party holds exclusively. -/
structure Exclusion (shared exclusive : L → K → Prop) (place : P → L) : Prop where
  alone : ∀ {p q : P} {k : K}, exclusive (place p) k →
    (shared (place q) k ∨ exclusive (place q) k) → q = p

variable [DecidableEq P] {shared exclusive : L → K → Prop} {place : P → L} {p : P} {l : L}

/-- **The mover's rule**: what it holds after the move it held before, or it was free to
take. A party that holds a latch exclusively may come to share it. -/
theorem Exclusion.move (h : Exclusion shared exclusive place)
    (hX : ∀ k, exclusive l k → exclusive (place p) k ∨
      ∀ q, q ≠ p → ¬ shared (place q) k ∧ ¬ exclusive (place q) k)
    (hS : ∀ k, shared l k → shared (place p) k ∨ exclusive (place p) k ∨
      ∀ q, q ≠ p → ¬ exclusive (place q) k) :
    Exclusion shared exclusive (Function.update place p l) := by
  refine ⟨fun {q r k} hq hr => ?_⟩
  by_cases hqp : q = p
  · by_cases hrp : r = p
    · exact hrp.trans hqp.symm
    · subst hqp
      rw [Function.update_self] at hq
      rw [Function.update_of_ne hrp] at hr
      rcases hX k hq with hold | hfree
      · exact absurd (h.alone hold hr) hrp
      · rcases hr with hr | hr
        · exact absurd hr (hfree r hrp).1
        · exact absurd hr (hfree r hrp).2
  · rw [Function.update_of_ne hqp] at hq
    by_cases hrp : r = p
    · subst hrp
      rw [Function.update_self] at hr
      rcases hr with hr | hr
      · rcases hS k hr with hold | hold | hfree
        · exact absurd (h.alone hq (.inl hold)).symm hqp
        · exact absurd (h.alone hq (.inr hold)).symm hqp
        · exact absurd hq (hfree q hqp)
      · rcases hX k hr with hold | hfree
        · exact absurd (h.alone hq (.inr hold)).symm hqp
        · exact absurd hq (hfree q hqp).2
    · rw [Function.update_of_ne hrp] at hr
      exact h.alone hq hr

variable [Fintype P]

/-- What the parties have between them when one of them moves. -/
theorem tally_move (w : L → Nat) (place : P → L) (p : P) (l : L) :
    ∑ q, w (Function.update place p l q) + w (place p) = ∑ q, w (place q) + w l := by
  have hnew : ∑ q, w (Function.update place p l q) =
      w l + ∑ q ∈ Finset.univ.erase p, w (place q) := by
    rw [← Finset.add_sum_erase _ _ (Finset.mem_univ p), Function.update_self]
    congr 1
    exact Finset.sum_congr rfl fun q hq => by
      rw [Function.update_of_ne (Finset.ne_of_mem_erase hq)]
  rw [hnew, ← Finset.add_sum_erase _ (fun q => w (place q)) (Finset.mem_univ p)]
  omega

omit [DecidableEq P] in
/-- A party has no more than all of them. -/
theorem le_tally (w : L → Nat) (place : P → L) (p : P) : w (place p) ≤ ∑ q, w (place q) :=
  Finset.single_le_sum (f := fun q => w (place q)) (fun _ _ => Nat.zero_le _) (Finset.mem_univ p)

omit [DecidableEq P] in
/-- The tally of a party that is the only one to have anything. -/
theorem tally_alone (w : L → Nat) (h : ∀ q, q ≠ p → w (place q) = 0) :
    ∑ q, w (place q) = w (place p) :=
  Finset.sum_eq_single p (fun q _ hq => h q hq) (fun hp => absurd (Finset.mem_univ p) hp)

end Haybarn.Lib
