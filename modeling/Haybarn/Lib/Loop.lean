import Mathlib

/-!
# Loops

The body of a loop goes on with a new state or leaves with a result. `Ends body s r` says that the
loop ends with `r` when it starts in `s`. There are two rules: a loop ends when a measure of an
invariant state goes down (`ends_of_measure`), and it does not when an invariant keeps it going
(`not_ends`).
-/

namespace Haybarn.Lib

variable {S R : Type}

/-- So many turns of a loop, and its result if it has ended by then. -/
def loop (body : S → S ⊕ R) : Nat → S → Option R
  | 0, _ => none
  | n + 1, s => (body s).elim (loop body n) some

/-- The loop ends. -/
def Ends (body : S → S ⊕ R) (s : S) (r : R) : Prop := ∃ n, loop body n s = some r

variable {body : S → S ⊕ R} {s s' : S} {r r' : R} {m n : Nat}

theorem loop_next (h : body s = .inl s') : loop body (n + 1) s = loop body n s' := by
  rw [loop, h]
  rfl

theorem loop_left (h : body s = .inr r) : loop body (n + 1) s = some r := by
  rw [loop, h]
  rfl

/-- More turns do not change the result. -/
theorem loop_mono (hn : loop body n s = some r) (hle : n ≤ m) : loop body m s = some r := by
  induction n generalizing s m with
  | zero => cases hn
  | succ n ih =>
    obtain ⟨m, rfl⟩ : ∃ k, m = k + 1 := ⟨m - 1, by omega⟩
    cases hb : body s with
    | inl s' =>
      rw [loop_next hb] at hn ⊢
      exact ih hn (by omega)
    | inr r' =>
      rw [loop_left hb] at hn ⊢
      exact hn

theorem Ends.unique (h : Ends body s r) (h' : Ends body s r') : r = r' := by
  obtain ⟨n, hn⟩ := h
  obtain ⟨m, hm⟩ := h'
  have hmax := loop_mono hn (Nat.le_max_left n m)
  rw [loop_mono hm (Nat.le_max_right n m)] at hmax
  exact (Option.some.inj hmax).symm

theorem Ends.next (h : body s = .inl s') (hr : Ends body s' r) : Ends body s r := by
  obtain ⟨n, hn⟩ := hr
  exact ⟨n + 1, (loop_next h).trans hn⟩

theorem Ends.left (h : body s = .inr r) : Ends body s r := ⟨1, loop_left h⟩

/-- **A loop ends when every turn keeps an invariant and makes a measure smaller.** -/
theorem ends_of_measure (I : S → Prop) (measure : S → Nat) (Q : R → Prop)
    (hturn : ∀ s, I s → (∃ s', body s = .inl s' ∧ I s' ∧ measure s' < measure s) ∨
      ∃ r, body s = .inr r ∧ Q r) (hs : I s) : ∃ r, Ends body s r ∧ Q r := by
  induction hk : measure s using Nat.strong_induction_on generalizing s with
  | _ k ih =>
    obtain ⟨s', hnext, hs', hlt⟩ | ⟨r, hleft, hr⟩ := hturn s hs
    · obtain ⟨r, hends, hr⟩ := ih (measure s') (by omega) hs' rfl
      exact ⟨r, hends.next hnext, hr⟩
    · exact ⟨r, .left hleft, hr⟩

/-- **A loop does not end when an invariant keeps it going.** -/
theorem not_ends (I : S → Prop) (hturn : ∀ s, I s → ∃ s', body s = .inl s' ∧ I s') (hs : I s) :
    ¬ Ends body s r := by
  rintro ⟨n, hn⟩
  induction n generalizing s with
  | zero => cases hn
  | succ n ih =>
    obtain ⟨s', hnext, hs'⟩ := hturn s hs
    rw [loop_next hnext] at hn
    exact ih hs' hn

end Haybarn.Lib
