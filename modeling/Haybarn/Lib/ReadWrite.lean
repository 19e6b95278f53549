import Haybarn.Lib.Parties

/-!
# A lock word for readers and a writer

A lock is a number of readers and a mark for a writer, and each of the parties `P` holds some
shared locks, or the exclusive one, as its place says. `ReadWrite` says that the lock and its
holders agree: the readers are all the shared locks that are held, the mark is there if and only if
somebody holds the exclusive lock, which one party at most does, and then there are no readers.

One party moves at a time, and there is one rule for each kind of move: it changes what it holds
not at all (`keep`), takes a shared lock (`share`) or lets it go (`unshare`), takes the exclusive
lock (`take`) or lets it go (`release`).
-/

namespace Haybarn.Lib

variable {P L : Type} [Fintype P] {shared : L → Nat} {exclusive : L → Bool}

/-- The lock and its holders agree. -/
structure ReadWrite (shared : L → Nat) (exclusive : L → Bool) (readers : Nat) (writer : Bool)
    (place : P → L) : Prop where
  count : readers = ∑ p, shared (place p)
  marked : ∀ p, exclusive (place p) = true → writer = true
  held : writer = true → ∃ p, exclusive (place p) = true
  one : ∀ p q, exclusive (place p) = true → exclusive (place q) = true → p = q
  alone : writer = true → readers = 0

namespace ReadWrite

variable {readers : Nat} {writer : Bool} {place : P → L}

/-- Nobody holds anything. -/
theorem free {l : L} (hs : shared l = 0) (he : exclusive l = false) :
    ReadWrite shared exclusive 0 false fun _ : P => l where
  count := by
    rw [hs]
    exact Finset.sum_const_zero.symm
  marked p hp := by
    rw [he] at hp
    cases hp
  held h := by cases h
  one p q hp := by
    rw [he] at hp
    cases hp
  alone h := by cases h

/-- A party has no more shared locks than there are readers. -/
theorem shared_le (h : ReadWrite shared exclusive readers writer place) (p : P) :
    shared (place p) ≤ readers := by
  rw [h.count]
  exact le_tally shared place p

/-- **While a party holds the exclusive lock, nobody else holds any.** -/
theorem excludes (h : ReadWrite shared exclusive readers writer place) {p q : P}
    (hp : exclusive (place p) = true) (hne : q ≠ p) :
    exclusive (place q) = false ∧ shared (place q) = 0 := by
  constructor
  · exact Bool.eq_false_iff.mpr fun hq => hne (h.one q p hq hp)
  · have hle := h.shared_le q
    rw [h.alone (h.marked p hp)] at hle
    exact Nat.le_zero.mp hle

variable [DecidableEq P] {p : P} {l : L}

omit [Fintype P] in
/-- What all parties hold exclusively, when the mover holds what it held. -/
theorem exclusive_update (he : exclusive l = exclusive (place p)) (q : P) :
    exclusive (Function.update place p l q) = exclusive (place q) := by
  by_cases hq : q = p
  · subst hq
    rw [Function.update_self, he]
  · rw [Function.update_of_ne hq]

/-- The readers change as the mover's shared locks do. -/
theorem count_update (h : ReadWrite shared exclusive readers writer place) {readers' : Nat}
    (hs : readers' + shared (place p) = readers + shared l) :
    readers' = ∑ q, shared (Function.update place p l q) := by
  have hmove := tally_move shared place p l
  rw [← h.count] at hmove
  omega

theorem keep (h : ReadWrite shared exclusive readers writer place)
    (hs : shared l = shared (place p)) (he : exclusive l = exclusive (place p)) :
    ReadWrite shared exclusive readers writer (Function.update place p l) where
  count := h.count_update (by rw [hs])
  marked q hq := h.marked q (by rwa [exclusive_update he] at hq)
  held hw := by
    obtain ⟨q, hq⟩ := h.held hw
    exact ⟨q, by rwa [exclusive_update he]⟩
  one q r hq hr := by
    rw [exclusive_update he] at hq hr
    exact h.one q r hq hr
  alone := h.alone

theorem share (h : ReadWrite shared exclusive readers false place)
    (hs : shared l = shared (place p) + 1) (he : exclusive l = exclusive (place p)) :
    ReadWrite shared exclusive (readers + 1) false (Function.update place p l) where
  count := h.count_update (by omega)
  marked q hq := h.marked q (by rwa [exclusive_update he] at hq)
  held hw := by cases hw
  one q r hq hr := by
    rw [exclusive_update he] at hq hr
    exact h.one q r hq hr
  alone hw := by cases hw

theorem unshare (h : ReadWrite shared exclusive readers writer place)
    (hs : shared l + 1 = shared (place p)) (he : exclusive l = exclusive (place p)) :
    ReadWrite shared exclusive (readers - 1) writer (Function.update place p l) where
  count := by
    have hle := h.shared_le p
    exact h.count_update (by omega)
  marked q hq := h.marked q (by rwa [exclusive_update he] at hq)
  held hw := by
    obtain ⟨q, hq⟩ := h.held hw
    exact ⟨q, by rwa [exclusive_update he]⟩
  one q r hq hr := by
    rw [exclusive_update he] at hq hr
    exact h.one q r hq hr
  alone hw := by rw [h.alone hw]

theorem take (h : ReadWrite shared exclusive 0 false place) (hs : shared l = shared (place p))
    (he : exclusive l = true) :
    ReadWrite shared exclusive 0 true (Function.update place p l) := by
  -- nobody had it, so whoever has it now is the mover
  have hmover : ∀ q, exclusive (Function.update place p l q) = true → q = p := by
    intro q hq
    by_contra hne
    rw [Function.update_of_ne hne] at hq
    cases h.marked q hq
  refine ⟨h.count_update (by rw [hs]), fun _ _ => rfl, fun _ => ⟨p, ?_⟩, ?_, fun _ => rfl⟩
  · rw [Function.update_self, he]
  · intro q r hq hr
    rw [hmover q hq, hmover r hr]

theorem release (h : ReadWrite shared exclusive readers writer place)
    (hp : exclusive (place p) = true) (hs : shared l = shared (place p))
    (he : exclusive l = false) :
    ReadWrite shared exclusive readers false (Function.update place p l) := by
  have hnone : ∀ q, exclusive (Function.update place p l q) = true → False := by
    intro q hq
    by_cases hqp : q = p
    · rw [hqp, Function.update_self, he] at hq
      cases hq
    · rw [Function.update_of_ne hqp] at hq
      exact hqp (h.one q p hq hp)
  refine ⟨h.count_update (by rw [hs]), fun q hq => (hnone q hq).elim, fun hw => ?_,
    fun q r hq => (hnone q hq).elim, fun hw => ?_⟩
  · cases hw
  · cases hw

end ReadWrite

end Haybarn.Lib
