import Mathlib

/-!
# Words that serve as locks

A table of words, `word : K → V`, each of which somebody may hold: one value,
`free`, says that nobody does, and a holder is known by the tag it has put
there. `LockOk free word holds` says that the table and the parties agree:
whoever holds `k` with tag `t` finds `t` in the word, and no word has two
holders.

Three things keep it: a step that changes no word and makes no holder (`keep`),
one that finds a word free and takes it (`take`), and one by which a holder
clears its word and lets go (`drop`). The last two are stated with the one word
that changes; whether it was changed by a store or by a compare-exchange does
not matter here.
-/

namespace Haybarn.Lib

variable {P K V : Type} {free : V}

/-- The words and their holders agree. -/
structure LockOk (free : V) (word : K → V) (holds : P → K → V → Prop) : Prop where
  tag : ∀ {p k t}, holds p k t → word k = t
  live : ∀ {p k t}, holds p k t → t ≠ free
  unique : ∀ {p q k t u}, holds p k t → holds q k u → p = q

namespace LockOk

variable {word word' : K → V} {holds holds' : P → K → V → Prop} {p : P} {k : K} {t : V}

/-- Nobody holds a free word. -/
theorem not_holds (h : LockOk free word holds) (hfree : word k = free) : ¬ holds p k t := by
  intro hp
  exact h.live hp ((h.tag hp).symm.trans hfree)

/-- Two holders of one word have put the same tag there. -/
theorem tag_eq (h : LockOk free word holds) {q : P} {u : V} (hp : holds p k t)
    (hq : holds q k u) : t = u :=
  (h.tag hp).symm.trans (h.tag hq)

theorem keep (h : LockOk free word holds) (hw : ∀ k, word' k = word k)
    (hh : ∀ p k t, holds' p k t → holds p k t) : LockOk free word' holds' := by
  refine ⟨fun hp => ?_, fun hp => h.live (hh _ _ _ hp), fun hp hq => ?_⟩
  · rw [hw]
    exact h.tag (hh _ _ _ hp)
  · exact h.unique (hh _ _ _ hp) (hh _ _ _ hq)

theorem take (h : LockOk free word holds) (hfree : word k = free) (ht : t ≠ free)
    (hself : word' k = t) (hother : ∀ k', k' ≠ k → word' k' = word k')
    (hh : ∀ q k' u, holds' q k' u → holds q k' u ∨ (q = p ∧ k' = k ∧ u = t)) :
    LockOk free word' holds' := by
  -- an old holder holds another word
  have hne : ∀ {q k' u}, holds q k' u → k' ≠ k := by
    rintro q k' u hq rfl
    exact h.not_holds hfree hq
  refine ⟨?_, ?_, ?_⟩
  · intro q k' u hq
    rcases hh q k' u hq with hold | ⟨rfl, rfl, rfl⟩
    · rw [hother _ (hne hold)]
      exact h.tag hold
    · exact hself
  · intro q k' u hq
    rcases hh q k' u hq with hold | ⟨rfl, rfl, rfl⟩
    · exact h.live hold
    · exact ht
  · intro q r k' u v hq hr
    rcases hh q k' u hq with hq | ⟨rfl, rfl, rfl⟩
    · rcases hh r k' v hr with hr | ⟨rfl, rfl, rfl⟩
      · exact h.unique hq hr
      · exact absurd rfl (hne hq)
    · rcases hh r k' v hr with hr | ⟨rfl, -, rfl⟩
      · exact absurd rfl (hne hr)
      · rfl

theorem drop (h : LockOk free word holds) (hp : holds p k t)
    (hother : ∀ k', k' ≠ k → word' k' = word k')
    (hh : ∀ q k' u, holds' q k' u → holds q k' u ∧ q ≠ p) : LockOk free word' holds' := by
  refine ⟨?_, fun hq => h.live (hh _ _ _ hq).1,
    fun hq hr => h.unique (hh _ _ _ hq).1 (hh _ _ _ hr).1⟩
  intro q k' u hq
  obtain ⟨hold, hne⟩ := hh q k' u hq
  have hk : k' ≠ k := by
    rintro rfl
    exact hne (h.unique hold hp)
  rw [hother _ hk]
  exact h.tag hold

end LockOk

end Haybarn.Lib
