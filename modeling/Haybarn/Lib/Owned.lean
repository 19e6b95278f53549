import Mathlib

/-!
# Resources with one place each

Resources are open, each with a key, and places hold them. **If every open resource is held, in one
place only, and no place holds another one (`Owned`), none is lost and none is released twice.**
Acquiring one into an empty place, releasing it from its place, and moving it to an empty place keep
this.
-/

namespace Haybarn.Lib

variable {P R K : Type} {place : P → Option R}
  {opened : List (R × K)} {p q : P} {r : R}

structure Owned (place : P → Option R) (opened : List (R × K)) : Prop where
  owned : ∀ e ∈ opened, ∃ p, place p = some e.1
  alive : ∀ p r, place p = some r → ∃ k, (r, k) ∈ opened
  once : ∀ p q r, place p = some r → place q = some r → p = q

namespace Owned

theorem nil : Owned (fun _ : P => (none : Option R)) ([] : List (R × K)) :=
  ⟨fun _ h => absurd h List.not_mem_nil, fun _ _ h => absurd h.symm (Option.some_ne_none _),
    fun _ _ _ h => absurd h.symm (Option.some_ne_none _)⟩

/-- Each open resource is in exactly one place. -/
theorem existsUnique (h : Owned place opened) {k : K} (hr : (r, k) ∈ opened) :
    ∃! p, place p = some r := by
  obtain ⟨p, hp⟩ := h.owned _ hr
  exact ⟨p, hp, fun q hq => h.once q p r hq hp⟩

variable [DecidableEq P]

theorem acquire (h : Owned place opened) (hempty : place p = none)
    (hnew : ∀ e ∈ opened, e.1 ≠ r) (k : K) :
    Owned (Function.update place p (some r)) (opened ++ [(r, k)]) where
  owned e he := by
    rcases List.mem_append.mp he with hold | hlast
    · obtain ⟨q, hq⟩ := h.owned e hold
      have hne : q ≠ p := by
        rintro rfl
        rw [hempty] at hq
        cases hq
      exact ⟨q, by rw [Function.update_of_ne hne, hq]⟩
    · obtain rfl := List.mem_singleton.mp hlast
      exact ⟨p, Function.update_self ..⟩
  alive q r' hq := by
    by_cases hp : q = p
    · rw [hp, Function.update_self] at hq
      obtain rfl := Option.some.inj hq
      exact ⟨k, List.mem_append_right _ List.mem_cons_self⟩
    · rw [Function.update_of_ne hp] at hq
      obtain ⟨k', hk'⟩ := h.alive q r' hq
      exact ⟨k', List.mem_append_left _ hk'⟩
  once q q' r' hq hq' := by
    -- what was held before is another resource
    have hother : ∀ q, q ≠ p → Function.update place p (some r) q ≠ some r := by
      intro q hne hheld
      rw [Function.update_of_ne hne] at hheld
      obtain ⟨k', hk'⟩ := h.alive q r hheld
      exact hnew _ hk' rfl
    by_cases hp : q = p
    · rw [hp, Function.update_self] at hq
      obtain rfl := Option.some.inj hq
      by_contra hne
      exact hother q' (fun heq => hne (hp.trans heq.symm)) hq'
    · by_cases hp' : q' = p
      · rw [hp', Function.update_self] at hq'
        obtain rfl := Option.some.inj hq'
        exact absurd hq (hother q hp)
      · rw [Function.update_of_ne hp] at hq
        rw [Function.update_of_ne hp'] at hq'
        exact h.once q q' r' hq hq'

variable [DecidableEq R]

theorem release (h : Owned place opened) (hheld : place p = some r) :
    Owned (Function.update place p none) (opened.filter fun e => e.1 ≠ r) where
  owned e he := by
    obtain ⟨hin, hne⟩ := List.mem_filter.mp he
    obtain ⟨q, hq⟩ := h.owned e hin
    have hother : q ≠ p := by
      rintro rfl
      exact of_decide_eq_true hne (Option.some.inj (hq.symm.trans hheld))
    exact ⟨q, by rw [Function.update_of_ne hother, hq]⟩
  alive q r' hq := by
    by_cases hp : q = p
    · rw [hp, Function.update_self] at hq
      cases hq
    · rw [Function.update_of_ne hp] at hq
      obtain ⟨k, hk⟩ := h.alive q r' hq
      refine ⟨k, List.mem_filter.mpr ⟨hk, decide_eq_true fun heq => hp ?_⟩⟩
      obtain rfl : r' = r := heq
      exact h.once q p r' hq hheld
  once q q' r' hq hq' := by
    have hold : ∀ q, Function.update place p none q = some r' → place q = some r' := by
      intro q hq
      by_cases hp : q = p
      · rw [hp, Function.update_self] at hq
        cases hq
      · rwa [Function.update_of_ne hp] at hq
    exact h.once q q' r' (hold q hq) (hold q' hq')

theorem move (h : Owned place opened) (hheld : place p = some r) (hempty : place q = none) :
    Owned (Function.update (Function.update place p none) q (some r)) opened := by
  have hne : p ≠ q := by
    rintro rfl
    rw [hempty] at hheld
    cases hheld
  -- a place of another resource stays, and this one has gone from `p` to `q`
  have hplace : ∀ s r', Function.update (Function.update place p none) q (some r) s = some r' ↔
      if r' = r then s = q else place s = some r' := by
    intro s r'
    by_cases hq : s = q
    · rw [hq, Function.update_self]
      split
      next heq => simp [heq]
      next hother => simp [hempty, Ne.symm hother]
    · rw [Function.update_of_ne hq]
      by_cases hp : s = p
      · rw [hp, Function.update_self, hheld]
        split
        next => simp [hne]
        next hother => simp [Ne.symm hother]
      · rw [Function.update_of_ne hp]
        split
        next heq =>
          refine ⟨fun hs => absurd (h.once s p r (heq ▸ hs) hheld) hp, fun hs => absurd hs hq⟩
        next => rfl
  refine ⟨fun e he => ?_, fun s r' hs => ?_, fun s s' r' hs hs' => ?_⟩
  · obtain ⟨s, hs⟩ := h.owned e he
    by_cases heq : e.1 = r
    · exact ⟨q, (hplace q e.1).mpr (by rw [if_pos heq])⟩
    · exact ⟨s, (hplace s e.1).mpr (by rw [if_neg heq, hs])⟩
  · rw [hplace] at hs
    split at hs
    next heq => exact heq ▸ h.alive p r hheld
    next => exact h.alive s r' hs
  · rw [hplace] at hs hs'
    split at hs
    next heq =>
      rw [if_pos heq] at hs'
      exact hs.trans hs'.symm
    next hother =>
      rw [if_neg hother] at hs'
      exact h.once s s' r' hs hs'

end Owned

end Haybarn.Lib
