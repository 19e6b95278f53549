import Mathlib

/-!
# Runs of an executable step function

A system is a partial step function `step : S → E → Option S`: the event says
who moves (and with which arguments a call is made), the function says what the
move does. `Run step ok s₀ es s` is a run from `s₀` to `s` over the events
`es`; `ok` is a condition on the state *before* each step, so that a theorem
about "the runs whose steps all meet a condition" is a theorem about `Run` with
that condition, and an unconditional theorem is one with `ok := Always`.

`Run.invariant` is the induction every safety proof uses; `Run.of_execute`
turns a schedule that the kernel can replay into a run, which is what the
concrete executions are stated with.
-/

namespace Haybarn.Lib

variable {S E : Type}

/-- The condition that restricts nothing. -/
def Always (_ : S) (_ : E) : Prop := True

instance (s : S) (e : E) : Decidable (Always s e) := inferInstanceAs (Decidable True)

/-- A run from `s₀`, extended one event at a time at its end. -/
inductive Run (step : S → E → Option S) (ok : S → E → Prop) (s₀ : S) : List E → S → Prop
  | nil : Run step ok s₀ [] s₀
  | snoc {es : List E} {s s' : S} {e : E} :
      Run step ok s₀ es s → ok s e → step s e = some s' → Run step ok s₀ (es ++ [e]) s'

variable {step : S → E → Option S} {ok ok' : S → E → Prop} {s₀ s s' : S} {es fs : List E}

namespace Run

/-- **The invariant rule**: what the start satisfies and every step preserves
holds at the end of every run. -/
theorem invariant {P : S → Prop} (h : Run step ok s₀ es s) (h0 : P s₀)
    (hstep : ∀ s e s', P s → ok s e → step s e = some s' → P s') : P s := by
  induction h with
  | nil => exact h0
  | snoc _ hok hs ih => exact hstep _ _ _ ih hok hs

/-- The invariant rule for a property of the state and of the events so far. -/
theorem invariant_trace {P : List E → S → Prop} (h : Run step ok s₀ es s) (h0 : P [] s₀)
    (hstep : ∀ es s e s', P es s → ok s e → step s e = some s' → P (es ++ [e]) s') :
    P es s := by
  induction h with
  | nil => exact h0
  | snoc _ hok hs ih => exact hstep _ _ _ _ ih hok hs

/-- A condition may be weakened. -/
theorem mono (h : Run step ok s₀ es s) (hok : ∀ s e, ok s e → ok' s e) :
    Run step ok' s₀ es s := by
  induction h with
  | nil => exact .nil
  | snoc _ ho hs ih => exact .snoc ih (hok _ _ ho) hs

/-- The events determine where a run ends. -/
theorem unique (h : Run step ok s₀ es s) (h' : Run step ok s₀ es s') : s = s' := by
  induction h generalizing s' with
  | nil =>
    generalize hes : ([] : List E) = fs at h'
    cases h' with
    | nil => rfl
    | snoc => exact absurd hes.symm (by simp)
  | @snoc fs t u e _ _ hs ih =>
    generalize hes : fs ++ [e] = gs at h'
    cases h' with
    | nil => exact absurd hes (by simp)
    | @snoc gs t' _ e' hr _ hs' =>
      obtain ⟨rfl, he⟩ := List.append_inj' hes rfl
      obtain rfl := List.singleton_inj.mp he
      obtain rfl := ih hr
      exact Option.some.inj (hs.symm.trans hs')

/-- Runs compose. -/
theorem trans (h : Run step ok s₀ es s) (h' : Run step ok s fs s') :
    Run step ok s₀ (es ++ fs) s' := by
  induction h' with
  | nil => simpa using h
  | snoc _ ho hs ih => rw [← List.append_assoc]; exact .snoc ih ho hs

end Run

/-- Replay a schedule, checking the condition before each step. -/
def execute (step : S → E → Option S) (ok : S → E → Prop) [∀ s e, Decidable (ok s e)] :
    S → List E → Option S
  | s, [] => some s
  | s, e :: es => if ok s e then (step s e).bind (execute step ok · es) else none

/-- A schedule that replays is a run. -/
theorem Run.of_execute [∀ s e, Decidable (ok s e)] :
    ∀ {es : List E} {s₀ s : S}, execute step ok s₀ es = some s → Run step ok s₀ es s
  | [], s₀, s, h => by
    rw [execute, Option.some.injEq] at h
    exact h ▸ .nil
  | e :: es, s₀, s, h => by
    rw [execute] at h
    split at h
    next hok =>
      obtain ⟨s₁, h1, h2⟩ := Option.bind_eq_some_iff.mp h
      have hfirst : Run step ok s₀ [e] s₁ := .snoc .nil hok h1
      exact hfirst.trans (Run.of_execute h2)
    next => cases h

/-- A replayed schedule reaches a state with any property the kernel can check
there. -/
theorem Run.exists_of_execute [∀ s e, Decidable (ok s e)] {es : List E} {s₀ : S} {p : S → Bool}
    (h : (execute step ok s₀ es).map p = some true) :
    ∃ s, Run step ok s₀ es s ∧ p s = true := by
  obtain ⟨s, hs, hp⟩ := Option.map_eq_some_iff.mp h
  exact ⟨s, .of_execute hs, hp⟩

end Haybarn.Lib
