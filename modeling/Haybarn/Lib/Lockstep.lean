import Mathlib

/-!
# Two machines in lockstep

A machine takes an input and answers it. Two machines that start in related states, stay related
and give equal answers cannot be told apart by any sequence of inputs (`outputs_eq`).
-/

namespace Haybarn.Lib

variable {S T I O : Type}

/-- The answers to a sequence of inputs. -/
def outputs (step : S → I → S × O) : S → List I → List O
  | _, [] => []
  | s, i :: is => (step s i).2 :: outputs step (step s i).1 is

/-- An input is answered alike, and leaves the states related. -/
structure Agrees (R : S → T → Prop) (x : S × O) (y : T × O) : Prop where
  states : R x.1 y.1
  answer : x.2 = y.2

theorem outputs_eq {R : S → T → Prop} {step : S → I → S × O} {step' : T → I → T × O}
    (hstep : ∀ s t i, R s t → Agrees R (step s i) (step' t i)) (is : List I) :
    ∀ {s : S} {t : T}, R s t → outputs step s is = outputs step' t is := by
  induction is with
  | nil => exact fun _ => rfl
  | cons i is ih =>
    intro s t h
    obtain ⟨hstates, hanswer⟩ := hstep s t i h
    rw [outputs, outputs, hanswer, ih hstates]

end Haybarn.Lib
