import Mathlib

/-!
# Sequential programs that keep a log

`Prog σ ω ε α` is a program over a state `σ` that returns an `α` or stops with an
`ε`, and on the way logs what it does as entries `ω`. The log is what a proof
compares when it has to say *how* a program got its result; `run` forgets it.

Two notions relate programs. Equality is lockstep: same result, same state, same
log. `Refines excused a b` is what a second implementation `b` owes to a
reference `a`: the same result and the same state from every state, unless the
reference stops there for an excused reason. It is closed under sequencing and
branching, so a refinement proof follows the text of the two programs.
-/

namespace Haybarn.Lib

/-- A program over `σ` with log entries `ω` and reasons to stop `ε`. -/
def Prog (σ ω ε α : Type) := σ → Except ε α × σ × List ω

variable {σ ω ε α β : Type}

namespace Prog

/-- Give back the value and do nothing. -/
protected def pure (a : α) : Prog σ ω ε α := fun s => (.ok a, s, [])

/-- One program after the other; a stop skips the rest. -/
protected def bind (x : Prog σ ω ε α) (f : α → Prog σ ω ε β) : Prog σ ω ε β := fun s =>
  match x s with
  | (.ok a, s', l) => ((f a s').1, (f a s').2.1, l ++ (f a s').2.2)
  | (.error e, s', l) => (.error e, s', l)

instance : Monad (Prog σ ω ε) where
  pure := Prog.pure
  bind := Prog.bind

/-- Stop at once. -/
def stop (e : ε) : Prog σ ω ε α := fun s => (.error e, s, [])

/-- Run the program if the test holds. -/
def onlyIf (b : Bool) (x : Prog σ ω ε Unit) : Prog σ ω ε Unit := if b then x else pure ()

/-- The result and the state afterwards. -/
def run (x : Prog σ ω ε α) (s : σ) : Except ε α × σ := ((x s).1, (x s).2.1)

/-- The log of a run. -/
def log (x : Prog σ ω ε α) (s : σ) : List ω := (x s).2.2

variable {x y : Prog σ ω ε α} {f g : α → Prog σ ω ε β} {s s' : σ} {a : α} {e : ε} {l : List ω}

@[simp] theorem pure_apply : (pure a : Prog σ ω ε α) s = (.ok a, s, []) := rfl

/-- After a program that returns, the next one goes on from its state. -/
theorem bind_ok (h : x s = (.ok a, s', l)) :
    (x >>= f) s = ((f a s').1, (f a s').2.1, l ++ (f a s').2.2) := by
  show Prog.bind x f s = _
  unfold Prog.bind
  rw [h]

/-- After a program that stops, nothing happens. -/
theorem bind_error (h : x s = (.error e, s', l)) : (x >>= f) s = (.error e, s', l) := by
  show Prog.bind x f s = _
  unfold Prog.bind
  rw [h]

theorem run_bind_ok (h : x.run s = (.ok a, s')) : (x >>= f).run s = (f a).run s' := by
  rcases hx : x s with ⟨_ | b, t, l⟩
  · rw [run, hx] at h
    cases h
  · rw [run, hx] at h
    cases h
    rw [run, bind_ok hx, run]

theorem run_bind_error (h : x.run s = (.error e, s')) : (x >>= f).run s = (.error e, s') := by
  rcases hx : x s with ⟨_ | b, t, l⟩
  · rw [run, hx] at h
    cases h
    rw [run, bind_error hx]
  · rw [run, hx] at h
    cases h

theorem run_bind_throws (h : (x.run s).1 = .error e) : ((x >>= f).run s).1 = .error e := by
  rcases hx : x.run s with ⟨_ | a, s'⟩
  · rw [hx] at h
    cases h
    rw [run_bind_error hx]
  · rw [hx] at h
    cases h

/-- A sequence that returns went through an intermediate state. -/
theorem run_bind_eq_ok {b : β} {t : σ} (h : (x >>= f).run s = (.ok b, t)) :
    ∃ a s', x.run s = (.ok a, s') ∧ (f a).run s' = (.ok b, t) := by
  rcases hx : x.run s with ⟨_ | a, s'⟩
  · rw [run_bind_error hx] at h
    cases h
  · exact ⟨a, s', rfl, run_bind_ok hx ▸ h⟩

@[simp] theorem run_onlyIf_false {x : Prog σ ω ε Unit} :
    (onlyIf false x).run s = (.ok (), s) := rfl

@[simp] theorem run_pure : (pure a : Prog σ ω ε α).run s = (.ok a, s) := rfl

instance : LawfulMonad (Prog σ ω ε) := LawfulMonad.mk' _
  (fun x => by
    funext s
    rcases h : x s with ⟨_ | a, s', l⟩
    · exact bind_error h
    · show (x >>= fun a => pure a) s = _
      rw [bind_ok h, pure_apply, List.append_nil])
  (fun a f => by
    funext s
    rw [bind_ok (pure_apply (a := a)), List.nil_append])
  (fun x f g => by
    funext s
    rcases h : x s with ⟨_ | a, s', l⟩
    · rw [bind_error h, bind_error (bind_error h)]
    · rw [bind_ok h]
      rcases h' : f a s' with ⟨e | b, t, l'⟩
      · have hxf : (x >>= f) s = (.error e, t, l ++ l') := by rw [bind_ok h, h']
        rw [bind_error hxf, bind_error h']
      · have hxf : (x >>= f) s = (.ok b, t, l ++ l') := by rw [bind_ok h, h']
        rw [bind_ok hxf, bind_ok h', List.append_assoc])

/-- First parts that do the same, followed by the same. -/
theorem bind_eq (h : x s = y s) : (x >>= f) s = (y >>= f) s := by
  show Prog.bind x f s = Prog.bind y f s
  unfold Prog.bind
  rw [h]

/-- Behind a common first part, logs are compared from where it ends. -/
theorem log_bind_inj (h : x s = (.ok a, s', l)) :
    (x >>= f).log s = (x >>= g).log s ↔ (f a).log s' = (g a).log s' := by
  unfold log
  rw [bind_ok h, bind_ok h]
  exact List.append_right_inj l

/-- The log of the first part comes first. -/
theorem log_bind_head? {w : ω} (h : (x.log s).head? = some w) :
    ((x >>= f).log s).head? = some w := by
  unfold log at h ⊢
  rcases hx : x s with ⟨_ | a, s', l⟩
  · rw [hx] at h
    rw [bind_error hx]
    exact h
  · rw [hx] at h
    rw [bind_ok hx, List.head?_append, h]
    rfl

/-! ## Refinement -/

/-- **`y` does what `x` does**, from every state where `x` does not stop for an
excused reason. -/
def Refines (excused : ε → Prop) (x y : Prog σ ω ε α) : Prop :=
  ∀ s, (∀ e, (x.run s).1 = .error e → ¬ excused e) → y.run s = x.run s

namespace Refines

variable {excused : ε → Prop}

theorem refl (x : Prog σ ω ε α) : Refines excused x x := fun _ _ => rfl

/-- A program that can only stop for an excused reason, or does the same. -/
theorem of_run (h : ∀ s, (∃ e, (x.run s).1 = .error e ∧ excused e) ∨ y.run s = x.run s) :
    Refines excused x y := by
  intro s hs
  rcases h s with ⟨e, he, hx⟩ | h
  · exact absurd hx (hs e he)
  · exact h

/-- **Sequencing**: refining both parts refines the whole. -/
theorem bind (hx : Refines excused x y) (hf : ∀ a, Refines excused (f a) (g a)) :
    Refines excused (x >>= f) (y >>= g) := by
  intro s hs
  rcases h : x.run s with ⟨e | a, s'⟩
  · have hy : y.run s = (.error e, s') := by
      rw [hx s, h]
      intro e' he'
      rw [h] at he'
      cases he'
      exact hs e (by rw [run_bind_error h])
    rw [run_bind_error h, run_bind_error hy]
  · have hy : y.run s = (.ok a, s') := by
      rw [hx s, h]
      intro e' he'
      rw [h] at he'
      cases he'
    rw [run_bind_ok h] at hs ⊢
    rw [run_bind_ok hy]
    exact hf a s' hs

/-- A common first part. -/
theorem bind_left (x : Prog σ ω ε α) (hf : ∀ a, Refines excused (f a) (g a)) :
    Refines excused (x >>= f) (x >>= g) := (refl x).bind hf

theorem ite {p : Prop} [Decidable p] {x' y' : Prog σ ω ε α} (h : p → Refines excused x y)
    (h' : ¬ p → Refines excused x' y') :
    Refines excused (if p then x else x') (if p then y else y') := by
  by_cases hp : p
  · rw [if_pos hp, if_pos hp]
    exact h hp
  · rw [if_neg hp, if_neg hp]
    exact h' hp

theorem onlyIf {b : Bool} {x y : Prog σ ω ε Unit} (h : Refines excused x y) :
    Refines excused (Prog.onlyIf b x) (Prog.onlyIf b y) := ite (fun _ => h) fun _ => refl _

end Refines

end Prog

end Haybarn.Lib
