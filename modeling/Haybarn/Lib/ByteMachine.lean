import Mathlib

/-!
# Machines that are fed bytes

A machine takes one byte after the other; each byte gives it a new state and some output, or
makes it fail. Fed a chunk of bytes it stops at the byte it fails at. What a machine makes of
its input does not depend on how the input is cut into chunks (`feed_append`).
-/

namespace Haybarn.Lib

/-- What a machine makes of some bytes. -/
structure Fed (S O : Type) where
  state : S
  output : List O
  ok : Bool
  deriving DecidableEq

structure ByteMachine (S O : Type) where
  init : S
  push : S → UInt8 → Fed S O

namespace ByteMachine

variable {S O : Type} (M : ByteMachine S O)

/-- Feed a chunk, up to the byte that fails. -/
def feed (s : S) : List UInt8 → Fed S O
  | [] => ⟨s, [], true⟩
  | b :: rest =>
    let pushed := M.push s b
    if pushed.ok then
      let fed := feed pushed.state rest
      ⟨fed.state, pushed.output ++ fed.output, fed.ok⟩
    else pushed

/-- Go on after a chunk that did not fail. -/
def goOn (fed : Fed S O) (bytes : List UInt8) : Fed S O :=
  let next := M.feed fed.state bytes
  ⟨next.state, fed.output ++ next.output, next.ok⟩

/-- **Two chunks are one.** -/
theorem feed_append (xs ys : List UInt8) : ∀ s : S, (M.feed s xs).ok = true →
    M.feed s (xs ++ ys) = M.goOn (M.feed s xs) ys := by
  induction xs with
  | nil =>
    intro s _
    rw [List.nil_append, goOn, feed]
    rfl
  | cons b rest ih =>
    intro s h
    rw [List.cons_append, feed, feed]
    rw [feed] at h
    dsimp only at h ⊢
    by_cases hb : (M.push s b).ok = true
    · rw [if_pos hb] at h ⊢
      rw [if_pos hb, ih _ h]
      simp only [goOn, List.append_assoc]
    · rw [if_neg hb] at h
      exact absurd h hb

/-- What the machine makes of an input from its start. -/
def run (bytes : List UInt8) : Fed S O := M.feed M.init bytes

theorem run_append (xs ys : List UInt8) (h : (M.run xs).ok = true) :
    M.run (xs ++ ys) = M.goOn (M.run xs) ys := M.feed_append xs ys _ h

end ByteMachine

end Haybarn.Lib
