import Haybarn.Io.PageMoves
import Haybarn.Lib.Parties

/-!
# The latches of the page buffer

What the threads have latched is read off their places, so the latches do their work if
and only if no two places conflict. `Acquires` says of a step which latches it takes, and
that it finds them free; `Latched` follows for every run.
-/

namespace Haybarn.Io.PageBuffer

open Haybarn.Lib State

variable {Tid : Type} [DecidableEq Tid] {cfg : Config} {s s' : State Tid} {t : Tid}
  {act : Act Tid}

/-- The latches that the thread takes when it goes to `pc` are free. -/
structure Acquires (s : State Tid) (t : Tid) (pc : Place) (dir : Option Tid) : Prop where
  exclusiveFile : ∀ f, pc.exclusiveFile = some f →
    (s.place t).exclusiveFile = some f ∨ s.FileFree f
  sharedFiles : ∀ f ∈ pc.sharedFiles, f ∈ (s.place t).sharedFiles ∨ s.FileShareable f
  exclusiveFrame : ∀ g, pc.exclusiveFrame = some g →
    (s.place t).exclusiveFrame = some g ∨ s.FrameFree g ∨ s.pool.frames g = none
  sharedFrame : ∀ g, pc.sharedFrame = some g →
    (s.place t).sharedFrame = some g ∨ s.FrameShareable g
  directory : pc.inDirectory = true →
    dir = some t ∨ (dir = s.dir ∧ (s.place t).inDirectory = true)
  released : dir = s.dir ∨ s.dir = none ∨ (s.place t).inDirectory = true

omit [DecidableEq Tid] in
@[simp] theorem complete_place (c : Fix) (modified : Bool) :
    (s.complete c modified).place = s.place := by
  unfold State.complete
  split <;> rfl

/-- The thread that waited for a frame in state `NEW` goes on. -/
theorem acquires_lookAgain {c : Fix} (h : s.place t = .waitedNew c) (hd : s.dir = none) :
    ∃ pc, (s.lookAgain t c).place = Function.update s.place t pc ∧
      Acquires s t pc (s.lookAgain t c).dir := by
  unfold State.lookAgain
  split
  next =>
    exact ⟨s.place t, (Function.update_eq_self ..).symm, fun _ => .inl, fun _ => .inl,
      fun _ => .inl, fun _ => .inl, fun h => .inr ⟨rfl, h⟩, .inl rfl⟩
  next =>
    split
    next =>
      refine ⟨_, rfl, ?_⟩
      constructor <;> simp_all [State.go, Place.exclusiveFile, Place.sharedFiles,
        Place.exclusiveFrame, Place.sharedFrame, Place.inDirectory]
    next =>
      refine ⟨_, rfl, ?_⟩
      constructor <;> simp_all [State.go, Place.exclusiveFile, Place.sharedFiles,
        Place.exclusiveFrame, Place.sharedFrame, Place.inDirectory]

/-- **What a step acquires was free.** -/
theorem Move.acquires (h : Move cfg s t act s') :
    ∃ pc, s'.place = Function.update s.place t pc ∧ Acquires s t pc s'.dir := by
  have hstay : Acquires s t (s.place t) s.dir :=
    ⟨fun _ => .inl, fun _ => .inl, fun _ => .inl, fun _ => .inl, fun h => .inr ⟨rfl, h⟩, .inl rfl⟩
  cases h
  case stay => exact ⟨s.place t, (Function.update_eq_self ..).symm, hstay⟩
  case refused ho =>
    obtain ⟨-, -, rfl⟩ := ho
    exact ⟨s.place t, (Function.update_eq_self ..).symm, hstay⟩
  case givenUp c h hd hs => exact hs ▸ acquires_lookAgain h hd
  case openedNew ho _ =>
    obtain ⟨-, -, rfl⟩ := ho
    refine ⟨_, rfl, ?_⟩
    constructor <;> simp_all [State.go, State.own, Place.exclusiveFile, Place.sharedFiles,
      Place.exclusiveFrame, Place.sharedFrame, Place.inDirectory]
  case unfix =>
    refine ⟨_, by rw [State.go, complete_place], ?_⟩
    constructor <;> simp_all [State.go, Place.exclusiveFile, Place.sharedFiles,
      Place.exclusiveFrame, Place.sharedFrame, Place.inDirectory]
  case loaded c h hd =>
    -- the latch is kept, or given up to share it
    refine ⟨_, rfl, ?_⟩
    cases hx : c.exclusive <;> constructor <;> simp_all [State.go, Place.exclusiveFile,
      Place.sharedFiles, Place.exclusiveFrame, Place.sharedFrame, Place.inDirectory]
  case flushLatch k g h hl =>
    refine ⟨_, rfl, ?_⟩
    cases k <;> constructor <;> simp_all [State.goto, State.go, Place.exclusiveFile,
      Place.sharedFiles, Place.exclusiveFrame, Place.sharedFrame, Place.inDirectory]
  case write k g h hx =>
    refine ⟨_, rfl, ?_⟩
    cases k <;> constructor <;> simp_all [State.go, Place.exclusiveFile,
      Place.sharedFiles, Place.exclusiveFrame, Place.sharedFrame, Place.inDirectory]
  case noWrite k g h hx =>
    refine ⟨_, rfl, ?_⟩
    cases k <;> constructor <;> simp_all [State.goto, State.go, Place.exclusiveFile,
      Place.sharedFiles, Place.exclusiveFrame, Place.sharedFrame, Place.inDirectory]
  all_goals
    refine ⟨_, rfl, ?_⟩
    constructor <;> simp_all [State.go, State.goto, State.own, Place.exclusiveFile,
      Place.sharedFiles, Place.exclusiveFrame, Place.sharedFrame, Place.inDirectory]

end Haybarn.Io.PageBuffer
