import Haybarn.Io.PageInv

/-!
# The states of a frame

What a step does to the state of a frame, and who is involved: a frame is `LOADING` while
one thread loads it, becomes `EVICTING` when nobody uses it, and is `RELOADED` by whoever
fixes it then. So while a frame is `EVICTING`, no thread has fixed it or is about to.
-/

namespace Haybarn.Io.PageBuffer

open Haybarn.Lib State

/-- The thread has fixed the frame, or has only its latch to wait for. -/
def Place.fixes : Place → Nat → Prop
  | .latch c, g | .hold c _ _, g => c.frame = g
  | _, _ => False

/-- The thread loads the frame. -/
def Place.loads : Place → Nat → Prop
  | .read c, g | .loaded c, g => c.frame = g
  | _, _ => False

variable {Tid : Type} [DecidableEq Tid] {cfg : Config} {s s' : State Tid} {t : Tid}
  {act : Act Tid}

/-- What can happen to the state of a frame. -/
inductive StateChange (s s' : State Tid) (t : Tid) (g : Nat) : Prop
  | same (hs : s'.pool.stateOf g = s.pool.stateOf g)
      (hf : (s'.place t).fixes g → (s.place t).fixes g ∨ s.pool.stateOf g ≠ some .evicting)
      (hl : (s'.place t).loads g ↔ (s.place t).loads g)
  | claimed (hs : s'.pool.stateOf g = some .reloaded) (hold : s.pool.stateOf g = some .evicting)
      (hl : ¬ (s.place t).loads g)
  | evicting (hs : s'.pool.stateOf g = some .evicting) (hold : s.pool.stateOf g = some .loaded)
      (hu : s.pool.users g = 0) (hf : ¬ (s'.place t).fixes g) (hl : ¬ (s.place t).loads g)
  | kept (hs : s'.pool.stateOf g = (s.pool.stateOf g).map fun _ => .loaded)
      (hu : s.pool.users g = (s.place t).uses g) (hl : ¬ (s.place t).loads g)
  | loaded (hs : s'.pool.stateOf g = (s.pool.stateOf g).map fun _ => .loaded)
      (hx : (s.place t).exclusiveFrame = some g)
  | created (hs : s'.pool.stateOf g = some .loading) (hold : s.pool.stateOf g = none)
      (hl : (s'.place t).loads g)
  | gone (hs : s'.pool.stateOf g = none)

theorem Move.state (h : Move cfg s t act s') (v : View s t) (g : Nat) : StateChange s s' t g := by
  obtain ⟨hlinked, hok, huses, hlive, -, -⟩ := v
  cases h
  case stay => exact .same rfl .inl Iff.rfl
  case refused ho =>
    obtain ⟨-, -, rfl⟩ := ho
    exact .same rfl .inl Iff.rfl
  case openedNew h _ ho hP =>
    obtain ⟨-, -, rfl⟩ := ho
    refine .same (Pool.stateOf_congr (Pool.openNew_frames hP)) ?_ ?_ <;>
      simp [State.own, State.go, h, Place.fixes, Place.loads]
  case flushAllFiles order h _ _ =>
    refine .same (Pool.stateOf_congr (Pool.foldl_addRef_frames order)) ?_ ?_ <;>
      simp [State.go, h, Place.fixes, Place.loads]
  case dropDanglingFiles order h _ _ =>
    refine .same (Pool.stateOf_congr (Pool.foldl_addRef_frames order)) ?_ ?_ <;>
      simp [State.go, h, Place.fixes, Place.loads]
  case foundNew h _ _ =>
    refine .same Pool.stateOf_pin ?_ ?_ <;> simp [State.go, h, Place.fixes, Place.loads]
  case found c F h hF hnew =>
    by_cases hg : g = c.frame ∧ s.pool.stateOf c.frame = some .evicting
    · refine .claimed ?_ (hg.1 ▸ hg.2) (by simp [h, Place.loads])
      simp [State.go, hg.1, hg.2]
    · refine .same ?_ ?_ ?_
      · simp only [State.go, Pool.stateOf_moveToLru, Pool.stateOf_claim, if_neg hg]
      · simp only [State.go, Function.update_self, Place.fixes]
        rintro rfl
        exact .inr fun hs => hg ⟨rfl, hs⟩
      · simp [State.go, h, Place.loads]
  case givenUp h _ _ =>
    rw [h] at hok
    exact hok.elim
  case evictDirty c guard tryLock g' F h hF hu hs _ _ =>
    have hstate : (s.pool.modifyFrame g' .beginEviction).stateOf g =
        if g = g' then (s.pool.stateOf g').map fun _ => .evicting else s.pool.stateOf g :=
      Pool.stateOf_set fun _ => rfl
    have hold : s.pool.stateOf g' = some .loaded := by rw [Pool.stateOf, hF, Option.map_some, hs]
    by_cases hg : g = g'
    · subst hg
      refine .evicting ?_ hold ((Pool.users_of hF).trans hu) ?_ ?_
      · simp only [State.go, hstate, if_pos, hold, Option.map_some]
      · simp [State.go, Place.fixes]
      · simp [h, Place.loads]
    · refine .same ?_ ?_ ?_
      · simp only [State.go, hstate, if_neg hg]
      · simp [State.go, Place.fixes]
      · simp [State.go, h, Place.loads]
  case evictClean c guard tryLock g' F h hF hu hs _ _ =>
    by_cases hg : g = g'
    · exact .gone (by simp [State.go, hg])
    · refine .same ?_ ?_ ?_ <;> simp [State.go, h, Place.fixes, Place.loads, hg]
  case create c h hF =>
    rw [h] at hok hlive
    obtain ⟨file, hfile⟩ := Option.ne_none_iff_exists'.mp (hlive _ (List.mem_singleton_self _))
    have hstate := Pool.stateOf_insertFrame (P := s.pool) (g := c.frame) (x := g) cfg
      ((congrArg _ hok).trans hfile)
    by_cases hg : g = c.frame
    · refine .created ?_ ?_ ?_
      · simp only [State.go, hstate, if_pos hg]
      · rw [hg, Pool.stateOf, hF, Option.map_none]
      · simp [State.go, Place.loads, hg]
    · refine .same ?_ ?_ ?_
      · simp only [State.go, hstate, if_neg hg]
      · simp [State.go, Place.fixes]
      · simp [State.go, h, Place.loads, Ne.symm hg]
  case loaded c h _ =>
    have hstate : (s.pool.modifyFrame c.frame fun F => { F with state := .loaded, isDirty := false }
        ).stateOf g = if g = c.frame then (s.pool.stateOf c.frame).map fun _ => .loaded
          else s.pool.stateOf g := Pool.stateOf_set fun _ => rfl
    by_cases hg : g = c.frame
    · refine .loaded ?_ (by rw [h, hg]; rfl)
      exact hstate.trans (by rw [if_pos hg, hg])
    · refine .same ?_ ?_ ?_
      · simp only [State.go, hstate, if_neg hg]
      · cases c.exclusive <;> simp [State.go, Place.fixes, Ne.symm hg]
      · cases c.exclusive <;> simp [State.go, h, Place.loads, Ne.symm hg]
  case evictReloaded c g' P h _ hP hu =>
    subst hP
    have hle := huses g'
    have hstate : (((s.pool.modifyFrame g' .unpin).modifyFrame g' .unpin).modifyFrame g' fun F =>
        { F with state := .loaded }).stateOf g =
        if g = g' then
          (((s.pool.modifyFrame g' .unpin).modifyFrame g' .unpin).stateOf g').map fun _ => .loaded
        else ((s.pool.modifyFrame g' .unpin).modifyFrame g' .unpin).stateOf g :=
      Pool.stateOf_set fun _ => rfl
    simp only [Pool.stateOf_unpin] at hstate
    simp only [h, Place.uses, Flusher.uses, if_true, Pool.users_unpin] at hle hu
    by_cases hg : g = g'
    · refine .kept ?_ ?_ (by simp [h, Place.loads])
      · exact hstate.trans (by rw [if_pos hg, hg])
      · simp only [h, hg, Place.uses, Flusher.uses, if_true]
        omega
    · refine .same ?_ ?_ ?_
      · simp only [State.go, hstate, if_neg hg]
      · simp [State.go, Place.fixes]
      · simp [State.go, h, Place.loads]
  case evict c g' P h _ hP _ _ =>
    subst hP
    by_cases hg : g = g'
    · exact .gone (by simp [State.go, hg])
    · refine .same ?_ ?_ ?_ <;> simp [State.go, h, Place.fixes, Place.loads, hg]
  case releaseFlushed f k refs keep g' P h _ hP =>
    subst hP
    by_cases hg : g = g'
    · exact .gone (by simp [State.go, hg])
    · refine .same ?_ ?_ ?_ <;> simp [State.go, h, Place.fixes, Place.loads, hg]
  case releaseClean f k refs keep g' h _ _ =>
    by_cases hg : g = g'
    · exact .gone (by simp [State.go, hg])
    · refine .same ?_ ?_ ?_ <;> simp [State.go, h, Place.fixes, Place.loads, hg]
  case releaseErase f refs keep h _ =>
    refine .same (Pool.stateOf_congr Pool.eraseFile_frames) ?_ ?_ <;>
      simp [State.go, h, Place.fixes, Place.loads]
  case latchShared h _ _ =>
    refine .same rfl (fun hf => .inl ?_) ?_
    · simpa [State.goto, State.go, h, Place.fixes] using hf
    · simp [State.goto, State.go, h, Place.loads]
  case latchExclusive h _ _ =>
    refine .same rfl (fun hf => .inl ?_) ?_
    · simpa [State.goto, State.go, h, Place.fixes] using hf
    · simp [State.goto, State.go, h, Place.loads]
  case modify h _ _ =>
    refine .same (Pool.stateOf_keep fun _ => rfl) (fun hf => .inl ?_) ?_
    · simpa [State.go, h, Place.fixes] using hf
    · simp [State.go, h, Place.loads]
  case mark h =>
    refine .same (Pool.stateOf_keep fun _ => rfl) (fun hf => .inl ?_) ?_
    · simpa [State.go, h, Place.fixes] using hf
    · simp [State.go, h, Place.loads]
  all_goals
    refine .same ?_ ?_ ?_ <;>
      simp [State.go, State.goto, State.own, *, Place.fixes, Place.loads, Pool.stateOf_keep]

end Haybarn.Io.PageBuffer
