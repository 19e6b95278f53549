import Haybarn.Io.PageRun

/-!
# Unused frames stay evictable

A frame that nobody uses is one that `EvictAnyBufferFrame` can take: it is loaded, and it is in one
of the queues. Only the eviction loop itself takes a loaded frame out of that state, and it puts it
back or erases the frame when it has flushed it, unless the frame has other users by then: it goes
on without setting the state, and nobody else ever does.

So the property is about the runs in which the loop never finds such a user (`Unclaimed`). That it
fails otherwise is shown by a page that is fixed again while it is written back.
-/

namespace Haybarn.Io.PageBuffer

open Haybarn.Lib State

/-- `EvictAnyBufferFrame` has the frame and is flushing it. -/
def Place.evicts : Place → Nat → Prop
  | .flushLatch (.evict _) g', g | .flushWrite (.evict _) g', g | .flushed (.evict _) g', g =>
    g' = g
  | _, _ => False

/-- A frame of which an eviction has begun and not ended. -/
def Pool.InEviction (P : Pool) (g : Nat) : Prop :=
  P.stateOf g = some .evicting ∨ P.stateOf g = some .reloaded

/-- The eviction loop can select the frame, from a queue it goes through. -/
def Pool.Selectable (P : Pool) (g : Nat) : Prop :=
  P.evictable g = true ∧ g ∈ P.fifo.values ++ P.lru.values

def Place.isIdle : Place → Bool
  | .idle => true
  | _ => false

/-- The frame that a thread is about to find flushed in the eviction loop. -/
def Place.evicted : Place → Option Nat
  | .flushed (.evict _) g => some g
  | _ => none

/-- The users that the loop finds when it has flushed a frame are its own two: nobody has fixed
the frame in the meantime, or is flushing it. -/
def Unclaimed {Tid : Type} (s : State Tid) (e : Tid × Act Tid) : Prop :=
  match (s.place e.1).evicted with
  | some g => s.pool.users g = 2
  | none => True

instance {Tid : Type} (s : State Tid) (e : Tid × Act Tid) : Decidable (Unclaimed s e) :=
  match h : (s.place e.1).evicted with
  | some g => decidable_of_iff (s.pool.users g = 2) (by rw [Unclaimed, h])
  | none => isTrue (by rw [Unclaimed, h]; trivial)

variable {Tid : Type} [DecidableEq Tid] {cfg : Config} {s s' : State Tid} {t : Tid}
  {act : Act Tid}

/-! ## One step -/

/-- A thread that evicts a frame goes on, or is done with it. -/
theorem Move.evicts (h : Move cfg s t act s') (halone : Unclaimed s (t, act)) {g : Nat}
    (hv : (s.place t).evicts g) : (s'.place t).evicts g ∨ ¬ s'.pool.InEviction g := by
  cases h
  case stay => exact .inl hv
  case flushLatch k g' h _ =>
    left
    rw [h] at hv
    cases k <;> simp [State.goto, State.go, Place.evicts] at hv ⊢
    exact hv
  case write k g' h _ =>
    left
    rw [h] at hv
    cases k <;> simp [State.go, Place.evicts] at hv ⊢
    exact hv
  case noWrite k g' h _ =>
    left
    rw [h] at hv
    cases k <;> simp [State.goto, State.go, Place.evicts] at hv ⊢
    exact hv
  case evictUsed c g' P h _ hP hu =>
    subst hP
    have htwo : s.pool.users g' = 2 := by
      rw [Unclaimed, h] at halone
      exact halone
    simp only [Pool.users_unpin, if_true] at hu
    omega
  case evict c g' P h _ hP _ _ =>
    right
    rw [h] at hv
    simp [State.go, Pool.InEviction, show g' = g from hv]
  case evictReloaded c g' P h _ hP _ =>
    right
    rw [h] at hv
    have hg : g' = g := hv
    have hstate : (P.modifyFrame g' fun F => { F with state := .loaded }).stateOf g
        = if g = g' then (P.stateOf g').map fun _ => .loaded else P.stateOf g :=
      Pool.stateOf_set fun _ => rfl
    rw [if_pos hg.symm] at hstate
    simp only [State.go, Pool.InEviction, hstate]
    cases P.stateOf g' <;> simp
  all_goals simp [*, Place.evicts] at hv

/-- An eviction begins with the thread that evicts. -/
theorem Move.begins_eviction (h : Move cfg s t act s') (v : View s t) {g : Nat}
    (hold : s.pool.stateOf g = some .loaded) (hnew : s'.pool.stateOf g = some .evicting) :
    (s'.place t).evicts g := by
  obtain ⟨hlinked, hok, huses, hlive, -, -⟩ := v
  have hsame : s'.pool.stateOf g = s.pool.stateOf g → (s'.place t).evicts g :=
    fun hs => by cases hold.symm.trans (hs.symm.trans hnew)
  cases h
  case stay => exact hsame rfl
  case refused ho =>
    obtain ⟨-, -, rfl⟩ := ho
    exact hsame rfl
  case openedNew hP => exact hsame (Pool.stateOf_congr (Pool.openNew_frames hP))
  case flushAllFiles order _ _ _ =>
    exact hsame (Pool.stateOf_congr (Pool.foldl_addRef_frames order))
  case dropDanglingFiles order _ _ _ =>
    exact hsame (Pool.stateOf_congr (Pool.foldl_addRef_frames order))
  case givenUp h _ _ =>
    rw [h] at hok
    exact hok.elim
  case evictDirty c guard tryLock g' F h hF hu hs _ _ =>
    have hstate : (s.pool.modifyFrame g' .beginEviction).stateOf g =
        if g = g' then (s.pool.stateOf g').map fun _ => .evicting else s.pool.stateOf g :=
      Pool.stateOf_set fun _ => rfl
    by_cases hg : g = g'
    · simp [State.go, Place.evicts, hg]
    · exact hsame (hstate.trans (if_neg hg))
  case found c F h hF _ =>
    have hstate := Pool.stateOf_claim (P := s.pool) (g := c.frame) (x := g)
    have hclaim : ¬ (g = c.frame ∧ s.pool.stateOf c.frame = some .evicting) := by
      intro hboth
      obtain ⟨rfl, hs⟩ := hboth
      cases hold.symm.trans hs
    exact hsame (Pool.stateOf_moveToLru.trans (hstate.trans (if_neg hclaim)))
  case releaseErase => exact hsame (Pool.stateOf_congr Pool.eraseFile_frames)
  case create c h hF =>
    rw [h] at hok hlive
    obtain ⟨file, hfile⟩ := Option.ne_none_iff_exists'.mp (hlive _ (List.mem_singleton_self _))
    have hstate := Pool.stateOf_insertFrame (P := s.pool) (g := c.frame) (x := g) cfg
      ((congrArg _ hok).trans hfile)
    by_cases hg : g = c.frame
    · cases hnew.symm.trans (hstate.trans (if_pos hg))
    · exact hsame (hstate.trans (if_neg hg))
  case loaded c h _ =>
    have hstate : (s.pool.modifyFrame c.frame fun F => { F with state := .loaded, isDirty := false }
        ).stateOf g = if g = c.frame then (s.pool.stateOf c.frame).map fun _ => .loaded
          else s.pool.stateOf g := Pool.stateOf_set fun _ => rfl
    by_cases hg : g = c.frame
    · subst hg
      rw [if_pos rfl, hold] at hstate
      cases hnew.symm.trans hstate
    · exact hsame (hstate.trans (if_neg hg))
  case evictReloaded c g' P h _ hP _ =>
    have hstate : (P.modifyFrame g' fun F => { F with state := .loaded }).stateOf g
        = if g = g' then (P.stateOf g').map fun _ => .loaded else P.stateOf g :=
      Pool.stateOf_set fun _ => rfl
    subst hP
    simp only [Pool.stateOf_unpin] at hstate
    by_cases hg : g = g'
    · subst hg
      rw [if_pos rfl, hold] at hstate
      cases hnew.symm.trans hstate
    · exact hsame (hstate.trans (if_neg hg))
  all_goals
    simp [State.go, State.goto, State.own, *, Pool.stateOf_keep] at hnew

/-! ## Runs -/

variable [Fintype Tid]

/-- A frame in eviction is in the hands of a thread that evicts it. -/
theorem evictor_step (h : Inv s) (hm : Move cfg s t act s') (halone : Unclaimed s (t, act))
    (hinv : ∀ g, s.pool.InEviction g → ∃ q, (s.place q).evicts g) (g : Nat)
    (hg : s'.pool.InEviction g) : ∃ q, (s'.place q).evicts g := by
  obtain ⟨pc, hplace, -⟩ := hm.acquires
  have hold : s.pool.InEviction g → ∃ q, (s'.place q).evicts g := by
    intro hin
    obtain ⟨q, hq⟩ := hinv g hin
    by_cases hqt : q = t
    · subst hqt
      rcases hm.evicts halone hq with hgoes | hdone
      · exact ⟨q, hgoes⟩
      · exact absurd hg hdone
    · exact ⟨q, by rw [hplace, Function.update_of_ne hqt]; exact hq⟩
  cases hm.state (h.view t) g with
  | same hs _ _ => exact hold (by rwa [Pool.InEviction, ← hs])
  | claimed _ hs _ => exact hold (.inl hs)
  | evicting hs hloaded _ _ _ => exact ⟨t, hm.begins_eviction (h.view t) hloaded hs⟩
  | kept hs _ _ =>
    unfold Pool.InEviction at hg
    rw [hs] at hg
    cases hst : s.pool.stateOf g <;> simp [hst] at hg
  | loaded hs _ =>
    unfold Pool.InEviction at hg
    rw [hs] at hg
    cases hst : s.pool.stateOf g <;> simp [hst] at hg
  | created hs _ _ =>
    unfold Pool.InEviction at hg
    simp [hs] at hg
  | gone hs =>
    unfold Pool.InEviction at hg
    simp [hs] at hg

theorem Place.uses_of_evicts {pc : Place} {g : Nat} (h : pc.evicts g) : 0 < pc.uses g := by
  unfold Place.evicts at h
  split at h
  · subst h
    simp [Place.uses, Flusher.uses]
  · subst h
    simp [Place.uses, Flusher.uses]
  · subst h
    simp [Place.uses, Flusher.uses]
  · exact h.elim

theorem Place.uses_of_loads {pc : Place} {g : Nat} (h : pc.loads g) : 0 < pc.uses g := by
  cases pc
  case read c =>
    obtain rfl : c.frame = g := h
    simp [Place.uses]
  case loaded c =>
    obtain rfl : c.frame = g := h
    simp [Place.uses]
  all_goals exact h.elim

omit [DecidableEq Tid] in
/-- Every state but `LOADED` is the work of a thread that uses the frame. -/
theorem selectable_of_unused (h : Inv s)
    (hev : ∀ g, s.pool.InEviction g → ∃ q, (s.place q).evicts g) {g : Nat} {F : Frame}
    (hF : s.pool.frames g = some F) (hu : F.numUsers = 0) : s.pool.Selectable g := by
  have hstate : s.pool.stateOf g = some F.state := by rw [Pool.stateOf, hF, Option.map_some]
  have hunused : ∀ q, ¬ 0 < (s.place q).uses g := by
    intro q hpos
    have hle := h.uses_le q g
    rw [Pool.users_of hF, hu] at hle
    omega
  have hloaded : F.state = .loaded := by
    cases hs : F.state with
    | new => exact absurd (hstate.trans (congrArg some hs)) (h.fresh g)
    | loading =>
      obtain ⟨q, hq⟩ := h.loading g (hstate.trans (congrArg some hs))
      exact absurd (Place.uses_of_loads hq) (hunused q)
    | loaded => rfl
    | evicting =>
      obtain ⟨q, hq⟩ := hev g (.inl (hstate.trans (congrArg some hs)))
      exact absurd (Place.uses_of_evicts hq) (hunused q)
    | reloaded =>
      obtain ⟨q, hq⟩ := hev g (.inr (hstate.trans (congrArg some hs)))
      exact absurd (Place.uses_of_evicts hq) (hunused q)
  refine ⟨?_, ?_⟩
  · simp [Pool.evictable, hF, hu, hloaded]
  · rw [List.mem_append]
    rcases h.linked.represents.frame hF with ⟨_, -, -, -, hcount, -⟩ | ⟨_, -, -, -, hcount, -⟩
    · exact .inl (List.count_pos_iff.mp (by omega))
    · exact .inr (List.count_pos_iff.mp (by omega))

omit [Fintype Tid] [DecidableEq Tid] in
/-- What a selectable frame is for: the loop finds a frame if it gets the lock of its file. -/
theorem Pool.Selectable.victim {P : Pool} {g : Nat} (h : P.Selectable g) {tryLock : Nat → Bool}
    (hl : tryLock (GetFileID g) = true) : P.victim tryLock ≠ none := by
  intro hnone
  have hfound := List.find?_eq_none.mp hnone g h.2
  simp [h.1, hl] at hfound

/-- **Unused frames stay evictable**: in every run of any threads in which the eviction loop finds
each frame that it has flushed with no users but its own, a frame without users is one that the
loop can select. -/
theorem unused_frame_selectable (disk : String → List UInt8) (es : List (Tid × Act Tid))
    (s : State Tid) (h : Run (step cfg) Unclaimed (.initial cfg disk) es s) (g : Nat) (F : Frame)
    (hF : s.pool.frames g = some F) (hu : F.numUsers = 0) : s.pool.Selectable g := by
  have hinv : Inv s ∧ ∀ g, s.pool.InEviction g → ∃ q, (s.place q).evicts g := by
    refine h.invariant (P := fun s => Inv s ∧ ∀ g, s.pool.InEviction g →
      ∃ q, (s.place q).evicts g) ⟨Inv.initial disk, ?_⟩ ?_
    · intro g hg
      rcases hg with hg | hg <;> cases hg
    · intro s e s' hinv halone hs
      have hm := step_move hs
      exact ⟨hinv.1.step hm, evictor_step hinv.1 hm halone hinv.2⟩
  exact selectable_of_unused hinv.1 hinv.2 hF hu

section

private def oneFrame : Config := { pageSizeBits := 1, pageCapacity := 1 }

private def fourBytes : String → List UInt8 := fun _ => [1, 2, 3, 4]

private def openForBoth : FileFlags :=
  { forReading := true, forWriting := true, forAppending := false, createNew := false,
    lock := .none }

/-- The first thread modifies a page; the second one fixes another page, for which the first one
is to be evicted and written back. -/
private def beginEviction : List (Fin 2 × Act (Fin 2)) :=
  [(firstThread, .openFile "f" openForBoth (some [1, 2, 3, 4])),
    (firstThread, .fixPage firstThread 0 0 true), (firstThread, .go), (firstThread, .go),
    (firstThread, .go), (firstThread, .go), (firstThread, .load [0, 0]), (firstThread, .go),
    (firstThread, .modify 0 [9]), (firstThread, .markAsDirty), (firstThread, .unfix),
    (secondThread, .fixPage firstThread 0 1 false), (secondThread, .go), (secondThread, .go),
    (secondThread, .go), (secondThread, .scan fun _ => true)]

private def endEviction : List (Fin 2 × Act (Fin 2)) :=
  [(secondThread, .go), (secondThread, .go), (secondThread, .go), (secondThread, .go),
    (secondThread, .go), (secondThread, .load [9, 2]), (secondThread, .go), (secondThread, .go),
    (secondThread, .unfix)]

theorem unused_frame_selectable_evicted :
    ∃ s : State (Fin 2), Run (step oneFrame) Unclaimed (.initial oneFrame fourBytes)
        (beginEviction ++ endEviction) s
      ∧ s.pool.frames (BuildFrameID 0 0) = none ∧ s.pool.Selectable (BuildFrameID 0 1) := by
  obtain ⟨s, hrun, hp⟩ := Run.exists_of_execute (show (execute (step oneFrame) Unclaimed
    (.initial oneFrame fourBytes) (beginEviction ++ endEviction)).map (fun s =>
      decide ((s.pool.frames (BuildFrameID 0 0)).isNone = true
        ∧ (s.pool.frames (BuildFrameID 0 1)).map Frame.numUsers = some 0)) = some true
    by decide +kernel)
  obtain ⟨hnone, hsome⟩ := of_decide_eq_true hp
  obtain ⟨F, hF, hu⟩ := Option.map_eq_some_iff.mp hsome
  exact ⟨s, hrun, Option.isNone_iff_eq_none.mp hnone,
    unused_frame_selectable fourBytes _ s hrun _ F hF hu⟩

/-- The first thread fixes its page again before it is written back. -/
private def fixAgain : List (Fin 2 × Act (Fin 2)) :=
  [(firstThread, .fixPage firstThread 0 0 false), (firstThread, .go), (firstThread, .go),
    (firstThread, .go)]

private def foundInUse : List (Fin 2 × Act (Fin 2)) :=
  [(secondThread, .go), (secondThread, .go), (secondThread, .go),
    (secondThread, .scan fun _ => true), (secondThread, .go), (secondThread, .load [0, 0]),
    (secondThread, .go), (secondThread, .go), (secondThread, .unfix), (firstThread, .unfix)]

/-- All threads have returned, nobody uses the page, and it can not be evicted. -/
theorem reloaded_frame_not_selectable :
    ¬ ∀ (cfg : Config) (disk : String → List UInt8) (es : List (Fin 2 × Act (Fin 2)))
        (s : State (Fin 2)), Run (step cfg) Always (.initial cfg disk) es s →
      (∀ t, (s.place t).isIdle = true) → ∀ g F, s.pool.frames g = some F → F.numUsers = 0 →
        s.pool.Selectable g := by
  intro h
  obtain ⟨s, hrun, hp⟩ := Run.exists_of_execute (show (execute (step oneFrame) Always
    (.initial oneFrame fourBytes) (beginEviction ++ fixAgain ++ foundInUse)).map (fun s =>
      decide ((∀ t, (s.place t).isIdle = true)
        ∧ (s.pool.frames (BuildFrameID 0 0)).map Frame.numUsers = some 0
        ∧ s.pool.evictable (BuildFrameID 0 0) = false)) = some true
    by decide +kernel)
  obtain ⟨hidle, hsome, hstuck⟩ := of_decide_eq_true hp
  obtain ⟨F, hF, hu⟩ := Option.map_eq_some_iff.mp hsome
  have hselectable := h oneFrame fourBytes _ s hrun hidle _ F hF hu
  rw [Pool.Selectable, hstuck] at hselectable
  exact absurd hselectable.1 (by decide)

end

end Haybarn.Io.PageBuffer
