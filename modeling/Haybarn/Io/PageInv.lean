import Haybarn.Io.PageLatches
import Haybarn.Io.PageOps

/-!
# The invariant of the page buffer

Between the latch acquisitions of many threads the structures of the page buffer agree
(`Linked`), the latches exclude (`Exclusion`), the reference counts of frames and files are
the numbers of references that the threads have, and each thread finds what its place
promises (`Place.Ok`): the iterator of a flush still points at the frame it flushes, a
file that is released has lost the frames visited so far, nobody ever waits for a frame in
state `NEW`.
-/

namespace Haybarn.Io.PageBuffer

open Haybarn.Lib State

/-! ## What the threads have -/

/-- The users of a frame that a call of `FlushFrame` counts for. -/
def Flusher.uses : Flusher → Nat
  | .evict _ => 2
  | _ => 1

/-- The users of a frame that the thread counts for. -/
def Place.uses : Place → Nat → Nat
  | .waitNew c, g | .waitedNew c, g | .read c, g | .loaded c, g | .latch c, g
  | .hold c _ _, g => if g = c.frame then 1 else 0
  | .flushLatch k g', g | .flushWrite k g', g | .flushed k g', g => if g = g' then k.uses else 0
  | _, _ => 0

/-- The references that the thread has in hand. -/
def Place.refs : Place → List Nat
  | .flushLatch (.flush _ _ _ refs) _ | .flushWrite (.flush _ _ _ refs) _
  | .flushed (.flush _ _ _ refs) _ | .flushAll _ refs | .flushLocked _ _ refs
  | .flushIter _ _ _ refs | .releaseAll refs _ => refs
  | .flushLatch (.release f _ refs _) _ | .flushWrite (.release f _ refs _) _
  | .flushed (.release f _ refs _) _ | .releaseWait f refs _ | .releaseLocked f refs _
  | .releaseIter f _ refs _ => f :: refs
  | .reopen f => [f]
  | _ => []

/-- What a call of `FlushFrame` for the frame `g` relies on. -/
def Flusher.Ok (P : Pool) (g : Nat) : Flusher → Prop
  | .evict c => GetFileID c.frame = c.file
  | .flush f k fs refs => GetFileID g = f ∧ P.position g = some k ∧ fs ⊆ refs
  | .release f k _ _ => GetFileID g = f ∧ P.position g = some k ∧ P.beginFrames f = some k

/-- What a thread relies on where it is. -/
def Place.Ok (P : Pool) : Place → Prop
  | .fix c | .look c | .allocate c | .scan c _ | .create c | .latch c | .hold c _ _ =>
    GetFileID c.frame = c.file
  | .waitNew _ | .waitedNew _ => False
  | .read c | .loaded c => GetFileID c.frame = c.file ∧ P.stateOf c.frame = some .loading
  | .flushLatch k g | .flushWrite k g | .flushed k g => k.Ok P g
  | .flushAll fs refs | .flushLocked _ fs refs => fs ⊆ refs
  | .flushIter f k fs refs => fs ⊆ refs ∧ ∀ j, k = some j → ∃ g, P.frameAt f j = some g
  | .releaseIter f k _ _ => P.beginFrames f = k
  | _ => True

variable {Tid : Type} [DecidableEq Tid] {cfg : Config} {s s' : State Tid} {t : Tid}
  {act : Act Tid}

/-- What the thread that moves knows. -/
structure View (s : State Tid) (t : Tid) : Prop where
  linked : Linked s.pool
  ok : (s.place t).Ok s.pool
  uses : ∀ g, (s.place t).uses g ≤ s.pool.users g
  live : ∀ f ∈ (s.place t).sharedFiles, s.pool.files f ≠ none
  refs : ∀ f, (s.place t).refs.count f + (s.held t).count f ≤ s.pool.references f
  alone : ∀ g, (s.place t).exclusiveFile = some (GetFileID g) →
    s.pool.users g = (s.place t).uses g

/-- **The users of a frame** change as the mover's uses do. -/
theorem Move.users (h : Move cfg s t act s') (v : View s t) (g : Nat) :
    s'.pool.users g + (s.place t).uses g = s.pool.users g + (s'.place t).uses g := by
  obtain ⟨hlinked, hok, huses, hlive, -, halone⟩ := v
  cases h
  case stay => rfl
  case refused ho =>
    obtain ⟨-, -, rfl⟩ := ho
    rfl
  case openedNew h _ ho hP =>
    obtain ⟨-, -, rfl⟩ := ho
    simp [State.go, State.own, h, Place.uses, Pool.users_congr (Pool.openNew_frames hP)]
  case givenUp h _ _ =>
    rw [h] at hok
    exact hok.elim
  case foundNew h hF _ =>
    simp [State.go, h, Place.uses, Pool.users_pin (Option.ne_none_iff_exists'.mpr ⟨_, hF⟩)]
  case found h hF _ =>
    simp [State.go, h, Place.uses, Pool.users_claim (Option.ne_none_iff_exists'.mpr ⟨_, hF⟩)]
  case evictDirty h hF _ _ _ _ =>
    simp [State.go, h, Place.uses, Flusher.uses,
      Pool.users_beginEviction (Option.ne_none_iff_exists'.mpr ⟨_, hF⟩)]
  case evictClean h hF hu _ _ _ =>
    simp only [State.go, h, Place.uses, Pool.users_eraseFrame, Function.update_self]
    split
    next hx => rw [hx, Pool.users_of hF, hu]
    next => rfl
  case create c h hF =>
    rw [h] at hok hlive
    obtain ⟨file, hfile⟩ := Option.ne_none_iff_exists'.mp (hlive _ (List.mem_singleton_self _))
    simp only [State.go, h, Place.uses, Function.update_self,
      Pool.users_insertFrame cfg ((congrArg _ hok).trans hfile)]
    split
    next hx => rw [hx, Pool.users_of_none hF]
    next => rfl
  case read h _ _ _ => simp [State.go, h, Place.uses, Pool.users_keep]
  case loaded c h _ =>
    cases c.exclusive <;> simp [State.go, h, Place.uses, Pool.users_keep]
  case modify h _ _ => simp [State.go, h, Place.uses, Pool.users_keep]
  case mark h => simp [State.go, h, Place.uses, Pool.users_keep]
  case unfix c _ _ h _ =>
    have hle := huses g
    simp only [h, Place.uses] at hle
    simp only [State.go, h, Place.uses, Pool.users_unpin, Function.update_self]
    omega
  case write h _ => simp [State.go, h, Place.uses, Pool.users_keep]
  case evictUsed c g' P h _ hP _ =>
    have hle := huses g
    simp only [h, Place.uses, Flusher.uses] at hle
    subst hP
    simp only [State.go, h, Place.uses, Flusher.uses, Pool.users_unpin, Function.update_self]
    by_cases hx : g = g'
    · simp only [hx, if_true] at hle ⊢
      omega
    · simp [hx]
  case evict c g' P h _ hP hu _ =>
    have hle := huses g'
    subst hP
    simp only [h, Place.uses, Flusher.uses, Pool.users_unpin, if_true] at hle hu
    simp only [State.go, h, Place.uses, Flusher.uses, Pool.users_unpin, Pool.users_eraseFrame,
      Function.update_self]
    split
    next hx =>
      rw [hx]
      omega
    next hx => rfl
  case evictReloaded c g' P h _ hP hu =>
    have hle := huses g
    simp only [h, Place.uses, Flusher.uses] at hle
    subst hP
    simp only [State.go, h, Place.uses, Flusher.uses, Pool.users_keep, Pool.users_unpin,
      Function.update_self, implies_true]
    by_cases hx : g = g'
    · simp only [hx, if_true] at hle ⊢
      omega
    · simp [hx]
  case flushed f k fs refs g' P h _ hP =>
    have hle := huses g
    simp only [h, Place.uses, Flusher.uses] at hle
    subst hP
    simp only [State.go, h, Place.uses, Flusher.uses, Pool.users_unpin, Function.update_self]
    omega
  case releaseFlushed f k refs keep g' P h _ hP =>
    subst hP
    simp only [State.go, h, Place.uses, Flusher.uses, Pool.users_unpin, Pool.users_eraseFrame,
      Function.update_self]
    split
    next hx =>
      -- nobody else has the frame: the file is locked
      rw [h] at hok
      have hg := halone g (by rw [h, Place.exclusiveFile, hx, hok.1])
      simp only [h, Place.uses, Flusher.uses, hx, if_true] at hg
      rw [hx, hg]
    next hx => rfl
  case flushDirty f k fs refs g' h hg hx =>
    simp [State.go, h, Place.uses, Flusher.uses,
      Pool.users_pin (Pool.present_of_isDirty hx)]
  case releaseDirty f k refs keep g' h hg hx =>
    simp [State.go, h, Place.uses, Flusher.uses,
      Pool.users_pin (Pool.present_of_isDirty hx)]
  case releaseClean f k refs keep g' h hg hx =>
    simp only [State.go, h, Place.uses, Pool.users_eraseFrame, Function.update_self]
    split
    next hxg =>
      obtain ⟨rfl, -⟩ := hlinked.frameAt hg
      have hg' := halone g (by rw [h, Place.exclusiveFile, hxg])
      simp only [h, Place.uses] at hg'
      rw [hg']
    next => rfl
  all_goals simp [*, State.go, State.goto, State.own, Place.uses]

/-- The references that the thread owns after the step. -/
theorem Move.held (h : Move cfg s t act s') : ∃ fs, s'.held = Function.update s.held t fs := by
  cases h
  case opened => exact ⟨_, rfl⟩
  case release => exact ⟨_, rfl⟩
  case reopened => exact ⟨_, rfl⟩
  case openedNew ho _ =>
    obtain ⟨-, -, rfl⟩ := ho
    exact ⟨_, rfl⟩
  case refused ho =>
    obtain ⟨-, -, rfl⟩ := ho
    exact ⟨s.held t, (Function.update_eq_self ..).symm⟩
  case givenUp hs =>
    subst hs
    refine ⟨s.held t, ?_⟩
    rw [Function.update_eq_self]
    unfold State.lookAgain
    split
    · rfl
    · split <;> rfl
  case unfix =>
    refine ⟨s.held t, ?_⟩
    rw [Function.update_eq_self, State.go]
    unfold State.complete
    split <;> rfl
  all_goals exact ⟨s.held t, (Function.update_eq_self ..).symm⟩

private theorem count_cons_ite (a x : Nat) (l : List Nat) :
    (a :: l).count x = l.count x + if x = a then 1 else 0 := by
  rw [List.count_cons]
  simp only [beq_iff_eq, @eq_comm _ a x]

/-- **The references to a file** change as the mover's references do. -/
theorem Move.references (h : Move cfg s t act s') (v : View s t) (f : Nat) :
    s'.pool.references f + ((s.place t).refs.count f + (s.held t).count f) =
      s.pool.references f + ((s'.place t).refs.count f + (s'.held t).count f) := by
  obtain ⟨hlinked, hok, -, hlive, hrefs, -⟩ := v
  have hle := hrefs f
  cases h
  case stay => rfl
  case refused ho =>
    obtain ⟨-, -, rfl⟩ := ho
    rfl
  case opened f' file h _ hf' =>
    simp only [State.go, State.own, h, Place.refs, Function.update_self, count_cons_ite,
      Pool.references_addRef (Option.ne_none_iff_exists'.mpr ⟨_, hf'⟩)]
    omega
  case openedReadable f' file h _ hf' =>
    simp only [State.go, h, Place.refs, Function.update_self, count_cons_ite, List.count_nil,
      Pool.references_addRef (Option.ne_none_iff_exists'.mpr ⟨_, hf'⟩)]
    omega
  case openedNew f' P h _ ho hP =>
    obtain ⟨-, -, rfl⟩ := ho
    simp only [State.go, State.own, h, Place.refs, Function.update_self, count_cons_ite,
      hlinked.references_openNew hP]
    omega
  case reopenFailed f' h _ => simp [State.goto, State.go, h, Place.refs]
  case reopened f' bytes h _ =>
    simp only [State.goto, State.go, State.own, h, Place.refs, Function.update_self,
      count_cons_ite, List.count_nil]
    omega
  case flushFile path f' h _ hf' =>
    simp only [State.go, h, Place.refs, Function.update_self, count_cons_ite, List.count_nil,
      Pool.references_addRef (hlinked.file_of_name hf')]
    omega
  case tryDropFile path f' h _ hf' =>
    simp only [State.go, h, Place.refs, Function.update_self, count_cons_ite, List.count_nil,
      Pool.references_addRef (hlinked.file_of_name hf')]
    omega
  case flushAllFiles order h _ ho =>
    simp only [State.go, h, Place.refs, Function.update_self, List.count_nil,
      Pool.references_foldl_addRef (Pool.fileIds_live ho)]
    omega
  case dropDanglingFiles order h _ ho =>
    simp only [State.go, h, Place.refs, Function.update_self, List.count_nil,
      Pool.references_foldl_addRef (Pool.fileIds_live ho)]
    omega
  case givenUp h _ _ =>
    rw [h] at hok
    exact hok.elim
  case release f' keep h hf' =>
    have hpos := List.count_pos_iff.mpr hf'
    simp only [State.goto, State.go, h, Place.refs, Function.update_self, count_cons_ite,
      List.count_nil]
    by_cases hx : f = f'
    · simp only [hx, List.count_erase_self, if_true]
      omega
    · simp [hx, List.count_erase_of_ne hx]
  case flushLatch k g h _ => cases k <;> simp [State.goto, State.go, h, Place.refs]
  case write k g h _ => cases k <;> simp [State.go, h, Place.refs]
  case noWrite k g h _ => cases k <;> simp [State.goto, State.go, h, Place.refs]
  case releaseRef f' refs keep h _ =>
    simp only [h, Place.refs, count_cons_ite] at hle
    simp only [State.go, h, Place.refs, Function.update_self, count_cons_ite,
      Pool.references_dropRef]
    omega
  case releaseShared f' refs keep h _ =>
    simp only [h, Place.refs, count_cons_ite] at hle
    simp only [State.go, h, Place.refs, Function.update_self, count_cons_ite,
      Pool.references_dropRef]
    omega
  case releaseKept f' refs keep h =>
    simp only [h, Place.refs, count_cons_ite] at hle
    simp only [State.go, h, Place.refs, Function.update_self, count_cons_ite,
      Pool.references_dropRef]
    omega
  case releaseErase f' refs keep h hr =>
    simp only [h, Place.refs, count_cons_ite] at hle
    simp only [State.go, h, Place.refs, Function.update_self, count_cons_ite,
      Pool.references_eraseFile, Pool.references_dropRef]
    rw [Pool.references_dropRef, if_pos rfl] at hr
    by_cases hx : f = f'
    · simp only [hx, if_true] at hle ⊢
      omega
    · simp [hx]
  case unfix c modified marked h _ =>
    have hheld : (s.complete c modified).held = s.held := by
      unfold State.complete
      split <;> rfl
    simp [State.go, h, Place.refs, hheld]
  case loaded c h _ => cases c.exclusive <;> simp [State.go, h, Place.refs]
  all_goals simp [*, State.go, State.goto, Place.refs]

/-- **The structures agree** after every step. -/
theorem Move.linked (h : Move cfg s t act s') (v : View s t) : Linked s'.pool := by
  obtain ⟨hlinked, hok, -, -, -, -⟩ := v
  cases h
  case refused ho =>
    obtain ⟨-, -, rfl⟩ := ho
    exact hlinked
  case opened => exact hlinked.addRef
  case openedReadable => exact hlinked.addRef
  case openedNew ho hP => exact hlinked.openNew ho.1 hP
  case flushFile => exact hlinked.addRef
  case tryDropFile => exact hlinked.addRef
  case flushAllFiles order _ _ _ => exact hlinked.foldl_addRef order
  case dropDanglingFiles order _ _ _ => exact hlinked.foldl_addRef order
  case foundNew => exact hlinked.modifyFrame _ (fun _ => rfl) (fun _ => rfl) fun _ => rfl
  case found => exact hlinked.claim.moveToLru
  case givenUp h _ _ =>
    rw [h] at hok
    exact hok.elim
  case evictDirty => exact hlinked.modifyFrame _ (fun _ => rfl) (fun _ => rfl) fun _ => rfl
  case evictClean => exact hlinked.eraseFrame
  case create hF => exact hlinked.insertFrame cfg hF
  case read => exact hlinked.modifyFrame _ (fun _ => rfl) (fun _ => rfl) fun _ => rfl
  case loaded => exact hlinked.modifyFrame _ (fun _ => rfl) (fun _ => rfl) fun _ => rfl
  case modify => exact hlinked.modifyFrame _ (fun _ => rfl) (fun _ => rfl) fun _ => rfl
  case mark => exact hlinked.modifyFrame _ (fun _ => rfl) (fun _ => rfl) fun _ => rfl
  case unfix => exact hlinked.modifyFrame _ (fun _ => rfl) (fun _ => rfl) fun _ => rfl
  case write => exact hlinked.modifyFrame _ (fun _ => rfl) (fun _ => rfl) fun _ => rfl
  case evictUsed hP _ =>
    subst hP
    exact hlinked.unpin.unpin
  case evict hP _ _ =>
    subst hP
    exact hlinked.unpin.unpin.eraseFrame
  case evictReloaded hP _ =>
    subst hP
    exact hlinked.unpin.unpin.modifyFrame _ (fun _ => rfl) (fun _ => rfl) fun _ => rfl
  case flushed hP =>
    subst hP
    exact hlinked.unpin
  case releaseFlushed hP =>
    subst hP
    exact hlinked.unpin.eraseFrame
  case flushDirty => exact hlinked.modifyFrame _ (fun _ => rfl) (fun _ => rfl) fun _ => rfl
  case releaseRef => exact hlinked.dropRef
  case releaseShared => exact hlinked.dropRef
  case releaseKept => exact hlinked.dropRef
  case releaseErase h _ =>
    rw [h] at hok
    exact hlinked.dropRef.eraseFile (beginFrames_dropRef.trans hok)
  case releaseDirty => exact hlinked.modifyFrame _ (fun _ => rfl) (fun _ => rfl) fun _ => rfl
  case releaseClean => exact hlinked.eraseFrame
  all_goals exact hlinked

/-- A frame keeps its position as long as it is there. -/
theorem Move.position (h : Move cfg s t act s') {g k : Nat} (hk : s.pool.position g = some k) :
    s'.pool.position g = some k ∨ s'.pool.frames g = none := by
  have herase : ∀ {P : Pool} {g'}, P.position g = some k →
      (P.eraseFrame g').position g = some k ∨ (P.eraseFrame g').frames g = none := by
    intro P g' hP
    rw [Pool.position, Pool.eraseFrame_frames]
    by_cases hg : g = g'
    · exact .inr (by rw [hg, Function.update_self])
    · exact .inl (by rw [Function.update_of_ne hg]; exact hP)
  cases h
  case refused ho =>
    obtain ⟨-, -, rfl⟩ := ho
    exact .inl hk
  case openedNew ho hP => exact .inl ((Pool.position_congr (Pool.openNew_frames hP)).trans hk)
  case flushAllFiles => exact .inl ((Pool.position_congr (Pool.foldl_addRef_frames _)).trans hk)
  case dropDanglingFiles =>
    exact .inl ((Pool.position_congr (Pool.foldl_addRef_frames _)).trans hk)
  case givenUp hs =>
    subst hs
    unfold State.lookAgain
    split
    next => exact .inl hk
    next =>
      split
      next =>
        dsimp only [State.go]
        split
        next => exact herase (Pool.position_unpin.trans hk)
        next => exact .inl (Pool.position_unpin.trans hk)
      next => exact .inl (Pool.position_moveToLru.trans hk)
  case evictClean => exact herase hk
  case evict hP _ _ =>
    subst hP
    exact herase (Pool.position_unpin.trans (Pool.position_unpin.trans hk))
  case releaseFlushed hP =>
    subst hP
    exact herase (Pool.position_unpin.trans hk)
  case releaseClean => exact herase hk
  case create c _ hF =>
    have hg : g ≠ c.frame := by
      rintro rfl
      rw [Pool.position, hF] at hk
      cases hk
    refine .inl ?_
    dsimp only [State.go]
    unfold Pool.insertFrame
    split
    next => exact hk
    next => simpa [Pool.position, hg] using hk
  case releaseErase f refs keep _ _ =>
    exact .inl ((Pool.position_congr Pool.eraseFile_frames).trans hk)
  case found => exact .inl (Pool.position_moveToLru.trans (Pool.position_claim.trans hk))
  case evictUsed hP _ =>
    subst hP
    exact .inl (Pool.position_unpin.trans (Pool.position_unpin.trans hk))
  case evictReloaded hP _ =>
    subst hP
    exact .inl (by simpa [State.go, Pool.position_keep] using hk)
  case flushed hP =>
    subst hP
    exact .inl (Pool.position_unpin.trans hk)
  all_goals first
    | exact .inl hk
    | exact .inl (by simpa [State.go, Pool.position_keep] using hk)

/-- A frame that goes has no users but the thread. -/
theorem Move.gone (h : Move cfg s t act s') (v : View s t) {g : Nat}
    (hF : s'.pool.frames g = none) : s.pool.users g = (s.place t).uses g := by
  have husers := h.users v g
  have hle := v.uses g
  rw [Pool.users_of_none hF] at husers
  omega

/-- A frame list changes only under the directory latch, and only if nobody else has locked
the file as exclusive. -/
theorem Move.fileList (h : Move cfg s t act s') (v : View s t) (f : Nat) :
    s'.pool.fileList f = s.pool.fileList f ∨
      ((s.dir = none ∨ (s.place t).inDirectory = true) ∧
        (f ∈ (s.place t).sharedFiles ∨ (s.place t).exclusiveFile = some f ∨
          s.FileShareable f ∨ s.pool.files f = none)) := by
  obtain ⟨hlinked, hok, -, -, -, -⟩ := v
  have hadd : ∀ {f'}, (s.pool.addRef f').fileList f = s.pool.fileList f :=
    Pool.fileList_modifyFile fun _ => rfl
  have hdrop : ∀ {f'}, (s.pool.dropRef f').fileList f = s.pool.fileList f :=
    Pool.fileList_modifyFile fun _ => rfl
  cases h
  case refused ho =>
    obtain ⟨-, -, rfl⟩ := ho
    exact .inl rfl
  case opened => exact .inl hadd
  case openedReadable => exact .inl hadd
  case openedNew path flags bytes s₁ f' P h hd ho hP =>
    by_cases hf : f = f'
    · subst hf
      exact .inr ⟨.inl hd, .inr (.inr (.inr (hlinked.openNew_file hP).1))⟩
    · exact .inl ((hlinked.openNew_file hP).2.1 hf)
  case flushFile => exact .inl hadd
  case tryDropFile => exact .inl hadd
  case flushAllFiles => exact .inl (Pool.fileList_foldl_addRef _)
  case dropDanglingFiles => exact .inl (Pool.fileList_foldl_addRef _)
  case givenUp h _ _ =>
    rw [h] at hok
    exact hok.elim
  case found c F h _ _ =>
    refine .inl ?_
    dsimp only [State.go]
    rw [Pool.fileList, Pool.moveToLru_files]
    rfl
  case evictClean c guard tryLock g F h _ _ _ hl _ =>
    by_cases hf : f = GetFileID g
    · exact .inr ⟨.inr (by rw [h]; rfl), .inr (.inr (.inl (hf ▸ hl)))⟩
    · exact .inl (Pool.fileList_eraseFrame hf)
  case create c h hF =>
    rw [h] at hok
    by_cases hf : f = GetFileID c.frame
    · exact .inr ⟨.inr (by rw [h]; rfl), .inl (by
        rw [h, hf, Place.sharedFiles, show GetFileID c.frame = c.file from hok]
        exact List.mem_singleton_self _)⟩
    · exact .inl (Pool.fileList_insertFrame cfg hf)
  case evict c g P h hd hP _ _ =>
    subst hP
    by_cases hf : f = GetFileID g
    · exact .inr ⟨.inl hd, .inl (by rw [h, hf, Place.sharedFiles]; simp)⟩
    · exact .inl (Pool.fileList_eraseFrame hf)
  case evictUsed hP _ =>
    subst hP
    exact .inl rfl
  case evictReloaded hP _ =>
    subst hP
    exact .inl rfl
  case flushed hP =>
    subst hP
    exact .inl rfl
  case releaseFlushed f' k refs keep g P h hd hP =>
    subst hP
    rw [h] at hok
    by_cases hf : f = GetFileID g
    · exact .inr ⟨.inl hd, .inr (.inl (by rw [h, hf, Place.exclusiveFile, hok.1]))⟩
    · exact .inl (Pool.fileList_eraseFrame hf)
  case releaseClean f' k refs keep g h hg _ =>
    by_cases hf : f = GetFileID g
    · refine .inr ⟨.inr (by rw [h]; rfl), .inr (.inl ?_)⟩
      rw [h, hf, Place.exclusiveFile, (hlinked.frameAt hg).1]
    · exact .inl (Pool.fileList_eraseFrame hf)
  case releaseRef => exact .inl hdrop
  case releaseShared => exact .inl hdrop
  case releaseKept => exact .inl hdrop
  case releaseErase f' refs keep h _ =>
    by_cases hf : f = f'
    · exact .inr ⟨.inr (by rw [h]; rfl), .inr (.inl (by rw [h, hf, Place.exclusiveFile]))⟩
    · exact .inl ((Pool.fileList_eraseFile hf).trans hdrop)
  all_goals exact .inl rfl

end Haybarn.Io.PageBuffer
