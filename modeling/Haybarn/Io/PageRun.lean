import Haybarn.Io.PageStates

/-!
# The page buffer over whole runs

`Inv` is what holds in every state that the threads can reach, whatever the order of their
steps. The theorem about the structures of the page buffer follows from it.
-/

namespace Haybarn.Io.PageBuffer

open Haybarn.Lib State

variable {Tid : Type} [DecidableEq Tid] {cfg : Config} {s s' : State Tid} {t : Tid}
  {act : Act Tid}

/-! ## What the mover's place promises afterwards -/

theorem GetFileID_BuildFrameID (f page : Nat) : GetFileID (BuildFrameID f page) = f := by
  rw [GetFileID, BuildFrameID, Nat.add_mul_div_right _ _ (Nat.two_pow_pos 48),
    Nat.div_eq_of_lt (Nat.mod_lt _ (Nat.two_pow_pos 48)), Nat.zero_add]

theorem beginFrames_eraseFrame {P : Pool} {g k : Nat} (hk : P.position g = some k)
    (hfirst : P.beginFrames (GetFileID g) = some k) :
    (P.eraseFrame g).beginFrames (GetFileID g) = P.nextFrame (GetFileID g) k := by
  obtain ⟨F, hF, rfl⟩ := Option.map_eq_some_iff.mp hk
  obtain ⟨file, hfile, hfirst⟩ := Option.bind_eq_some_iff.mp hfirst
  unfold Pool.eraseFrame
  rw [hF]
  simp only [Pool.beginFrames, Pool.nextFrame, Pool.modifyFile_files, Function.update_self, hfile,
    Option.map_some, Option.bind_some]
  exact NodeList.first_erase_first hfirst

theorem frameAt_nextFrame {P : Pool} {f k j : Nat} (h : P.nextFrame f k = some j) :
    ∃ g, P.frameAt f j = some g := by
  obtain ⟨file, hfile, hnext⟩ := Option.bind_eq_some_iff.mp h
  obtain ⟨g, hg⟩ := NodeList.at_next hnext
  exact ⟨g, by rw [Pool.frameAt, hfile, Option.bind_some, NodeList.get?_eq_some.mpr hg]⟩

theorem frameAt_beginFrames {P : Pool} {f j : Nat} (h : P.beginFrames f = some j) :
    ∃ g, P.frameAt f j = some g := by
  obtain ⟨file, hfile, hfirst⟩ := Option.bind_eq_some_iff.mp h
  obtain ⟨g, hg⟩ := NodeList.at_first hfirst
  exact ⟨g, by rw [Pool.frameAt, hfile, Option.bind_some, NodeList.get?_eq_some.mpr hg]⟩

/-- A call of `FlushFrame` goes on relying on what it relies on. -/
theorem Flusher.Ok.keep {P P' : Pool} {k : Flusher} {g : Nat} (h : k.Ok P g)
    (hpos : P'.position g = P.position g) (hbegin : ∀ f, P'.beginFrames f = P.beginFrames f) :
    k.Ok P' g := by
  cases k with
  | evict c => exact h
  | flush f k fs refs => exact ⟨h.1, hpos.trans h.2.1, h.2.2⟩
  | release f k refs keep => exact ⟨h.1, hpos.trans h.2.1, (hbegin f).trans h.2.2⟩

theorem Move.ok (h : Move cfg s t act s') (v : View s t)
    (hfresh : ∀ g, s.pool.stateOf g ≠ some .new) : (s'.place t).Ok s'.pool := by
  obtain ⟨hlinked, hok, -, hlive, -, -⟩ := v
  cases h
  case stay => exact hok
  case refused ho =>
    obtain ⟨-, -, rfl⟩ := ho
    exact hok
  case foundNew c F h hF hs =>
    exact absurd (by rw [Pool.stateOf, hF, Option.map_some, hs]) (hfresh c.frame)
  case givenUp h _ _ =>
    rw [h] at hok
    exact hok.elim
  case waited h _ =>
    rw [h] at hok
    exact hok.elim
  all_goals simp only [State.go, State.goto, State.own, Function.update_self]
  case fixPage owner f page x h _ _ => exact GetFileID_BuildFrameID f page
  case create c h hF =>
    rw [h] at hok hlive
    obtain ⟨file, hfile⟩ := Option.ne_none_iff_exists'.mp (hlive _ (List.mem_singleton_self _))
    refine ⟨hok, ?_⟩
    rw [Pool.stateOf_insertFrame cfg ((congrArg _ hok).trans hfile), if_pos rfl]
  case read c _ _ _ h _ _ _ =>
    rw [h] at hok
    exact ⟨hok.1, by simpa [Pool.stateOf_keep] using hok.2⟩
  case loaded c h _ =>
    rw [h] at hok
    cases c.exclusive <;> exact hok.1
  case flushLatch k g h _ =>
    rw [h] at hok
    exact hok
  case write k g h _ =>
    rw [h] at hok
    exact Flusher.Ok.keep hok (Pool.position_keep fun _ => rfl) fun _ => rfl
  case noWrite k g h _ =>
    rw [h] at hok
    exact hok
  case flushed f k fs refs g P h _ hP =>
    subst hP
    rw [h] at hok
    exact ⟨hok.2.2, fun j hj => frameAt_nextFrame hj⟩
  case releaseFlushed f k refs keep g P h _ hP =>
    subst hP
    rw [h] at hok
    obtain ⟨rfl, hpos, hbegin⟩ := hok
    exact beginFrames_eraseFrame (Pool.position_unpin.trans hpos) hbegin
  case flushFile => exact fun _ => id
  case flushAllFiles => exact fun _ => id
  case flush => exact fun _ => id
  case flushLock h _ =>
    rw [h] at hok
    exact fun f hf => hok (List.mem_cons_of_mem _ hf)
  case flushStart h _ =>
    rw [h] at hok
    exact ⟨hok, fun j hj => frameAt_beginFrames hj⟩
  case flushEnd h =>
    rw [h] at hok
    exact hok.1
  case flushDirty h hg _ =>
    rw [h] at hok
    obtain ⟨hf, hpos⟩ := hlinked.frameAt hg
    exact ⟨hf, Pool.position_pin.trans hpos, hok.1⟩
  case flushClean h hg _ =>
    rw [h] at hok
    exact ⟨hok.1, fun j hj => frameAt_nextFrame hj⟩
  case releaseDirty h hg _ =>
    rw [h] at hok
    obtain ⟨hf, hpos⟩ := hlinked.frameAt hg
    exact ⟨hf, Pool.position_pin.trans hpos, hok⟩
  case releaseClean h hg _ =>
    rw [h] at hok
    obtain ⟨rfl, hpos⟩ := hlinked.frameAt hg
    exact beginFrames_eraseFrame hpos hok
  case found h _ _ =>
    rw [h] at hok
    exact hok
  case evictDirty h _ _ _ _ _ =>
    rw [h] at hok
    exact hok
  case evictClean h _ _ _ _ _ =>
    rw [h] at hok
    exact hok
  case latchShared h _ _ =>
    rw [h] at hok
    exact hok
  case latchExclusive h _ _ =>
    rw [h] at hok
    exact hok
  case modify h _ _ =>
    rw [h] at hok
    exact hok
  case evictUsed h _ _ _ =>
    rw [h] at hok
    exact hok
  case evict h _ _ _ _ =>
    rw [h] at hok
    exact hok
  case evictReloaded h _ _ _ =>
    rw [h] at hok
    exact hok
  all_goals first
    | trivial
    | (rename_i h; rw [h] at hok; exact hok)
    | (rename_i h _; rw [h] at hok; exact hok)

/-! ## The files that are locked are there -/

/-- A file goes only if the mover has locked it as exclusive, and it has no lock then. -/
theorem Move.files (h : Move cfg s t act s') (v : View s t) {f : Nat}
    (hf : s.pool.files f ≠ none) :
    s'.pool.files f ≠ none ∨ ((s.place t).exclusiveFile = some f ∧
      (s'.place t).sharedFiles = [] ∧ (s'.place t).exclusiveFile = none) := by
  obtain ⟨hlinked, hok, -, -, -, -⟩ := v
  cases h
  case refused ho =>
    obtain ⟨-, -, rfl⟩ := ho
    exact .inl hf
  case opened => exact .inl (Pool.modifyFile_files_ne_none.mpr hf)
  case openedReadable => exact .inl (Pool.modifyFile_files_ne_none.mpr hf)
  case openedNew f' P h _ ho hP =>
    obtain ⟨hnone, -, file, -, -, -, hfiles⟩ := hlinked.openNew_file hP
    have hne : f ≠ f' := by
      rintro rfl
      exact hf hnone
    refine .inl ?_
    dsimp only [State.own, State.go]
    rwa [hfiles, Function.update_of_ne hne]
  case flushFile => exact .inl (Pool.modifyFile_files_ne_none.mpr hf)
  case tryDropFile => exact .inl (Pool.modifyFile_files_ne_none.mpr hf)
  case flushAllFiles order _ _ _ => exact .inl ((Pool.foldl_addRef_files_ne_none order).mpr hf)
  case dropDanglingFiles order _ _ _ => exact .inl ((Pool.foldl_addRef_files_ne_none order).mpr hf)
  case givenUp h _ _ =>
    rw [h] at hok
    exact hok.elim
  case found =>
    refine .inl ?_
    dsimp only [State.go]
    rwa [Pool.moveToLru_files]
  case evictClean => exact .inl (Pool.eraseFrame_files_ne_none.mpr hf)
  case create => exact .inl ((Pool.insertFrame_files_ne_none cfg).mpr hf)
  case evict hP _ _ =>
    subst hP
    exact .inl (Pool.eraseFrame_files_ne_none.mpr hf)
  case evictUsed hP _ =>
    subst hP
    exact .inl hf
  case evictReloaded hP _ =>
    subst hP
    exact .inl hf
  case flushed hP =>
    subst hP
    exact .inl hf
  case releaseFlushed hP =>
    subst hP
    exact .inl (Pool.eraseFrame_files_ne_none.mpr hf)
  case releaseRef => exact .inl (Pool.modifyFile_files_ne_none.mpr hf)
  case releaseShared => exact .inl (Pool.modifyFile_files_ne_none.mpr hf)
  case releaseKept => exact .inl (Pool.modifyFile_files_ne_none.mpr hf)
  case releaseErase f' refs keep h _ =>
    by_cases hff : f = f'
    · refine .inr ⟨by rw [h, hff]; rfl, ?_, ?_⟩ <;>
        simp [State.go, Place.sharedFiles, Place.exclusiveFile]
    · refine .inl ?_
      have hdrop : (s.pool.dropRef f').files f ≠ none := Pool.modifyFile_files_ne_none.mpr hf
      dsimp only [State.go]
      unfold Pool.eraseFile
      split
      next => exact hdrop
      next => simpa [hff] using hdrop
  case releaseClean => exact .inl (Pool.eraseFrame_files_ne_none.mpr hf)
  all_goals exact .inl hf

/-- What a thread has locked after its step is a file that has been there before. -/
theorem Move.locks (h : Move cfg s t act s') (v : View s t)
    (hlocked : ∀ f, f ∈ (s.place t).sharedFiles ∨ (s.place t).exclusiveFile = some f →
      s.pool.files f ≠ none)
    (howned : ∀ f, 0 < s.pool.references f → s.pool.files f ≠ none)
    (hheld : ∀ q, ∀ f ∈ s.held q, 0 < s.pool.references f) {f : Nat}
    (hf : f ∈ (s'.place t).sharedFiles ∨ (s'.place t).exclusiveFile = some f) :
    s.pool.files f ≠ none := by
  obtain ⟨hlinked, hok, -, -, hrefs, -⟩ := v
  have hown : ∀ f ∈ (s.place t).refs, s.pool.files f ≠ none := by
    intro f hf
    have hpos := List.count_pos_iff.mpr hf
    have hle := hrefs f
    exact howned f (by omega)
  have hmem : ∀ {g F}, s.pool.frames g = some F → s.pool.files (GetFileID g) ≠ none :=
    fun hF => hlinked.live hF
  cases h
  case stay => exact hlocked f hf
  case refused ho =>
    obtain ⟨-, -, rfl⟩ := ho
    exact hlocked f hf
  case givenUp h _ _ =>
    rw [h] at hok
    exact hok.elim
  case fixPage owner f' page x h hf' _ =>
    obtain rfl : f = f' := by
      simpa [State.goto, State.go, Place.sharedFiles, Place.exclusiveFile] using hf
    exact howned f (hheld owner f hf')
  case flush owner f' h hf' _ =>
    obtain rfl : f = f' := by
      simpa [State.goto, State.go, Place.sharedFiles, Place.exclusiveFile] using hf
    exact howned f (hheld owner f hf')
  case flushLock f' fs refs h _ =>
    obtain rfl : f = f' := by
      simpa [State.goto, State.go, Place.sharedFiles, Place.exclusiveFile] using hf
    rw [h] at hok hown
    exact hown f (hok (List.mem_cons_self ..))
  case releaseLock f' refs keep h _ =>
    obtain rfl : f' = f := by
      simpa [State.goto, State.go, Place.sharedFiles, Place.exclusiveFile] using hf
    rw [h] at hown
    exact hown f' (List.mem_cons_self ..)
  case evictDirty c guard tryLock g F h hF _ _ _ _ =>
    have hcases : f = c.file ∨ f = GetFileID g := by
      simpa [State.go, Place.sharedFiles, Place.exclusiveFile] using hf
    rcases hcases with rfl | rfl
    · exact hlocked _ (.inl (by simp [h, Place.sharedFiles]))
    · exact hmem hF
  case openedNew ho _ =>
    obtain ⟨-, -, rfl⟩ := ho
    simp [State.go, State.own, Place.sharedFiles, Place.exclusiveFile] at hf
  case loaded c h _ =>
    refine hlocked f ?_
    cases hx : c.exclusive <;>
      simpa [State.go, h, hx, Place.sharedFiles, Place.exclusiveFile] using hf
  case flushLatch k g h _ =>
    refine hlocked f ?_
    cases k <;> simpa [State.goto, State.go, h, Place.sharedFiles, Place.exclusiveFile] using hf
  case write k g h _ =>
    refine hlocked f ?_
    cases k <;> simpa [State.go, h, Place.sharedFiles, Place.exclusiveFile] using hf
  case noWrite k g h _ =>
    refine hlocked f ?_
    cases k <;> simpa [State.goto, State.go, h, Place.sharedFiles, Place.exclusiveFile] using hf
  all_goals
    refine hlocked f ?_
    simp_all [State.go, State.goto, State.own, Place.sharedFiles, Place.exclusiveFile]

/-! ## The invariant -/

variable [Fintype Tid]

/-- The invariant of the page buffer. -/
structure Inv (s : State Tid) : Prop where
  linked : Linked s.pool
  directory : ∀ t, (s.place t).inDirectory = true → s.dir = some t
  fileLocks : Exclusion (fun l f => f ∈ Place.sharedFiles l) (fun l f => l.exclusiveFile = some f)
    s.place
  frameLatches : Exclusion (fun l g => Place.sharedFrame l = some g)
    (fun l g => l.exclusiveFrame = some g) s.place
  users : ∀ g, ∑ t, (s.place t).uses g = s.pool.users g
  refs : ∀ f, ∑ t, (s.place t).refs.count f + ∑ t, (s.held t).count f = s.pool.references f
  live : ∀ t f, f ∈ (s.place t).sharedFiles ∨ (s.place t).exclusiveFile = some f →
    s.pool.files f ≠ none
  ok : ∀ t, (s.place t).Ok s.pool
  fresh : ∀ g, s.pool.stateOf g ≠ some .new
  loading : ∀ g, s.pool.stateOf g = some .loading → ∃ t, (s.place t).loads g
  evicting : ∀ g, s.pool.stateOf g = some .evicting → ∀ t, ¬ (s.place t).fixes g

private theorem of_ite_pos {p : Prop} [Decidable p] {n : Nat} (h : 0 < if p then n else 0) :
    p := by
  by_contra hp
  rw [if_neg hp] at h
  exact absurd h (Nat.lt_irrefl 0)

theorem Flusher.Ok.locks {P : Pool} {k : Flusher} {g : Nat} (h : k.Ok P g) :
    GetFileID g ∈ (Place.flushLatch k g).sharedFiles ∨
      (Place.flushLatch k g).exclusiveFile = some (GetFileID g) := by
  cases k with
  | evict c => exact .inl (by simp [Place.sharedFiles])
  | flush f k fs refs => exact .inl (by simp [Place.sharedFiles, h.1])
  | release f k refs keep => exact .inr (by simp [Place.exclusiveFile, h.1])

/-- Who uses a frame has locked its file. -/
theorem Place.locks_of_uses {P : Pool} {pc : Place} {g : Nat} (h : pc.Ok P) (hu : 0 < pc.uses g) :
    GetFileID g ∈ pc.sharedFiles ∨ pc.exclusiveFile = some (GetFileID g) := by
  have hfix : ∀ c : Fix, g = c.frame → GetFileID c.frame = c.file → GetFileID g ∈ [c.file] := by
    rintro c rfl hc
    rw [hc]
    exact List.mem_singleton_self _
  cases pc
  case waitNew => exact h.elim
  case waitedNew => exact h.elim
  case read c => exact .inl (hfix c (of_ite_pos hu) h.1)
  case loaded c => exact .inl (hfix c (of_ite_pos hu) h.1)
  case latch c => exact .inl (hfix c (of_ite_pos hu) h)
  case hold c _ _ => exact .inl (hfix c (of_ite_pos hu) h)
  case flushLatch k g' =>
    obtain rfl : g = g' := of_ite_pos hu
    exact h.locks
  case flushWrite k g' =>
    obtain rfl : g = g' := of_ite_pos hu
    have hlocks : _ ∨ _ := Flusher.Ok.locks (P := P) (k := k) (g := g) h
    cases k <;> exact hlocks
  case flushed k g' =>
    obtain rfl : g = g' := of_ite_pos hu
    have hlocks : _ ∨ _ := Flusher.Ok.locks (P := P) (k := k) (g := g) h
    cases k <;> exact hlocks
  all_goals exact absurd hu (Nat.lt_irrefl 0)

theorem Place.uses_of_fixes {pc : Place} {g : Nat} (h : pc.fixes g) : 0 < pc.uses g := by
  cases pc
  case latch c =>
    obtain rfl : c.frame = g := h
    simp [Place.uses]
  case hold c _ _ =>
    obtain rfl : c.frame = g := h
    simp [Place.uses]
  all_goals exact h.elim

/-- Who has latched a frame uses it. -/
theorem Place.uses_of_latch {pc : Place} {g : Nat}
    (h : pc.sharedFrame = some g ∨ pc.exclusiveFrame = some g) : 0 < pc.uses g := by
  cases pc
  case read c =>
    obtain rfl : c.frame = g := by simpa [Place.sharedFrame, Place.exclusiveFrame] using h
    simp [Place.uses]
  case loaded c =>
    obtain rfl : c.frame = g := by simpa [Place.sharedFrame, Place.exclusiveFrame] using h
    simp [Place.uses]
  case hold c _ _ =>
    obtain rfl : c.frame = g := by
      cases hx : c.exclusive <;> simpa [Place.sharedFrame, Place.exclusiveFrame, hx] using h
    simp [Place.uses]
  case flushWrite k g' =>
    obtain rfl : g' = g := by simpa [Place.sharedFrame, Place.exclusiveFrame] using h
    cases k <;> simp [Place.uses, Flusher.uses]
  all_goals simp [Place.sharedFrame, Place.exclusiveFrame] at h

namespace Inv

omit [DecidableEq Tid] in
/-- Who uses a frame is counted. -/
theorem uses_le (h : Inv s) (t : Tid) (g : Nat) : (s.place t).uses g ≤ s.pool.users g := by
  rw [← h.users g]
  exact le_tally (fun l => l.uses g) s.place t

omit [DecidableEq Tid] in
theorem refs_le (h : Inv s) (t : Tid) (f : Nat) :
    (s.place t).refs.count f + (s.held t).count f ≤ s.pool.references f := by
  rw [← h.refs f]
  exact Nat.add_le_add (le_tally (fun l => (Place.refs l).count f) s.place t)
    (le_tally (fun l => List.count f l) s.held t)

/-- Two threads that use a frame are both counted. -/
theorem uses_two (h : Inv s) {q : Tid} (hne : q ≠ t) (g : Nat) :
    (s.place t).uses g + (s.place q).uses g ≤ s.pool.users g := by
  have hmove := tally_move (fun l => Place.uses l g) s.place q .idle
  have hle := le_tally (fun l => Place.uses l g) (Function.update s.place q .idle) t
  rw [Function.update_of_ne (Ne.symm hne)] at hle
  rw [h.users g] at hmove
  have hidle : Place.idle.uses g = 0 := rfl
  omega

omit [DecidableEq Tid] in
/-- A frame that is used is there. -/
theorem present (h : Inv s) {g : Nat} (hu : 0 < (s.place t).uses g) :
    s.pool.frames g ≠ none := by
  intro hnone
  have hle := h.uses_le t g
  rw [Pool.users_of_none hnone] at hle
  omega

omit [DecidableEq Tid] in
/-- What the mover knows. -/
theorem view (h : Inv s) (t : Tid) : View s t where
  linked := h.linked
  ok := h.ok t
  uses := h.uses_le t
  live := fun f hf => h.live t f (.inl hf)
  refs := h.refs_le t
  alone := by
    intro g hg
    rw [← h.users g]
    refine tally_alone (p := t) (fun l => Place.uses l g) fun q hq => ?_
    -- another user would have locked the file
    by_contra hne
    exact hq (h.fileLocks.alone hg (Place.locks_of_uses (h.ok q) (Nat.pos_of_ne_zero hne)))

/-- A thread that has a frame is not disturbed by the others: the frame keeps its place, and
somebody else may change its state only while it is loaded. -/
theorem position_stays (h : Inv s) (hm : Move cfg s t act s') {q : Tid} (hq : q ≠ t) {g k : Nat}
    (hu : 0 < (s.place q).uses g) (hk : s.pool.position g = some k) :
    s'.pool.position g = some k := by
  rcases hm.position hk with hk' | hgone
  · exact hk'
  · have halone := hm.gone (h.view t) hgone
    have htwo := h.uses_two hq g
    omega

/-- The frame list of a file that another thread has locked as exclusive stays as it is. -/
theorem list_stays (h : Inv s) (hm : Move cfg s t act s') {q : Tid} (hq : q ≠ t) {f : Nat}
    (hx : (s.place q).exclusiveFile = some f) : s'.pool.fileList f = s.pool.fileList f := by
  rcases hm.fileList (h.view t) f with hsame | ⟨-, hshared | hexcl | hshare | hnone⟩
  · exact hsame
  · exact absurd (h.fileLocks.alone hx (.inl hshared)).symm hq
  · exact absurd (h.fileLocks.alone hx (.inr hexcl)).symm hq
  · exact absurd hx (hshare q)
  · exact absurd hnone (h.live q f (.inr hx))

/-- No frame list changes while another thread has the directory latch. -/
theorem lists_stay (h : Inv s) (hm : Move cfg s t act s') {q : Tid} (hq : q ≠ t) (f : Nat)
    (hd : (s.place q).inDirectory = true) : s'.pool.fileList f = s.pool.fileList f := by
  rcases hm.fileList (h.view t) f with hsame | ⟨hnone | hin, -⟩
  · exact hsame
  · exact nomatch (h.directory q hd).symm.trans hnone
  · exact absurd (Option.some.inj ((h.directory q hd).symm.trans (h.directory t hin))) hq

/-- What a thread relies on stays true when another one moves. -/
theorem ok_stays (h : Inv s) (hm : Move cfg s t act s') {q : Tid} (hq : q ≠ t) :
    (s.place q).Ok s'.pool := by
  have hok := h.ok q
  have hflush : ∀ (k : Flusher) g, k.Ok s.pool g → 0 < (s.place q).uses g →
      (∀ f j refs keep, k = .release f j refs keep → (s.place q).exclusiveFile = some f) →
      k.Ok s'.pool g := by
    intro k g hk hu hrel
    cases k with
    | evict c => exact hk
    | flush f j fs refs => exact ⟨hk.1, h.position_stays hm hq hu hk.2.1, hk.2.2⟩
    | release f j refs keep =>
      refine ⟨hk.1, h.position_stays hm hq hu hk.2.1, ?_⟩
      rw [Pool.beginFrames_eq, h.list_stays hm hq (hrel f j refs keep rfl), ← Pool.beginFrames_eq]
      exact hk.2.2
  have hload : ∀ g, s.pool.stateOf g = some .loading → (s.place q).exclusiveFrame = some g →
      s'.pool.stateOf g = some .loading := by
    intro g hg hx
    have hu := Place.uses_of_latch (.inr hx)
    have htwo := h.uses_two hq g
    have hsome : s'.pool.stateOf g ≠ none := by
      intro hnone
      have halone := hm.gone (h.view t) (Option.map_eq_none_iff.mp hnone)
      omega
    cases hm.state (h.view t) g with
    | same hs _ _ => exact hs.trans hg
    | claimed _ hold _ => exact nomatch hold.symm.trans hg
    | evicting _ hold _ _ _ => exact nomatch hold.symm.trans hg
    | kept _ halone _ => omega
    | loaded _ hx' => exact absurd (h.frameLatches.alone hx (.inr hx')).symm hq
    | created hs _ _ => exact hs
    | gone hs => exact absurd hs hsome
  cases hp : s.place q <;> rw [hp] at hok hflush hload
  case read c => exact ⟨hok.1, hload _ hok.2 rfl⟩
  case loaded c => exact ⟨hok.1, hload _ hok.2 rfl⟩
  case flushLatch k g =>
    refine hflush k g hok ?_ ?_
    · cases k <;> simp [Place.uses, Flusher.uses]
    · rintro f j refs keep rfl
      rfl
  case flushWrite k g =>
    refine hflush k g hok ?_ ?_
    · cases k <;> simp [Place.uses, Flusher.uses]
    · rintro f j refs keep rfl
      rfl
  case flushed k g =>
    refine hflush k g hok ?_ ?_
    · cases k <;> simp [Place.uses, Flusher.uses]
    · rintro f j refs keep rfl
      rfl
  case flushIter f k fs refs =>
    refine ⟨hok.1, fun j hj => ?_⟩
    obtain ⟨g, hg⟩ := hok.2 j hj
    refine ⟨g, ?_⟩
    rw [Pool.frameAt_eq, h.lists_stay hm hq f (by rw [hp]; rfl), ← Pool.frameAt_eq]
    exact hg
  case releaseIter f k refs keep =>
    have hlist := h.list_stays hm hq (f := f) (by rw [hp]; rfl)
    have hbegin : s'.pool.beginFrames f = s.pool.beginFrames f := by
      rw [Pool.beginFrames_eq, hlist, ← Pool.beginFrames_eq]
    exact hbegin.trans hok
  all_goals exact hok

theorem directory_step (h : Inv s) (hm : Move cfg s t act s') (q : Tid)
    (hd : (s'.place q).inDirectory = true) : s'.dir = some q := by
  obtain ⟨pc, hplace, ha⟩ := hm.acquires
  rw [hplace] at hd
  by_cases hq : q = t
  · subst hq
    rw [Function.update_self] at hd
    rcases ha.directory hd with hdir | ⟨hdir, hold⟩
    · exact hdir
    · exact hdir.trans (h.directory q hold)
  · rw [Function.update_of_ne hq] at hd
    have hdir := h.directory q hd
    rcases ha.released with hsame | hnone | hold
    · exact hsame.trans hdir
    · exact nomatch hdir.symm.trans hnone
    · exact absurd (Option.some.inj (hdir.symm.trans (h.directory t hold))) hq

theorem fileLocks_step (h : Inv s) (hm : Move cfg s t act s') :
    Exclusion (fun l f => f ∈ Place.sharedFiles l) (fun l f => l.exclusiveFile = some f)
      s'.place := by
  obtain ⟨pc, hplace, ha⟩ := hm.acquires
  rw [hplace]
  refine h.fileLocks.move (fun f hf => ?_) fun f hf => ?_
  · rcases ha.exclusiveFile f hf with hold | hfree
    · exact .inl hold
    · exact .inr fun q _ => ⟨(hfree q).2, (hfree q).1⟩
  · rcases ha.sharedFiles f hf with hold | hshare
    · exact .inl hold
    · exact .inr (.inr fun q _ => hshare q)

theorem frameLatches_step (h : Inv s) (hm : Move cfg s t act s') :
    Exclusion (fun l g => Place.sharedFrame l = some g) (fun l g => l.exclusiveFrame = some g)
      s'.place := by
  obtain ⟨pc, hplace, ha⟩ := hm.acquires
  rw [hplace]
  refine h.frameLatches.move (fun g hg => ?_) fun g hg => ?_
  · rcases ha.exclusiveFrame g hg with hold | hfree | hnone
    · exact .inl hold
    · exact .inr fun q _ => ⟨(hfree q).2, (hfree q).1⟩
    · -- nobody has latched a frame that is not there
      refine .inr fun q _ => ⟨fun hs => ?_, fun hx => ?_⟩
      · exact h.present (Place.uses_of_latch (.inl hs)) hnone
      · exact h.present (Place.uses_of_latch (.inr hx)) hnone
  · rcases ha.sharedFrame g hg with hold | hshare
    · exact .inl hold
    · exact .inr (.inr fun q _ => hshare q)

theorem users_step (h : Inv s) (hm : Move cfg s t act s') (g : Nat) :
    ∑ q, (s'.place q).uses g = s'.pool.users g := by
  obtain ⟨pc, hplace, -⟩ := hm.acquires
  have husers := hm.users (h.view t) g
  have hmove := tally_move (fun l => Place.uses l g) s.place t pc
  rw [h.users g] at hmove
  rw [hplace, Function.update_self] at husers
  rw [hplace]
  omega

theorem refs_step (h : Inv s) (hm : Move cfg s t act s') (f : Nat) :
    ∑ q, (s'.place q).refs.count f + ∑ q, (s'.held q).count f = s'.pool.references f := by
  obtain ⟨pc, hplace, -⟩ := hm.acquires
  obtain ⟨fs, hheld⟩ := hm.held
  have hrefs := hm.references (h.view t) f
  have hmove := tally_move (fun l => (Place.refs l).count f) s.place t pc
  have hmove' := tally_move (fun l : List Nat => l.count f) s.held t fs
  have hold := h.refs f
  rw [hplace, hheld, Function.update_self, Function.update_self] at hrefs
  rw [hplace, hheld]
  omega

theorem live_step (h : Inv s) (hm : Move cfg s t act s') (q : Tid) (f : Nat)
    (hf : f ∈ (s'.place q).sharedFiles ∨ (s'.place q).exclusiveFile = some f) :
    s'.pool.files f ≠ none := by
  obtain ⟨pc, hplace, -⟩ := hm.acquires
  have howned : ∀ f, 0 < s.pool.references f → s.pool.files f ≠ none := by
    intro f hpos hnone
    rw [Pool.references_of_none hnone] at hpos
    exact absurd hpos (Nat.lt_irrefl 0)
  have hheld : ∀ q, ∀ f ∈ s.held q, 0 < s.pool.references f := by
    intro q f hmem
    have hpos := List.count_pos_iff.mpr hmem
    have hle := h.refs_le q f
    omega
  by_cases hq : q = t
  · subst hq
    rcases hm.files (h.view q) (hm.locks (h.view q) (h.live q) howned hheld hf) with
      hlive | ⟨-, hshared, hexcl⟩
    · exact hlive
    · rw [hshared, hexcl] at hf
      simp at hf
  · rw [hplace, Function.update_of_ne hq] at hf
    rcases hm.files (h.view t) (h.live q f hf) with hlive | ⟨hx, -⟩
    · exact hlive
    · exact absurd (h.fileLocks.alone hx hf) hq

/-- **One step preserves the invariant.** -/
theorem step (h : Inv s) (hm : Move cfg s t act s') : Inv s' where
  linked := hm.linked (h.view t)
  directory := h.directory_step hm
  fileLocks := h.fileLocks_step hm
  frameLatches := h.frameLatches_step hm
  users := h.users_step hm
  refs := h.refs_step hm
  live := h.live_step hm
  ok := by
    intro q
    obtain ⟨pc, hplace, -⟩ := hm.acquires
    by_cases hq : q = t
    · subst hq
      exact hm.ok (h.view q) h.fresh
    · rw [hplace, Function.update_of_ne hq]
      exact h.ok_stays hm hq
  fresh := by
    intro g hnew
    cases hm.state (h.view t) g with
    | same hs _ _ => exact h.fresh g (hs.symm.trans hnew)
    | claimed hs _ _ => exact nomatch hs.symm.trans hnew
    | evicting hs _ _ _ _ => exact nomatch hs.symm.trans hnew
    | kept hs _ _ =>
      obtain ⟨_, _, hst⟩ := Option.map_eq_some_iff.mp (hs.symm.trans hnew)
      cases hst
    | loaded hs _ =>
      obtain ⟨_, _, hst⟩ := Option.map_eq_some_iff.mp (hs.symm.trans hnew)
      cases hst
    | created hs _ _ => exact nomatch hs.symm.trans hnew
    | gone hs => exact nomatch hs.symm.trans hnew
  loading := by
    intro g hload
    obtain ⟨pc, hplace, -⟩ := hm.acquires
    cases hm.state (h.view t) g with
    | same hs _ hl =>
      obtain ⟨q, hq⟩ := h.loading g (hs.symm.trans hload)
      by_cases hqt : q = t
      · exact ⟨t, hl.mpr (hqt ▸ hq)⟩
      · exact ⟨q, by rw [hplace, Function.update_of_ne hqt]; exact hq⟩
    | claimed hs _ _ => exact nomatch hs.symm.trans hload
    | evicting hs _ _ _ _ => exact nomatch hs.symm.trans hload
    | kept hs _ _ =>
      obtain ⟨_, _, hst⟩ := Option.map_eq_some_iff.mp (hs.symm.trans hload)
      cases hst
    | loaded hs _ =>
      obtain ⟨_, _, hst⟩ := Option.map_eq_some_iff.mp (hs.symm.trans hload)
      cases hst
    | created _ _ hl => exact ⟨t, hl⟩
    | gone hs => exact nomatch hs.symm.trans hload
  evicting := by
    intro g hev q hfix
    obtain ⟨pc, hplace, -⟩ := hm.acquires
    have hother : ∀ {q}, q ≠ t → (s'.place q).fixes g → (s.place q).fixes g := by
      intro q hq hf
      rwa [hplace, Function.update_of_ne hq] at hf
    cases hm.state (h.view t) g with
    | same hs hf _ =>
      have hold := hs.symm.trans hev
      by_cases hq : q = t
      · subst hq
        rcases hf hfix with hfix | hne
        · exact h.evicting g hold q hfix
        · exact hne hold
      · exact h.evicting g hold q (hother hq hfix)
    | claimed hs _ _ => exact nomatch hs.symm.trans hev
    | evicting _ _ hu hf _ =>
      -- nobody uses a frame when its eviction begins
      by_cases hq : q = t
      · exact hf (hq ▸ hfix)
      · have hpos := Place.uses_of_fixes (hother hq hfix)
        have hle := h.uses_le q g
        omega
    | kept hs _ _ =>
      obtain ⟨_, _, hst⟩ := Option.map_eq_some_iff.mp (hs.symm.trans hev)
      cases hst
    | loaded hs _ =>
      obtain ⟨_, _, hst⟩ := Option.map_eq_some_iff.mp (hs.symm.trans hev)
      cases hst
    | created hs _ _ => exact nomatch hs.symm.trans hev
    | gone hs => exact nomatch hs.symm.trans hev

omit [DecidableEq Tid] in
theorem initial (disk : String → List UInt8) : Inv (State.initial cfg disk : State Tid) where
  linked := .empty
  directory := nofun
  fileLocks := ⟨nofun⟩
  frameLatches := ⟨nofun⟩
  users := by
    intro g
    rw [Pool.users_of_none rfl]
    exact Finset.sum_eq_zero fun _ _ => rfl
  refs := by
    intro f
    rw [Pool.references_of_none rfl]
    exact Nat.add_eq_zero_iff.mpr
      ⟨Finset.sum_eq_zero fun _ _ => rfl, Finset.sum_eq_zero fun _ _ => rfl⟩
  live := by
    rintro t f (hf | hf)
    · exact absurd hf List.not_mem_nil
    · cases hf
  ok := fun _ => trivial
  fresh := nofun
  loading := nofun
  evicting := nofun

/-- **The invariant holds in every state that the threads reach.** -/
theorem run {disk : String → List UInt8} {ok : State Tid → Tid × Act Tid → Prop}
    {es : List (Tid × Act Tid)} (h : Run (PageBuffer.step cfg) ok (.initial cfg disk) es s) :
    Inv s :=
  h.invariant (initial disk) fun _ _ _ hinv _ hs => hinv.step (step_move hs)

end Inv

/-- **The representation invariant of the page buffer**: in every state that any threads reach
by opening and releasing files, fixing and releasing pages, flushing, dropping and
evicting, in any order and interleaved at their latches, each frame is in exactly one of the
two queues, once, at the position it stores, the queues hold nothing else, each file's list
holds exactly that file's frames, each frame's file is there, and no free id is the id of a
file. -/
theorem page_buffer_represents (disk : String → List UInt8) (es : List (Tid × Act Tid))
    (s : State Tid) (h : Run (step cfg) Always (.initial cfg disk) es s) :
    Represents s.pool :=
  (Inv.run h).linked.represents

/-! A run of two threads with one frame to share: the second thread evicts the dirty page of the
first one. -/

section Eviction

def firstThread : Fin 2 := ⟨0, Nat.two_pos⟩

def secondThread : Fin 2 := ⟨1, Nat.one_lt_two⟩

private def sharing : Config := { pageSizeBits := 1, pageCapacity := 1 }

private def abcd : String → List UInt8 := fun _ => [1, 2, 3, 4]

private def readWrite : FileFlags :=
  { forReading := true, forWriting := true, forAppending := false, createNew := false,
    lock := .none }

/-- Fix a page that is not there, with room for its frame. -/
private def fixFirst (t : Fin 2) : List (Fin 2 × Act (Fin 2)) :=
  [(t, .go), (t, .go), (t, .go), (t, .go), (t, .load [0, 0]), (t, .go)]

private def evicting : List (Fin 2 × Act (Fin 2)) :=
  [(firstThread, .openFile "f" readWrite (some [1, 2, 3, 4])),
    (firstThread, .fixPage firstThread 0 0 true)] ++ fixFirst firstThread ++
  [(firstThread, .modify 0 [9]), (firstThread, .markAsDirty), (firstThread, .unfix),
    (secondThread, .fixPage firstThread 0 1 false), (secondThread, .go), (secondThread, .go),
    (secondThread, .go), (secondThread, .scan fun _ => true), (secondThread, .go),
    (secondThread, .go), (secondThread, .go), (secondThread, .go), (secondThread, .go),
    (secondThread, .load [9, 2]), (secondThread, .go), (secondThread, .go)]

theorem page_buffer_represents_evicting :
    ∃ s : State (Fin 2), Run (step sharing) Always (.initial sharing abcd) evicting s ∧
      s.pool.fifo.values = [BuildFrameID 0 1] ∧ s.disk "f" = [9, 2, 3, 4] ∧
      Represents s.pool := by
  obtain ⟨s, hrun, hp⟩ := Run.exists_of_execute (show (execute (step sharing) Always
    (.initial sharing abcd) evicting).map (fun s => decide (s.pool.fifo.values = [BuildFrameID 0 1] ∧
      s.disk "f" = [9, 2, 3, 4])) = some true by decide +kernel)
  obtain ⟨hfifo, hdisk⟩ := of_decide_eq_true hp
  exact ⟨s, hrun, hfifo, hdisk, page_buffer_represents abcd evicting s hrun⟩

end Eviction

end Haybarn.Io.PageBuffer
