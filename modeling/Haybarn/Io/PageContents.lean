import Haybarn.Io.PageRun

/-!
# The contents of the frames

What a step does to the bytes of a frame and its dirty flag, to the files, to the disk and
to the record of the completed modifications, and who is involved. `Orderly` is what the
users of a file keep to: its size is fixed, and who modifies one of its pages marks it as
dirty before the release.
-/

namespace Haybarn.Io.PageBuffer

open Haybarn.Lib State

/-! ## What frames and files hold -/

structure Contents where
  isDirty : Bool
  dataSize : Nat
  data : List UInt8

def Frame.contents (F : Frame) : Contents := ⟨F.isDirty, F.dataSize, F.data⟩

namespace Pool

def contents (P : Pool) (g : Nat) : Option Contents := (P.frames g).map Frame.contents

def fileSize (P : Pool) (f : Nat) : Nat := ((P.files f).map File.fileSize).getD 0

/-- A file as far as an open one does not change. -/
def fileHeader (P : Pool) (f : Nat) : Option (String × Nat) :=
  (P.files f).map fun file => (file.path, file.fileSize)

variable {P P' : Pool} {f g x : Nat}

theorem isDirty_eq : P.isDirty g = ((P.contents g).map Contents.isDirty).getD false := by
  rw [isDirty, contents, Option.map_map]
  rfl

theorem dataSize_eq : P.dataSize g = ((P.contents g).map Contents.dataSize).getD 0 := by
  rw [dataSize, contents, Option.map_map]
  rfl

theorem dataOf_eq : P.dataOf g = ((P.contents g).map Contents.data).getD [] := by
  rw [dataOf, contents, Option.map_map]
  rfl

theorem contents_eq_none : P.contents g = none ↔ P.frames g = none := Option.map_eq_none_iff

theorem contents_congr (h : P'.frames = P.frames) : P'.contents = P.contents := by
  funext x
  rw [contents, h, contents]

theorem contents_modify {h : Frame → Frame} {k : Contents → Contents}
    (hh : ∀ F, (h F).contents = k F.contents) :
    (P.modifyFrame g h).contents x = if x = g then (P.contents g).map k else P.contents x := by
  rw [contents, map_modifyFrame, funext hh]
  split
  next => rw [contents, Option.map_map]; rfl
  next => rfl

/-- An operation that counts users or changes the state. -/
theorem contents_keep {h : Frame → Frame} (hh : ∀ F, (h F).contents = F.contents) :
    (P.modifyFrame g h).contents x = P.contents x := by
  rw [contents_modify (k := id) hh]
  split
  next hx => rw [hx, Option.map_id_fun, id]
  next => rfl

@[simp] theorem contents_pin : (P.modifyFrame g .pin).contents x = P.contents x :=
  contents_keep fun _ => rfl

@[simp] theorem contents_unpin : (P.modifyFrame g .unpin).contents x = P.contents x :=
  contents_keep fun _ => rfl

@[simp] theorem contents_claim : (P.modifyFrame g .claim).contents x = P.contents x :=
  contents_keep fun _ => rfl

@[simp] theorem contents_beginEviction :
    (P.modifyFrame g .beginEviction).contents x = P.contents x :=
  contents_keep fun _ => rfl

@[simp] theorem contents_moveToLru : (P.moveToLru g).contents x = P.contents x :=
  map_moveToLru _ fun _ _ _ => rfl

@[simp] theorem contents_addRef : (P.addRef f).contents x = P.contents x := rfl

@[simp] theorem contents_dropRef : (P.dropRef f).contents x = P.contents x := rfl

@[simp] theorem contents_eraseFrame :
    (P.eraseFrame g).contents x = if x = g then none else P.contents x := by
  rw [contents, eraseFrame_frames]
  split
  next hx => rw [hx, Function.update_self]; rfl
  next hx => rw [Function.update_of_ne hx]; rfl

theorem contents_insertFrame (cfg : Config) {file : File} (hf : P.files (GetFileID g) = some file) :
    (P.insertFrame cfg g).contents x =
      if x = g then some ⟨false, pageBytes cfg file.fileSize (GetPageID g), []⟩
      else P.contents x := by
  rw [contents, insertFrame_frames cfg hf]
  split
  next hx => rw [hx, Function.update_self]; rfl
  next hx => rw [Function.update_of_ne hx]; rfl

theorem fileHeader_modifyFile {h : File → File}
    (hh : ∀ file, (h file).path = file.path ∧ (h file).fileSize = file.fileSize) :
    (P.modifyFile f h).fileHeader x = P.fileHeader x := by
  rw [fileHeader, modifyFile_files]
  by_cases hx : x = f
  · rw [hx, Function.update_self, Option.map_map, fileHeader]
    refine congrArg (fun k => (P.files f).map k) (funext fun file => ?_)
    exact Prod.ext (hh file).1 (hh file).2
  · rw [Function.update_of_ne hx, fileHeader]

@[simp] theorem fileHeader_addRef : (P.addRef f).fileHeader x = P.fileHeader x :=
  fileHeader_modifyFile fun _ => ⟨rfl, rfl⟩

@[simp] theorem fileHeader_dropRef : (P.dropRef f).fileHeader x = P.fileHeader x :=
  fileHeader_modifyFile fun _ => ⟨rfl, rfl⟩

@[simp] theorem fileHeader_foldl_addRef (order : List Nat) :
    (order.foldl addRef P).fileHeader x = P.fileHeader x := by
  induction order generalizing P with
  | nil => rfl
  | cons f rest ih => rw [List.foldl_cons, ih, fileHeader_addRef]

@[simp] theorem fileHeader_moveToLru : (P.moveToLru g).fileHeader x = P.fileHeader x := by
  rw [fileHeader, moveToLru_files, fileHeader]

@[simp] theorem fileHeader_eraseFrame : (P.eraseFrame g).fileHeader x = P.fileHeader x := by
  unfold eraseFrame
  split
  next => rfl
  next => exact fileHeader_modifyFile fun _ => ⟨rfl, rfl⟩

@[simp] theorem fileHeader_insertFrame (cfg : Config) :
    (P.insertFrame cfg g).fileHeader x = P.fileHeader x := by
  unfold insertFrame
  split
  next => rfl
  next file hfile =>
    dsimp only [fileHeader]
    by_cases hx : x = GetFileID g
    · rw [hx, Function.update_self, hfile]
      rfl
    · rw [Function.update_of_ne hx]

theorem path_eq : P.path f = ((P.fileHeader f).map Prod.fst).getD "" := by
  rw [path, fileHeader, Option.map_map]
  rfl

theorem fileSize_eq : P.fileSize f = ((P.fileHeader f).map Prod.snd).getD 0 := by
  rw [fileSize, fileHeader, Option.map_map]
  rfl

end Pool

/-! ## What the users keep to -/

/-- The page that the thread has fixed, and whether it has modified it and marked it. -/
def Place.fixed : Place → Option (Fix × Bool × Bool)
  | .hold c modified marked => some (c, modified, marked)
  | _ => none

theorem Place.fixed_eq_some {pc : Place} {c : Fix} {modified marked : Bool} :
    pc.fixed = some (c, modified, marked) ↔ pc = .hold c modified marked := by
  cases pc <;> simp [Place.fixed]

/-- The file that the thread opens again. -/
def Place.reopens : Place → Option Nat
  | .reopen f => some f
  | _ => none

/-- The thread has modified the frame and not released it yet. -/
def Place.modifies : Place → Nat → Prop
  | .hold c true _, g => c.frame = g
  | _, _ => False

variable {Tid : Type} {cfg : Config} {p : String}

/-- The size of the file `p` is fixed: opening it leaves it as it is, and only its own pages
are marked as dirty. Who has modified a page of it marks it before the release. -/
def Orderly (cfg : Config) (p : String) (s : State Tid) : Tid × Act Tid → Prop
  | (_, .openFile path _ opened) => path = p → ∀ bytes ∈ opened, bytes = s.disk p
  | (t, .reopen opened) =>
    ∀ f ∈ (s.place t).reopens, s.pool.path f = p → ∀ bytes ∈ opened, bytes = s.disk p
  | (t, .markAsDirty) =>
    ∀ x ∈ (s.place t).fixed, s.pool.path x.1.file = p →
      GetPageID x.1.frame * cfg.pageSize < (s.disk p).length
  | (t, .unfix) =>
    ∀ x ∈ (s.place t).fixed, s.pool.path x.1.file = p → x.2.1 = true → x.2.2 = true
  | _ => True

instance (s : State Tid) (e : Tid × Act Tid) : Decidable (Orderly cfg p s e) :=
  match e with
  | (_, .openFile path _ opened) =>
    inferInstanceAs (Decidable (path = p → ∀ bytes ∈ opened, bytes = s.disk p))
  | (t, .reopen opened) => inferInstanceAs (Decidable (∀ f ∈ (s.place t).reopens,
      s.pool.path f = p → ∀ bytes ∈ opened, bytes = s.disk p))
  | (t, .markAsDirty) => inferInstanceAs (Decidable (∀ x ∈ (s.place t).fixed,
      s.pool.path x.1.file = p → GetPageID x.1.frame * cfg.pageSize < (s.disk p).length))
  | (t, .unfix) => inferInstanceAs (Decidable (∀ x ∈ (s.place t).fixed,
      s.pool.path x.1.file = p → x.2.1 = true → x.2.2 = true))
  | (_, .go) | (_, .scan _) | (_, .load _) | (_, .fixPage ..) | (_, .modify ..) | (_, .flush ..)
  | (_, .flushFile _) | (_, .flushFiles _) | (_, .release ..) | (_, .tryDropFile _)
  | (_, .dropDanglingFiles _) => inferInstanceAs (Decidable True)

/-! ## What a step changes -/

/-- What can happen to the contents of a frame. -/
inductive ContentChange (cfg : Config) (s s' : State Tid) (t : Tid) (act : Act Tid) (g : Nat) :
    Prop
  | same (hs : s'.pool.contents g = s.pool.contents g)
      (hl : (s'.place t).loads g ↔ (s.place t).loads g)
      (hm : (s'.place t).modifies g ↔ (s.place t).modifies g)
  | created {file} (hold : s.pool.contents g = none) (hf : s.pool.files (GetFileID g) = some file)
      (hs : s'.pool.contents g =
        some ⟨false, Pool.pageBytes cfg file.fileSize (GetPageID g), []⟩)
      (hl : (s'.place t).loads g)
  | read {c stale} (h : s.place t = .read c) (hg : c.frame = g) (hlen : stale.length = cfg.pageSize)
      (hs : s'.pool.contents g = (s.pool.contents g).map fun C => { C with
        data := (overwrite 0 stale 0 (slice (s.disk (s.pool.path c.file))
          (GetPageID g * cfg.pageSize) C.dataSize)).take C.dataSize })
      (h' : s'.place t = .loaded c)
  | loaded {c} (h : s.place t = .loaded c) (hg : c.frame = g)
      (hs : s'.pool.contents g = (s.pool.contents g).map fun C => { C with isDirty := false })
      (hl : ¬ (s'.place t).loads g)
  | modified {c modified marked offset bytes} (h : s.place t = .hold c modified marked)
      (hg : c.frame = g) (hx : c.exclusive = true)
      (hlen : offset + bytes.length ≤ (s.pool.dataOf g).length)
      (hs : s'.pool.contents g = (s.pool.contents g).map fun C => { C with
        data := overwrite 0 C.data offset bytes })
      (h' : s'.place t = .hold c true marked)
  | marked {c modified marked} (hact : act = .markAsDirty)
      (h : s.place t = .hold c modified marked) (hg : c.frame = g)
      (hs : s'.pool.contents g = (s.pool.contents g).map fun C => { C with isDirty := true })
      (h' : s'.place t = .hold c modified true)
  | released {c marked} (h : s.place t = .hold c true marked) (hg : c.frame = g)
      (hs : s'.pool.contents g = s.pool.contents g) (h' : s'.place t = .idle)
      (hlatest : s'.latest = Function.update s.latest (s.pool.path c.file) (Function.update
        (s.latest (s.pool.path c.file)) (GetPageID c.frame) (s.pool.dataOf c.frame)))
  | written {k} (h : s.place t = .flushWrite k g) (hx : s.pool.isDirty g = true)
      (hs : s'.pool.contents g = (s.pool.contents g).map fun C => { C with isDirty := false })
      (h' : s'.place t = .flushed k g)
      (hdisk : s'.disk = Function.update s.disk (s.pool.path (GetFileID g)) (overwrite 0
        (s.disk (s.pool.path (GetFileID g))) (GetPageID g * cfg.pageSize) (s.pool.dataOf g)))
  | gone (hs : s'.pool.contents g = none)
      (hclean : s.pool.isDirty g = false ∨
        (∃ c, s.place t = .flushed (.evict c) g ∧ s.pool.stateOf g = some .evicting) ∨
        ∃ f k refs keep, s.place t = .flushed (.release f k refs keep) g)
      (hl : ¬ (s.place t).loads g) (hm : ¬ (s.place t).modifies g)

/-- What can happen to a file. -/
inductive FileChange (s s' : State Tid) (f : Nat) : Prop
  | same (hs : s'.pool.fileHeader f = s.pool.fileHeader f)
  | opened {path bytes} (hold : s.pool.files f = none) (hframes : s'.pool.frames = s.pool.frames)
      (hs : s'.pool.fileHeader f = some (path, bytes.length)) (hlen : bytes.length < 2 ^ 63)
      (hdisk : s'.disk path = bytes)
  | gone (hs : s'.pool.files f = none)

/-- What can happen to the file `p` on the disk and to the record of its modifications. -/
inductive StoreChange (cfg : Config) (p : String) (s s' : State Tid) (t : Tid) (act : Act Tid) :
    Prop
  | same (hdisk : s'.disk p = s.disk p) (hlatest : s'.latest p = s.latest p)
  | completed {c marked} (hact : act = .unfix) (h : s.place t = .hold c true marked)
      (h' : s'.place t = .idle) (hpath : s.pool.path c.file = p) (hdisk : s'.disk p = s.disk p)
      (hcontents : s'.pool.contents = s.pool.contents)
      (hlatest : s'.latest p =
        Function.update (s.latest p) (GetPageID c.frame) (s.pool.dataOf c.frame))
  | written {k g} (h : s.place t = .flushWrite k g) (hx : s.pool.isDirty g = true)
      (hpath : s.pool.path (GetFileID g) = p)
      (hdisk : s'.disk p = overwrite 0 (s.disk p) (GetPageID g * cfg.pageSize) (s.pool.dataOf g))
      (hlatest : s'.latest p = s.latest p)

variable [DecidableEq Tid] {s s' : State Tid} {t : Tid} {act : Act Tid}

theorem Move.contents (h : Move cfg s t act s') (v : View s t) (g : Nat) :
    ContentChange cfg s s' t act g := by
  obtain ⟨hlinked, hok, huses, hlive, -, -⟩ := v
  cases h
  case stay => exact .same rfl Iff.rfl Iff.rfl
  case refused ho =>
    obtain ⟨-, -, rfl⟩ := ho
    exact .same rfl Iff.rfl Iff.rfl
  case openedNew h _ ho hP =>
    obtain ⟨-, -, rfl⟩ := ho
    refine .same (congrFun (Pool.contents_congr (Pool.openNew_frames hP)) g) ?_ ?_ <;>
      simp [State.own, State.go, h, Place.modifies, Place.loads]
  case flushAllFiles order h _ _ =>
    refine .same (congrFun (Pool.contents_congr (Pool.foldl_addRef_frames order)) g) ?_ ?_ <;>
      simp [State.go, h, Place.modifies, Place.loads]
  case dropDanglingFiles order h _ _ =>
    refine .same (congrFun (Pool.contents_congr (Pool.foldl_addRef_frames order)) g) ?_ ?_ <;>
      simp [State.go, h, Place.modifies, Place.loads]
  case releaseErase f refs keep h _ =>
    refine .same (congrFun (Pool.contents_congr Pool.eraseFile_frames) g) ?_ ?_ <;>
      simp [State.go, h, Place.modifies, Place.loads]
  case givenUp h _ _ =>
    rw [h] at hok
    exact hok.elim
  case create c h hF =>
    rw [h] at hok hlive
    obtain ⟨file, hfile⟩ := Option.ne_none_iff_exists'.mp (hlive _ (List.mem_singleton_self _))
    have hcontents := Pool.contents_insertFrame (P := s.pool) (g := c.frame) (x := g) cfg
      ((congrArg _ hok).trans hfile)
    by_cases hg : g = c.frame
    · subst hg
      refine .created (Pool.contents_eq_none.mpr hF) ((congrArg _ hok).trans hfile)
        (hcontents.trans (if_pos rfl)) ?_
      simp [State.go, Place.loads]
    · refine .same (hcontents.trans (if_neg hg)) ?_ ?_ <;>
        simp [State.go, h, Place.modifies, Place.loads, Ne.symm hg]
  case read c stale size bytes h hlen hsize hbytes =>
    subst hbytes hsize
    by_cases hg : g = c.frame
    · subst hg
      refine .read h rfl hlen ?_ (by simp [State.go])
      dsimp only [State.go]
      rw [Pool.contents_modify (k := fun C => { C with
        data := (overwrite 0 stale 0 (slice (s.disk (s.pool.path c.file))
          (GetPageID c.frame * cfg.pageSize) (s.pool.dataSize c.frame))).take
            (s.pool.dataSize c.frame) }) fun _ => rfl, if_pos rfl, Pool.dataSize_eq]
      cases s.pool.contents c.frame <;> rfl
    · refine .same ?_ ?_ ?_
      · exact (Pool.contents_modify (k := fun C => { C with data := _ }) fun _ => rfl).trans
          (if_neg hg)
      · simp [State.go, h, Place.loads]
      · simp [State.go, h, Place.modifies]
  case loaded c h _ =>
    have hs : ∀ x, (s.pool.modifyFrame c.frame fun F =>
        { F with state := .loaded, isDirty := false }).contents x =
        if x = c.frame then (s.pool.contents c.frame).map fun C => { C with isDirty := false }
        else s.pool.contents x := fun x => Pool.contents_modify fun _ => rfl
    by_cases hg : g = c.frame
    · subst hg
      refine .loaded h rfl ((hs _).trans (if_pos rfl)) ?_
      cases c.exclusive <;> simp [State.go, Place.loads]
    · refine .same ((hs g).trans (if_neg hg)) ?_ ?_
      · cases c.exclusive <;> simp [State.go, h, Place.loads, Ne.symm hg]
      · cases c.exclusive <;> simp [State.go, h, Place.modifies]
  case modify c modified marked offset bytes h hx hlen =>
    have hs : ∀ x, (s.pool.modifyFrame c.frame fun F =>
        { F with data := overwrite 0 F.data offset bytes }).contents x =
        if x = c.frame then
          (s.pool.contents c.frame).map fun C => { C with data := overwrite 0 C.data offset bytes }
        else s.pool.contents x := fun x => Pool.contents_modify fun _ => rfl
    by_cases hg : g = c.frame
    · subst hg
      exact .modified h rfl hx hlen ((hs _).trans (if_pos rfl)) (by simp [State.go])
    · refine .same ((hs g).trans (if_neg hg)) ?_ ?_
      · simp [State.go, h, Place.loads]
      · cases modified <;> simp [State.go, h, Place.modifies, Ne.symm hg]
  case mark c modified marked h =>
    have hs : ∀ x, (s.pool.modifyFrame c.frame fun F => { F with isDirty := true }).contents x =
        if x = c.frame then (s.pool.contents c.frame).map fun C => { C with isDirty := true }
        else s.pool.contents x := fun x => Pool.contents_modify fun _ => rfl
    by_cases hg : g = c.frame
    · subst hg
      exact .marked rfl h rfl ((hs _).trans (if_pos rfl)) (by simp [State.go])
    · refine .same ((hs g).trans (if_neg hg)) ?_ ?_
      · simp [State.go, h, Place.loads]
      · cases modified <;> simp [State.go, h, Place.modifies]
  case unfix c modified marked h _ =>
    cases modified with
    | false =>
      refine .same Pool.contents_unpin ?_ ?_ <;>
        simp [State.go, State.complete, h, Place.loads, Place.modifies]
    | true =>
      by_cases hg : g = c.frame
      · subst hg
        exact .released h rfl Pool.contents_unpin (by simp [State.go]) rfl
      · refine .same Pool.contents_unpin ?_ ?_ <;>
          simp [State.go, State.complete, h, Place.loads, Place.modifies, Ne.symm hg]
  case write k g' h hx =>
    have hs : ∀ x, (s.pool.modifyFrame g' fun F => { F with isDirty := false }).contents x =
        if x = g' then (s.pool.contents g').map fun C => { C with isDirty := false }
        else s.pool.contents x := fun x => Pool.contents_modify fun _ => rfl
    by_cases hg : g = g'
    · subst hg
      exact .written h hx ((hs _).trans (if_pos rfl)) (by simp [State.go]) rfl
    · refine .same ((hs g).trans (if_neg hg)) ?_ ?_
      · simp [State.go, h, Place.loads]
      · simp [State.go, h, Place.modifies]
  case evictClean c guard tryLock g' F h hF _ _ _ hx =>
    by_cases hg : g = g'
    · subst hg
      refine .gone ?_ (.inl ((isDirty_of hF).trans hx)) ?_ ?_ <;>
        simp [State.go, h, Place.loads, Place.modifies]
    · refine .same ?_ ?_ ?_ <;> simp [State.go, h, Place.loads, Place.modifies, hg]
  case evict c g' P h _ hP _ hs =>
    subst hP
    rw [Pool.stateOf_unpin, Pool.stateOf_unpin] at hs
    by_cases hg : g = g'
    · subst hg
      refine .gone ?_ (.inr (.inl ⟨c, h, hs⟩)) ?_ ?_ <;>
        simp [State.go, h, Place.loads, Place.modifies]
    · refine .same ?_ ?_ ?_ <;> simp [State.go, h, Place.loads, Place.modifies, hg]
  case evictReloaded c g' P h _ hP hu =>
    subst hP
    have hs : ∀ P : Pool, (P.modifyFrame g' fun F => { F with state := .loaded }).contents g =
        P.contents g := fun P => Pool.contents_keep fun _ => rfl
    refine .same ?_ ?_ ?_
    · simp [State.go, hs]
    · simp [State.go, h, Place.loads]
    · simp [State.go, h, Place.modifies]
  case releaseFlushed f k refs keep g' P h _ hP =>
    subst hP
    by_cases hg : g = g'
    · subst hg
      refine .gone ?_ (.inr (.inr ⟨f, k, refs, keep, h⟩)) ?_ ?_ <;>
        simp [State.go, h, Place.loads, Place.modifies]
    · refine .same ?_ ?_ ?_ <;> simp [State.go, h, Place.loads, Place.modifies, hg]
  case releaseClean f k refs keep g' h hg' hx =>
    by_cases hg : g = g'
    · subst hg
      refine .gone ?_ (.inl hx) ?_ ?_ <;> simp [State.go, h, Place.loads, Place.modifies]
    · refine .same ?_ ?_ ?_ <;> simp [State.go, h, Place.loads, Place.modifies, hg]
  all_goals
    refine .same ?_ ?_ ?_ <;>
      simp [State.go, State.goto, State.own, *, Place.modifies, Place.loads]

/-- Which frames go, and who is not at them. -/
theorem Move.goes (h : Move cfg s t act s') (v : View s t) {g : Nat}
    (hC : s.pool.contents g ≠ none) (hnone : s'.pool.contents g = none) :
    (s.pool.isDirty g = false ∨
      (∃ c, s.place t = .flushed (.evict c) g ∧ s.pool.stateOf g = some .evicting) ∨
      ∃ f k refs keep, s.place t = .flushed (.release f k refs keep) g) ∧
    ¬ (s.place t).loads g ∧ ¬ (s.place t).modifies g := by
  have hkeep : ∀ k : Contents → Contents, s'.pool.contents g ≠ (s.pool.contents g).map k :=
    fun k hs => hC (Option.map_eq_none_iff.mp (hs.symm.trans hnone))
  cases h.contents v g with
  | same hs _ _ => exact absurd (hs.symm.trans hnone) hC
  | created hold _ _ _ => exact absurd hold hC
  | read _ _ _ hs _ => exact absurd hs (hkeep _)
  | loaded _ _ hs _ => exact absurd hs (hkeep _)
  | modified _ _ _ _ hs _ => exact absurd hs (hkeep _)
  | marked _ _ _ hs _ => exact absurd hs (hkeep _)
  | released _ _ hs _ _ => exact absurd (hs.symm.trans hnone) hC
  | written _ _ hs _ _ => exact absurd hs (hkeep _)
  | gone _ hclean hl hm => exact ⟨hclean, hl, hm⟩

/-- The files are the same but for one that is opened or gone. -/
theorem Move.file (h : Move cfg s t act s') (v : View s t) (f : Nat) : FileChange s s' f := by
  obtain ⟨hlinked, hok, -, -, -, -⟩ := v
  cases h
  case refused ho =>
    obtain ⟨-, -, rfl⟩ := ho
    exact .same rfl
  case openedNew path flags bytes s₁ f' P h _ ho hP =>
    obtain ⟨-, hlen, rfl⟩ := ho
    obtain ⟨hnone, -, file, -, hpath, hsize, hfiles⟩ := hlinked.openNew_file hP
    by_cases hf : f = f'
    · subst hf
      refine .opened hnone (Pool.openNew_frames hP) ?_ hlen (Function.update_self ..)
      dsimp only [State.own, State.go, Pool.fileHeader]
      rw [hfiles, Function.update_self, Option.map_some, hpath, hsize]
    · refine .same ?_
      dsimp only [State.own, State.go, Pool.fileHeader]
      rw [hfiles, Function.update_of_ne hf]
  case flushAllFiles order _ _ _ => exact .same (Pool.fileHeader_foldl_addRef order)
  case dropDanglingFiles order _ _ _ => exact .same (Pool.fileHeader_foldl_addRef order)
  case givenUp h _ _ =>
    rw [h] at hok
    exact hok.elim
  case evictClean => exact .same Pool.fileHeader_eraseFrame
  case found => exact .same Pool.fileHeader_moveToLru
  case create => exact .same (Pool.fileHeader_insertFrame cfg)
  case evict hP _ _ =>
    subst hP
    exact .same Pool.fileHeader_eraseFrame
  case evictUsed hP _ =>
    subst hP
    exact .same rfl
  case evictReloaded hP _ =>
    subst hP
    exact .same rfl
  case flushed hP =>
    subst hP
    exact .same rfl
  case releaseFlushed hP =>
    subst hP
    exact .same Pool.fileHeader_eraseFrame
  case releaseClean => exact .same Pool.fileHeader_eraseFrame
  case releaseErase f' refs keep h _ =>
    by_cases hf : f = f'
    · subst hf
      refine .gone ?_
      dsimp only [State.go]
      unfold Pool.eraseFile
      split
      next hnone => exact hnone
      next => exact Function.update_self ..
    · refine .same ((?_ : _ = (s.pool.dropRef f').fileHeader f).trans Pool.fileHeader_dropRef)
      dsimp only [State.go]
      unfold Pool.eraseFile
      split
      next => rfl
      next =>
        dsimp only [Pool.fileHeader]
        rw [Function.update_of_ne hf]
  case opened => exact .same Pool.fileHeader_addRef
  case openedReadable => exact .same Pool.fileHeader_addRef
  case flushFile => exact .same Pool.fileHeader_addRef
  case tryDropFile => exact .same Pool.fileHeader_addRef
  case releaseRef => exact .same Pool.fileHeader_dropRef
  case releaseShared => exact .same Pool.fileHeader_dropRef
  case releaseKept => exact .same Pool.fileHeader_dropRef
  all_goals exact .same rfl

/-- A file that gets the contents that it has. -/
private theorem update_disk {disk : String → List UInt8} {path p : String} {bytes : List UInt8}
    (h : path = p → bytes = disk p) : Function.update disk path bytes p = disk p := by
  by_cases hpath : path = p
  · subst hpath
    rw [Function.update_self, h rfl]
  · rw [Function.update_of_ne (Ne.symm hpath)]

/-- The disk and the record change in two steps only. -/
theorem Move.store (h : Move cfg s t act s') (v : View s t) (ho : Orderly cfg p s (t, act)) :
    StoreChange cfg p s s' t act := by
  obtain ⟨-, hok, -, -, -, -⟩ := v
  cases h
  case stay => exact .same rfl rfl
  case refused path flags bytes h hopen =>
    obtain ⟨-, -, rfl⟩ := hopen
    exact .same (update_disk fun hpath => ho hpath bytes rfl) rfl
  case openedNew path flags bytes s₁ f' P h _ hopen hP =>
    obtain ⟨-, -, rfl⟩ := hopen
    exact .same (update_disk fun hpath => ho hpath bytes rfl) rfl
  case reopened f bytes h hf =>
    have hreopens : f ∈ (s.place t).reopens := by rw [h]; rfl
    exact .same (update_disk fun hpath => ho f hreopens hpath bytes rfl) rfl
  case givenUp h _ _ =>
    rw [h] at hok
    exact hok.elim
  case unfix c modified marked h _ =>
    cases modified with
    | false => exact .same rfl rfl
    | true =>
      by_cases hpath : s.pool.path c.file = p
      · subst hpath
        refine .completed rfl h (by simp [State.go]) rfl rfl (funext fun _ => Pool.contents_unpin) ?_
        simp [State.go, State.complete]
      · refine .same rfl ?_
        simp [State.go, State.complete, Ne.symm hpath]
  case write k g h hx =>
    by_cases hpath : s.pool.path (GetFileID g) = p
    · subst hpath
      exact .written h hx rfl (Function.update_self ..) rfl
    · exact .same (Function.update_of_ne (Ne.symm hpath) ..) rfl
  all_goals exact .same rfl rfl

end Haybarn.Io.PageBuffer
