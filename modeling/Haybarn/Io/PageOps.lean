import Haybarn.Io.PageLinked

/-!
# What the operations of the page buffer change

For each operation of the pool: the users, the position and the state of a frame, the
references to a file and its frame list afterwards. Most operations leave most of these as
they are.
-/

namespace Haybarn.Io.PageBuffer

open Haybarn.Lib

namespace Pool

variable {P : Pool} {g f x k : Nat}

/-- The position of a frame in the list of its file. -/
def position (P : Pool) (g : Nat) : Option Nat := (P.frames g).map Frame.filePosition

/-- The frame list of a file. -/
def fileList (P : Pool) (f : Nat) : Option (NodeList Nat) := (P.files f).map File.frames

theorem map_modifyFrame {β : Type} (view : Frame → β) (h : Frame → Frame) :
    ((P.modifyFrame g h).frames x).map view =
      if x = g then (P.frames g).map fun F => view (h F) else (P.frames x).map view := by
  split
  next hx =>
    subst hx
    rw [modifyFrame_frames, Function.update_self, Option.map_map]
    rfl
  next hx => rw [modifyFrame_frames, Function.update_of_ne hx]

/-- `moveToLru` changes nothing but positions in the queues. -/
theorem map_moveToLru {β : Type} (view : Frame → β)
    (hview : ∀ F a b, view { F with fifoPosition := a, lruPosition := b } = view F) :
    ((P.moveToLru g).frames x).map view = (P.frames x).map view := by
  have hset : ∀ h : Frame → Frame, (∀ F, view (h F) = view F) →
      ((P.modifyFrame g h).frames x).map view = (P.frames x).map view := by
    intro h hh
    rw [map_modifyFrame]
    split
    next hx => rw [hx, funext hh]
    next => rfl
  unfold moveToLru
  split
  next => rfl
  next F hF =>
    split
    · exact hset _ fun F => hview F _ _
    · exact hset _ fun F => hview F _ _
    · exact hset _ fun F => hview F _ _

@[simp] theorem moveToLru_files : (P.moveToLru g).files = P.files := by
  unfold moveToLru
  split
  · rfl
  · split <;> rfl

@[simp] theorem eraseFrame_frames : (P.eraseFrame g).frames = Function.update P.frames g none := by
  unfold eraseFrame
  split
  next h => rw [← h, Function.update_eq_self]
  next => rfl

theorem insertFrame_frames (cfg : Config) {file : File} (hf : P.files (GetFileID g) = some file) :
    (P.insertFrame cfg g).frames = Function.update P.frames g (some (P.newFrame cfg file g)) := by
  unfold insertFrame
  split
  next hnone => cases hf.symm.trans hnone
  next file' hf' =>
    obtain rfl := Option.some.inj (hf.symm.trans hf')
    rfl

@[simp] theorem addRef_frames : (P.addRef f).frames = P.frames := rfl

@[simp] theorem dropRef_frames : (P.dropRef f).frames = P.frames := rfl

@[simp] theorem eraseFile_frames : (P.eraseFile f).frames = P.frames := by
  unfold eraseFile
  split <;> rfl

@[simp] theorem foldl_addRef_frames (order : List Nat) :
    (order.foldl addRef P).frames = P.frames := by
  induction order generalizing P with
  | nil => rfl
  | cons f rest ih => rw [List.foldl_cons, ih, addRef_frames]

theorem openNew_frames {path : String} {flags : FileFlags} {size : Nat} {P' : Pool}
    (ho : P.openNew path flags size = .ok (f, P')) : P'.frames = P.frames := by
  unfold openNew at ho
  cases ha : P.allocateFileId with
  | error e =>
    rw [ha] at ho
    cases ho
  | ok r =>
    rw [ha] at ho
    cases ho
    unfold allocateFileId at ha
    split at ha
    · cases ha
      rfl
    · split at ha
      · cases ha
      · cases ha
        rfl

/-! ### Users of frames -/

/-- An operation on frames that does not count users. -/
theorem users_keep {h : Frame → Frame} (hh : ∀ F, (h F).numUsers = F.numUsers) :
    (P.modifyFrame g h).users x = P.users x := by
  rw [users, map_modifyFrame, funext hh]
  split
  next hx => rw [hx]; rfl
  next => rfl

/-- An operation that counts `n` more users of a frame that is there. -/
theorem users_gain {h : Frame → Frame} {n : Nat} (hh : ∀ F, (h F).numUsers = F.numUsers + n)
    (hF : P.frames g ≠ none) :
    (P.modifyFrame g h).users x = P.users x + if x = g then n else 0 := by
  obtain ⟨F, hF⟩ := Option.ne_none_iff_exists'.mp hF
  rw [users, map_modifyFrame, hF]
  split
  next hx => simp [users, hx, hF, hh]
  next => rfl

theorem users_pin (hF : P.frames g ≠ none) :
    (P.modifyFrame g .pin).users x = P.users x + if x = g then 1 else 0 :=
  users_gain (fun _ => rfl) hF

theorem users_claim (hF : P.frames g ≠ none) :
    (P.modifyFrame g .claim).users x = P.users x + if x = g then 1 else 0 :=
  users_gain (fun _ => rfl) hF

theorem users_beginEviction (hF : P.frames g ≠ none) :
    (P.modifyFrame g .beginEviction).users x = P.users x + if x = g then 2 else 0 :=
  users_gain (fun _ => rfl) hF

@[simp] theorem users_unpin :
    (P.modifyFrame g .unpin).users x = P.users x - if x = g then 1 else 0 := by
  rw [users, map_modifyFrame]
  split
  next hx =>
    rw [users, hx]
    cases P.frames g <;> rfl
  next => rfl

@[simp] theorem users_moveToLru : (P.moveToLru g).users x = P.users x := by
  rw [users, map_moveToLru _ fun _ _ _ => rfl]
  rfl

@[simp] theorem users_eraseFrame :
    (P.eraseFrame g).users x = if x = g then 0 else P.users x := by
  rw [users, eraseFrame_frames]
  split
  next hx => rw [hx, Function.update_self]; rfl
  next hx => rw [Function.update_of_ne hx]; rfl

theorem users_insertFrame (cfg : Config) {file : File} (hf : P.files (GetFileID g) = some file) :
    (P.insertFrame cfg g).users x = if x = g then 1 else P.users x := by
  rw [users, insertFrame_frames cfg hf]
  split
  next hx => rw [hx, Function.update_self]; rfl
  next hx => rw [Function.update_of_ne hx]; rfl

@[simp] theorem users_addRef : (P.addRef f).users x = P.users x := rfl

@[simp] theorem users_dropRef : (P.dropRef f).users x = P.users x := rfl

@[simp] theorem users_eraseFile : (P.eraseFile f).users x = P.users x := by
  rw [users, eraseFile_frames, users]

@[simp] theorem users_foldl_addRef (order : List Nat) :
    (order.foldl addRef P).users x = P.users x := by
  rw [users, foldl_addRef_frames, users]

theorem present_of_isDirty (h : P.isDirty g = true) : P.frames g ≠ none := by
  intro hF
  rw [isDirty, hF] at h
  cases h

theorem users_of {F : Frame} (hF : P.frames g = some F) : P.users g = F.numUsers := by
  rw [users, hF, Option.map_some, Option.getD_some]

theorem users_of_none (hF : P.frames g = none) : P.users g = 0 := by
  rw [users, hF, Option.map_none, Option.getD_none]

theorem users_congr {P' : Pool} (h : P'.frames = P.frames) : P'.users = P.users := by
  funext x
  rw [users, h, users]

/-! ### Positions, states and lists -/

theorem position_keep {h : Frame → Frame} (hh : ∀ F, (h F).filePosition = F.filePosition) :
    (P.modifyFrame g h).position x = P.position x := by
  rw [position, map_modifyFrame, funext hh]
  split
  next hx => rw [hx]; rfl
  next => rfl

@[simp] theorem position_pin : (P.modifyFrame g .pin).position x = P.position x :=
  position_keep fun _ => rfl

@[simp] theorem position_unpin : (P.modifyFrame g .unpin).position x = P.position x :=
  position_keep fun _ => rfl

@[simp] theorem position_claim : (P.modifyFrame g .claim).position x = P.position x :=
  position_keep fun _ => rfl

@[simp] theorem position_beginEviction :
    (P.modifyFrame g .beginEviction).position x = P.position x :=
  position_keep fun _ => rfl

@[simp] theorem position_moveToLru : (P.moveToLru g).position x = P.position x :=
  map_moveToLru _ fun _ _ _ => rfl

theorem stateOf_keep {h : Frame → Frame} (hh : ∀ F, (h F).state = F.state) :
    (P.modifyFrame g h).stateOf x = P.stateOf x := by
  rw [stateOf, map_modifyFrame, funext hh]
  split
  next hx => rw [hx]; rfl
  next => rfl

@[simp] theorem stateOf_pin : (P.modifyFrame g .pin).stateOf x = P.stateOf x :=
  stateOf_keep fun _ => rfl

@[simp] theorem stateOf_unpin : (P.modifyFrame g .unpin).stateOf x = P.stateOf x :=
  stateOf_keep fun _ => rfl

@[simp] theorem stateOf_moveToLru : (P.moveToLru g).stateOf x = P.stateOf x :=
  map_moveToLru _ fun _ _ _ => rfl

theorem stateOf_set {h : Frame → Frame} {st : FrameState} (hh : ∀ F, (h F).state = st) :
    (P.modifyFrame g h).stateOf x = if x = g then (P.stateOf g).map fun _ => st else P.stateOf x := by
  rw [stateOf, map_modifyFrame, funext hh]
  split
  next => rw [stateOf, Option.map_map]; rfl
  next => rfl

@[simp] theorem stateOf_claim :
    (P.modifyFrame g .claim).stateOf x =
      if x = g ∧ P.stateOf g = some .evicting then some .reloaded else P.stateOf x := by
  rw [stateOf, map_modifyFrame]
  by_cases hx : x = g
  · rw [if_pos hx, hx]
    cases hF : P.frames g with
    | none => simp [stateOf, hF]
    | some F =>
      by_cases hs : F.state = .evicting
      · simp [stateOf, hF, Frame.claim, hs]
      · simp [stateOf, hF, Frame.claim, hs]
  · rw [if_neg hx, if_neg fun h => hx h.1]
    rfl

@[simp] theorem stateOf_eraseFrame :
    (P.eraseFrame g).stateOf x = if x = g then none else P.stateOf x := by
  rw [stateOf, eraseFrame_frames]
  split
  next hx => rw [hx, Function.update_self]; rfl
  next hx => rw [Function.update_of_ne hx]; rfl

theorem stateOf_insertFrame (cfg : Config) {file : File} (hf : P.files (GetFileID g) = some file) :
    (P.insertFrame cfg g).stateOf x = if x = g then some .loading else P.stateOf x := by
  rw [stateOf, insertFrame_frames cfg hf]
  split
  next hx => rw [hx, Function.update_self]; rfl
  next hx => rw [Function.update_of_ne hx]; rfl

@[simp] theorem stateOf_addRef : (P.addRef f).stateOf x = P.stateOf x := rfl

@[simp] theorem stateOf_dropRef : (P.dropRef f).stateOf x = P.stateOf x := rfl

theorem stateOf_congr {P' : Pool} (h : P'.frames = P.frames) : P'.stateOf x = P.stateOf x := by
  rw [stateOf, h, stateOf]

theorem position_congr {P' : Pool} (h : P'.frames = P.frames) : P'.position x = P.position x := by
  rw [position, h, position]

theorem fileList_modifyFile {h : File → File} (hh : ∀ file, (h file).frames = file.frames) :
    (P.modifyFile f h).fileList x = P.fileList x := by
  rw [fileList, modifyFile_files]
  by_cases hx : x = f
  · rw [hx, Function.update_self, Option.map_map, fileList]
    exact congrArg (fun k => (P.files f).map k) (funext hh)
  · rw [Function.update_of_ne hx, fileList]

theorem fileList_eraseFrame (hx : x ≠ GetFileID g) :
    (P.eraseFrame g).fileList x = P.fileList x := by
  unfold eraseFrame
  split
  next => rfl
  next => simp [fileList, hx]

theorem fileList_insertFrame (cfg : Config) (hx : x ≠ GetFileID g) :
    (P.insertFrame cfg g).fileList x = P.fileList x := by
  unfold insertFrame
  split
  next => rfl
  next => simp [fileList, hx]

theorem fileList_eraseFile (hx : x ≠ f) : (P.eraseFile f).fileList x = P.fileList x := by
  unfold eraseFile
  split
  next => rfl
  next => simp [fileList, hx]

theorem fileList_foldl_addRef (order : List Nat) :
    (order.foldl addRef P).fileList x = P.fileList x := by
  induction order generalizing P with
  | nil => rfl
  | cons f rest ih =>
    rw [List.foldl_cons, ih]
    exact fileList_modifyFile fun _ => rfl

theorem beginFrames_eq : P.beginFrames f = (P.fileList f).bind NodeList.first := by
  rw [beginFrames, fileList, Option.bind_map]
  rfl

theorem frameAt_eq : P.frameAt f k = (P.fileList f).bind fun l => l.get? k := by
  rw [frameAt, fileList, Option.bind_map]
  rfl

/-! ### References to files -/

theorem references_of {file : File} (hf : P.files f = some file) :
    P.references f = file.numUsers := by
  rw [references, hf, Option.map_some, Option.getD_some]

theorem references_of_none (hf : P.files f = none) : P.references f = 0 := by
  rw [references, hf, Option.map_none, Option.getD_none]

theorem references_modifyFile (h : File → File) :
    (P.modifyFile f h).references x =
      if x = f then ((P.files f).map fun file => (h file).numUsers).getD 0
      else P.references x := by
  rw [references, modifyFile_files]
  split
  next hx => rw [hx, Function.update_self, Option.map_map]; rfl
  next hx => rw [Function.update_of_ne hx]; rfl

theorem references_addRef (hf : P.files f ≠ none) :
    (P.addRef f).references x = P.references x + if x = f then 1 else 0 := by
  obtain ⟨file, hf⟩ := Option.ne_none_iff_exists'.mp hf
  rw [addRef, references_modifyFile]
  split
  next hx => rw [hx, references_of hf, hf]; rfl
  next => rfl

@[simp] theorem references_dropRef :
    (P.dropRef f).references x = P.references x - if x = f then 1 else 0 := by
  rw [dropRef, references_modifyFile]
  split
  next hx =>
    rw [hx, references]
    cases P.files f <;> rfl
  next => rfl

theorem modifyFile_files_ne_none {h : File → File} :
    (P.modifyFile f h).files x ≠ none ↔ P.files x ≠ none := by
  rw [modifyFile_files]
  by_cases hx : x = f
  · rw [hx, Function.update_self, ne_eq, Option.map_eq_none_iff]
  · rw [Function.update_of_ne hx]

theorem eraseFrame_files_ne_none : (P.eraseFrame g).files x ≠ none ↔ P.files x ≠ none := by
  unfold eraseFrame
  split
  next => rfl
  next => exact modifyFile_files_ne_none

theorem insertFrame_files_ne_none (cfg : Config) :
    (P.insertFrame cfg g).files x ≠ none ↔ P.files x ≠ none := by
  unfold insertFrame
  split
  next => rfl
  next file hf =>
    by_cases hx : x = GetFileID g
    · simp [hx, hf]
    · simp [hx]

theorem foldl_addRef_files_ne_none (order : List Nat) :
    (order.foldl addRef P).files x ≠ none ↔ P.files x ≠ none := by
  induction order generalizing P with
  | nil => rfl
  | cons f rest ih => rw [List.foldl_cons, ih, addRef, modifyFile_files_ne_none]

theorem references_foldl_addRef {order : List Nat} (h : ∀ f ∈ order, P.files f ≠ none) :
    (order.foldl addRef P).references x = P.references x + order.count x := by
  induction order generalizing P with
  | nil => simp
  | cons f rest ih =>
    rw [List.foldl_cons, ih, references_addRef (h f (List.mem_cons_self ..)), List.count_cons]
    · by_cases hx : x = f
      · simp only [hx, beq_self_eq_true, if_true]
        omega
      · simp [hx, Ne.symm hx]
    · exact fun f' hf' => modifyFile_files_ne_none.mpr (h f' (List.mem_cons_of_mem _ hf'))

@[simp] theorem references_modifyFrame (h : Frame → Frame) :
    (P.modifyFrame g h).references x = P.references x := rfl

@[simp] theorem references_moveToLru : (P.moveToLru g).references x = P.references x := by
  rw [references, moveToLru_files, references]

@[simp] theorem references_eraseFrame : (P.eraseFrame g).references x = P.references x := by
  unfold eraseFrame
  split
  next => rfl
  next F hF =>
    refine (references_modifyFile (P := P) _).trans ?_
    split
    next hx => rw [hx]; rfl
    next => rfl

@[simp] theorem references_insertFrame (cfg : Config) :
    (P.insertFrame cfg g).references x = P.references x := by
  unfold insertFrame
  split
  next => rfl
  next file hf =>
    by_cases hx : x = GetFileID g
    · simp [references, hx, hf]
    · simp [references, hx]

theorem references_eraseFile :
    (P.eraseFile f).references x = if x = f then 0 else P.references x := by
  unfold eraseFile
  split
  next hf =>
    split
    next hx => rw [hx, references_of_none hf]
    next => rfl
  next =>
    split
    next hx => simp [references, hx]
    next hx => simp [references, hx]

theorem fileIds_live {order : List Nat} (ho : order.Perm P.fileIds) :
    ∀ f ∈ order, P.files f ≠ none := by
  intro f hf
  have hmem := (List.mem_filter.mp (ho.mem_iff.mp hf)).2
  exact Option.isSome_iff_ne_none.mp hmem

end Pool

/-- The file that `OpenFile` adds has not been there, and the others are as they were. -/
theorem Linked.openNew_file {P P' : Pool} {path : String} {flags : FileFlags} {size f : Nat}
    (h : Linked P) (ho : P.openNew path flags size = .ok (f, P')) :
    P.files f = none ∧ (∀ {x}, x ≠ f → P'.fileList x = P.fileList x) ∧
      ∃ file, file.numUsers = 1 ∧ file.path = path ∧ file.fileSize = size ∧
        P'.files = Function.update P.files f (some file) := by
  unfold Pool.openNew at ho
  cases ha : P.allocateFileId with
  | error e =>
    rw [ha] at ho
    cases ho
  | ok r =>
    obtain ⟨f', P₁⟩ := r
    rw [ha] at ho
    cases ho
    obtain ⟨-, hfiles, -, hnone, -⟩ := h.allocateFileId ha
    refine ⟨hnone, fun hx => ?_,
      { path, flags, fileSize := size, numUsers := 1, frames := .empty }, rfl, rfl, rfl, ?_⟩
    · simp [Pool.fileList, hx, hfiles]
    · rw [← hfiles]

theorem Linked.references_openNew {P P' : Pool} {path : String} {flags : FileFlags} {size f : Nat}
    (h : Linked P) (ho : P.openNew path flags size = .ok (f, P')) (x : Nat) :
    P'.references x = P.references x + if x = f then 1 else 0 := by
  obtain ⟨hnone, -, file, huser, -, -, hfiles⟩ := h.openNew_file ho
  rw [Pool.references, hfiles]
  split
  next hx => rw [hx, Function.update_self, Pool.references_of_none hnone, Option.map_some, huser]; rfl
  next hx => rw [Function.update_of_ne hx]; rfl

theorem Linked.file_of_name {P : Pool} (h : Linked P) {path : String} {f : Nat}
    (hf : P.filesByName path = some f) : P.files f ≠ none := by
  intro hnone
  have hpath := (h.registered.named path f).mp hf
  rw [hnone] at hpath
  cases hpath

/-- The frame that an iterator points at. -/
theorem Linked.frameAt {P : Pool} {f k g : Nat} (h : Linked P) (hg : P.frameAt f k = some g) :
    GetFileID g = f ∧ P.position g = some k := by
  rw [Pool.frameAt] at hg
  obtain ⟨file, hfile, hk⟩ := Option.bind_eq_some_iff.mp hg
  have hpos := (h.listed hfile k g).mp (NodeList.get?_eq_some.mp hk)
  rw [Pool.filePos] at hpos
  split at hpos
  next hf => exact ⟨hf, hpos⟩
  next => cases hpos

theorem Linked.addRef {P : Pool} {f : Nat} (h : Linked P) : Linked (P.addRef f) :=
  h.modifyFile _ (fun _ => rfl) fun _ => rfl

theorem Linked.dropRef {P : Pool} {f : Nat} (h : Linked P) : Linked (P.dropRef f) :=
  h.modifyFile _ (fun _ => rfl) fun _ => rfl

theorem Linked.foldl_addRef {P : Pool} (h : Linked P) (order : List Nat) :
    Linked (order.foldl Pool.addRef P) := by
  induction order generalizing P with
  | nil => exact h
  | cons f rest ih => exact ih h.addRef

theorem beginFrames_dropRef {P : Pool} {f x : Nat} :
    (P.dropRef f).beginFrames x = P.beginFrames x := by
  rw [Pool.beginFrames, Pool.beginFrames, Pool.dropRef, Pool.modifyFile_files]
  by_cases hx : x = f
  · rw [hx, Function.update_self]
    cases P.files f <;> rfl
  · rw [Function.update_of_ne hx]

theorem Linked.unpin {P : Pool} {g : Nat} (h : Linked P) : Linked (P.modifyFrame g .unpin) :=
  h.modifyFrame _ (fun _ => rfl) (fun _ => rfl) fun _ => rfl

theorem Linked.claim {P : Pool} {g : Nat} (h : Linked P) : Linked (P.modifyFrame g .claim) :=
  h.modifyFrame _ (fun _ => rfl) (fun _ => rfl) fun _ => rfl

end Haybarn.Io.PageBuffer
