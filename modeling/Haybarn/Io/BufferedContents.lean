import Haybarn.Io.BufferedFiles
import Haybarn.Io.PlacedWrites

/-!
# What the paths contain

`contents` is what opening a path finds: the bytes of the buffered file, or what the filesystem
underneath has under that name. A file that is buffered is `At` its path if its handle refers to
what has that name, and its frames are coherent with it; `good` says of which files that is asked.
While files are at their paths, an operation on one path changes what the others contain in no way
(`Local`), and releasing, flushing, evicting and forgetting a file do not change what it contains.
-/

namespace Haybarn.Io.BufferedFiles

open Haybarn.Lib Haybarn.Io.PagedFile

/-- Nothing in either case, or the same bytes. -/
def SameContents : Option Contents → Option Contents → Prop
  | some a, some b => a.Same b
  | none, none => True
  | _, _ => False

theorem SameContents.refl : ∀ a : Option Contents, SameContents a a
  | some a => Contents.Same.refl a
  | none => trivial

theorem SameContents.symm : ∀ {a b : Option Contents}, SameContents a b → SameContents b a
  | some _, some _, h => ⟨h.1.symm, fun i hi => (h.2 i (h.1 ▸ hi)).symm⟩
  | none, none, _ => trivial

theorem SameContents.of_eq {a b : Option Contents} (h : a = b) : SameContents a b := h ▸ .refl a

theorem SameContents.trans : ∀ {a b c : Option Contents}, SameContents a b → SameContents b c →
    SameContents a c
  | some _, some _, some _, h, h' => Contents.Same.trans h h'
  | none, none, none, _, _ => trivial
  | none, some _, _, h, _ => h.elim
  | some _, none, _, h, _ => h.elim
  | _, some _, none, _, h' => h'.elim
  | _, none, some _, _, h' => h'.elim

/-- What opening a path makes of its contents. -/
def Underneath.opened (fs : Underneath) (flags : FileOpenFlags) :
    Option Contents → Option Contents
  | some c => some (if fs.truncates flags then .empty else c)
  | none => if fs.creates flags then some .empty else none

namespace BufferedFile

variable {f : BufferedFile} {file : File} {cfg : Config}

/-- The file that has been stored is the file that was to be. -/
theorem coherent_update (hc : file.Coherent cfg) :
    ((f.update file).file ⟨file.diskSize, file.disk⟩).Coherent cfg :=
  ⟨⟨hc.sizes.sized, fun _ h => absurd h List.not_mem_nil⟩, hc.diskSize, hc.clean⟩

end BufferedFile

namespace BufferedFileSystem

variable {fs : Underneath} {cfg : Config} {good : FileOpenFlags → Prop}
variable {s s' : BufferedFileSystem} {p q : String} {f : BufferedFile} {h : FileHandle}

/-- The file, over what its handle refers to. -/
def fileOf (s : BufferedFileSystem) (f : BufferedFile) : File :=
  f.file (match f.handle with
    | some h => s.disk.inodes h.inode
    | none => .empty)

/-- What opening the path finds. -/
def contents (cfg : Config) (s : BufferedFileSystem) (p : String) : Option Contents :=
  match s.files p with
  | some f => some ⟨f.file_size, (s.fileOf f).view cfg⟩
  | none => (s.disk.names p).map s.disk.inodes

/-- The buffered file is the one that the path is the name of. -/
structure At (cfg : Config) (good : FileOpenFlags → Prop) (s : BufferedFileSystem) (p : String)
    (f : BufferedFile) : Prop where
  linked : ∃ h, f.handle = some h ∧ s.disk.names p = some h.inode
  coherent : good f.file_flags → (s.fileOf f).Coherent cfg

def users (s : BufferedFileSystem) (p : String) : Nat :=
  ((s.files p).map BufferedFile.num_users).getD 0

/-- The users of a file are its references. -/
def Counted (s : BufferedFileSystem) : Prop :=
  ∀ p, s.refs.countP (fun r => decide (r.path = p)) = s.users p

/-- **What holds of every file that is buffered.** -/
structure Inv (cfg : Config) (good : FileOpenFlags → Prop) (s : BufferedFileSystem) : Prop where
  buffered : ∀ p f, s.files p = some f → s.At cfg good p f
  counted : s.Counted

/-- Nothing changes but what is at this path. -/
structure Local (s s' : BufferedFileSystem) (p : String) : Prop where
  files : ∀ q, q ≠ p → s'.files q = s.files q
  names : ∀ q, q ≠ p → s'.disk.names q = s.disk.names q
  inodes : ∀ q i, q ≠ p → s.disk.names q = some i → s'.disk.inodes i = s.disk.inodes i

/-- The path contains what it contained, if it is asked. -/
def KeepsContents (cfg : Config) (good : FileOpenFlags → Prop) (s s' : BufferedFileSystem)
    (p : String) : Prop :=
  (∀ f, s.files p = some f → good f.file_flags) → SameContents (s.contents cfg p)
    (s'.contents cfg p)

/-! ## Local operations -/

theorem Local.refl (s : BufferedFileSystem) (p : String) : s.Local s p :=
  ⟨fun _ _ => rfl, fun _ _ => rfl, fun _ _ _ _ => rfl⟩

theorem Local.trans {s'' : BufferedFileSystem} (h : s.Local s' p) (h' : s'.Local s'' p) :
    s.Local s'' p := by
  refine ⟨fun q hq => (h'.files q hq).trans (h.files q hq),
    fun q hq => (h'.names q hq).trans (h.names q hq), fun q i hq hi => ?_⟩
  rw [h'.inodes q i hq ((h.names q hq).trans hi), h.inodes q i hq hi]

theorem Local.fileOf (hlocal : s.Local s' p) (hq : q ≠ p) (hat : s.At cfg good q f) :
    s'.fileOf f = s.fileOf f := by
  obtain ⟨h, hh, hname⟩ := hat.linked
  unfold BufferedFileSystem.fileOf
  rw [hh]
  dsimp only
  rw [hlocal.inodes q h.inode hq hname]

theorem Local.at (hlocal : s.Local s' p) (hq : q ≠ p) (hat : s.At cfg good q f) :
    s'.At cfg good q f := by
  obtain ⟨h, hh, hname⟩ := hat.linked
  refine ⟨⟨h, hh, (hlocal.names q hq).trans hname⟩, fun hgood => ?_⟩
  rw [hlocal.fileOf hq hat]
  exact hat.coherent hgood

/-- The other paths contain what they contained. -/
theorem Local.contents (hlocal : s.Local s' p) (hq : q ≠ p)
    (hat : ∀ f, s.files q = some f → s.At cfg good q f) :
    s'.contents cfg q = s.contents cfg q := by
  unfold BufferedFileSystem.contents
  rw [hlocal.files q hq]
  cases hf : s.files q with
  | some f =>
    dsimp only
    rw [hlocal.fileOf hq (hat f hf)]
  | none =>
    dsimp only
    rw [hlocal.names q hq]
    cases hname : s.disk.names q with
    | none => rfl
    | some i =>
      rw [Option.map_some, Option.map_some, hlocal.inodes q i hq hname]

/-- The files at the other paths are at them still. -/
theorem Local.buffered (hlocal : s.Local s' p)
    (hat : ∀ q f, s.files q = some f → s.At cfg good q f)
    (hp : ∀ f, s'.files p = some f → s'.At cfg good p f) :
    ∀ q f, s'.files q = some f → s'.At cfg good q f := by
  intro q f hf
  by_cases hq : q = p
  · rw [hq] at hf ⊢
    exact hp f hf
  · rw [hlocal.files q hq] at hf
    exact hlocal.at hq (hat q f hf)

/-! ## Storing a file -/

theorem store_files (f : BufferedFile) (h : FileHandle) (file : File) :
    (s.store p f h file).files p = some (f.update file) := Function.update_self ..

theorem store_local (hf : s.disk.names p = some h.inode) (file : File) :
    s.Local (s.store p f h file) p := by
  refine ⟨fun q hq => Function.update_of_ne hq .., fun q hq => rfl, fun q i hq hi => ?_⟩
  -- no other path is a name of the file
  refine Function.update_of_ne ?_ ..
  rintro rfl
  exact hq (s.disk.names_inj q p _ hi hf)

theorem fileOf_store (hh : f.handle = some h) (file : File) :
    (s.store p f h file).fileOf (f.update file)
      = (f.update file).file ⟨file.diskSize, file.disk⟩ := by
  have hnow : (f.update file).handle = some h := hh
  unfold fileOf
  rw [hnow]
  exact congrArg _ (Function.update_self ..)

theorem contents_store (hh : f.handle = some h) (file : File) :
    (s.store p f h file).contents cfg p = some ⟨file.fileSize, file.view cfg⟩ := by
  unfold contents
  rw [store_files]
  dsimp only
  rw [fileOf_store hh]
  rfl

theorem store_at (hh : f.handle = some h) (hname : s.disk.names p = some h.inode) {file : File}
    (hc : good f.file_flags → file.Coherent cfg) :
    (s.store p f h file).At cfg good p (f.update file) := by
  refine ⟨⟨h, hh, hname⟩, fun hgood => ?_⟩
  rw [fileOf_store hh]
  exact BufferedFile.coherent_update (hc hgood)

theorem fileOf_eq (hh : f.handle = some h) :
    s.fileOf f = f.file (s.disk.inodes h.inode) := by
  unfold BufferedFileSystem.fileOf
  rw [hh]

/-! ## Operations that change no byte -/

/-- What an operation on a path may do. -/
structure Touches (cfg : Config) (good : FileOpenFlags → Prop) (s s' : BufferedFileSystem)
    (p : String) : Prop where
  elsewhere : s.Local s' p
  buffered : ∀ f, s'.files p = some f → s'.At cfg good p f

/-- What an operation on a path may do that changes no byte of it. -/
structure Quiet (cfg : Config) (good : FileOpenFlags → Prop) (s s' : BufferedFileSystem)
    (p : String) : Prop extends Touches cfg good s s' p where
  keeps : s.KeepsContents cfg good s' p
  /-- The file is not another one. -/
  flags : ∀ f', s'.files p = some f' → ∃ f, s.files p = some f ∧ f'.file_flags = f.file_flags

theorem Quiet.refl (hat : ∀ f, s.files p = some f → s.At cfg good p f) :
    s.Quiet cfg good s p :=
  ⟨⟨.refl s p, hat⟩, fun _ => .refl _, fun f' hf' => ⟨f', hf', rfl⟩⟩

theorem Quiet.trans {s'' : BufferedFileSystem} (h : s.Quiet cfg good s' p)
    (h' : s'.Quiet cfg good s'' p) : s.Quiet cfg good s'' p := by
  refine ⟨⟨h.elsewhere.trans h'.elsewhere, h'.buffered⟩, fun hgood => ?_, fun f'' hf'' => ?_⟩
  · refine (h.keeps hgood).trans (h'.keeps fun f' hf' => ?_)
    obtain ⟨f, hf, hflags⟩ := h.flags f' hf'
    rw [hflags]
    exact hgood f hf
  · obtain ⟨f', hf', hflags'⟩ := h'.flags f'' hf''
    obtain ⟨f, hf, hflags⟩ := h.flags f' hf'
    exact ⟨f, hf, hflags'.trans hflags⟩

/-- A path that an operation keeps, or that it has nothing to do with. -/
theorem Quiet.keepsAll (hquiet : s.Quiet cfg good s' p)
    (hat : ∀ p f, s.files p = some f → s.At cfg good p f) (q : String) :
    s.KeepsContents cfg good s' q := by
  by_cases hq : q = p
  · rw [hq]
    exact hquiet.keeps
  · exact fun _ => .of_eq (hquiet.elsewhere.contents hq (hat q)).symm

theorem quiet_onFile (hat : ∀ f, s.files p = some f → s.At cfg good p f) {k : File → File}
    (hk : ∀ file : File, file.Coherent cfg → file.SameBytes cfg (k file)) :
    s.Quiet cfg good (s.onFile p k) p := by
  unfold onFile
  split
  · exact .refl hat
  · next f hf =>
    obtain ⟨h, hh, hname⟩ := (hat f hf).linked
    rw [hh]
    dsimp only
    have hsame : good f.file_flags → _ := fun hgood => hk _ ((hat f hf).coherent hgood)
    rw [fileOf_eq hh] at hsame
    refine ⟨⟨store_local hname _, fun f' hf' => ?_⟩, fun hgood => ?_, fun f' hf' => ?_⟩
    · rw [store_files] at hf'
      obtain rfl := Option.some.inj hf'
      exact store_at hh hname fun hgood => (hsame hgood).coherent
    · have hsame := hsame (hgood f hf)
      rw [contents_store hh]
      unfold contents
      rw [hf]
      dsimp only
      rw [fileOf_eq hh]
      exact ⟨hsame.fileSize.symm, fun i hi => (hsame.view i hi).symm⟩
    · rw [store_files] at hf'
      obtain rfl := Option.some.inj hf'
      exact ⟨f, hf, rfl⟩

theorem modifyFile_files (k : BufferedFile → BufferedFile) :
    (s.modifyFile p k).files p = (s.files p).map k := Function.update_self ..

/-- A change of a file that is still over the same one: a count of users, or a handle. -/
def SameFile (k : BufferedFile → BufferedFile) (f : BufferedFile) : Prop :=
  ∃ h h', f.handle = some h ∧ (k f).handle = some h' ∧ h'.inode = h.inode
    ∧ (k f).file = f.file ∧ (k f).file_flags = f.file_flags

theorem fileOf_modifyFile {k : BufferedFile → BufferedFile} (hk : SameFile k f) :
    (s.modifyFile p k).fileOf (k f) = s.fileOf f := by
  obtain ⟨h, h', hh, hh', hinode, hkf, -⟩ := hk
  unfold fileOf
  rw [hh, hh', hkf]
  dsimp only
  rw [hinode]
  rfl

theorem contents_modifyFile {k : BufferedFile → BufferedFile}
    (hk : ∀ f, s.files p = some f → SameFile k f) :
    (s.modifyFile p k).contents cfg p = s.contents cfg p := by
  unfold contents
  rw [modifyFile_files]
  cases hf : s.files p with
  | none => rfl
  | some f =>
    have hkept := @fileOf_modifyFile s p f k (hk f hf)
    obtain ⟨_, _, -, -, -, hkf, -⟩ := hk f hf
    have hsize : (k f).file_size = f.file_size := congrArg (fun g => (g .empty).fileSize) hkf
    rw [Option.map_some]
    dsimp only
    rw [hkept, hsize]

theorem quiet_modifyFile (hat : ∀ f, s.files p = some f → s.At cfg good p f)
    {k : BufferedFile → BufferedFile} (hk : ∀ f, s.files p = some f → SameFile k f) :
    s.Quiet cfg good (s.modifyFile p k) p := by
  have hfile : ∀ f', (s.modifyFile p k).files p = some f' → ∃ f, s.files p = some f ∧ f' = k f := by
    intro f' hf'
    rw [modifyFile_files] at hf'
    obtain ⟨f, hf, rfl⟩ := Option.map_eq_some_iff.mp hf'
    exact ⟨f, hf, rfl⟩
  refine ⟨⟨⟨fun q hq => Function.update_of_ne hq .., fun _ _ => rfl, fun _ _ _ _ => rfl⟩,
    fun f' hf' => ?_⟩, fun _ => .of_eq (contents_modifyFile hk).symm, fun f' hf' => ?_⟩
  · obtain ⟨f, hf, rfl⟩ := hfile f' hf'
    have hkept := @fileOf_modifyFile s p f k (hk f hf)
    obtain ⟨h, h', hh, hh', hinode, -, hflags⟩ := hk f hf
    obtain ⟨h₀, hh₀, hname⟩ := (hat f hf).linked
    obtain rfl := Option.some.inj (hh.symm.trans hh₀)
    refine ⟨⟨h', hh', hinode ▸ hname⟩, fun hgood => ?_⟩
    rw [hkept]
    exact (hat f hf).coherent (hflags ▸ hgood)
  · obtain ⟨f, hf, rfl⟩ := hfile f' hf'
    obtain ⟨_, _, -, -, -, -, hflags⟩ := hk f hf
    exact ⟨f, hf, hflags⟩

/-- A count of users does not change what the file is over. -/
theorem At.counted (hat : s.At cfg good p f) (n : BufferedFile → Nat) :
    SameFile (fun f => { f with num_users := n f }) f := by
  obtain ⟨h, hh, -⟩ := hat.linked
  exact ⟨h, h, hh, hh, rfl, rfl, rfl⟩

/-- A file that is forgotten is on the disk. -/
theorem quiet_forget (hat : ∀ f, s.files p = some f → s.At cfg good p f) :
    s.Quiet cfg good (s.forget cfg p) p := by
  have hflush := quiet_onFile hat (k := fun file => file.makeRoom cfg file.pages)
    fun file hc => File.SameBytes.makeRoom file.pages hc
  have hnone : (s.forget cfg p).files p = none := Function.update_self ..
  refine ⟨⟨hflush.elsewhere.trans
    ⟨fun q hq => Function.update_of_ne hq .., fun _ _ => rfl, fun _ _ _ _ => rfl⟩,
    fun f' hf' => ?_⟩, fun hgood => (hflush.keeps hgood).trans ?_, fun f' hf' => ?_⟩
  · rw [hnone] at hf'
    cases hf'
  · -- all frames have been discarded, so that what is left is what the disk has
    unfold contents
    rw [hnone]
    dsimp only
    cases hf : s.files p with
    | none =>
      have hsame : s.onFile p (fun file => file.makeRoom cfg file.pages) = s := by
        rw [onFile, hf]
      unfold forget
      dsimp only
      rw [hsame, hf]
      exact .refl _
    | some f =>
      obtain ⟨h, hh, hname⟩ := (hat f hf).linked
      have hstore : s.onFile p (fun file => file.makeRoom cfg file.pages)
          = s.store p f h ((f.file (s.disk.inodes h.inode)).makeRoom cfg
            (f.file (s.disk.inodes h.inode)).pages) := by
        rw [onFile, hf]
        dsimp only
        rw [hh]
      have hc := (File.SameBytes.makeRoom (f.file (s.disk.inodes h.inode)).pages
        (fileOf_eq hh ▸ (hat f hf).coherent (hgood f hf))).coherent
      have hview := @File.view_discard cfg (f.file (s.disk.inodes h.inode))
      unfold forget
      dsimp only
      rw [hstore, store_files]
      dsimp only
      rw [fileOf_store hh]
      generalize (f.file (s.disk.inodes h.inode)).makeRoom cfg _ = file at *
      have hdisk : (s.store p f h file).disk.names p = some h.inode := hname
      have hinode : (s.store p f h file).disk.inodes h.inode = ⟨file.diskSize, file.disk⟩ :=
        Function.update_self ..
      rw [hdisk, Option.map_some, hinode]
      exact ⟨hc.diskSize.symm, fun i _ => hview i⟩
  · rw [hnone] at hf'
    cases hf'

theorem quiet_release (hat : ∀ f, s.files p = some f → s.At cfg good p f)
    (keep_dangling : Bool) : s.Quiet cfg good (s.Release cfg p keep_dangling) p := by
  unfold Release
  split
  · exact .refl hat
  · split
    · exact quiet_modifyFile hat fun f hf => (hat f hf).counted fun f => f.num_users - 1
    · exact quiet_forget hat

theorem quiet_acquire (hat : ∀ f, s.files p = some f → s.At cfg good p f) :
    s.Quiet cfg good (s.acquire p) p :=
  quiet_modifyFile hat fun f hf => (hat f hf).counted fun f => f.num_users + 1

/-! ## Opening -/

theorem quiet_newRef (hat : ∀ f, s.files p = some f → s.At cfg good p f) (flags : FileOpenFlags) :
    s.Quiet cfg good (s.newRef p flags).1 p := by
  have hacquire := quiet_acquire hat
  exact ⟨⟨⟨hacquire.elsewhere.files, hacquire.elsewhere.names, hacquire.elsewhere.inodes⟩,
    fun f hf => ⟨(hacquire.buffered f hf).linked, (hacquire.buffered f hf).coherent⟩⟩,
    hacquire.keeps, hacquire.flags⟩

theorem contents_newRef (hat : ∀ f, s.files p = some f → s.At cfg good p f)
    (flags : FileOpenFlags) : (s.newRef p flags).1.contents cfg p = s.contents cfg p :=
  contents_modifyFile fun f hf => (hat f hf).counted fun f => f.num_users + 1

/-- The filesystem underneath opens the file of a path. -/
theorem disk_openFile (d : Disk) (p : String) (flags : FileOpenFlags) :
    (∀ q, q ≠ p → (d.OpenFile fs p flags).1.names q = d.names q)
      ∧ (∀ q i, q ≠ p → d.names q = some i → (d.OpenFile fs p flags).1.inodes i = d.inodes i)
      ∧ ((d.OpenFile fs p flags).1.names p).map (d.OpenFile fs p flags).1.inodes
        = fs.opened flags ((d.names p).map d.inodes)
      ∧ ∀ h, (d.OpenFile fs p flags).2 = .ok (some h) →
        (d.OpenFile fs p flags).1.names p = some h.inode := by
  unfold Disk.OpenFile
  split
  · next i hi =>
    refine ⟨fun q _ => ?_, fun q j hq hj => ?_, ?_, fun h hh => ?_⟩
    · dsimp only
      split <;> rfl
    · dsimp only
      split
      · refine Function.update_of_ne ?_ ..
        rintro rfl
        exact hq (d.names_inj q p _ hj hi)
      · rfl
    · unfold Underneath.opened
      dsimp only
      split
      · show (d.names p).map (Function.update d.inodes i .empty) = _
        rw [hi, Option.map_some, Function.update_self]
        rfl
      · rw [hi]
        rfl
    · injection hh with hh
      obtain rfl := Option.some.inj hh
      dsimp only
      split <;> exact hi
  · next hnone =>
    rw [hnone]
    unfold Underneath.opened
    dsimp only [Option.map_none]
    by_cases hcreate : fs.creates flags = true
    · rw [if_pos hcreate, if_pos hcreate]
      refine ⟨fun q hq => Function.update_of_ne hq .., fun q j hq hj => ?_, ?_, fun h hh => ?_⟩
      · refine Function.update_of_ne ?_ ..
        exact Nat.ne_of_lt (d.names_lt q j hj)
      · show (Function.update d.names p (some d.nextInode) p).map
          (Function.update d.inodes d.nextInode .empty) = some .empty
        rw [Function.update_self, Option.map_some, Function.update_self]
      · injection hh with hh
        obtain rfl := Option.some.inj hh
        exact Function.update_self ..
    · rw [if_neg hcreate, if_neg hcreate]
      have hsame : ∀ r : Except String (Option FileHandle), (∀ h, r ≠ .ok (some h)) →
          (∀ q, q ≠ p → (d, r).1.names q = d.names q)
            ∧ (∀ q i, q ≠ p → d.names q = some i → (d, r).1.inodes i = d.inodes i)
            ∧ ((d, r).1.names p).map (d, r).1.inodes = none
            ∧ ∀ h, (d, r).2 = .ok (some h) → (d, r).1.names p = some h.inode := by
        intro r hr
        refine ⟨fun _ _ => rfl, fun _ _ _ _ => rfl, ?_, fun h hh => absurd hh (hr h)⟩
        show (d.names p).map d.inodes = none
        rw [hnone]
        rfl
      split
      · exact hsame _ (by simp)
      · exact hsame _ (by simp)

/-- A file that is reopened is still at its path, if it is not one that must not be emptied. -/
theorem quiet_reopen (hat : ∀ f, s.files p = some f → s.At cfg good p f) {flags : FileOpenFlags}
    (hf : s.files p = some f) (hgood : fs.truncates flags = true → ¬ good f.file_flags) :
    s.Quiet cfg good (s.ReOpen fs cfg p flags).1 p := by
  obtain ⟨h, hh, hname⟩ := (hat f hf).linked
  have hopen : s.disk.OpenFile fs p flags
      = (if fs.truncates flags then s.disk.write h.inode .empty else s.disk,
        .ok (some ⟨h.inode, flags⟩)) := by
    unfold Disk.OpenFile
    rw [hname]
  obtain ⟨hnames, hinodes, -, hhandle⟩ := @disk_openFile fs s.disk p flags
  have hname' := hhandle ⟨h.inode, flags⟩ (congrArg (·.2) hopen)
  have hkeep : good f.file_flags → (s.disk.OpenFile fs p flags).1 = s.disk := by
    intro hg
    rw [hopen]
    exact if_neg fun ht => hgood ht hg
  have hanswer : (s.disk.OpenFile fs p flags).2 = .ok (some ⟨h.inode, flags⟩) :=
    congrArg (·.2) hopen
  unfold ReOpen
  generalize s.disk.OpenFile fs p flags = r at *
  obtain ⟨disk, answer⟩ := r
  dsimp only at *
  rw [hanswer]
  dsimp only
  -- the disk may be emptied, and then the handles are swapped
  have hbefore : s.Quiet cfg good { s with disk } p := by
    refine ⟨⟨⟨fun _ _ => rfl, hnames, hinodes⟩, fun f' hf' => ?_⟩, fun hg => ?_,
      fun f' hf' => ⟨f', hf', rfl⟩⟩
    · obtain rfl := Option.some.inj (hf.symm.trans hf')
      refine ⟨⟨h, hh, hname'⟩, fun hg => ?_⟩
      rw [hkeep hg]
      exact (hat f hf).coherent hg
    · rw [hkeep (hg f hf)]
      exact .refl _
  have hswap := quiet_modifyFile hbefore.buffered
    (k := fun f => { f with handle := some ⟨h.inode, flags⟩ }) fun f' hf' => by
      obtain rfl := Option.some.inj (hf.symm.trans hf')
      exact ⟨h, ⟨h.inode, flags⟩, hh, rfl, rfl, rfl, rfl⟩
  exact (hbefore.trans hswap).trans (quiet_newRef hswap.buffered flags)

/-- A file that is buffered anew. -/
theorem buffer_touches {disk : Disk}
    (hnames : ∀ q, q ≠ p → disk.names q = s.disk.names q)
    (hinodes : ∀ q i, q ≠ p → s.disk.names q = some i → disk.inodes i = s.disk.inodes i)
    (hname : disk.names p = some h.inode) (flags : FileOpenFlags) :
    s.Touches cfg good ({ s with disk }.buffer p flags h) p
      ∧ ({ s with disk }.buffer p flags h).contents cfg p = some (disk.inodes h.inode) := by
  have hfile : ({ s with disk }.buffer p flags h).files p
      = some ⟨some h, flags, (disk.inodes h.inode).size, 0, []⟩ := Function.update_self ..
  refine ⟨⟨⟨fun q hq => Function.update_of_ne hq .., hnames, hinodes⟩, fun f hf => ?_⟩, ?_⟩
  · rw [hfile] at hf
    obtain rfl := Option.some.inj hf
    exact ⟨⟨h, rfl, hname⟩, fun _ => File.coherent_opened ..⟩
  · unfold contents
    rw [hfile]
    rfl

/-- Opening a file that is not buffered. -/
theorem open_unbuffered (hnone : s.files p = none) (flags : FileOpenFlags) (idLeft : Bool) :
    s.Touches cfg good (s.OpenFile fs cfg p flags idLeft).1 p
      ∧ SameContents ((s.OpenFile fs cfg p flags idLeft).1.contents cfg p)
        (fs.opened flags (s.contents cfg p)) := by
  have hcontents : s.contents cfg p = (s.disk.names p).map s.disk.inodes := by
    unfold contents
    rw [hnone]
  obtain ⟨hnames, hinodes, hopened, hhandle⟩ := @disk_openFile fs s.disk p flags
  unfold OpenFile
  rw [hnone, hcontents]
  dsimp only
  generalize s.disk.OpenFile fs p flags = r at *
  obtain ⟨disk, answer⟩ := r
  dsimp only at *
  rw [← hopened]
  have hstay : s.Touches cfg good { s with disk } p
      ∧ SameContents (BufferedFileSystem.contents cfg { s with disk } p)
        ((disk.names p).map disk.inodes) := by
    refine ⟨⟨⟨fun _ _ => rfl, hnames, hinodes⟩, fun f hf => ?_⟩, .of_eq ?_⟩
    · have hf : s.files p = some f := hf
      rw [hnone] at hf
      cases hf
    · unfold contents
      dsimp only
      rw [hnone]
  rcases answer with e | _ | h
  · exact hstay
  · exact hstay
  · have hname := hhandle h rfl
    cases idLeft with
    | true =>
      obtain ⟨htouch, hbytes⟩ := @buffer_touches cfg good s p h disk hnames hinodes hname flags
      have hnew := quiet_newRef htouch.buffered flags
      refine ⟨⟨htouch.elsewhere.trans hnew.elsewhere, hnew.buffered⟩, .of_eq ?_⟩
      have hsame := (contents_newRef htouch.buffered flags).trans hbytes
      rw [hname]
      exact hsame
    | false => exact hstay

end BufferedFileSystem

end Haybarn.Io.BufferedFiles
