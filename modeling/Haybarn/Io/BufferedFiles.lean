import Haybarn.Io.FileRefines
import Haybarn.Lib.Run

/-!
# The files of the page buffer

`BufferedFileSystem` (lib/src/io/buffered_filesystem.cc) opens files by their path in a
`FilePageBuffer` (lib/src/io/file_page_buffer.cc), which shares what it has buffered: a path that is
buffered is opened, reopened, released, kept without users and forgotten, while the calls on its
references go on. One file and its calls are in `PagedFile` and `BufferedFile`; this is the table
of the files, over a filesystem with names.

Mirroring notes:
- One call runs after the other. `DropDanglingFiles` is `TryDropFile` of one file after the other,
  and `FlushFiles` is `FlushFile`; a page of any file may be evicted between two calls.
- `BufferedFile` is found by its path, which it keeps; references are numbered in the order in which
  they were opened. `num_users` does not overflow. A file gets an id if one is left (`idLeft`).
- Files with direct I/O are not buffered, and are left out with `file_configs_`; so are statistics.
- What the filesystem underneath makes of flags is a parameter. Its handles refer to files, not to
  their names, and it checks neither the flags nor the position of what is read and written.
- Calls through a handle that is null are no steps: they do not return.
-/

namespace Haybarn.Io.BufferedFiles

open Haybarn.Lib Haybarn.Io.PagedFile

/-! ## Flags -/

inductive FileLockType
  | NO_LOCK | READ_LOCK | WRITE_LOCK
  deriving DecidableEq, Repr

/-- The flags of an open, with the bits of `FileFlags` (bindings/runtime.ts). -/
structure FileOpenFlags where
  flags : BitVec 64
  lock : FileLockType := .NO_LOCK
  deriving DecidableEq, Repr

namespace FileOpenFlags

variable (f : FileOpenFlags)

def OpenForReading : Bool := f.flags.getLsbD 0
def OpenForWriting : Bool := f.flags.getLsbD 1
def OpenForAppending : Bool := f.flags.getLsbD 5
def ReturnNullIfNotExists : Bool := f.flags.getLsbD 7

end FileOpenFlags

/-! ## The filesystem underneath -/

abbrev Inode := Nat

structure FileHandle where
  inode : Inode
  flags : FileOpenFlags

/-- Which flags make `OpenFile` create a file that is not there, and empty one that is. -/
structure Underneath where
  creates : FileOpenFlags → Bool
  truncates : FileOpenFlags → Bool

/-- Files, each with one name at most. -/
structure Disk where
  names : String → Option Inode
  inodes : Inode → Contents
  nextInode : Inode
  names_inj : ∀ p q i, names p = some i → names q = some i → p = q
  names_lt : ∀ p i, names p = some i → i < nextInode

namespace Disk

variable (d : Disk)

def write (i : Inode) (c : Contents) : Disk := { d with inodes := Function.update d.inodes i c }

def create (path : String) : Disk where
  names := Function.update d.names path (some d.nextInode)
  inodes := Function.update d.inodes d.nextInode .empty
  nextInode := d.nextInode + 1
  names_inj := by
    intro p q i hp hq
    by_cases hpp : p = path <;> by_cases hqp : q = path
    · rw [hpp, hqp]
    · rw [hpp, Function.update_self] at hp
      rw [Function.update_of_ne hqp] at hq
      obtain rfl := Option.some.inj hp
      exact absurd (d.names_lt q _ hq) (Nat.lt_irrefl _)
    · rw [Function.update_of_ne hpp] at hp
      rw [hqp, Function.update_self] at hq
      obtain rfl := Option.some.inj hq
      exact absurd (d.names_lt p _ hp) (Nat.lt_irrefl _)
    · rw [Function.update_of_ne hpp] at hp
      rw [Function.update_of_ne hqp] at hq
      exact d.names_inj p q i hp hq
  names_lt := by
    intro p i hp
    by_cases hpp : p = path
    · rw [hpp, Function.update_self] at hp
      obtain rfl := Option.some.inj hp
      exact Nat.lt_succ_self _
    · rw [Function.update_of_ne hpp] at hp
      exact Nat.lt_succ_of_lt (d.names_lt p i hp)

def OpenFile (fs : Underneath) (path : String) (flags : FileOpenFlags) :
    Disk × Except String (Option FileHandle) :=
  match d.names path with
  | some i => (if fs.truncates flags then d.write i .empty else d, .ok (some ⟨i, flags⟩))
  | none =>
    if fs.creates flags then (d.create path, .ok (some ⟨d.nextInode, flags⟩))
    else if flags.ReturnNullIfNotExists then (d, .ok none)
    else (d, .error ("Cannot open file " ++ path))

def RemoveFile (path : String) : Disk where
  names := Function.update d.names path none
  inodes := d.inodes
  nextInode := d.nextInode
  names_inj := by
    intro p q i hp hq
    by_cases hpp : p = path
    · rw [hpp, Function.update_self] at hp
      cases hp
    · by_cases hqp : q = path
      · rw [hqp, Function.update_self] at hq
        cases hq
      · rw [Function.update_of_ne hpp] at hp
        rw [Function.update_of_ne hqp] at hq
        exact d.names_inj p q i hp hq
  names_lt := by
    intro p i hp
    by_cases hpp : p = path
    · rw [hpp, Function.update_self] at hp
      cases hp
    · rw [Function.update_of_ne hpp] at hp
      exact d.names_lt p i hp

/-- The file of `source`, if there is one, gets the name `target`. -/
def MoveFile (source target : String) : Disk :=
  match h : d.names source with
  | none => d
  | some i =>
    { names := Function.update (Function.update d.names source none) target (some i)
      inodes := d.inodes
      nextInode := d.nextInode
      names_inj := by
        -- without `source`, no name is that of `i`
        have hgone : ∀ q, Function.update d.names source none q ≠ some i := by
          intro q hq
          by_cases hqs : q = source
          · rw [hqs, Function.update_self] at hq
            cases hq
          · rw [Function.update_of_ne hqs] at hq
            exact hqs (d.names_inj q source i hq h)
        intro p q j hp hq
        by_cases hpt : p = target <;> by_cases hqt : q = target
        · rw [hpt, hqt]
        · rw [hpt, Function.update_self] at hp
          rw [Function.update_of_ne hqt] at hq
          obtain rfl := Option.some.inj hp
          exact absurd hq (hgone q)
        · rw [Function.update_of_ne hpt] at hp
          rw [hqt, Function.update_self] at hq
          obtain rfl := Option.some.inj hq
          exact absurd hp (hgone p)
        · rw [Function.update_of_ne hpt] at hp
          rw [Function.update_of_ne hqt] at hq
          exact (d.RemoveFile source).names_inj p q j hp hq
      names_lt := by
        intro p j hp
        by_cases hpt : p = target
        · rw [hpt, Function.update_self] at hp
          obtain rfl := Option.some.inj hp
          exact d.names_lt source i h
        · rw [Function.update_of_ne hpt] at hp
          exact (d.RemoveFile source).names_lt p j hp }

end Disk

/-! ## The table -/

structure BufferedFile where
  /-- Null if it was reopened when there was no such file. -/
  handle : Option FileHandle
  file_flags : FileOpenFlags
  file_size : Nat
  num_users : Nat
  frames : List (Nat × Frame)

namespace BufferedFile

variable (f : BufferedFile)

/-- The file, over what its handle refers to. -/
def file (c : Contents) : File where
  openForWriting := f.file_flags.OpenForWriting
  openForAppending := f.file_flags.OpenForAppending
  fileSize := f.file_size
  frames := f.frames
  diskSize := c.size
  disk := c.bytes
  transfers := []

def update (file : File) : BufferedFile :=
  { f with file_size := file.fileSize, frames := file.frames }

end BufferedFile

/-- `FileRef`, and the handle that has it. -/
structure FileRef where
  path : String
  /-- The flags that it was opened with. -/
  flags : FileOpenFlags
  position : Nat

structure BufferedFileSystem where
  disk : Disk
  /-- `files_by_name` -/
  files : String → Option BufferedFile
  refs : List FileRef

inductive Reply
  | ref (i : Nat)
  | null
  | answer (a : Answer)
  | bool (b : Bool)
  | done
  | thrown (message : String)
  deriving DecidableEq, Repr

/-- `PatchFilename` -/
def PatchFilename (file : String) : String :=
  if ".tmp".toList.isSuffixOf file.toList then
    String.ofList (file.toList.take (file.toList.length - 4))
  else file

namespace BufferedFileSystem

variable (fs : Underneath) (cfg : Config) (s : BufferedFileSystem) (p : String)

def initial (disk : Disk) : BufferedFileSystem := ⟨disk, fun _ => none, []⟩

/-- What an operation on a file makes of it. -/
def store (f : BufferedFile) (h : FileHandle) (file : File) : BufferedFileSystem :=
  { s with
    files := Function.update s.files p (some (f.update file))
    disk := s.disk.write h.inode ⟨file.diskSize, file.disk⟩ }

def onFile (k : File → File) : BufferedFileSystem :=
  match s.files p with
  | none => s
  | some f =>
    match f.handle with
    | none => s
    | some h => s.store p f h (k (f.file (s.disk.inodes h.inode)))

def modifyFile (k : BufferedFile → BufferedFile) : BufferedFileSystem :=
  { s with files := Function.update s.files p ((s.files p).map k) }

/-! ## References -/

/-- The constructor of `FileRef` -/
def acquire : BufferedFileSystem := s.modifyFile p fun f => { f with num_users := f.num_users + 1 }

/-- The last reference is gone: every frame is flushed and discarded, and the file forgotten. -/
def forget : BufferedFileSystem :=
  let flushed := s.onFile p fun file => file.makeRoom cfg file.pages
  { flushed with files := Function.update flushed.files p none }

/-- `FileRef::Release` -/
def Release (keep_dangling : Bool) : BufferedFileSystem :=
  match s.files p with
  | none => s
  | some f =>
    if 1 < f.num_users || (keep_dangling && f.file_flags.OpenForReading) then
      s.modifyFile p fun f => { f with num_users := f.num_users - 1 }
    else s.forget cfg p

def newRef (flags : FileOpenFlags) : BufferedFileSystem × Reply :=
  ({ s.acquire p with refs := s.refs ++ [⟨p, flags, 0⟩] }, .ref s.refs.length)

/-- `FileRef::ReOpen`, with the reference that it is called on. -/
def ReOpen (flags : FileOpenFlags) : BufferedFileSystem × Reply :=
  match s.disk.OpenFile fs p flags with
  | (disk, .ok handle) =>
    -- the size, the flags and the frames stay what they are
    let swapped := { s with disk }.modifyFile p fun f => { f with handle }
    swapped.newRef p flags
  | (disk, .error e) => (({ s with disk }.acquire p).Release cfg p true, .thrown e)

/-! ## Opening -/

/-- What `FilePageBuffer::OpenFile` does with a file that is buffered. -/
inductive Sharing
  | refused (message : String)
  | reopened
  | shared
  deriving DecidableEq, Repr

def BufferedFile.sharing (f : BufferedFile) (path : String) (flags : FileOpenFlags) : Sharing :=
  if f.file_flags.lock = .WRITE_LOCK then
    .refused s!"File {path} is already locked exclusively"
  else if flags.flags = 1 <<< 4 then
    .refused
      s!"File {path} is already opened and cannot be truncated with FILE_FLAGS_FILE_CREATE_NEW"
  else if flags.OpenForWriting then
    if !f.file_flags.OpenForWriting then .reopened
    else if flags.OpenForAppending && !f.file_flags.OpenForAppending then
      .refused s!"File {path} is already opened without APPEND"
    else .shared
  else .shared

/-- The file that has been opened is buffered, without users. -/
def buffer (flags : FileOpenFlags) (h : FileHandle) : BufferedFileSystem :=
  let file : BufferedFile := ⟨some h, flags, (s.disk.inodes h.inode).size, 0, []⟩
  { s with files := Function.update s.files p (some file) }

/-- `FilePageBuffer::OpenFile` -/
def OpenFile (flags : FileOpenFlags) (idLeft : Bool) : BufferedFileSystem × Reply :=
  match s.files p with
  | some f =>
    match BufferedFile.sharing f p flags with
    | .refused message => (s, .thrown message)
    | .reopened => s.ReOpen fs cfg p flags
    | .shared => s.newRef p flags
  | none =>
    match s.disk.OpenFile fs p flags with
    | (disk, .error e) => ({ s with disk }, .thrown e)
    | (disk, .ok none) => ({ s with disk }, .null)
    | (disk, .ok (some h)) =>
      if idLeft then ({ s with disk }.buffer p flags h).newRef p flags
      else ({ s with disk }, .thrown "cannot open more than 65535 files")

/-! ## The other calls -/

/-- A call on a reference. -/
def call (i : Nat) (c : Call) : Option (BufferedFileSystem × Reply) := do
  let r ← s.refs[i]?
  let f ← s.files r.path
  let h ← f.handle
  let (handle, answer) ← Handle.step cfg ⟨f.file (s.disk.inodes h.inode), r.position⟩ c
  pure ({ s.store r.path f h handle.file with
    refs := s.refs.set i { r with position := handle.filePosition } }, .answer answer)

/-- `BufferedFileHandle::Close` -/
def Close (i : Nat) : Option (BufferedFileSystem × Reply) := do
  let r ← s.refs[i]?
  pure ({ s.Release cfg r.path true with refs := s.refs.eraseIdx i }, .done)

def TryDropFile : BufferedFileSystem × Reply :=
  match s.files p with
  | none => (s, .bool true)
  | some f =>
    if 0 < f.num_users then (s, .bool false) else ((s.acquire p).Release cfg p false, .bool true)

def FlushFile : BufferedFileSystem × Reply :=
  match s.files p with
  | none => (s, .done)
  | some _ => (((s.acquire p).onFile p fun file => file.flush cfg).Release cfg p true, .done)

def MoveFile (source target : String) : BufferedFileSystem × Reply :=
  ({ s with disk := s.disk.MoveFile source target }, .done)

def RemoveFile : BufferedFileSystem × Reply := ({ s with disk := s.disk.RemoveFile p }, .done)

end BufferedFileSystem

inductive Event
  | OpenFile (raw_path : String) (flags : FileOpenFlags) (idLeft : Bool)
  | call (i : Nat) (c : Call)
  | Close (i : Nat)
  | TryDropFile (file : String)
  | FlushFile (path : String)
  /-- `EvictAnyBufferFrame`, when it takes this page. -/
  | evict (path : String) (page : Nat)
  | MoveFile (raw_source raw_target : String)
  | RemoveFile (raw_filename : String)

open BufferedFileSystem

def BufferedFileSystem.reply (fs : Underneath) (cfg : Config) (s : BufferedFileSystem) :
    Event → Option (BufferedFileSystem × Reply)
  | .OpenFile raw_path flags idLeft =>
    some (s.OpenFile fs cfg (PatchFilename raw_path) flags idLeft)
  | .call i c => s.call cfg i c
  | .Close i => s.Close cfg i
  | .TryDropFile file => some (s.TryDropFile cfg (PatchFilename file))
  | .FlushFile path => some (s.FlushFile cfg path)
  | .evict path page => some (s.onFile path fun file => file.evict cfg page, .done)
  | .MoveFile raw_source raw_target =>
    some (s.MoveFile (PatchFilename raw_source) (PatchFilename raw_target))
  | .RemoveFile raw_filename => some (s.RemoveFile (PatchFilename raw_filename))

def step (fs : Underneath) (cfg : Config) (s : BufferedFileSystem) (e : Event) :
    Option BufferedFileSystem := (s.reply fs cfg e).map (·.1)

/-! ## A small filesystem -/

/-- A disk with one file. -/
def oneFile (path : String) (c : Contents) : Disk where
  names q := if q = path then some 0 else none
  inodes _ := c
  nextInode := 1
  names_inj := by
    intro p q i hp hq
    by_cases hpp : p = path
    · by_cases hqp : q = path
      · rw [hpp, hqp]
      · rw [if_neg hqp] at hq
        cases hq
    · rw [if_neg hpp] at hp
      cases hp
  names_lt := by
    intro p i hp
    split at hp
    · cases hp
      exact Nat.one_pos
    · cases hp

/-- What `FILE_FLAGS_FILE_CREATE_NEW` does, and `FILE_FLAGS_FILE_CREATE`. -/
def plainFlags : Underneath where
  creates flags := flags.flags.getLsbD 3 || flags.flags.getLsbD 4
  truncates flags := flags.flags.getLsbD 4

/-- Pages of two bytes. -/
def twoBytes : Config := ⟨1, by decide⟩

end Haybarn.Io.BufferedFiles
