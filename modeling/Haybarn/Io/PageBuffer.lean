import Haybarn.Lib.NodeList

/-!
# The page buffer

`FilePageBuffer` (lib/src/io/file_page_buffer.cc) keeps pages of files in frames. `Pool` is
what its directory latch protects: the files, the frames, the FIFO and the LRU queue, each
file's list of frames and the free file ids. The operations are under the source's words;
which thread calls which, and when, is `PageThreads`.

Mirroring notes:

* A `BufferFrame*` is its frame id, a `BufferedFile*` its file id. The iterators that a
  frame stores are positions in a `NodeList`; `end()` is `none`. That no pointer and no
  position is left dangling is part of what is proved.
* `data` is the span `GetData()`. The bytes of a page buffer behind it, and with them the
  stack of free buffers, are left out, and so are the statistics.
-/

namespace Haybarn.Io.PageBuffer

open Haybarn.Lib

structure Config where
  pageSizeBits : Nat
  pageCapacity : Nat

def Config.pageSize (cfg : Config) : Nat := 1 <<< cfg.pageSizeBits

def BuildFrameID (fileId pageId : Nat) : Nat := pageId % 2 ^ 48 + fileId * 2 ^ 48

def GetFileID (frameId : Nat) : Nat := frameId / 2 ^ 48

def GetPageID (frameId : Nat) : Nat := frameId % 2 ^ 48

/-- `std::numeric_limits<uint16_t>::max()`. -/
def maxFileId : Nat := 65535

inductive LockType
  | none
  | read
  | write
  deriving DecidableEq

/-- `FileOpenFlags`, as far as it is asked: what the flags open the file for, the lock, and
whether they are `FILE_FLAGS_FILE_CREATE_NEW` and nothing else. -/
structure FileFlags where
  forReading : Bool
  forWriting : Bool
  forAppending : Bool
  createNew : Bool
  lock : LockType
  deriving DecidableEq

inductive FrameState
  | new
  | loading
  | loaded
  | evicting
  | reloaded
  deriving DecidableEq

structure Frame where
  state : FrameState
  numUsers : Nat
  dataSize : Nat
  isDirty : Bool
  /-- Position in the frame list of the file. -/
  filePosition : Nat
  fifoPosition : Option Nat
  lruPosition : Option Nat
  data : List UInt8

/-- One more user. -/
def Frame.pin (F : Frame) : Frame := { F with numUsers := F.numUsers + 1 }

def Frame.unpin (F : Frame) : Frame := { F with numUsers := F.numUsers - 1 }

/-- One more user, who wants the page: whoever evicts it is to notice. -/
def Frame.claim (F : Frame) : Frame :=
  { F with numUsers := F.numUsers + 1
           state := if F.state = .evicting then .reloaded else F.state }

/-- The frame is to be evicted once it is written: one user for the eviction, one for
`FlushFrame`. -/
def Frame.beginEviction (F : Frame) : Frame :=
  { F with numUsers := F.numUsers + 2, state := .evicting }

structure File where
  path : String
  flags : FileFlags
  fileSize : Nat
  numUsers : Nat
  frames : NodeList Nat

/-- What the directory latch protects. -/
structure Pool where
  files : Nat → Option File
  filesByName : String → Option Nat
  freeFileIds : List Nat
  allocatedFileIds : Nat
  frames : Nat → Option Frame
  /-- `frames.size()` -/
  frameCount : Nat
  fifo : NodeList Nat
  lru : NodeList Nat

namespace Pool

variable (P : Pool)

def empty : Pool where
  files := fun _ => none
  filesByName := fun _ => none
  freeFileIds := []
  allocatedFileIds := 0
  frames := fun _ => none
  frameCount := 0
  fifo := .empty
  lru := .empty

@[simps] def modifyFrame (g : Nat) (h : Frame → Frame) : Pool :=
  { P with frames := Function.update P.frames g ((P.frames g).map h) }

@[simps] def modifyFile (f : Nat) (h : File → File) : Pool :=
  { P with files := Function.update P.files f ((P.files f).map h) }

/-- The users of a frame. -/
def users (g : Nat) : Nat := ((P.frames g).map Frame.numUsers).getD 0

def isDirty (g : Nat) : Bool := ((P.frames g).map Frame.isDirty).getD false

def stateOf (g : Nat) : Option FrameState := (P.frames g).map Frame.state

def dataSize (g : Nat) : Nat := ((P.frames g).map Frame.dataSize).getD 0

/-- `GetData` -/
def dataOf (g : Nat) : List UInt8 := ((P.frames g).map Frame.data).getD []

/-- `GetReferenceCount`, of a file that is there. -/
def references (f : Nat) : Nat := ((P.files f).map File.numUsers).getD 0

def path (f : Nat) : String := ((P.files f).map File.path).getD ""

def forWriting (f : Nat) : Bool := ((P.files f).map fun file => file.flags.forWriting).getD false

def forReading (f : Nat) : Bool := ((P.files f).map fun file => file.flags.forReading).getD false

/-- The iterators over the frame list of a file. -/
def beginFrames (f : Nat) : Option Nat := (P.files f).bind fun file => file.frames.first

def nextFrame (f k : Nat) : Option Nat := (P.files f).bind fun file => file.frames.next k

def frameAt (f k : Nat) : Option Nat := (P.files f).bind fun file => file.frames.get? k

/-- The ids of the files, in some order. -/
def fileIds : List Nat := (List.range P.allocatedFileIds).filter fun f => (P.files f).isSome

/-! ## Frames and the queues -/

/-- `FixPage`, when the page is fixed again: to the end of the LRU queue. -/
def moveToLru (g : Nat) : Pool :=
  match P.frames g with
  | none => P
  | some F =>
    match F.lruPosition, F.fifoPosition with
    | some k, _ =>
      { P.modifyFrame g fun F => { F with lruPosition := some P.lru.fresh } with
        lru := (P.lru.erase k).pushBack g }
    | none, some k =>
      { P.modifyFrame g fun F =>
          { F with fifoPosition := none, lruPosition := some P.lru.fresh } with
        fifo := P.fifo.erase k
        lru := P.lru.pushBack g }
    | none, none =>
      -- the assertion of the source; a frame is in one of the queues
      { P.modifyFrame g fun F => { F with lruPosition := some P.lru.fresh } with
        lru := P.lru.pushBack g }

/-- Erase a frame from the queues and from the dictionary. The destructor of the frame
erases it from the list of its file. -/
def eraseFrame (g : Nat) : Pool :=
  match P.frames g with
  | none => P
  | some F =>
    { P.modifyFile (GetFileID g) fun file =>
        { file with frames := file.frames.erase F.filePosition } with
      frames := Function.update P.frames g none
      frameCount := P.frameCount - 1
      lru := match F.lruPosition with
        | some k => P.lru.erase k
        | none => P.lru
      fifo := match F.lruPosition, F.fifoPosition with
        | none, some k => P.fifo.erase k
        | _, _ => P.fifo }

/-- The size of the data in a page: `min(file_size - page_id * page_size, page_size)`, with
the wrap-around of the subtraction. -/
def pageBytes (cfg : Config) (fileSize pageId : Nat) : Nat :=
  min ((fileSize + 2 ^ 64 - pageId * cfg.pageSize % 2 ^ 64) % 2 ^ 64) cfg.pageSize

/-- A frame that is about to be loaded, with one user. -/
def newFrame (cfg : Config) (file : File) (g : Nat) : Frame where
  state := .loading
  numUsers := 1
  dataSize := pageBytes cfg file.fileSize (GetPageID g)
  isDirty := false
  filePosition := file.frames.fresh
  fifoPosition := some P.fifo.fresh
  lruPosition := none
  data := []

/-- `FixPage`, when the page is not there: a new frame, fixed once, at the end of the FIFO
queue and at the front of the list of its file. -/
def insertFrame (cfg : Config) (g : Nat) : Pool :=
  match P.files (GetFileID g) with
  | none => P
  | some file =>
    { P with
      frames := Function.update P.frames g (some (P.newFrame cfg file g))
      frameCount := P.frameCount + 1
      fifo := P.fifo.pushBack g
      files := Function.update P.files (GetFileID g) <| some
        { file with frames := file.frames.pushFront g } }

/-- A frame that `EvictAnyBufferFrame` may take: nobody uses it and it is loaded. -/
def evictable (g : Nat) : Bool :=
  match P.frames g with
  | some F => F.numUsers == 0 && F.state == .loaded
  | none => false

/-- The frame `EvictAnyBufferFrame` finds: FIFO first, then LRU. -/
def victim (tryLock : Nat → Bool) : Option Nat :=
  (P.fifo.values ++ P.lru.values).find? fun g => P.evictable g && tryLock (GetFileID g)

/-! ## Files -/

/-- The constructor of a `FileRef`. -/
def addRef (f : Nat) : Pool :=
  P.modifyFile f fun file => { file with numUsers := file.numUsers + 1 }

def dropRef (f : Nat) : Pool :=
  P.modifyFile f fun file => { file with numUsers := file.numUsers - 1 }

/-- The last reference is gone: erase the file and free its id. -/
def eraseFile (f : Nat) : Pool :=
  match P.files f with
  | none => P
  | some file =>
    { P with
      filesByName := Function.update P.filesByName file.path none
      freeFileIds := f :: P.freeFileIds
      files := Function.update P.files f none }

inductive OpenError
  | lockedExclusively (path : String)
  | cannotTruncate (path : String)
  | withoutAppend (path : String)
  | tooManyFiles

def OpenError.what : OpenError → String
  | .lockedExclusively path => "File " ++ path ++ " is already locked exclusively"
  | .cannotTruncate path => "File " ++ path ++
      " is already opened and cannot be truncated with FILE_FLAGS_FILE_CREATE_NEW"
  | .withoutAppend path => "File " ++ path ++ " is already opened without APPEND"
  | .tooManyFiles => "cannot open more than 65535 files"

/-- What `OpenFile` does with the path of a file that is there: fail, make a reference, or
make one and reopen the file (`true`) because it is to be written now. -/
def openAgain (f : Nat) (file : File) (flags : FileFlags) : Except OpenError (Pool × Bool) :=
  if file.flags.lock = .write then .error (.lockedExclusively file.path)
  else if flags.createNew then .error (.cannotTruncate file.path)
  else if flags.forWriting then
    if !file.flags.forWriting then .ok (P.addRef f, true)
    else if flags.forAppending && !file.flags.forAppending then
      .error (.withoutAppend file.path)
    else .ok (P.addRef f, false)
  else .ok (P.addRef f, false)

/-- Allocate a file id: a free one, or one that has not been used yet. -/
def allocateFileId : Except OpenError (Nat × Pool) :=
  match P.freeFileIds with
  | f :: rest => .ok (f, { P with freeFileIds := rest })
  | [] =>
    if P.allocatedFileIds = maxFileId then .error .tooManyFiles
    else .ok (P.allocatedFileIds, { P with allocatedFileIds := P.allocatedFileIds + 1 })

/-- What `OpenFile` does with the path of a file that is not there, once the underlying
filesystem has opened it. -/
def openNew (path : String) (flags : FileFlags) (fileSize : Nat) :
    Except OpenError (Nat × Pool) := do
  let (f, P') ← P.allocateFileId
  let file : File := { path, flags, fileSize, numUsers := 1, frames := .empty }
  return (f, { P' with
    filesByName := Function.update P'.filesByName path (some f)
    files := Function.update P'.files f (some file) })

end Pool

end Haybarn.Io.PageBuffer
