import Haybarn.Lib.Contents
import Haybarn.Lib.JsMap
import Haybarn.Lib.Run
import Haybarn.Io.WebFiles

/-!
# The files of the Node runtime

`NODE_RUNTIME` (packages/duckdb-wasm/src/bindings/runtime_node.ts) opens files of the disk for the
web filesystem, which knows them by an id. It has descriptors by path (`_files`) and by id
(`_filesById`), and a cache of what the web filesystem tells about an id (`_fileInfoCache`).

Mirroring notes:
- The web filesystem is what it tells: `infos`, and the epoch that tells whether a cached info may
  be used. `moveFile` comes from `WebFileSystem::MoveFile`, which has given the file that it has
  under the URL, if there is one (`moved`), the new URL before.
- `_files` has what has been registered by a path (`registerFileHandle`); no function here puts a
  descriptor in it. `_files.delete(handle)` deletes nothing: a handle is no key of it.
- The disk is names and files; opening creates a file that is not there. Descriptors are numbered
  afresh. What the system might refuse (permissions, full disks) does not happen; a path that is
  null or that is not there is refused.
- `opened` and `closed` are not in the source: they record what `openSync` has returned, for which
  id, and what `closeSync` has been called with.
-/

namespace Haybarn.Runtime.Node

open Haybarn.Lib
open Haybarn.Io.WebFiles (DataProtocol)

abbrev FileId := Nat
abbrev Fd := Nat
abbrev Inode := Nat

/-- The part of a `DuckDBFileInfo` that is looked at. -/
structure DuckDBFileInfo where
  cacheEpoch : UInt32
  dataProtocol : DataProtocol
  dataUrl : Option String
  deriving DecidableEq, Repr

structure NodeRuntime where
  /-- The disk, with names for some of its files. -/
  names : String → Option Inode
  inodes : Inode → Contents
  nextInode : Inode
  /-- What descriptors that are open refer to. -/
  fds : Fd → Option Inode
  nextFd : Fd
  /-- What the web filesystem tells. -/
  infos : FileId → Option DuckDBFileInfo
  epoch : UInt32
  files : String → Option Fd
  filesById : FileId → Option Fd
  fileInfoCache : JsMap FileId DuckDBFileInfo
  opened : List (Fd × FileId)
  closed : List Fd

inductive Reply
  /-- The result of `openFile`, with the size of the file. -/
  | file (size : Nat)
  /-- `openFile` returns 0 and does not fail: there is no such file. -/
  | absent
  /-- `failWith` -/
  | failed (message : String)
  | count (n : Nat)
  | bytes (bs : List UInt8)
  | done
  deriving DecidableEq, Repr

namespace NodeRuntime

variable (s : NodeRuntime)

/-! ## The disk -/

/-- `O_CREAT | O_RDWR` -/
def openSync (id : FileId) (path : String) : NodeRuntime × Fd :=
  let (s, i) := match s.names path with
    | some i => (s, i)
    | none =>
      ({ s with
        names := Function.update s.names path (some s.nextInode)
        inodes := Function.update s.inodes s.nextInode .empty
        nextInode := s.nextInode + 1 }, s.nextInode)
  ({ s with
    fds := Function.update s.fds s.nextFd (some i)
    nextFd := s.nextFd + 1
    opened := s.opened ++ [(s.nextFd, id)] }, s.nextFd)

def closeSync (fd : Fd) : NodeRuntime :=
  { s with fds := Function.update s.fds fd none, closed := s.closed ++ [fd] }

def setContents (i : Inode) (c : Contents) : NodeRuntime :=
  { s with inodes := Function.update s.inodes i c }

/-! ## File infos -/

/-- `WriteFileInfo`: nothing, if the epoch is the current one or there is no such file. -/
def writeFileInfo (id : FileId) (cacheEpoch : UInt32) : Option DuckDBFileInfo :=
  if cacheEpoch = s.epoch then none
  else (s.infos id).map fun info => { info with cacheEpoch := s.epoch }

def resolveFileInfo (id : FileId) : NodeRuntime × Option DuckDBFileInfo :=
  let cached := s.fileInfoCache.get id
  match s.writeFileInfo id ((cached.map DuckDBFileInfo.cacheEpoch).getD 0) with
  | none => (s, cached)
  | some info => ({ s with fileInfoCache := s.fileInfoCache.set id info }, some info)

/-! ## The functions of the runtime -/

def openFile (id : FileId) (flags : BitVec 8) : NodeRuntime × Reply :=
  let (s, file) :=
    { s with fileInfoCache := s.fileInfoCache.delete id }.resolveFileInfo id
  match file with
  | none => (s, .absent)
  | some file =>
    match file.dataProtocol with
    | .BUFFER => (s, .absent)
    | .NODE_FS =>
      match file.dataUrl.bind s.files with
      | some fd =>
        match s.fds fd with
        | some i => (s, .file (s.inodes i).size)
        | none => (s, .failed "EBADF")
      | none =>
        -- `FILE_FLAGS_NULL_IF_NOT_EXISTS`
        if flags.getLsbD 7 then (s, .absent)
        else
          match file.dataUrl with
          | none => (s, .failed "The path argument must be of type string")
          | some path =>
            let (s, fd) := s.openSync id path
            let s := { s with filesById := Function.update s.filesById id (some fd) }
            match s.fds fd with
            | some i => (s, .file (s.inodes i).size)
            | none => (s, .failed "EBADF")
    | .BROWSER_FILEREADER | .BROWSER_FSACCESS | .HTTP | .S3 =>
      (s, .failed "Unsupported data protocol")

def closeFile (id : FileId) : NodeRuntime × Reply :=
  let fileInfo := s.fileInfoCache.get id
  let s := { s with fileInfoCache := s.fileInfoCache.delete id }
  match fileInfo.map DuckDBFileInfo.dataProtocol with
  | some .NODE_FS =>
    let fileHandle := s.filesById id
    let s := { s with filesById := Function.update s.filesById id none }
    match fileHandle with
    | some fd => (s.closeSync fd, .done)
    | none => (s, .done)
  | _ => (s, .done)

/-- What `readFile`, `writeFile` and `truncateFile` begin with. -/
def withInfo (id : FileId) (k : NodeRuntime → DuckDBFileInfo → NodeRuntime × Reply) :
    NodeRuntime × Reply :=
  match s.resolveFileInfo id with
  | (s, none) => (s, .count 0)
  | (s, some file) =>
    match file.dataProtocol with
    | .BUFFER => (s, .count 0)
    | .NODE_FS => k s file
    | .BROWSER_FILEREADER | .BROWSER_FSACCESS | .HTTP | .S3 =>
      (s, .failed "Unsupported data protocol")

/-- The descriptor of an id, and what it refers to. -/
def descriptor (id : FileId) : Except String Inode :=
  match s.filesById id with
  | none => .error s!"File {id} is missing a file descriptor"
  | some fd =>
    match s.fds fd with
    | some i => .ok i
    | none => .error "EBADF"

def truncateFile (id : FileId) (newSize : Nat) : NodeRuntime × Reply :=
  s.withInfo id fun s file =>
    -- by the path, not by the descriptor
    match file.dataUrl.bind s.names with
    | some i => (s.setContents i ((s.inodes i).truncate newSize), .count 0)
    | none => (s, .failed "ENOENT")

def readFile (id : FileId) (bytes location : Nat) : NodeRuntime × Reply :=
  s.withInfo id fun s _ =>
    match s.descriptor id with
    | .ok i => (s, .bytes ((s.inodes i).read bytes location))
    | .error e => (s, .failed e)

def writeFile (id : FileId) (src : List UInt8) (location : Nat) : NodeRuntime × Reply :=
  s.withInfo id fun s _ =>
    match s.descriptor id with
    | .ok i => (s.setContents i ((s.inodes i).write location src), .count src.length)
    | .error e => (s, .failed e)

/-- `WebFileSystem::MoveFile` gives the file the new URL. -/
def moveUrl (moved : Option FileId) (target : String) : NodeRuntime :=
  match moved with
  | none => s
  | some id =>
    { s with
      infos := Function.update s.infos id
        ((s.infos id).map fun info => { info with dataUrl := some target }) }

def moveFile (source target : String) : NodeRuntime × Reply :=
  let files := match s.files source with
    | some handle => Function.update s.files target (some handle)
    | none => s.files
  let fileInfoCache :=
    match s.fileInfoCache.findKey fun value => decide (value.dataUrl = some source) with
    | some key => s.fileInfoCache.delete key
    | none => s.fileInfoCache
  ({ s with files, fileInfoCache }, .done)

/-- `IncrementCacheEpoch` -/
def incrementCacheEpoch : NodeRuntime :=
  { s with epoch := if s.epoch = 4294967295 then 1 else s.epoch + 1 }

end NodeRuntime

inductive Event
  | openFile (id : FileId) (flags : BitVec 8)
  | closeFile (id : FileId)
  | readFile (id : FileId) (bytes location : Nat)
  | writeFile (id : FileId) (src : List UInt8) (location : Nat)
  | truncateFile (id : FileId) (newSize : Nat)
  | moveFile (source target : String) (moved : Option FileId)
  | incrementCacheEpoch
  deriving DecidableEq, Repr

open NodeRuntime

def NodeRuntime.reply (s : NodeRuntime) : Event → NodeRuntime × Reply
  | .openFile id flags => s.openFile id flags
  | .closeFile id => s.closeFile id
  | .readFile id bytes location => s.readFile id bytes location
  | .writeFile id src location => s.writeFile id src location
  | .truncateFile id newSize => s.truncateFile id newSize
  | .moveFile source target moved => (s.moveUrl moved target).moveFile source target
  | .incrementCacheEpoch => (s.incrementCacheEpoch, .done)

/-- A file that is moved has had the URL. -/
def NodeRuntime.Possible (s : NodeRuntime) : Event → Prop
  | .moveFile source _ moved => ∀ id, moved = some id →
    (s.infos id).bind DuckDBFileInfo.dataUrl = some source
  | _ => True

end Haybarn.Runtime.Node
