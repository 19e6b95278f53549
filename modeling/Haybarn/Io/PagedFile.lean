import Haybarn.Lib.Contents

/-!
# A file in the page buffer

`FileRef` (lib/src/io/file_page_buffer.cc) reads, writes, appends to and truncates a file whose
pages are buffered in frames. This is one file and what its operations do to its frames and to the
file underneath; the latches, the queues and the other files are in `PageBuffer`.

Mirroring notes:
- One operation runs after the other. Which frame is evicted, and when, is up to the sequence:
  `evict` may come before any operation, as `AllocateFrameBuffer` may evict before a page is loaded.
  The buffer that a new frame gets is any that has been used before (`stale`).
- The file underneath is a byte array: a write behind its end fills the gap with zeros, a read
  behind its end copies what is there. What `new_file_size` and the offsets add up to stays in a
  `uint64_t`, since a file has less than 2^63 bytes; the subtraction that may go below zero
  wraps (`sub64`), and `data_size` is a `uint32_t`. `size_t` is taken as 64 bits wide, as where the
  library is tested; in the wasm build, where it has 32, files below 4 GiB are the same.
- `transfers` is not in the source: it records what the file underneath has been asked for. What
  lies in memory behind a page buffer is not part of the state.
- The page size is `1 << page_size_bits`, a shift of an `int`.
-/

namespace Haybarn.Io.PagedFile

open Haybarn.Lib

structure Config where
  pageSizeBits : Nat
  small : pageSizeBits < 31

def Config.pageSize (cfg : Config) : Nat := 1 <<< cfg.pageSizeBits

structure Frame where
  /-- The page buffer, and `data_size`. -/
  buffer : Nat → UInt8
  dataSize : Nat
  isDirty : Bool

/-- A call of the file system underneath, for a page. -/
inductive Transfer
  /-- `LoadFrame`, with the file size that it has looked at. -/
  | load (page fileSize length : Nat)
  /-- `FlushFrame` -/
  | store (page length : Nat)
  deriving DecidableEq, Repr

structure File where
  openForWriting : Bool
  openForAppending : Bool
  fileSize : Nat
  /-- The frames of the file, by page id. -/
  frames : List (Nat × Frame)
  diskSize : Nat
  disk : Nat → UInt8
  transfers : List Transfer

/-- `a - b` in a `uint64_t`. -/
def sub64 (a b : Nat) : Nat := if b ≤ a then a - b else a + 2 ^ 64 - b

/-- The conversion to `uint32_t`. -/
def toUint32 (n : Nat) : Nat := n % 2 ^ 32

namespace File

variable (cfg : Config) (s : File)

/-- The file as it is opened. -/
def opened (openForWriting openForAppending : Bool) (size : Nat) (bytes : Nat → UInt8) : File where
  openForWriting := openForWriting
  openForAppending := openForAppending
  fileSize := size
  frames := []
  diskSize := size
  disk := bytes
  transfers := []

/-! ## The file underneath -/

def diskWrite (offset : Nat) (bytes : Nat → UInt8) (n : Nat) : File :=
  { s with
    diskSize := if n = 0 then s.diskSize else max s.diskSize (offset + n)
    disk := copy (fun i => if i < s.diskSize then s.disk i else 0) offset bytes n }

def diskTruncate (newSize : Nat) : File :=
  { s with
    diskSize := newSize
    disk := fun i => if i < s.diskSize then s.disk i else 0 }

/-! ## Frames -/

def frame (page : Nat) : Option Frame := s.frames.lookup page

def modifyFrame (page : Nat) (h : Frame → Frame) : File :=
  { s with frames := s.frames.map fun x => if x.1 = page then (x.1, h x.2) else x }

/-- `LoadFrame` -/
def loadFrame (page : Nat) (stale : Nat → UInt8) : File :=
  let dataSize := toUint32 (min (sub64 s.fileSize (page * cfg.pageSize)) cfg.pageSize)
  let bytes := fun i => s.disk (page * cfg.pageSize + i)
  { s with
    frames := (page,
      { buffer := copy stale 0 bytes (min dataSize (s.diskSize - page * cfg.pageSize))
        dataSize
        isDirty := false }) :: s.frames
    transfers := s.transfers ++ [.load page s.fileSize dataSize] }

/-- `FixPage`, and the release of the page. -/
def fixPage (page : Nat) (stale : Nat → UInt8) : File :=
  match s.frame page with
  | some _ => s
  | none => s.loadFrame cfg page stale

def flushFrame (page : Nat) : File :=
  match s.frame page with
  | some F =>
    if F.isDirty then
      let s := s.diskWrite (page * cfg.pageSize) F.buffer F.dataSize
      { s.modifyFrame page fun F => { F with isDirty := false } with
        transfers := s.transfers ++ [.store page F.dataSize] }
    else s
  | none => s

/-- `EvictAnyBufferFrame`, when it takes this frame. -/
def evict (page : Nat) : File :=
  let s := s.flushFrame cfg page
  { s with frames := s.frames.filter fun x => x.1 ≠ page }

/-! ## The operations -/

/-- `FileRef::Flush` -/
def flush : File := (s.frames.map (·.1)).foldl (fun s page => s.flushFrame cfg page) s

/-- `FileRef::Read`: the bytes it copies. -/
def read (n offset : Nat) (stale : Nat → UInt8) : File × List UInt8 :=
  let readEnd := min s.fileSize (offset + n)
  let readMax := min n (max readEnd offset - offset)
  if readMax = 0 then (s, [])
  else
    let pageId := offset >>> cfg.pageSizeBits
    let skipHere := offset - pageId * cfg.pageSize
    let readHere := min readMax (cfg.pageSize - skipHere)
    let s := s.fixPage cfg pageId stale
    match s.frame pageId with
    | some F =>
      (s, (List.range (min readHere F.dataSize)).map fun i => F.buffer (skipHere + i))
    | none => (s, [])

/-- `FileRef::Append` -/
def append (bytes : List UInt8) : Except String File :=
  if !s.openForWriting then .error "file is not opened in write mode"
  else
    let oldFileSize := s.fileSize
    let newFileSize := oldFileSize + bytes.length
    let s := s.diskWrite oldFileSize (put (fun _ => 0) 0 bytes) bytes.length
    let lastPageId := oldFileSize >>> cfg.pageSizeBits
    let lastPageBytes := oldFileSize - lastPageId <<< cfg.pageSizeBits
    let lastPageCapacity := cfg.pageSize - lastPageBytes
    let writeHere := min lastPageCapacity bytes.length
    .ok { s.modifyFrame lastPageId fun F =>
        { F with
          dataSize := toUint32 (lastPageBytes + writeHere)
          buffer := put F.buffer lastPageBytes (bytes.take writeHere) } with
      fileSize := newFileSize }

/-- `FileRef::Write`: the number of bytes written. -/
def write (bytes : List UInt8) (offset : Nat) (stale : Nat → UInt8) : Except String (File × Nat) :=
  if !s.openForWriting then .error "File is not opened in write mode"
  else if !s.openForAppending || offset == s.fileSize then
    (s.append cfg bytes).map fun s => (s, bytes.length)
  else
    let pageId := offset >>> cfg.pageSizeBits
    let skipHere := offset - pageId * cfg.pageSize
    let writeHere := min bytes.length (cfg.pageSize - skipHere)
    let s := s.fixPage cfg pageId stale
    .ok (s.modifyFrame pageId fun F =>
      { F with buffer := put F.buffer skipHere (bytes.take writeHere), isDirty := true }, writeHere)

/-- `FileRef::Truncate` -/
def truncate (newSize : Nat) : Except String File :=
  if !s.openForWriting then .error "file is not opened in write mode"
  else
    let s := if s.fileSize ≠ newSize then { s.diskTruncate newSize with fileSize := newSize } else s
    .ok { s with
      frames := s.frames.map fun x =>
        let pageBegin := x.1 * cfg.pageSize
        (x.1, { x.2 with dataSize := toUint32 (max newSize pageBegin - pageBegin) }) }

end File

inductive Op
  | fixPage (page : Nat) (stale : Nat → UInt8)
  | read (n offset : Nat) (stale : Nat → UInt8)
  | write (bytes : List UInt8) (offset : Nat) (stale : Nat → UInt8)
  | append (bytes : List UInt8)
  | truncate (newSize : Nat)
  | flush
  | evict (page : Nat)

/-- What throws leaves the file as it was. -/
def File.orStay (s : File) : Except String File → File
  | .ok s' => s'
  | .error _ => s

/-- One operation. -/
def File.step (cfg : Config) (s : File) : Op → File
  | .fixPage page stale => s.fixPage cfg page stale
  | .read n offset stale => (s.read cfg n offset stale).1
  | .write bytes offset stale => s.orStay ((s.write cfg bytes offset stale).map (·.1))
  | .append bytes => s.orStay (s.append cfg bytes)
  | .truncate newSize => s.orStay (s.truncate cfg newSize)
  | .flush => s.flush cfg
  | .evict page => s.evict cfg page

end Haybarn.Io.PagedFile
