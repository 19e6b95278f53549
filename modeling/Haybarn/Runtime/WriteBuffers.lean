import Haybarn.Io.WebFiles
import Haybarn.Lib.Contents
import Haybarn.Lib.Run

/-!
# Files that are written to a buffer

The browser cannot write to a server, and creates no files: for what is to be written to a remote
file, and for a file that is not there, the runtime gives the web filesystem a buffer
(`openFile` in packages/duckdb-wasm/src/bindings/runtime_browser.ts). Handles write to it, and when
the last one is closed, the buffer of a remote file is uploaded (lib/src/io/web_filesystem.cc).

Mirroring notes:
- One file, from when it is registered to when it is erased, with the handles that keep it
  registered. An open that is not answered with a new buffer is no step, and neither is a call that
  writes to a file that is no buffer.
- Memory that has been allocated has what it has: `uninitialized` comes with the event. Allocating
  does not fail. What is behind the capacity of a buffer is some memory, too.
- `size_t` has 32 bits (`sizeT`), sizes of files and positions have 64, and do not overflow.
- `uploads` is not in the source: it has the bodies of the requests that write a remote file.
- Reading changes no file, and is left out, with the statistics and the read-ahead buffers.
-/

namespace Haybarn.Runtime.WriteBuffers

open Haybarn.Lib
open Haybarn.Io.WebFiles (DataProtocol)

abbrev HandleId := Nat
abbrev Memory := Nat → UInt8

/-! ## The runtime -/

def FILE_FLAGS_READ (flags : BitVec 8) : Bool := flags.getLsbD 0
def FILE_FLAGS_WRITE (flags : BitVec 8) : Bool := flags.getLsbD 1
def FILE_FLAGS_FILE_CREATE (flags : BitVec 8) : Bool := flags.getLsbD 3
def FILE_FLAGS_FILE_CREATE_NEW (flags : BitVec 8) : Bool := flags.getLsbD 4
def FILE_FLAGS_APPEND (flags : BitVec 8) : Bool := flags.getLsbD 5
def FILE_FLAGS_NULL_IF_NOT_EXISTS (flags : BitVec 8) : Bool := flags.getLsbD 7

/-- What the runtime finds. -/
structure Found where
  /-- The status of a `HEAD` request. -/
  status : Nat := 404
  /-- There is a handle of the file. -/
  handle : Bool := false
  /-- The memory that `malloc` returns. -/
  uninitialized : Memory := fun _ => 0

inductive Opened
  | failed (message : String)
  /-- A null pointer. -/
  | null
  /-- The file is there, and is read from where it is. -/
  | there
  /-- A buffer, with its size. -/
  | buffer (size : Nat) (data : Memory)

def openFile (fileName : String) (protocol : DataProtocol) (flags : BitVec 8) (found : Found) :
    Opened :=
  match protocol with
  | .HTTP | .S3 =>
    if FILE_FLAGS_READ flags && FILE_FLAGS_WRITE flags then
      .failed (s!"Opening file {fileName} failed: "
        ++ "cannot open file with both read and write flags set")
    else if FILE_FLAGS_APPEND flags then
      .failed (s!"Opening file {fileName} failed: "
        ++ "appending to HTTP/S3 files is not supported")
    else if FILE_FLAGS_WRITE flags then
      if found.status ≠ 200 ∧ found.status ≠ 404 then
        .failed (s!"Opening file {fileName} failed: "
          ++ s!"Unexpected return status from server ({found.status})")
      else if found.status = 404 ∧
          ¬ (FILE_FLAGS_FILE_CREATE flags || FILE_FLAGS_FILE_CREATE_NEW flags) then
        .failed (s!"Opening file {fileName} failed: Cannot write to non-existent file "
          ++ "without FILE_FLAGS_FILE_CREATE or FILE_FLAGS_FILE_CREATE_NEW flag.")
      else .buffer 1 found.uninitialized
    else if FILE_FLAGS_READ flags = false then
      .failed s!"Opening file {fileName} failed: unsupported file flags: {flags.toNat}"
    else .there
  | .BROWSER_FILEREADER =>
    if found.handle then .there
    else if FILE_FLAGS_NULL_IF_NOT_EXISTS flags then .null
    else .buffer 1 found.uninitialized
  | .BROWSER_FSACCESS =>
    if found.handle then .there
    else .failed s!"No OPFS access handle registered with name: {fileName}"
  | .BUFFER | .NODE_FS => .null

/-! ## Buffers -/

def sizeT (n : Nat) : Nat := n % 4294967296

structure DataBuffer where
  data : Memory
  size : Nat
  capacity : Nat

def DataBuffer.Resize (b : DataBuffer) (n : Nat) (uninitialized : Memory) : DataBuffer :=
  if b.capacity < n then
    { data := copy uninitialized 0 b.data b.size
      size := n
      capacity := max (sizeT (b.capacity + b.capacity + b.capacity / 4)) n }
  else if n < b.capacity / 2 then
    { data := copy uninitialized 0 b.data n, size := n, capacity := n }
  else { b with size := n }

structure WebFile where
  file_name : String
  data_protocol : DataProtocol
  data_url : Option String
  handle_count : Nat
  file_size : Option Nat := none
  data_buffer : Option DataBuffer := none
  buffered_http_file : Bool := false

namespace WebFile

/-- `Truncate` of a buffer. -/
def Truncate (f : WebFile) (new_size : Nat) (uninitialized : Memory) : WebFile :=
  { f with
    data_buffer := f.data_buffer.map fun b => b.Resize (sizeT new_size) uninitialized
    file_size := some new_size }

/-- `Write` to a buffer. -/
def Write (f : WebFile) (position : Nat) (bytes : List UInt8) (uninitialized : Memory) :
    WebFile :=
  match f.data_buffer with
  | none => f
  | some b =>
    let endPosition := position + bytes.length
    let f :=
      if b.size < endPosition then
        f.Truncate (max (sizeT endPosition) (sizeT (f.file_size.getD 0))) uninitialized
      else f
    { f with data_buffer := f.data_buffer.map fun b =>
        { b with data := put b.data (sizeT position) bytes } }

end WebFile

/-! ## The file and its handles -/

structure State where
  /-- The file, until it is erased. -/
  file : Option WebFile
  /-- The positions of the handles that are open. -/
  handles : HandleId → Option Nat
  nextHandle : HandleId
  default_data_protocol : DataProtocol
  uploads : List (List UInt8)

/-- What happens while a handle is closed. -/
structure Closing where
  /-- `try_lock` gets the file's mutex. -/
  have_file_lock : Bool := true
  /-- The status of a `PUT` request. -/
  status : Nat := 200
  /-- What an access handle takes, if there is one. -/
  accessHandle : Option Nat := none

inductive Event
  | OpenFile (flags : BitVec 8) (found : Found)
  /-- To where the handle is, -/
  | Write (h : HandleId) (bytes : List UInt8) (uninitialized : Memory)
  /-- or to a location. -/
  | WriteAt (h : HandleId) (bytes : List UInt8) (location : Nat) (uninitialized : Memory)
  | Seek (h : HandleId) (location : Nat)
  | Truncate (h : HandleId) (new_size : Nat) (uninitialized : Memory)
  | Close (h : HandleId) (closing : Closing)

namespace State

variable (s : State)

def inferDataProtocol (url : String) : DataProtocol :=
  if "http://".isPrefixOf url || "https://".isPrefixOf url then .HTTP
  else if "s3://".isPrefixOf url then .S3
  else if "opfs://".isPrefixOf url then .BROWSER_FSACCESS
  else s.default_data_protocol

def makeHandle (f : WebFile) : State :=
  { s with
    file := some { f with handle_count := f.handle_count + 1 }
    handles := Function.update s.handles s.nextHandle (some 0)
    nextHandle := s.nextHandle + 1 }

def remote : DataProtocol → Bool
  | .HTTP | .S3 => true
  | _ => false

/-- The runtime has brought a buffer. -/
def buffered (f : WebFile) (flags : BitVec 8) (size : Nat) (data : Memory) : WebFile :=
  { f with
    data_protocol := .BUFFER
    file_size := some size
    data_buffer := some ⟨data, size, size⟩
    buffered_http_file :=
      f.buffered_http_file || (remote f.data_protocol && FILE_FLAGS_WRITE flags) }

def OpenFile (flags : BitVec 8) (found : Found) : Option State :=
  s.file.bind fun f =>
    if f.data_protocol = .BUFFER then
      some (s.makeHandle
        (if FILE_FLAGS_FILE_CREATE_NEW flags then f.Truncate 0 found.uninitialized else f))
    else
      match openFile f.file_name f.data_protocol flags found with
      | .buffer size data =>
        let f := buffered f flags size data
        some (s.makeHandle
          (if FILE_FLAGS_FILE_CREATE_NEW flags then f.Truncate 0 found.uninitialized else f))
      | .failed _ | .null | .there => none

/-- A handle of a file that is a buffer. -/
def withBuffer (h : HandleId) (k : WebFile → Nat → State) : Option State :=
  s.file.bind fun f => (s.handles h).bind fun position =>
    if f.data_protocol = .BUFFER then some (k f position) else none

def Write (h : HandleId) (bytes : List UInt8) (uninitialized : Memory) : Option State :=
  s.withBuffer h fun f position =>
    { s with
      file := some (f.Write position bytes uninitialized)
      handles := Function.update s.handles h (some (position + bytes.length)) }

def Seek (h : HandleId) (location : Nat) : Option State :=
  (s.handles h).map fun _ => { s with handles := Function.update s.handles h (some location) }

/-- The loop ends at once if there is nothing to write, and after one `Write` if there is. -/
def WriteAt (h : HandleId) (bytes : List UInt8) (location : Nat) (uninitialized : Memory) :
    Option State :=
  (s.Seek h location).bind fun s =>
    if bytes.length = 0 then some s else s.Write h bytes uninitialized

def Truncate (h : HandleId) (new_size : Nat) (uninitialized : Memory) : Option State :=
  s.withBuffer h fun f _ => { s with file := some (f.Truncate new_size uninitialized) }

/-- `writeFile` of the runtime for all of a buffer: what it returns, if it does not fail, and the
body that it has uploaded. -/
def writeFile (protocol : DataProtocol) (b : DataBuffer) (closing : Closing) :
    Option Nat × List (List UInt8) :=
  match protocol with
  | .HTTP => (none, [])
  | .S3 => (if closing.status = 200 then some b.size else none, [segment b.data 0 b.size])
  | .BROWSER_FILEREADER => (none, [])
  | .BROWSER_FSACCESS => (closing.accessHandle, [])
  | .BUFFER | .NODE_FS => (some 0, [])

def Close (h : HandleId) (closing : Closing) : Option State :=
  s.file.bind fun f => (s.handles h).map fun _ =>
    let released := { s with handles := Function.update s.handles h none }
    let f := { f with handle_count := f.handle_count - 1 }
    let kept := { released with file := some f }
    if 0 < f.handle_count then kept
    else if closing.have_file_lock = false then kept
    else if f.data_protocol = .BUFFER then
      if f.buffered_http_file then
        match f.data_url, f.data_buffer with
        | some url, some b =>
          let protocol := s.inferDataProtocol url
          let (written, bodies) := writeFile protocol b closing
          let uploaded := { released with uploads := s.uploads ++ bodies }
          -- An exception leaves the file with its protocol.
          if written = f.file_size ∧ written ≠ none then { uploaded with file := none }
          else { uploaded with file := some { f with data_protocol := protocol } }
        | _, _ => kept
      else kept
    else { released with file := none }

def step (s : State) : Event → Option State
  | .OpenFile flags found => s.OpenFile flags found
  | .Write h bytes uninitialized => s.Write h bytes uninitialized
  | .WriteAt h bytes location uninitialized => s.WriteAt h bytes location uninitialized
  | .Seek h location => s.Seek h location
  | .Truncate h new_size uninitialized => s.Truncate h new_size uninitialized
  | .Close h closing => s.Close h closing

/-- The file has been registered, and is kept by some handles. -/
def initial (default : DataProtocol) (file_name : String) (protocol : DataProtocol)
    (data_url : Option String) (pins : Nat) : State where
  file := some {
    file_name, data_url
    data_protocol := protocol
    handle_count := pins }
  handles h := if h < pins then some 0 else none
  nextHandle := pins
  default_data_protocol := default
  uploads := []

end State

end Haybarn.Runtime.WriteBuffers
