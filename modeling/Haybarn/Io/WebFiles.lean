import Haybarn.Lib.Run

/-!
# The directory of the web filesystem

`WebFileSystem` (`web_filesystem.cc`) keeps its files in three indexes, by id, by name and by
data URL. Registering, opening, closing, dropping and moving files maintain them by hand.

Mirroring notes:

* one event is one call, made under `fs_mutex_` (the windows in which a call gives the lock
  up to call the runtime are not interleaved with other calls);
* a `WebFile` is an object at an address. Indexes and handles refer to it by the address, as
  the shared pointers do, and it stays what it was after it has left the indexes;
* `unordered_map::insert` leaves an entry with the same key as it is (`insertNew`);
* what the runtime does is up to the event: whether opening succeeds, brings a buffer, finds
  no file or throws, whether writing a buffered file back fails, and whether the file's mutex
  can be had;
* ids and handle counts are 32-bit numbers (`uint32_t`, and `size_t` in WebAssembly);
* erasing through an end iterator is undefined behaviour: `undefined` is set, and the indexes
  are left as they are. `TryDropFile` reads `data_url_` through an iterator it has just
  erased; the model reads what was there;
* contents, sizes, modification times and statistics are left out.
-/

namespace Haybarn.Io.WebFiles

open Haybarn.Lib

inductive DataProtocol
  | BUFFER | NODE_FS | BROWSER_FILEREADER | BROWSER_FSACCESS | HTTP | S3
  deriving DecidableEq, Repr

/-- The address of a `WebFile`. -/
abbrev Ptr := Nat
abbrev HandleId := Nat

structure WebFile where
  file_id : UInt32
  file_name : String
  data_protocol : DataProtocol
  handle_count : UInt32 := 0
  data_url : Option String := none
  buffered_http_file : Bool := false
  deriving DecidableEq, Repr

/-- An index of files. -/
abbrev Index (K : Type) := AList fun _ : K => Ptr

/-- `unordered_map::insert` -/
def insertNew {K : Type} [DecidableEq K] (m : Index K) (k : K) (p : Ptr) : Index K :=
  if k ∈ m then m else m.insert k p

/-- What happens while a handle is closed. -/
structure Closing where
  /-- `try_lock` gets the file's mutex. -/
  have_file_lock : Bool := true
  /-- Writing a buffered file back fails. -/
  writeFails : Bool := false
  deriving DecidableEq, Repr

/-- What `duckdb_web_fs_file_open` does, and `Truncate` after it. -/
inductive Opened
  | threw
  /-- It returns `nullptr`. -/
  | missing
  | opened (buffer : Bool) (truncateThrows : Bool)
  deriving DecidableEq, Repr

structure OpenFlags where
  openForWriting : Bool := false
  returnNullIfNotExists : Bool := false
  deriving DecidableEq, Repr

inductive Reply
  | handle (h : HandleId)
  | null
  | done
  | bool (b : Bool)
  | invalid (message : String)
  | threw
  deriving DecidableEq, Repr

structure WebFileSystem where
  default_data_protocol : DataProtocol
  files_by_id : Index UInt32
  files_by_name : Index String
  files_by_url : Index String
  next_file_id : UInt32
  /-- The objects there are or have been. -/
  files : Ptr → Option WebFile
  nextPtr : Ptr
  /-- The handles that have not been closed. -/
  handles : HandleId → Option Ptr
  nextHandle : HandleId
  undefined : Bool

namespace WebFileSystem

def initial (protocol : DataProtocol) : WebFileSystem where
  default_data_protocol := protocol
  files_by_id := ∅
  files_by_name := ∅
  files_by_url := ∅
  next_file_id := 0
  files _ := none
  nextPtr := 0
  handles _ := none
  nextHandle := 0
  undefined := false

/-! ## The parts -/

def inferDataProtocol (s : WebFileSystem) (url : String) : DataProtocol :=
  if "http://".isPrefixOf url || "https://".isPrefixOf url then .HTTP
  else if "s3://".isPrefixOf url then .S3
  else if "opfs://".isPrefixOf url then .BROWSER_FSACCESS
  else s.default_data_protocol

/-- `++next_file_id_`, which could overflow. -/
def allocateFileID (s : WebFileSystem) : UInt32 := s.next_file_id + 1

def modify (s : WebFileSystem) (p : Ptr) (k : WebFile → WebFile) : WebFileSystem :=
  { s with files := Function.update s.files p ((s.files p).map k) }

/-- A new file, which is registered in the directory. -/
def create (s : WebFileSystem) (file_name : String) (protocol : DataProtocol)
    (data_url : Option String) : WebFileSystem :=
  let id := s.allocateFileID
  { s with
    next_file_id := id
    files := Function.update s.files s.nextPtr (some { file_id := id, file_name, data_url,
                                                       data_protocol := protocol })
    nextPtr := s.nextPtr + 1
    files_by_id := insertNew s.files_by_id id s.nextPtr
    files_by_name := insertNew s.files_by_name file_name s.nextPtr
    files_by_url := match data_url with
      | some url => insertNew s.files_by_url url s.nextPtr
      | none => s.files_by_url }

/-- `++file_->handle_count_` -/
def raised (f : WebFile) : WebFile := { f with handle_count := f.handle_count + 1 }

/-- The constructor of `WebFileHandle`. -/
def makeHandle (s : WebFileSystem) (p : Ptr) : WebFileSystem :=
  { s.modify p raised with
    handles := Function.update s.handles s.nextHandle (some p)
    nextHandle := s.nextHandle + 1 }

/-- Erase a file from the indexes by its name, its URL and its id. -/
def forget (s : WebFileSystem) (file : WebFile) : WebFileSystem :=
  { s with
    files_by_name := s.files_by_name.erase file.file_name
    files_by_url := match file.data_url with
      | some url => s.files_by_url.erase url
      | none => s.files_by_url
    files_by_id := s.files_by_id.erase file.file_id }

/-- `forget` where the id is looked up first, and erased by the iterator. -/
def forgetFound (s : WebFileSystem) (file : WebFile) : WebFileSystem :=
  if file.file_id ∈ s.files_by_id then s.forget file else { s.forget file with undefined := true }

end WebFileSystem

/-! ## Closing -/

/-- What `Close` finds out about a file whose handle count has been lowered. -/
inductive CloseAction
  /-- The file stays. -/
  | keep
  /-- The buffered file cannot be written back. -/
  | fail
  | erase
  deriving DecidableEq, Repr

def WebFile.closeAction (f : WebFile) (closing : Closing) : CloseAction :=
  if 0 < f.handle_count then .keep
  else if closing.have_file_lock = false then .keep
  else if f.data_protocol = .BUFFER then
    if f.buffered_http_file then
      if f.data_url = none ∨ closing.writeFails then .fail else .erase
    else .keep
  else .erase

namespace WebFileSystem

/-- `data_protocol_ = fs.inferDataProtocol(data_url_.value())` -/
def restoreProtocol (s : WebFileSystem) (f : WebFile) : WebFile :=
  match f.data_protocol, f.buffered_http_file, f.data_url with
  | .BUFFER, true, some url => { f with data_protocol := s.inferDataProtocol url }
  | _, _, _ => f

/-- `--file.handle_count_` -/
def lowered (f : WebFile) : WebFile := { f with handle_count := f.handle_count - 1 }

/-- `WebFileHandle::Close` -/
def Close (s : WebFileSystem) (h : HandleId) (closing : Closing) : WebFileSystem × Reply :=
  match s.handles h with
  | none => (s, .done)
  | some p =>
    let released := { s with handles := Function.update s.handles h none }
    match s.files p with
    | none => (released, .done)
    | some f =>
      match (lowered f).closeAction closing with
      | .keep => (released.modify p lowered, .done)
      | .fail => (released.modify p fun f => s.restoreProtocol (lowered f), .threw)
      | .erase =>
        ((released.modify p fun f => s.restoreProtocol (lowered f)).forgetFound f, .done)

/-! ## The other calls -/

def RegisterFileURL (s : WebFileSystem) (file_name file_url : String) (protocol : DataProtocol) :
    WebFileSystem × Reply :=
  match s.files_by_name.lookup file_name with
  | some p =>
    if (s.files p).bind WebFile.data_url = some file_url then
      (s.makeHandle p, .handle s.nextHandle)
    else (s, .invalid ("File already registered: " ++ file_name))
  | none =>
    ((s.create file_name protocol (some file_url)).makeHandle s.nextPtr, .handle s.nextHandle)

/-- The cases of `RegisterFileBuffer` for a file that is registered. -/
def overwriteWithBuffer (f : WebFile) : WebFile :=
  match f.data_protocol with
  | .NODE_FS | .BROWSER_FSACCESS | .BROWSER_FILEREADER => f
  | .HTTP | .S3 | .BUFFER => { f with data_protocol := .BUFFER }

def RegisterFileBuffer (s : WebFileSystem) (file_name : String) : WebFileSystem × Reply :=
  match s.files_by_name.lookup file_name with
  | some p => ((s.modify p overwriteWithBuffer).makeHandle p, .handle s.nextHandle)
  | none => ((s.create file_name .BUFFER none).makeHandle s.nextPtr, .handle s.nextHandle)

def DropDanglingFiles (s : WebFileSystem) : WebFileSystem × Reply :=
  -- The source erases the ids after the loop over the id index.
  let dangling := s.files_by_id.entries.filterMap fun e =>
    (s.files e.2).filter fun f => f.handle_count = 0
  (dangling.foldl forget s, .done)

def TryDropFile (s : WebFileSystem) (file_name : String) : WebFileSystem × Reply :=
  match (s.files_by_name.lookup file_name).bind s.files with
  | none => (s, .bool true)
  | some f => if f.handle_count = 0 then (s.forget f, .bool true) else (s, .bool false)

/-- The runtime has opened the file. -/
def afterOpen (flags : OpenFlags) (buffer : Bool) (f : WebFile) : WebFile :=
  if buffer then
    { f with
      data_protocol := .BUFFER
      buffered_http_file := f.buffered_http_file ||
        ((f.data_protocol = .S3 || f.data_protocol = .HTTP) && flags.openForWriting) }
  else f

/-- An exception while a file is opened: it leaves the indexes, and its handle is closed. -/
def abortOpen (s : WebFileSystem) (p : Ptr) (h : HandleId) (closing : Closing) :
    WebFileSystem × Reply :=
  match s.files p with
  | none => (s, .threw)
  | some f => (((s.forgetFound f).Close h closing).1, .threw)

/-- The part of `OpenFile` after the handle has been made. -/
def openInRuntime (s : WebFileSystem) (p : Ptr) (h : HandleId) (flags : OpenFlags)
    (opened : Opened) (closing : Closing) : WebFileSystem × Reply :=
  if ((s.files p).map WebFile.data_protocol) = some .BUFFER then (s, .handle h)
  else
    match opened with
    | .threw => s.abortOpen p h closing
    | .missing =>
      if flags.returnNullIfNotExists then ((s.Close h closing).1, .null)
      else s.abortOpen p h closing
    | .opened buffer truncateThrows =>
      let changed := s.modify p (afterOpen flags buffer)
      if truncateThrows then changed.abortOpen p h closing else (changed, .handle h)

/-- The file of a URL, which is created if there is none. -/
def findOrCreate (s : WebFileSystem) (url : String) : WebFileSystem × Ptr :=
  match s.files_by_name.lookup url with
  | some p => (s, p)
  | none => (s.create url (s.inferDataProtocol url) (some url), s.nextPtr)

def OpenFile (s : WebFileSystem) (url : String) (flags : OpenFlags) (opened : Opened)
    (closing : Closing) : WebFileSystem × Reply :=
  let (found, p) := s.findOrCreate url
  (found.makeHandle p).openInRuntime p s.nextHandle flags opened closing

/-- The first half of `MoveFile`. -/
def moveUrl (s : WebFileSystem) (source target : String) : WebFileSystem :=
  match s.files_by_url.lookup source with
  | none => s
  | some p =>
    { s.modify p fun f => { f with data_url := some target } with
      files_by_url := insertNew (s.files_by_url.erase source) target p }

/-- The second half of `MoveFile`. -/
def moveName (s : WebFileSystem) (source target : String) : WebFileSystem :=
  match s.files_by_name.lookup source with
  | none => s
  | some p =>
    { s.modify p fun f => { f with file_name := target } with
      files_by_name := insertNew (s.files_by_name.erase source) target p }

def MoveFile (s : WebFileSystem) (source target : String) : WebFileSystem × Reply :=
  ((s.moveUrl source target).moveName source target, .done)

end WebFileSystem

/-! ## Steps -/

inductive Event
  | RegisterFileURL (file_name file_url : String) (protocol : DataProtocol)
  | RegisterFileBuffer (file_name : String)
  | OpenFile (url : String) (flags : OpenFlags) (opened : Opened) (closing : Closing)
  | Close (h : HandleId) (closing : Closing)
  | TryDropFile (file_name : String)
  | DropDanglingFiles
  | MoveFile (source target : String)
  deriving DecidableEq, Repr

def call (s : WebFileSystem) : Event → WebFileSystem × Reply
  | .RegisterFileURL file_name file_url protocol => s.RegisterFileURL file_name file_url protocol
  | .RegisterFileBuffer file_name => s.RegisterFileBuffer file_name
  | .OpenFile url flags opened closing => s.OpenFile url flags opened closing
  | .Close h closing => s.Close h closing
  | .TryDropFile file_name => s.TryDropFile file_name
  | .DropDanglingFiles => s.DropDanglingFiles
  | .MoveFile source target => s.MoveFile source target

def step (s : WebFileSystem) (e : Event) : Option WebFileSystem := some (call s e).1

/-! ## Agreement -/

namespace WebFileSystem

/-- The file at the address is in the id index, under its own id. -/
def Indexed (s : WebFileSystem) (p : Ptr) (f : WebFile) : Prop :=
  s.files p = some f ∧ s.files_by_id.lookup f.file_id = some p

instance (s : WebFileSystem) (p : Ptr) (f : WebFile) : Decidable (s.Indexed p f) :=
  inferInstanceAs (Decidable (_ ∧ _))

/-- **The three indexes agree.** -/
structure Agree (s : WebFileSystem) : Prop where
  by_name : ∀ n p, s.files_by_name.lookup n = some p → ∃ f, s.Indexed p f ∧ f.file_name = n
  by_url : ∀ u p, s.files_by_url.lookup u = some p → ∃ f, s.Indexed p f ∧ f.data_url = some u
  by_id : ∀ i p, s.files_by_id.lookup i = some p →
    ∃ f, s.Indexed p f ∧ f.file_id = i ∧ s.files_by_name.lookup f.file_name = some p
  unique : ∀ p q f g, s.Indexed p f → s.Indexed q g →
    f.file_id = g.file_id ∨ f.file_name = g.file_name ∨
      (∃ u, s.files_by_url.lookup u = some p ∧ s.files_by_url.lookup u = some q) → p = q
  defined : s.undefined = false

/-- Closing the handle does not erase a file that is not in the id index any more. -/
def ClosesIndexed (s : WebFileSystem) (h : HandleId) (closing : Closing) : Prop :=
  ∀ p ∈ s.handles h, ∀ f ∈ s.files p, (lowered f).closeAction closing = .erase → s.Indexed p f

/-- Opening the file ends with an exception. -/
def aborts (flags : OpenFlags) : Opened → Bool
  | .threw => true
  | .missing => !flags.returnNullIfNotExists
  | .opened _ truncateThrows => truncateThrows

/-- The file when opening it ends. -/
def atEnd (flags : OpenFlags) (opened : Opened) (f : WebFile) : WebFile :=
  match opened with
  | .opened buffer _ => afterOpen flags buffer f
  | _ => f

/-- If opening ends with an exception, closing the handle after that does not erase the file,
which has been erased. -/
def AbortsOpen (s : WebFileSystem) (p : Ptr) (flags : OpenFlags) (opened : Opened)
    (closing : Closing) : Prop :=
  aborts flags opened = true → ∀ f ∈ s.files p, f.data_protocol ≠ .BUFFER →
    (lowered (atEnd flags opened f)).closeAction closing ≠ .erase

/-- The next file id is not that of a file. -/
def IdIsNew (s : WebFileSystem) : Prop := s.files_by_id.lookup s.allocateFileID = none

end WebFileSystem

open WebFileSystem

/-- Ids are new when they are allocated, files are not moved to the name of another file, and
a file that is erased on closing a handle has not been erased before. -/
def Orderly (s : WebFileSystem) : Event → Prop
  | .RegisterFileURL file_name _ _ => s.files_by_name.lookup file_name = none → s.IdIsNew
  | .RegisterFileBuffer file_name => s.files_by_name.lookup file_name = none → s.IdIsNew
  | .OpenFile url flags opened closing =>
    (s.files_by_name.lookup url = none → s.IdIsNew) ∧
      ((s.findOrCreate url).1.makeHandle (s.findOrCreate url).2).AbortsOpen
        (s.findOrCreate url).2 flags opened closing
  | .Close h closing => s.ClosesIndexed h closing
  | .TryDropFile _ => True
  | .DropDanglingFiles => True
  | .MoveFile source target => source ≠ target → s.files_by_name.lookup source ≠ none →
      s.files_by_name.lookup target = none

namespace WebFileSystem

instance (s : WebFileSystem) (h : HandleId) (closing : Closing) :
    Decidable (s.ClosesIndexed h closing) :=
  inferInstanceAs (Decidable (∀ p ∈ s.handles h, ∀ f ∈ s.files p, _ = _ → s.Indexed p f))

instance (s : WebFileSystem) (p : Ptr) (flags : OpenFlags) (opened : Opened) (closing : Closing) :
    Decidable (s.AbortsOpen p flags opened closing) :=
  inferInstanceAs (Decidable (_ = _ → ∀ f ∈ s.files p, _ → _ ≠ _))

instance (s : WebFileSystem) : Decidable s.IdIsNew := inferInstanceAs (Decidable (_ = none))

end WebFileSystem

instance (s : WebFileSystem) : (e : Event) → Decidable (Orderly s e)
  | .RegisterFileURL .. => inferInstanceAs (Decidable (_ = none → _))
  | .RegisterFileBuffer _ => inferInstanceAs (Decidable (_ = none → _))
  | .OpenFile .. => inferInstanceAs (Decidable ((_ = none → _) ∧ AbortsOpen _ _ _ _ _))
  | .Close h closing => inferInstanceAs (Decidable (s.ClosesIndexed h closing))
  | .TryDropFile _ => inferInstanceAs (Decidable True)
  | .DropDanglingFiles => inferInstanceAs (Decidable True)
  | .MoveFile .. => inferInstanceAs (Decidable (_ ≠ _ → _ ≠ none → _ = none))

end Haybarn.Io.WebFiles
