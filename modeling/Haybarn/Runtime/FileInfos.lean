import Haybarn.Io.MovedFiles
import Haybarn.Lib.JsMap

/-!
# File infos of the browser runtime

The web filesystem writes what the runtime has to know about a file (`WebFile::WriteInfo`), and the
browser runtime (packages/duckdb-wasm/src/bindings/runtime_browser.ts) keeps it, by the id of the
file, in `_fileInfoCache`, and what holds for all files in `_globalFileInfo`. An info has the epoch
at which it was written. To a runtime that asks with the current epoch nothing is written, and it
takes what it has.

Mirroring notes:
- The directory is that of `WebFileSystem`. The members of `WebFile` that it leaves out and an info
  has are here, by the address of the file.
- One event is one call with the calls of the runtime that it makes. A call of the runtime that
  only looks a file up (`readFile`, `truncateFile`, `glob`) is `getFileInfo` or
  `getGlobalFileInfo`. The runtime never asks by name.
- Opening has the outcome the event says (`Opened`), with the size of the file; its exceptions leave
  the file that was just looked up in the cache.
- `answers` is not in the source: it records what the runtime has answered from what it had, and
  what the web filesystem would have written instead.
- `buffered_http_config_options_` has a value where it is read. What is always null is left out
  (`blob`, and `reliable_head_requests` of an S3 config), and so are the contents of files.
-/

namespace Haybarn.Runtime.Browser

open Haybarn.Lib Haybarn.Io.WebFiles
open Haybarn.Io.WebFiles.WebFileSystem
  (raised lowered overwriteWithBuffer afterOpen modify_files Labelled.run)

/-! ## What is written -/

structure DuckDBConfigOptions where
  s3_region : String
  s3_endpoint : String
  s3_access_key_id : String
  s3_secret_access_key : String
  s3_session_token : String
  reliable_head_requests : Bool
  deriving DecidableEq, Repr

structure FileSystemConfig where
  allow_full_http_reads : Option Bool
  force_full_http_reads : Option Bool
  reliable_head_requests : Option Bool
  deriving DecidableEq, Repr

/-- The part of `WebDBConfig` that is for files. -/
structure WebDBConfig where
  filesystem : FileSystemConfig
  duckdb_config_options : DuckDBConfigOptions
  deriving DecidableEq, Repr

structure S3Config where
  region : String
  endpoint : String
  accessKeyId : String
  secretAccessKey : String
  sessionToken : String
  deriving DecidableEq, Repr

def writeS3Config (options : DuckDBConfigOptions) : S3Config where
  region := options.s3_region
  endpoint := options.s3_endpoint
  accessKeyId := options.s3_access_key_id
  secretAccessKey := options.s3_secret_access_key
  sessionToken := options.s3_session_token

/-- Members that are not written are none, or false where the reader takes that for it. -/
structure DuckDBFileInfo where
  cacheEpoch : UInt32
  fileId : UInt32
  fileName : String
  fileSize : Option Nat
  dataProtocol : DataProtocol
  dataUrl : Option String
  allowFullHttpReads : Bool
  forceFullHttpReads : Bool
  reliableHeadRequests : Option Bool
  collectStatistics : Bool
  s3Config : Option S3Config
  deriving DecidableEq, Repr

structure DuckDBGlobalFileInfo where
  cacheEpoch : UInt32
  allowFullHttpReads : Bool
  forceFullHttpReads : Bool
  reliableHeadRequests : Bool
  s3Config : S3Config
  deriving DecidableEq, Repr

/-- An answer from what the runtime had, and what would be written. -/
inductive Answer
  | file (cached fresh : Option DuckDBFileInfo)
  | global (cached fresh : Option DuckDBGlobalFileInfo)
  deriving DecidableEq, Repr

structure BrowserRuntime where
  directory : WebFileSystem
  file_size : Ptr → Option Nat
  buffered_http_config_options : Ptr → Option DuckDBConfigOptions
  config : WebDBConfig
  /-- The names with a collector in `file_statistics_`. -/
  collectors : String → Bool
  cache_epoch : UInt32
  fileInfoCache : JsMap UInt32 DuckDBFileInfo
  globalFileInfo : Option DuckDBGlobalFileInfo
  answers : List Answer

namespace BrowserRuntime

def initial (protocol : DataProtocol) (config : WebDBConfig) : BrowserRuntime where
  directory := .initial protocol
  file_size _ := none
  buffered_http_config_options _ := none
  config := config
  collectors _ := false
  cache_epoch := 1
  fileInfoCache := []
  globalFileInfo := none
  answers := []

variable (s : BrowserRuntime)

def remote : DataProtocol → Bool
  | .HTTP | .S3 => true
  | _ => false

/-- `WebFile::WriteInfo` -/
def WriteInfo (p : Ptr) (f : WebFile) : DuckDBFileInfo where
  cacheEpoch := s.cache_epoch
  fileId := f.file_id
  fileName := f.file_name
  fileSize := s.file_size p
  dataProtocol := f.data_protocol
  dataUrl := f.data_url
  allowFullHttpReads :=
    remote f.data_protocol && s.config.filesystem.allow_full_http_reads.getD true
  forceFullHttpReads :=
    remote f.data_protocol && s.config.filesystem.force_full_http_reads.getD true
  reliableHeadRequests :=
    if remote f.data_protocol then some s.config.duckdb_config_options.reliable_head_requests
    else none
  collectStatistics := s.collectors f.file_name
  s3Config :=
    if f.data_protocol = .S3 then
      if f.buffered_http_file then (s.buffered_http_config_options p).map writeS3Config
      else some (writeS3Config s.config.duckdb_config_options)
    else none

/-- What is written about a file, if there is such a file. -/
def written (id : UInt32) : Option DuckDBFileInfo :=
  (s.directory.files_by_id.lookup id).bind fun p => (s.directory.files p).map (s.WriteInfo p)

def WriteFileInfo (id cache_epoch : UInt32) : Option DuckDBFileInfo :=
  if cache_epoch = s.cache_epoch then none else s.written id

def globalWritten : DuckDBGlobalFileInfo where
  cacheEpoch := s.cache_epoch
  allowFullHttpReads := s.config.filesystem.allow_full_http_reads.getD true
  forceFullHttpReads := s.config.filesystem.force_full_http_reads.getD true
  reliableHeadRequests := s.config.filesystem.reliable_head_requests.getD true
  s3Config := writeS3Config s.config.duckdb_config_options

def WriteGlobalFileInfo (cache_epoch : UInt32) : Option DuckDBGlobalFileInfo :=
  if cache_epoch = s.cache_epoch then none else some s.globalWritten

def IncrementCacheEpoch : BrowserRuntime :=
  { s with cache_epoch := if s.cache_epoch = 4294967295 then 1 else s.cache_epoch + 1 }

/-! ## The runtime -/

def getFileInfo (id : UInt32) : BrowserRuntime :=
  let cached := s.fileInfoCache.get id
  match s.WriteFileInfo id ((cached.map DuckDBFileInfo.cacheEpoch).getD 0) with
  | none => { s with answers := s.answers ++ [.file cached (s.written id)] }
  | some info => { s with fileInfoCache := s.fileInfoCache.set id info }

def getGlobalFileInfo : BrowserRuntime :=
  let cached := s.globalFileInfo
  match s.WriteGlobalFileInfo ((cached.map DuckDBGlobalFileInfo.cacheEpoch).getD 0) with
  | none => { s with answers := s.answers ++ [.global cached (some s.globalWritten)] }
  | some info => { s with globalFileInfo := some info }

def uncached (id : UInt32) : BrowserRuntime :=
  { s with fileInfoCache := s.fileInfoCache.delete id }

def openFile (id : UInt32) : BrowserRuntime := (s.uncached id).getFileInfo id

def closeFile (id : UInt32) : BrowserRuntime := (s.getFileInfo id).uncached id

/-- The first info with the URL is deleted. -/
def moveFile (source : String) : BrowserRuntime :=
  match s.fileInfoCache.findKey fun value => decide (value.dataUrl = some source) with
  | some key => s.uncached key
  | none => s

/-! ## The web filesystem -/

/-- A file that is new has no size. -/
def created (directory : WebFileSystem) : BrowserRuntime :=
  { s with directory, file_size := Function.update s.file_size s.directory.nextPtr none }

def RegisterFileURL (file_name file_url : String) (protocol : DataProtocol) : BrowserRuntime :=
  let (directory, _) := s.directory.RegisterFileURL file_name file_url protocol
  match s.directory.files_by_name.lookup file_name with
  | some _ => { s with directory }
  | none => s.created directory

def RegisterFileBuffer (file_name : String) (size : Nat) : BrowserRuntime :=
  let (directory, _) := s.directory.RegisterFileBuffer file_name
  match s.directory.files_by_name.lookup file_name with
  | some p =>
    let changed := { s with directory, file_size := Function.update s.file_size p (some size) }
    match s.directory.files p with
    | none => changed
    | some f =>
      match f.data_protocol with
      | .NODE_FS | .BROWSER_FSACCESS | .BROWSER_FILEREADER => changed.closeFile f.file_id
      | .HTTP | .S3 | .BUFFER => changed
  | none =>
    { s with
      directory
      file_size := Function.update s.file_size s.directory.nextPtr (some size) }

/-- A buffered file that is closed has got its protocol back, and is written. -/
def writeBack (f : WebFile) : BrowserRuntime :=
  if f.data_protocol = .BUFFER ∧ f.data_url ≠ none then
    s.IncrementCacheEpoch.getFileInfo f.file_id
  else s

/-- `WebFileHandle::Close` -/
def Close (h : HandleId) (closing : Closing) : BrowserRuntime :=
  match s.directory.handles h with
  | none => s
  | some p =>
    let released := { s.directory with handles := Function.update s.directory.handles h none }
    match s.directory.files p with
    | none => { s with directory := released }
    | some f =>
      let restored := released.modify p fun f => s.directory.restoreProtocol (lowered f)
      match (lowered f).closeAction closing with
      | .keep => { s with directory := released.modify p lowered }
      | .fail => ({ s with directory := restored }).writeBack f
      | .erase =>
        { (({ s with directory := restored }).writeBack f).closeFile f.file_id with
          directory := restored.forgetFound f }

def TryDropFile (file_name : String) : BrowserRuntime :=
  { s with directory := (s.directory.TryDropFile file_name).1 }

def DropDanglingFiles : BrowserRuntime :=
  { s with directory := s.directory.DropDanglingFiles.1 }

def MoveFile (source target : String) : BrowserRuntime :=
  ({ s with directory := (s.directory.MoveFile source target).1 }).moveFile source

/-- An exception while a file is opened. -/
def abortOpen (p : Ptr) (h : HandleId) (closing : Closing) : BrowserRuntime :=
  match s.directory.files p with
  | none => s
  | some f => ({ s with directory := s.directory.forgetFound f }).Close h closing

/-- What `OpenFile` does with an outcome of `openFile`. -/
def afterOpenFile (p : Ptr) (h : HandleId) (f : WebFile) (flags : OpenFlags) (overwrite : Bool)
    (opened : Opened) (size : Nat) (closing : Closing) : BrowserRuntime :=
  match opened with
  | .threw => s.abortOpen p h closing
  | .missing => if flags.returnNullIfNotExists then s.Close h closing else s.abortOpen p h closing
  | .opened buffer truncateThrows =>
    let opened := { s with
      directory := s.directory.modify p (afterOpen flags buffer)
      file_size := Function.update s.file_size p (some size)
      buffered_http_config_options :=
        if buffer && remote f.data_protocol && flags.openForWriting then
          Function.update s.buffered_http_config_options p (some s.config.duckdb_config_options)
        else s.buffered_http_config_options }
    -- `Truncate` asks the runtime to truncate a file that is no buffer.
    let asked := if overwrite && !buffer then opened.getFileInfo f.file_id else opened
    if truncateThrows then asked.abortOpen p h closing
    else if overwrite then
      { asked with file_size := Function.update asked.file_size p (some 0) }
    else asked

def findOrCreate (url : String) : BrowserRuntime × Ptr :=
  let (directory, p) := s.directory.findOrCreate url
  match s.directory.files_by_name.lookup url with
  | some _ => ({ s with directory }, p)
  | none => (s.created directory, p)

def OpenFile (url : String) (flags : OpenFlags) (overwrite : Bool) (opened : Opened) (size : Nat)
    (closing : Closing) : BrowserRuntime :=
  let h := s.directory.nextHandle
  let (found, p) := s.findOrCreate url
  let s := { found with directory := found.directory.makeHandle p }
  match found.directory.files p with
  | none => s
  | some f =>
    if f.data_protocol = .BUFFER then
      if overwrite then { s with file_size := Function.update s.file_size p (some 0) } else s
    else (s.openFile f.file_id).afterOpenFile p h f flags overwrite opened size closing

/-- A callback of an option. -/
def SetOptions (options : DuckDBConfigOptions) : BrowserRuntime :=
  ({ s with config := { s.config with duckdb_config_options := options } }).IncrementCacheEpoch

/-- `EnableCollector` -/
def CollectFileStatistics (path : String) (enable : Bool) : BrowserRuntime :=
  { s with collectors := if enable then Function.update s.collectors path true else s.collectors }

end BrowserRuntime

open BrowserRuntime

/-! ## Steps -/

inductive Event
  | RegisterFileURL (file_name file_url : String) (protocol : DataProtocol)
  | RegisterFileBuffer (file_name : String) (size : Nat)
  | OpenFile (url : String) (flags : OpenFlags) (overwrite : Bool) (opened : Opened) (size : Nat)
      (closing : Closing)
  | Close (h : HandleId) (closing : Closing)
  | TryDropFile (file_name : String)
  | DropDanglingFiles
  | MoveFile (source target : String)
  | SetOptions (options : DuckDBConfigOptions)
  /-- `WebDB::Open` reads the config, -/
  | ReadConfig (config : WebDBConfig)
  /-- and registers the options when the database is there. -/
  | RegisterOptions
  | CollectFileStatistics (path : String) (enable : Bool)
  | getFileInfo (id : UInt32)
  | getGlobalFileInfo
  deriving DecidableEq, Repr

def BrowserRuntime.call (s : BrowserRuntime) : Event → BrowserRuntime
  | .RegisterFileURL file_name file_url protocol => s.RegisterFileURL file_name file_url protocol
  | .RegisterFileBuffer file_name size => s.RegisterFileBuffer file_name size
  | .OpenFile url flags overwrite opened size closing =>
    s.OpenFile url flags overwrite opened size closing
  | .Close h closing => s.Close h closing
  | .TryDropFile file_name => s.TryDropFile file_name
  | .DropDanglingFiles => s.DropDanglingFiles
  | .MoveFile source target => s.MoveFile source target
  | .SetOptions options => s.SetOptions options
  | .ReadConfig config => { s with config }
  | .RegisterOptions => s.IncrementCacheEpoch
  | .CollectFileStatistics path enable => s.CollectFileStatistics path enable
  | .getFileInfo id => s.getFileInfo id
  | .getGlobalFileInfo => s.getGlobalFileInfo

def step (s : BrowserRuntime) (e : Event) : Option BrowserRuntime := some (s.call e)

/-! ## The directory

The runtime and the infos leave the directory what it is: a run here is one of the web
filesystem. -/

/-- The call of the web filesystem. -/
def Event.inDirectory : Event → Option Io.WebFiles.Event
  | .RegisterFileURL file_name file_url protocol =>
    some (.RegisterFileURL file_name file_url protocol)
  | .RegisterFileBuffer file_name _ => some (.RegisterFileBuffer file_name)
  | .OpenFile url flags _ opened _ closing => some (.OpenFile url flags opened closing)
  | .Close h closing => some (.Close h closing)
  | .TryDropFile file_name => some (.TryDropFile file_name)
  | .DropDanglingFiles => some .DropDanglingFiles
  | .MoveFile source target => some (.MoveFile source target)
  | .SetOptions _ | .ReadConfig _ | .RegisterOptions | .CollectFileStatistics .. | .getFileInfo _
  | .getGlobalFileInfo => none

section

variable {s : BrowserRuntime}

theorem getFileInfo_eq (s : BrowserRuntime) (id : UInt32) : ∃ cache answers,
    s.getFileInfo id = { s with fileInfoCache := cache, answers := answers } := by
  unfold BrowserRuntime.getFileInfo
  dsimp only
  split
  · exact ⟨_, _, rfl⟩
  · exact ⟨_, _, rfl⟩

theorem openFile_eq (s : BrowserRuntime) (id : UInt32) : ∃ cache answers,
    s.openFile id = { s with fileInfoCache := cache, answers := answers } := by
  obtain ⟨cache, answers, heq⟩ := getFileInfo_eq (s.uncached id) id
  exact ⟨cache, answers, heq⟩

theorem closeFile_eq (s : BrowserRuntime) (id : UInt32) : ∃ cache answers,
    s.closeFile id = { s with fileInfoCache := cache, answers := answers }
      ∧ cache.get id = none := by
  obtain ⟨cache, answers, heq⟩ := getFileInfo_eq s id
  refine ⟨cache.delete id, answers, ?_, ?_⟩
  · unfold BrowserRuntime.closeFile
    rw [heq]
    rfl
  · rw [JsMap.get_delete, if_pos rfl]

theorem closeFile_directory (s : BrowserRuntime) (id : UInt32) :
    (s.closeFile id).directory = s.directory := by
  obtain ⟨_, _, heq, _⟩ := closeFile_eq s id
  rw [heq]

theorem moveFile_directory (s : BrowserRuntime) (source : String) :
    (s.moveFile source).directory = s.directory := by
  unfold BrowserRuntime.moveFile
  split
  · rfl
  · rfl

theorem writeBack_eq (s : BrowserRuntime) (f : WebFile) : ∃ epoch cache answers,
    s.writeBack f = { s with
      cache_epoch := epoch, fileInfoCache := cache, answers := answers } := by
  unfold writeBack
  split
  · obtain ⟨cache, answers, heq⟩ := getFileInfo_eq s.IncrementCacheEpoch f.file_id
    rw [heq]
    exact ⟨_, cache, answers, rfl⟩
  · exact ⟨_, _, _, rfl⟩

theorem Close_directory (s : BrowserRuntime) (h : HandleId) (closing : Closing) :
    (s.Close h closing).directory = (s.directory.Close h closing).1 := by
  unfold BrowserRuntime.Close WebFileSystem.Close
  cases s.directory.handles h with
  | none => rfl
  | some p =>
    dsimp only
    cases s.directory.files p with
    | none => rfl
    | some f =>
      dsimp only
      cases (lowered f).closeAction closing with
      | keep => rfl
      | fail =>
        obtain ⟨_, _, _, heq⟩ := writeBack_eq ({ s with
          directory := ({ s.directory with
            handles := Function.update s.directory.handles h none }).modify p fun f =>
              s.directory.restoreProtocol (lowered f) }) f
        dsimp only
        rw [heq]
      | erase => rfl

theorem abortOpen_directory (s : BrowserRuntime) (p : Ptr) (h : HandleId) (closing : Closing) :
    (s.abortOpen p h closing).directory = (s.directory.abortOpen p h closing).1 := by
  unfold BrowserRuntime.abortOpen WebFileSystem.abortOpen
  cases s.directory.files p with
  | none => rfl
  | some f => exact Close_directory _ h closing

theorem afterOpenFile_directory {p : Ptr} {h : HandleId} {f g : WebFile} {flags : OpenFlags}
    {overwrite : Bool} {opened : Opened} {size : Nat} {closing : Closing}
    (hg : s.directory.files p = some g) (hprotocol : g.data_protocol ≠ .BUFFER) :
    (s.afterOpenFile p h f flags overwrite opened size closing).directory
      = (s.directory.openInRuntime p h flags opened closing).1 := by
  unfold BrowserRuntime.afterOpenFile WebFileSystem.openInRuntime
  rw [hg, Option.map_some, if_neg fun heq => hprotocol (Option.some.inj heq)]
  cases opened with
  | threw => exact abortOpen_directory s p h closing
  | missing =>
    dsimp only
    split
    · exact Close_directory s h closing
    · exact abortOpen_directory s p h closing
  | opened buffer truncateThrows =>
    dsimp only
    generalize hopened : ({ s with
      directory := s.directory.modify p (afterOpen flags buffer)
      file_size := Function.update s.file_size p (some size)
      buffered_http_config_options :=
        if buffer && remote f.data_protocol && flags.openForWriting then
          Function.update s.buffered_http_config_options p (some s.config.duckdb_config_options)
        else s.buffered_http_config_options } : BrowserRuntime) = opened
    have hasked : (if (overwrite && !buffer) = true then opened.getFileInfo f.file_id
        else opened).directory = s.directory.modify p (afterOpen flags buffer) := by
      split
      · obtain ⟨_, _, heq⟩ := getFileInfo_eq opened f.file_id
        rw [heq, ← hopened]
      · rw [← hopened]
    split
    · rw [abortOpen_directory, hasked]
    · split
      · exact hasked
      · exact hasked

theorem findOrCreate_directory (s : BrowserRuntime) (url : String) :
    ((s.findOrCreate url).1.directory, (s.findOrCreate url).2) = s.directory.findOrCreate url := by
  unfold BrowserRuntime.findOrCreate WebFileSystem.findOrCreate
  cases s.directory.files_by_name.lookup url with
  | some p => rfl
  | none => rfl

theorem OpenFile_directory {url : String} {flags : OpenFlags} {overwrite : Bool} {opened : Opened}
    {size : Nat} {closing : Closing} (hs : s.directory.Labelled) :
    (s.OpenFile url flags overwrite opened size closing).directory
      = (s.directory.OpenFile url flags opened closing).1 := by
  obtain ⟨found, p, hresult⟩ : ∃ found p, s.findOrCreate url = (found, p) := ⟨_, _, rfl⟩
  have hfound := findOrCreate_directory s url
  rw [hresult] at hfound
  -- the file is there, having a name
  have hfile : ∃ f, found.directory.files p = some f := by
    unfold WebFileSystem.findOrCreate at hfound
    cases hp : s.directory.files_by_name.lookup url with
    | some q =>
      rw [hp] at hfound
      obtain ⟨f, hf, _⟩ := hs.by_name url q hp
      obtain ⟨hd, rfl⟩ := Prod.mk.inj hfound
      exact ⟨f, hd ▸ hf⟩
    | none =>
      rw [hp] at hfound
      obtain ⟨hd, rfl⟩ := Prod.mk.inj hfound
      have hd' : found.directory = s.directory.create url _ (some url) := hd
      rw [hd']
      exact ⟨_, Function.update_self ..⟩
  obtain ⟨f, hf⟩ := hfile
  have hraised : (found.directory.makeHandle p).files p = some (raised f) := by
    show (found.directory.modify p raised).files p = _
    rw [modify_files, if_pos rfl, hf]
    rfl
  unfold BrowserRuntime.OpenFile WebFileSystem.OpenFile
  rw [hresult, ← hfound]
  dsimp only
  rw [hf]
  dsimp only
  by_cases hbuffer : f.data_protocol = .BUFFER
  · have hsome : some (raised f).data_protocol = some .BUFFER := congrArg some hbuffer
    unfold WebFileSystem.openInRuntime
    rw [if_pos hbuffer, hraised, Option.map_some, if_pos hsome]
    split
    · rfl
    · rfl
  · rw [if_neg hbuffer]
    obtain ⟨_, _, heq⟩ :=
      openFile_eq { found with directory := found.directory.makeHandle p } f.file_id
    rw [heq]
    exact afterOpenFile_directory hraised hbuffer

theorem call_directory (hs : s.directory.Labelled) (e : Event) :
    (s.call e).directory = (e.inDirectory.map fun d => (Io.WebFiles.call s.directory d).1).getD
      s.directory := by
  cases e with
  | RegisterFileURL n url protocol =>
    unfold BrowserRuntime.call BrowserRuntime.RegisterFileURL
    dsimp only
    split
    · rfl
    · rfl
  | RegisterFileBuffer n size =>
    unfold BrowserRuntime.call BrowserRuntime.RegisterFileBuffer
    dsimp only
    split
    · split
      · rfl
      · split
        all_goals first | rfl | exact closeFile_directory _ _
    · rfl
  | OpenFile url flags overwrite opened size closing => exact OpenFile_directory hs
  | Close h closing => exact Close_directory s h closing
  | TryDropFile n => rfl
  | DropDanglingFiles => rfl
  | MoveFile source target => exact moveFile_directory _ source
  | SetOptions options => rfl
  | ReadConfig config => rfl
  | RegisterOptions => rfl
  | CollectFileStatistics path enable => rfl
  | getFileInfo id =>
    obtain ⟨_, _, heq⟩ := getFileInfo_eq s id
    show (s.getFileInfo id).directory = s.directory
    rw [heq]
  | getGlobalFileInfo =>
    unfold BrowserRuntime.call BrowserRuntime.getGlobalFileInfo
    dsimp only
    split
    · rfl
    · rfl

/-- **The directory of a run is that of a run of the web filesystem.** -/
theorem directory_run {ok : BrowserRuntime → Event → Prop} {protocol : DataProtocol}
    {config : WebDBConfig} {es : List Event} (h : Run step ok (initial protocol config) es s) :
    ∃ ds, Run Io.WebFiles.step Always (.initial protocol) ds s.directory := by
  refine h.invariant (P := fun s => ∃ ds, Run Io.WebFiles.step Always (.initial protocol) ds
    s.directory) ⟨[], .nil⟩ fun s e s' ⟨ds, hrun⟩ _ hs => ?_
  obtain rfl := Option.some.inj hs
  have hcall := call_directory (Labelled.run hrun) e
  cases he : e.inDirectory with
  | none =>
    rw [he] at hcall
    exact ⟨ds, hcall ▸ hrun⟩
  | some d =>
    rw [he] at hcall
    exact ⟨ds ++ [d], .snoc hrun trivial (congrArg some hcall.symm)⟩

end

end Haybarn.Runtime.Browser
