import Haybarn.Runtime.NodeFiles

/-!
# The Node runtime and the disk

What the files of the Node runtime should be: an id names a file of the disk by its path, an open
id reads and writes that file, and each descriptor that was opened for an id is closed by the
`closeFile` of the id (`RefinesDisk`).

Three functions keep a part of it away. `openFile` looks the path up in `_files`, which has only
what was registered: with `FILE_FLAGS_NULL_IF_NOT_EXISTS` a file of the disk is not there for it,
with a descriptor from there nothing is entered in `_filesById`, where `readFile` and `writeFile`
look, and without either a descriptor that the id has is overwritten. `closeFile` finds out from
the cache whether there is a descriptor to close, but `moveFile` deletes an entry of the cache. And
`moveFile` moves no file of the disk. `Tidy` is that none of it happens; in all runs that are tidy
the runtime is what it should be.
-/

namespace Haybarn.Runtime.Node

open Haybarn.Lib
open Haybarn.Io.WebFiles (DataProtocol)
open NodeRuntime

/-! ## What the runtime should do -/

def DuckDBFileInfo.path (info : DuckDBFileInfo) : Option String :=
  if info.dataProtocol = .NODE_FS then info.dataUrl else none

namespace NodeRuntime

def path (s : NodeRuntime) (id : FileId) : Option String :=
  (s.infos id).bind DuckDBFileInfo.path

/-- The file of the disk that an id names. -/
def diskFile (s : NodeRuntime) (id : FileId) : Option Inode := (s.path id).bind s.names

/-- Nothing but the contents of the file that the id names is read, written or truncated. -/
structure ActsOnItsFile (s : NodeRuntime) (id : FileId) (i : Inode) : Prop where
  names : s.diskFile id = some i
  reads : ∀ bytes location, (s.readFile id bytes location).2
    = .bytes ((s.inodes i).read bytes location)
  keeps : ∀ bytes location, (s.readFile id bytes location).1.inodes = s.inodes
  writes : ∀ src location, (s.writeFile id src location).2 = .count src.length
  written : ∀ src location, (s.writeFile id src location).1.inodes
    = Function.update s.inodes i ((s.inodes i).write location src)
  truncated : ∀ newSize, (s.truncateFile id newSize).1.inodes
    = Function.update s.inodes i ((s.inodes i).truncate newSize)

end NodeRuntime

/-- The names of the disk after a file has been moved. -/
def renamed (names : String → Option Inode) (source target : String) : String → Option Inode :=
  match names source with
  | none => names
  | some i =>
    if source = target then names
    else Function.update (Function.update names source none) target (some i)

def NodeRuntime.step (s : NodeRuntime) (e : Event) : Option NodeRuntime := some (s.reply e).1

/-- The runtime is what it should be, in all runs whose steps meet a condition. -/
structure RefinesDisk (ok : NodeRuntime → Event → Prop) (s₀ : NodeRuntime) : Prop where
  /-- A file that is there is never reported as absent. -/
  present : ∀ es s id flags, Run step ok s₀ es s → ok s (.openFile id flags) →
    s.diskFile id ≠ none → (s.openFile id flags).2 ≠ .absent
  /-- From an `openFile` that succeeds until it is closed, an id is the file that it names. -/
  acts : ∀ es s id flags size fs s', Run step ok s₀ es s → ok s (.openFile id flags) →
    (s.openFile id flags).2 = .file size → Run step ok (s.openFile id flags).1 fs s' →
    Event.closeFile id ∉ fs → ∃ i, s'.ActsOnItsFile id i
  /-- No descriptor is closed twice. -/
  once : ∀ es s, Run step ok s₀ es s → s.closed.Nodup
  /-- `closeFile` closes what was opened for the id, if that was not closed before. -/
  ends : ∀ es s id, Run step ok s₀ es s → ok s (.closeFile id) →
    ∀ fd, fd ∈ (s.closeFile id).1.closed ↔ fd ∈ s.closed ∨ (fd, id) ∈ s.opened
  /-- Nothing else closes a descriptor. -/
  only : ∀ es s e, Run step ok s₀ es s → ok s e → (∀ id, e ≠ .closeFile id) →
    (s.reply e).1.closed = s.closed
  /-- `moveFile` moves the file. -/
  moves : ∀ es s source target moved, Run step ok s₀ es s →
    ok s (.moveFile source target moved) →
    (s.reply (.moveFile source target moved)).1.names = renamed s.names source target

/-! ## When it does -/

/-- `openFile` of a path that is registered finds the id open already, of any other path it finds
the id not open, or, with `FILE_FLAGS_NULL_IF_NOT_EXISTS`, no such file. `closeFile` of an open id
finds it in the cache. `moveFile` to another path has no file of the disk to move. -/
def NodeRuntime.Tidy (s : NodeRuntime) : Event → Prop
  | .openFile id flags => ∀ p, s.path id = some p →
    match s.files p with
    | some fd => s.fds fd = none ∨ s.filesById id ≠ none
    | none => if flags.getLsbD 7 then s.names p = none else s.filesById id = none
  | .closeFile id => s.filesById id ≠ none → s.fileInfoCache.get id ≠ none
  | .moveFile source target _ => source = target ∨ s.names source = none
  | _ => True

def NodeRuntime.Orderly (s : NodeRuntime) (e : Event) : Prop := s.Possible e ∧ s.Tidy e

/-- Before the first `openFile`. The disk, what the web filesystem has and what has been
registered are arbitrary. -/
structure NodeRuntime.Initial (s : NodeRuntime) : Prop where
  names : ∀ p i, s.names p = some i → i < s.nextInode
  fds : ∀ fd, s.fds fd ≠ none → fd < s.nextFd
  epoch : s.epoch ≠ 0
  filesById : ∀ id, s.filesById id = none
  fileInfoCache : s.fileInfoCache = []
  opened : s.opened = []
  closed : s.closed = []

structure Inv (s : NodeRuntime) : Prop where
  names : ∀ p i, s.names p = some i → i < s.nextInode
  fds : ∀ fd, s.fds fd ≠ none → fd < s.nextFd
  epoch : s.epoch ≠ 0
  /-- An open id has a descriptor of the file that it names. -/
  held : ∀ id fd, s.filesById id = some fd →
    (∃ i, s.diskFile id = some i ∧ s.fds fd = some i) ∧ (fd, id) ∈ s.opened ∧ fd ∉ s.closed
  cached : ∀ id info, s.filesById id ≠ none → s.fileInfoCache.get id = some info →
    info.path = s.path id
  /-- What has been opened is in use or closed. -/
  accounted : ∀ id fd, (fd, id) ∈ s.opened → s.filesById id = some fd ∨ fd ∈ s.closed
  /-- A descriptor is opened for one id. -/
  owner : ∀ id id' fd, (fd, id) ∈ s.opened → (fd, id') ∈ s.opened → id = id'
  below : ∀ id fd, (fd, id) ∈ s.opened → fd < s.nextFd
  closed : ∀ fd, fd ∈ s.closed → ∃ id, (fd, id) ∈ s.opened
  once : s.closed.Nodup

variable {s s' : NodeRuntime} {id : FileId} {fd : Fd}

theorem Inv.initial (h : s.Initial) : Inv s where
  names := h.names
  fds := h.fds
  epoch := h.epoch
  held id fd hfd := by
    rw [h.filesById id] at hfd
    cases hfd
  cached id info ho := absurd (h.filesById id) ho
  accounted id fd ho := by
    rw [h.opened] at ho
    cases ho
  owner id id' fd ho := by
    rw [h.opened] at ho
    cases ho
  below id fd ho := by
    rw [h.opened] at ho
    cases ho
  closed fd hc := by
    rw [h.closed] at hc
    cases hc
  once := h.closed ▸ .nil

/-! ### File infos -/

theorem path_of_path {info : DuckDBFileInfo} {p : String} (h : info.path = some p) :
    info.dataProtocol = .NODE_FS ∧ info.dataUrl = some p := by
  unfold DuckDBFileInfo.path at h
  split at h
  next hp => exact ⟨hp, h⟩
  next => cases h

/-- Another cache, if it knows the same about open ids. -/
theorem Inv.withCache (hi : Inv s) {cache : JsMap FileId DuckDBFileInfo}
    (h : ∀ id info, s.filesById id ≠ none → cache.get id = some info → info.path = s.path id) :
    Inv { s with fileInfoCache := cache } :=
  { hi with cached := h }

theorem Inv.deleted (hi : Inv s) : Inv { s with fileInfoCache := s.fileInfoCache.delete id } := by
  refine hi.withCache fun id' info ho hget => ?_
  rw [JsMap.get_delete] at hget
  split at hget
  · cases hget
  · exact hi.cached id' info ho hget

/-- Either the cached info is the answer, or an info that has been written, which is cached then. -/
theorem resolveFileInfo_cases (s : NodeRuntime) (id : FileId) :
    s.resolveFileInfo id = (s, s.fileInfoCache.get id)
        ∧ (s.infos id = none ∨ s.fileInfoCache.get id ≠ none ∨ s.epoch = 0)
      ∨ ∃ info : DuckDBFileInfo, (s.infos id).map (fun info => { info with cacheEpoch := s.epoch })
          = some info ∧ s.resolveFileInfo id
          = ({ s with fileInfoCache := s.fileInfoCache.set id info }, some info) := by
  unfold resolveFileInfo
  dsimp only
  split
  next hnone =>
    refine .inl ⟨rfl, ?_⟩
    unfold writeFileInfo at hnone
    split at hnone
    next hepoch =>
      right
      cases hc : s.fileInfoCache.get id with
      | none =>
        rw [hc] at hepoch
        exact .inr hepoch.symm
      | some _ => exact .inl (Option.some_ne_none _)
    next => exact .inl (Option.map_eq_none_iff.mp hnone)
  next info hsome =>
    unfold writeFileInfo at hsome
    split at hsome
    · cases hsome
    · exact .inr ⟨info, hsome, rfl⟩

theorem path_of_written {info : DuckDBFileInfo}
    (h : (s.infos id).map (fun info => { info with cacheEpoch := s.epoch }) = some info) :
    info.path = s.path id := by
  obtain ⟨info', hinfo, rfl⟩ := Option.map_eq_some_iff.mp h
  unfold path
  rw [hinfo]
  rfl

theorem Inv.written (hi : Inv s) {info : DuckDBFileInfo} (h : info.path = s.path id) :
    Inv { s with fileInfoCache := s.fileInfoCache.set id info } := by
  refine hi.withCache fun id' info' ho hget => ?_
  rw [JsMap.get_set] at hget
  split at hget
  next he =>
    obtain rfl := Option.some.inj hget
    rw [he, h]
  next => exact hi.cached id' info' ho hget

theorem Inv.resolveFileInfo (hi : Inv s) : Inv (s.resolveFileInfo id).1 := by
  rcases resolveFileInfo_cases s id with ⟨hr, _⟩ | ⟨info, hw, hr⟩
  · rw [hr]
    exact hi
  · rw [hr]
    exact hi.written (path_of_written hw)

theorem resolveFileInfo_keeps (s : NodeRuntime) (id : FileId) :
    ∃ cache, (s.resolveFileInfo id).1 = { s with fileInfoCache := cache } := by
  rcases resolveFileInfo_cases s id with ⟨hr, _⟩ | ⟨info, _, hr⟩
  · exact ⟨s.fileInfoCache, by rw [hr]⟩
  · exact ⟨_, by rw [hr]⟩

theorem Inv.path_of_open (hi : Inv s) (ho : s.filesById id = some fd) :
    ∃ p i, s.path id = some p ∧ s.names p = some i ∧ s.fds fd = some i := by
  obtain ⟨⟨i, hdisk, hfd⟩, _⟩ := hi.held id fd ho
  obtain ⟨p, hp, hn⟩ := Option.bind_eq_some_iff.mp hdisk
  exact ⟨p, i, hp, hn, hfd⟩

/-- An open id is resolved to what it names. -/
theorem Inv.resolved (hi : Inv s) (ho : s.filesById id = some fd) :
    ∃ cache file, s.resolveFileInfo id = ({ s with fileInfoCache := cache }, some file)
      ∧ file.path = s.path id := by
  obtain ⟨p, i, hp, _⟩ := hi.path_of_open ho
  rcases resolveFileInfo_cases s id with ⟨hr, hwhy⟩ | ⟨info, hw, hr⟩
  · have hcached : s.fileInfoCache.get id ≠ none := by
      rcases hwhy with hnone | hcached | hepoch
      · unfold path at hp
        rw [hnone] at hp
        cases hp
      · exact hcached
      · exact absurd hepoch hi.epoch
    obtain ⟨file, hget⟩ := Option.ne_none_iff_exists'.mp hcached
    have hne : s.filesById id ≠ none := ho ▸ Option.some_ne_none fd
    exact ⟨s.fileInfoCache, file, by rw [hr, hget], hi.cached id file hne hget⟩
  · exact ⟨_, info, hr, path_of_written hw⟩

/-! ### Reading and writing -/

theorem withInfo_of_open (hi : Inv s) (ho : s.filesById id = some fd)
    (k : NodeRuntime → DuckDBFileInfo → NodeRuntime × Reply) :
    ∃ cache file, s.withInfo id k = k { s with fileInfoCache := cache } file
      ∧ file.path = s.path id := by
  obtain ⟨cache, file, hr, hpath⟩ := hi.resolved ho
  obtain ⟨p, i, hp, _⟩ := hi.path_of_open ho
  refine ⟨cache, file, ?_, hpath⟩
  unfold withInfo
  rw [hr]
  dsimp only
  rw [(path_of_path (hpath.trans hp)).1]

theorem Inv.actsOnItsFile (hi : Inv s) (ho : s.filesById id = some fd) :
    ∃ i, s.ActsOnItsFile id i := by
  obtain ⟨p, i, hp, hn, hfd⟩ := hi.path_of_open ho
  have hdescriptor : ∀ cache,
      ({ s with fileInfoCache := cache } : NodeRuntime).descriptor id = .ok i := by
    intro cache
    unfold descriptor
    dsimp only
    rw [ho]
    dsimp only
    rw [hfd]
  refine ⟨i, ?_, ?_, ?_, ?_, ?_, ?_⟩
  · unfold diskFile
    rw [hp]
    exact hn
  · intro bytes location
    unfold readFile
    obtain ⟨cache, file, hw, _⟩ := withInfo_of_open hi ho _
    rw [hw, hdescriptor cache]
  · intro bytes location
    unfold readFile
    obtain ⟨cache, file, hw, _⟩ := withInfo_of_open hi ho _
    rw [hw, hdescriptor cache]
  · intro src location
    unfold writeFile
    obtain ⟨cache, file, hw, _⟩ := withInfo_of_open hi ho _
    rw [hw, hdescriptor cache]
  · intro src location
    unfold writeFile
    obtain ⟨cache, file, hw, _⟩ := withInfo_of_open hi ho _
    rw [hw, hdescriptor cache]
    rfl
  · -- by the path, which is that of the id as well
    intro newSize
    unfold truncateFile
    obtain ⟨cache, file, hw, hpath⟩ := withInfo_of_open hi ho _
    rw [hw, (path_of_path (hpath.trans hp)).2, Option.bind_some, hn]
    rfl

theorem Inv.setContents (hi : Inv s) (i : Inode) (c : Contents) : Inv (s.setContents i c) :=
  { hi with }

theorem Inv.withInfo (hi : Inv s) {k : NodeRuntime → DuckDBFileInfo → NodeRuntime × Reply}
    (hk : ∀ s' file, Inv s' → Inv (k s' file).1) : Inv (s.withInfo id k).1 := by
  have hresolved : Inv (s.resolveFileInfo id).1 := hi.resolveFileInfo
  unfold NodeRuntime.withInfo
  split
  next s' hr =>
    rw [hr] at hresolved
    exact hresolved
  next s' file hr =>
    rw [hr] at hresolved
    split
    · exact hresolved
    · exact hk _ _ hresolved
    all_goals exact hresolved

/-- What `withInfo` itself keeps. -/
theorem withInfo_keeps {α : Type} (f : NodeRuntime → α)
    (hcache : ∀ s' cache, f { s' with fileInfoCache := cache } = f s')
    {k : NodeRuntime → DuckDBFileInfo → NodeRuntime × Reply}
    (hk : ∀ s' file, f (k s' file).1 = f s') : f (s.withInfo id k).1 = f s := by
  obtain ⟨cache, hkeeps⟩ := resolveFileInfo_keeps s id
  have hresolved : f (s.resolveFileInfo id).1 = f s := by rw [hkeeps, hcache]
  unfold NodeRuntime.withInfo
  split
  next s' hr =>
    rw [hr] at hresolved
    exact hresolved
  next s' file hr =>
    rw [hr] at hresolved
    split
    · exact hresolved
    · exact (hk _ _).trans hresolved
    all_goals exact hresolved

theorem descriptor_step {α : Type} (f : NodeRuntime → α) (s' : NodeRuntime)
    {k : Inode → NodeRuntime × Reply} (hk : ∀ i, f (k i).1 = f s') :
    f (match s'.descriptor id with
      | .ok i => k i
      | .error e => (s', .failed e)).1 = f s' := by
  split
  · exact hk _
  · rfl

/-- Reading, writing and truncating change the cache and contents. -/
theorem io_keeps {α : Type} (s : NodeRuntime) (id : FileId) (f : NodeRuntime → α)
    (hcache : ∀ s' cache, f { s' with fileInfoCache := cache } = f s')
    (hinodes : ∀ s' inodes, f { s' with inodes := inodes } = f s') :
    (∀ bytes location, f (s.readFile id bytes location).1 = f s)
      ∧ (∀ src location, f (s.writeFile id src location).1 = f s)
      ∧ ∀ newSize, f (s.truncateFile id newSize).1 = f s := by
  refine ⟨fun bytes location => ?_, fun src location => ?_, fun newSize => ?_⟩
  · exact withInfo_keeps f hcache fun s' _ => descriptor_step f s' fun _ => rfl
  · exact withInfo_keeps f hcache fun s' _ => descriptor_step f s' fun _ => hinodes _ _
  · refine withInfo_keeps f hcache fun s' file => ?_
    split
    · exact hinodes _ _
    · rfl

theorem Inv.readFile (hi : Inv s) (bytes location : Nat) :
    Inv (s.readFile id bytes location).1 := by
  refine hi.withInfo fun s' _ hi' => ?_
  split
  · exact hi'
  · exact hi'

theorem Inv.writeFile (hi : Inv s) (src : List UInt8) (location : Nat) :
    Inv (s.writeFile id src location).1 := by
  refine hi.withInfo fun s' _ hi' => ?_
  split
  · exact hi'.setContents _ _
  · exact hi'

theorem Inv.truncateFile (hi : Inv s) (newSize : Nat) : Inv (s.truncateFile id newSize).1 := by
  refine hi.withInfo fun s' _ hi' => ?_
  split
  · exact hi'.setContents _ _
  · exact hi'

/-! ### Opening -/

/-- After the cached info has been deleted, what is resolved has been written. -/
theorem Inv.resolveFileInfo_deleted (hi : Inv s) (id : FileId) :
    ∃ cache, Inv { s with fileInfoCache := cache }
      ∧ (∀ info, cache.get id = some info → info.path = s.path id)
      ∧ ({ s with fileInfoCache := s.fileInfoCache.delete id } : NodeRuntime).resolveFileInfo id
        = ({ s with fileInfoCache := cache },
          (s.infos id).map fun info => { info with cacheEpoch := s.epoch }) := by
  have hinv : Inv (({ s with fileInfoCache := s.fileInfoCache.delete id } :
      NodeRuntime).resolveFileInfo id).1 := hi.deleted.resolveFileInfo
  rcases resolveFileInfo_cases { s with fileInfoCache := s.fileInfoCache.delete id } id with
    ⟨hr, hwhy⟩ | ⟨info, hw, hr⟩
  · have hnone : (s.fileInfoCache.delete id).get id = none := by
      rw [JsMap.get_delete, if_pos rfl]
    refine ⟨s.fileInfoCache.delete id, hi.deleted, fun info hget => ?_, hr.trans ?_⟩
    · rw [hnone] at hget
      cases hget
    dsimp only at hwhy ⊢
    rcases hwhy with hinfo | hcached | hepoch
    · rw [hnone, hinfo, Option.map_none]
    · exact absurd hnone hcached
    · exact absurd hepoch hi.epoch
  · rw [hr] at hinv
    refine ⟨_, hinv, fun info' hget => ?_, hr.trans (congrArg (Prod.mk _) hw.symm)⟩
    rw [JsMap.get_set, if_pos rfl] at hget
    obtain rfl := Option.some.inj hget
    exact path_of_written (s := s) hw

/-- What `openFile` does: nothing but resolve the id, or open the path that it names. -/
theorem openFile_cases (hi : Inv s) (id : FileId) (flags : BitVec 8) :
    ∃ cache, Inv { s with fileInfoCache := cache }
      ∧ (∀ info, cache.get id = some info → info.path = s.path id) ∧
      ((∃ r, s.openFile id flags = ({ s with fileInfoCache := cache }, r)
          ∧ (r = .absent → ∀ p, s.path id = some p →
            s.files p = none ∧ flags.getLsbD 7 = true)
          ∧ ∀ size, r = .file size → ∃ p fd, s.path id = some p ∧ s.files p = some fd
            ∧ s.fds fd ≠ none)
        ∨ ∃ p size, s.path id = some p ∧ s.files p = none ∧ flags.getLsbD 7 = false
          ∧ s.openFile id flags =
            ({ (({ s with fileInfoCache := cache } : NodeRuntime).openSync id p).1 with
              filesById := Function.update s.filesById id (some s.nextFd) }, .file size)) := by
  obtain ⟨cache, hinv, hcache, hr⟩ := hi.resolveFileInfo_deleted id
  refine ⟨cache, hinv, hcache, ?_⟩
  unfold openFile
  rw [hr]
  dsimp only
  cases hinfo : s.infos id with
  | none =>
    refine .inl ⟨_, rfl, fun _ p hp => ?_, fun _ h => nomatch h⟩
    unfold path at hp
    rw [hinfo] at hp
    cases hp
  | some info =>
    have hpath : s.path id = info.path := by
      unfold path
      rw [hinfo, Option.bind_some]
    rw [Option.map_some]
    dsimp only
    cases hproto : info.dataProtocol with
    | NODE_FS =>
      have hurl : s.path id = info.dataUrl := hpath.trans (if_pos hproto)
      dsimp only
      cases hfd : info.dataUrl.bind s.files with
      | some fd =>
        obtain ⟨p, hp, hfiles⟩ := Option.bind_eq_some_iff.mp hfd
        dsimp only
        cases hopen : s.fds fd with
        | none => exact .inl ⟨_, rfl, (fun h => nomatch h), fun _ h => nomatch h⟩
        | some i =>
          refine .inl ⟨_, rfl, (fun h => nomatch h), fun _ _ => ?_⟩
          exact ⟨p, fd, hurl.trans hp, hfiles, hopen ▸ Option.some_ne_none i⟩
      | none =>
        dsimp only
        have hfiles : ∀ p, s.path id = some p → s.files p = none := by
          intro p hp
          rw [hurl] at hp
          rw [hp] at hfd
          exact hfd
        by_cases hflag : flags.getLsbD 7 = true
        · rw [if_pos hflag]
          exact .inl ⟨_, rfl, fun _ p hp => ⟨hfiles p hp, hflag⟩, fun _ h => nomatch h⟩
        · rw [if_neg hflag]
          cases hdata : info.dataUrl with
          | none => exact .inl ⟨_, rfl, (fun h => nomatch h), fun _ h => nomatch h⟩
          | some p =>
            have hp : s.path id = some p := hurl.trans hdata
            refine .inr ⟨p, ?_⟩
            unfold openSync
            dsimp only
            cases s.names p with
            | some i =>
              rw [Function.update_self]
              exact ⟨_, hp, hfiles p hp, Bool.eq_false_iff.mpr hflag, rfl⟩
            | none =>
              rw [Function.update_self]
              exact ⟨_, hp, hfiles p hp, Bool.eq_false_iff.mpr hflag, rfl⟩
    | _ =>
      have hnone : s.path id = none := by
        rw [hpath]
        unfold DuckDBFileInfo.path
        rw [hproto]
        rfl
      refine .inl ⟨_, rfl, fun _ p hp => ?_, fun _ h => nomatch h⟩
      rw [hnone] at hp
      cases hp

/-- The path that is opened is there then, with all that were there. -/
theorem openSync_eq (hi : Inv s) (id : FileId) (p : String) :
    ∃ names inodes nextInode i,
      s.openSync id p = ({ s with
        names := names
        inodes := inodes
        nextInode := nextInode
        fds := Function.update s.fds s.nextFd (some i)
        nextFd := s.nextFd + 1
        opened := s.opened ++ [(s.nextFd, id)] }, s.nextFd)
      ∧ names p = some i ∧ (∀ q j, s.names q = some j → names q = some j)
      ∧ ∀ q j, names q = some j → j < nextInode := by
  unfold openSync
  cases hn : s.names p with
  | some i => exact ⟨s.names, _, s.nextInode, i, rfl, hn, fun _ _ h => h, hi.names⟩
  | none =>
    refine ⟨Function.update s.names p (some s.nextInode), _, s.nextInode + 1, s.nextInode, rfl,
      Function.update_self .., ?_, ?_⟩
    · intro q j hq
      have hne : q ≠ p := fun h => by
        rw [h, hn] at hq
        cases hq
      rw [Function.update_of_ne hne]
      exact hq
    · intro q j hq
      by_cases hqp : q = p
      · rw [hqp, Function.update_self] at hq
        exact Option.some.inj hq ▸ Nat.lt_succ_self _
      · rw [Function.update_of_ne hqp] at hq
        exact Nat.lt_succ_of_lt (hi.names q j hq)

theorem Inv.opened (hi : Inv s) {p : String} (hp : s.path id = some p)
    (hnone : s.filesById id = none)
    (hcache : ∀ info, s.fileInfoCache.get id = some info → info.path = s.path id) :
    Inv { (s.openSync id p).1 with
      filesById := Function.update s.filesById id (some s.nextFd) } := by
  obtain ⟨names, inodes, nextInode, i, hopen, hname, hnames, hbound⟩ :=
    openSync_eq hi id p
  rw [hopen]
  dsimp only
  have hfresh : ∀ id', (s.nextFd, id') ∉ s.opened :=
    fun id' hmem => Nat.lt_irrefl _ (hi.below id' s.nextFd hmem)
  constructor
  case names => exact hbound
  case fds =>
    intro fd hfd
    dsimp only at hfd ⊢
    by_cases he : fd = s.nextFd
    · exact he ▸ Nat.lt_succ_self _
    · rw [Function.update_of_ne he] at hfd
      exact Nat.lt_succ_of_lt (hi.fds fd hfd)
  case epoch => exact hi.epoch
  case held =>
    intro id' fd hfd
    dsimp only at hfd
    by_cases hid : id' = id
    · -- the id that is opened
      obtain rfl := hid
      rw [Function.update_self] at hfd
      obtain rfl := Option.some.inj hfd
      refine ⟨⟨i, ?_, Function.update_self ..⟩, List.mem_append_right _ (List.mem_singleton_self _),
        fun hclosed => ?_⟩
      · exact Option.bind_eq_some_iff.mpr ⟨p, hp, hname⟩
      · obtain ⟨id'', hmem⟩ := hi.closed _ hclosed
        exact hfresh id'' hmem
    · rw [Function.update_of_ne hid] at hfd
      obtain ⟨⟨j, hdisk, hj⟩, hmem, hclosed⟩ := hi.held id' fd hfd
      have hne : fd ≠ s.nextFd := fun h => hfresh id' (h ▸ hmem)
      refine ⟨⟨j, ?_, (Function.update_of_ne hne ..).trans hj⟩, List.mem_append_left _ hmem,
        hclosed⟩
      obtain ⟨q, hq, hqj⟩ := Option.bind_eq_some_iff.mp hdisk
      exact Option.bind_eq_some_iff.mpr ⟨q, hq, hnames q j hqj⟩
  case cached =>
    intro id' info ho hget
    dsimp only at ho
    by_cases hid : id' = id
    · exact hid ▸ hcache info (hid ▸ hget)
    · exact hi.cached id' info (by rwa [Function.update_of_ne hid] at ho) hget
  case accounted =>
    intro id' fd hmem
    rcases List.mem_append.mp hmem with hold | hnew
    · rcases hi.accounted id' fd hold with hfd | hclosed
      · left
        have hne : id' ≠ id := fun h => by
          rw [h, hnone] at hfd
          cases hfd
        exact (Function.update_of_ne hne ..).trans hfd
      · exact .inr hclosed
    · obtain ⟨rfl, rfl⟩ := Prod.mk.inj (List.mem_singleton.mp hnew)
      exact .inl (Function.update_self ..)
  case owner =>
    intro id' id'' fd hmem hmem'
    rcases List.mem_append.mp hmem with hold | hnew
    · rcases List.mem_append.mp hmem' with hold' | hnew'
      · exact hi.owner id' id'' fd hold hold'
      · obtain ⟨rfl, rfl⟩ := Prod.mk.inj (List.mem_singleton.mp hnew')
        exact absurd hold (hfresh id')
    · obtain ⟨rfl, rfl⟩ := Prod.mk.inj (List.mem_singleton.mp hnew)
      rcases List.mem_append.mp hmem' with hold' | hnew'
      · exact absurd hold' (hfresh id'')
      · exact (Prod.mk.inj (List.mem_singleton.mp hnew')).2.symm
  case below =>
    intro id' fd hmem
    rcases List.mem_append.mp hmem with hold | hnew
    · exact Nat.lt_succ_of_lt (hi.below id' fd hold)
    · obtain ⟨rfl, _⟩ := Prod.mk.inj (List.mem_singleton.mp hnew)
      exact Nat.lt_succ_self _
  case closed =>
    intro fd hfd
    obtain ⟨id', hmem⟩ := hi.closed fd hfd
    exact ⟨id', List.mem_append_left _ hmem⟩
  case once => exact hi.once

theorem Inv.openFile (hi : Inv s) {flags : BitVec 8} (ht : s.Tidy (.openFile id flags)) :
    Inv (s.openFile id flags).1 := by
  obtain ⟨cache, hinv, hcache, hcases⟩ := openFile_cases hi id flags
  rcases hcases with ⟨r, ho, _⟩ | ⟨p, size, hp, hfiles, hflag, ho⟩
  · rw [ho]
    exact hinv
  · have hnone : s.filesById id = none := by
      have := ht p hp
      rw [hfiles, hflag] at this
      exact this
    rw [ho]
    exact hinv.opened hp hnone hcache

/-- An `openFile` that succeeds leaves the id with a descriptor. -/
theorem Inv.open_of_file (hi : Inv s) {flags : BitVec 8} {size : Nat}
    (ht : s.Tidy (.openFile id flags)) (hr : (s.openFile id flags).2 = .file size) :
    (s.openFile id flags).1.filesById id ≠ none := by
  obtain ⟨cache, _, _, hcases⟩ := openFile_cases hi id flags
  rcases hcases with ⟨r, ho, _, hfile⟩ | ⟨p, size', hp, hfiles, hflag, ho⟩
  · rw [ho] at hr ⊢
    obtain ⟨p, fd, hp, hfiles, hfd⟩ := hfile size hr
    have hregistered := ht p hp
    rw [hfiles] at hregistered
    exact hregistered.resolve_left hfd
  · rw [ho]
    dsimp only
    rw [Function.update_self]
    exact Option.some_ne_none _

theorem openFile_present (hi : Inv s) {flags : BitVec 8} (ht : s.Tidy (.openFile id flags))
    (hdisk : s.diskFile id ≠ none) : (s.openFile id flags).2 ≠ .absent := by
  obtain ⟨i, hi'⟩ := Option.ne_none_iff_exists'.mp hdisk
  obtain ⟨p, hp, hn⟩ := Option.bind_eq_some_iff.mp hi'
  obtain ⟨cache, _, _, hcases⟩ := openFile_cases hi id flags
  rcases hcases with ⟨r, ho, habsent, _⟩ | ⟨p, size', _, _, _, ho⟩
  · rw [ho]
    intro hr
    obtain ⟨hfiles, hflag⟩ := habsent hr p hp
    have hnone := ht p hp
    rw [hfiles, hflag] at hnone
    have hnone' : s.names p = none := hnone
    rw [hnone'] at hn
    cases hn
  · rw [ho]
    exact fun h => nomatch h

/-! ### Closing and moving -/

theorem closeFile_eq (hi : Inv s) (ht : s.Tidy (.closeFile id)) :
    s.closeFile id = match s.filesById id with
      | some fd => (({ s with
          fileInfoCache := s.fileInfoCache.delete id
          filesById := Function.update s.filesById id none } : NodeRuntime).closeSync fd, .done)
      | none => ({ s with fileInfoCache := s.fileInfoCache.delete id }, .done) := by
  unfold closeFile
  dsimp only
  cases ho : s.filesById id with
  | some fd =>
    have hne : s.filesById id ≠ none := ho ▸ Option.some_ne_none fd
    obtain ⟨info, hget⟩ := Option.ne_none_iff_exists'.mp (ht hne)
    obtain ⟨p, i, hp, _⟩ := hi.path_of_open ho
    have hproto := (path_of_path ((hi.cached id info hne hget).trans hp)).1
    rw [hget, Option.map_some, hproto]
  | none =>
    have hsame : Function.update s.filesById id none = s.filesById :=
      Function.update_eq_self_iff.mpr ho.symm
    split
    · rw [hsame]
    · rfl

theorem Inv.closed_of (hi : Inv s) (ho : s.filesById id = some fd) :
    Inv (({ s with
      fileInfoCache := s.fileInfoCache.delete id
      filesById := Function.update s.filesById id none } : NodeRuntime).closeSync fd) := by
  obtain ⟨_, hmem, hopen⟩ := hi.held id fd ho
  unfold closeSync
  constructor
  case names => exact hi.names
  case fds =>
    intro fd' hfd'
    dsimp only at hfd'
    refine hi.fds fd' fun h => hfd' ?_
    by_cases he : fd' = fd
    · rw [he, Function.update_self]
    · rw [Function.update_of_ne he]
      exact h
  case epoch => exact hi.epoch
  case held =>
    intro id' fd' hfd'
    dsimp only at hfd'
    by_cases hid : id' = id
    · rw [hid, Function.update_self] at hfd'
      cases hfd'
    · rw [Function.update_of_ne hid] at hfd'
      obtain ⟨⟨j, hdisk, hj⟩, hmem', hopen'⟩ := hi.held id' fd' hfd'
      have hne : fd' ≠ fd := fun h => hid (hi.owner id' id fd' hmem' (h ▸ hmem))
      refine ⟨⟨j, hdisk, (Function.update_of_ne hne ..).trans hj⟩, hmem', fun hclosed => ?_⟩
      rcases List.mem_append.mp hclosed with hold | hnew
      · exact hopen' hold
      · exact hne (List.mem_singleton.mp hnew)
  case cached =>
    intro id' info ho' hget
    dsimp only at ho' hget
    by_cases hid : id' = id
    · rw [hid, Function.update_self] at ho'
      exact absurd rfl ho'
    · rw [Function.update_of_ne hid] at ho'
      rw [JsMap.get_delete, if_neg hid] at hget
      exact hi.cached id' info ho' hget
  case accounted =>
    intro id' fd' hmem'
    rcases hi.accounted id' fd' hmem' with hfd' | hclosed
    · by_cases hid : id' = id
      · rw [hid, ho] at hfd'
        exact .inr (List.mem_append_right _ (List.mem_singleton.mpr (Option.some.inj hfd').symm))
      · exact .inl ((Function.update_of_ne hid ..).trans hfd')
    · exact .inr (List.mem_append_left _ hclosed)
  case owner => exact hi.owner
  case below => exact hi.below
  case closed =>
    intro fd' hclosed
    rcases List.mem_append.mp hclosed with hold | hnew
    · exact hi.closed fd' hold
    · exact ⟨id, List.mem_singleton.mp hnew ▸ hmem⟩
  case once =>
    show (s.closed ++ [fd]).Nodup
    exact List.concat_eq_append ▸ hi.once.concat hopen

theorem Inv.closeFile (hi : Inv s) (ht : s.Tidy (.closeFile id)) :
    Inv (s.closeFile id).1 := by
  rw [closeFile_eq hi ht]
  split
  next fd ho => exact hi.closed_of ho
  next => exact hi.deleted

theorem mem_closed_closeFile (hi : Inv s) (ht : s.Tidy (.closeFile id)) :
    fd ∈ (s.closeFile id).1.closed ↔ fd ∈ s.closed ∨ (fd, id) ∈ s.opened := by
  rw [closeFile_eq hi ht]
  split
  next fd' ho =>
    obtain ⟨_, hmem, _⟩ := hi.held id fd' ho
    unfold closeSync
    dsimp only
    rw [List.mem_append, List.mem_singleton]
    constructor
    · rintro (hclosed | rfl)
      · exact .inl hclosed
      · exact .inr hmem
    · rintro (hclosed | hopened)
      · exact .inl hclosed
      · rcases hi.accounted id fd hopened with hfd | hclosed
        · exact .inr (Option.some.inj (hfd.symm.trans ho))
        · exact .inl hclosed
  next hnone =>
    refine ⟨.inl, fun h => h.elim (fun hclosed => hclosed) fun hopened => ?_⟩
    rcases hi.accounted _ fd hopened with hfd | hclosed
    · rw [hnone] at hfd
      cases hfd
    · exact hclosed

/-- A file that is moved without a file of the disk is not open. -/
theorem path_moveUrl (hi : Inv s) {source target : String} {moved : Option FileId}
    (hp : s.Possible (.moveFile source target moved))
    (ht : s.Tidy (.moveFile source target moved)) (ho : s.filesById id ≠ none) :
    (s.moveUrl moved target).path id = s.path id := by
  cases moved with
  | none => rfl
  | some id' =>
    have hurl := hp id' rfl
    obtain ⟨info, hinfo, hdata⟩ := Option.bind_eq_some_iff.mp hurl
    unfold moveUrl path
    dsimp only
    by_cases hid : id = id'
    · rw [hid, Function.update_self, hinfo]
      rcases ht with rfl | hnone
      · rw [← hdata]
        rfl
      · obtain ⟨fd, hfd⟩ := Option.ne_none_iff_exists'.mp ho
        obtain ⟨p, i, hpath, hn, _⟩ := hi.path_of_open hfd
        unfold path at hpath
        rw [hid, hinfo] at hpath
        have hsource := (path_of_path hpath).2.symm.trans hdata
        rw [Option.some.inj hsource, hnone] at hn
        cases hn
    · rw [Function.update_of_ne hid]

theorem moveUrl_eq (s : NodeRuntime) (moved : Option FileId) (target : String) :
    ∃ infos, s.moveUrl moved target = { s with infos := infos } := by
  cases moved with
  | none => exact ⟨s.infos, rfl⟩
  | some id => exact ⟨_, rfl⟩

theorem Inv.moveUrl (hi : Inv s) {source target : String} {moved : Option FileId}
    (hp : s.Possible (.moveFile source target moved))
    (ht : s.Tidy (.moveFile source target moved)) : Inv (s.moveUrl moved target) := by
  have hpath := fun id (ho : s.filesById id ≠ none) => path_moveUrl hi hp ht ho
  obtain ⟨infos, heq⟩ := moveUrl_eq s moved target
  rw [heq] at hpath ⊢
  refine { hi with held := fun id fd hfd => ?_, cached := fun id info ho hget => ?_ }
  · obtain ⟨⟨i, hdisk, hopen⟩, hrest⟩ := hi.held id fd hfd
    refine ⟨⟨i, ?_, hopen⟩, hrest⟩
    unfold diskFile
    rw [hpath id (hfd ▸ Option.some_ne_none fd)]
    exact hdisk
  · exact (hi.cached id info ho hget).trans (hpath id ho).symm

theorem Inv.moveFile (hi : Inv s) (source target : String) : Inv (s.moveFile source target).1 := by
  unfold NodeRuntime.moveFile
  cases s.fileInfoCache.findKey fun value => decide (value.dataUrl = some source) with
  | none => exact { hi with }
  | some key =>
    have hdeleted : Inv { s with fileInfoCache := s.fileInfoCache.delete key } := hi.deleted
    exact { hdeleted with }

theorem renamed_of_tidy {source target : String} {moved : Option FileId}
    (ht : s.Tidy (.moveFile source target moved)) : renamed s.names source target = s.names := by
  unfold renamed
  split
  · rfl
  next i hn =>
    rcases ht with rfl | hnone
    · rw [if_pos rfl]
    · rw [hnone] at hn
      cases hn

theorem Inv.incrementCacheEpoch (hi : Inv s) : Inv s.incrementCacheEpoch := by
  refine { hi with epoch := ?_ }
  unfold NodeRuntime.incrementCacheEpoch
  dsimp only
  split
  · decide
  next hne =>
    intro hzero
    refine hne ?_
    calc s.epoch = s.epoch + 1 - 1 := (UInt32.add_sub_cancel ..).symm
      _ = 0 - 1 := by rw [hzero]
      _ = 4294967295 := rfl

/-! ## Runs -/

theorem Inv.reply (hi : Inv s) {e : Event} (ho : s.Orderly e) : Inv (s.reply e).1 := by
  obtain ⟨hp, ht⟩ := ho
  cases e with
  | openFile id flags => exact hi.openFile ht
  | closeFile id => exact hi.closeFile ht
  | readFile id bytes location => exact hi.readFile bytes location
  | writeFile id src location => exact hi.writeFile src location
  | truncateFile id newSize => exact hi.truncateFile newSize
  | moveFile source target moved => exact (hi.moveUrl hp ht).moveFile source target
  | incrementCacheEpoch => exact hi.incrementCacheEpoch

theorem Inv.run {s₀ : NodeRuntime} {es : List Event} (h0 : Inv s₀)
    (h : Run step Orderly s₀ es s) : Inv s := by
  refine h.invariant h0 fun s e s' hi ho hs => ?_
  obtain rfl := Option.some.inj hs
  exact hi.reply ho

/-- Only `closeFile` closes, and makes an id that is open one that is not. -/
theorem reply_keeps (hi : Inv s) {e : Event} (hne : ∀ id, e ≠ .closeFile id) :
    (s.reply e).1.closed = s.closed
      ∧ ∀ id, s.filesById id ≠ none → (s.reply e).1.filesById id ≠ none := by
  cases e with
  | openFile id flags =>
    unfold NodeRuntime.reply
    dsimp only
    obtain ⟨cache, _, _, ⟨r, ho, _⟩ | ⟨p, size, _, _, _, ho⟩⟩ := openFile_cases hi id flags
    · rw [ho]
      exact ⟨rfl, fun _ h => h⟩
    · rw [ho]
      dsimp only
      refine ⟨?_, fun id' h => ?_⟩
      · unfold openSync
        cases s.names p <;> rfl
      · by_cases hid : id' = id
        · rw [hid, Function.update_self]
          exact Option.some_ne_none _
        · rw [Function.update_of_ne hid]
          exact h
  | closeFile id => exact absurd rfl (hne id)
  | readFile id bytes location =>
    obtain ⟨hclosed, _⟩ :=
      io_keeps s id NodeRuntime.closed (fun _ _ => rfl) fun _ _ => rfl
    obtain ⟨hfiles, _⟩ :=
      io_keeps s id NodeRuntime.filesById (fun _ _ => rfl) fun _ _ => rfl
    exact ⟨hclosed .., fun id' h => congrFun (hfiles bytes location) id' ▸ h⟩
  | writeFile id src location =>
    obtain ⟨_, hclosed, _⟩ :=
      io_keeps s id NodeRuntime.closed (fun _ _ => rfl) fun _ _ => rfl
    obtain ⟨_, hfiles, _⟩ :=
      io_keeps s id NodeRuntime.filesById (fun _ _ => rfl) fun _ _ => rfl
    exact ⟨hclosed .., fun id' h => congrFun (hfiles src location) id' ▸ h⟩
  | truncateFile id newSize =>
    obtain ⟨_, _, hclosed⟩ :=
      io_keeps s id NodeRuntime.closed (fun _ _ => rfl) fun _ _ => rfl
    obtain ⟨_, _, hfiles⟩ :=
      io_keeps s id NodeRuntime.filesById (fun _ _ => rfl) fun _ _ => rfl
    exact ⟨hclosed .., fun id' h => congrFun (hfiles newSize) id' ▸ h⟩
  | moveFile source target moved =>
    obtain ⟨infos, heq⟩ := moveUrl_eq s moved target
    unfold NodeRuntime.reply
    dsimp only
    rw [heq]
    exact ⟨rfl, fun _ h => h⟩
  | incrementCacheEpoch => exact ⟨rfl, fun _ h => h⟩

/-- An id stays open until it is closed. -/
theorem open_run {es : List Event} (h0 : Inv s) (ho : s.filesById id ≠ none)
    (h : Run step Orderly s es s') (hne : Event.closeFile id ∉ es) :
    s'.filesById id ≠ none := by
  have hinv : Inv s' ∧ (Event.closeFile id ∉ es → s'.filesById id ≠ none) := by
    refine h.invariant_trace (P := fun es s' => Inv s' ∧
      (Event.closeFile id ∉ es → s'.filesById id ≠ none)) ⟨h0, fun _ => ho⟩ ?_
    intro es s e s' ⟨hi, hopen⟩ hok hs
    obtain rfl := Option.some.inj hs
    refine ⟨hi.reply hok, fun hnot => ?_⟩
    rw [List.mem_append, List.mem_singleton, not_or] at hnot
    have hbefore := hopen hnot.1
    by_cases hclose : ∃ id', e = .closeFile id'
    · -- another id is closed
      obtain ⟨id', rfl⟩ := hclose
      have hid : id ≠ id' := fun h => hnot.2 (h ▸ rfl)
      show (s.closeFile id').1.filesById id ≠ none
      rw [closeFile_eq hi hok.2]
      split
      · exact fun h => hbefore ((Function.update_of_ne hid ..).symm.trans h)
      · exact hbefore
    · exact (reply_keeps hi fun id' h => hclose ⟨id', h⟩).2 id hbefore
  exact hinv.2 hne

/-- **The Node runtime refines the disk**, in all runs that are tidy. -/
theorem refinesDisk_of_tidy (h0 : s.Initial) : RefinesDisk Orderly s where
  present es s id flags h ho := openFile_present (Inv.run (.initial h0) h) ho.2
  acts es s id flags size fs s' h ho hr hrun hne := by
    have hi : Inv s := Inv.run (.initial h0) h
    have hopened : Inv (s.openFile id flags).1 := hi.openFile ho.2
    have hopen := open_run hopened (hi.open_of_file ho.2 hr) hrun hne
    obtain ⟨fd, hfd⟩ := Option.ne_none_iff_exists'.mp hopen
    exact (Inv.run hopened hrun).actsOnItsFile hfd
  once es s h := (Inv.run (.initial h0) h).once
  ends es s id h ho fd := mem_closed_closeFile (Inv.run (.initial h0) h) ho.2
  only es s e h _ hne := (reply_keeps (Inv.run (.initial h0) h) hne).1
  moves es s source target moved h ho := by
    rw [renamed_of_tidy ho.2]
    obtain ⟨infos, heq⟩ := moveUrl_eq s moved target
    unfold NodeRuntime.reply
    dsimp only
    rw [heq]
    rfl

/-! ## A disk with one file -/

def oneInfo : DuckDBFileInfo where
  cacheEpoch := 0
  dataProtocol := .NODE_FS
  dataUrl := some "a"

/-- The disk has a file `a`, and the web filesystem has file 0 for it. -/
def oneFile : NodeRuntime where
  names p := if p = "a" then some 0 else none
  inodes _ := .empty
  nextInode := 1
  fds _ := none
  nextFd := 3
  infos id := if id = 0 then some oneInfo else none
  epoch := 1
  files _ := none
  filesById _ := none
  fileInfoCache := []
  opened := []
  closed := []

theorem initial_oneFile : oneFile.Initial where
  names p i h := by
    unfold oneFile at h
    dsimp only at h
    split at h
    · exact Option.some.inj h ▸ Nat.one_pos
    · cases h
  fds fd h := absurd rfl h
  epoch := by decide
  filesById _ := rfl
  fileInfoCache := rfl
  opened := rfl
  closed := rfl

theorem refinesDisk_oneFile : RefinesDisk Orderly oneFile := refinesDisk_of_tidy initial_oneFile

/-- The file is reported as absent when it is opened with `FILE_FLAGS_NULL_IF_NOT_EXISTS`. -/
theorem oneFile_absent : oneFile.Initial ∧ ¬ RefinesDisk Possible oneFile := by
  refine ⟨initial_oneFile, fun h => ?_⟩
  exact h.present [] oneFile 0 128 .nil trivial (Option.some_ne_none 0) rfl

end Haybarn.Runtime.Node
