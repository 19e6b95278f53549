import Haybarn.Runtime.FileInfos

/-!
# The file info cache is coherent

An answer from the cache is what the web filesystem would write (`Answer.Coherent`) as long as
nothing that is in an info changes while the cache has it from the current epoch. The callbacks of
the options raise the epoch, and the runtime deletes what it has of a file that it opens, closes or
moves. `Settled` is what the other changes need: the size of a file that is opened, which the
runtime has looked up before, a file that has become a buffer, the files that are dropped, or that
are not opened, and stay in the cache, the second file that a move renames, a config that is read
again.

The runtime itself reads neither the size of a file nor whether it has a collector. Everything is
shown for a `part` of an info, which is the whole info, or all but these two.
-/

namespace Haybarn.Runtime.Browser

open Haybarn.Lib Haybarn.Io.WebFiles
open Haybarn.Io.WebFiles.WebFileSystem

/-! ## Coherence -/

def Answer.Coherent : Answer → Prop
  | .file cached fresh => cached = fresh
  | .global cached fresh => cached = fresh

instance : (a : Answer) → Decidable a.Coherent
  | .file cached fresh => inferInstanceAs (Decidable (cached = fresh))
  | .global cached fresh => inferInstanceAs (Decidable (cached = fresh))

def DuckDBFileInfo.part (whole : Bool) (info : DuckDBFileInfo) : DuckDBFileInfo :=
  if whole then info else { info with fileSize := none, collectStatistics := false }

def Answer.PartCoherent (whole : Bool) : Answer → Prop
  | .file cached fresh =>
    cached.map (DuckDBFileInfo.part whole) = fresh.map (DuckDBFileInfo.part whole)
  | .global cached fresh => cached = fresh

namespace BrowserRuntime

/-- The cache has the file from the current epoch. -/
def Fresh (s : BrowserRuntime) (id : UInt32) : Prop :=
  ∃ info, s.fileInfoCache.get id = some info ∧ info.cacheEpoch = s.cache_epoch

def Known (s : BrowserRuntime) (p : Ptr) : Prop :=
  ∃ id, s.directory.files_by_id.lookup id = some p ∧ s.Fresh id

/-- Nothing the runtime has is from the next epoch. -/
def NewEpoch (s : BrowserRuntime) : Prop :=
  (∀ id info, s.fileInfoCache.get id = some info →
    info.cacheEpoch ≠ s.IncrementCacheEpoch.cache_epoch)
  ∧ ∀ info, s.globalFileInfo = some info → info.cacheEpoch ≠ s.IncrementCacheEpoch.cache_epoch

/-- What the config says about a remote file. -/
def remoteConfig (config : WebDBConfig) : Bool × Bool × Bool :=
  (config.filesystem.allow_full_http_reads.getD true,
    config.filesystem.force_full_http_reads.getD true,
    config.duckdb_config_options.reliable_head_requests)

def globalConfig (config : WebDBConfig) : Bool × Bool × Bool × S3Config :=
  (config.filesystem.allow_full_http_reads.getD true,
    config.filesystem.force_full_http_reads.getD true,
    config.filesystem.reliable_head_requests.getD true,
    writeS3Config config.duckdb_config_options)

/-- Nothing changes in an info that the runtime would answer with. -/
def Settled (whole : Bool) (s : BrowserRuntime) : Event → Prop
  | .RegisterFileURL .. => True
  | .RegisterFileBuffer file_name size => ∀ p f,
    s.directory.files_by_name.lookup file_name = some p → s.directory.files p = some f →
    s.Known p → (whole = true → s.file_size p = some size) ∧ remote f.data_protocol = false
  | .OpenFile url flags overwrite opened size _ =>
    let (found, p) := s.findOrCreate url
    ∀ f, found.directory.files p = some f →
      if f.data_protocol = .BUFFER then
        whole = true → overwrite = true → found.Known p → found.file_size p = some 0
      else aborts flags opened = false ∧ ∀ buffer truncateThrows,
        opened = .opened buffer truncateThrows →
        buffer = false ∧ (whole = true → found.file_size p = some size ∧
          (overwrite = true → size = 0))
  | .Close h closing => ∀ p f, s.directory.handles h = some p → s.directory.files p = some f →
    f.data_protocol = .BUFFER → (lowered f).closeAction closing ≠ .keep → s.NewEpoch
  | .TryDropFile file_name => ∀ p f, s.directory.files_by_name.lookup file_name = some p →
    s.directory.files p = some f → f.handle_count = 0 → s.fileInfoCache.get f.file_id = none
  | .DropDanglingFiles => ∀ id p f, s.directory.files_by_id.lookup id = some p →
    s.directory.files p = some f → f.handle_count = 0 → s.fileInfoCache.get id = none
  | .MoveFile source target => ∀ p f, (s.moveFile source).Known p →
    s.directory.files p = some f →
    (s.directory.files_by_url.lookup source = some p → f.data_url = some target) ∧
      (s.directory.files_by_name.lookup source = some p → f.file_name = target)
  | .SetOptions _ => s.NewEpoch
  | .ReadConfig config =>
    (∀ p f, s.Known p → s.directory.files p = some f →
      (remote f.data_protocol = true → remoteConfig config = remoteConfig s.config) ∧
      (f.data_protocol = .S3 → f.buffered_http_file = false →
        writeS3Config config.duckdb_config_options
          = writeS3Config s.config.duckdb_config_options)) ∧
    ((∃ info, s.globalFileInfo = some info ∧ info.cacheEpoch = s.cache_epoch) →
      globalConfig config = globalConfig s.config)
  | .RegisterOptions => s.NewEpoch
  | .CollectFileStatistics path enable => whole = true → ∀ p f, s.Known p →
    s.directory.files p = some f → f.file_name = path → enable = true → s.collectors path = true
  | .getFileInfo _ => True
  | .getGlobalFileInfo => True

end BrowserRuntime

open BrowserRuntime

/-! ## The files that have ids -/

/-- Files have the ids under which they are found. -/
structure Numbered (d : WebFileSystem) : Prop where
  by_id : ∀ id p, d.files_by_id.lookup id = some p → ∃ f, d.files p = some f ∧ f.file_id = id
  fresh : ∀ p, d.nextPtr ≤ p → d.files p = none

/-- But for the number of handles the file is the same. -/
def SameFile (f g : WebFile) : Prop := g = { f with handle_count := g.handle_count }

/-- The file of an id stays that of the id, and stays the same if it is not one of those that may
change. -/
def Keeps (changing : Ptr → Prop) (d d' : WebFileSystem) (id : UInt32) : Prop :=
  ∀ p f, d.files_by_id.lookup id = some p → d.files p = some f →
    d'.files_by_id.lookup id = some p
      ∧ ∃ f', d'.files p = some f' ∧ (¬ changing p → SameFile f f')

section

variable {d d' d'' : WebFileSystem} {p : Ptr} {f : WebFile} {id : UInt32}
  {changing : Ptr → Prop}

theorem SameFile.refl (f : WebFile) : SameFile f f := rfl

theorem SameFile.trans {g k : WebFile} (h : SameFile f g) (h' : SameFile g k) : SameFile f k := by
  unfold SameFile at h h' ⊢
  rw [h] at h'
  exact h'

theorem Keeps.refl (changing : Ptr → Prop) (d : WebFileSystem) (id : UInt32) :
    Keeps changing d d id := fun _ f hid hf => ⟨hid, f, hf, fun _ => .refl f⟩

theorem Keeps.trans (h : Keeps changing d d' id) (h' : Keeps changing d' d'' id) :
    Keeps changing d d'' id := by
  intro p f hid hf
  obtain ⟨hid', f', hf', hsame⟩ := h p f hid hf
  obtain ⟨hid'', f'', hf'', hsame'⟩ := h' p f' hid' hf'
  exact ⟨hid'', f'', hf'', fun hp => (hsame hp).trans (hsame' hp)⟩

theorem initial_numbered (protocol : DataProtocol) : Numbered (WebFileSystem.initial protocol) := by
  refine ⟨fun id p h => ?_, fun _ _ => rfl⟩
  rw [WebFileSystem.initial, AList.lookup_empty] at h
  cases h

theorem Numbered.modify {k : WebFile → WebFile} (hd : Numbered d)
    (hk : ∀ f, (k f).file_id = f.file_id) : Numbered (d.modify p k) := by
  refine ⟨fun id q hq => ?_, fun q hq => ?_⟩
  · obtain ⟨f, hf, hid⟩ := hd.by_id id q hq
    rw [modify_files, hf]
    split
    · exact ⟨k f, rfl, (hk f).trans hid⟩
    · exact ⟨f, rfl, hid⟩
  · rw [modify_files, hd.fresh q hq]
    exact ite_self _

theorem keeps_modify {k : WebFile → WebFile}
    (hk : ¬ changing p → ∀ f, d.files p = some f → SameFile f (k f)) :
    Keeps changing d (d.modify p k) id := by
  intro q f hid hf
  refine ⟨hid, ?_⟩
  rw [modify_files, hf]
  split
  next hq =>
    obtain rfl := hq
    exact ⟨k f, rfl, fun hp => hk hp f hf⟩
  next => exact ⟨f, rfl, fun _ => .refl f⟩

theorem Numbered.handles (hd : Numbered d) {handles : HandleId → Option Ptr} {next : HandleId} :
    Numbered { d with handles := handles, nextHandle := next } := ⟨hd.by_id, hd.fresh⟩

theorem Numbered.makeHandle (hd : Numbered d) (p : Ptr) : Numbered (d.makeHandle p) := by
  have hraised : Numbered (d.modify p raised) := hd.modify fun _ => rfl
  exact hraised.handles

theorem keeps_makeHandle (p : Ptr) : Keeps changing d (d.makeHandle p) id :=
  keeps_modify (p := p) (k := raised) fun _ _ _ => rfl

theorem Numbered.create (hd : Numbered d) {n : String} {protocol : DataProtocol}
    {url : Option String} : Numbered (d.create n protocol url) := by
  have hnew : ∃ f, (d.create n protocol url).files d.nextPtr = some f
      ∧ f.file_id = d.allocateFileID := ⟨_, Function.update_self .., rfl⟩
  refine ⟨fun id q hq => ?_, fun q hq => ?_⟩
  · rcases lookup_insertNew_some hq with hold | ⟨rfl, rfl, _⟩
    · obtain ⟨g, hg, hgid⟩ := hd.by_id id q hold
      refine ⟨g, (Function.update_of_ne (fun h => ?_) ..).trans hg, hgid⟩
      rw [h, hd.fresh _ (Nat.le_refl _)] at hg
      cases hg
    · exact hnew
  · have hlt : d.nextPtr < q := hq
    exact (Function.update_of_ne (Nat.ne_of_gt hlt) ..).trans (hd.fresh q (Nat.le_of_lt hlt))

theorem keeps_create (hd : Numbered d) {n : String} {protocol : DataProtocol}
    {url : Option String} : Keeps changing d (d.create n protocol url) id := by
  intro q f hid hf
  have hne : q ≠ d.nextPtr := fun h => by
    rw [h, hd.fresh _ (Nat.le_refl _)] at hf
    cases hf
  have hmem : id ∈ d.files_by_id := AList.lookup_isSome.mp (hid ▸ rfl)
  refine ⟨?_, f, (Function.update_of_ne hne ..).trans hf, fun _ => .refl f⟩
  show (insertNew d.files_by_id d.allocateFileID d.nextPtr).lookup id = some q
  by_cases hnew : id = d.allocateFileID
  · rw [← hnew, insertNew, if_pos hmem]
    exact hid
  · rw [lookup_insertNew_of_ne hnew]
    exact hid

theorem Numbered.forget (hd : Numbered d) (f : WebFile) : Numbered (d.forget f) :=
  ⟨fun id p hp => hd.by_id id p (lookup_erase_some hp).2, hd.fresh⟩

theorem Numbered.forgetFound (hd : Numbered d) (f : WebFile) : Numbered (d.forgetFound f) := by
  unfold WebFileSystem.forgetFound
  split
  · exact hd.forget f
  · exact ⟨(hd.forget f).by_id, hd.fresh⟩

theorem keeps_forget (hne : id ≠ f.file_id) : Keeps changing d (d.forget f) id :=
  fun _ g hid hg => ⟨(AList.lookup_erase_ne hne).trans hid, g, hg, fun _ => .refl g⟩

theorem keeps_forgetFound (hne : id ≠ f.file_id) : Keeps changing d (d.forgetFound f) id := by
  unfold WebFileSystem.forgetFound
  split
  · exact keeps_forget hne
  · exact keeps_forget hne

theorem Numbered.moveUrl (hd : Numbered d) (source target : String) :
    Numbered (d.moveUrl source target) := by
  unfold WebFileSystem.moveUrl
  split
  · exact hd
  next p _ =>
    have hmoved : Numbered (d.modify p fun f => { f with data_url := some target }) :=
      hd.modify fun _ => rfl
    exact ⟨hmoved.by_id, hmoved.fresh⟩

theorem Numbered.moveName (hd : Numbered d) (source target : String) :
    Numbered (d.moveName source target) := by
  unfold WebFileSystem.moveName
  split
  · exact hd
  next p _ =>
    have hmoved : Numbered (d.modify p fun f => { f with file_name := target }) :=
      hd.modify fun _ => rfl
    exact ⟨hmoved.by_id, hmoved.fresh⟩

end

/-! ## The invariant -/

structure Inv (whole : Bool) (s : BrowserRuntime) : Prop where
  numbered : Numbered s.directory
  epoch : s.cache_epoch ≠ 0
  /-- A file in the cache exists, whatever the epoch. -/
  there : ∀ id info, s.fileInfoCache.get id = some info → s.written id ≠ none
  fresh : ∀ id info, s.fileInfoCache.get id = some info → info.cacheEpoch = s.cache_epoch →
    (s.written id).map (DuckDBFileInfo.part whole) = some (info.part whole)
  global : ∀ info, s.globalFileInfo = some info → info.cacheEpoch = s.cache_epoch →
    info = s.globalWritten
  answers : ∀ a ∈ s.answers, a.PartCoherent whole

variable {whole : Bool} {s s' : BrowserRuntime} {p : Ptr} {f : WebFile} {id : UInt32}

theorem initial_inv (protocol : DataProtocol) (config : WebDBConfig) :
    Inv whole (initial protocol config) where
  numbered := initial_numbered protocol
  epoch := by
    show (1 : UInt32) ≠ 0
    decide
  there id info h := nomatch h
  fresh id info h := nomatch h
  global info h := nomatch h
  answers a h := nomatch h

theorem written_ne_none : s.written id ≠ none ↔
    ∃ p f, s.directory.files_by_id.lookup id = some p ∧ s.directory.files p = some f := by
  unfold written
  constructor
  · intro h
    obtain ⟨info, hinfo⟩ := Option.ne_none_iff_exists'.mp h
    obtain ⟨p, hp, hmap⟩ := Option.bind_eq_some_iff.mp hinfo
    obtain ⟨f, hf, _⟩ := Option.map_eq_some_iff.mp hmap
    exact ⟨p, f, hp, hf⟩
  · intro ⟨p, f, hp, hf⟩
    rw [hp, Option.bind_some, hf]
    exact Option.some_ne_none _

theorem written_eq (hp : s.directory.files_by_id.lookup id = some p)
    (hf : s.directory.files p = some f) : s.written id = some (s.WriteInfo p f) := by
  unfold written
  rw [hp, Option.bind_some, hf, Option.map_some]

/-! ### What the runtime asks -/

theorem Inv.getFileInfo (hi : Inv whole s) (id : UInt32) : Inv whole (s.getFileInfo id) := by
  unfold BrowserRuntime.getFileInfo
  dsimp only
  split
  next hnone =>
    refine { hi with answers := fun a ha => ?_ }
    rcases List.mem_append.mp ha with hold | hnew
    · exact hi.answers a hold
    · obtain rfl := List.mem_singleton.mp hnew
      show (s.fileInfoCache.get id).map _ = (s.written id).map _
      unfold WriteFileInfo at hnone
      cases hget : s.fileInfoCache.get id with
      | none =>
        rw [hget, Option.map_none, Option.getD_none, if_neg hi.epoch.symm] at hnone
        rw [hnone]
      | some info =>
        rw [hget] at hnone
        split at hnone
        next hepoch => exact (hi.fresh id info hget hepoch).symm
        next => exact absurd hnone (hi.there id info hget)
  next info hsome =>
    unfold WriteFileInfo at hsome
    have hwritten : s.written id = some info := by
      split at hsome
      · cases hsome
      · exact hsome
    refine { hi with there := fun id' info' hget => ?_, fresh := fun id' info' hget hepoch => ?_ }
    · rw [JsMap.get_set] at hget
      split at hget
      next hid =>
        show s.written id' ≠ none
        rw [hid, hwritten]
        exact Option.some_ne_none info
      next => exact hi.there id' info' hget
    · rw [JsMap.get_set] at hget
      split at hget
      next hid =>
        obtain rfl := Option.some.inj hget
        show (s.written id').map _ = _
        rw [hid, hwritten, Option.map_some]
      next => exact hi.fresh id' info' hget hepoch

theorem Inv.getGlobalFileInfo (hi : Inv whole s) : Inv whole s.getGlobalFileInfo := by
  unfold BrowserRuntime.getGlobalFileInfo
  dsimp only
  split
  next hnone =>
    refine { hi with answers := fun a ha => ?_ }
    rcases List.mem_append.mp ha with hold | hnew
    · exact hi.answers a hold
    · obtain rfl := List.mem_singleton.mp hnew
      show s.globalFileInfo = some s.globalWritten
      unfold WriteGlobalFileInfo at hnone
      split at hnone
      next hepoch =>
        cases hglobal : s.globalFileInfo with
        | none =>
          rw [hglobal] at hepoch
          exact absurd hepoch.symm hi.epoch
        | some info =>
          rw [hglobal] at hepoch
          rw [hi.global info hglobal hepoch]
      next => cases hnone
  next info hsome =>
    refine { hi with global := fun info' hinfo _ => ?_ }
    unfold WriteGlobalFileInfo at hsome
    split at hsome
    · cases hsome
    · exact (Option.some.inj (hsome.trans hinfo)).symm

theorem Inv.uncached (hi : Inv whole s) (id : UInt32) : Inv whole (s.uncached id) := by
  have hold : ∀ id' info, (s.fileInfoCache.delete id).get id' = some info →
      s.fileInfoCache.get id' = some info := by
    intro id' info hget
    rw [JsMap.get_delete] at hget
    split at hget
    · cases hget
    · exact hget
  exact { hi with
    there := fun id' info hget => hi.there id' info (hold id' info hget)
    fresh := fun id' info hget => hi.fresh id' info (hold id' info hget) }

theorem Inv.openFile (hi : Inv whole s) (id : UInt32) : Inv whole (s.openFile id) :=
  (hi.uncached id).getFileInfo id

theorem Inv.closeFile (hi : Inv whole s) (id : UInt32) : Inv whole (s.closeFile id) :=
  (hi.getFileInfo id).uncached id

theorem Inv.moveFile (hi : Inv whole s) (source : String) : Inv whole (s.moveFile source) := by
  unfold BrowserRuntime.moveFile
  split
  · exact hi.uncached _
  · exact hi

/-! ### What changes -/

/-- Files that are not known from the current epoch may change. -/
theorem Inv.changed (hi : Inv whole s) (changing : Ptr → Prop) {d : WebFileSystem}
    {sizes : Ptr → Option Nat} {options : Ptr → Option DuckDBConfigOptions} (hd : Numbered d)
    (hkeeps : ∀ id info, s.fileInfoCache.get id = some info → Keeps changing s.directory d id)
    (hknown : ∀ p, changing p → ¬ s.Known p)
    (hsame : ∀ p, ¬ changing p → (whole = true → sizes p = s.file_size p)
      ∧ options p = s.buffered_http_config_options p) :
    Inv whole { s with
      directory := d, file_size := sizes, buffered_http_config_options := options } := by
  refine { hi with
    numbered := hd
    there := fun id info hget => ?_
    fresh := fun id info hget hepoch => ?_ }
  · obtain ⟨p, f, hp, hf⟩ := written_ne_none.mp (hi.there id info hget)
    obtain ⟨hp', f', hf', _⟩ := hkeeps id info hget p f hp hf
    exact written_ne_none.mpr ⟨p, f', hp', hf'⟩
  · obtain ⟨p, f, hp, hf⟩ := written_ne_none.mp (hi.there id info hget)
    have hold : ¬ changing p := fun hp' => hknown p hp' ⟨id, hp, info, hget, hepoch⟩
    obtain ⟨hp', f', hf', hsamefile⟩ := hkeeps id info hget p f hp hf
    obtain ⟨hsize, hoptions⟩ := hsame p hold
    have hwritten := hi.fresh id info hget hepoch
    rw [written_eq hp hf] at hwritten
    rw [written_eq hp' hf', hsamefile hold, ← hwritten, Option.map_some, Option.map_some]
    congr 1
    unfold DuckDBFileInfo.part WriteInfo
    dsimp only
    rw [hoptions]
    cases whole with
    | true => rw [hsize rfl]
    | false => rfl

/-- Nothing but handles changes. -/
theorem Inv.kept (hi : Inv whole s) {d : WebFileSystem} (hd : Numbered d)
    (hkeeps : ∀ id info, s.fileInfoCache.get id = some info →
      Keeps (fun _ => False) s.directory d id) : Inv whole { s with directory := d } :=
  hi.changed (fun _ => False) hd hkeeps (fun _ h => h.elim) fun _ _ => ⟨fun _ => rfl, rfl⟩

theorem Inv.incremented (hi : Inv whole s) (hnew : s.NewEpoch) :
    Inv whole s.IncrementCacheEpoch := by
  refine { hi with
    epoch := ?_
    there := fun id info hget => ?_
    fresh := fun id info hget hepoch => absurd hepoch (hnew.1 id info hget)
    global := fun info hinfo hepoch => absurd hepoch (hnew.2 info hinfo) }
  · unfold IncrementCacheEpoch
    dsimp only
    split
    · decide
    next hne =>
      intro hzero
      refine hne ?_
      calc s.cache_epoch = s.cache_epoch + 1 - 1 := (UInt32.add_sub_cancel ..).symm
        _ = 0 - 1 := by rw [hzero]
        _ = 4294967295 := rfl
  · obtain ⟨p, f, hp, hf⟩ := written_ne_none.mp (hi.there id info hget)
    exact written_ne_none.mpr ⟨p, f, hp, hf⟩

/-- In a new epoch nothing is known. -/
theorem not_known_of_newEpoch (hnew : s.NewEpoch) (p : Ptr) :
    ¬ s.IncrementCacheEpoch.Known p := by
  intro ⟨id, _, info, hget, hepoch⟩
  exact hnew.1 id info hget hepoch

/-! ### Closing -/

theorem restored_same (d : WebFileSystem)
    (hkeep : ¬ (f.data_protocol = .BUFFER ∧ f.data_url ≠ none)) :
    SameFile f (d.restoreProtocol (lowered f)) := by
  have hsame : d.restoreProtocol (lowered f) = lowered f := by
    unfold restoreProtocol
    split
    next url hprotocol _ hurl =>
      exact absurd ⟨hprotocol, fun hnone => nomatch hnone.symm.trans hurl⟩ hkeep
    next => rfl
  rw [hsame]
  rfl

/-- What a file becomes that is closed for good, with what is written back. -/
theorem Inv.writeBack (hi : Inv whole s) {h : HandleId} (hf : s.directory.files p = some f)
    (hnew : f.data_protocol = .BUFFER → s.NewEpoch) :
    Inv whole (({ s with
      directory := ({ s.directory with
        handles := Function.update s.directory.handles h none }).modify p fun f =>
          s.directory.restoreProtocol (lowered f) } : BrowserRuntime).writeBack f) := by
  have hnumbered : Numbered (({ s.directory with
      handles := Function.update s.directory.handles h none } : WebFileSystem).modify p fun f =>
        s.directory.restoreProtocol (lowered f)) :=
    hi.numbered.handles.modify fun g => (restoreProtocol_keeps s.directory g).1
  unfold BrowserRuntime.writeBack
  split
  next hback =>
    -- the protocol changes, but in a new epoch
    have hincremented := hi.incremented (hnew hback.1)
    have hchanged := hincremented.changed (fun q => q = p) hnumbered
      (fun id _ _ => keeps_modify fun hne => absurd rfl hne)
      (fun q _ => not_known_of_newEpoch (hnew hback.1) q) fun _ _ => ⟨fun _ => rfl, rfl⟩
    exact hchanged.getFileInfo f.file_id
  next hkeep =>
    refine hi.kept hnumbered fun id _ _ => keeps_modify fun _ g hg => ?_
    obtain rfl := Option.some.inj (hf.symm.trans hg)
    exact restored_same s.directory hkeep

theorem Inv.close (hi : Inv whole s) {h : HandleId} {closing : Closing}
    (hnew : ∀ p f, s.directory.handles h = some p → s.directory.files p = some f →
      f.data_protocol = .BUFFER → (lowered f).closeAction closing ≠ .keep → s.NewEpoch) :
    Inv whole (s.Close h closing) := by
  unfold BrowserRuntime.Close
  split
  next => exact hi
  next p hp =>
    dsimp only
    split
    next => exact hi.kept hi.numbered.handles fun id _ _ => Keeps.refl _ _ id
    next f hf =>
      split
      next =>
        refine hi.kept (hi.numbered.handles.modify fun _ => rfl) fun id _ _ => ?_
        exact keeps_modify (k := lowered) fun _ _ _ => rfl
      next hfail =>
        refine hi.writeBack hf fun hbuffer => hnew p f hp hf hbuffer ?_
        rw [hfail]
        exact fun h => nomatch h
      next herase =>
        have hback := hi.writeBack (h := h) hf fun hbuffer => hnew p f hp hf hbuffer (by
          rw [herase]
          exact fun h => nomatch h)
        have hclosed := hback.closeFile f.file_id
        -- the runtime has let go of the file that is erased
        obtain ⟨epoch, cache, answers, hwrite⟩ := writeBack_eq ({ s with
          directory := ({ s.directory with
            handles := Function.update s.directory.handles h none }).modify p fun f =>
              s.directory.restoreProtocol (lowered f) }) f
        obtain ⟨cache', answers', hclose, hnone⟩ := closeFile_eq (({ s with
          directory := ({ s.directory with
            handles := Function.update s.directory.handles h none }).modify p fun f =>
              s.directory.restoreProtocol (lowered f) } : BrowserRuntime).writeBack f) f.file_id
        rw [hwrite] at hclose hclosed ⊢
        rw [hclose] at hclosed ⊢
        refine hclosed.kept (hclosed.numbered.forgetFound f) fun id info hget => ?_
        refine keeps_forgetFound fun hid => ?_
        rw [hid] at hget
        exact nomatch hnone.symm.trans hget

/-! ### Registering and opening -/

theorem Inv.not_known_nextPtr (hi : Inv whole s) : ¬ s.Known s.directory.nextPtr := by
  intro ⟨id, hid, _⟩
  obtain ⟨f, hf, _⟩ := hi.numbered.by_id id _ hid
  rw [hi.numbered.fresh _ (Nat.le_refl _)] at hf
  cases hf

/-- A file is created, with whatever size. -/
theorem Inv.create (hi : Inv whole s) {n : String} {protocol : DataProtocol} {url : Option String}
    (size : Option Nat) : Inv whole { s with
      directory := s.directory.create n protocol url
      file_size := Function.update s.file_size s.directory.nextPtr size } := by
  refine hi.changed (fun q => q = s.directory.nextPtr) hi.numbered.create
    (fun id _ _ => keeps_create hi.numbered) ?_ fun q hq => ?_
  · intro q hq
    rw [hq]
    exact hi.not_known_nextPtr
  · exact ⟨fun _ => Function.update_of_ne hq .., rfl⟩

theorem Inv.makeHandle (hi : Inv whole s) (p : Ptr) :
    Inv whole { s with directory := s.directory.makeHandle p } :=
  hi.kept (hi.numbered.makeHandle p) fun _ _ _ => keeps_makeHandle p

theorem Inv.registerFileURL (hi : Inv whole s) (n url : String) (protocol : DataProtocol) :
    Inv whole (s.RegisterFileURL n url protocol) := by
  unfold BrowserRuntime.RegisterFileURL WebFileSystem.RegisterFileURL
  cases s.directory.files_by_name.lookup n with
  | some p =>
    dsimp only
    split
    · exact hi.makeHandle p
    · exact hi
  | none => exact (hi.create none).makeHandle s.directory.nextPtr

/-- The size of a file is set, to what it is if the file is known. -/
theorem Inv.resized (hi : Inv whole s) {k : WebFile → WebFile} {size : Nat}
    (hid : ∀ f, (k f).file_id = f.file_id)
    (hsame : s.Known p → (whole = true → s.file_size p = some size) ∧
      ∀ f, s.directory.files p = some f → SameFile f (k f)) :
    Inv whole { s with
      directory := s.directory.modify p k
      file_size := Function.update s.file_size p (some size) } := by
  refine hi.changed (fun q => q = p ∧ ¬ s.Known p) (hi.numbered.modify hid) ?_ ?_ ?_
  · intro id _ _
    refine keeps_modify fun hq f hf => (hsame ?_).2 f hf
    by_contra hknown
    exact hq ⟨rfl, hknown⟩
  · intro q ⟨hq, hknown⟩
    rw [hq]
    exact hknown
  · intro q hq
    refine ⟨fun hwhole => ?_, rfl⟩
    by_cases hqp : q = p
    · have hknown : s.Known p := by
        by_contra hknown
        exact hq ⟨hqp, hknown⟩
      rw [hqp, Function.update_self, (hsame hknown).1 hwhole]
    · exact Function.update_of_ne hqp ..

theorem overwriteWithBuffer_same (hremote : remote f.data_protocol = false) :
    SameFile f (overwriteWithBuffer f) := by
  obtain ⟨file_id, file_name, protocol, handle_count, data_url, buffered⟩ := f
  cases protocol with
  | HTTP => cases hremote
  | S3 => cases hremote
  | _ => rfl

theorem Inv.registerFileBuffer (hi : Inv whole s) {n : String} {size : Nat}
    (hset : s.Settled whole (.RegisterFileBuffer n size)) :
    Inv whole (s.RegisterFileBuffer n size) := by
  unfold BrowserRuntime.RegisterFileBuffer WebFileSystem.RegisterFileBuffer
  cases hp : s.directory.files_by_name.lookup n with
  | some p =>
    have hresized : Inv whole { s with
        directory := s.directory.modify p overwriteWithBuffer
        file_size := Function.update s.file_size p (some size) } := by
      refine hi.resized (fun f => (overwriteWithBuffer_keeps f).1) fun hknown => ?_
      obtain ⟨id, hid, hfresh⟩ := hknown
      obtain ⟨f, hf, _⟩ := hi.numbered.by_id id p hid
      refine ⟨(hset p f hp hf ⟨id, hid, hfresh⟩).1, fun g hg => ?_⟩
      exact overwriteWithBuffer_same (hset p g hp hg ⟨id, hid, hfresh⟩).2
    have hchanged := hresized.makeHandle p
    dsimp only
    split
    · exact hchanged
    · split
      all_goals first | exact hchanged.closeFile _ | exact hchanged
  | none => exact (hi.create (some size)).makeHandle s.directory.nextPtr

theorem Inv.findOrCreate (hi : Inv whole s) (url : String) :
    Inv whole (s.findOrCreate url).1
      ∧ (s.findOrCreate url).1.directory.nextHandle = s.directory.nextHandle := by
  unfold BrowserRuntime.findOrCreate WebFileSystem.findOrCreate
  cases s.directory.files_by_name.lookup url with
  | some p => exact ⟨hi, rfl⟩
  | none => exact ⟨hi.create none, rfl⟩

/-- A file that is empty is truncated, which the runtime is asked for. -/
theorem Inv.truncated (hi : Inv whole s) (hsize : whole = true → s.file_size p = some 0)
    (id : UInt32) : Inv whole { s.getFileInfo id with
      file_size := Function.update (s.getFileInfo id).file_size p (some 0) } := by
  have hasked := hi.getFileInfo id
  obtain ⟨cache, answers, heq⟩ := getFileInfo_eq s id
  rw [heq] at hasked ⊢
  refine hasked.changed (fun _ => False) hasked.numbered
    (fun id _ _ => Keeps.refl _ _ id) (fun _ hfalse => hfalse.elim) fun q _ =>
      ⟨fun hwhole => ?_, rfl⟩
  by_cases hqp : q = p
  · rw [hqp, Function.update_self]
    exact (hsize hwhole).symm
  · exact Function.update_of_ne hqp ..

/-- An outcome that is no exception, of a file with the size it had. -/
theorem Inv.afterOpenFile (hi : Inv whole s) {h : HandleId} {flags : OpenFlags} {overwrite : Bool}
    {opened : Opened} {size : Nat} {closing : Closing} (hh : s.directory.handles h = some p)
    (hf : s.directory.files p = some (raised f)) (hprotocol : f.data_protocol ≠ .BUFFER)
    (haborts : aborts flags opened = false)
    (hopened : ∀ buffer truncateThrows, opened = .opened buffer truncateThrows →
      buffer = false ∧ (whole = true → s.file_size p = some size ∧
        (overwrite = true → size = 0))) :
    Inv whole (s.afterOpenFile p h f flags overwrite opened size closing) := by
  unfold BrowserRuntime.afterOpenFile
  cases opened with
  | threw => cases haborts
  | missing =>
    have hreturn : flags.returnNullIfNotExists = true := by
      cases hflag : flags.returnNullIfNotExists with
      | true => rfl
      | false =>
        rw [aborts, hflag] at haborts
        cases haborts
    dsimp only
    rw [if_pos hreturn]
    refine hi.close fun q g hq hg hbuffer _ => ?_
    obtain rfl := Option.some.inj (hh.symm.trans hq)
    obtain rfl := Option.some.inj (hf.symm.trans hg)
    exact absurd hbuffer hprotocol
  | opened buffer truncateThrows =>
    obtain ⟨rfl, hsize⟩ := hopened buffer truncateThrows rfl
    have hthrows : truncateThrows = false := haborts
    have hchanged : Inv whole { s with
        directory := s.directory.modify p (afterOpen flags false)
        file_size := Function.update s.file_size p (some size) } :=
      hi.resized (fun g => (afterOpen_keeps flags false g).1)
        fun _ => ⟨fun hwhole => (hsize hwhole).1, fun g _ => rfl⟩
    have hasked := hchanged.getFileInfo f.file_id
    dsimp only
    rw [hthrows, Bool.false_and, Bool.false_and, if_neg Bool.false_ne_true]
    cases overwrite with
    | false => exact hchanged
    | true =>
      refine hchanged.truncated (fun hwhole => ?_) f.file_id
      dsimp only
      rw [Function.update_self, (hsize hwhole).2 rfl]

theorem Inv.openCall (hi : Inv whole s) {url : String} {flags : OpenFlags} {overwrite : Bool}
    {opened : Opened} {size : Nat} {closing : Closing}
    (hset : s.Settled whole (.OpenFile url flags overwrite opened size closing)) :
    Inv whole (s.OpenFile url flags overwrite opened size closing) := by
  obtain ⟨hfound, hnext⟩ := hi.findOrCreate url
  obtain ⟨found, p, hresult⟩ : ∃ found p, s.findOrCreate url = (found, p) := ⟨_, _, rfl⟩
  unfold BrowserRuntime.OpenFile
  unfold Settled at hset
  dsimp only at hset
  rw [hresult] at hfound hnext hset ⊢
  dsimp only at hfound hnext hset ⊢
  have hhandle := hfound.makeHandle p
  split
  · exact hhandle
  next f hf =>
    have hfile := hset f hf
    split
    next hbuffer =>
      rw [if_pos hbuffer] at hfile
      cases overwrite with
      | false => exact hhandle
      | true =>
        have hresized : Inv whole { found with
            directory := found.directory.modify p raised
            file_size := Function.update found.file_size p (some 0) } :=
          hfound.resized (fun _ => rfl) fun hknown =>
            ⟨fun hwhole => hfile hwhole rfl hknown, fun g _ => rfl⟩
        exact hresized.kept hresized.numbered.handles fun id _ _ => Keeps.refl _ _ id
    next hprotocol =>
      rw [if_neg hprotocol] at hfile
      have hopen := hhandle.openFile f.file_id
      obtain ⟨cache, answers, heq⟩ :=
        openFile_eq { found with directory := found.directory.makeHandle p } f.file_id
      rw [heq] at hopen ⊢
      refine hopen.afterOpenFile ?_ ?_ hprotocol hfile.1 hfile.2
      · show Function.update found.directory.handles found.directory.nextHandle (some p)
          s.directory.nextHandle = _
        rw [hnext, Function.update_self]
      · show (found.directory.modify p raised).files p = _
        rw [modify_files, if_pos rfl, hf]
        rfl

/-! ### Dropping and moving -/

theorem numbered_forgetAll (files : List WebFile) : ∀ {d : WebFileSystem}, Numbered d →
    Numbered (files.foldl forget d) := by
  induction files with
  | nil => exact id
  | cons f rest ih => exact fun hd => ih (hd.forget f)

theorem keeps_forgetAll (files : List WebFile) (changing : Ptr → Prop) :
    ∀ {d : WebFileSystem}, (∀ f ∈ files, id ≠ f.file_id) →
      Keeps changing d (files.foldl forget d) id := by
  induction files with
  | nil => exact fun _ => Keeps.refl _ _ id
  | cons f rest ih =>
    intro d hne
    exact (keeps_forget (hne f List.mem_cons_self)).trans
      (ih fun g hg => hne g (List.mem_cons_of_mem _ hg))

theorem Inv.tryDropFile (hi : Inv whole s) {n : String}
    (hset : s.Settled whole (.TryDropFile n)) : Inv whole (s.TryDropFile n) := by
  unfold BrowserRuntime.TryDropFile WebFileSystem.TryDropFile
  split
  · exact hi
  next f hf =>
    obtain ⟨p, hp, hfile⟩ := Option.bind_eq_some_iff.mp hf
    split
    next hzero =>
      refine hi.kept (hi.numbered.forget f) fun id info hget => keeps_forget fun hid => ?_
      rw [hid, hset p f hp hfile hzero] at hget
      cases hget
    next => exact hi

theorem Inv.dropDanglingFiles (hi : Inv whole s) (hset : s.Settled whole .DropDanglingFiles) :
    Inv whole s.DropDanglingFiles := by
  unfold BrowserRuntime.DropDanglingFiles WebFileSystem.DropDanglingFiles
  refine hi.kept (numbered_forgetAll _ hi.numbered) fun id info hget => keeps_forgetAll _ _ ?_
  intro f hf hid
  obtain ⟨e, he, hpick⟩ := List.mem_filterMap.mp hf
  obtain ⟨hfile, hzero⟩ := Option.filter_eq_some_iff.mp hpick
  have hlookup : s.directory.files_by_id.lookup e.1 = some e.2 := AList.mem_lookup_iff.mpr he
  obtain ⟨g, hg, hgid⟩ := hi.numbered.by_id e.1 e.2 hlookup
  obtain rfl := Option.some.inj (hfile.symm.trans hg)
  rw [hid, hgid, hset e.1 e.2 f hlookup hfile (of_decide_eq_true hzero)] at hget
  cases hget

section

variable {d : WebFileSystem} {changing : Ptr → Prop} {source target : String}

theorem keeps_moveUrl (hsame : ∀ q f, ¬ changing q → d.files_by_url.lookup source = some q →
    d.files q = some f → f.data_url = some target) :
    Keeps changing d (d.moveUrl source target) id := by
  unfold WebFileSystem.moveUrl
  split
  · exact Keeps.refl _ _ id
  next p hp =>
    have hmodify : Keeps changing d (d.modify p fun f => { f with data_url := some target })
        id := by
      refine keeps_modify fun hold f hf => ?_
      unfold SameFile
      rw [← hsame p f hold hp hf]
    exact hmodify

theorem keeps_moveName (hsame : ∀ q f, ¬ changing q → d.files_by_name.lookup source = some q →
    d.files q = some f → f.file_name = target) :
    Keeps changing d (d.moveName source target) id := by
  unfold WebFileSystem.moveName
  split
  · exact Keeps.refl _ _ id
  next p hp =>
    have hmodify : Keeps changing d (d.modify p fun f => { f with file_name := target }) id := by
      refine keeps_modify fun hold f hf => ?_
      unfold SameFile
      rw [← hsame p f hold hp hf]
    exact hmodify

/-- Moving the URL leaves the names. -/
theorem moveUrl_file_name (source target : String)
    (hf : (d.moveUrl source target).files p = some f) :
    ∃ g, d.files p = some g ∧ g.file_name = f.file_name := by
  unfold WebFileSystem.moveUrl at hf
  split at hf
  · exact ⟨f, hf, rfl⟩
  next q _ =>
    have hmodified : (d.modify q fun f => { f with data_url := some target }).files p = some f := hf
    rw [modify_files] at hmodified
    split at hmodified
    · obtain ⟨g, hg, rfl⟩ := Option.map_eq_some_iff.mp hmodified
      exact ⟨g, hg, rfl⟩
    · exact ⟨f, hmodified, rfl⟩

end

theorem moveFile_with (s : BrowserRuntime) (source : String) (d : WebFileSystem) :
    ({ s with directory := d } : BrowserRuntime).moveFile source
      = { s.moveFile source with directory := d } := by
  unfold BrowserRuntime.moveFile
  dsimp only
  split
  · rfl
  · rfl

theorem Inv.moveCall (hi : Inv whole s) {source target : String}
    (hset : s.Settled whole (.MoveFile source target)) : Inv whole (s.MoveFile source target) := by
  unfold BrowserRuntime.MoveFile
  rw [moveFile_with]
  have hmoved := hi.moveFile source
  have hdirectory := moveFile_directory s source
  unfold WebFileSystem.MoveFile
  refine hmoved.changed (fun q => ¬ (s.moveFile source).Known q)
    ((hi.numbered.moveUrl source target).moveName source target) (fun id _ _ => ?_)
    (fun q hq => hq) fun _ _ => ⟨fun _ => rfl, rfl⟩
  rw [hdirectory]
  refine (keeps_moveUrl fun q f hq hp hf => ?_).trans (keeps_moveName fun q f hq hp hf => ?_)
  · exact (hset q f (not_not.mp hq) hf).1 hp
  · obtain ⟨g, hg, hname⟩ := moveUrl_file_name source target hf
    rw [moveUrl_names] at hp
    rw [← hname]
    exact (hset q g (not_not.mp hq) hg).2 hp

/-! ### Configs and collectors -/

/-- What is written about the files that are known, and about all files, stays what it is. -/
theorem Inv.rewritten (hi : Inv whole s) (config : WebDBConfig) (collectors : String → Bool)
    (hknown : ∀ p f, s.Known p → s.directory.files p = some f →
      (({ s with config, collectors } : BrowserRuntime).WriteInfo p f).part whole
        = (s.WriteInfo p f).part whole)
    (hglobal : (∃ info, s.globalFileInfo = some info ∧ info.cacheEpoch = s.cache_epoch) →
      globalConfig config = globalConfig s.config) :
    Inv whole { s with config, collectors } := by
  refine { hi with
    there := fun id info hget => ?_
    fresh := fun id info hget hepoch => ?_
    global := fun info hinfo hepoch => ?_ }
  · obtain ⟨p, f, hp, hf⟩ := written_ne_none.mp (hi.there id info hget)
    exact written_ne_none.mpr ⟨p, f, hp, hf⟩
  · obtain ⟨p, f, hp, hf⟩ := written_ne_none.mp (hi.there id info hget)
    have hwritten := hi.fresh id info hget hepoch
    rw [written_eq hp hf, Option.map_some] at hwritten
    rw [written_eq (s := { s with config, collectors }) hp hf, Option.map_some,
      hknown p f ⟨id, hp, info, hget, hepoch⟩ hf]
    exact hwritten
  · have hsame := hglobal ⟨info, hinfo, hepoch⟩
    have hwritten := hi.global info hinfo hepoch
    obtain ⟨hallow, hrest⟩ := Prod.mk.inj hsame
    obtain ⟨hforce, hrest⟩ := Prod.mk.inj hrest
    obtain ⟨hreliable, hs3⟩ := Prod.mk.inj hrest
    unfold globalWritten at hwritten ⊢
    dsimp only
    rw [hallow, hforce, hreliable, hs3]
    exact hwritten

theorem Inv.setOptions (hi : Inv whole s) {options : DuckDBConfigOptions} (hnew : s.NewEpoch) :
    Inv whole (s.SetOptions options) := by
  refine (hi.incremented hnew).rewritten _ _ (fun p f hknown => ?_) ?_
  · exact absurd hknown (not_known_of_newEpoch hnew p)
  · intro ⟨info, hinfo, hepoch⟩
    exact absurd hepoch (hnew.2 info hinfo)

theorem Inv.readConfig (hi : Inv whole s) {config : WebDBConfig}
    (hset : s.Settled whole (.ReadConfig config)) : Inv whole { s with config } := by
  refine hi.rewritten config s.collectors (fun p f hknown hf => ?_) hset.2
  obtain ⟨hremote, hs3⟩ := hset.1 p f hknown hf
  congr 1
  unfold WriteInfo
  dsimp only
  congr 1
  · cases hr : remote f.data_protocol with
    | false => rfl
    | true => rw [(Prod.mk.inj (hremote hr)).1]
  · cases hr : remote f.data_protocol with
    | false => rfl
    | true => rw [(Prod.mk.inj (Prod.mk.inj (hremote hr)).2).1]
  · split
    next hr => rw [(Prod.mk.inj (Prod.mk.inj (hremote hr)).2).2]
    next => rfl
  · split
    next hprotocol =>
      split
      · rfl
      next hbuffered => rw [hs3 hprotocol (Bool.eq_false_iff.mpr hbuffered)]
    next => rfl

theorem Inv.collectFileStatistics (hi : Inv whole s) {path : String} {enable : Bool}
    (hset : s.Settled whole (.CollectFileStatistics path enable)) :
    Inv whole (s.CollectFileStatistics path enable) := by
  refine hi.rewritten s.config _ (fun p f hknown hf => ?_) fun _ => rfl
  unfold DuckDBFileInfo.part
  cases whole with
  | false => rfl
  | true =>
    cases enable with
    | false => rfl
    | true =>
      rw [if_pos rfl, if_pos rfl]
      unfold WriteInfo
      dsimp only
      congr 1
      by_cases hname : f.file_name = path
      · rw [hname, Function.update_self]
        exact (hset rfl p f hknown hf hname rfl).symm
      · exact Function.update_of_ne hname ..

/-! ## Runs -/

theorem Inv.call (hi : Inv whole s) {e : Event} (hset : s.Settled whole e) :
    Inv whole (s.call e) := by
  cases e with
  | RegisterFileURL n url protocol => exact hi.registerFileURL n url protocol
  | RegisterFileBuffer n size => exact hi.registerFileBuffer hset
  | OpenFile url flags overwrite opened size closing => exact hi.openCall hset
  | Close h closing => exact hi.close hset
  | TryDropFile n => exact hi.tryDropFile hset
  | DropDanglingFiles => exact hi.dropDanglingFiles hset
  | MoveFile source target => exact hi.moveCall hset
  | SetOptions options => exact hi.setOptions hset
  | ReadConfig config => exact hi.readConfig hset
  | RegisterOptions => exact hi.incremented hset
  | CollectFileStatistics path enable => exact hi.collectFileStatistics hset
  | getFileInfo id => exact hi.getFileInfo id
  | getGlobalFileInfo => exact hi.getGlobalFileInfo

theorem Inv.run {protocol : DataProtocol} {config : WebDBConfig} {es : List Event}
    (h : Run step (Settled whole) (initial protocol config) es s) : Inv whole s := by
  refine h.invariant (initial_inv protocol config) fun s e s' hi hset hs => ?_
  obtain rfl := Option.some.inj hs
  exact hi.call hset

/-- What the runtime reads of an info needs less: sizes and collectors may change. -/
theorem answers_partCoherent {protocol : DataProtocol} {config : WebDBConfig} {es : List Event}
    (h : Run step (Settled false) (initial protocol config) es s) :
    ∀ a ∈ s.answers, a.PartCoherent false := (Inv.run h).answers

/-- **Answers from the cache are coherent**, in all runs that are settled. -/
theorem answers_coherent {protocol : DataProtocol} {config : WebDBConfig} {es : List Event}
    (h : Run step (Settled true) (initial protocol config) es s) :
    ∀ a ∈ s.answers, a.Coherent := by
  intro a ha
  have hcoherent : a.PartCoherent true := (Inv.run h).answers a ha
  have hpart : DuckDBFileInfo.part true = id := rfl
  cases a with
  | file cached fresh =>
    have hmap : cached.map (DuckDBFileInfo.part true) = fresh.map (DuckDBFileInfo.part true) :=
      hcoherent
    rw [hpart, Option.map_id] at hmap
    exact hmap
  | global cached fresh => exact hcoherent

/-! ## A file that is looked up -/

def defaultConfig : WebDBConfig where
  filesystem := ⟨none, none, none⟩
  duckdb_config_options := ⟨"", "", "", "", "", true⟩

/-- A file is registered and looked up twice. -/
def lookedUp : List Event :=
  [.RegisterFileURL "a" "http://a" .HTTP, .getFileInfo 1, .getFileInfo 1]

theorem answers_coherent_lookedUp : ∃ s, Run step (Settled true) (initial .BUFFER defaultConfig)
    lookedUp s ∧ s.answers.length = 1 ∧ ∀ a ∈ s.answers, a.Coherent := by
  obtain ⟨s, hrun, hlength⟩ : ∃ s, Run step (Settled true) (initial .BUFFER defaultConfig)
      lookedUp s ∧ s.answers.length = 1 :=
    ⟨_, .snoc (.snoc (.snoc .nil trivial rfl) trivial rfl) trivial rfl, rfl⟩
  exact ⟨s, hrun, hlength, answers_coherent hrun⟩

/-- A file that has been opened is registered again, as a buffer. -/
def overwritten : List Event :=
  [.RegisterFileURL "a" "http://a" .HTTP, .OpenFile "a" {} false (.opened false false) 4 {},
    .RegisterFileBuffer "a" 2, .getFileInfo 1]

/-- The runtime still takes it for an HTTP file. -/
theorem overwritten_incoherent : ∃ s, Run step Always (initial .BUFFER defaultConfig) overwritten s
    ∧ ∃ a ∈ s.answers, ¬ a.Coherent := by
  obtain ⟨s, hrun, hany⟩ := Run.exists_of_execute
    (show (execute step Always (initial .BUFFER defaultConfig) overwritten).map
      (fun s => s.answers.any fun a => !decide a.Coherent) = some true by decide +kernel)
  obtain ⟨a, ha, hnot⟩ := List.any_eq_true.mp hany
  rw [Bool.not_eq_true', decide_eq_false_iff_not] at hnot
  exact ⟨s, hrun, a, ha, hnot⟩

end Haybarn.Runtime.Browser
