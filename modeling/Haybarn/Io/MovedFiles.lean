import Haybarn.Io.WebFilesAgree

/-!
# Moving a file

`WebFileSystem::MoveFile` (lib/src/io/web_filesystem.cc) moves the entries of the directory, and
`moveFile` of the browser runtime (packages/duckdb-wasm/src/bindings/runtime_browser.ts) those of
its map of handles. `locate` is what opening a name finds, through both; `Moved` is what a move is
to do, and `Movable` says when it does.

Mirroring notes:
- `_files` is a map from paths to handles. `_files.delete(handle)` deletes nothing: a handle is no
  key of it. Handles that have been prepared and are not in `_files` yet are left out, and so is
  the cache of file infos, which `openFile` clears for the file it opens.
- The browser opens no native files.
-/

namespace Haybarn.Io.WebFiles

open Haybarn.Lib

/-! ## Labels

Whatever happens, the entries of the directory have the name and the URL that their files have. -/

namespace WebFileSystem

variable {s : WebFileSystem} {p q : Ptr} {f : WebFile} {h : HandleId} {closing : Closing}

structure Labelled (s : WebFileSystem) : Prop where
  by_name : ∀ n p, s.files_by_name.lookup n = some p → ∃ f, s.files p = some f ∧ f.file_name = n
  by_url : ∀ u p, s.files_by_url.lookup u = some p → ∃ f, s.files p = some f ∧ f.data_url = some u
  fresh : ∀ p, s.nextPtr ≤ p → s.files p = none

theorem initial_labelled (protocol : DataProtocol) : (initial protocol).Labelled := by
  refine ⟨?_, ?_, fun _ _ => rfl⟩ <;>
  · intro k p h
    rw [initial, AList.lookup_empty] at h
    cases h

theorem Labelled.of_handles {handles : HandleId → Option Ptr} {next : HandleId} (hs : s.Labelled) :
    { s with handles := handles, nextHandle := next }.Labelled :=
  ⟨hs.by_name, hs.by_url, hs.fresh⟩

theorem Labelled.modify {k : WebFile → WebFile} (hs : s.Labelled) (hk : KeepsKeys k) :
    (s.modify p k).Labelled := by
  have hkept : ∀ {q f}, s.files q = some f → ∃ g, (s.modify p k).files q = some g
      ∧ g.file_name = f.file_name ∧ g.data_url = f.data_url := by
    intro q f hf
    rw [modify_files, hf]
    split
    · exact ⟨k f, rfl, (hk f).2⟩
    · exact ⟨f, rfl, rfl, rfl⟩
  refine ⟨fun n q hq => ?_, fun u q hq => ?_, fun q hq => ?_⟩
  · obtain ⟨f, hf, hname⟩ := hs.by_name n q hq
    obtain ⟨g, hg, hgname, -⟩ := hkept hf
    exact ⟨g, hg, hgname.trans hname⟩
  · obtain ⟨f, hf, hurl⟩ := hs.by_url u q hq
    obtain ⟨g, hg, -, hgurl⟩ := hkept hf
    exact ⟨g, hg, hgurl.trans hurl⟩
  · rw [modify_files, hs.fresh q hq]
    exact ite_self _

theorem Labelled.makeHandle (hs : s.Labelled) (p : Ptr) : (s.makeHandle p).Labelled :=
  (hs.modify raised_keeps).of_handles

theorem Labelled.create {n : String} {protocol : DataProtocol} {url : Option String}
    (hs : s.Labelled) : (s.create n protocol url).Labelled := by
  have hnew : ∃ f, (s.create n protocol url).files s.nextPtr = some f ∧ f.file_name = n
      ∧ f.data_url = url := ⟨_, Function.update_self .., rfl, rfl⟩
  have hkept : ∀ {q f}, s.files q = some f → (s.create n protocol url).files q = some f := by
    intro q f hf
    refine (Function.update_of_ne ?_ ..).trans hf
    rintro rfl
    rw [hs.fresh _ (Nat.le_refl _)] at hf
    cases hf
  obtain ⟨f, hf, hfname, hfurl⟩ := hnew
  refine ⟨fun n' q hq => ?_, fun u q hq => ?_, fun q hq => ?_⟩
  · rcases lookup_insertNew_some hq with hq | ⟨rfl, rfl, -⟩
    · obtain ⟨g, hg, hname⟩ := hs.by_name n' q hq
      exact ⟨g, hkept hg, hname⟩
    · exact ⟨f, hf, hfname⟩
  · have hcases : s.files_by_url.lookup u = some q ∨ url = some u ∧ q = s.nextPtr := by
      cases url with
      | none => exact .inl hq
      | some url' =>
        rcases lookup_insertNew_some hq with hq | ⟨rfl, rfl, -⟩
        · exact .inl hq
        · exact .inr ⟨rfl, rfl⟩
    rcases hcases with hq | ⟨hu, rfl⟩
    · obtain ⟨g, hg, hurl⟩ := hs.by_url u q hq
      exact ⟨g, hkept hg, hurl⟩
    · exact ⟨f, hf, hfurl.trans hu⟩
  · have hlt : s.nextPtr < q := hq
    exact (Function.update_of_ne (Nat.ne_of_gt hlt) ..).trans (hs.fresh q (Nat.le_of_lt hlt))

theorem Labelled.forget (hs : s.Labelled) (f : WebFile) : (s.forget f).Labelled := by
  refine ⟨fun n q hq => hs.by_name n q (lookup_erase_some hq).2, fun u q hq => ?_, hs.fresh⟩
  cases hurl : f.data_url with
  | none =>
    rw [WebFileSystem.forget, hurl] at hq
    exact hs.by_url u q hq
  | some url =>
    rw [WebFileSystem.forget, hurl] at hq
    exact hs.by_url u q (lookup_erase_some hq).2

theorem Labelled.forgetFound (hs : s.Labelled) (f : WebFile) : (s.forgetFound f).Labelled := by
  unfold WebFileSystem.forgetFound
  split
  · exact hs.forget f
  · exact ⟨(hs.forget f).by_name, (hs.forget f).by_url, hs.fresh⟩

theorem Labelled.close (hs : s.Labelled) (h : HandleId) (closing : Closing) :
    (s.Close h closing).1.Labelled := by
  unfold WebFileSystem.Close
  split
  · exact hs
  · next p _ =>
    have hreleased : { s with handles := Function.update s.handles h none }.Labelled :=
      hs.of_handles
    dsimp only
    split
    · exact hreleased
    · split
      · exact hreleased.modify lowered_keeps
      · exact hreleased.modify (restoreProtocol_keeps s)
      · exact (hreleased.modify (restoreProtocol_keeps s)).forgetFound _

theorem Labelled.abortOpen (hs : s.Labelled) (p : Ptr) (h : HandleId) (closing : Closing) :
    (s.abortOpen p h closing).1.Labelled := by
  unfold WebFileSystem.abortOpen
  split
  · exact hs
  · exact (hs.forgetFound _).close h closing

theorem Labelled.openInRuntime {flags : OpenFlags} {opened : Opened} (hs : s.Labelled) :
    (s.openInRuntime p h flags opened closing).1.Labelled := by
  unfold WebFileSystem.openInRuntime
  split
  · exact hs
  · split
    · exact hs.abortOpen p h closing
    · split
      · exact hs.close h closing
      · exact hs.abortOpen p h closing
    · next buffer truncateThrows =>
      have hchanged := hs.modify (p := p) (afterOpen_keeps flags buffer)
      split
      · exact hchanged.abortOpen p h closing
      · exact hchanged

theorem Labelled.moveUrl (hs : s.Labelled) (source target : String) :
    (s.moveUrl source target).Labelled := by
  unfold WebFileSystem.moveUrl
  split
  · exact hs
  · next p hp =>
    obtain ⟨f, hf, hfurl⟩ := hs.by_url source p hp
    have hkept : ∀ {q g}, s.files q = some g → ∃ g', (s.modify p fun f =>
        { f with data_url := some target }).files q = some g' ∧ g'.file_name = g.file_name
          ∧ (q ≠ p → g' = g) := by
      intro q g hg
      rw [modify_files, hg]
      split
      · next hq => exact ⟨_, rfl, rfl, fun hne => absurd hq hne⟩
      · exact ⟨g, rfl, rfl, fun _ => rfl⟩
    refine ⟨fun n q hq => ?_, fun u q hq => ?_, fun q hq => ?_⟩
    · obtain ⟨g, hg, hname⟩ := hs.by_name n q hq
      obtain ⟨g', hg', hname', -⟩ := hkept hg
      exact ⟨g', hg', hname'.trans hname⟩
    · rcases lookup_insertNew_some hq with hq | ⟨rfl, rfl, -⟩
      · obtain ⟨hne, hq⟩ := lookup_erase_some hq
        obtain ⟨g, hg, hgurl⟩ := hs.by_url u q hq
        have hqp : q ≠ p := by
          rintro rfl
          obtain rfl := Option.some.inj (hf.symm.trans hg)
          exact hne (Option.some.inj (hgurl.symm.trans hfurl))
        obtain ⟨g', hg', -, hsame⟩ := hkept hg
        exact ⟨g', hg', by rw [hsame hqp]; exact hgurl⟩
      · exact ⟨{ f with data_url := some u }, (modify_files ..).trans (by rw [if_pos rfl, hf]; rfl),
          rfl⟩
    · exact (modify_files ..).trans (by rw [hs.fresh q hq]; exact ite_self _)

theorem Labelled.moveName (hs : s.Labelled) (source target : String) :
    (s.moveName source target).Labelled := by
  unfold WebFileSystem.moveName
  split
  · exact hs
  · next p hp =>
    obtain ⟨f, hf, hfname⟩ := hs.by_name source p hp
    have hkept : ∀ {q g}, s.files q = some g → ∃ g', (s.modify p fun f =>
        { f with file_name := target }).files q = some g' ∧ g'.data_url = g.data_url
          ∧ (q ≠ p → g' = g) := by
      intro q g hg
      rw [modify_files, hg]
      split
      · next hq => exact ⟨_, rfl, rfl, fun hne => absurd hq hne⟩
      · exact ⟨g, rfl, rfl, fun _ => rfl⟩
    refine ⟨fun n q hq => ?_, fun u q hq => ?_, fun q hq => ?_⟩
    · rcases lookup_insertNew_some hq with hq | ⟨rfl, rfl, -⟩
      · obtain ⟨hne, hq⟩ := lookup_erase_some hq
        obtain ⟨g, hg, hgname⟩ := hs.by_name n q hq
        have hqp : q ≠ p := by
          rintro rfl
          obtain rfl := Option.some.inj (hf.symm.trans hg)
          exact hne (hgname.symm.trans hfname)
        obtain ⟨g', hg', -, hsame⟩ := hkept hg
        exact ⟨g', hg', by rw [hsame hqp]; exact hgname⟩
      · exact ⟨{ f with file_name := n }, (modify_files ..).trans (by rw [if_pos rfl, hf]; rfl), rfl⟩
    · obtain ⟨g, hg, hgurl⟩ := hs.by_url u q hq
      obtain ⟨g', hg', hurl, -⟩ := hkept hg
      exact ⟨g', hg', hurl.trans hgurl⟩
    · exact (modify_files ..).trans (by rw [hs.fresh q hq]; exact ite_self _)

/-- **Every call leaves the files labelled.** -/
theorem Labelled.call (hs : s.Labelled) (e : Event) : (call s e).1.Labelled := by
  cases e with
  | RegisterFileURL n url protocol =>
    rw [WebFiles.call, WebFileSystem.RegisterFileURL]
    split
    · split
      · exact hs.makeHandle _
      · exact hs
    · exact hs.create.makeHandle _
  | RegisterFileBuffer n =>
    rw [WebFiles.call, WebFileSystem.RegisterFileBuffer]
    split
    · exact (hs.modify overwriteWithBuffer_keeps).makeHandle _
    · exact hs.create.makeHandle _
  | OpenFile url flags opened closing =>
    have hfound : (s.findOrCreate url).1.Labelled := by
      unfold findOrCreate
      split
      · exact hs
      · show (s.create url (s.inferDataProtocol url) (some url)).Labelled
        exact hs.create
    exact (hfound.makeHandle _).openInRuntime
  | Close h closing => exact hs.close h closing
  | TryDropFile n =>
    rw [WebFiles.call, WebFileSystem.TryDropFile]
    split
    · exact hs
    · split
      · exact hs.forget _
      · exact hs
  | DropDanglingFiles =>
    rw [WebFiles.call, WebFileSystem.DropDanglingFiles]
    generalize s.files_by_id.entries.filterMap _ = dangling
    dsimp only
    induction dangling generalizing s with
    | nil => exact hs
    | cons f rest ih => exact ih (hs.forget f)
  | MoveFile source target => exact (hs.moveUrl source target).moveName source target

theorem Labelled.run {protocol : DataProtocol} {ok : WebFileSystem → Event → Prop}
    {es : List Event} (hrun : Run step ok (initial protocol) es s) : s.Labelled :=
  hrun.invariant (initial_labelled protocol) fun s e s' hs _ hstep => by
    obtain rfl := Option.some.inj hstep
    exact hs.call e

end WebFileSystem

/-! ## The browser -/

/-- A handle of the browser: a file, a blob, or an access handle. -/
abbrev FileHandle := Nat

/-- The directory, and the runtime's `_files`. -/
structure Browser where
  directory : WebFileSystem
  files : String → Option FileHandle

/-- Where the contents of a file come from. -/
inductive Location
  | buffer (p : Ptr)
  | url (u : String)
  | handle (h : FileHandle)
  | missing
  deriving DecidableEq, Repr

/-- `moveFile` of the runtime. -/
def moveHandle (files : String → Option FileHandle) (source target : String) :
    String → Option FileHandle :=
  match files source with
  -- the entry of `source` stays
  | some h => Function.update files target (some h)
  | none => files

namespace Browser

variable (b : Browser)

/-- `HTTP` and `S3` files are read from their URL, without a handle. -/
def remote : DataProtocol → Bool
  | .HTTP | .S3 => true
  | _ => false

/-- The file that the directory has under a name. -/
def named (n : String) : Option Ptr := b.directory.files_by_name.lookup n

def handleAt (n : String) : Location :=
  match b.files n with
  | some h => .handle h
  | none => .missing

/-- What a file with this protocol, name and URL is read from; `buffer` is where its buffer is. -/
def contents (buffer : Location) (protocol : DataProtocol) (name : String) (url : Option String) :
    Location :=
  match protocol with
  | .BUFFER => buffer
  | .HTTP | .S3 =>
    match url with
    | some u => .url u
    | none => .missing
  | .BROWSER_FILEREADER | .BROWSER_FSACCESS => b.handleAt name
  | .NODE_FS => .missing

/-- What opening the name finds: a file of the directory, or one that is registered then. -/
def locate (n : String) : Location :=
  match b.named n with
  | some p =>
    match b.directory.files p with
    | some f => b.contents (.buffer p) f.data_protocol f.file_name f.data_url
    | none => .missing
  -- a new file has no buffer yet
  | none => b.contents .missing (b.directory.inferDataProtocol n) n (some n)

def moveFile (source target : String) : Browser where
  directory := (b.directory.MoveFile source target).1
  files := moveHandle b.files source target

end Browser

/-- The entry of `source` is that of `target` now; there is no other change. -/
def Renamed {V : Type} (source target : String) (m m' : String → Option V) : Prop :=
  ∀ n, m' n = if n = target then m source else if n = source then none else m n

/-- What a move is to do. -/
structure Moved (b : Browser) (source target : String) (b' : Browser) : Prop where
  /-- In the directory, and in the runtime. -/
  names : Renamed source target b.named b'.named
  handles : Renamed source target b.files b'.files
  /-- The target has the contents of the source, -/
  at_target : b'.locate target = b.locate source
  /-- which are not where they were, -/
  at_source : source ≠ target → b.locate source ≠ .missing → b'.locate source ≠ b.locate source
  /-- and the other files are what they were. -/
  others : ∀ n p, n ≠ source → n ≠ target → b.named n = some p →
    b'.directory.files p = b.directory.files p

/-- The moved file is not read from a URL that changes, nor from its own name. -/
def ReadElsewhere (b : Browser) (source target : String) : Prop :=
  match b.named source with
  | some p => ∀ f ∈ b.directory.files p, Browser.remote f.data_protocol = true →
      f.data_url ≠ none →
      b.directory.files_by_url.lookup source ≠ some p ∧
        ¬ (f.data_url = some source ∧
          Browser.remote (b.directory.inferDataProtocol source) = true)
  | none => Browser.remote (b.directory.inferDataProtocol source) = false ∧
      Browser.remote (b.directory.inferDataProtocol target) = false

/-- The target is not registered, the runtime has no handle of either path, the URL of no other
file changes, and the moved file is not read from the URL that does. -/
structure Movable (b : Browser) (source target : String) : Prop where
  free : b.named target = none
  no_source : b.files source = none
  no_target : b.files target = none
  own_url : ∀ q, b.directory.files_by_url.lookup source = some q →
    ∀ n, b.named n = some q → n = source
  elsewhere : ReadElsewhere b source target

/-! ## The two maps -/

variable {b : Browser} {source target : String}

/-- The runtime moves the entry of a path only if there is none. -/
theorem moveHandle_renamed {files : String → Option FileHandle} (hne : source ≠ target) :
    Renamed source target files (moveHandle files source target)
      ↔ files source = none ∧ files target = none := by
  unfold moveHandle
  split
  · next h hh =>
    -- the entry of `source` would have to be gone
    refine ⟨fun hmoved => ?_, fun ⟨hnone, _⟩ => ?_⟩
    · have hleft := hmoved source
      rw [Function.update_of_ne hne, if_neg hne, if_pos rfl, hh] at hleft
      cases hleft
    · rw [hh] at hnone
      cases hnone
  · next hnone =>
    refine ⟨fun hmoved => ⟨hnone, ?_⟩, fun ⟨_, hfree⟩ n => ?_⟩
    · rw [hmoved target, if_pos rfl]
      exact hnone
    · by_cases ht : n = target
      · rw [if_pos ht, ht, hfree, hnone]
      · rw [if_neg ht]
        by_cases hs : n = source
        · rw [if_pos hs, hs, hnone]
        · rw [if_neg hs]

theorem Browser.named_moveFile (n : String) : (b.moveFile source target).named n
    = match b.named source with
      | none => b.named n
      | some p => (insertNew (b.directory.files_by_name.erase source) target p).lookup n := by
  have hurls : (b.directory.moveUrl source target).files_by_name = b.directory.files_by_name := by
    unfold WebFileSystem.moveUrl
    split <;> rfl
  show ((b.directory.moveUrl source target).moveName source target).files_by_name.lookup n = _
  unfold WebFileSystem.moveName Browser.named
  rw [hurls]
  split <;> simp_all

theorem Browser.moveFile_names (hs : b.directory.Labelled) (hne : source ≠ target) :
    Renamed source target b.named (b.moveFile source target).named ↔ b.named target = none := by
  have hnow := @Browser.named_moveFile b source target
  have hsource : target ≠ source := fun h => hne h.symm
  cases hp : b.named source with
  | none =>
    refine ⟨fun hmoved => ?_, fun hfree n => ?_⟩
    · have htarget := hmoved target
      rw [hnow, hp, if_pos rfl] at htarget
      exact htarget
    · rw [hnow, hp]
      by_cases ht : n = target
      · rw [if_pos ht, ht]
        exact hfree
      · rw [if_neg ht]
        by_cases hn : n = source
        · rw [if_pos hn, hn]
          exact hp
        · rw [if_neg hn]
  | some p =>
    refine ⟨fun hmoved => ?_, fun hfree n => ?_⟩
    · -- an entry of the target stays, and it is another file's
      cases hq : b.named target with
      | none => rfl
      | some q =>
        have htarget := hmoved target
        have hin : target ∈ b.directory.files_by_name.erase source := by
          rw [← AList.lookup_isSome, AList.lookup_erase_ne hsource]
          exact (congrArg Option.isSome hq).trans rfl
        rw [hnow, hp, if_pos rfl] at htarget
        dsimp only at htarget
        rw [insertNew, if_pos hin, AList.lookup_erase_ne hsource] at htarget
        obtain ⟨f, hf, hname⟩ := hs.by_name target p htarget
        obtain ⟨g, hg, hname'⟩ := hs.by_name source p hp
        obtain rfl := Option.some.inj (hf.symm.trans hg)
        exact absurd (hname'.symm.trans hname) hne
    · have hnotin : target ∉ b.directory.files_by_name.erase source := by
        rw [← AList.lookup_isSome, AList.lookup_erase_ne hsource]
        exact fun h => absurd ((congrArg Option.isSome hfree).symm.trans h) Bool.false_ne_true
      rw [hnow, hp]
      dsimp only
      rw [insertNew, if_neg hnotin]
      by_cases ht : n = target
      · rw [if_pos ht, ht, AList.lookup_insert]
      · rw [if_neg ht, AList.lookup_insert_ne ht]
        by_cases hn : n = source
        · rw [if_pos hn, hn, AList.lookup_erase]
        · rw [if_neg hn, AList.lookup_erase_ne hn]
          rfl

/-! ## The files -/

/-- The file at an address after the move. -/
theorem Browser.moveFile_files (p : Ptr) :
    (b.moveFile source target).directory.files p
      = (b.directory.files p).map fun f =>
        { f with
          data_url := if b.directory.files_by_url.lookup source = some p then some target
            else f.data_url
          file_name := if b.named source = some p then target
            else f.file_name } := by
  have hurls : (b.directory.moveUrl source target).files_by_name = b.directory.files_by_name := by
    unfold WebFileSystem.moveUrl
    split <;> rfl
  have hurl : (b.directory.moveUrl source target).files p = (b.directory.files p).map fun f =>
      { f with data_url := if b.directory.files_by_url.lookup source = some p then some target
                 else f.data_url } := by
    unfold WebFileSystem.moveUrl
    split
    · next hnone => simp [hnone]
    · next q hq =>
      rw [hq]
      show ((b.directory.modify q _).files p) = _
      rw [WebFileSystem.modify_files]
      by_cases hpq : p = q
      · simp [hpq]
      · rw [if_neg hpq]
        have hqp : ¬ some q = some p := fun h => hpq (Option.some.inj h).symm
        simp [hqp]
  show ((b.directory.moveUrl source target).moveName source target).files p = _
  unfold WebFileSystem.moveName Browser.named
  rw [hurls]
  split
  · next hnone =>
    rw [hurl, hnone]
    simp
  · next q hq =>
    rw [hq]
    show (((b.directory.moveUrl source target).modify q _).files p) = _
    rw [WebFileSystem.modify_files, hurl]
    by_cases hpq : p = q
    · rw [if_pos hpq, hpq]
      simp [Function.comp_def]
    · rw [if_neg hpq]
      have hqp : ¬ some q = some p := fun h => hpq (Option.some.inj h).symm
      simp [hqp]

/-- No other file changes if no other one has the URL. -/
theorem Browser.moveFile_others (hs : b.directory.Labelled) (hne : source ≠ target)
    (hfree : b.named target = none) :
    (∀ n p, n ≠ source → n ≠ target → b.named n = some p →
        (b.moveFile source target).directory.files p = b.directory.files p)
      ↔ ∀ q, b.directory.files_by_url.lookup source = some q →
        ∀ n, b.named n = some q → n = source := by
  refine ⟨fun hothers q hq n hn => ?_, fun hown n p hns hnt hn => ?_⟩
  · by_contra hns
    have hnt : n ≠ target := by
      rintro rfl
      rw [hfree] at hn
      cases hn
    have hsame := hothers n q hns hnt hn
    obtain ⟨f, hf, hurl⟩ := hs.by_url source q hq
    rw [Browser.moveFile_files, hf, Option.map_some, if_pos hq] at hsame
    have hnow : some target = f.data_url := congrArg WebFile.data_url (Option.some.inj hsame)
    exact hne (Option.some.inj (hurl.symm.trans hnow.symm))
  · have hname : b.named source ≠ some p := by
      intro hp
      obtain ⟨f, hf, hfn⟩ := hs.by_name n p hn
      obtain ⟨g, hg, hgn⟩ := hs.by_name source p hp
      obtain rfl := Option.some.inj (hf.symm.trans hg)
      exact hns (hfn.symm.trans hgn)
    have hurl : b.directory.files_by_url.lookup source ≠ some p := fun hp => hns (hown p hp n hn)
    rw [Browser.moveFile_files]
    simp only [if_neg hname, if_neg hurl]
    exact Option.map_id'

/-! ## The contents -/

theorem Browser.moveFile_infers (url : String) :
    (b.moveFile source target).directory.inferDataProtocol url
      = b.directory.inferDataProtocol url := by
  have hdefault : (b.moveFile source target).directory.default_data_protocol
      = b.directory.default_data_protocol := by
    show ((b.directory.moveUrl source target).moveName source target).default_data_protocol = _
    unfold WebFileSystem.moveName WebFileSystem.moveUrl
    split <;> split <;> rfl
  unfold WebFileSystem.inferDataProtocol
  rw [hdefault]

/-- What a file of the browser that has no handle is read from. -/
theorem Browser.contents_of_no_handle {buffer : Location} {protocol : DataProtocol} {n : String}
    {url : Option String} (hnone : b.files n = none) :
    b.contents buffer protocol n url
      = if protocol = .BUFFER then buffer
        else if remote protocol = true then (url.map Location.url).getD .missing
        else .missing := by
  cases protocol
  case HTTP | S3 => cases url <;> rfl
  case BUFFER | NODE_FS => rfl
  case BROWSER_FILEREADER | BROWSER_FSACCESS =>
    show b.handleAt n = .missing
    rw [handleAt, hnone]

theorem Browser.locate_unnamed {n : String} (hnone : b.files n = none) (hfree : b.named n = none) :
    b.locate n
      = if remote (b.directory.inferDataProtocol n) = true then .url n else .missing := by
  rw [locate, hfree]
  dsimp only
  rw [contents_of_no_handle hnone]
  cases b.directory.inferDataProtocol n <;> rfl

theorem Browser.locate_named {n : String} {p : Ptr} {f : WebFile} (hnone : b.files n = none)
    (hp : b.named n = some p) (hf : b.directory.files p = some f) (hname : f.file_name = n) :
    b.locate n
      = if f.data_protocol = .BUFFER then .buffer p
        else if remote f.data_protocol = true then (f.data_url.map Location.url).getD .missing
        else .missing := by
  rw [locate, hp]
  dsimp only
  rw [hf]
  dsimp only
  rw [contents_of_no_handle (hname.symm ▸ hnone)]

/-- A registered file is found under its new name, with the same contents, if it is not read from
the URL that changes. -/
theorem Browser.locate_moved {p : Ptr} {f : WebFile} (hs : b.directory.Labelled)
    (hne : source ≠ target) (hfree : b.named target = none)
    (hsource : b.files source = none) (htarget : b.files target = none)
    (hp : b.named source = some p) (hf : b.directory.files p = some f) :
    (b.moveFile source target).locate target = b.locate source
      ↔ (remote f.data_protocol = true → f.data_url ≠ none →
        b.directory.files_by_url.lookup source ≠ some p) := by
  have hname : f.file_name = source := by
    obtain ⟨g, hg, hgname⟩ := hs.by_name source p hp
    obtain rfl := Option.some.inj (hf.symm.trans hg)
    exact hgname
  have hnow := (Browser.moveFile_names hs hne).mpr hfree target
  rw [if_pos rfl, hp] at hnow
  have hfiles := @Browser.moveFile_files b source target p
  rw [hf, Option.map_some, if_pos hp] at hfiles
  have hhandle : (b.moveFile source target).files target = none := by
    show moveHandle b.files source target target = none
    rw [moveHandle, hsource]
    exact htarget
  rw [locate_named hhandle hnow hfiles rfl, locate_named hsource hp hf hname]
  dsimp only
  by_cases hurl : b.directory.files_by_url.lookup source = some p
  · -- the file's URL is `source`, and becomes `target`
    have hu : f.data_url = some source := by
      obtain ⟨g, hg, hgurl⟩ := hs.by_url source p hurl
      obtain rfl := Option.some.inj (hf.symm.trans hg)
      exact hgurl
    rw [if_pos hurl, hu]
    cases hprotocol : f.data_protocol <;> simp [remote, hurl, Ne.symm hne]
  · rw [if_neg hurl]
    exact ⟨fun _ _ _ => hurl, fun _ => rfl⟩

/-- Nothing is found under the old name but what is at the URL that it is. -/
theorem Browser.locate_left {p : Ptr} {f : WebFile} (hs : b.directory.Labelled)
    (hne : source ≠ target) (hfree : b.named target = none) (hsource : b.files source = none)
    (hp : b.named source = some p) (hf : b.directory.files p = some f) :
    (b.locate source ≠ .missing → (b.moveFile source target).locate source ≠ b.locate source)
      ↔ (remote f.data_protocol = true →
        ¬ (f.data_url = some source ∧ remote (b.directory.inferDataProtocol source) = true)) := by
  have hname : f.file_name = source := by
    obtain ⟨g, hg, hgname⟩ := hs.by_name source p hp
    obtain rfl := Option.some.inj (hf.symm.trans hg)
    exact hgname
  have hnow := (Browser.moveFile_names hs hne).mpr hfree source
  rw [if_neg hne, if_pos rfl] at hnow
  have hhandle : (b.moveFile source target).files source = none := by
    show moveHandle b.files source target source = none
    rw [moveHandle, hsource]
    exact hsource
  rw [locate_unnamed hhandle hnow, locate_named hsource hp hf hname, Browser.moveFile_infers]
  cases hremote : remote (b.directory.inferDataProtocol source) <;>
    cases hprotocol : f.data_protocol <;> cases hurl : f.data_url <;>
    simp [remote, eq_comm]

theorem Browser.moved_contents (hs : b.directory.Labelled) (hne : source ≠ target)
    (hfree : b.named target = none) (hsource : b.files source = none)
    (htarget : b.files target = none) :
    (b.moveFile source target).locate target = b.locate source
        ∧ (b.locate source ≠ .missing →
          (b.moveFile source target).locate source ≠ b.locate source)
      ↔ ReadElsewhere b source target := by
  unfold ReadElsewhere
  cases hp : b.named source with
  | some p =>
    obtain ⟨f, hf, -⟩ := hs.by_name source p hp
    rw [Browser.locate_moved hs hne hfree hsource htarget hp hf,
      Browser.locate_left hs hne hfree hsource hp hf]
    dsimp only
    rw [hf]
    refine ⟨fun ⟨hurl, hown⟩ g hg hremote hsome => ?_, fun h => ⟨fun hremote hsome => ?_,
      fun hremote hown => ?_⟩⟩
    · obtain rfl := Option.some.inj hg
      exact ⟨hurl hremote hsome, hown hremote⟩
    · exact (h f rfl hremote hsome).1
    · have hsome : f.data_url ≠ none := fun hnone => by
        rw [hnone] at hown
        cases hown.1
      exact (h f rfl hremote hsome).2 hown
  | none =>
    have hmoved := (Browser.moveFile_names hs hne).mpr hfree
    have hnow := hmoved target
    rw [if_pos rfl, hp] at hnow
    have hhandle : (b.moveFile source target).files target = none := by
      show moveHandle b.files source target target = none
      rw [moveHandle, hsource]
      exact htarget
    rw [Browser.locate_unnamed hhandle hnow, Browser.locate_unnamed hsource hp,
      Browser.moveFile_infers]
    -- nothing is registered: two URLs are two locations, and a file without a handle is none
    cases remote (b.directory.inferDataProtocol source) <;>
      cases remote (b.directory.inferDataProtocol target) <;> simp [Ne.symm hne]

/-! ## Moves -/

theorem Browser.moveFile_self_named (source : String) (n : String) :
    (b.moveFile source source).named n = b.named n := by
  have hurls : (b.directory.moveUrl source source).files_by_name = b.directory.files_by_name := by
    unfold WebFileSystem.moveUrl
    split <;> rfl
  show ((b.directory.moveUrl source source).moveName source source).files_by_name.lookup n
    = b.directory.files_by_name.lookup n
  unfold WebFileSystem.moveName
  rw [hurls]
  split
  · rw [hurls]
  · next p hp =>
    have hnotin : source ∉ b.directory.files_by_name.erase source := by
      rw [← AList.lookup_isSome, AList.lookup_erase]
      exact Bool.false_ne_true
    dsimp only
    rw [insertNew, if_neg hnotin]
    by_cases hn : n = source
    · rw [hn, AList.lookup_insert, hp]
    · rw [AList.lookup_insert_ne hn, AList.lookup_erase_ne hn]

theorem Browser.moveFile_self_files (hs : b.directory.Labelled) (source : String) (p : Ptr) :
    (b.moveFile source source).directory.files p = b.directory.files p := by
  rw [Browser.moveFile_files]
  cases hf : b.directory.files p with
  | none => rfl
  | some f =>
    have hurl : (if b.directory.files_by_url.lookup source = some p then some source
        else f.data_url) = f.data_url := by
      split
      · next hu =>
        obtain ⟨g, hg, hgurl⟩ := hs.by_url source p hu
        obtain rfl := Option.some.inj (hf.symm.trans hg)
        exact hgurl.symm
      · rfl
    have hname : (if b.named source = some p then source else f.file_name) = f.file_name := by
      split
      · next hn =>
        obtain ⟨g, hg, hgname⟩ := hs.by_name source p hn
        obtain rfl := Option.some.inj (hf.symm.trans hg)
        exact hgname.symm
      · rfl
    rw [Option.map_some, hurl, hname]

/-- Moving a path to itself changes nothing. -/
theorem Browser.moved_self (hs : b.directory.Labelled) (source : String) :
    Moved b source source (b.moveFile source source) := by
  have hhandles : (b.moveFile source source).files = b.files := by
    show moveHandle b.files source source = b.files
    unfold moveHandle
    split
    · next h hh => rw [← hh, Function.update_eq_self]
    · rfl
  have hkept : ∀ {V : Type} {m m' : String → Option V}, (∀ n, m' n = m n) →
      Renamed source source m m' := by
    intro V m m' hm n
    by_cases hn : n = source
    · rw [if_pos hn, hm, hn]
    · rw [if_neg hn, if_neg hn, hm]
  refine ⟨hkept (Browser.moveFile_self_named source), hkept fun n => by rw [hhandles], ?_,
    fun h => absurd rfl h, fun n p _ _ _ => Browser.moveFile_self_files hs source p⟩
  have hcontents : (b.moveFile source source).contents = b.contents := by
    funext buffer protocol n url
    cases protocol <;> simp [contents, handleAt, hhandles]
  have hnext : ∀ n, b.named n = none →
      (b.moveFile source source).locate n = b.locate n := by
    intro n hn
    rw [locate, locate, Browser.moveFile_self_named, hn, hcontents, Browser.moveFile_infers]
  cases hp : b.named source with
  | none => exact hnext source hp
  | some p =>
    rw [locate, locate, Browser.moveFile_self_named, hp, hcontents]
    dsimp only
    rw [Browser.moveFile_self_files hs]

/-- **A move between two paths does what it is to do exactly if they are `Movable`.** -/
theorem Browser.moved_iff {protocol : DataProtocol} {es : List Event} {b : Browser}
    (hrun : Run step (fun _ _ => True) (WebFileSystem.initial protocol) es b.directory)
    (source target : String) :
    Moved b source target (b.moveFile source target)
      ↔ source = target ∨ Movable b source target := by
  have hs := WebFileSystem.Labelled.run hrun
  by_cases hne : source = target
  · rw [hne]
    exact ⟨fun _ => .inl rfl, fun _ => moved_self hs target⟩
  refine ⟨fun hmoved => .inr ?_, ?_⟩
  · have hfree := (moveFile_names hs hne).mp hmoved.names
    obtain ⟨hsource, htarget⟩ := (moveHandle_renamed hne).mp hmoved.handles
    exact ⟨hfree, hsource, htarget, (moveFile_others hs hne hfree).mp hmoved.others,
      (moved_contents hs hne hfree hsource htarget).mp ⟨hmoved.at_target, hmoved.at_source hne⟩⟩
  · rintro (heq | hmovable)
    · exact absurd heq hne
    have hcontents := (moved_contents hs hne hmovable.free hmovable.no_source
      hmovable.no_target).mpr hmovable.elsewhere
    exact ⟨(moveFile_names hs hne).mpr hmovable.free,
      (moveHandle_renamed hne).mpr ⟨hmovable.no_source, hmovable.no_target⟩,
      hcontents.1, fun _ => hcontents.2, (moveFile_others hs hne hmovable.free).mpr hmovable.own_url⟩

/-- A buffer that is registered under one name, and moved to another. -/
theorem Browser.moved_iff_buffer :
    ∃ b : Browser, b.locate "a.db" = .buffer 0
      ∧ Moved b "a.db" "b.db" (b.moveFile "a.db" "b.db") := by
  let b : Browser :=
    ⟨(call (.initial .BROWSER_FILEREADER) (.RegisterFileBuffer "a.db")).1, fun _ => none⟩
  have hrun : Run step (fun _ _ => True) (.initial .BROWSER_FILEREADER)
      [.RegisterFileBuffer "a.db"] b.directory := .snoc .nil trivial rfl
  refine ⟨b, rfl, (moved_iff hrun "a.db" "b.db").mpr (.inr ?_)⟩
  refine ⟨rfl, rfl, rfl, fun q hq => ?_, fun f hf hremote _ => ?_⟩
  · cases hq
  · obtain rfl := Option.some.inj hf
    cases hremote

/-- A file of the user that is moved is still found under its old name. -/
theorem Browser.moved_file_stays :
    ∃ b : Browser,
      Run step (fun _ _ => True) (.initial .BROWSER_FILEREADER)
        [.RegisterFileURL "a.db" "a.db" .BROWSER_FILEREADER] b.directory
      ∧ b.locate "a.db" = .handle 0
      ∧ (b.moveFile "a.db" "b.db").locate "a.db" = .handle 0
      ∧ ¬ Moved b "a.db" "b.db" (b.moveFile "a.db" "b.db") := by
  let files : String → Option FileHandle := fun n => if n = "a.db" then some 0 else none
  let opened := (call (.initial .BROWSER_FILEREADER)
    (.RegisterFileURL "a.db" "a.db" .BROWSER_FILEREADER)).1
  refine ⟨⟨opened, files⟩, .snoc .nil trivial rfl, rfl, rfl, fun hmoved => ?_⟩
  exact hmoved.at_source (by decide) (by decide) rfl

end Haybarn.Io.WebFiles
