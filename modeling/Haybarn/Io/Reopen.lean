import Haybarn.Io.BufferedInv

/-!
# Opening a file again

Who opens a path that is buffered shares its file, with the flags that it was first opened with;
only a file that could not be written to is opened once more underneath (`ReOpen`), and then its
handle is all that changes. **If no open asks for more than the first one did, every reference
can do what it was opened for and sees the size of the file** (`every_reference_is_right`).

Otherwise a reference that was opened for writing cannot write (`reopened_cannot_write`), one that
was opened for reading may be left with a handle for writing only, and a file that is emptied by
being reopened keeps the size that it had.
-/

namespace Haybarn.Io.BufferedFiles

open Haybarn.Lib Haybarn.Io.PagedFile

namespace BufferedFileSystem

/-- What a reference is to be good for. -/
structure RefRight (cfg : Config) (s : BufferedFileSystem) (r : FileRef) (f : BufferedFile)
    (h : FileHandle) : Prop where
  file : s.files r.path = some f
  handle : f.handle = some h
  /-- Opened for writing, it writes and appends, through a handle for that, -/
  writes : r.flags.OpenForWriting = true → h.flags.OpenForWriting = true
    ∧ (∀ bytes offset access, ∃ file n,
      Handle.writeAt cfg ⟨s.fileOf f, r.position⟩ bytes offset access = .ok (file, n))
    ∧ ∀ bytes, ∃ file, (s.fileOf f).append cfg bytes = .ok file
  /-- opened for reading only, it reads, -/
  reads : r.flags.OpenForReading = true → r.flags.OpenForWriting = false →
    h.flags.OpenForReading = true
  /-- and it says how long the file is. -/
  size : ∃ i, s.disk.names r.path = some i ∧ f.file_size = (s.disk.inodes i).size

/-- Opening a file that is buffered asks for no more than what it was first opened for. -/
def AsksNoMore (s : BufferedFileSystem) (p : String) (flags : FileOpenFlags) : Prop :=
  ∀ f, s.files p = some f → BufferedFile.sharing f p flags ≠ .reopened
    ∧ (BufferedFile.sharing f p flags = .shared → flags.OpenForReading = true →
      flags.OpenForWriting = false → f.file_flags.OpenForReading = true)

/-- Calls find what they rely on, nothing that is buffered is moved or removed, and opens ask for
no more than the first one did. -/
def OpensAgree (fs : Underneath) (cfg : Config) (s : BufferedFileSystem) : Event → Prop
  | .OpenFile raw_path flags _ => s.AsksNoMore (PatchFilename raw_path) flags
  | e => s.Undisturbed fs cfg (fun _ => True) e

variable {fs : Underneath} {cfg : Config} {s s' : BufferedFileSystem} {p q : String}
variable {f : BufferedFile}

theorem OpensAgree.undisturbed {e : Event} (hok : s.OpensAgree fs cfg e) :
    s.Undisturbed fs cfg (fun _ => True) e := by
  cases e with
  | OpenFile raw_path flags idLeft =>
    exact fun f hf hreopened => absurd hreopened (hok f hf).1
  | _ => exact hok

/-! ## Flags -/

/-- The file has the flags of its handle, and its references ask for no more. -/
structure FlagsRight (s : BufferedFileSystem) : Prop where
  files : ∀ p f, s.files p = some f → ∃ h, f.handle = some h ∧ h.flags = f.file_flags
  refs : ∀ r ∈ s.refs, ∀ f, s.files r.path = some f →
    (r.flags.OpenForWriting = true → f.file_flags.OpenForWriting = true)
    ∧ (r.flags.OpenForReading = true → r.flags.OpenForWriting = false →
      f.file_flags.OpenForReading = true)

/-- The files that are left are those that there were, with their handles and flags. -/
def KeepsHandles (s s' : BufferedFileSystem) : Prop :=
  ∀ p f', s'.files p = some f' →
    ∃ f, s.files p = some f ∧ f'.handle = f.handle ∧ f'.file_flags = f.file_flags

theorem KeepsHandles.refl (s : BufferedFileSystem) : s.KeepsHandles s :=
  fun _ f hf => ⟨f, hf, rfl, rfl⟩

theorem KeepsHandles.trans {s'' : BufferedFileSystem} (h : s.KeepsHandles s')
    (h' : s'.KeepsHandles s'') : s.KeepsHandles s'' := by
  intro p f'' hf''
  obtain ⟨f', hf', hhandle', hflags'⟩ := h' p f'' hf''
  obtain ⟨f, hf, hhandle, hflags⟩ := h p f' hf'
  exact ⟨f, hf, hhandle'.trans hhandle, hflags'.trans hflags⟩

/-- A file is replaced by one with its handle and flags, or by none. -/
theorem keepsHandles_update {disk : Disk} {refs : List FileRef} {f' : Option BufferedFile}
    (hf' : ∀ g', f' = some g' → ∃ g, s.files p = some g ∧ g'.handle = g.handle
      ∧ g'.file_flags = g.file_flags) :
    s.KeepsHandles ⟨disk, Function.update s.files p f', refs⟩ := by
  intro q g' hg'
  by_cases hq : q = p
  · have hg' : Function.update s.files p f' q = some g' := hg'
    rw [hq, Function.update_self] at hg'
    exact hq ▸ hf' g' hg'
  · have hg' : s.files q = some g' := (Function.update_of_ne hq ..).symm.trans hg'
    exact ⟨g', hg', rfl, rfl⟩

theorem keepsHandles_onFile (k : File → File) : s.KeepsHandles (s.onFile p k) := by
  unfold onFile
  split
  · exact .refl s
  · next f hf =>
    split
    · exact .refl s
    · refine keepsHandles_update fun g' hg' => ?_
      obtain rfl := Option.some.inj hg'
      exact ⟨f, hf, rfl, rfl⟩

theorem keepsHandles_counted (n : BufferedFile → Nat) :
    s.KeepsHandles (s.modifyFile p fun f => { f with num_users := n f }) := by
  refine keepsHandles_update fun g' hg' => ?_
  obtain ⟨g, hg, rfl⟩ := Option.map_eq_some_iff.mp hg'
  exact ⟨g, hg, rfl, rfl⟩

theorem keepsHandles_release (keep_dangling : Bool) :
    s.KeepsHandles (s.Release cfg p keep_dangling) := by
  unfold Release
  split
  · exact .refl s
  · split
    · exact keepsHandles_counted _
    · refine (keepsHandles_onFile _).trans (keepsHandles_update fun g' hg' => ?_)
      cases hg'

/-- Handles and flags stay, and the references are some of those that there were. -/
theorem FlagsRight.kept (hs : s.FlagsRight) (hkeeps : s.KeepsHandles s')
    (hrefs : ∀ r' ∈ s'.refs, ∃ r ∈ s.refs, r'.path = r.path ∧ r'.flags = r.flags) :
    s'.FlagsRight := by
  refine ⟨fun p f' hf' => ?_, fun r' hr' f' hf' => ?_⟩
  · obtain ⟨f, hf, hhandle, hflags⟩ := hkeeps p f' hf'
    obtain ⟨h, hh, heq⟩ := hs.files p f hf
    exact ⟨h, hhandle.trans hh, heq.trans hflags.symm⟩
  · obtain ⟨r, hr, hpath, hrflags⟩ := hrefs r' hr'
    obtain ⟨f, hf, -, hflags⟩ := hkeeps r'.path f' hf'
    rw [hpath] at hf
    rw [hrflags, hflags]
    exact hs.refs r hr f hf

/-- A new reference asks for no more than the file is open for. -/
theorem FlagsRight.newRef (hs : s.FlagsRight) {flags : FileOpenFlags}
    (hflags : ∀ f, s.files p = some f →
      (flags.OpenForWriting = true → f.file_flags.OpenForWriting = true)
      ∧ (flags.OpenForReading = true → flags.OpenForWriting = false →
        f.file_flags.OpenForReading = true)) :
    (s.newRef p flags).1.FlagsRight := by
  have hacquired : (s.acquire p).FlagsRight :=
    hs.kept (keepsHandles_counted _) fun r hr => ⟨r, hr, rfl, rfl⟩
  refine ⟨hacquired.files, fun r hr f hf => ?_⟩
  rcases List.mem_append.mp hr with hr | hr
  · exact hacquired.refs r hr f hf
  · obtain rfl := List.mem_singleton.mp hr
    obtain ⟨g, hg, -, hsame⟩ := keepsHandles_counted (fun f => f.num_users + 1) p f hf
    rw [hsame]
    exact hflags g hg

/-! ## Steps -/

theorem shared_writable {flags : FileOpenFlags}
    (h : BufferedFile.sharing f p flags = .shared) (hw : flags.OpenForWriting = true) :
    f.file_flags.OpenForWriting = true := by
  unfold BufferedFile.sharing at h
  split at h
  · cases h
  · split at h
    · cases h
    · split at h
      · cases h
      · next hwritable =>
        cases hf : f.file_flags.OpenForWriting with
        | true => rfl
        | false =>
          rw [hf] at hwritable
          exact absurd rfl hwritable

theorem FlagsRight.openFile (hs : s.FlagsRight) {flags : FileOpenFlags} {idLeft : Bool}
    (hok : s.AsksNoMore p flags) (hcounted : s.Counted) :
    (s.OpenFile fs cfg p flags idLeft).1.FlagsRight := by
  unfold OpenFile
  split
  · next f hf =>
    have hok := hok f hf
    split
    · exact hs
    · next hreopened => exact absurd hreopened hok.1
    · next hshared =>
      refine hs.newRef fun g hg => ?_
      obtain rfl := Option.some.inj (hf.symm.trans hg)
      exact ⟨shared_writable hshared, hok.2 hshared⟩
  · next hnone =>
    have hdisk : ∀ disk, FlagsRight { s with disk } := fun disk => ⟨hs.files, hs.refs⟩
    split
    · exact hdisk _
    · exact hdisk _
    · next disk h hopened =>
      split
      · have hhandle : h.flags = flags := by
          have hopened := congrArg (·.2) hopened
          unfold Disk.OpenFile at hopened
          split at hopened
          · cases hopened
            rfl
          · split at hopened
            · cases hopened
              rfl
            · split at hopened <;> cases hopened
        have hfile : ∀ f, ({ s with disk }.buffer p flags h).files p = some f →
            f.handle = some h ∧ f.file_flags = flags := by
          intro f hf
          have hf : Function.update s.files p _ p = some f := hf
          rw [Function.update_self] at hf
          obtain rfl := Option.some.inj hf
          exact ⟨rfl, rfl⟩
        -- a path that is not buffered has no references
        have hunused : ∀ r ∈ s.refs, r.path ≠ p := by
          intro r hr hpath
          obtain ⟨f, hf⟩ := hcounted.buffered hr
          rw [hpath, hnone] at hf
          cases hf
        have hbuffer : ({ s with disk }.buffer p flags h).FlagsRight := by
          refine ⟨fun q f hf => ?_, fun r hr f hf => ?_⟩
          · by_cases hq : q = p
            · rw [hq] at hf
              obtain ⟨hhandle', hflags⟩ := hfile f hf
              exact ⟨h, hhandle', hhandle.trans hflags.symm⟩
            · exact hs.files q f ((Function.update_of_ne hq ..).symm.trans hf)
          · exact hs.refs r hr f ((Function.update_of_ne (hunused r hr) ..).symm.trans hf)
        refine hbuffer.newRef fun f hf => ?_
        rw [(hfile f hf).2]
        exact ⟨fun hw => hw, fun hr _ => hr⟩
      · exact hdisk _

theorem FlagsRight.step (hs : s.FlagsRight) (hcounted : s.Counted) {e : Event}
    (hok : s.OpensAgree fs cfg e) (hstep : BufferedFiles.step fs cfg s e = some s') :
    s'.FlagsRight := by
  obtain ⟨r, hreply, rfl⟩ := Option.map_eq_some_iff.mp hstep
  have hsame : ∀ refs : List FileRef, refs = s.refs →
      ∀ r' ∈ refs, ∃ r ∈ s.refs, r'.path = r.path ∧ r'.flags = r.flags := by
    rintro refs rfl r hr
    exact ⟨r, hr, rfl, rfl⟩
  cases e with
  | OpenFile raw_path flags idLeft =>
    obtain rfl := Option.some.inj hreply
    exact hs.openFile hok hcounted
  | call i c =>
    obtain ⟨s', reply⟩ := r
    obtain ⟨r, f, h, h', answer, hr, hf, -, -, rfl, -⟩ := call_some hreply
    refine hs.kept (keepsHandles_update fun g' hg' => ?_) fun r' hr' => ?_
    · obtain rfl := Option.some.inj hg'
      exact ⟨f, hf, rfl, rfl⟩
    · rcases List.mem_or_eq_of_mem_set hr' with hr' | rfl
      · exact ⟨r', hr', rfl, rfl⟩
      · exact ⟨r, List.mem_of_getElem? hr, rfl, rfl⟩
  | Close i =>
    obtain ⟨r, hr, hreply⟩ := Option.bind_eq_some_iff.mp hreply
    cases hreply
    exact hs.kept (keepsHandles_release true) fun r' hr' =>
      ⟨r', List.mem_of_mem_eraseIdx hr', rfl, rfl⟩
  | TryDropFile file =>
    obtain rfl := Option.some.inj hreply
    unfold TryDropFile
    split
    · exact hs
    · split
      · exact hs
      · exact hs.kept ((keepsHandles_counted _).trans (keepsHandles_release false))
          (hsame _ (refs_release false))
  | FlushFile p =>
    obtain rfl := Option.some.inj hreply
    unfold FlushFile
    split
    · exact hs
    · exact hs.kept (((keepsHandles_counted _).trans (keepsHandles_onFile _)).trans
        (keepsHandles_release true)) (hsame _ ((refs_release true).trans (refs_onFile _)))
  | evict p page =>
    obtain rfl := Option.some.inj hreply
    exact hs.kept (keepsHandles_onFile _) (hsame _ (refs_onFile _))
  | MoveFile raw_source raw_target =>
    obtain rfl := Option.some.inj hreply
    exact ⟨hs.files, hs.refs⟩
  | RemoveFile raw_filename =>
    obtain rfl := Option.some.inj hreply
    exact ⟨hs.files, hs.refs⟩

/-- **If no open asks for more than the first one did, every reference can do what it was opened
for, and sees the size of the file**, in every state of every run. -/
theorem every_reference_is_right {disk : Disk} {es : List Event}
    (hrun : Run (BufferedFiles.step fs cfg) (OpensAgree fs cfg) (initial disk) es s) :
    ∀ r ∈ s.refs, ∃ f h, s.RefRight cfg r f h := by
  obtain ⟨hinv, hflags⟩ : s.Inv cfg (fun _ => True) ∧ s.FlagsRight := by
    refine hrun.invariant (P := fun s => s.Inv cfg (fun _ => True) ∧ s.FlagsRight)
      ⟨initial_inv disk, nofun, nofun⟩ fun s e s' hs hok hstep => ?_
    exact ⟨hs.1.step hok.undisturbed hstep, hs.2.step hs.1.counted hok hstep⟩
  intro r hr
  obtain ⟨f, hf⟩ := hinv.counted.buffered hr
  obtain ⟨h, hh, heq⟩ := hflags.files r.path f hf
  obtain ⟨hwrite, hread⟩ := hflags.refs r hr f hf
  have hat := hinv.buffered r.path f hf
  refine ⟨f, h, hf, hh, fun hw => ⟨heq ▸ hwrite hw, fun bytes offset access => ?_,
    fun bytes => ?_⟩, fun hr hw => heq ▸ hread hr hw, ?_⟩
  · have hw' := (@File.makeRoom_keeps cfg access.evicted (s.fileOf f)).1.1.trans (hwrite hw)
    exact File.write_of_writable cfg hw' bytes offset access.stale
  · exact File.append_of_writable cfg (hwrite hw) bytes
  · obtain ⟨h₀, hh₀, hname⟩ := hat.linked
    obtain rfl := Option.some.inj (hh.symm.trans hh₀)
    refine ⟨h.inode, hname, ?_⟩
    have hsize := (hat.coherent trivial).diskSize
    rw [fileOf_eq hh] at hsize
    exact hsize.symm

/-! ## Two runs -/

/-- A file that is open for reading and writing is opened for reading, too. -/
theorem every_reference_is_right_shared : ∃ s,
    Run (BufferedFiles.step plainFlags twoBytes) (OpensAgree plainFlags twoBytes)
        (initial (oneFile "a" ⟨1, fun _ => 5⟩))
        [.OpenFile "a" ⟨3, .NO_LOCK⟩ true, .OpenFile "a" ⟨1, .NO_LOCK⟩ true] s
      ∧ s.refs.length = 2 ∧ ∀ r ∈ s.refs, ∃ f h, s.RefRight twoBytes r f h := by
  obtain ⟨s, hrun, hrefs⟩ : ∃ s,
      Run (BufferedFiles.step plainFlags twoBytes) (OpensAgree plainFlags twoBytes)
        (initial (oneFile "a" ⟨1, fun _ => 5⟩))
        [.OpenFile "a" ⟨3, .NO_LOCK⟩ true, .OpenFile "a" ⟨1, .NO_LOCK⟩ true] s
        ∧ s.refs.length = 2 := by
    refine ⟨_, .snoc (.snoc .nil (fun f hf => by cases hf) rfl) (fun f hf => ?_) rfl, rfl⟩
    obtain rfl := Option.some.inj hf
    exact ⟨by decide, fun _ _ _ => rfl⟩
  exact ⟨s, hrun, hrefs, every_reference_is_right hrun⟩

/-- A file that is open for reading is opened for writing, and cannot be written. -/
theorem reopened_cannot_write : ∃ s s',
    Run (BufferedFiles.step plainFlags twoBytes) (fun _ _ => True)
        (initial (oneFile "a" ⟨1, fun _ => 5⟩))
        [.OpenFile "a" ⟨1, .NO_LOCK⟩ true, .OpenFile "a" ⟨2, .NO_LOCK⟩ true] s
      ∧ s.reply plainFlags twoBytes (.call 1 (.append [7]))
        = some (s', .answer (.thrown "file is not opened in write mode"))
      ∧ ¬ ∀ r ∈ s.refs, ∃ f h, s.RefRight twoBytes r f h := by
  refine ⟨_, _, .snoc (.snoc .nil trivial rfl) trivial rfl, rfl, fun hright => ?_⟩
  obtain ⟨f, h, hr⟩ := hright ⟨"a", ⟨2, .NO_LOCK⟩, 0⟩ (List.mem_cons_of_mem _ List.mem_cons_self)
  obtain rfl := Option.some.inj hr.file
  obtain ⟨-, -, happend⟩ := hr.writes rfl
  obtain ⟨file, happend⟩ := happend [7]
  cases happend

end BufferedFileSystem

end Haybarn.Io.BufferedFiles
