import Haybarn.Io.BufferedContents

/-!
# Runs of the buffered file system

In a run in which calls find what they rely on, nothing that is buffered is moved or removed, and
no `good` file is emptied by being reopened (`Undisturbed`), the files stay at their paths and
their users are counted (`Inv`). What a call does to the contents of its path is what it does to
its bytes (`call_written`).
-/

namespace Haybarn.Io.BufferedFiles

open Haybarn.Lib Haybarn.Io.PagedFile

/-- Releasing, dropping, flushing and evicting. -/
def Event.releases : Event → Bool
  | .Close _ | .TryDropFile _ | .FlushFile _ | .evict .. => true
  | _ => false

namespace BufferedFileSystem

variable {fs : Underneath} {cfg : Config} {good : FileOpenFlags → Prop}
variable {s s' : BufferedFileSystem} {p q : String} {f : BufferedFile}

/-! ## Users -/

theorem users_modifyFile (k : BufferedFile → BufferedFile) (q : String) :
    (s.modifyFile p k).users q
      = if q = p then ((s.files p).map fun f => (k f).num_users).getD 0 else s.users q := by
  unfold users
  by_cases hq : q = p
  · rw [if_pos hq, hq, modifyFile_files, Option.map_map]
    rfl
  · have hsame : (s.modifyFile p k).files q = s.files q := Function.update_of_ne hq ..
    rw [if_neg hq, hsame]

theorem users_acquire (hf : s.files p = some f) (q : String) :
    (s.acquire p).users q = if q = p then s.users p + 1 else s.users q := by
  unfold acquire
  rw [users_modifyFile]
  unfold users
  rw [hf]
  rfl

theorem users_onFile (k : File → File) (q : String) : (s.onFile p k).users q = s.users q := by
  unfold onFile
  split
  · rfl
  · next f hf =>
    split
    · rfl
    · next h _ =>
      unfold users
      by_cases hq : q = p
      · rw [hq, store_files, hf]
        rfl
      · have hsame : (s.store p f h (k (f.file (s.disk.inodes h.inode)))).files q = s.files q :=
          Function.update_of_ne hq ..
        rw [hsame]

/-- A file that is forgotten has had one user at most. -/
theorem users_release (keep_dangling : Bool) (q : String) :
    (s.Release cfg p keep_dangling).users q = if q = p then s.users p - 1 else s.users q := by
  unfold Release
  split
  · next hnone =>
    by_cases hq : q = p
    · rw [if_pos hq, hq]
      unfold users
      rw [hnone]
      rfl
    · rw [if_neg hq]
  · next f hf =>
    split
    · rw [users_modifyFile]
      unfold users
      rw [hf]
      rfl
    · next hlast =>
      by_cases hq : q = p
      · have hone : f.num_users ≤ 1 := by
          by_contra hmore
          refine hlast ?_
          rw [decide_eq_true (Nat.lt_of_not_le hmore), Bool.true_or]
        have hnone : (s.forget cfg p).files p = none := Function.update_self ..
        rw [if_pos hq, hq]
        unfold users
        rw [hnone, hf]
        show 0 = f.num_users - 1
        omega
      · have hsame : (s.forget cfg p).users q
            = (s.onFile p fun file => file.makeRoom cfg file.pages).users q := by
          unfold users forget
          dsimp only
          rw [Function.update_of_ne hq]
        rw [if_neg hq, hsame, users_onFile]

/-- A reference has its file. -/
theorem Counted.buffered (hc : s.Counted) {r : FileRef} (hr : r ∈ s.refs) :
    ∃ f, s.files r.path = some f := by
  cases hf : s.files r.path with
  | some f => exact ⟨f, rfl⟩
  | none =>
    have hcount := hc r.path
    have hpos : 0 < s.refs.countP fun r' => decide (r'.path = r.path) :=
      List.countP_pos_iff.mpr ⟨r, hr, decide_eq_true rfl⟩
    have husers : s.users r.path = 0 := by
      unfold users
      rw [hf]
      rfl
    omega

theorem refs_onFile (k : File → File) : (s.onFile p k).refs = s.refs := by
  unfold onFile
  split
  · rfl
  · split <;> rfl

theorem refs_release (keep_dangling : Bool) : (s.Release cfg p keep_dangling).refs = s.refs := by
  unfold Release
  split
  · rfl
  · split
    · rfl
    · exact refs_onFile _

/-- The users of the other files are the same, and there is a new one here. -/
theorem counted_newRef (hc : s.Counted) (hf : s.files p = some f) (flags : FileOpenFlags) :
    (s.newRef p flags).1.Counted := by
  intro q
  have hnow : (s.newRef p flags).1.users q = if q = p then s.users p + 1 else s.users q :=
    users_acquire hf q
  have hcount := hc q
  show (s.refs ++ [_]).countP _ = _
  rw [hnow, List.countP_append, hcount]
  by_cases hq : q = p
  · rw [if_pos hq, hq]
    simp
  · rw [if_neg hq]
    simp [Ne.symm hq]

/-- A file that is acquired and released has the users that it had. -/
theorem counted_between (hc : s.Counted) (hf : s.files p = some f) {t : BufferedFileSystem}
    (hrefs : t.refs = s.refs) (husers : ∀ q, t.users q = (s.acquire p).users q)
    (keep_dangling : Bool) : (t.Release cfg p keep_dangling).Counted := by
  intro q
  rw [refs_release, hrefs, hc q, users_release, husers, husers]
  by_cases hq : q = p
  · rw [if_pos hq, users_acquire hf, if_pos rfl, hq, Nat.add_sub_cancel]
  · rw [if_neg hq, users_acquire hf, if_neg hq]

theorem counted_close (hc : s.Counted) {i : Nat} {r : FileRef} (hr : s.refs[i]? = some r) :
    Counted { s.Release cfg r.path true with refs := s.refs.eraseIdx i } := by
  obtain ⟨hi, hget⟩ := List.getElem?_eq_some_iff.mp hr
  intro q
  have hnow := @users_release cfg s r.path true q
  have hcount := hc q
  have hperm := (List.getElem_cons_eraseIdx_perm hi).countP_eq fun r => decide (r.path = q)
  rw [hget, List.countP_cons] at hperm
  show (s.refs.eraseIdx i).countP _ = (s.Release cfg r.path true).users q
  rw [hnow]
  by_cases hq : q = r.path
  · rw [if_pos hq, ← hq]
    rw [if_pos (decide_eq_true hq.symm)] at hperm
    omega
  · rw [if_neg hq]
    rw [if_neg fun h => hq (of_decide_eq_true h).symm] at hperm
    omega

/-! ## Calls -/

/-- What a call is to make of the contents of its path. -/
def after (cfg : Config) (s : BufferedFileSystem) (f : BufferedFile) (r : FileRef) (c : Call)
    (answer : Answer) : Contents :=
  let A := (Handle.plain cfg ⟨s.fileOf f, r.position⟩ c).after
    (Handle.placed ⟨s.fileOf f, r.position⟩ c).2 answer
  ⟨A.size, A.bytes⟩

theorem call_some {i : Nat} {c : Call} {reply : Reply}
    (hcall : s.call cfg i c = some (s', reply)) :
    ∃ r f h h' answer, s.refs[i]? = some r ∧ s.files r.path = some f ∧ f.handle = some h
      ∧ Handle.step cfg ⟨f.file (s.disk.inodes h.inode), r.position⟩ c = some (h', answer)
      ∧ s' = { s.store r.path f h h'.file with
          refs := s.refs.set i { r with position := h'.filePosition } }
      ∧ reply = .answer answer := by
  unfold call at hcall
  obtain ⟨r, hr, hcall⟩ := Option.bind_eq_some_iff.mp hcall
  obtain ⟨f, hf, hcall⟩ := Option.bind_eq_some_iff.mp hcall
  obtain ⟨h, hh, hcall⟩ := Option.bind_eq_some_iff.mp hcall
  obtain ⟨⟨h', answer⟩, hstep, hcall⟩ := Option.bind_eq_some_iff.mp hcall
  cases hcall
  exact ⟨r, f, h, h', answer, hr, hf, hh, hstep, rfl, rfl⟩

theorem counted_call (hc : s.Counted) {i : Nat} {r : FileRef} {h : FileHandle} {file : File}
    {position : Nat} (hr : s.refs[i]? = some r) (hf : s.files r.path = some f) :
    Counted { s.store r.path f h file with refs := s.refs.set i { r with position } } := by
  obtain ⟨hi, hget⟩ := List.getElem?_eq_some_iff.mp hr
  intro q
  have husers : (s.store r.path f h file).users q = s.users q := by
    unfold users
    by_cases hq : q = r.path
    · rw [hq, store_files, hf]
      rfl
    · have hsame : (s.store r.path f h file).files q = s.files q := Function.update_of_ne hq ..
      rw [hsame]
  show (s.refs.set i { r with position }).countP _ = (s.store r.path f h file).users q
  rw [husers, ← hc q, List.countP_set hi, hget]
  have hmem : r ∈ s.refs := List.mem_of_getElem? hr
  by_cases hq : r.path = q
  · have hpos : 0 < s.refs.countP fun r => decide (r.path = q) :=
      List.countP_pos_iff.mpr ⟨r, hmem, decide_eq_true hq⟩
    simp only [hq, decide_true, if_true]
    omega
  · simp [hq]

/-- **A call that finds what it relies on does to the contents of its path what it does to its
bytes**, where it goes. -/
theorem call_written {i : Nat} {c : Call} {reply : Reply} {r : FileRef}
    (hr : s.refs[i]? = some r) (hf : s.files r.path = some f) (hc : (s.fileOf f).Coherent cfg)
    (hkeeps : Handle.Keeps cfg ⟨s.fileOf f, r.position⟩ c)
    (hcall : s.call cfg i c = some (s', reply)) :
    ∃ answer, reply = .answer answer ∧ SameContents (s'.contents cfg r.path)
      (some (s.after cfg f r c answer)) := by
  obtain ⟨r₀, f₀, h, h', answer, hr₀, hf₀, hh, hstep, rfl, rfl⟩ := call_some hcall
  obtain rfl := Option.some.inj (hr.symm.trans hr₀)
  obtain rfl := Option.some.inj (hf.symm.trans hf₀)
  rw [← fileOf_eq hh] at hstep
  obtain ⟨_, hshows⟩ := Handle.keeps_shows hc hkeeps hstep
  refine ⟨answer, rfl, ?_⟩
  have hnow : BufferedFileSystem.contents cfg { s.store r.path f h h'.file with
      refs := s.refs.set i { r with position := h'.filePosition } } r.path
      = some ⟨h'.file.fileSize, h'.file.view cfg⟩ := contents_store hh h'.file
  rw [hnow]
  exact ⟨hshows.size, fun j hj => hshows.bytes j (hshows.size ▸ hj)⟩

/-- A call leaves its file at its path. -/
theorem call_touches (hat : ∀ p f, s.files p = some f → s.At cfg good p f) {i : Nat} {c : Call}
    {reply : Reply} {r : FileRef} (hr : s.refs[i]? = some r)
    (hkeeps : ∀ f, s.files r.path = some f → good f.file_flags →
      Handle.Keeps cfg ⟨s.fileOf f, r.position⟩ c)
    (hcall : s.call cfg i c = some (s', reply)) : s.Touches cfg good s' r.path := by
  obtain ⟨r₀, f, h, h', answer, hr₀, hf, hh, hstep, rfl, -⟩ := call_some hcall
  obtain rfl := Option.some.inj (hr.symm.trans hr₀)
  have hfile := hat r.path f hf
  have hname : s.disk.names r.path = some h.inode := by
    obtain ⟨h₀, hh₀, hname⟩ := hfile.linked
    obtain rfl := Option.some.inj (hh.symm.trans hh₀)
    exact hname
  have hlocal := @store_local s r.path f h hname h'.file
  refine ⟨⟨hlocal.files, hlocal.names, hlocal.inodes⟩, fun f' hf' => ?_⟩
  have hf' : (s.store r.path f h h'.file).files r.path = some f' := hf'
  rw [store_files] at hf'
  obtain rfl := Option.some.inj hf'
  have hat' : (s.store r.path f h h'.file).At cfg good r.path (f.update h'.file) := by
    refine store_at hh hname fun hgood => ?_
    rw [← fileOf_eq hh] at hstep
    obtain ⟨_, hshows⟩ :=
      Handle.keeps_shows (hfile.coherent hgood) (hkeeps f hf hgood) hstep
    exact hshows.coherent
  exact ⟨hat'.linked, hat'.coherent⟩

/-! ## Steps -/

/-- A call finds what it relies on, nothing that is buffered is moved or removed, and reopening
does not empty a file that is looked at. -/
def Undisturbed (fs : Underneath) (cfg : Config) (good : FileOpenFlags → Prop)
    (s : BufferedFileSystem) : Event → Prop
  | .OpenFile raw_path flags _ => ∀ f, s.files (PatchFilename raw_path) = some f →
    BufferedFile.sharing f (PatchFilename raw_path) flags = .reopened →
    fs.truncates flags = true → ¬ good f.file_flags
  | .call i c => ∀ r, s.refs[i]? = some r → ∀ f, s.files r.path = some f → good f.file_flags →
    Handle.Keeps cfg ⟨s.fileOf f, r.position⟩ c
  | .MoveFile raw_source raw_target =>
    s.files (PatchFilename raw_source) = none ∧ s.files (PatchFilename raw_target) = none
  | .RemoveFile raw_filename => s.files (PatchFilename raw_filename) = none
  | _ => True

/-- Opening a file that is buffered changes nothing in it. -/
theorem open_buffered (hat : ∀ f, s.files p = some f → s.At cfg good p f) (hf : s.files p = some f)
    {flags : FileOpenFlags} {idLeft : Bool}
    (hok : BufferedFile.sharing f p flags = .reopened → fs.truncates flags = true →
      ¬ good f.file_flags) :
    s.Quiet cfg good (s.OpenFile fs cfg p flags idLeft).1 p := by
  unfold OpenFile
  rw [hf]
  dsimp only
  split
  · exact .refl hat
  · next hreopened => exact quiet_reopen hat hf (hok hreopened)
  · exact quiet_newRef hat flags

theorem open_counted (hs : s.Inv cfg good) (flags : FileOpenFlags) (idLeft : Bool) :
    (s.OpenFile fs cfg p flags idLeft).1.Counted := by
  unfold OpenFile
  split
  · next f hf =>
    split
    · exact hs.counted
    · -- the file is there, so that it is opened again
      obtain ⟨h, -, hname⟩ := (hs.buffered p f hf).linked
      obtain ⟨disk, handle, hopen⟩ : ∃ disk handle,
          s.disk.OpenFile fs p flags = (disk, .ok handle) := by
        unfold Disk.OpenFile
        rw [hname]
        exact ⟨_, _, rfl⟩
      unfold ReOpen
      rw [hopen]
      refine counted_newRef (f := { f with handle }) (fun q => ?_) ?_ flags
      · rw [users_modifyFile]
        refine (hs.counted q).trans ?_
        by_cases hq : q = p
        · rw [if_pos hq, hq]
          rfl
        · rw [if_neg hq]
          rfl
      · rw [modifyFile_files]
        show (s.files p).map _ = _
        rw [hf]
        rfl
    · exact counted_newRef hs.counted hf flags
  · next hnone =>
    split
    · exact hs.counted
    · exact hs.counted
    · next disk h _ =>
      split
      · refine counted_newRef (fun q => ?_) (Function.update_self ..) flags
        refine (hs.counted q).trans ?_
        unfold users buffer
        dsimp only
        by_cases hq : q = p
        · rw [hq, hnone, Function.update_self]
          rfl
        · rw [Function.update_of_ne hq]
      · exact hs.counted

theorem Quiet.with_refs (h : s.Quiet cfg good s' p) (refs : List FileRef) :
    s.Quiet cfg good { s' with refs } p :=
  ⟨⟨⟨h.elsewhere.files, h.elsewhere.names, h.elsewhere.inodes⟩,
    fun f hf => ⟨(h.buffered f hf).linked, (h.buffered f hf).coherent⟩⟩, h.keeps, h.flags⟩

/-- Releasing, dropping and flushing files and evicting pages change no contents. -/
theorem step_quiet (hs : s.Inv cfg good) {e : Event} (he : e.releases = true)
    (hstep : step fs cfg s e = some s') : ∃ p, s.Quiet cfg good s' p ∧ s'.Counted := by
  obtain ⟨r, hreply, rfl⟩ := Option.map_eq_some_iff.mp hstep
  cases e with
  | OpenFile | call | MoveFile | RemoveFile => cases he
  | Close i =>
    obtain ⟨r, hr, hreply⟩ := Option.bind_eq_some_iff.mp hreply
    cases hreply
    exact ⟨r.path, (quiet_release (hs.buffered r.path) true).with_refs _,
      counted_close hs.counted hr⟩
  | TryDropFile file =>
    obtain rfl := Option.some.inj hreply
    refine ⟨PatchFilename file, ?_⟩
    unfold TryDropFile
    generalize PatchFilename file = p
    split
    · exact ⟨.refl (hs.buffered p), hs.counted⟩
    · next f hf =>
      split
      · exact ⟨.refl (hs.buffered p), hs.counted⟩
      · have hacquire := quiet_acquire (hs.buffered p)
        exact ⟨hacquire.trans (quiet_release hacquire.buffered false),
          @counted_between cfg s p f hs.counted hf (s.acquire p) rfl (fun _ => rfl) false⟩
  | FlushFile p =>
    obtain rfl := Option.some.inj hreply
    refine ⟨p, ?_⟩
    unfold FlushFile
    split
    · exact ⟨.refl (hs.buffered p), hs.counted⟩
    · next f hf =>
      have hacquire := quiet_acquire (hs.buffered p)
      have hflush := quiet_onFile hacquire.buffered (k := fun file => file.flush cfg)
        fun file hc => File.SameBytes.flush hc
      have hcounted := @counted_between cfg s p f hs.counted hf
        ((s.acquire p).onFile p fun file => file.flush cfg) (refs_onFile _)
        (fun q => users_onFile _ q) true
      exact ⟨(hacquire.trans hflush).trans (quiet_release hflush.buffered true), hcounted⟩
  | evict p page =>
    cases hreply
    refine ⟨p, quiet_onFile (hs.buffered p) fun file hc => File.SameBytes.evict hc page, ?_⟩
    intro q
    dsimp only
    rw [users_onFile, refs_onFile]
    exact hs.counted q

/-- The names of other files have changed. -/
theorem Inv.renamed (hs : s.Inv cfg good) {disk : Disk} (hinodes : disk.inodes = s.disk.inodes)
    (hnames : ∀ p f, s.files p = some f → disk.names p = s.disk.names p) :
    Inv cfg good { s with disk } := by
  refine ⟨fun p f hf => ?_, hs.counted⟩
  have hat := hs.buffered p f hf
  obtain ⟨h, hh, hname⟩ := hat.linked
  refine ⟨⟨h, hh, (hnames p f hf).trans hname⟩, fun hgood => ?_⟩
  have hfile : fileOf { s with disk } f = s.fileOf f := by
    unfold fileOf
    rw [hh]
    dsimp only
    rw [hinodes]
  rw [hfile]
  exact hat.coherent hgood

theorem moveFile_inodes (d : Disk) (source target : String) :
    (d.MoveFile source target).inodes = d.inodes := by
  unfold Disk.MoveFile
  split <;> rfl

theorem moveFile_name (d : Disk) (source target p : String) :
    (d.MoveFile source target).names p
      = match d.names source with
        | some i => if p = target then some i else if p = source then none else d.names p
        | none => d.names p := by
  unfold Disk.MoveFile
  split
  · next hnone => rw [hnone]
  · next i hi =>
    show Function.update (Function.update d.names source none) target (some i) p = _
    rw [hi]
    dsimp only
    by_cases hpt : p = target
    · rw [if_pos hpt, hpt, Function.update_self]
    · rw [if_neg hpt, Function.update_of_ne hpt]
      by_cases hps : p = source
      · rw [if_pos hps, hps, Function.update_self]
      · rw [if_neg hps, Function.update_of_ne hps]

theorem moveFile_names {d : Disk} {source target : String} (hs : q ≠ source) (ht : q ≠ target) :
    (d.MoveFile source target).names q = d.names q := by
  rw [moveFile_name]
  split
  · rw [if_neg ht, if_neg hs]
  · rfl

/-- **Every step that is undisturbed leaves the files at their paths.** -/
theorem Inv.step (hs : s.Inv cfg good) {e : Event} (hok : s.Undisturbed fs cfg good e)
    (hstep : BufferedFiles.step fs cfg s e = some s') :
    s'.Inv cfg good := by
  by_cases he : e.releases = true
  · obtain ⟨p, hquiet, hcounted⟩ := step_quiet hs he hstep
    exact ⟨hquiet.elsewhere.buffered hs.buffered hquiet.buffered, hcounted⟩
  obtain ⟨r, hreply, rfl⟩ := Option.map_eq_some_iff.mp hstep
  cases e with
  | Close | TryDropFile | FlushFile | evict => exact absurd rfl he
  | OpenFile raw_path flags idLeft =>
    obtain rfl := Option.some.inj hreply
    have hok : ∀ f, s.files (PatchFilename raw_path) = some f → _ := hok
    generalize PatchFilename raw_path = p at *
    have htouch : s.Touches cfg good (s.OpenFile fs cfg p flags idLeft).1 p := by
      cases hf : s.files p with
      | none => exact (open_unbuffered hf flags idLeft).1
      | some f => exact (open_buffered (hs.buffered p) hf (hok f hf)).toTouches
    exact ⟨htouch.elsewhere.buffered hs.buffered htouch.buffered, open_counted hs flags idLeft⟩
  | call i c =>
    obtain ⟨s', reply⟩ := r
    have hcall : s.call cfg i c = some (s', reply) := hreply
    obtain ⟨r, f, h, h', answer, hr, hf, -, -, rfl, -⟩ := call_some hcall
    have htouch := call_touches hs.buffered hr (hok r hr) hcall
    exact ⟨htouch.elsewhere.buffered hs.buffered htouch.buffered, counted_call hs.counted hr hf⟩
  | MoveFile raw_source raw_target =>
    cases hreply
    refine hs.renamed (moveFile_inodes ..) fun p f hf => moveFile_names ?_ ?_
    · rintro rfl
      rw [hok.1] at hf
      cases hf
    · rintro rfl
      rw [hok.2] at hf
      cases hf
  | RemoveFile raw_filename =>
    cases hreply
    refine hs.renamed rfl fun p f hf => Function.update_of_ne ?_ ..
    rintro rfl
    have hok : s.files (PatchFilename raw_filename) = none := hok
    rw [hok] at hf
    cases hf

theorem initial_inv (disk : Disk) : (initial disk).Inv cfg good :=
  ⟨nofun, fun _ => rfl⟩

theorem Inv.run {disk : Disk} {es : List Event}
    (hrun : Run (BufferedFiles.step fs cfg) (Undisturbed fs cfg good) (initial disk) es s) :
    s.Inv cfg good :=
  hrun.invariant (initial_inv disk) fun _ _ _ hs hok hstep => hs.step hok hstep

end BufferedFileSystem

end Haybarn.Io.BufferedFiles
