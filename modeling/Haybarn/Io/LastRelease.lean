import Haybarn.Io.BufferedInv

/-!
# Releasing the last reference

A file that may be written to is forgotten with its last reference, or kept without users if it may
be read, too; its frames may be dirty in either case. **Nothing that was written is lost**
(`last_release_loses_nothing`): a path contains after each step what it contained, or what a call
on it makes of that, and a file that is forgotten leaves its contents on the disk.

A write relies on more than its flags: one that passes the end of the file within a page puts bytes
into the page buffer that are flushed never (`written_byte_is_lost`).
-/

namespace Haybarn.Io.BufferedFiles

open Haybarn.Lib Haybarn.Io.PagedFile

namespace BufferedFileSystem

/-- Calls on files that may be written to find what they rely on, and nothing that is buffered is
moved or removed. -/
def WritesKept (cfg : Config) (s : BufferedFileSystem) : Event → Prop
  | .call i c => ∀ r, s.refs[i]? = some r → ∀ f, s.files r.path = some f →
    f.file_flags.OpenForWriting = true → Handle.Keeps cfg ⟨s.fileOf f, r.position⟩ c
  | .MoveFile raw_source raw_target =>
    s.files (PatchFilename raw_source) = none ∧ s.files (PatchFilename raw_target) = none
  | .RemoveFile raw_filename => s.files (PatchFilename raw_filename) = none
  | _ => True

/-- The event is a call on this path. -/
def CallsOn (s : BufferedFileSystem) (p : String) (e : Event) : Prop :=
  ∃ i c r, e = .call i c ∧ s.refs[i]? = some r ∧ r.path = p

/-- What a step is to do to a file that may be written to. -/
structure LosesNothing (cfg : Config) (s : BufferedFileSystem) (e : Event) (reply : Reply)
    (s' : BufferedFileSystem) (p : String) : Prop where
  /-- The path contains what it contained, -/
  kept : ¬ s.CallsOn p e → SameContents (s.contents cfg p) (s'.contents cfg p)
  /-- or what a call makes of it; -/
  written : ∀ i c r f, e = .call i c → s.refs[i]? = some r → r.path = p → s.files p = some f →
    ∃ answer, reply = .answer answer
      ∧ SameContents (s'.contents cfg p) (some (s.after cfg f r c answer))
  /-- and if the file is forgotten, it is what the disk has. -/
  forgotten : s'.files p = none → ∃ i, s'.disk.names p = some i
    ∧ SameContents (s.contents cfg p) (some (s'.disk.inodes i))

variable {fs : Underneath} {cfg : Config} {s s' : BufferedFileSystem} {p : String}
variable {f : BufferedFile} {good : FileOpenFlags → Prop}

/-- A file that is reopened could not be written to. -/
theorem not_writable_of_reopened {flags : FileOpenFlags}
    (h : BufferedFile.sharing f p flags = .reopened) : f.file_flags.OpenForWriting = false := by
  unfold BufferedFile.sharing at h
  cases hw : f.file_flags.OpenForWriting with
  | false => rfl
  | true =>
    rw [hw] at h
    split at h
    · cases h
    · split at h
      · cases h
      · split at h
        · rw [if_neg (by decide)] at h
          split at h <;> cases h
        · cases h

theorem WritesKept.undisturbed {e : Event} (hok : s.WritesKept cfg e) :
    s.Undisturbed fs cfg (fun flags => flags.OpenForWriting = true) e := by
  cases e with
  | OpenFile raw_path flags idLeft =>
    intro f _ hreopened _ hw
    rw [not_writable_of_reopened hreopened] at hw
    cases hw
  | _ => exact hok

/-- A step that is no call keeps what is buffered. -/
theorem Inv.kept (hs : s.Inv cfg good) {e : Event} (hok : s.Undisturbed fs cfg good e)
    (hstep : BufferedFiles.step fs cfg s e = some s') (hcall : ¬ s.CallsOn p e)
    (hf : s.files p = some f) (hgood : good f.file_flags) :
    SameContents (s.contents cfg p) (s'.contents cfg p) := by
  have hpath : ∀ f', s.files p = some f' → good f'.file_flags := by
    intro f' hf'
    obtain rfl := Option.some.inj (hf.symm.trans hf')
    exact hgood
  by_cases he : e.releases = true
  · obtain ⟨q, hquiet, -⟩ := step_quiet hs he hstep
    exact hquiet.keepsAll hs.buffered p hpath
  obtain ⟨r, hreply, rfl⟩ := Option.map_eq_some_iff.mp hstep
  have hmoved : ∀ disk : Disk, disk.inodes = s.disk.inodes →
      SameContents (s.contents cfg p) (BufferedFileSystem.contents cfg { s with disk } p) := by
    intro disk hinodes
    obtain ⟨h, hh, -⟩ := (hs.buffered p f hf).linked
    refine .of_eq ?_
    unfold contents fileOf
    dsimp only
    rw [hf]
    dsimp only
    rw [hh, hinodes]
  cases e with
  | Close | TryDropFile | FlushFile | evict => exact absurd rfl he
  | OpenFile raw_path flags idLeft =>
    obtain rfl := Option.some.inj hreply
    have hok : ∀ f, s.files (PatchFilename raw_path) = some f → _ := hok
    generalize PatchFilename raw_path = q at *
    cases hq : s.files q with
    | none =>
      have hne : p ≠ q := by
        rintro rfl
        rw [hq] at hf
        cases hf
      have htouch := (@open_unbuffered fs cfg good s q hq flags idLeft).1
      exact .of_eq (htouch.elsewhere.contents hne (hs.buffered p)).symm
    | some g => exact (open_buffered (hs.buffered q) hq (hok g hq)).keepsAll hs.buffered p hpath
  | call i c =>
    obtain ⟨s', reply⟩ := r
    obtain ⟨r, _, _, _, _, hr, -⟩ := call_some hreply
    have hne : p ≠ r.path := fun h => hcall ⟨i, c, r, rfl, hr, h.symm⟩
    have htouch := call_touches hs.buffered hr (hok r hr) hreply
    exact .of_eq (htouch.elsewhere.contents hne (hs.buffered p)).symm
  | MoveFile raw_source raw_target =>
    obtain rfl := Option.some.inj hreply
    exact hmoved _ (moveFile_inodes ..)
  | RemoveFile raw_filename =>
    obtain rfl := Option.some.inj hreply
    exact hmoved _ rfl

/-- **In every run whose calls find what they rely on, no step loses anything that was written to a
file that may be written to**: not a release, not an eviction, not another open. -/
theorem last_release_loses_nothing {disk : Disk} {es : List Event}
    (hrun : Run (step fs cfg) (WritesKept cfg) (initial disk) es s)
    {e : Event} (hok : s.WritesKept cfg e) {reply : Reply}
    (hreply : s.reply fs cfg e = some (s', reply))
    (hf : s.files p = some f) (hw : f.file_flags.OpenForWriting = true) :
    s.LosesNothing cfg e reply s' p := by
  have hs := Inv.run (hrun.mono fun s e hok => @WritesKept.undisturbed fs cfg s e hok)
  have hok := @WritesKept.undisturbed fs cfg s e hok
  have hstep : step fs cfg s e = some s' := by
    unfold step
    rw [hreply]
    rfl
  have hkept : ¬ s.CallsOn p e → SameContents (s.contents cfg p) (s'.contents cfg p) :=
    fun hcall => hs.kept hok hstep hcall hf hw
  refine ⟨hkept, ?_, fun hgone => ?_⟩
  · rintro i c r g rfl hr rfl hg
    obtain rfl := Option.some.inj (hf.symm.trans hg)
    exact call_written hr hf ((hs.buffered _ f hf).coherent hw) (hok r hr f hf hw) hreply
  · have hcall : ¬ s.CallsOn p e := by
      rintro ⟨i, c, r, rfl, hr, rfl⟩
      obtain ⟨r', f', h, h', answer, hr', -, -, -, rfl, -⟩ := call_some hreply
      obtain rfl := Option.some.inj (hr.symm.trans hr')
      have hthere : (s.store r.path f' h h'.file).files r.path = none := hgone
      rw [store_files] at hthere
      cases hthere
    have hsame := hkept hcall
    have hdisk : s'.contents cfg p = (s'.disk.names p).map s'.disk.inodes := by
      unfold contents
      rw [hgone]
    rw [hdisk] at hsame
    cases hname : s'.disk.names p with
    | some i =>
      rw [hname] at hsame
      exact ⟨i, rfl, hsame⟩
    | none =>
      rw [hname] at hsame
      have hsome : s.contents cfg p = some ⟨f.file_size, (s.fileOf f).view cfg⟩ := by
        unfold contents
        rw [hf]
      rw [hsome] at hsame
      exact hsame.elim

/-! ## Two runs -/

/-- A file of one byte that is open for writing and appending, and then written at its start. -/
def written (bytes : List UInt8) : List Event :=
  [.OpenFile "a" ⟨34, .NO_LOCK⟩ true, .call 0 (.writeExactly bytes 0 fun _ => ⟨[], fun _ => 0⟩)]

/-- Its one page is dirty when it is closed. -/
theorem last_release_loses_nothing_written : ∃ s s',
    Run (step plainFlags twoBytes) (WritesKept twoBytes) (initial (oneFile "a" ⟨1, fun _ => 5⟩))
        (written [7]) s
      ∧ s.reply plainFlags twoBytes (.Close 0) = some (s', .done) ∧ s'.files "a" = none
      ∧ s.LosesNothing twoBytes (.Close 0) .done s' "a" := by
  obtain ⟨s, hrun, hclose⟩ : ∃ s, Run (step plainFlags twoBytes) (WritesKept twoBytes)
      (initial (oneFile "a" ⟨1, fun _ => 5⟩)) (written [7]) s
        ∧ ∃ s' f, s.reply plainFlags twoBytes (.Close 0) = some (s', .done) ∧ s'.files "a" = none
          ∧ s.files "a" = some f ∧ f.file_flags.OpenForWriting = true := by
    refine ⟨_, .snoc (.snoc .nil trivial rfl) (fun r hr f hf _ => ?_) rfl, _, _, rfl, rfl, rfl, rfl⟩
    obtain rfl := Option.some.inj hr
    obtain rfl := Option.some.inj hf
    exact fun _ => .inr ⟨by decide, .inl (by decide)⟩
  obtain ⟨s', f, hreply, hgone, hf, hw⟩ := hclose
  exact ⟨s, s', hrun, hreply, hgone,
    last_release_loses_nothing (e := .Close 0) hrun trivial hreply hf hw⟩

/-- Two bytes are written to it, and one of them is on the disk. -/
theorem written_byte_is_lost : ∃ s₁ s₂ s₃,
    Run (step plainFlags twoBytes) (fun _ _ => True) (initial (oneFile "a" ⟨1, fun _ => 5⟩))
        [.OpenFile "a" ⟨34, .NO_LOCK⟩ true] s₁
      ∧ s₁.reply plainFlags twoBytes (.call 0 (.writeExactly [7, 8] 0 fun _ => ⟨[], fun _ => 0⟩))
        = some (s₂, .answer .done)
      ∧ s₂.reply plainFlags twoBytes (.Close 0) = some (s₃, .done)
      ∧ s₃.files "a" = none
      ∧ (s₃.contents twoBytes "a").map Contents.size = some 1
      ∧ ¬ s₁.LosesNothing twoBytes (.call 0 (.writeExactly [7, 8] 0 fun _ => ⟨[], fun _ => 0⟩))
        (.answer .done) s₂ "a" := by
  refine ⟨_, _, _, .snoc .nil trivial rfl, rfl, rfl, rfl, rfl, fun hkept => ?_⟩
  obtain ⟨answer, hanswer, hsame⟩ := hkept.written 0 _ _ _ rfl rfl rfl rfl
  cases hanswer
  have hsize : 1 = 2 := hsame.1
  exact absurd hsize (by decide)

end BufferedFileSystem

end Haybarn.Io.BufferedFiles
