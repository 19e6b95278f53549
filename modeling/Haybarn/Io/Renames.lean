import Haybarn.Io.BufferedInv

/-!
# Renames and removals

`MoveFile` and `RemoveFile` of the buffered file system go straight to the filesystem underneath
("XXX Invalidate buffer manager!"), and the page buffer keeps what it has under a path. **As long as
neither path of a move and no path that is removed is buffered, the paths contain what they would
without a page buffer** (`paths_are_plain`): each event does to them what `Does` says, and every
file that is buffered is the one that its path is the name of.

A file that was closed may be buffered still, and is then found instead of the one that has been
moved to its path (`moved_file_is_hidden`).
-/

namespace Haybarn.Io.BufferedFiles

open Haybarn.Lib Haybarn.Io.PagedFile

/-- What the paths contain after a move. -/
def moved (source target : String) (m : String → Option Contents) (p : String) :
    Option Contents :=
  match m source with
  | some c => if p = target then some c else if p = source then none else m p
  | none => m p

namespace BufferedFileSystem

/-- The bytes of a file, for a reference to it. -/
def plain (cfg : Config) (s : BufferedFileSystem) (f : BufferedFile) (r : FileRef) : Plain :=
  ⟨f.file_flags.OpenForWriting, f.file_size, (s.fileOf f).view cfg, r.position⟩

/-- What an event is to do to what the paths contain, and to answer. -/
def Does (fs : Underneath) (cfg : Config) (s : BufferedFileSystem) (reply : Reply)
    (m m' : String → Option Contents) : Event → Prop
  | .MoveFile raw_source raw_target => ∀ p,
    SameContents (m' p) (moved (PatchFilename raw_source) (PatchFilename raw_target) m p)
  | .RemoveFile raw_filename => ∀ p,
    SameContents (m' p) (if p = PatchFilename raw_filename then none else m p)
  | .OpenFile raw_path flags _ => ∀ p,
    -- a file that is buffered is shared as it is
    SameContents (m' p) (if p = PatchFilename raw_path ∧ s.files p = none
      then fs.opened flags (m p) else m p)
  | .call i c => ∃ r f answer, s.refs[i]? = some r ∧ s.files r.path = some f
    ∧ reply = .answer answer ∧ (s.plain cfg f r).Right answer c
    ∧ ∀ p, SameContents (m' p) (if p = r.path then
        some ⟨((s.plain cfg f r).after c answer).size, ((s.plain cfg f r).after c answer).bytes⟩
      else m p)
  | _ => ∀ p, SameContents (m' p) (m p)

/-- Calls fit, no file that is buffered is emptied by being reopened, and none is moved or
removed. -/
def Unbuffered (fs : Underneath) (cfg : Config) (s : BufferedFileSystem) : Event → Prop
  | .call i c => ∀ r, s.refs[i]? = some r → ∀ f, s.files r.path = some f →
    Handle.Fits cfg ⟨s.fileOf f, r.position⟩ c
  | e => s.Undisturbed fs cfg (fun _ => True) e

variable {fs : Underneath} {cfg : Config} {s s' : BufferedFileSystem} {p : String}
variable {f : BufferedFile}

theorem Unbuffered.undisturbed {e : Event} (hok : s.Unbuffered fs cfg e) :
    s.Undisturbed fs cfg (fun _ => True) e := by
  cases e with
  | call i c => exact fun r hr f hf _ => (hok r hr f hf).keeps
  | _ => exact hok

theorem contents_unbuffered (hf : s.files p = none) :
    s.contents cfg p = (s.disk.names p).map s.disk.inodes := by
  unfold contents
  rw [hf]

/-- What is buffered does not see that other names have changed. -/
theorem contents_renamed {disk : Disk} (hs : s.Inv cfg (fun _ => True))
    (hinodes : disk.inodes = s.disk.inodes) (hf : s.files p = some f) :
    BufferedFileSystem.contents cfg { s with disk } p = s.contents cfg p := by
  obtain ⟨h, hh, -⟩ := (hs.buffered p f hf).linked
  unfold contents fileOf
  dsimp only
  rw [hf]
  dsimp only
  rw [hh, hinodes]

theorem does_move (hs : s.Inv cfg (fun _ => True)) {source target : String}
    (hsource : s.files source = none) (htarget : s.files target = none) (p : String) :
    SameContents ((s.MoveFile source target).1.contents cfg p)
      (moved source target (s.contents cfg) p) := by
  refine .of_eq ?_
  unfold moved
  rw [contents_unbuffered hsource]
  cases hf : s.files p with
  | some f =>
    have hps : p ≠ source := by
      rintro rfl
      rw [hsource] at hf
      cases hf
    have hpt : p ≠ target := by
      rintro rfl
      rw [htarget] at hf
      cases hf
    have hsame := @contents_renamed cfg s p f (s.disk.MoveFile source target) hs
      (moveFile_inodes ..) hf
    refine hsame.trans ?_
    split
    · rw [if_neg hpt, if_neg hps]
    · rfl
  | none =>
    have hnow : (s.MoveFile source target).1.files p = none := hf
    rw [contents_unbuffered hnow, contents_unbuffered hf]
    show ((s.disk.MoveFile source target).names p).map (s.disk.MoveFile source target).inodes = _
    rw [moveFile_inodes, moveFile_name]
    cases s.disk.names source with
    | none => rfl
    | some i =>
      dsimp only [Option.map_some]
      split
      · rfl
      · split <;> rfl

theorem does_remove (hs : s.Inv cfg (fun _ => True)) {filename : String}
    (hnone : s.files filename = none) (p : String) :
    SameContents ((s.RemoveFile filename).1.contents cfg p)
      (if p = filename then none else s.contents cfg p) := by
  refine .of_eq ?_
  cases hf : s.files p with
  | some f =>
    have hp : p ≠ filename := by
      rintro rfl
      rw [hnone] at hf
      cases hf
    rw [if_neg hp]
    exact contents_renamed hs rfl hf
  | none =>
    have hnow : (s.RemoveFile filename).1.files p = none := hf
    rw [contents_unbuffered hnow, contents_unbuffered hf]
    show (Function.update s.disk.names filename none p).map s.disk.inodes = _
    by_cases hp : p = filename
    · rw [if_pos hp, hp, Function.update_self]
      rfl
    · rw [if_neg hp, Function.update_of_ne hp]

theorem does_open (hs : s.Inv cfg (fun _ => True)) {path : String} {flags : FileOpenFlags}
    {idLeft : Bool} (hok : ∀ f, s.files path = some f →
      BufferedFile.sharing f path flags = .reopened → fs.truncates flags = true → ¬ True)
    (p : String) :
    SameContents ((s.OpenFile fs cfg path flags idLeft).1.contents cfg p)
      (if p = path ∧ s.files p = none then fs.opened flags (s.contents cfg p)
        else s.contents cfg p) := by
  cases hf : s.files path with
  | some f =>
    have hquiet := @open_buffered fs cfg (fun _ => True) s path f (hs.buffered path) hf flags idLeft
      (hok f hf)
    have hkept : ¬ (p = path ∧ s.files p = none) := by
      rintro ⟨rfl, hnone⟩
      rw [hf] at hnone
      cases hnone
    rw [if_neg hkept]
    exact SameContents.symm (hquiet.keepsAll hs.buffered p fun _ _ => trivial)
  | none =>
    obtain ⟨htouch, hopened⟩ := @open_unbuffered fs cfg (fun _ => True) s path hf flags idLeft
    by_cases hp : p = path
    · rw [if_pos ⟨hp, hp ▸ hf⟩, hp]
      exact hopened
    · rw [if_neg fun h => hp h.1]
      exact .of_eq (htouch.elsewhere.contents hp (hs.buffered p))

/-- A call answers as it should, and does to the bytes of its path what it should. -/
theorem does_call (hs : s.Inv cfg (fun _ => True)) {i : Nat} {c : Call} {reply : Reply}
    (hok : s.Unbuffered fs cfg (.call i c)) (hcall : s.call cfg i c = some (s', reply)) :
    s.Does fs cfg reply (s.contents cfg) (s'.contents cfg) (.call i c) := by
  have htouch : ∀ r, s.refs[i]? = some r → s.Touches cfg (fun _ => True) s' r.path :=
    fun r hr => call_touches hs.buffered hr (fun f hf _ => (hok r hr f hf).keeps) hcall
  obtain ⟨r, f, h, h', answer, hr, hf, hh, hstep, rfl, rfl⟩ := call_some hcall
  have hc := (hs.buffered r.path f hf).coherent trivial
  have hshows : Handle.Shows cfg ⟨s.fileOf f, r.position⟩ (s.plain cfg f r) :=
    ⟨hc, rfl, rfl, fun _ _ => rfl, rfl⟩
  obtain ⟨h'', answer', hstep', hright, hafter⟩ := hshows.step c (hok r hr f hf)
  rw [fileOf_eq hh, hstep] at hstep'
  cases hstep'
  refine ⟨r, f, answer, hr, hf, rfl, hright, fun p => ?_⟩
  by_cases hp : p = r.path
  · have hnow : BufferedFileSystem.contents cfg { s.store r.path f h h'.file with
        refs := s.refs.set i { r with position := h'.filePosition } } r.path
        = some ⟨h'.file.fileSize, h'.file.view cfg⟩ := contents_store hh h'.file
    rw [if_pos hp, hp, hnow]
    exact ⟨hafter.size, fun j hj => hafter.bytes j (hafter.size ▸ hj)⟩
  · rw [if_neg hp]
    exact .of_eq ((htouch r hr).elsewhere.contents hp (hs.buffered p))

/-- **As long as nothing that is buffered is moved or removed, the page buffer is not to be seen**:
each step does to what the paths contain what it should, and leaves every buffered file over the
one that its path is the name of. -/
theorem paths_are_plain {disk : Disk} {es : List Event}
    (hrun : Run (step fs cfg) (Unbuffered fs cfg) (initial disk) es s)
    {e : Event} (hok : s.Unbuffered fs cfg e) {reply : Reply}
    (hreply : s.reply fs cfg e = some (s', reply)) :
    s.Does fs cfg reply (s.contents cfg) (s'.contents cfg) e
      ∧ ∀ p f, s'.files p = some f → ∃ h, f.handle = some h ∧ s'.disk.names p = some h.inode := by
  have hs := Inv.run (hrun.mono fun s e hok => @Unbuffered.undisturbed fs cfg s e hok)
  have hstep : step fs cfg s e = some s' := by
    unfold step
    rw [hreply]
    rfl
  have hs' := hs.step hok.undisturbed hstep
  refine ⟨?_, fun p f hf => (hs'.buffered p f hf).linked⟩
  have hquiet : e.releases = true → ∀ p, SameContents (s'.contents cfg p) (s.contents cfg p) := by
    intro he p
    obtain ⟨q, hquiet, -⟩ := step_quiet hs he hstep
    exact SameContents.symm (hquiet.keepsAll hs.buffered p fun _ _ => trivial)
  cases e with
  | Close | TryDropFile | FlushFile | evict => exact hquiet rfl
  | OpenFile raw_path flags idLeft =>
    obtain rfl := congrArg (·.1) (Option.some.inj hreply)
    exact does_open hs hok
  | call i c => exact does_call hs hok hreply
  | MoveFile raw_source raw_target =>
    obtain rfl := congrArg (·.1) (Option.some.inj hreply)
    exact does_move hs hok.1 hok.2
  | RemoveFile raw_filename =>
    obtain rfl := congrArg (·.1) (Option.some.inj hreply)
    exact does_remove hs hok

/-! ## Two runs -/

/-- A file that has been written and forgotten is moved. -/
theorem paths_are_plain_moved : ∃ s s',
    Run (step plainFlags twoBytes) (Unbuffered plainFlags twoBytes)
        (initial (oneFile "a" ⟨1, fun _ => 5⟩))
        [.OpenFile "a" ⟨34, .NO_LOCK⟩ true,
          .call 0 (.writeExactly [7] 0 fun _ => ⟨[], fun _ => 0⟩), .Close 0] s
      ∧ s.reply plainFlags twoBytes (.MoveFile "a" "b") = some (s', .done)
      ∧ s.Does plainFlags twoBytes .done (s.contents twoBytes) (s'.contents twoBytes)
        (.MoveFile "a" "b") := by
  obtain ⟨s, hrun, s', hreply, hok⟩ : ∃ s,
      Run (step plainFlags twoBytes) (Unbuffered plainFlags twoBytes)
        (initial (oneFile "a" ⟨1, fun _ => 5⟩))
        [.OpenFile "a" ⟨34, .NO_LOCK⟩ true,
          .call 0 (.writeExactly [7] 0 fun _ => ⟨[], fun _ => 0⟩), .Close 0] s
        ∧ ∃ s', s.reply plainFlags twoBytes (.MoveFile "a" "b") = some (s', .done)
          ∧ s.Unbuffered plainFlags twoBytes (.MoveFile "a" "b") := by
    refine ⟨_, .snoc (.snoc (.snoc .nil (fun f hf => by cases hf) rfl) (fun r hr f hf => ?_) rfl)
      trivial rfl, _, rfl, rfl, rfl⟩
    obtain rfl := Option.some.inj hr
    obtain rfl := Option.some.inj hf
    exact fun _ => .inr ⟨by decide, .inl (by decide)⟩
  exact ⟨s, s', hrun, hreply, (paths_are_plain hrun hok hreply).1⟩

/-- What is read from `b`, closed since, is what was there before `a` was moved to it. -/
theorem moved_file_is_hidden : ∃ s s₁ s₂ s₃,
    Run (step plainFlags twoBytes) (fun _ _ => True) (initial (oneFile "b" ⟨1, fun _ => 5⟩))
        [.OpenFile "b" ⟨1, .NO_LOCK⟩ true,
          .call 0 (.readExactly 1 0 fun _ => ⟨[], fun _ => 0⟩), .Close 0,
          .OpenFile "a" ⟨10, .NO_LOCK⟩ true, .call 0 (.append [7]), .Close 0] s
      ∧ s.reply plainFlags twoBytes (.MoveFile "a" "b") = some (s₁, .done)
      ∧ s₁.reply plainFlags twoBytes (.OpenFile "b" ⟨1, .NO_LOCK⟩ true) = some (s₂, .ref 0)
      ∧ s₂.reply plainFlags twoBytes (.call 0 (.readExactly 1 0 fun _ => ⟨[], fun _ => 0⟩))
        = some (s₃, .answer (.bytes [5]))
      ∧ ¬ s.Does plainFlags twoBytes .done (s.contents twoBytes) (s₁.contents twoBytes)
        (.MoveFile "a" "b") := by
  refine ⟨_, _, _, _, .snoc (.snoc (.snoc (.snoc (.snoc (.snoc .nil trivial rfl) trivial rfl)
    trivial rfl) trivial rfl) trivial rfl) trivial rfl, rfl, rfl, rfl, fun hdoes => ?_⟩
  have hbyte : (5 : UInt8) = 7 := (hdoes "b").2 0 Nat.one_pos
  exact absurd hbyte (by decide)

end BufferedFileSystem

end Haybarn.Io.BufferedFiles
