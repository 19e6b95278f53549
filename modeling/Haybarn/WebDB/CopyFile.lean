import Haybarn.Io.BufferedInv
import Haybarn.Lib.Loop

/-!
# Copying a file out

`CopyFileToPath` (lib/src/webdb.cc) opens the file of `path` for reading, and once more for writing:
the file that it copies to is not the one of `out`. Its inner loop, for short writes, does not
advance in the buffer either.

What becomes of the file depends on how it has been opened before. A file that is not buffered is
emptied underneath by the second open, and the first write throws, as the file in the page buffer
is still one for reading. A file that is open for writing is appended to for ever, or, if it is open
for appending, is overwritten with its own bytes. With direct I/O the file is empty when it is
read. `out` never changes: `copy_right` says when it is right nevertheless.

Mirroring notes:
- The filesystem is `BufferedFiles`, with `file_configs_` (`direct`) in front of it, over files that
  can be opened, emptied and written.
- `Env` says what the other parts do: which pages are evicted, how many bytes a direct read or
  write takes, and whether a file id is left.
- The nested loops are one: as long as something is `buffered`, it is written.
- Handles are closed at the end, also by an exception. A call on a null handle does not return; here
  it throws.
-/

namespace Haybarn.WebDB.CopyFile

open Haybarn.Lib Haybarn.Io.PagedFile Haybarn.Io.BufferedFiles

/-! ## The filesystem -/

/-- What is not decided by the filesystem, for each call. -/
structure Env where
  idLeft : Bool
  access : Nat → Access
  /-- At most so many bytes are transferred without the page buffer. -/
  transferred : Nat → Nat

/-- A handle, of the page buffer or of the filesystem underneath. -/
inductive FileHandle
  | buffered (i : Nat)
  | direct (inode : Inode) (position : Nat)

def FILE_FLAGS_READ : FileOpenFlags := { flags := 1 }
def FILE_FLAGS_WRITE_CREATE_NEW : FileOpenFlags := { flags := 18 }

variable (cfg : Config) (direct : String → Bool) (env : Env)

/-- `BufferedFileSystem::OpenFile` -/
def OpenFile (s : BufferedFileSystem) (raw_path : String) (flags : FileOpenFlags) :
    BufferedFileSystem × Except String FileHandle :=
  let path := PatchFilename raw_path
  if direct path then
    match s.disk.OpenFile plainFlags path flags with
    | (disk, .ok (some h)) => ({ s with disk }, .ok (.direct h.inode 0))
    | (disk, .ok none) => ({ s with disk }, .error "null")
    | (disk, .error e) => ({ s with disk }, .error e)
  else
    match s.OpenFile plainFlags cfg path flags env.idLeft with
    | (s, .ref i) => (s, .ok (.buffered i))
    | (s, .thrown e) => (s, .error e)
    | (s, _) => (s, .error "null")

/-- `Read`, the `k`-th call: the bytes that are in the buffer then. -/
def Read (s : BufferedFileSystem) (k n : Nat) :
    FileHandle → BufferedFileSystem × FileHandle × Except String (List UInt8)
  | .buffered i =>
    match s.call cfg i (.readNext n (env.access k)) with
    | some (s, .answer (.bytes bytes)) => (s, .buffered i, .ok bytes)
    | some (s, .answer (.thrown e)) => (s, .buffered i, .error e)
    | _ => (s, .buffered i, .error "null")
  | .direct inode position =>
    let c := s.disk.inodes inode
    let n := min (env.transferred k) (min n (c.size - position))
    (s, .direct inode (position + n), .ok (segment c.bytes position n))

/-- `Write`, the `k`-th call: how many bytes have been written. -/
def Write (s : BufferedFileSystem) (k : Nat) (bytes : List UInt8) :
    FileHandle → BufferedFileSystem × FileHandle × Except String Nat
  | .buffered i =>
    match s.call cfg i (.writeNext bytes (env.access k)) with
    | some (s, .answer (.count n)) => (s, .buffered i, .ok n)
    | some (s, .answer (.thrown e)) => (s, .buffered i, .error e)
    | _ => (s, .buffered i, .error "null")
  | .direct inode position =>
    let c := s.disk.inodes inode
    let n := min (env.transferred k) bytes.length
    let size := if n = 0 then c.size else max c.size (position + n)
    let c := ⟨size, put (fun i => if i < c.size then c.bytes i else 0) position (bytes.take n)⟩
    ({ s with disk := s.disk.write inode c }, .direct inode (position + n), .ok n)

def FileSync (s : BufferedFileSystem) : FileHandle → BufferedFileSystem
  | .buffered i => ((s.call cfg i .flush).map (·.1)).getD s
  | .direct _ _ => s

def Close (s : BufferedFileSystem) : FileHandle → BufferedFileSystem
  | .buffered i => ((s.Close cfg i).map (·.1)).getD s
  | .direct _ _ => s

/-! ## The copy -/

/-- The variables of the loops. -/
structure Copying where
  fs : BufferedFileSystem
  src : FileHandle
  dst : FileHandle
  buffer : List UInt8
  buffered : Nat
  /-- How many calls there have been. -/
  calls : Nat

abbrev Result := BufferedFileSystem × Except String Unit

def buffer_size : Nat := 16384

/-- The end of the function, where the handles are closed. -/
def Copying.leave (t : Copying) (fs : BufferedFileSystem) (result : Except String Unit) : Result :=
  (Close cfg (Close cfg fs t.dst) t.src, result)

/-- One turn: of the inner loop if something is buffered, or of the outer one. -/
def turn (t : Copying) : Copying ⊕ Result :=
  if t.buffered = 0 then
    match Read cfg env t.fs t.calls buffer_size t.src with
    | (fs, src, .ok bytes) =>
      if bytes.length = 0 then .inr (t.leave cfg (FileSync cfg fs t.dst) (.ok ()))
      else .inl { t with fs, src, buffer := bytes, buffered := bytes.length, calls := t.calls + 1 }
    | (fs, _, .error e) => .inr (t.leave cfg fs (.error e))
  else
    match Write cfg env t.fs t.calls (t.buffer.take t.buffered) t.dst with
    | (fs, dst, .ok written) =>
      .inl { t with fs, dst, buffered := t.buffered - written, calls := t.calls + 1 }
    | (fs, _, .error e) => .inr (t.leave cfg fs (.error e))

/-- The copy ends with this result. Both files are opened at `path`. -/
def CopyFileToPath (s : BufferedFileSystem) (path _out : String) (r : Result) : Prop :=
  match OpenFile cfg direct env s path FILE_FLAGS_READ with
  | (s, .error e) => r = (s, .error e)
  | (s, .ok src) =>
    match OpenFile cfg direct env s path FILE_FLAGS_WRITE_CREATE_NEW with
    | (s, .error e) => r = (Close cfg s src, .error e)
    | (s, .ok dst) => Ends (turn cfg env) ⟨s, src, dst, [], 0, 0⟩ r

/-! ## What it should do -/

/-- A copy that succeeds has the bytes of `path` in `out`, and keeps them in `path`. -/
def Right (s : BufferedFileSystem) (path out : String) : Prop :=
  ∀ s', CopyFileToPath cfg direct env s path out (s', .ok ()) →
    SameContents (s'.contents cfg (PatchFilename out)) (s.contents cfg (PatchFilename path)) ∧
      SameContents (s'.contents cfg (PatchFilename path)) (s.contents cfg (PatchFilename path))

/-! ## When it does -/

/-- A file in the page buffer that can be opened, and is empty or open for appending; or one that is
not buffered and is empty. -/
def Succeeds (s : BufferedFileSystem) (p : String) : Prop :=
  match s.files p with
  | some f => f.file_flags.lock ≠ .WRITE_LOCK ∧ (f.file_size = 0 ∨
    f.file_flags.OpenForWriting = true ∧ f.file_flags.OpenForAppending = true)
  | none => env.idLeft = true ∧ ∃ i, s.disk.names p = some i ∧ (s.disk.inodes i).size = 0

/-- The file is open for writing, and not for appending: what is read of it is appended to it. -/
def Grows (s : BufferedFileSystem) (p : String) : Prop :=
  ∃ f, s.files p = some f ∧ f.file_flags.lock ≠ .WRITE_LOCK ∧ f.file_size ≠ 0 ∧
    f.file_flags.OpenForWriting = true ∧ f.file_flags.OpenForAppending = false

/-- The file underneath has been emptied. -/
def emptied (s : BufferedFileSystem) (i : Inode) : BufferedFileSystem :=
  { s with disk := s.disk.write i .empty }

/-- The copy does not append, and fails, or `out` has the bytes of `path` before it. With direct
I/O, `path` is empty. -/
def Fine (s : BufferedFileSystem) (path out : String) : Prop :=
  let p := PatchFilename path
  let q := PatchFilename out
  if direct p then ∀ i, s.disk.names p = some i →
    SameContents ((emptied s i).contents cfg q) (s.contents cfg p) ∧
      SameContents ((emptied s i).contents cfg p) (s.contents cfg p)
  else ¬ Grows s p ∧
    (Succeeds env s p → SameContents (s.contents cfg q) (s.contents cfg p))

/-! ## A call that changes no byte -/

/-- Every file is asked for. -/
abbrev any (_ : FileOpenFlags) : Prop := True

variable {cfg direct env}
variable {s s' s₀ : BufferedFileSystem} {p : String} {f : BufferedFile} {i j : Nat}

/-- A call, by what it does to the file. -/
theorem call_of_step {r : FileRef} {c : Call} {h : Io.BufferedFiles.FileHandle} {h' : Handle}
    {answer : Answer} (hr : s.refs[i]? = some r) (hp : r.path = p) (hf : s.files p = some f)
    (hh : f.handle = some h)
    (hstep : Handle.step cfg ⟨s.fileOf f, r.position⟩ c = some (h', answer)) :
    s.call cfg i c = some ({ s.store p f h h'.file with
      refs := s.refs.set i { r with position := h'.filePosition } }, .answer answer) := by
  subst hp
  rw [BufferedFileSystem.fileOf_eq hh] at hstep
  unfold BufferedFileSystem.call
  rw [hr]
  dsimp only [bind, Option.bind, pure]
  rw [hf]
  dsimp only
  rw [hh]
  dsimp only
  rw [hstep]

theorem call_quiet {r : FileRef} {c : Call} {h' : Handle} {answer : Answer}
    (hr : s.refs[i]? = some r) (hp : r.path = p) (hf : s.files p = some f)
    (hat : s.At cfg any p f)
    (hstep : Handle.step cfg ⟨s.fileOf f, r.position⟩ c = some (h', answer))
    (hsame : (s.fileOf f).SameBytes cfg h'.file) : ∃ s',
      s.call cfg i c = some (s', .answer answer) ∧ s.Quiet cfg any s' p ∧
        s'.refs = s.refs.set i { r with position := h'.filePosition } ∧
        ∃ f', s'.files p = some f' := by
  obtain ⟨h, hh, hname⟩ := hat.linked
  refine ⟨_, call_of_step hr hp hf hh hstep, ?_, rfl, _,
    BufferedFileSystem.store_files f h h'.file⟩
  rw [BufferedFileSystem.fileOf_eq hh] at hsame
  have hquiet : s.Quiet cfg any (s.store p f h h'.file) p := by
    refine ⟨⟨BufferedFileSystem.store_local hname _, ?_⟩, ?_, ?_⟩
    · intro f' hf'
      rw [BufferedFileSystem.store_files] at hf'
      obtain rfl := Option.some.inj hf'
      exact BufferedFileSystem.store_at hh hname fun _ => hsame.coherent
    · intro _
      rw [BufferedFileSystem.contents_store hh]
      unfold BufferedFileSystem.contents
      rw [hf]
      dsimp only
      rw [BufferedFileSystem.fileOf_eq hh]
      exact ⟨hsame.fileSize.symm, fun k hk => (hsame.view k hk).symm⟩
    · intro f' hf'
      rw [BufferedFileSystem.store_files] at hf'
      obtain rfl := Option.some.inj hf'
      exact ⟨f, hf, rfl⟩
  exact hquiet.with_refs _

/-- What is read at a position, through the page buffer. -/
theorem read_step (n position : Nat) (access : Access) (hc : (s.fileOf f).Coherent cfg) :
    ∃ h', Handle.step cfg ⟨s.fileOf f, position⟩ (.readNext n access) = some (h', .bytes
        (segment ((s.fileOf f).view cfg) position ((s.fileOf f).readCount cfg n position))) ∧
      h'.filePosition = position + (s.fileOf f).readCount cfg n position ∧
      (s.fileOf f).SameBytes cfg h'.file := by
  have hroom := File.SameBytes.makeRoom access.evicted hc
  obtain ⟨hread, hbytes⟩ := File.read_view hroom.coherent n position access.stale
  have hcount : ((s.fileOf f).makeRoom cfg access.evicted).readCount cfg n position =
      (s.fileOf f).readCount cfg n position := by
    unfold File.readCount
    rw [hroom.fileSize]
  have hsegment : segment (((s.fileOf f).makeRoom cfg access.evicted).view cfg) position
      ((s.fileOf f).readCount cfg n position) =
      segment ((s.fileOf f).view cfg) position ((s.fileOf f).readCount cfg n position) := by
    refine segment_congr fun k _ hk => hroom.view k ?_
    have hle : (s.fileOf f).readCount cfg n position ≤ (s.fileOf f).fileSize - position := by
      unfold File.readCount
      omega
    omega
  rw [hcount, hsegment] at hbytes
  refine ⟨_, congrArg (fun bytes => some (_, Answer.bytes bytes)) hbytes, ?_, ?_⟩
  · show position + List.length (Handle.readAt cfg ⟨s.fileOf f, position⟩ n position access).2 = _
    have hbytes : (Handle.readAt cfg ⟨s.fileOf f, position⟩ n position access).2 = _ := hbytes
    rw [hbytes, length_segment]
  · exact hroom.trans hread

/-- A file that is open for appending is overwritten with its own bytes, up to the end of a page. -/
theorem write_step {n position : Nat} (access : Access) (hc : (s.fileOf f).Coherent cfg)
    (hwriting : (s.fileOf f).openForWriting = true)
    (happending : (s.fileOf f).openForAppending = true)
    (hpos : 0 < n) (hin : position + n ≤ (s.fileOf f).fileSize)
    (hpage : n ≤ cfg.pageSize - position % cfg.pageSize) :
    ∃ h', Handle.step cfg ⟨s.fileOf f, position⟩
        (.writeNext (segment ((s.fileOf f).view cfg) position n) access) = some (h', .count n) ∧
      h'.filePosition = position + n ∧ (s.fileOf f).SameBytes cfg h'.file := by
  have hroom := File.SameBytes.makeRoom access.evicted hc
  have hroomsize := hroom.fileSize
  obtain ⟨file, k, hwrite⟩ := File.write_of_writable cfg (hroom.mode.1.trans hwriting)
    (segment ((s.fileOf f).view cfg) position n) position access.stale
  have hplace : (!((s.fileOf f).makeRoom cfg access.evicted).openForAppending ||
      position == ((s.fileOf f).makeRoom cfg access.evicted).fileSize) = false := by
    rw [hroom.mode.2, happending, hroom.fileSize, Bool.not_true, Bool.false_or]
    exact beq_eq_false_iff_ne.mpr (by omega)
  have hfits : ((s.fileOf f).makeRoom cfg access.evicted).LoadFits cfg
      (position / cfg.pageSize) := by
    intro _
    have hle := cfg.page_le position
    omega
  obtain ⟨hk, hcoherent, hmode, hsize, hview⟩ := File.write_view hroom.coherent hplace hfits hwrite
  have hk : k = n := by
    rw [hk]
    unfold File.writeCount
    rw [length_segment]
    omega
  subst hk
  refine ⟨⟨file, position + k⟩, ?_, rfl, ?_⟩
  · unfold Handle.step Handle.writeAt
    dsimp only
    rw [hwrite]
  · refine ⟨hcoherent, ⟨hmode.1.trans hroom.mode.1, hmode.2.trans hroom.mode.2⟩,
      hsize.trans hroomsize, ?_⟩
    intro x hx
    rw [hview x (by omega), ← hroom.view x hx]
    -- the bytes that are put there are those that are there
    by_cases hfrom : position ≤ x
    · by_cases hto : x < position + k
      · have hget : ((segment ((s.fileOf f).view cfg) position k).take k)[x - position]? =
            some ((s.fileOf f).view cfg x) := by
          rw [List.take_of_length_le (by rw [length_segment])]
          unfold Lib.segment
          rw [List.getElem?_map, List.getElem?_range (by omega), Option.map_some]
          have hsum : position + (x - position) = x := by omega
          rw [hsum]
        unfold put
        rw [if_pos hfrom, hget, hroom.view x hx]
        rfl
      · refine put_of_ge ?_
        rw [List.length_take, length_segment]
        omega
    · exact put_of_lt (by omega)

/-! ## The loops -/

/-- Once both files are opened nothing changes: what is buffered is what `path` has at the position
of the destination, up to that of the source. -/
structure Going (cfg : Config) (s₀ : BufferedFileSystem) (p : String) (c : Contents) (i j : Nat)
    (position : Nat) (t : Copying) : Prop where
  quiet : s₀.Quiet cfg any t.fs p
  present : ∃ f, t.fs.files p = some f
  src : t.src = .buffered i
  dst : t.dst = .buffered j
  read : ∃ r, t.fs.refs[i]? = some r ∧ r.path = p ∧ r.position = position + t.buffered
  written : ∃ r, t.fs.refs[j]? = some r ∧ r.path = p ∧ r.position = position
  inside : position + t.buffered ≤ c.size
  inPage : t.buffered ≤ cfg.pageSize - position % cfg.pageSize
  buffer : t.buffer.take t.buffered = segment c.bytes position t.buffered

section Loops

variable {c : Contents} {position : Nat} {t : Copying}

theorem contents_of_file (hf : s.files p = some f) :
    s.contents cfg p = some ⟨f.file_size, (s.fileOf f).view cfg⟩ := by
  unfold BufferedFileSystem.contents
  rw [hf]

/-- The file is still the one that was opened. -/
theorem quiet_file (hquiet : s₀.Quiet cfg any s p) (hc : s₀.contents cfg p = some c)
    (hf : s.files p = some f) :
    (s.fileOf f).fileSize = c.size ∧ ∀ x, x < c.size → (s.fileOf f).view cfg x = c.bytes x := by
  have hkeeps := hquiet.keeps fun _ _ => trivial
  rw [hc, contents_of_file hf] at hkeeps
  exact ⟨hkeeps.1.symm, fun x hx => (hkeeps.2 x hx).symm⟩

theorem going_read (hc : s₀.contents cfg p = some c) (hij : i ≠ j)
    (h : Going cfg s₀ p c i j position t) (hnone : t.buffered = 0) (hlt : position < c.size) :
    ∃ t', turn cfg env t = .inl t' ∧ Going cfg s₀ p c i j position t' ∧ 0 < t'.buffered := by
  obtain ⟨f, hf⟩ := h.present
  obtain ⟨r, hr, hpath, hposition⟩ := h.read
  obtain ⟨r', hr', hpath', hposition'⟩ := h.written
  obtain ⟨hsize, hview⟩ := quiet_file h.quiet hc hf
  have hat := h.quiet.buffered f hf
  have hfrom : r.position = position := by omega
  obtain ⟨h', hstep, hafter, hsame⟩ :=
    read_step buffer_size r.position (env.access t.calls) (hat.coherent trivial)
  obtain ⟨s', hcall, hquiet, hrefs, hpresent⟩ := call_quiet hr hpath hf hat hstep hsame
  have hpage := Nat.mod_lt position cfg.pageSize_pos
  have hcount : (t.fs.fileOf f).readCount cfg buffer_size r.position =
      min (min 16384 (c.size - position)) (cfg.pageSize - position % cfg.pageSize) := by
    rw [hfrom]
    unfold File.readCount
    rw [hsize]
    rfl
  generalize (t.fs.fileOf f).readCount cfg buffer_size r.position = k at *
  have hbytes : segment ((t.fs.fileOf f).view cfg) r.position k = segment c.bytes position k := by
    rw [hfrom]
    exact segment_congr fun x _ hx => hview x (by omega)
  rw [hbytes] at hcall
  have hrefs_i : s'.refs[i]? = some { r with position := h'.filePosition } := by
    rw [hrefs, List.getElem?_set_self (List.getElem?_eq_some_iff.mp hr).1]
  have hrefs_j : s'.refs[j]? = some r' := by
    rw [hrefs, List.getElem?_set_ne hij, hr']
  refine ⟨{ t with
    fs := s', buffer := segment c.bytes position k, buffered := k, calls := t.calls + 1 },
    ?_, ⟨h.quiet.trans hquiet, hpresent, h.src, h.dst, ⟨_, hrefs_i, hpath, ?_⟩,
      ⟨r', hrefs_j, hpath', hposition'⟩, ?_, ?_, ?_⟩, ?_⟩
  · unfold turn
    rw [if_pos hnone, h.src]
    unfold Read
    dsimp only
    rw [hcall]
    dsimp only
    rw [length_segment, if_neg (by omega)]
  · dsimp only
    omega
  · dsimp only
    omega
  · dsimp only
    omega
  · dsimp only
    exact List.take_of_length_le (by rw [length_segment])
  · dsimp only
    omega

/-- A write takes all that is buffered, as it ends with the page. -/
theorem going_write (hc : s₀.contents cfg p = some c) (hij : i ≠ j)
    (h : Going cfg s₀ p c i j position t) (hsome : 0 < t.buffered)
    (hmode : ∀ f, t.fs.files p = some f →
      f.file_flags.OpenForWriting = true ∧ f.file_flags.OpenForAppending = true) :
    ∃ t', turn cfg env t = .inl t' ∧ Going cfg s₀ p c i j (position + t.buffered) t' ∧
      t'.buffered = 0 := by
  obtain ⟨f, hf⟩ := h.present
  obtain ⟨r, hr, hpath, hposition⟩ := h.read
  obtain ⟨r', hr', hpath', hposition'⟩ := h.written
  obtain ⟨hsize, hview⟩ := quiet_file h.quiet hc hf
  have hat := h.quiet.buffered f hf
  have hinside := h.inside
  have hinPage := h.inPage
  obtain ⟨hwriting, happending⟩ := hmode f hf
  obtain ⟨h', hstep, hafter, hsame⟩ := @write_step cfg t.fs f t.buffered position
    (env.access t.calls) (hat.coherent trivial) hwriting happending hsome (by omega) hinPage
  have hbytes : segment ((t.fs.fileOf f).view cfg) position t.buffered =
      t.buffer.take t.buffered := by
    rw [h.buffer]
    exact segment_congr fun x _ hx => hview x (by omega)
  rw [hbytes, ← hposition'] at hstep
  obtain ⟨s', hcall, hquiet, hrefs, hpresent⟩ := call_quiet hr' hpath' hf hat hstep hsame
  have hrefs_j : s'.refs[j]? = some { r' with position := h'.filePosition } := by
    rw [hrefs, List.getElem?_set_self (List.getElem?_eq_some_iff.mp hr').1]
  have hrefs_i : s'.refs[i]? = some r := by
    rw [hrefs, List.getElem?_set_ne hij.symm, hr]
  refine ⟨{ t with fs := s', buffered := t.buffered - t.buffered, calls := t.calls + 1 },
    ?_, ⟨h.quiet.trans hquiet, hpresent, h.src, h.dst, ⟨r, hrefs_i, hpath, ?_⟩,
      ⟨_, hrefs_j, hpath', hafter⟩, ?_, ?_, ?_⟩, Nat.sub_self _⟩
  · unfold turn
    rw [if_neg (by omega), h.dst]
    unfold Write
    dsimp only
    rw [hcall]
  · dsimp only
    omega
  · dsimp only
    omega
  · dsimp only
    omega
  · dsimp only
    rw [Nat.sub_self]
    rfl

/-- Closing a handle of the page buffer. -/
theorem close_quiet {r : FileRef} (hat : ∀ f, s.files p = some f → s.At cfg any p f)
    (hr : s.refs[i]? = some r) (hpath : r.path = p) :
    s.Quiet cfg any (Close cfg s (.buffered i)) p ∧
      (Close cfg s (.buffered i)).refs = s.refs.eraseIdx i := by
  subst hpath
  have hclose : Close cfg s (.buffered i) =
      { s.Release cfg r.path true with refs := s.refs.eraseIdx i } := by
    unfold Close
    dsimp only
    unfold BufferedFileSystem.Close
    rw [hr]
    rfl
  rw [hclose]
  exact ⟨(BufferedFileSystem.quiet_release hat true).with_refs _, rfl⟩

/-- The destination is flushed. -/
theorem sync_quiet {r : FileRef} (hat : ∀ f, s.files p = some f → s.At cfg any p f)
    (hr : s.refs[i]? = some r) (hpath : r.path = p) (hf : s.files p = some f) :
    s.Quiet cfg any (FileSync cfg s (.buffered i)) p ∧
      (FileSync cfg s (.buffered i)).refs = s.refs.set i r := by
  have hstep : Handle.step cfg ⟨s.fileOf f, r.position⟩ .flush =
      some (⟨(s.fileOf f).flush cfg, r.position⟩, .done) := rfl
  obtain ⟨s', hcall, hquiet, hrefs, -⟩ := call_quiet hr hpath hf (hat f hf) hstep
    (File.SameBytes.flush ((hat f hf).coherent trivial))
  have hsync : FileSync cfg s (.buffered i) = s' := by
    unfold FileSync
    dsimp only
    rw [hcall]
    rfl
  rw [hsync]
  exact ⟨hquiet, hrefs⟩

/-- **At the end of the file the copy ends**, and nothing has changed. -/
theorem going_leave (hc : s₀.contents cfg p = some c) (hij : i < j)
    (h : Going cfg s₀ p c i j position t) (hnone : t.buffered = 0) (hend : c.size ≤ position) :
    ∃ s', turn cfg env t = .inr (s', .ok ()) ∧ s₀.Quiet cfg any s' p := by
  obtain ⟨f, hf⟩ := h.present
  obtain ⟨r, hr, hpath, hposition⟩ := h.read
  obtain ⟨r', hr', hpath', -⟩ := h.written
  obtain ⟨hsize, -⟩ := quiet_file h.quiet hc hf
  obtain ⟨h', hstep, -, hsame⟩ := read_step buffer_size r.position (env.access t.calls)
    ((h.quiet.buffered f hf).coherent trivial)
  obtain ⟨s₁, hcall, hquiet₁, hrefs₁, f₁, hf₁⟩ :=
    call_quiet hr hpath hf (h.quiet.buffered f hf) hstep hsame
  have hcount : (t.fs.fileOf f).readCount cfg buffer_size r.position = 0 := by
    unfold File.readCount
    rw [hsize]
    omega
  have hr₁ : s₁.refs[i]? = some { r with position := h'.filePosition } := by
    rw [hrefs₁, List.getElem?_set_self (List.getElem?_eq_some_iff.mp hr).1]
  have hr₁' : s₁.refs[j]? = some r' := by
    rw [hrefs₁, List.getElem?_set_ne (Nat.ne_of_lt hij), hr']
  obtain ⟨hquiet₂, hrefs₂⟩ := sync_quiet hquiet₁.buffered hr₁' hpath' hf₁
  have hr₂' : (FileSync cfg s₁ (.buffered j)).refs[j]? = some r' := by
    rw [hrefs₂, List.getElem?_set_self (List.getElem?_eq_some_iff.mp hr₁').1]
  have hr₂ : (FileSync cfg s₁ (.buffered j)).refs[i]? =
      some { r with position := h'.filePosition } := by
    rw [hrefs₂, List.getElem?_set_ne (Nat.ne_of_gt hij), hr₁]
  obtain ⟨hquiet₃, hrefs₃⟩ := close_quiet hquiet₂.buffered hr₂' hpath'
  have hr₃ : (Close cfg (FileSync cfg s₁ (.buffered j)) (.buffered j)).refs[i]? =
      some { r with position := h'.filePosition } := by
    rw [hrefs₃, List.getElem?_eraseIdx_of_lt hij, hr₂]
  obtain ⟨hquiet₄, -⟩ := close_quiet hquiet₃.buffered hr₃ hpath
  refine ⟨_, ?_, ((((h.quiet.trans hquiet₁).trans hquiet₂).trans hquiet₃).trans hquiet₄)⟩
  unfold turn
  rw [if_pos hnone, h.src]
  unfold Read
  dsimp only
  rw [hcall]
  dsimp only
  rw [length_segment, if_pos hcount]
  unfold Copying.leave
  rw [h.src, h.dst]

/-- **The copy of a file to itself ends**: it is empty, or it is overwritten with its own bytes. -/
theorem going_ends (hc : s₀.contents cfg p = some c) (hij : i < j)
    (hmode : c.size = 0 ∨ ∀ f, s₀.files p = some f →
      f.file_flags.OpenForWriting = true ∧ f.file_flags.OpenForAppending = true) :
    ∀ rest {position : Nat} {t : Copying}, c.size - position ≤ rest →
      Going cfg s₀ p c i j position t → t.buffered = 0 →
      ∃ s', Ends (turn cfg env) t (s', .ok ()) ∧ s₀.Quiet cfg any s' p := by
  intro rest
  induction rest with
  | zero =>
    intro position t hrest h hnone
    obtain ⟨s', hturn, hquiet⟩ := going_leave hc hij h hnone (by omega)
    exact ⟨s', .left hturn, hquiet⟩
  | succ rest ih =>
    intro position t hrest h hnone
    by_cases hend : c.size ≤ position
    · obtain ⟨s', hturn, hquiet⟩ := going_leave hc hij h hnone hend
      exact ⟨s', .left hturn, hquiet⟩
    · have hmode : ∀ f, s₀.files p = some f →
          f.file_flags.OpenForWriting = true ∧ f.file_flags.OpenForAppending = true :=
        hmode.resolve_left (by omega)
      obtain ⟨t₁, hturn₁, h₁, hsome⟩ :=
        going_read hc (Nat.ne_of_lt hij) h hnone (Nat.lt_of_not_le hend)
      have hmode₁ : ∀ f, t₁.fs.files p = some f →
          f.file_flags.OpenForWriting = true ∧ f.file_flags.OpenForAppending = true := by
        intro f hf
        obtain ⟨f₀, hf₀, hflags⟩ := h₁.quiet.flags f hf
        rw [hflags]
        exact hmode f₀ hf₀
      obtain ⟨t₂, hturn₂, h₂, hnone₂⟩ := going_write hc (Nat.ne_of_lt hij) h₁ hsome hmode₁
      obtain ⟨s', hends, hquiet⟩ := ih (by omega) h₂ hnone₂
      exact ⟨s', .next hturn₁ (.next hturn₂ hends), hquiet⟩

end Loops

/-! ## A copy that throws -/

theorem sizesMatch_makeRoom (evicted : List Nat) : ∀ {file : File}, file.SizesMatch cfg →
    (file.makeRoom cfg evicted).SizesMatch cfg := by
  induction evicted with
  | nil => exact fun hm => hm
  | cons page evicted ih => exact fun hm => ih (hm.evict page)

/-- There is something to read at the beginning of a file that is not empty. -/
theorem read_nonempty {file : File} {n : Nat} (hm : file.SizesMatch cfg) (hn : 0 < n)
    (hsize : 0 < file.fileSize) (stale : Nat → UInt8) :
    0 < (file.read cfg n 0 stale).2.length := by
  have hpage := cfg.pageSize_pos
  have hfits : file.LoadFits cfg 0 := fun _ => by omega
  have hsized := ((File.sizesMatch_fixPage hm 0 stale).mpr hfits).sized
  obtain ⟨F, hF⟩ := @File.frame_fixPage cfg file 0 stale
  have hfileSize : (file.fixPage cfg 0 stale).fileSize = file.fileSize := by
    unfold File.fixPage
    split <;> rfl
  have hdata := hsized _ (File.mem_of_frame hF)
  rw [hfileSize] at hdata
  dsimp only at hdata
  unfold File.read
  dsimp only
  rw [if_neg (by omega), Nat.zero_shiftRight, hF]
  dsimp only
  rw [List.length_map, List.length_range]
  omega

/-- **A file that is open for reading only is not copied**: its first bytes are read, and cannot be
written. -/
theorem copy_throws {r r' : FileRef} (hij : i ≠ j) (hf : s.files p = some f)
    {h : Io.BufferedFiles.FileHandle} (hh : f.handle = some h)
    (hm : (s.fileOf f).SizesMatch cfg) (hsize : f.file_size ≠ 0)
    (hreading : f.file_flags.OpenForWriting = false)
    (hr : s.refs[i]? = some r) (hpath : r.path = p) (hposition : r.position = 0)
    (hr' : s.refs[j]? = some r') (hpath' : r'.path = p) :
    ∃ s' e, Ends (turn cfg env) ⟨s, .buffered i, .buffered j, [], 0, 0⟩ (s', .error e) := by
  have hroom := sizesMatch_makeRoom (env.access 0).evicted hm
  have hkeeps := (@File.makeRoom_keeps cfg (env.access 0).evicted (s.fileOf f)).2
  have hsome := @read_nonempty cfg _ buffer_size hroom (Nat.two_pow_pos 14)
    (hkeeps ▸ Nat.pos_of_ne_zero hsize) (env.access 0).stale
  obtain ⟨file, bytes, hread⟩ : ∃ file bytes,
      ((s.fileOf f).makeRoom cfg (env.access 0).evicted).read cfg buffer_size 0
        (env.access 0).stale = (file, bytes) := ⟨_, _, rfl⟩
  rw [hread] at hsome
  have hsome : 0 < bytes.length := hsome
  -- the first turn reads
  have hreadStep : Handle.step cfg ⟨s.fileOf f, r.position⟩
      (.readNext buffer_size (env.access 0)) =
      some (⟨file, 0 + bytes.length⟩, .bytes bytes) := by
    rw [hposition]
    unfold Handle.step Handle.readAt
    dsimp only
    rw [hread]
  have hcall := call_of_step hr hpath hf hh hreadStep
  generalize hs₁ : ({ s.store p f h file with
    refs := s.refs.set i { r with position := 0 + bytes.length } } : BufferedFileSystem) = s₁
    at hcall
  have hf₁ : s₁.files p = some (f.update file) := by
    rw [← hs₁]
    exact BufferedFileSystem.store_files f h file
  have hr₁ : s₁.refs[j]? = some r' := by
    rw [← hs₁]
    dsimp only
    rw [List.getElem?_set_ne hij, hr']
  have hturn₁ : turn cfg env ⟨s, .buffered i, .buffered j, [], 0, 0⟩ =
      .inl ⟨s₁, .buffered i, .buffered j, bytes, bytes.length, 1⟩ := by
    unfold turn Read
    dsimp only
    rw [if_pos rfl, hcall]
    dsimp only
    rw [if_neg (by omega)]
  -- the second one is to write
  have hclosed : ((s₁.fileOf (f.update file)).makeRoom cfg (env.access 1).evicted).openForWriting =
      false :=
    (@File.makeRoom_keeps cfg (env.access 1).evicted (s₁.fileOf (f.update file))).1.1.trans hreading
  have hwriteStep : Handle.step cfg ⟨s₁.fileOf (f.update file), r'.position⟩
      (.writeNext (bytes.take bytes.length) (env.access 1)) =
      some (⟨s₁.fileOf (f.update file), r'.position⟩,
        .thrown "File is not opened in write mode") := by
    unfold Handle.step Handle.writeAt File.write
    dsimp only
    rw [hclosed]
    rfl
  have hcall₁ := call_of_step hr₁ hpath' hf₁ hh hwriteStep
  generalize ({ s₁.store p (f.update file) h (s₁.fileOf (f.update file)) with
    refs := s₁.refs.set j { r' with position := r'.position } } : BufferedFileSystem) = s₂
    at hcall₁
  have hturn₂ : turn cfg env ⟨s₁, .buffered i, .buffered j, bytes, bytes.length, 1⟩ =
      .inr (Close cfg (Close cfg s₂ (.buffered j)) (.buffered i),
        .error "File is not opened in write mode") := by
    unfold turn Write
    dsimp only
    rw [if_neg (by omega), hcall₁]
    rfl
  exact ⟨_, _, .next hturn₁ (.left hturn₂)⟩

/-! ## Opening -/

theorem newRef_files (hf : s.files p = some f) (flags : FileOpenFlags) :
    (s.newRef p flags).1.files p = some { f with num_users := f.num_users + 1 } := by
  show (s.modifyFile p _).files p = _
  rw [BufferedFileSystem.modifyFile_files, hf]
  rfl

theorem getElem?_snoc (refs : List FileRef) (r : FileRef) :
    (refs ++ [r])[refs.length]? = some r := by
  rw [List.getElem?_append_right (Nat.le_refl _), Nat.sub_self]
  rfl

/-- What the first open comes to. -/
structure Opened (cfg : Config) (env : Env) (s s₁ : BufferedFileSystem) (p : String)
    (f : BufferedFile) : Prop where
  touches : s.Touches cfg any s₁ p
  contents : SameContents (s₁.contents cfg p) (s.contents cfg p)
  file : s₁.files p = some f
  unlocked : f.file_flags.lock ≠ .WRITE_LOCK
  refs : s₁.refs = s.refs ++ [⟨p, FILE_FLAGS_READ, 0⟩]
  succeeds : Succeeds env s p ↔ f.file_size = 0 ∨
    f.file_flags.OpenForWriting = true ∧ f.file_flags.OpenForAppending = true
  grows : f.file_size ≠ 0 → f.file_flags.OpenForWriting = true →
    f.file_flags.OpenForAppending = false → Grows s p

/-- **The first open**: it fails, and so does the copy, or a file is buffered then. -/
theorem open_read (hs : s.Inv cfg any) {path : String}
    (hdirect : direct (PatchFilename path) = false) :
    (∃ s' e, OpenFile cfg direct env s path FILE_FLAGS_READ = (s', .error e) ∧
      ¬ Succeeds env s (PatchFilename path)) ∨
    ∃ s₁ f, OpenFile cfg direct env s path FILE_FLAGS_READ =
      (s₁, .ok (.buffered s.refs.length)) ∧ Opened cfg env s s₁ (PatchFilename path) f := by
  unfold OpenFile
  dsimp only
  rw [hdirect]
  generalize PatchFilename path = p
  rw [if_neg Bool.false_ne_true]
  cases hf : s.files p with
  | some f =>
    by_cases hlock : f.file_flags.lock = .WRITE_LOCK
    · left
      have hsharing : BufferedFileSystem.BufferedFile.sharing f p FILE_FLAGS_READ =
          .refused s!"File {p} is already locked exclusively" := if_pos hlock
      refine ⟨s, s!"File {p} is already locked exclusively", ?_, ?_⟩
      · unfold BufferedFileSystem.OpenFile
        rw [hf]
        dsimp only
        rw [hsharing]
      · unfold Succeeds
        rw [hf]
        exact fun h => h.1 hlock
    · right
      have hsharing : BufferedFileSystem.BufferedFile.sharing f p FILE_FLAGS_READ = .shared := by
        unfold BufferedFileSystem.BufferedFile.sharing
        rw [if_neg hlock, if_neg (by decide), if_neg (by decide)]
      have hquiet := BufferedFileSystem.quiet_newRef (hs.buffered p) FILE_FLAGS_READ
      refine ⟨(s.newRef p FILE_FLAGS_READ).1, _, ?_, hquiet.toTouches,
        (hquiet.keeps fun _ _ => trivial).symm, newRef_files hf _, hlock, rfl, ?_, ?_⟩
      · unfold BufferedFileSystem.OpenFile
        rw [hf]
        dsimp only
        rw [hsharing]
        rfl
      · unfold Succeeds
        rw [hf]
        exact ⟨fun h => h.2, fun h => ⟨hlock, h⟩⟩
      · intro hsize hwriting happending
        exact ⟨f, hf, hlock, hsize, hwriting, happending⟩
  | none =>
    by_cases hfound : ∃ i, s.disk.names p = some i ∧ env.idLeft = true
    · right
      obtain ⟨i, hname, hid⟩ := hfound
      have hreadonly : ¬ FILE_FLAGS_READ.OpenForWriting = true := by decide
      have hopen : s.disk.OpenFile plainFlags p FILE_FLAGS_READ =
          (s.disk, .ok (some ⟨i, FILE_FLAGS_READ⟩)) := by
        unfold Disk.OpenFile
        rw [hname]
        rfl
      obtain ⟨htouch, hbytes⟩ := @BufferedFileSystem.buffer_touches cfg any s p
        ⟨i, FILE_FLAGS_READ⟩ s.disk (fun _ _ => rfl) (fun _ _ _ _ => rfl) hname FILE_FLAGS_READ
      have hquiet := BufferedFileSystem.quiet_newRef htouch.buffered FILE_FLAGS_READ
      have hbuffered : (s.buffer p FILE_FLAGS_READ ⟨i, FILE_FLAGS_READ⟩).files p =
          some ⟨some ⟨i, FILE_FLAGS_READ⟩, FILE_FLAGS_READ, (s.disk.inodes i).size, 0, []⟩ :=
        Function.update_self ..
      have hcontents : s.contents cfg p = some (s.disk.inodes i) := by
        unfold BufferedFileSystem.contents
        rw [hf]
        dsimp only
        rw [hname]
        rfl
      refine ⟨((s.buffer p FILE_FLAGS_READ ⟨i, FILE_FLAGS_READ⟩).newRef p FILE_FLAGS_READ).1, _,
        ?_, ⟨htouch.elsewhere.trans hquiet.elsewhere, hquiet.buffered⟩, ?_,
        newRef_files hbuffered _, ?_, rfl, ?_, ?_⟩
      · unfold BufferedFileSystem.OpenFile
        rw [hf]
        dsimp only
        rw [hopen]
        dsimp only
        rw [if_pos hid]
        rfl
      · rw [hcontents, ← hbytes]
        exact (hquiet.keeps fun _ _ => trivial).symm
      · show FILE_FLAGS_READ.lock ≠ .WRITE_LOCK
        decide
      · unfold Succeeds
        rw [hf]
        constructor
        · rintro ⟨-, k, hk, hsize⟩
          obtain rfl := Option.some.inj (hname.symm.trans hk)
          exact .inl hsize
        · intro h
          refine ⟨hid, i, hname, h.resolve_right ?_⟩
          rintro ⟨hwriting, -⟩
          exact absurd hwriting hreadonly
      · intro _ hwriting _
        exact absurd hwriting hreadonly
    · left
      have hnot : ¬ Succeeds env s p := by
        unfold Succeeds
        rw [hf]
        rintro ⟨hid, i, hname, -⟩
        exact hfound ⟨i, hname, hid⟩
      cases hname : s.disk.names p with
      | none =>
        have hopen : s.disk.OpenFile plainFlags p FILE_FLAGS_READ =
            (s.disk, .error ("Cannot open file " ++ p)) := by
          unfold Disk.OpenFile
          rw [hname]
          rfl
        refine ⟨s, "Cannot open file " ++ p, ?_, hnot⟩
        unfold BufferedFileSystem.OpenFile
        rw [hf]
        dsimp only
        rw [hopen]
      | some i =>
        have hid : ¬ env.idLeft = true := fun hid => hfound ⟨i, hname, hid⟩
        have hopen : s.disk.OpenFile plainFlags p FILE_FLAGS_READ =
            (s.disk, .ok (some ⟨i, FILE_FLAGS_READ⟩)) := by
          unfold Disk.OpenFile
          rw [hname]
          rfl
        refine ⟨s, "cannot open more than 65535 files", ?_, hnot⟩
        unfold BufferedFileSystem.OpenFile
        rw [hf]
        dsimp only
        rw [hopen]
        dsimp only
        rw [if_neg hid]

/-- What the second open comes to. -/
structure OpenedTwice (cfg : Config) (s₁ s₂ : BufferedFileSystem) (p : String)
    (f f' : BufferedFile) : Prop where
  elsewhere : s₁.Local s₂ p
  file : s₂.files p = some f'
  handle : ∃ h, f'.handle = some h
  flags : f'.file_flags = f.file_flags
  size : f'.file_size = f.file_size
  sizes : (s₂.fileOf f').SizesMatch cfg
  refs : s₂.refs = s₁.refs ++ [⟨p, FILE_FLAGS_WRITE_CREATE_NEW, 0⟩]
  /-- A file that is written already, or is empty, is not emptied underneath. -/
  kept : f.file_size = 0 ∨ f.file_flags.OpenForWriting = true →
    s₂.At cfg any p f' ∧ SameContents (s₂.contents cfg p) (s₁.contents cfg p)

/-- The frames do not see that the file underneath has been emptied. -/
theorem sizesMatch_emptied (hat : s.At cfg any p f) :
    (f.file .empty).SizesMatch cfg := by
  have hsizes := (hat.coherent trivial).sizes
  exact ⟨hsizes.sized, fun _ h => absurd h List.not_mem_nil⟩

theorem coherent_emptied (hat : s.At cfg any p f) (hsize : f.file_size = 0) :
    (f.file .empty).Coherent cfg := by
  have hmatch := sizesMatch_emptied hat
  refine ⟨hmatch, hsize.symm, ?_⟩
  intro page F hF _ j hj
  have hdata := hmatch.sized _ (File.mem_of_frame hF)
  have hzero : (f.file .empty).fileSize = 0 := hsize
  rw [hzero] at hdata
  dsimp only at hdata
  omega

/-- **The second open** never fails; a file that is not open for writing is emptied underneath. -/
theorem open_write {s₁ : BufferedFileSystem} {path : String}
    (hdirect : direct (PatchFilename path) = false)
    (h : Opened cfg env s s₁ (PatchFilename path) f) :
    ∃ s₂ f', OpenFile cfg direct env s₁ path FILE_FLAGS_WRITE_CREATE_NEW =
      (s₂, .ok (.buffered s₁.refs.length)) ∧
        OpenedTwice cfg s₁ s₂ (PatchFilename path) f f' := by
  unfold OpenFile
  dsimp only
  rw [hdirect]
  generalize PatchFilename path = p at *
  rw [if_neg Bool.false_ne_true]
  have hat := h.touches.buffered f h.file
  obtain ⟨hd, hh, hname⟩ := hat.linked
  by_cases hwriting : f.file_flags.OpenForWriting = true
  · -- the file is shared
    have hsharing : BufferedFileSystem.BufferedFile.sharing f p FILE_FLAGS_WRITE_CREATE_NEW =
        .shared := by
      unfold BufferedFileSystem.BufferedFile.sharing
      have hkeeps : FILE_FLAGS_WRITE_CREATE_NEW.OpenForAppending = false := by decide
      rw [if_neg h.unlocked, if_neg (by decide), if_pos (by decide), hwriting,
        if_neg (by decide), hkeeps, Bool.false_and, if_neg Bool.false_ne_true]
    have hquiet := BufferedFileSystem.quiet_newRef h.touches.buffered FILE_FLAGS_WRITE_CREATE_NEW
    have hfile := newRef_files h.file FILE_FLAGS_WRITE_CREATE_NEW
    have hat' := hquiet.buffered _ hfile
    refine ⟨(s₁.newRef p FILE_FLAGS_WRITE_CREATE_NEW).1, _, ?_, hquiet.elsewhere, hfile, ⟨hd, hh⟩,
      rfl, rfl, (hat'.coherent trivial).sizes, rfl, ?_⟩
    · unfold BufferedFileSystem.OpenFile
      rw [h.file]
      dsimp only
      rw [hsharing]
      rfl
    · intro _
      exact ⟨hat', (hquiet.keeps fun _ _ => trivial).symm⟩
  · -- it is opened again underneath, and emptied there
    have hsharing : BufferedFileSystem.BufferedFile.sharing f p FILE_FLAGS_WRITE_CREATE_NEW =
        .reopened := by
      unfold BufferedFileSystem.BufferedFile.sharing
      rw [if_neg h.unlocked, if_neg (by decide), if_pos (by decide),
        if_pos (by simpa using hwriting)]
    have hopen : s₁.disk.OpenFile plainFlags p FILE_FLAGS_WRITE_CREATE_NEW =
        (s₁.disk.write hd.inode .empty, .ok (some ⟨hd.inode, FILE_FLAGS_WRITE_CREATE_NEW⟩)) := by
      unfold Disk.OpenFile
      rw [hname]
      rfl
    generalize hs₂ : ((({ s₁ with disk := s₁.disk.write hd.inode .empty } :
      BufferedFileSystem).modifyFile p fun f => { f with
        handle := some ⟨hd.inode, FILE_FLAGS_WRITE_CREATE_NEW⟩ }).newRef p
          FILE_FLAGS_WRITE_CREATE_NEW).1 = s₂
    have hswapped : (({ s₁ with disk := s₁.disk.write hd.inode .empty } :
        BufferedFileSystem).modifyFile p fun f => { f with
          handle := some ⟨hd.inode, FILE_FLAGS_WRITE_CREATE_NEW⟩ }).files p =
        some { f with handle := some ⟨hd.inode, FILE_FLAGS_WRITE_CREATE_NEW⟩ } := by
      rw [BufferedFileSystem.modifyFile_files]
      show (s₁.files p).map _ = _
      rw [h.file]
      rfl
    have hfile := newRef_files hswapped FILE_FLAGS_WRITE_CREATE_NEW
    rw [hs₂] at hfile
    have hnames : s₂.disk.names = s₁.disk.names := by
      rw [← hs₂]
      rfl
    have hinodes : s₂.disk.inodes = Function.update s₁.disk.inodes hd.inode .empty := by
      rw [← hs₂]
      rfl
    have hover : s₂.fileOf { f with
        handle := some ⟨hd.inode, FILE_FLAGS_WRITE_CREATE_NEW⟩, num_users := f.num_users + 1 } =
        f.file .empty := by
      rw [BufferedFileSystem.fileOf_eq rfl, hinodes]
      dsimp only
      rw [Function.update_self]
      rfl
    refine ⟨s₂, _, ?_, ⟨?_, ?_, ?_⟩, hfile, ⟨_, rfl⟩, rfl, rfl, ?_, ?_, ?_⟩
    · unfold BufferedFileSystem.OpenFile
      rw [h.file]
      dsimp only
      rw [hsharing]
      dsimp only
      unfold BufferedFileSystem.ReOpen
      rw [hopen, ← hs₂]
      rfl
    · intro q hq
      rw [← hs₂]
      exact (Function.update_of_ne hq ..).trans (Function.update_of_ne hq ..)
    · intro q _
      rw [hnames]
    · intro q i hq hi
      rw [hinodes]
      refine Function.update_of_ne ?_ ..
      rintro rfl
      exact hq (s₁.disk.names_inj q p _ hi hname)
    · rw [hover]
      exact sizesMatch_emptied hat
    · rw [← hs₂]
      rfl
    · intro hkept
      have hsize := hkept.resolve_right hwriting
      refine ⟨⟨⟨_, rfl, hnames ▸ hname⟩, ?_⟩, ?_⟩
      · intro _
        rw [hover]
        exact coherent_emptied hat hsize
      · rw [contents_of_file hfile, contents_of_file h.file]
        refine ⟨rfl, ?_⟩
        intro x hx
        have hx : x < f.file_size := hx
        omega

/-! ## When the copy is right -/

/-- **A copy that succeeds through the page buffer changes nothing**, if it does not append. -/
theorem copy_keeps (hs : s.Inv cfg any) {path : String}
    (hdirect : direct (PatchFilename path) = false) (hgrows : ¬ Grows s (PatchFilename path))
    (out : String) :
    (Succeeds env s (PatchFilename path) → ∃ s',
      CopyFileToPath cfg direct env s path out (s', .ok ()) ∧
        ∀ q, SameContents (s'.contents cfg q) (s.contents cfg q)) ∧
    (¬ Succeeds env s (PatchFilename path) →
      ∀ s', ¬ CopyFileToPath cfg direct env s path out (s', .ok ())) := by
  unfold CopyFileToPath
  obtain ⟨s', e, hopen, hnot⟩ | ⟨s₁, f, hopen, h₁⟩ := @open_read cfg direct env s hs path hdirect
  · rw [hopen]
    refine ⟨fun h => absurd h hnot, fun _ s'' h => ?_⟩
    cases h
  obtain ⟨s₂, f', hopen₂, h₂⟩ := open_write hdirect h₁
  rw [hopen]
  dsimp only
  rw [hopen₂]
  dsimp only
  generalize PatchFilename path = p at *
  have hij : s.refs.length < s₁.refs.length := by
    rw [h₁.refs, List.length_append]
    exact Nat.lt_succ_self _
  have hr : s₂.refs[s.refs.length]? = some ⟨p, FILE_FLAGS_READ, 0⟩ := by
    rw [h₂.refs, List.getElem?_append_left hij, h₁.refs]
    exact getElem?_snoc _ _
  have hr' : s₂.refs[s₁.refs.length]? = some ⟨p, FILE_FLAGS_WRITE_CREATE_NEW, 0⟩ := by
    rw [h₂.refs]
    exact getElem?_snoc _ _
  constructor
  · intro hsucceeds
    have hmode := h₁.succeeds.mp hsucceeds
    obtain ⟨hat, hcontents⟩ := h₂.kept (hmode.imp_right fun h => h.1)
    have hc := @contents_of_file cfg s₂ p f' h₂.file
    have hgoing : Going cfg s₂ p ⟨f'.file_size, (s₂.fileOf f').view cfg⟩ s.refs.length
        s₁.refs.length 0 ⟨s₂, .buffered s.refs.length, .buffered s₁.refs.length, [], 0, 0⟩ := by
      refine ⟨.refl ?_, ⟨f', h₂.file⟩, rfl, rfl, ⟨_, hr, rfl, rfl⟩, ⟨_, hr', rfl, rfl⟩,
        Nat.zero_le _, Nat.zero_le _, rfl⟩
      intro f'' hf''
      obtain rfl := Option.some.inj (h₂.file.symm.trans hf'')
      exact hat
    have hmode₂ : f'.file_size = 0 ∨ ∀ f, s₂.files p = some f →
        f.file_flags.OpenForWriting = true ∧ f.file_flags.OpenForAppending = true := by
      rw [h₂.size]
      refine hmode.imp_right ?_
      intro hmode f'' hf''
      obtain rfl := Option.some.inj (h₂.file.symm.trans hf'')
      rw [h₂.flags]
      exact hmode
    obtain ⟨s', hends, hquiet⟩ := @going_ends cfg env s₂ p _ _ _ hc hij hmode₂ _ 0 _
      (Nat.le_refl _) hgoing rfl
    refine ⟨s', hends, ?_⟩
    intro q
    by_cases hq : q = p
    · rw [hq]
      exact (hquiet.keeps fun _ _ => trivial).symm.trans (hcontents.trans h₁.contents)
    · have hlocal := (h₁.touches.elsewhere.trans h₂.elsewhere).trans hquiet.elsewhere
      exact .of_eq (hlocal.contents hq (hs.buffered q))
  · intro hnot s' hends
    have hsize : f.file_size ≠ 0 := fun h => hnot (h₁.succeeds.mpr (.inl h))
    have hreading : f.file_flags.OpenForWriting = false := by
      rw [Bool.eq_false_iff]
      intro hwriting
      cases happending : f.file_flags.OpenForAppending with
      | true => exact hnot (h₁.succeeds.mpr (.inr ⟨hwriting, happending⟩))
      | false => exact hgrows (h₁.grows hsize hwriting happending)
    obtain ⟨hd, hh⟩ := h₂.handle
    obtain ⟨s'', e, hthrows⟩ := @copy_throws cfg env s₂ p f' _ _ _ _ (Nat.ne_of_lt hij) h₂.file hd
      hh h₂.sizes (h₂.size ▸ hsize) (h₂.flags ▸ hreading) hr rfl rfl hr' rfl
    cases hends.unique hthrows

/-- With direct I/O the file is emptied, and then there is nothing to read. -/
theorem copy_direct {path : String} (hdirect : direct (PatchFilename path) = true) (out : String)
    (s' : BufferedFileSystem) : CopyFileToPath cfg direct env s path out (s', .ok ()) ↔
      ∃ i, s.disk.names (PatchFilename path) = some i ∧ s' = emptied s i := by
  unfold CopyFileToPath OpenFile
  dsimp only
  rw [hdirect]
  generalize PatchFilename path = p
  rw [if_pos rfl]
  cases hname : s.disk.names p with
  | none =>
    have hopen : s.disk.OpenFile plainFlags p FILE_FLAGS_READ =
        (s.disk, .error ("Cannot open file " ++ p)) := by
      unfold Disk.OpenFile
      rw [hname]
      rfl
    rw [hopen]
    constructor
    · intro h
      cases h
    · rintro ⟨i, hi, -⟩
      cases hi
  | some i =>
    have hopen : s.disk.OpenFile plainFlags p FILE_FLAGS_READ =
        (s.disk, .ok (some ⟨i, FILE_FLAGS_READ⟩)) := by
      unfold Disk.OpenFile
      rw [hname]
      rfl
    have hopen₂ : s.disk.OpenFile plainFlags p FILE_FLAGS_WRITE_CREATE_NEW =
        (s.disk.write i .empty, .ok (some ⟨i, FILE_FLAGS_WRITE_CREATE_NEW⟩)) := by
      unfold Disk.OpenFile
      rw [hname]
      rfl
    have hturn : turn cfg env ⟨emptied s i, .direct i 0, .direct i 0, [], 0, 0⟩ =
        .inr (emptied s i, .ok ()) := by
      have hempty : (emptied s i).disk.inodes i = .empty := Function.update_self ..
      have hnone : min (env.transferred 0) (min buffer_size (Contents.empty.size - 0)) = 0 := by
        show min (env.transferred 0) (min 16384 (0 - 0)) = 0
        omega
      unfold turn Read
      dsimp only
      rw [if_pos rfl, hempty, hnone, if_pos length_segment]
      rfl
    rw [hopen]
    dsimp only
    rw [if_pos rfl, hopen₂]
    dsimp only
    constructor
    · intro hends
      have hresult := hends.unique (.left hturn)
      injection hresult with hresult _
      exact ⟨i, rfl, hresult⟩
    · rintro ⟨k, hk, rfl⟩
      obtain rfl := Option.some.inj hk
      exact .left hturn

theorem copy_unique {path out : String} {r r' : Result}
    (h : CopyFileToPath cfg direct env s path out r)
    (h' : CopyFileToPath cfg direct env s path out r') : r = r' := by
  unfold CopyFileToPath at h h'
  split at h
  next hopen =>
    rw [hopen] at h'
    exact h.trans h'.symm
  next hopen =>
    rw [hopen] at h'
    dsimp only at h'
    split at h
    next hopen₂ =>
      rw [hopen₂] at h'
      exact h.trans h'.symm
    next hopen₂ =>
      rw [hopen₂] at h'
      exact h.unique h'

/-- Only the file `a`, which is not buffered. -/
def fileA (c : Contents) : BufferedFileSystem := .initial (oneFile "a" c)

theorem fileA_name (c : Contents) : (fileA c).disk.names "a" = some 0 := by
  show (if "a" = "a" then some 0 else none) = some 0
  exact if_pos rfl

/-- An environment in which nothing else happens. -/
def quietEnv : Env where
  idLeft := true
  access _ := ⟨[], fun _ => 0⟩
  transferred _ := 16384

end Haybarn.WebDB.CopyFile
