import Haybarn.Io.FileView

/-!
# The buffered file system

`BufferedFileSystem` (lib/src/io/buffered_filesystem.cc) reads and writes whole ranges of a file,
page by page, through `FileRef`, and keeps a position in it.

Mirroring notes:
- Before a page is loaded frames may be evicted, and the new frame has some buffer: `Access` says
  which and what, for each page that an operation comes to. `evict` comes between operations.
- A loop has fuel, and is `none` when it would go on without it: it does not return.
- A file with direct I/O is not buffered, and is left out.
-/

namespace Haybarn.Io.PagedFile

open Haybarn.Lib

/-- What happens when an operation comes to a page. -/
structure Access where
  evicted : List Nat
  stale : Nat → UInt8

namespace File

variable (cfg : Config)

def makeRoom (s : File) (pages : List Nat) : File := pages.foldl (fun s page => s.evict cfg page) s

/-- The loop of `BufferedFileSystem::Read`: the bytes it has copied. -/
def readPages (fileSize : Nat) (access : Nat → Access) : Nat → File → Nat → Nat →
    Option (File × List UInt8)
  | 0, s, n, location => if 0 < n ∧ location < fileSize then none else some (s, [])
  | fuel + 1, s, n, location =>
    if 0 < n ∧ location < fileSize then
      let here := (s.makeRoom cfg (access fuel).evicted).read cfg n location (access fuel).stale
      match readPages fileSize access fuel here.1 (n - here.2.length)
          (location + here.2.length) with
      | some (s, rest) => some (s, here.2 ++ rest)
      | none => none
    else some (s, [])

/-- The loop of `BufferedFileSystem::Write`. -/
def writePages (access : Nat → Access) : Nat → File → List UInt8 → Nat →
    Option (File × Except String Unit)
  | _, s, [], _ => some (s, .ok ())
  | 0, _, _ :: _, _ => none
  | fuel + 1, s, b :: bs, location =>
    match (s.makeRoom cfg (access fuel).evicted).write cfg (b :: bs) location
        (access fuel).stale with
    | .error e => some (s, .error e)
    | .ok (s, n) => writePages access fuel s ((b :: bs).drop n) (location + n)

end File

/-- `BufferedFileHandle` -/
structure Handle where
  file : File
  filePosition : Nat

inductive Answer
  | bytes (bs : List UInt8)
  | count (n : Nat)
  | done
  | thrown (message : String)
  deriving DecidableEq, Repr

/-- The calls on a file: those of `FileRef`, and those of `BufferedFileSystem`. -/
inductive Call
  /-- `EvictAnyBufferFrame`, for some page that is to be loaded. -/
  | evict (page : Nat)
  | read (n offset : Nat) (access : Access)
  | write (bytes : List UInt8) (offset : Nat) (access : Access)
  | append (bytes : List UInt8)
  | truncate (newSize : Nat)
  | flush
  /-- `Read` and `Write` at a location. -/
  | readExactly (n location : Nat) (access : Nat → Access)
  | writeExactly (bytes : List UInt8) (location : Nat) (access : Nat → Access)
  /-- `Read` and `Write` at the position. -/
  | readNext (n : Nat) (access : Access)
  | writeNext (bytes : List UInt8) (access : Access)
  | seek (location : Nat)

namespace Handle

variable (cfg : Config) (h : Handle)

/-- `FileRef::Read`, after the eviction for its page. -/
def readAt (n offset : Nat) (access : Access) : File × List UInt8 :=
  (h.file.makeRoom cfg access.evicted).read cfg n offset access.stale

/-- `FileRef::Write`: the file and the number of bytes written. -/
def writeAt (bytes : List UInt8) (offset : Nat) (access : Access) : Except String (File × Nat) :=
  (h.file.makeRoom cfg access.evicted).write cfg bytes offset access.stale

/-- `BufferedFileSystem::Read`, of exactly `n` bytes. -/
def readExactly (n location : Nat) (access : Nat → Access) : Option (Handle × Answer) :=
  match File.readPages cfg h.file.fileSize access n h.file n location with
  | none => none
  | some (file, bs) =>
    let position := location + bs.length
    some (⟨file, position⟩,
      if h.file.fileSize ≤ position ∧ 0 < n - bs.length then
        .thrown "tried to read past the end"
      else .bytes bs)

/-- `BufferedFileSystem::Write`, of all bytes. -/
def writeExactly (bytes : List UInt8) (location : Nat) (access : Nat → Access) :
    Option (Handle × Answer) :=
  match File.writePages cfg access bytes.length h.file bytes location with
  | none => none
  | some (file, .ok ()) => some (⟨file, location + bytes.length⟩, .done)
  | some (file, .error e) => some ({ h with file }, .thrown e)

/-- One call: the handle after it, and the answer. -/
def step : Call → Option (Handle × Answer)
  | .evict page => some ({ h with file := h.file.evict cfg page }, .done)
  | .flush => some ({ h with file := h.file.flush cfg }, .done)
  | .seek location => some ({ h with filePosition := location }, .done)
  | .read n offset access =>
    let r := h.readAt cfg n offset access
    some ({ h with file := r.1 }, .bytes r.2)
  | .readNext n access =>
    let r := h.readAt cfg n h.filePosition access
    some (⟨r.1, h.filePosition + r.2.length⟩, .bytes r.2)
  | .write bytes offset access =>
    match h.writeAt cfg bytes offset access with
    | .ok (file, n) => some ({ h with file }, .count n)
    | .error e => some (h, .thrown e)
  | .writeNext bytes access =>
    match h.writeAt cfg bytes h.filePosition access with
    | .ok (file, n) => some (⟨file, h.filePosition + n⟩, .count n)
    | .error e => some (h, .thrown e)
  | .append bytes =>
    match h.file.append cfg bytes with
    | .ok file => some ({ h with file }, .done)
    | .error e => some (h, .thrown e)
  | .truncate newSize =>
    match h.file.truncate cfg newSize with
    | .ok file => some ({ h with file }, .done)
    | .error e => some (h, .thrown e)
  | .readExactly n location access => h.readExactly cfg n location access
  | .writeExactly bytes location access => h.writeExactly cfg bytes location access

end Handle

/-! ## What writes rely on -/

/-- A call of `FileRef::Write` appends, at the end of the file, or stays within the file. -/
def File.WriteFits (cfg : Config) (s : File) (n offset : Nat) : Prop :=
  s.openForWriting = true →
    if !s.openForAppending || offset == s.fileSize then
      (n = 0 ∨ offset = s.fileSize) ∧ s.AppendFits cfg n
    else
      (n = 0 ∨ offset + File.writeCount cfg n offset ≤ s.fileSize)
        ∧ s.LoadFits cfg (offset / cfg.pageSize)

/-- A call of `BufferedFileSystem::Write` stays within the file, or passes its end where a page
ends, or begins at the end. A file that is not open for appending is only ever appended to. -/
def File.WritesFit (cfg : Config) (s : File) (n location : Nat) : Prop :=
  s.openForWriting = true → n = 0 ∨
    if s.openForAppending then
      location ≤ s.fileSize ∧ (location + n ≤ s.fileSize
        ∨ (location = s.fileSize ∨ s.fileSize % cfg.pageSize = 0)
          ∧ s.AppendFits cfg (location + n - s.fileSize))
    else location = s.fileSize ∧ s.AppendFits cfg n

/-! ## Frames before and after -/

namespace File

variable {cfg : Config} {s : File}

def pages (s : File) : List Nat := s.frames.map (·.1)

theorem appendFits_iff {n : Nat} : s.AppendFits cfg n ↔
    ∀ page ∈ s.pages, s.fileSize < page * cfg.pageSize → s.fileSize + n ≤ page * cfg.pageSize := by
  unfold AppendFits pages
  rw [List.forall_mem_map]

/-- Frames that begin in the file do not matter to an append. -/
theorem AppendFits.of_pages {s' : File} {n : Nat} (h : s.AppendFits cfg n)
    (hsize : s'.fileSize = s.fileSize)
    (hpages : ∀ page ∈ s'.pages, page ∈ s.pages ∨ page * cfg.pageSize ≤ s.fileSize) :
    s'.AppendFits cfg n := by
  rw [appendFits_iff] at h ⊢
  intro page hpage hfar
  rw [hsize] at hfar ⊢
  rcases hpages page hpage with hmem | hle
  · exact h page hmem hfar
  · omega

theorem pages_modifyFrame (s : File) (page : Nat) (f : Frame → Frame) :
    (s.modifyFrame page f).pages = s.pages := by
  unfold pages modifyFrame
  rw [List.map_map]
  refine List.map_congr_left fun x _ => ?_
  show (if x.1 = page then (x.1, f x.2) else x).1 = x.1
  split <;> rfl

theorem pages_flushFrame (cfg : Config) (s : File) (page : Nat) :
    (s.flushFrame cfg page).pages = s.pages := by
  unfold File.flushFrame
  split
  · split
    · exact pages_modifyFrame s page fun F => { F with isDirty := false }
    · rfl
  · rfl

theorem mem_pages_evict {page q : Nat} (h : q ∈ (s.evict cfg page).pages) : q ∈ s.pages := by
  obtain ⟨x, hx, rfl⟩ := List.mem_map.mp h
  rw [← pages_flushFrame cfg s page]
  exact List.mem_map_of_mem (List.mem_filter.mp hx).1

theorem mem_pages_makeRoom {evicted : List Nat} {q : Nat} :
    ∀ {s : File}, q ∈ (s.makeRoom cfg evicted).pages → q ∈ s.pages := by
  induction evicted with
  | nil => exact fun h => h
  | cons page evicted ih => exact fun h => mem_pages_evict (ih h)

theorem mem_pages_fixPage {page q : Nat} {stale : Nat → UInt8}
    (h : q ∈ (s.fixPage cfg page stale).pages) : q ∈ s.pages ∨ q = page := by
  unfold File.fixPage at h
  split at h
  · exact .inl h
  · exact (List.mem_cons.mp h).symm

theorem SameBytes.makeRoom (evicted : List Nat) :
    ∀ {s : File}, s.Coherent cfg → s.SameBytes cfg (s.makeRoom cfg evicted) := by
  induction evicted with
  | nil => exact fun hc => .refl hc
  | cons page evicted ih =>
    intro s hc
    have hevict := SameBytes.evict hc page
    exact hevict.trans (ih hevict.coherent)

/-! ## Reading page by page -/

/-- The loop reads what there is from the location on, and does not change the file. -/
theorem readPages_view (access : Nat → Access) (fuel : Nat) :
    ∀ {s : File} {n : Nat} (location : Nat), s.Coherent cfg → n ≤ fuel →
      ∃ s', readPages cfg s.fileSize access fuel s n location
          = some (s', segment (s.view cfg) location (min n (s.fileSize - location)))
        ∧ s.SameBytes cfg s' := by
  induction fuel with
  | zero =>
    intro s n location hc hn
    have hzero : n = 0 := by omega
    unfold readPages
    rw [if_neg (by omega), hzero, Nat.zero_min]
    exact ⟨s, rfl, .refl hc⟩
  | succ fuel ih =>
    intro s n location hc hn
    unfold readPages
    by_cases hmore : 0 < n ∧ location < s.fileSize
    · rw [if_pos hmore]
      have hroom := SameBytes.makeRoom (access fuel).evicted hc
      obtain ⟨hread, hbytes⟩ := read_view hroom.coherent n location (access fuel).stale
      generalize (s.makeRoom cfg (access fuel).evicted).read cfg n location (access fuel).stale
        = here at *
      have hhere := hroom.trans hread
      have hcount : 0 < readCount cfg (s.makeRoom cfg (access fuel).evicted) n location
          ∧ readCount cfg (s.makeRoom cfg (access fuel).evicted) n location
            ≤ min n (s.fileSize - location) := by
        unfold readCount
        rw [hroom.fileSize]
        have hpos := Nat.mod_lt location cfg.pageSize_pos
        omega
      generalize readCount cfg (s.makeRoom cfg (access fuel).evicted) n location = k at *
      have hlen : here.2.length = k := by rw [hbytes, length_segment]
      dsimp only
      rw [hlen]
      obtain ⟨s', hrest, hsame⟩ := @ih here.1 (n - k) (location + k) hhere.coherent (by omega)
      rw [hhere.fileSize] at hrest
      refine ⟨s', ?_, hhere.trans hsame⟩
      rw [hrest, hbytes]
      dsimp only
      have hfirst : segment ((s.makeRoom cfg (access fuel).evicted).view cfg) location k
          = segment (s.view cfg) location k :=
        segment_congr fun i _ hi => hroom.view i (by omega)
      have hthen : segment (here.1.view cfg) (location + k)
            (min (n - k) (s.fileSize - (location + k)))
          = segment (s.view cfg) (location + k) (min (n - k) (s.fileSize - (location + k))) :=
        segment_congr fun i _ hi => hhere.view i (by omega)
      have hsum : k + min (n - k) (s.fileSize - (location + k))
          = min n (s.fileSize - location) := by omega
      rw [hfirst, hthen, segment_append, hsum]
    · rw [if_neg hmore]
      have hnone : min n (s.fileSize - location) = 0 := by omega
      rw [hnone]
      exact ⟨s, rfl, .refl hc⟩

/-! ## Writing page by page -/

/-- What a write is to do to the file. -/
structure Written (cfg : Config) (s : File) (bytes : List UInt8) (location : Nat) (s' : File) :
    Prop where
  coherent : s'.Coherent cfg
  mode : s.SameMode s'
  within : bytes.length = 0 ∨ location ≤ s.fileSize
  fileSize : s'.fileSize
    = if bytes.length = 0 then s.fileSize else max s.fileSize (location + bytes.length)
  view : ∀ i, i < s'.fileSize → s'.view cfg i = put (s.view cfg) location bytes i

theorem Written.nil (hc : s.Coherent cfg) (location : Nat) : s.Written cfg [] location s :=
  ⟨hc, .refl s, .inl rfl, rfl, fun _ _ => by rw [put_nil]⟩

/-- A write after operations that change no byte. -/
theorem Written.of_sameBytes {s₁ s' : File} {bytes : List UInt8} {location : Nat}
    (h : s.SameBytes cfg s₁) (h' : s₁.Written cfg bytes location s') :
    s.Written cfg bytes location s' := by
  have hin := h'.within
  rw [h.fileSize] at hin
  refine ⟨h'.coherent, h.mode.trans h'.mode, hin, h.fileSize ▸ h'.fileSize, ?_⟩
  intro i hi
  rw [h'.view i hi]
  by_cases hend : i < s.fileSize
  · exact put_congr (h.view i hend)
  · have hsize := h'.fileSize
    rw [h.fileSize] at hsize
    split at hsize
    · omega
    · exact put_of_mem (by omega) (by omega)

/-- Two writes that follow each other. -/
theorem Written.append {s₁ s' : File} {xs ys : List UInt8} {location : Nat}
    (h : s.Written cfg xs location s₁) (h' : s₁.Written cfg ys (location + xs.length) s') :
    s.Written cfg (xs ++ ys) location s' := by
  have hsize := h.fileSize
  have hsize' := h'.fileSize
  have hin := h.within
  have hin' := h'.within
  refine ⟨h'.coherent, h.mode.trans h'.mode, ?_, ?_, ?_⟩
  · rw [List.length_append]
    split at hsize <;> omega
  · rw [hsize', hsize, List.length_append]
    split <;> split <;> split <;> omega
  · intro i hi
    rw [h'.view i hi, ← put_append]
    by_cases hend : i < s₁.fileSize
    · exact put_congr (h.view i hend)
    · refine put_of_mem ?_ ?_
      · split at hsize' <;> split at hsize <;> omega
      · split at hsize' <;> omega

/-- A call of `FileRef::Write` writes the bytes that it says. -/
theorem write_written (hc : s.Coherent cfg) (hw : s.openForWriting = true) {bytes : List UInt8}
    {offset : Nat} (stale : Nat → UInt8) (hfits : s.WriteFits cfg bytes.length offset) :
    ∃ s' n, s.write cfg bytes offset stale = .ok (s', n) ∧ n ≤ bytes.length
      ∧ (n = 0 → bytes.length = 0) ∧ s.Written cfg (bytes.take n) offset s' := by
  have hfits := hfits hw
  obtain ⟨s', n, hwrite⟩ := write_of_writable cfg hw bytes offset stale
  refine ⟨s', n, hwrite, ?_⟩
  by_cases hplace : (!s.openForAppending || offset == s.fileSize) = true
  · rw [if_pos hplace] at hfits
    obtain ⟨s₁, happend⟩ := append_of_writable cfg hw bytes
    have hsame : s₁ = s' ∧ bytes.length = n := by
      unfold File.write at hwrite
      rw [if_pos hplace, hw, happend] at hwrite
      injection hwrite with hwrite
      injection hwrite with hs hn
      exact ⟨hs, hn⟩
    obtain ⟨rfl, rfl⟩ := hsame
    obtain ⟨hc', hmode, hsize, hview⟩ := append_view hc hfits.2 happend
    refine ⟨Nat.le_refl _, fun h => h, ?_⟩
    rw [List.take_length]
    refine ⟨hc', hmode, hfits.1.imp_right Nat.le_of_eq, ?_, ?_⟩
    · rw [hsize]
      split <;> omega
    · intro i hi
      rw [hview i hi]
      rcases hfits.1 with hzero | rfl
      · rw [List.length_eq_zero_iff.mp hzero, put_nil, put_nil]
      · rfl
  · rw [if_neg hplace] at hfits
    obtain ⟨hn, hc', hmode, hsize, hview⟩ :=
      write_view hc (Bool.eq_false_iff.mpr hplace) hfits.2 hwrite
    have hpos := Nat.mod_lt offset cfg.pageSize_pos
    unfold writeCount at hn hfits
    have hlen : (bytes.take n).length = n := by
      rw [List.length_take]
      omega
    refine ⟨by omega, by omega, hc', hmode, by omega, ?_, ?_⟩
    · rw [hsize, hlen]
      split <;> omega
    · intro i hi
      exact hview i (hsize ▸ hi)

/-- How far a call of `FileRef::Write` gets, and which page it buffers. -/
theorem write_ok {bytes : List UInt8} {offset n : Nat} {stale : Nat → UInt8} {s' : File}
    (h : s.write cfg bytes offset stale = .ok (s', n)) :
    if !s.openForAppending || offset == s.fileSize then n = bytes.length
    else n = writeCount cfg bytes.length offset
      ∧ ∀ q ∈ s'.pages, q ∈ s.pages ∨ q = offset / cfg.pageSize := by
  have hmod := cfg.page_add_mod offset
  have hskip : offset - offset / cfg.pageSize * cfg.pageSize = offset % cfg.pageSize := by omega
  unfold File.write at h
  dsimp only at h
  rw [cfg.shiftRight_eq, hskip] at h
  split at h
  · cases h
  · split at h
    · next hplace =>
      rw [if_pos hplace]
      cases happend : s.append cfg bytes with
      | error e =>
        rw [happend] at h
        cases h
      | ok s₁ =>
        rw [happend] at h
        cases h
        rfl
    · next hplace =>
      rw [if_neg hplace]
      injection h with h
      injection h with hs' hn
      subst hs'
      refine ⟨hn.symm, ?_⟩
      intro q hq
      rw [pages_modifyFrame] at hq
      exact mem_pages_fixPage hq

theorem WritesFit.of_sameBytes {s₁ : File} {n location : Nat} (h : s.WritesFit cfg n location)
    (hmode : s.SameMode s₁) (hsize : s₁.fileSize = s.fileSize)
    (hpages : ∀ page ∈ s₁.pages, page ∈ s.pages ∨ page * cfg.pageSize ≤ s.fileSize) :
    s₁.WritesFit cfg n location := by
  unfold WritesFit at h ⊢
  rw [hmode.1, hmode.2, hsize]
  intro hw
  refine (h hw).imp_right ?_
  intro h
  split
  · next happ =>
    rw [if_pos happ] at h
    refine ⟨h.1, h.2.imp_right ?_⟩
    exact fun h => ⟨h.1, h.2.of_pages hsize hpages⟩
  · next happ =>
    rw [if_neg happ] at h
    exact ⟨h.1, h.2.of_pages hsize hpages⟩

/-- The first page of a write that fits. -/
theorem WritesFit.first {n location : Nat} (h : s.WritesFit cfg n location) (hn : n ≠ 0) :
    s.WriteFits cfg n location := by
  intro hw
  have h := (h hw).resolve_left hn
  cases happ : s.openForAppending with
  | false =>
    rw [happ, if_neg (by decide)] at h
    rw [if_pos (by rfl)]
    exact ⟨.inr h.1, h.2⟩
  | true =>
    rw [happ, if_pos rfl] at h
    obtain ⟨hin, h⟩ := h
    by_cases hend : location = s.fileSize
    · rw [if_pos (by rw [hend, beq_self_eq_true]; rfl)]
      refine ⟨.inr hend, ?_⟩
      have hfits := h.resolve_left (by omega)
      rw [hend, Nat.add_sub_cancel_left] at hfits
      exact hfits.2
    · rw [if_neg (by rw [beq_eq_false_iff_ne.mpr hend]; decide)]
      have hle := cfg.page_le location
      refine ⟨.inr ?_, fun _ => by omega⟩
      unfold writeCount
      rcases h with h | ⟨h, -⟩
      · omega
      · have hpage := cfg.page_end_le (h.resolve_left hend) (Nat.lt_of_le_of_ne hin hend)
        omega

/-- What is left of a write that fits, after its first page, fits. -/
theorem WritesFit.rest {n k location : Nat} {s' : File} (h : s.WritesFit cfg n location)
    (hn : n ≠ 0) (hmode : s.SameMode s')
    (hsize : s'.fileSize = if min k n = 0 then s.fileSize else max s.fileSize (location + min k n))
    (hpage : if !s.openForAppending || location == s.fileSize then k = n
      else k = writeCount cfg n location
        ∧ ∀ q ∈ s'.pages, q ∈ s.pages ∨ q = location / cfg.pageSize) :
    s'.WritesFit cfg (n - k) (location + k) := by
  intro hw
  have hfirst := h.first hn (hmode.1 ▸ hw)
  have h := (h (hmode.1 ▸ hw)).resolve_left hn
  by_cases hplace : (!s.openForAppending || location == s.fileSize) = true
  · rw [if_pos hplace] at hpage
    exact .inl (by omega)
  · rw [if_neg hplace] at hpage hfirst
    obtain ⟨hk, hpages⟩ := hpage
    have hin := hfirst.1.resolve_left hn
    rw [← hk] at hin
    have happ : s.openForAppending = true := by
      cases happ : s.openForAppending with
      | true => rfl
      | false =>
        rw [happ] at hplace
        exact absurd rfl hplace
    have hend : location ≠ s.fileSize := by
      rintro rfl
      rw [beq_self_eq_true, Bool.or_true] at hplace
      exact hplace rfl
    rw [happ, if_pos rfl] at h
    have hsame : s'.fileSize = s.fileSize := by
      rw [hsize]
      split <;> omega
    right
    rw [hmode.2, happ, if_pos rfl, hsame]
    refine ⟨hin, ?_⟩
    rcases h.2 with hfit | ⟨hmod, hfit⟩
    · exact .inl (by unfold writeCount at hk; omega)
    · have hle := cfg.page_le location
      have hpages' : ∀ q ∈ s'.pages, q ∈ s.pages ∨ q * cfg.pageSize ≤ s.fileSize := by
        intro q hq
        refine (hpages q hq).imp_right ?_
        rintro rfl
        omega
      have hleft : location + k + (n - k) - s.fileSize = location + n - s.fileSize := by
        unfold writeCount at hk
        omega
      rw [hleft]
      exact .inr ⟨.inr (hmod.resolve_left hend), hfit.of_pages hsame hpages'⟩

/-- **The loop of `BufferedFileSystem::Write` writes all bytes**, if they fit. -/
theorem writePages_written (access : Nat → Access) (fuel : Nat) :
    ∀ {s : File} {bytes : List UInt8} {location : Nat}, s.Coherent cfg →
      s.openForWriting = true → s.WritesFit cfg bytes.length location → bytes.length ≤ fuel →
      ∃ s', writePages cfg access fuel s bytes location = some (s', .ok ())
        ∧ s.Written cfg bytes location s' := by
  induction fuel with
  | zero =>
    intro s bytes location hc hw hfits hfuel
    rw [List.length_eq_zero_iff.mp (Nat.le_zero.mp hfuel)]
    exact ⟨s, by unfold writePages; rfl, .nil hc location⟩
  | succ fuel ih =>
    intro s bytes location hc hw hfits hfuel
    cases bytes with
    | nil => exact ⟨s, by unfold writePages; rfl, .nil hc location⟩
    | cons b bs =>
      unfold writePages
      generalize hbytes : b :: bs = bytes at *
      have hne : bytes.length ≠ 0 := by
        rw [← hbytes, List.length_cons]
        omega
      have hroom := SameBytes.makeRoom (access fuel).evicted hc
      have hfits' := hfits.of_sameBytes hroom.mode hroom.fileSize
        fun page hpage => .inl (mem_pages_makeRoom hpage)
      have hw' := hroom.mode.1.trans hw
      obtain ⟨s₁, n, hwrite, hn, hprogress, hwritten⟩ :=
        write_written hroom.coherent hw' (access fuel).stale (hfits'.first hne)
      rw [hwrite]
      have hlen : (bytes.take n).length = n := by
        rw [List.length_take]
        omega
      have hsize := hwritten.fileSize
      rw [List.length_take] at hsize
      have hrest := hfits'.rest hne hwritten.mode hsize (write_ok hwrite)
      rw [← List.length_drop] at hrest
      obtain ⟨s', hloop, hwritten'⟩ := ih hwritten.coherent (hwritten.mode.1.trans hw') hrest (by
        rw [List.length_drop]
        omega)
      refine ⟨s', hloop, ?_⟩
      have hthen : s₁.Written cfg (bytes.drop n) (location + (bytes.take n).length) s' := by
        rw [hlen]
        exact hwritten'
      have hall := hwritten.append hthen
      rw [List.take_append_drop] at hall
      exact .of_sameBytes hroom hall

end File

end Haybarn.Io.PagedFile
