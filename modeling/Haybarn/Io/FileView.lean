import Haybarn.Io.FrameSizes

/-!
# The bytes of a buffered file

A byte of a buffered file is in the frame of its page, if there is one, and on the disk otherwise
(`File.view`). While the frames are coherent with the disk (`File.Coherent`: their sizes match, a
clean frame has what the disk has) loading, flushing and evicting a page does not change a byte,
and a read, an append, a write into a page and a truncation do to the bytes what they do to an
array, if they find what they rely on.
-/

namespace Haybarn.Io.PagedFile

open Haybarn.Lib

variable {cfg : Config} {s : File}

/-- The byte at a position. -/
def File.view (cfg : Config) (s : File) (i : Nat) : UInt8 :=
  match s.frame (i / cfg.pageSize) with
  | some F => F.buffer (i % cfg.pageSize)
  | none => s.disk i

structure File.Coherent (cfg : Config) (s : File) : Prop where
  sizes : s.SizesMatch cfg
  diskSize : s.diskSize = s.fileSize
  /-- What is in a clean frame is on the disk. -/
  clean : ∀ page F, s.frame page = some F → F.isDirty = false →
    ∀ j, j < F.dataSize → F.buffer j = s.disk (page * cfg.pageSize + j)

def File.SameMode (s s' : File) : Prop :=
  s'.openForWriting = s.openForWriting ∧ s'.openForAppending = s.openForAppending

/-- The operation keeps the frames coherent and every byte of the file. -/
structure File.SameBytes (cfg : Config) (s s' : File) : Prop where
  coherent : s'.Coherent cfg
  mode : s.SameMode s'
  fileSize : s'.fileSize = s.fileSize
  view : ∀ i, i < s.fileSize → s'.view cfg i = s.view cfg i

/-! ## Positions and pages -/

theorem Config.of_page (cfg : Config) {page i : Nat} (h : page * cfg.pageSize ≤ i)
    (h' : i < page * cfg.pageSize + cfg.pageSize) :
    i / cfg.pageSize = page ∧ i % cfg.pageSize = i - page * cfg.pageSize := by
  have hdiv : i / cfg.pageSize = page := by
    refine Nat.div_eq_of_lt_le h ?_
    rw [Nat.succ_mul]
    exact h'
  have hsplit := Nat.div_add_mod i cfg.pageSize
  rw [hdiv, Nat.mul_comm] at hsplit
  exact ⟨hdiv, by omega⟩

theorem Config.pages_apart (cfg : Config) {p q : Nat} (h : p ≠ q) :
    p * cfg.pageSize + cfg.pageSize ≤ q * cfg.pageSize
      ∨ q * cfg.pageSize + cfg.pageSize ≤ p * cfg.pageSize := by
  rcases Nat.lt_or_gt_of_ne h with h | h
  · left
    rw [← Nat.succ_mul]
    exact Nat.mul_le_mul_right _ h
  · right
    rw [← Nat.succ_mul]
    exact Nat.mul_le_mul_right _ h

theorem Config.page_add_mod (cfg : Config) (i : Nat) :
    i / cfg.pageSize * cfg.pageSize + i % cfg.pageSize = i := by
  rw [Nat.mul_comm]
  exact Nat.div_add_mod i cfg.pageSize

/-- Where pages end with the file, the page of a position in the file does not go beyond it. -/
theorem Config.page_end_le (cfg : Config) {i size : Nat} (hsize : size % cfg.pageSize = 0)
    (hi : i < size) : i + (cfg.pageSize - i % cfg.pageSize) ≤ size := by
  have hmod := cfg.page_add_mod i
  have hmod' := cfg.page_add_mod size
  have hne : i / cfg.pageSize ≠ size / cfg.pageSize := by
    intro hsame
    rw [hsame] at hmod
    omega
  have hapart := cfg.pages_apart hne
  have hpos := Nat.mod_lt i cfg.pageSize_pos
  omega

/-! ## Frames by page -/

namespace File

theorem frame_modifyFrame (s : File) (page q : Nat) (h : Frame → Frame) :
    (s.modifyFrame page h).frame q = if q = page then (s.frame q).map h else s.frame q := by
  unfold frame modifyFrame
  dsimp only
  induction s.frames with
  | nil => exact (ite_self _).symm
  | cons x xs ih =>
    rw [List.map_cons, List.lookup_cons, List.lookup_cons]
    by_cases hx : x.1 = page
    · rw [if_pos hx]
      by_cases hq : q = x.1
      · rw [if_pos (hq.trans hx), hq, beq_self_eq_true]
        rfl
      · rw [beq_eq_false_iff_ne.mpr hq]
        exact ih
    · rw [if_neg hx]
      by_cases hq : q = x.1
      · rw [if_neg (hq ▸ hx), hq, beq_self_eq_true]
      · rw [beq_eq_false_iff_ne.mpr hq]
        exact ih

theorem lookup_map (h : Nat × Frame → Frame) (l : List (Nat × Frame)) (q : Nat) :
    (l.map fun x => (x.1, h x)).lookup q = (l.lookup q).map fun F => h (q, F) := by
  induction l with
  | nil => rfl
  | cons x xs ih =>
    rw [List.map_cons, List.lookup_cons, List.lookup_cons]
    by_cases hq : q = x.1
    · rw [hq, beq_self_eq_true]
      rfl
    · rw [beq_eq_false_iff_ne.mpr hq]
      exact ih

theorem lookup_filter (l : List (Nat × Frame)) (page q : Nat) :
    (l.filter fun x => x.1 ≠ page).lookup q = if q = page then none else l.lookup q := by
  induction l with
  | nil => exact (ite_self _).symm
  | cons x xs ih =>
    rw [List.filter_cons, List.lookup_cons]
    by_cases hx : x.1 = page
    · rw [if_neg (by simpa using hx), ih]
      by_cases hq : q = page
      · rw [if_pos hq, if_pos hq]
      · rw [if_neg hq, if_neg hq, beq_eq_false_iff_ne.mpr (hx ▸ hq)]
    · rw [if_pos (by simpa using hx), List.lookup_cons, ih]
      by_cases hq : q = x.1
      · rw [hq, if_neg hx, if_neg hx]
      · rw [beq_eq_false_iff_ne.mpr hq]

/-- A buffered frame covers the part of its page that is in the file. -/
theorem Coherent.dataSize (hc : s.Coherent cfg) {page : Nat} {F : Frame}
    (h : s.frame page = some F) :
    F.dataSize = min (s.fileSize - page * cfg.pageSize) cfg.pageSize :=
  hc.sizes.sized (page, F) (mem_of_frame h)

theorem view_of_frame {i : Nat} {F : Frame} (h : s.frame (i / cfg.pageSize) = some F) :
    s.view cfg i = F.buffer (i % cfg.pageSize) := by
  unfold view
  rw [h]

theorem view_of_none {i : Nat} (h : s.frame (i / cfg.pageSize) = none) :
    s.view cfg i = s.disk i := by
  unfold view
  rw [h]

/-- The bytes of a buffered page are those in the frame. -/
theorem view_page {page j : Nat} {F : Frame} (hF : s.frame page = some F) (hj : j < cfg.pageSize) :
    s.view cfg (page * cfg.pageSize + j) = F.buffer j := by
  have hpos := @Config.of_page cfg page (page * cfg.pageSize + j) (by omega) (by omega)
  have hback : page * cfg.pageSize + j - page * cfg.pageSize = j := by omega
  have hF' : s.frame ((page * cfg.pageSize + j) / cfg.pageSize) = some F := by
    rw [hpos.1]
    exact hF
  rw [view_of_frame hF', hpos.2, hback]

theorem SameMode.refl (s : File) : s.SameMode s := ⟨rfl, rfl⟩

theorem SameMode.trans {s' s'' : File} (h : s.SameMode s') (h' : s'.SameMode s'') :
    s.SameMode s'' :=
  ⟨h'.1.trans h.1, h'.2.trans h.2⟩

theorem SameBytes.refl (hc : s.Coherent cfg) : s.SameBytes cfg s :=
  ⟨hc, .refl s, rfl, fun _ _ => rfl⟩

theorem SameBytes.trans {s' s'' : File} (h : s.SameBytes cfg s') (h' : s'.SameBytes cfg s'') :
    s.SameBytes cfg s'' :=
  ⟨h'.coherent, h.mode.trans h'.mode, h'.fileSize.trans h.fileSize,
    fun i hi => (h'.view i (h.fileSize ▸ hi)).trans (h.view i hi)⟩

/-! ## Loading, flushing and evicting -/

/-- The frame that `LoadFrame` leaves. -/
def loaded (cfg : Config) (s : File) (page : Nat) (stale : Nat → UInt8) : Frame :=
  let dataSize := toUint32 (min (sub64 s.fileSize (page * cfg.pageSize)) cfg.pageSize)
  { buffer := copy stale 0 (fun i => s.disk (page * cfg.pageSize + i))
      (min dataSize (s.diskSize - page * cfg.pageSize))
    dataSize
    isDirty := false }

theorem frame_loadFrame (s : File) (page q : Nat) (stale : Nat → UInt8) :
    (s.loadFrame cfg page stale).frame q
      = if q = page then some (s.loaded cfg page stale) else s.frame q := by
  unfold frame loadFrame
  dsimp only
  rw [List.lookup_cons]
  by_cases hq : q = page
  · rw [if_pos hq, hq, beq_self_eq_true]
    rfl
  · rw [if_neg hq, beq_eq_false_iff_ne.mpr hq]

/-- What is in a page that has just been loaded. -/
theorem buffer_loaded (hc : s.Coherent cfg) {page : Nat} (hfits : page * cfg.pageSize ≤ s.fileSize)
    (stale : Nat → UInt8) {j : Nat} (hj : j < (s.loaded cfg page stale).dataSize) :
    (s.loaded cfg page stale).buffer j = s.disk (page * cfg.pageSize + j) := by
  have hsize : (s.loaded cfg page stale).dataSize
      = min (s.fileSize - page * cfg.pageSize) cfg.pageSize := by
    unfold loaded
    rw [sub64, if_pos hfits, toUint32_of_le (Nat.min_le_right _ _)]
  have hin : 0 ≤ j ∧ j < 0 + min (s.loaded cfg page stale).dataSize
      (s.diskSize - page * cfg.pageSize) := by
    rw [hc.diskSize]
    omega
  exact @copy_of_mem _ stale (fun i => s.disk (page * cfg.pageSize + i)) 0 j _ hin.1 hin.2

theorem SameBytes.fixPage (hc : s.Coherent cfg) {page : Nat} (hfits : s.LoadFits cfg page)
    (stale : Nat → UInt8) : s.SameBytes cfg (s.fixPage cfg page stale) := by
  have hsizes := (sizesMatch_fixPage hc.sizes page stale).mpr hfits
  unfold File.fixPage at hsizes ⊢
  cases hF : s.frame page with
  | some F => exact .refl hc
  | none =>
    rw [hF] at hsizes
    have hin := hfits hF
    refine ⟨⟨hsizes, hc.diskSize, ?_⟩, ⟨rfl, rfl⟩, rfl, ?_⟩
    · intro q F hq hclean j hj
      rw [frame_loadFrame] at hq
      split at hq
      · next hpage =>
        cases hq
        rw [hpage]
        exact buffer_loaded hc hin stale hj
      · exact hc.clean q F hq hclean j hj
    · intro i hi
      have hload := @frame_loadFrame cfg s page (i / cfg.pageSize) stale
      by_cases hpage : i / cfg.pageSize = page
      · rw [if_pos hpage] at hload
        have hle := cfg.page_le i
        have hmod := cfg.page_add_mod i
        have hlt := cfg.lt_page i
        rw [hpage] at hle hmod hlt
        have hj : i % cfg.pageSize < (s.loaded cfg page stale).dataSize := by
          unfold loaded
          dsimp only
          rw [sub64, if_pos hin, toUint32_of_le (Nat.min_le_right _ _)]
          omega
        refine (view_of_frame hload).trans ?_
        rw [buffer_loaded hc hin stale hj, hmod, view_of_none (hpage ▸ hF)]
      · rw [if_neg hpage] at hload
        show (s.loadFrame cfg page stale).view cfg i = s.view cfg i
        cases hG : s.frame (i / cfg.pageSize) with
        | some G => rw [view_of_frame (hload.trans hG), view_of_frame hG]
        | none =>
          rw [view_of_none (hload.trans hG), view_of_none hG]
          rfl

theorem frame_fixPage (s : File) (page : Nat) (stale : Nat → UInt8) :
    ∃ F, (s.fixPage cfg page stale).frame page = some F := by
  unfold fixPage
  cases hF : s.frame page with
  | some F => exact ⟨F, hF⟩
  | none => exact ⟨_, (frame_loadFrame s page page stale).trans (if_pos rfl)⟩

/-- The disk after a page has been written to it. -/
theorem disk_diskWrite (hc : s.Coherent cfg) {page n i : Nat} {bytes : Nat → UInt8}
    (hi : i < s.fileSize) (hn : n ≤ cfg.pageSize) :
    (s.diskWrite (page * cfg.pageSize) bytes n).disk i
      = if i / cfg.pageSize = page ∧ i % cfg.pageSize < n then bytes (i % cfg.pageSize)
        else s.disk i := by
  have hle := cfg.page_le i
  have hmod := cfg.page_add_mod i
  unfold diskWrite
  dsimp only
  split
  · next h =>
    rw [h.1] at hle hmod
    rw [copy_of_mem hle (by omega)]
    congr 1
    omega
  · next h =>
    rw [copy_of_notMem, if_pos (hc.diskSize ▸ hi)]
    intro hin
    have hpage := cfg.of_page hin.1 (by omega)
    exact h ⟨hpage.1, by omega⟩

/-- What `FlushFrame` does to a dirty frame. -/
theorem flushFrame_of_dirty {page : Nat} {F : Frame} (hF : s.frame page = some F)
    (hdirty : F.isDirty = true) :
    s.SameMode (s.flushFrame cfg page)
      ∧ (s.flushFrame cfg page).fileSize = s.fileSize
      ∧ (s.flushFrame cfg page).diskSize
        = (s.diskWrite (page * cfg.pageSize) F.buffer F.dataSize).diskSize
      ∧ (s.flushFrame cfg page).disk = (s.diskWrite (page * cfg.pageSize) F.buffer F.dataSize).disk
      ∧ ∀ q, (s.flushFrame cfg page).frame q
        = if q = page then some { F with isDirty := false } else s.frame q := by
  unfold File.flushFrame
  rw [hF]
  dsimp only
  rw [if_pos hdirty]
  refine ⟨⟨rfl, rfl⟩, rfl, rfl, rfl, ?_⟩
  intro q
  refine (frame_modifyFrame s page q fun F => { F with isDirty := false }).trans ?_
  by_cases hq : q = page
  · rw [if_pos hq, if_pos hq, hq, hF]
    rfl
  · rw [if_neg hq, if_neg hq]

theorem SameBytes.flushFrame (hc : s.Coherent cfg) (page : Nat) :
    s.SameBytes cfg (s.flushFrame cfg page) := by
  by_cases hdirty : ∃ F, s.frame page = some F ∧ F.isDirty = true
  · obtain ⟨F, hF, hdirty⟩ := hdirty
    have hsizes := hc.sizes.flushFrame page
    obtain ⟨hmode, hsize', hdiskSize', hdisk', hframe'⟩ :=
      @flushFrame_of_dirty cfg s page F hF hdirty
    generalize s.flushFrame cfg page = s' at *
    have hsize := hc.dataSize hF
    have hn : F.dataSize ≤ cfg.pageSize := by omega
    have hdisk : ∀ i, i < s.fileSize → s'.disk i
        = if i / cfg.pageSize = page ∧ i % cfg.pageSize < F.dataSize
          then F.buffer (i % cfg.pageSize) else s.disk i := by
      intro i hi
      rw [hdisk']
      exact disk_diskWrite hc hi hn
    refine ⟨⟨hsizes, ?_, ?_⟩, hmode, hsize', ?_⟩
    · rw [hdiskSize', hsize']
      unfold diskWrite
      dsimp only
      split
      · exact hc.diskSize
      · rw [hc.diskSize]
        omega
    · intro q G hG hclean j hj
      rw [hframe'] at hG
      by_cases hq : q = page
      · rw [if_pos hq] at hG
        cases hG
        have hj : j < F.dataSize := hj
        have hpos := @Config.of_page cfg q (q * cfg.pageSize + j) (by omega) (by omega)
        have hback : q * cfg.pageSize + j - q * cfg.pageSize = j := by omega
        rw [hdisk _ (by rw [hq]; omega), hpos.1, hpos.2, hback, if_pos ⟨hq, hj⟩]
      · rw [if_neg hq] at hG
        have hsizeG := hc.dataSize hG
        have hpos := @Config.of_page cfg q (q * cfg.pageSize + j) (by omega) (by omega)
        rw [hdisk _ (by omega), hpos.1, if_neg (fun h => hq h.1)]
        exact hc.clean q G hG hclean j hj
    · intro i hi
      have hG := hframe' (i / cfg.pageSize)
      by_cases hpage : i / cfg.pageSize = page
      · rw [if_pos hpage] at hG
        rw [view_of_frame hG, view_of_frame (hpage ▸ hF)]
      · rw [if_neg hpage] at hG
        cases hF' : s.frame (i / cfg.pageSize) with
        | some G => rw [view_of_frame (hG.trans hF'), view_of_frame hF']
        | none =>
          rw [view_of_none (hG.trans hF'), view_of_none hF']
          exact (hdisk i hi).trans (if_neg fun h => hpage h.1)
  · have hsame : s.flushFrame cfg page = s := by
      unfold File.flushFrame
      cases hF : s.frame page with
      | none => rfl
      | some F => exact if_neg fun h => hdirty ⟨F, hF, h⟩
    rw [hsame]
    exact .refl hc

theorem SameBytes.flush (hc : s.Coherent cfg) : s.SameBytes cfg (s.flush cfg) := by
  unfold File.flush
  generalize s.frames.map (·.1) = pages
  induction pages generalizing s with
  | nil => exact .refl hc
  | cons page pages ih =>
    have hflush := SameBytes.flushFrame hc page
    exact hflush.trans (ih hflush.coherent)

/-- A frame that has been flushed has nothing that the disk does not have. -/
theorem clean_flushFrame (s : File) {page : Nat} {F : Frame}
    (hF : (s.flushFrame cfg page).frame page = some F) : F.isDirty = false := by
  by_cases hdirty : ∃ F, s.frame page = some F ∧ F.isDirty = true
  · obtain ⟨G, hG, hdirty⟩ := hdirty
    rw [(flushFrame_of_dirty hG hdirty).2.2.2.2 page, if_pos rfl] at hF
    cases hF
    rfl
  · have hsame : s.flushFrame cfg page = s := by
      unfold File.flushFrame
      cases hF : s.frame page with
      | none => rfl
      | some F => exact if_neg fun h => hdirty ⟨F, hF, h⟩
    rw [hsame] at hF
    exact Bool.eq_false_iff.mpr fun h => hdirty ⟨F, hF, h⟩

theorem SameBytes.evict (hc : s.Coherent cfg) (page : Nat) :
    s.SameBytes cfg (s.evict cfg page) := by
  have hflush := SameBytes.flushFrame hc page
  have hsizes := hc.sizes.evict page
  have hframe : ∀ q, (s.evict cfg page).frame q
      = if q = page then none else (s.flushFrame cfg page).frame q :=
    fun q => lookup_filter _ page q
  refine ⟨⟨hsizes, hflush.coherent.diskSize, ?_⟩, hflush.mode, hflush.fileSize, ?_⟩
  · intro q F hF
    rw [hframe] at hF
    split at hF
    · cases hF
    · exact hflush.coherent.clean q F hF
  · intro i hi
    refine Eq.trans ?_ (hflush.view i hi)
    by_cases hpage : i / cfg.pageSize = page
    · rw [view_of_none ((hframe _).trans (if_pos hpage))]
      show (s.flushFrame cfg page).disk i = _
      cases hF : (s.flushFrame cfg page).frame (i / cfg.pageSize) with
      | none => exact (view_of_none hF).symm
      | some F =>
        have hmod := cfg.page_add_mod i
        have hlt := cfg.lt_page i
        have hsize := hflush.coherent.dataSize hF
        rw [hflush.fileSize] at hsize
        have hsame := hflush.coherent.clean _ F hF (clean_flushFrame s (hpage ▸ hF))
          (i % cfg.pageSize) (by omega)
        rw [hmod] at hsame
        rw [view_of_frame hF, hsame]
    · have hG := (hframe (i / cfg.pageSize)).trans (if_neg hpage)
      cases hF : (s.flushFrame cfg page).frame (i / cfg.pageSize) with
      | some G => rw [view_of_frame (hG.trans hF), view_of_frame hF]
      | none =>
        rw [view_of_none (hG.trans hF), view_of_none hF]
        rfl

/-! ## Reading -/

/-- How many bytes `FileRef::Read` copies. -/
def readCount (cfg : Config) (s : File) (n offset : Nat) : Nat :=
  min (min n (s.fileSize - offset)) (cfg.pageSize - offset % cfg.pageSize)

theorem read_view (hc : s.Coherent cfg) (n offset : Nat) (stale : Nat → UInt8) :
    s.SameBytes cfg (s.read cfg n offset stale).1
      ∧ (s.read cfg n offset stale).2
        = segment (s.view cfg) offset (s.readCount cfg n offset) := by
  have hmax : min n (max (min s.fileSize (offset + n)) offset - offset)
      = min n (s.fileSize - offset) := by omega
  have hmod := cfg.page_add_mod offset
  have hle := cfg.page_le offset
  have hlt := cfg.lt_page offset
  unfold File.read readCount
  dsimp only
  rw [hmax]
  by_cases hzero : min n (s.fileSize - offset) = 0
  · rw [if_pos hzero, hzero, Nat.zero_min]
    exact ⟨.refl hc, rfl⟩
  · rw [if_neg hzero, cfg.shiftRight_eq]
    have hsame : s.SameBytes cfg (s.fixPage cfg (offset / cfg.pageSize) stale) :=
      .fixPage hc (fun _ => by omega) stale
    obtain ⟨F, hF⟩ := @frame_fixPage cfg s (offset / cfg.pageSize) stale
    rw [hF]
    refine ⟨hsame, ?_⟩
    have hskip : offset - offset / cfg.pageSize * cfg.pageSize = offset % cfg.pageSize := by omega
    have hsize := hsame.coherent.dataSize hF
    rw [hsame.fileSize] at hsize
    rw [hskip]
    have hcount : min (min (min n (s.fileSize - offset)) (cfg.pageSize - offset % cfg.pageSize))
        F.dataSize
        = min (min n (s.fileSize - offset)) (cfg.pageSize - offset % cfg.pageSize) := by omega
    dsimp only
    rw [hcount]
    unfold Lib.segment
    refine List.map_congr_left ?_
    intro i hi
    have hi := List.mem_range.mp hi
    have hsum : offset / cfg.pageSize * cfg.pageSize + (offset % cfg.pageSize + i)
        = offset + i := by omega
    rw [← hsame.view (offset + i) (by omega), ← hsum]
    exact (view_page hF (by omega)).symm

/-! ## Writing -/

/-- The last page after `Append`. -/
def appended (cfg : Config) (s : File) (bytes : List UInt8) (F : Frame) : Frame :=
  let writeHere := min (cfg.pageSize - s.fileSize % cfg.pageSize) bytes.length
  { F with
    dataSize := toUint32 (s.fileSize % cfg.pageSize + writeHere)
    buffer := put F.buffer (s.fileSize % cfg.pageSize) (bytes.take writeHere) }

/-- What `FileRef::Append` does. -/
theorem append_ok {bytes : List UInt8} {s' : File} (h : s.append cfg bytes = .ok s') :
    s.SameMode s' ∧ s'.fileSize = s.fileSize + bytes.length
      ∧ s'.diskSize = (s.diskWrite s.fileSize (put (fun _ => 0) 0 bytes) bytes.length).diskSize
      ∧ s'.disk = (s.diskWrite s.fileSize (put (fun _ => 0) 0 bytes) bytes.length).disk
      ∧ ∀ q, s'.frame q = if q = s.fileSize / cfg.pageSize then
          (s.frame q).map (s.appended cfg bytes) else s.frame q := by
  have hskip : s.fileSize - s.fileSize / cfg.pageSize * cfg.pageSize
      = s.fileSize % cfg.pageSize := by
    have hmod := cfg.page_add_mod s.fileSize
    omega
  unfold File.append at h
  split at h
  · cases h
  · injection h with h
    rw [cfg.shiftRight_eq, cfg.shiftLeft_eq, hskip] at h
    subst h
    exact ⟨⟨rfl, rfl⟩, rfl, rfl, rfl, fun q => frame_modifyFrame s _ q (s.appended cfg bytes)⟩

theorem append_view (hc : s.Coherent cfg) {bytes : List UInt8} {s' : File}
    (hfits : s.AppendFits cfg bytes.length) (h : s.append cfg bytes = .ok s') :
    s'.Coherent cfg ∧ s.SameMode s'
      ∧ s'.fileSize = s.fileSize + bytes.length
      ∧ ∀ i, i < s'.fileSize → s'.view cfg i = put (s.view cfg) s.fileSize bytes i := by
  have hsizes := (sizesMatch_append hc.sizes h).mpr hfits
  obtain ⟨hmode, hsize, hdiskSize, hdisk, hframe⟩ := append_ok h
  have hmod := cfg.page_add_mod s.fileSize
  have hle := cfg.page_le s.fileSize
  have hlt := cfg.lt_page s.fileSize
  have hold : ∀ i, i < s.fileSize → s'.disk i = s.disk i := by
    intro i hi
    rw [hdisk]
    unfold diskWrite
    dsimp only
    rw [copy_of_notMem (by omega), if_pos (hc.diskSize ▸ hi)]
  have hnew : ∀ i, s.fileSize ≤ i → i < s'.fileSize →
      s'.disk i = put (s.view cfg) s.fileSize bytes i := by
    intro i hi hi'
    rw [hdisk]
    unfold diskWrite
    dsimp only
    rw [copy_of_mem hi (by omega)]
    unfold put
    rw [if_pos (Nat.zero_le _), if_pos hi, Nat.sub_zero, List.getElem?_eq_getElem (by omega)]
    rfl
  have hother : ∀ i, i < s'.fileSize → i / cfg.pageSize ≠ s.fileSize / cfg.pageSize →
      s'.view cfg i = put (s.view cfg) s.fileSize bytes i := by
    intro i hi hpage
    have hG := (hframe (i / cfg.pageSize)).trans (if_neg hpage)
    by_cases hend : i < s.fileSize
    · rw [put_of_lt hend]
      cases hF : s.frame (i / cfg.pageSize) with
      | some F => rw [view_of_frame (hG.trans hF), view_of_frame hF]
      | none => rw [view_of_none (hG.trans hF), view_of_none hF, hold i hend]
    · cases hF : s.frame (i / cfg.pageSize) with
      | none => rw [view_of_none (hG.trans hF), hnew i (by omega) hi]
      | some F =>
        -- Such a frame would begin behind the old end and before the new one.
        exfalso
        have hbegin := cfg.page_le i
        have hapart := cfg.pages_apart hpage
        have hfar := hfits _ (mem_of_frame hF)
        have hend' := cfg.lt_page i
        dsimp only at hfar
        omega
  -- In the last page the old bytes stay and the new ones follow.
  have hlast : ∀ F j, s.frame (s.fileSize / cfg.pageSize) = some F → j < cfg.pageSize →
      s.fileSize / cfg.pageSize * cfg.pageSize + j < s'.fileSize →
      (s.appended cfg bytes F).buffer j = put (s.view cfg) s.fileSize bytes
        (s.fileSize / cfg.pageSize * cfg.pageSize + j) := by
    intro F j hF hj hend
    unfold appended
    dsimp only
    by_cases hbefore : j < s.fileSize % cfg.pageSize
    · rw [put_of_lt hbefore, put_of_lt (by omega)]
      exact (view_page hF hj).symm
    · have hsub : s.fileSize / cfg.pageSize * cfg.pageSize + j - s.fileSize
          = j - s.fileSize % cfg.pageSize := by omega
      unfold put
      rw [if_pos (by omega), if_pos (by omega), hsub, List.getElem?_take_of_lt (by omega),
        List.getElem?_eq_getElem (by omega)]
      rfl
  refine ⟨⟨hsizes, ?_, ?_⟩, hmode, hsize, ?_⟩
  · rw [hdiskSize, hsize]
    unfold diskWrite
    dsimp only
    rw [hc.diskSize]
    split <;> omega
  · intro q G hG hclean j hj
    have hsizeG : G.dataSize = min (s'.fileSize - q * cfg.pageSize) cfg.pageSize :=
      hsizes.sized (q, G) (mem_of_frame hG)
    rw [hframe] at hG
    split at hG
    · next hq =>
      rw [hq] at hG hsizeG ⊢
      obtain ⟨F, hF, rfl⟩ := Option.map_eq_some_iff.mp hG
      rw [hlast F j hF (by omega) (by omega)]
      by_cases hbefore : s.fileSize / cfg.pageSize * cfg.pageSize + j < s.fileSize
      · rw [put_of_lt hbefore, hold _ hbefore, view_page hF (by omega)]
        refine hc.clean _ F hF hclean j ?_
        rw [hc.dataSize hF]
        omega
      · exact (hnew _ (by omega) (by omega)).symm
    · next hq =>
      have hsizeF := hc.dataSize hG
      rw [hold _ (by omega)]
      exact hc.clean q G hG hclean j hj
  · intro i hi
    by_cases hpage : i / cfg.pageSize = s.fileSize / cfg.pageSize
    · have hG := (hframe (i / cfg.pageSize)).trans (if_pos hpage)
      have hmod' := cfg.page_add_mod i
      cases hF : s.frame (i / cfg.pageSize) with
      | some F =>
        rw [hF] at hG
        rw [hpage] at hF hmod'
        have hj := Nat.mod_lt i cfg.pageSize_pos
        rw [view_of_frame hG, hlast F _ hF hj (by omega), hmod']
      | none =>
        rw [hF] at hG
        rw [view_of_none hG]
        by_cases hend : i < s.fileSize
        · rw [put_of_lt hend, hold i hend, view_of_none hF]
        · exact hnew i (by omega) hi
    · exact hother i hi hpage

/-- How many bytes `FileRef::Write` puts into a page. -/
def writeCount (cfg : Config) (n offset : Nat) : Nat :=
  min n (cfg.pageSize - offset % cfg.pageSize)

/-- A write into the page of the offset. -/
theorem write_view (hc : s.Coherent cfg) {bytes : List UInt8} {offset n : Nat}
    {stale : Nat → UInt8} {s' : File}
    (hplace : (!s.openForAppending || offset == s.fileSize) = false)
    (hfits : s.LoadFits cfg (offset / cfg.pageSize))
    (h : s.write cfg bytes offset stale = .ok (s', n)) :
    n = writeCount cfg bytes.length offset ∧ s'.Coherent cfg
      ∧ s.SameMode s' ∧ s'.fileSize = s.fileSize
      ∧ ∀ i, i < s.fileSize → s'.view cfg i = put (s.view cfg) offset (bytes.take n) i := by
  have hmod := cfg.page_add_mod offset
  have hskip : offset - offset / cfg.pageSize * cfg.pageSize = offset % cfg.pageSize := by omega
  have hsizes := sizesMatch_write hc.sizes h
  rw [hplace, cfg.shiftRight_eq] at hsizes
  have hsizes := hsizes.mpr hfits
  have hsame := SameBytes.fixPage hc hfits stale
  obtain ⟨F, hF⟩ := @frame_fixPage cfg s (offset / cfg.pageSize) stale
  unfold File.write at h
  dsimp only at h
  rw [hplace, cfg.shiftRight_eq, hskip] at h
  split at h
  · cases h
  · rw [if_neg (by decide)] at h
    injection h with h
    injection h with hs' hn
    rw [hn] at hs'
    have hn : n = writeCount cfg bytes.length offset := hn.symm
    have hlen := List.length_take (i := n) (l := bytes)
    have hframe := frame_modifyFrame (s.fixPage cfg (offset / cfg.pageSize) stale)
      (offset / cfg.pageSize)
    generalize s.fixPage cfg (offset / cfg.pageSize) stale = s₁ at *
    subst hs'
    refine ⟨hn, ⟨hsizes, hsame.coherent.diskSize, ?_⟩, hsame.mode, hsame.fileSize, ?_⟩
    · intro q G hG hclean j hj
      rw [hframe] at hG
      split at hG
      · obtain ⟨F', -, rfl⟩ := Option.map_eq_some_iff.mp hG
        cases hclean
      · exact hsame.coherent.clean q G hG hclean j hj
    · intro i hi
      rw [put_congr (hsame.view i hi).symm]
      have hG := hframe (i / cfg.pageSize) fun F => { F with
        buffer := put F.buffer (offset % cfg.pageSize) (bytes.take n), isDirty := true }
      by_cases hpage : i / cfg.pageSize = offset / cfg.pageSize
      · have hmod' := cfg.page_add_mod i
        have hF' : s₁.frame (i / cfg.pageSize) = some F := hpage ▸ hF
        rw [if_pos hpage, hF'] at hG
        rw [view_of_frame hG]
        rw [hpage] at hmod'
        have hsub : i % cfg.pageSize - offset % cfg.pageSize = i - offset := by omega
        show put F.buffer (offset % cfg.pageSize) (bytes.take n) (i % cfg.pageSize) = _
        unfold put
        rw [view_of_frame hF', hsub]
        by_cases hfrom : offset ≤ i
        · rw [if_pos hfrom, if_pos (by omega)]
        · rw [if_neg hfrom, if_neg (by omega)]
      · rw [if_neg hpage] at hG
        have hkeep : put (s₁.view cfg) offset (bytes.take n) i = s₁.view cfg i := by
          by_cases hfrom : offset ≤ i
          · have hapart := cfg.pages_apart hpage
            have hbegin := cfg.page_le i
            have hbehind := cfg.lt_page i
            unfold writeCount at hn
            have hpos := Nat.mod_lt offset cfg.pageSize_pos
            exact put_of_ge (by omega)
          · exact put_of_lt (by omega)
        rw [hkeep]
        cases hF' : s₁.frame (i / cfg.pageSize) with
        | some G => rw [view_of_frame (hG.trans hF'), view_of_frame hF']
        | none =>
          rw [view_of_none (hG.trans hF'), view_of_none hF']
          rfl

/-! ## Truncating -/

/-- The frames that reach behind the end have zeros where the file grows. -/
def GrowsIntoZeros (cfg : Config) (s : File) (newSize : Nat) : Prop :=
  ∀ x ∈ s.frames, ∀ j, j < cfg.pageSize → s.fileSize ≤ x.1 * cfg.pageSize + j →
    x.1 * cfg.pageSize + j < newSize → x.2.buffer j = 0

theorem truncate_ok {newSize : Nat} {s' : File} (h : s.truncate cfg newSize = .ok s') :
    s.SameMode s' ∧ s'.fileSize = newSize
      ∧ s'.diskSize = (if s.fileSize ≠ newSize then newSize else s.diskSize)
      ∧ (∀ i, s'.disk i = if s.fileSize ≠ newSize ∧ s.diskSize ≤ i then 0 else s.disk i)
      ∧ ∀ q, s'.frame q = (s.frame q).map fun F => { F with
        dataSize := toUint32 (max newSize (q * cfg.pageSize) - q * cfg.pageSize) } := by
  unfold File.truncate at h
  split at h
  · cases h
  · injection h with h
    subst h
    dsimp only
    by_cases hsize : s.fileSize = newSize
    · rw [if_neg (by simpa using hsize)]
      refine ⟨⟨rfl, rfl⟩, hsize, (if_neg (by simpa using hsize)).symm, ?_, ?_⟩
      · exact fun i => (if_neg fun h => h.1 hsize).symm
      · exact fun q => lookup_map _ s.frames q
    · rw [if_pos hsize]
      refine ⟨⟨rfl, rfl⟩, rfl, (if_pos hsize).symm, ?_, ?_⟩
      · intro i
        unfold diskTruncate
        dsimp only
        by_cases hi : i < s.diskSize
        · rw [if_pos hi, if_neg (by omega)]
        · rw [if_neg hi, if_pos ⟨hsize, by omega⟩]
      · exact fun q => lookup_map _ s.frames q

theorem truncate_view (hc : s.Coherent cfg) {newSize : Nat} {s' : File}
    (hfits : s.TruncateFits cfg newSize) (hzeros : s.GrowsIntoZeros cfg newSize)
    (h : s.truncate cfg newSize = .ok s') :
    s'.Coherent cfg ∧ s.SameMode s' ∧ s'.fileSize = newSize
      ∧ ∀ i, i < newSize → s'.view cfg i = if i < s.fileSize then s.view cfg i else 0 := by
  have hsizes := (sizesMatch_truncate hc.sizes h).mpr hfits
  have hzeros : ∀ page F, s.frame page = some F → ∀ j, j < cfg.pageSize →
      s.fileSize ≤ page * cfg.pageSize + j → page * cfg.pageSize + j < newSize → F.buffer j = 0 :=
    fun page F hF => hzeros (page, F) (mem_of_frame hF)
  obtain ⟨hmode, hsize, hdiskSize, hdisk, hframe⟩ := truncate_ok h
  rw [hc.diskSize] at hdiskSize hdisk
  have hold : ∀ i, i < s.fileSize → s'.disk i = s.disk i := by
    intro i hi
    rw [hdisk, if_neg (by omega)]
  have hnew : ∀ i, i < newSize → s.fileSize ≤ i → s'.disk i = 0 := by
    intro i hi hi'
    rw [hdisk, if_pos ⟨by omega, hi'⟩]
  refine ⟨⟨hsizes, ?_, ?_⟩, hmode, hsize, ?_⟩
  · rw [hdiskSize, hsize]
    split <;> omega
  · intro q G hG hclean j hj
    have hsizeG : G.dataSize = min (s'.fileSize - q * cfg.pageSize) cfg.pageSize :=
      hsizes.sized (q, G) (mem_of_frame hG)
    rw [hframe] at hG
    obtain ⟨F, hF, rfl⟩ := Option.map_eq_some_iff.mp hG
    dsimp only at hclean ⊢
    by_cases hbefore : q * cfg.pageSize + j < s.fileSize
    · rw [hold _ hbefore]
      refine hc.clean q F hF hclean j ?_
      rw [hc.dataSize hF]
      omega
    · rw [hnew _ (by omega) (by omega)]
      exact hzeros q F hF j (by omega) (by omega) (by omega)
  · intro i hi
    have hmod := cfg.page_add_mod i
    have hj := Nat.mod_lt i cfg.pageSize_pos
    have hG := hframe (i / cfg.pageSize)
    cases hF : s.frame (i / cfg.pageSize) with
    | some F =>
      rw [hF] at hG
      rw [view_of_frame hG]
      split
      · rw [view_of_frame hF]
      · exact hzeros _ F hF _ hj (by omega) (by omega)
    | none =>
      rw [hF] at hG
      rw [view_of_none hG]
      split
      · next hend => rw [view_of_none hF, hold i hend]
      · exact hnew i hi (by omega)

theorem coherent_opened (openForWriting openForAppending : Bool) (size : Nat)
    (bytes : Nat → UInt8) : (opened openForWriting openForAppending size bytes).Coherent cfg :=
  ⟨sizesMatch_opened openForWriting openForAppending size bytes, rfl, nofun⟩

end File

end Haybarn.Io.PagedFile
