import Haybarn.Io.PagedFile

/-!
# The data sizes of the frames

The data of a frame are the bytes of the file that are on its page: as many as the file has behind
the start of the page, and at most a page. `LoadFrame`, `Append` and `Truncate` set the size, each
in its own way, and each relies on something that it does not check (`File.Fits`): that the page
begins in the file, that no frame behind the last page is buffered, that no frame is far before the
new end. **The sizes match the file through a run exactly when each operation finds what it relies
on** (`sizes_match_iff`).
-/

namespace Haybarn.Io.PagedFile

open Haybarn.Lib

variable {cfg : Config} {s : File}

/-! ## What is to hold -/

/-- The data size of each frame is the size of the file behind the start of its page, clamped. -/
def File.Sized (cfg : Config) (s : File) : Prop :=
  ∀ x ∈ s.frames, x.2.dataSize = min (s.fileSize - x.1 * cfg.pageSize) cfg.pageSize

/-- The length was not computed from a negative number, and does not go beyond the page. -/
def Transfer.InPage (cfg : Config) : Transfer → Prop
  | .load page fileSize length => page * cfg.pageSize ≤ fileSize ∧ length ≤ cfg.pageSize
  | .store _ length => length ≤ cfg.pageSize

structure File.SizesMatch (cfg : Config) (s : File) : Prop where
  sized : s.Sized cfg
  inPage : ∀ tr ∈ s.transfers, tr.InPage cfg

/-! ## What the operations rely on -/

/-- The page begins in the file, or at its end. -/
def File.LoadFits (cfg : Config) (s : File) (page : Nat) : Prop :=
  s.frame page = none → page * cfg.pageSize ≤ s.fileSize

/-- No frame that begins behind the end begins before the new end. -/
def File.AppendFits (cfg : Config) (s : File) (n : Nat) : Prop :=
  ∀ x ∈ s.frames, s.fileSize < x.1 * cfg.pageSize → s.fileSize + n ≤ x.1 * cfg.pageSize

/-- No frame begins more than a page before the new end (but for a multiple of 2^32 bytes). -/
def File.TruncateFits (cfg : Config) (s : File) (newSize : Nat) : Prop :=
  ∀ x ∈ s.frames, newSize ≤ x.1 * cfg.pageSize + cfg.pageSize
    ∨ (newSize - x.1 * cfg.pageSize) % 2 ^ 32 = cfg.pageSize

def File.Fits (cfg : Config) (s : File) : Op → Prop
  | .fixPage page _ => s.LoadFits cfg page
  | .write bytes offset _ => s.openForWriting = true →
    if !s.openForAppending || offset == s.fileSize then s.AppendFits cfg bytes.length
    else s.LoadFits cfg (offset >>> cfg.pageSizeBits)
  | .append bytes => s.openForWriting = true → s.AppendFits cfg bytes.length
  | .truncate newSize => s.openForWriting = true → s.TruncateFits cfg newSize
  | .read .. | .flush | .evict _ => True

/-- The sizes match after each operation of a run. -/
def MatchThrough (cfg : Config) : File → List Op → Prop
  | s, [] => s.SizesMatch cfg
  | s, op :: ops => s.SizesMatch cfg ∧ MatchThrough cfg (s.step cfg op) ops

/-- Each operation of a run finds what it relies on. -/
def FitThrough (cfg : Config) : File → List Op → Prop
  | _, [] => True
  | s, op :: ops => s.Fits cfg op ∧ FitThrough cfg (s.step cfg op) ops

/-! ## Pages -/

theorem Config.pageSize_eq (cfg : Config) : cfg.pageSize = 2 ^ cfg.pageSizeBits := by
  rw [Config.pageSize, Nat.shiftLeft_eq, Nat.one_mul]

theorem Config.pageSize_pos (cfg : Config) : 0 < cfg.pageSize := by
  rw [cfg.pageSize_eq]
  exact Nat.two_pow_pos _

theorem Config.pageSize_lt (cfg : Config) : cfg.pageSize < 2 ^ 31 := by
  rw [cfg.pageSize_eq]
  exact Nat.pow_lt_pow_right (by omega) cfg.small

/-- The page of an offset. -/
theorem Config.shiftRight_eq (cfg : Config) (n : Nat) :
    n >>> cfg.pageSizeBits = n / cfg.pageSize := by
  rw [Nat.shiftRight_eq_div_pow, cfg.pageSize_eq]

theorem Config.shiftLeft_eq (cfg : Config) (n : Nat) :
    n <<< cfg.pageSizeBits = n * cfg.pageSize := by
  rw [Nat.shiftLeft_eq, cfg.pageSize_eq]

theorem Config.page_le (cfg : Config) (n : Nat) : n / cfg.pageSize * cfg.pageSize ≤ n :=
  Nat.div_mul_le_self n cfg.pageSize

theorem Config.lt_page (cfg : Config) (n : Nat) :
    n < n / cfg.pageSize * cfg.pageSize + cfg.pageSize := by
  have h := Nat.lt_mul_div_succ n cfg.pageSize_pos
  rw [Nat.mul_add, Nat.mul_one, Nat.mul_comm] at h
  exact h

theorem toUint32_of_le {n : Nat} (h : n ≤ cfg.pageSize) : toUint32 n = n :=
  Nat.mod_eq_of_lt (Nat.lt_of_le_of_lt h (Nat.lt_trans cfg.pageSize_lt (by decide)))

/-! ## Each operation -/

namespace File

/-- What the sizes are to be when one frame is set. -/
theorem sized_modifyFrame {page size : Nat} {h : Frame → Frame} :
    Sized cfg { s.modifyFrame page h with fileSize := size } ↔
      ∀ x ∈ s.frames, (if x.1 = page then (h x.2).dataSize else x.2.dataSize)
        = min (size - x.1 * cfg.pageSize) cfg.pageSize := by
  unfold Sized modifyFrame
  dsimp only
  rw [List.forall_mem_map]
  refine forall₂_congr fun x _ => ?_
  split
  · rfl
  · rfl

/-- An operation on a frame that does not set its size. -/
theorem sizesMatch_modifyFrame {page : Nat} {h : Frame → Frame}
    (hsize : ∀ F, (h F).dataSize = F.dataSize) :
    (s.modifyFrame page h).SizesMatch cfg ↔ s.SizesMatch cfg := by
  have hsized : (s.modifyFrame page h).Sized cfg ↔ s.Sized cfg := by
    refine (@sized_modifyFrame cfg s page s.fileSize h).trans ?_
    simp only [hsize, ite_self]
    rfl
  exact ⟨fun hm => ⟨hsized.mp hm.sized, hm.inPage⟩, fun hm => ⟨hsized.mpr hm.sized, hm.inPage⟩⟩

theorem mem_of_frame {page : Nat} {F : Frame} (h : s.frame page = some F) :
    (page, F) ∈ s.frames := by
  obtain ⟨l, r, hsplit, -⟩ := List.lookup_eq_some_iff.mp h
  rw [hsplit]
  exact List.mem_append_right _ List.mem_cons_self

theorem sizesMatch_fixPage (hm : s.SizesMatch cfg) (page : Nat) (stale : Nat → UInt8) :
    (s.fixPage cfg page stale).SizesMatch cfg ↔ s.LoadFits cfg page := by
  unfold fixPage LoadFits
  cases hF : s.frame page with
  | some F => exact iff_of_true hm nofun
  | none =>
    unfold loadFrame
    constructor
    · intro h _
      have hload := h.inPage (.load page s.fileSize _)
        (List.mem_append_right _ (List.mem_singleton_self _))
      exact hload.1
    · intro hfits
      have hfits := hfits rfl
      have hsize : toUint32 (min (sub64 s.fileSize (page * cfg.pageSize)) cfg.pageSize)
          = min (s.fileSize - page * cfg.pageSize) cfg.pageSize := by
        rw [sub64, if_pos hfits, toUint32_of_le (Nat.min_le_right _ _)]
      refine ⟨?_, ?_⟩
      · intro x hx
        rcases List.mem_cons.mp hx with rfl | hx
        · exact hsize
        · exact hm.sized x hx
      · intro tr htr
        rcases List.mem_append.mp htr with htr | htr
        · exact hm.inPage tr htr
        · rw [List.mem_singleton] at htr
          subst htr
          refine ⟨hfits, ?_⟩
          rw [hsize]
          exact Nat.min_le_right _ _

theorem SizesMatch.flushFrame (hm : s.SizesMatch cfg) (page : Nat) :
    (s.flushFrame cfg page).SizesMatch cfg := by
  unfold File.flushFrame
  split
  · next F hF =>
    split
    · have hclean : (s.modifyFrame page fun F => { F with isDirty := false }).SizesMatch cfg := by
        refine Iff.mpr ?_ hm
        apply sizesMatch_modifyFrame
        exact fun _ => rfl
      refine ⟨hclean.sized, ?_⟩
      intro tr htr
      rcases List.mem_append.mp htr with htr | htr
      · exact hm.inPage tr htr
      · rw [List.mem_singleton] at htr
        subst htr
        show F.dataSize ≤ cfg.pageSize
        rw [hm.sized _ (mem_of_frame hF)]
        exact Nat.min_le_right _ _
    · exact hm
  · exact hm

theorem SizesMatch.flush (hm : s.SizesMatch cfg) : (s.flush cfg).SizesMatch cfg := by
  unfold File.flush
  generalize s.frames.map (·.1) = pages
  induction pages generalizing s with
  | nil => exact hm
  | cons page pages ih => exact ih (hm.flushFrame page)

theorem SizesMatch.evict (hm : s.SizesMatch cfg) (page : Nat) :
    (s.evict cfg page).SizesMatch cfg :=
  ⟨fun x hx => (hm.flushFrame page).sized x (List.mem_filter.mp hx).1,
    (hm.flushFrame page).inPage⟩

/-- A read that copies something copies it from a page that begins in the file. -/
theorem SizesMatch.read (hm : s.SizesMatch cfg) (n offset : Nat) (stale : Nat → UInt8) :
    (s.read cfg n offset stale).1.SizesMatch cfg := by
  unfold File.read
  dsimp only
  split
  · exact hm
  · next hmax =>
    have hfits : s.LoadFits cfg (offset >>> cfg.pageSizeBits) := by
      intro _
      rw [cfg.shiftRight_eq]
      have := cfg.page_le offset
      omega
    have hfixed := (sizesMatch_fixPage hm (offset >>> cfg.pageSizeBits) stale).mpr hfits
    split
    · exact hfixed
    · exact hfixed

theorem sizesMatch_append (hm : s.SizesMatch cfg) {bytes : List UInt8} {s' : File}
    (h : s.append cfg bytes = .ok s') : s'.SizesMatch cfg ↔ s.AppendFits cfg bytes.length := by
  unfold File.append at h
  split at h
  · cases h
  · injection h with h
    subst h
    rw [cfg.shiftRight_eq, cfg.shiftLeft_eq]
    have hle := cfg.page_le s.fileSize
    have hlt := cfg.lt_page s.fileSize
    -- The last page gets its size here, the pages before it have theirs.
    have hframe : ∀ x ∈ s.frames,
        (if x.1 = s.fileSize / cfg.pageSize then
            toUint32 (s.fileSize - s.fileSize / cfg.pageSize * cfg.pageSize
              + min (cfg.pageSize - (s.fileSize - s.fileSize / cfg.pageSize * cfg.pageSize))
                  bytes.length)
          else x.2.dataSize)
            = min (s.fileSize + bytes.length - x.1 * cfg.pageSize) cfg.pageSize
          ↔ (s.fileSize < x.1 * cfg.pageSize →
              s.fileSize + bytes.length ≤ x.1 * cfg.pageSize) := by
      intro x hx
      split
      · next hlast =>
        rw [hlast, @toUint32_of_le cfg _ (by omega)]
        omega
      · next hother =>
        rw [hm.sized x hx]
        rcases Nat.lt_or_gt_of_ne hother with hbefore | hbehind
        · have hend := Nat.mul_le_mul_right cfg.pageSize (Nat.succ_le_of_lt hbefore)
          rw [Nat.succ_mul] at hend
          omega
        · have hstart := Nat.mul_le_mul_right cfg.pageSize (Nat.succ_le_of_lt hbehind)
          have hpos := cfg.pageSize_pos
          rw [Nat.succ_mul] at hstart
          omega
    constructor
    · intro hm' x hx
      exact (hframe x hx).mp (sized_modifyFrame.mp hm'.sized x hx)
    · intro hfits
      exact ⟨sized_modifyFrame.mpr fun x hx => (hframe x hx).mpr (hfits x hx), hm.inPage⟩

theorem sizesMatch_write (hm : s.SizesMatch cfg) {bytes : List UInt8} {offset n : Nat}
    {stale : Nat → UInt8} {s' : File} (h : s.write cfg bytes offset stale = .ok (s', n)) :
    s'.SizesMatch cfg ↔
      if !s.openForAppending || offset == s.fileSize then s.AppendFits cfg bytes.length
      else s.LoadFits cfg (offset >>> cfg.pageSizeBits) := by
  unfold File.write at h
  split at h
  · cases h
  · split at h
    · next hend =>
      rw [if_pos hend]
      cases happend : s.append cfg bytes with
      | error e =>
        rw [happend] at h
        cases h
      | ok s'' =>
        rw [happend] at h
        cases h
        exact sizesMatch_append hm happend
    · next hend =>
      rw [if_neg hend]
      cases h
      refine Iff.trans ?_ (sizesMatch_fixPage hm _ stale)
      apply sizesMatch_modifyFrame
      exact fun _ => rfl

theorem sizesMatch_truncate (hm : s.SizesMatch cfg) {newSize : Nat} {s' : File}
    (h : s.truncate cfg newSize = .ok s') : s'.SizesMatch cfg ↔ s.TruncateFits cfg newSize := by
  unfold File.truncate at h
  split at h
  · cases h
  · injection h with h
    have hsize : s'.fileSize = newSize := by
      rw [← h]
      dsimp only
      split
      · rfl
      · next hsame => exact Decidable.not_not.mp hsame
    have hframes : s'.frames = s.frames.map fun x => (x.1, { x.2 with
        dataSize := toUint32 (max newSize (x.1 * cfg.pageSize) - x.1 * cfg.pageSize) }) := by
      rw [← h]
      dsimp only
      split <;> rfl
    have htransfers : s'.transfers = s.transfers := by
      rw [← h]
      dsimp only
      split <;> rfl
    have hsized : s'.Sized cfg ↔ s.TruncateFits cfg newSize := by
      unfold Sized TruncateFits
      rw [hframes, hsize, List.forall_mem_map]
      refine forall₂_congr fun x _ => ?_
      have hpos := cfg.pageSize_pos
      have hlt := cfg.pageSize_lt
      unfold toUint32
      dsimp only
      omega
    exact ⟨fun hm' => hsized.mp hm'.sized, fun hfits => ⟨hsized.mpr hfits, htransfers ▸ hm.inPage⟩⟩

/-- A file that is not open for writing stays as it is. -/
theorem step_of_not_writable (hw : s.openForWriting = false) {op : Op}
    (hop : (∃ bytes offset stale, op = .write bytes offset stale) ∨ (∃ bytes, op = .append bytes)
      ∨ ∃ newSize, op = .truncate newSize) : s.step cfg op = s := by
  rcases hop with ⟨bytes, offset, stale, rfl⟩ | ⟨bytes, rfl⟩ | ⟨newSize, rfl⟩
  · rw [File.step, File.write, hw]
    rfl
  · rw [File.step, File.append, hw]
    rfl
  · rw [File.step, File.truncate, hw]
    rfl

theorem append_of_writable (cfg : Config) (hw : s.openForWriting = true) (bytes : List UInt8) :
    ∃ s', s.append cfg bytes = .ok s' := by
  unfold File.append
  rw [hw]
  exact ⟨_, rfl⟩

theorem write_of_writable (cfg : Config) (hw : s.openForWriting = true) (bytes : List UInt8)
    (offset : Nat) (stale : Nat → UInt8) :
    ∃ s' n, s.write cfg bytes offset stale = .ok (s', n) := by
  obtain ⟨s', happend⟩ := append_of_writable cfg hw bytes
  unfold File.write
  rw [hw, happend]
  split
  · next h => cases h
  · split
    · exact ⟨_, _, rfl⟩
    · exact ⟨_, _, rfl⟩

theorem truncate_of_writable (cfg : Config) (hw : s.openForWriting = true) (newSize : Nat) :
    ∃ s', s.truncate cfg newSize = .ok s' := by
  unfold File.truncate
  rw [hw]
  exact ⟨_, rfl⟩

/-- **One operation**: the sizes still match exactly when it finds what it relies on. -/
theorem sizesMatch_step (hm : s.SizesMatch cfg) (op : Op) :
    (s.step cfg op).SizesMatch cfg ↔ s.Fits cfg op := by
  cases op with
  | fixPage page stale => exact sizesMatch_fixPage hm page stale
  | read n offset stale => exact iff_of_true (hm.read n offset stale) trivial
  | write bytes offset stale =>
    unfold File.Fits
    cases hw : s.openForWriting with
    | false =>
      rw [step_of_not_writable hw (.inl ⟨bytes, offset, stale, rfl⟩)]
      exact iff_of_true hm nofun
    | true =>
      obtain ⟨s', n, hwrite⟩ := write_of_writable cfg hw bytes offset stale
      rw [File.step, hwrite]
      exact (sizesMatch_write hm hwrite).trans ⟨fun hfits _ => hfits, fun hfits => hfits rfl⟩
  | append bytes =>
    unfold File.Fits
    cases hw : s.openForWriting with
    | false =>
      rw [step_of_not_writable hw (.inr (.inl ⟨bytes, rfl⟩))]
      exact iff_of_true hm nofun
    | true =>
      obtain ⟨s', happend⟩ := append_of_writable cfg hw bytes
      rw [File.step, happend]
      exact (sizesMatch_append hm happend).trans ⟨fun hfits _ => hfits, fun hfits => hfits rfl⟩
  | truncate newSize =>
    unfold File.Fits
    cases hw : s.openForWriting with
    | false =>
      rw [step_of_not_writable hw (.inr (.inr ⟨newSize, rfl⟩))]
      exact iff_of_true hm nofun
    | true =>
      obtain ⟨s', htruncate⟩ := truncate_of_writable cfg hw newSize
      rw [File.step, htruncate]
      exact (sizesMatch_truncate hm htruncate).trans ⟨fun hfits _ => hfits, fun hfits => hfits rfl⟩
  | flush => exact iff_of_true hm.flush trivial
  | evict page => exact iff_of_true (hm.evict page) trivial

theorem sizesMatch_opened (openForWriting openForAppending : Bool) (size : Nat)
    (bytes : Nat → UInt8) :
    (opened openForWriting openForAppending size bytes).SizesMatch cfg :=
  ⟨nofun, nofun⟩

end File

/-! ## Runs -/

theorem matchThrough_iff (ops : List Op) :
    ∀ {s : File}, s.SizesMatch cfg → (MatchThrough cfg s ops ↔ FitThrough cfg s ops) := by
  induction ops with
  | nil => exact fun hm => iff_of_true hm trivial
  | cons op ops ih =>
    intro s hm
    unfold MatchThrough FitThrough
    rw [← File.sizesMatch_step hm op]
    constructor
    · intro h
      have hm' : (s.step cfg op).SizesMatch cfg := by
        cases ops with
        | nil => exact h.2
        | cons op' ops' => exact h.2.1
      exact ⟨hm', (ih hm').mp h.2⟩
    · intro h
      exact ⟨hm, (ih h.1).mpr h.2⟩

/-- **The sizes of the frames match the file through a run exactly when each operation finds what
it relies on**, for every page size, every file and every sequence of operations. -/
theorem sizes_match_iff (cfg : Config) (openForWriting openForAppending : Bool) (size : Nat)
    (bytes : Nat → UInt8) (ops : List Op) :
    MatchThrough cfg (.opened openForWriting openForAppending size bytes) ops
      ↔ FitThrough cfg (.opened openForWriting openForAppending size bytes) ops :=
  matchThrough_iff ops (File.sizesMatch_opened openForWriting openForAppending size bytes)

/-- Truncating a file of two pages to the size it has gives the first frame two pages of data. -/
theorem truncate_gives_two_pages :
    ¬ ∀ (cfg : Config) (openForWriting openForAppending : Bool) (size : Nat)
        (bytes : Nat → UInt8) (ops : List Op),
      MatchThrough cfg (.opened openForWriting openForAppending size bytes) ops := by
  intro h
  have hrun := h ⟨1, by decide⟩ true false 4 (fun _ => 0) [.fixPage 0 fun _ => 0, .truncate 4]
  have hsized : 4 = 2 := hrun.2.2.sized (0, _) (List.mem_singleton_self _)
  exact absurd hsized (by decide)

end Haybarn.Io.PagedFile
