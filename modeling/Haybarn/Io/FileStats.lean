import Mathlib

/-!
# The statistics of a file

`FileStatisticsCollector` (lib/src/io/file_stats.cc) counts, block by block, what is read of a file
and written to it. `Resize` lays the blocks out for a size: 1001 of them at most, each of which has
a power of two of bytes. `BumpCounter` counts a range, which it has as an offset and a length, in
every block from the one of its first byte to the one of its last byte.

Mirroring notes:
- `size_t` has 32 bits, and what is shifted out of it is lost (`sizeT`); offsets and sizes are
  64-bit words that do not overflow.
- A counter is a 16-bit word. Counters behind `block_count` are memory that is not the collector's:
  `BumpCounter` leaves them out, and `bumped` says which ones it would have counted.
- Latches are left out, as is the assertion in `BumpCounter`: it is compiled away.
-/

namespace Haybarn.Io.FileStats

/-! ## The collector -/

structure BlockStatistics where
  file_read_cold : UInt16 := 0
  file_read_ahead : UInt16 := 0
  file_read_cached : UInt16 := 0
  file_write : UInt16 := 0
  page_access : UInt16 := 0
  page_load : UInt16 := 0
  deriving DecidableEq, Repr

/-- The counters of a block. -/
inductive Counter
  | FileReadAhead | FileReadCold | FileReadCached | FileWrite | PageAccess | PageLoad
  deriving DecidableEq, Repr

/-- A counter stays at 2^15 once it is there. -/
def hit (hits : UInt16) : UInt16 := if 32768 < hits.toNat + 1 then 32768 else hits + 1

def BlockStatistics.count (b : BlockStatistics) : Counter → BlockStatistics
  | .FileReadAhead => { b with file_read_ahead := hit b.file_read_ahead }
  | .FileReadCold => { b with file_read_cold := hit b.file_read_cold }
  | .FileReadCached => { b with file_read_cached := hit b.file_read_cached }
  | .FileWrite => { b with file_write := hit b.file_write }
  | .PageAccess => { b with page_access := hit b.page_access }
  | .PageLoad => { b with page_load := hit b.page_load }

structure FileStatisticsCollector where
  block_shift : Nat := 0
  /-- `block_count` is its length. -/
  block_stats : List BlockStatistics := []
  active : Bool := true
  bytes_file_read_cold : Nat := 0
  bytes_file_read_ahead : Nat := 0
  bytes_file_read_cached : Nat := 0
  bytes_file_write : Nat := 0
  bytes_page_access : Nat := 0
  bytes_page_load : Nat := 0
  deriving DecidableEq, Repr

def MAX_RANGE_COUNT : Nat := 1000
def MIN_RANGE_SHIFT : Nat := 14

def sizeT (n : Nat) : Nat := n % 4294967296

namespace FileStatisticsCollector

variable (c : FileStatisticsCollector)

def block_count : Nat := c.block_stats.length

/-- The loop of `Resize`: the count is halved until it is small enough. -/
def halve (block_count block_shift : Nat) : Nat × Nat :=
  if h : MAX_RANGE_COUNT < block_count then halve (block_count / 2) (block_shift + 1)
  else (block_count, block_shift)
  termination_by block_count
  decreasing_by
    have : 1000 < block_count := h
    omega

/-- The number of blocks for a size, and their width. -/
def layout (n : Nat) : Nat × Nat :=
  let (block_count, block_shift) := halve (max (sizeT (n >>> MIN_RANGE_SHIFT)) 1) MIN_RANGE_SHIFT
  (if sizeT (block_count <<< block_shift) < n then block_count + 1 else block_count, block_shift)

def Resize (n : Nat) : FileStatisticsCollector :=
  let (block_count, block_shift) := layout n
  if block_count = c.block_count ∧ block_shift = c.block_shift then c
  else { c with block_stats := List.replicate block_count {}, block_shift }

/-! ## Counting -/

def addTotal (length : Nat) : Counter → FileStatisticsCollector
  | .FileReadAhead => { c with bytes_file_read_ahead := c.bytes_file_read_ahead + length }
  | .FileReadCold => { c with bytes_file_read_cold := c.bytes_file_read_cold + length }
  | .FileReadCached => { c with bytes_file_read_cached := c.bytes_file_read_cached + length }
  | .FileWrite => { c with bytes_file_write := c.bytes_file_write + length }
  | .PageAccess => { c with bytes_page_access := c.bytes_page_access + length }
  | .PageLoad => { c with bytes_page_load := c.bytes_page_load + length }

/-- The indices of the blocks that `BumpCounter` counts, in bounds or not. -/
def bumped (offset length : Nat) : List Nat :=
  if c.active then
    let first := offset >>> c.block_shift
    let last := (offset + max (sizeT length) 1 - 1) >>> c.block_shift
    (List.range (last + 1)).drop first
  else []

def BumpCounter (offset length : Nat) (counter : Counter) : FileStatisticsCollector :=
  if c.active then
    { c with
      block_stats := c.block_stats.mapIdx fun i (b : BlockStatistics) =>
        if i ∈ c.bumped offset length then b.count counter else b }.addTotal length counter
  else c

/-! ## What the blocks cover -/

section Layout

variable {n block_count block_shift : Nat}

theorem halve_spec (hpos : 1 ≤ block_count) (hlt : n < (block_count + 1) <<< block_shift) :
    1 ≤ (halve block_count block_shift).1 ∧
      n < ((halve block_count block_shift).1 + 1) <<< (halve block_count block_shift).2 := by
  induction block_count, block_shift using halve.induct with
  | case1 block_count block_shift hmany ih =>
    unfold halve
    rw [dif_pos hmany]
    have hmany : 1000 < block_count := hmany
    refine ih (by omega) ?_
    rw [Nat.shiftLeft_eq] at hlt ⊢
    rw [Nat.pow_succ', ← Nat.mul_assoc]
    exact Nat.lt_of_lt_of_le hlt (Nat.mul_le_mul_right _ (by omega))
  | case2 block_count block_shift hfew =>
    unfold halve
    rw [dif_neg hfew]
    exact ⟨hpos, hlt⟩

/-- **The blocks that a size is laid out in cover it.** -/
theorem le_layout (hn : n < 70368744177664) : n ≤ (layout n).1 <<< (layout n).2 := by
  have hshift : n >>> MIN_RANGE_SHIFT = n / 16384 := Nat.shiftRight_eq_div_pow n 14
  have hsize : sizeT (n >>> MIN_RANGE_SHIFT) = n / 16384 := by
    rw [hshift]
    exact Nat.mod_eq_of_lt (by omega)
  have hlt : n < (max (n / 16384) 1 + 1) <<< MIN_RANGE_SHIFT := by
    show n < (max (n / 16384) 1 + 1) <<< 14
    rw [Nat.shiftLeft_eq]
    omega
  obtain ⟨-, hhalved⟩ := halve_spec (Nat.le_max_right _ _) hlt
  unfold layout
  rw [hsize]
  generalize halve (max (n / 16384) 1) MIN_RANGE_SHIFT = h at hhalved
  obtain ⟨block_count, block_shift⟩ := h
  dsimp only at hhalved ⊢
  split
  next => exact hhalved.le
  next hle => exact (Nat.le_of_not_lt hle).trans (Nat.mod_le _ _)

/-- Halving keeps a count of `a` bits at `shift` within `a + shift` bits, and ends with a small
one. -/
theorem halve_bound {a : Nat} (hlt : block_count < 2 ^ a) :
    (halve block_count block_shift).1 ≤ MAX_RANGE_COUNT ∧
      ((halve block_count block_shift).1 + 1) <<< (halve block_count block_shift).2 ≤
        2 ^ (a + block_shift) := by
  induction block_count, block_shift using halve.induct generalizing a with
  | case1 block_count block_shift hmany ih =>
    unfold halve
    rw [dif_pos hmany]
    have hmany : 1000 < block_count := hmany
    -- more than a thousand blocks have a bit to lose
    cases a with
    | zero => omega
    | succ a =>
      rw [Nat.pow_succ] at hlt
      rw [Nat.succ_add_eq_add_succ]
      exact ih (by omega)
  | case2 block_count block_shift hfew =>
    unfold halve
    rw [dif_neg hfew]
    refine ⟨Nat.le_of_not_lt hfew, ?_⟩
    rw [Nat.shiftLeft_eq, Nat.pow_add]
    exact Nat.mul_le_mul_right _ hlt

/-- There is a block, and there are a thousand and one at most. -/
theorem layout_count (n : Nat) : 1 ≤ (layout n).1 ∧ (layout n).1 ≤ MAX_RANGE_COUNT + 1 := by
  obtain ⟨hpos, -⟩ := @halve_spec 0 _ MIN_RANGE_SHIFT
    (Nat.le_max_right (sizeT (n >>> MIN_RANGE_SHIFT)) 1) (by rw [Nat.shiftLeft_eq]; positivity)
  obtain ⟨hfew, -⟩ := @halve_bound (max (sizeT (n >>> MIN_RANGE_SHIFT)) 1) MIN_RANGE_SHIFT _
    Nat.lt_two_pow_self
  unfold layout
  dsimp only
  split
  next => exact ⟨Nat.le_add_left _ _, Nat.succ_le_succ hfew⟩
  next => exact ⟨hpos, Nat.le_succ_of_le hfew⟩

/-- The count before halving has 32 bits, so that 46 bits of a size are all that is covered. -/
theorem layout_le (n : Nat) : (layout n).1 <<< (layout n).2 ≤ 70368744177664 := by
  have hlt : max (sizeT (n >>> MIN_RANGE_SHIFT)) 1 < 2 ^ 32 :=
    max_lt (Nat.mod_lt _ (by decide)) (by decide)
  have hbound := (@halve_bound _ MIN_RANGE_SHIFT _ hlt).2
  refine Nat.le_trans ?_ hbound
  rw [Nat.shiftLeft_eq, Nat.shiftLeft_eq]
  refine Nat.mul_le_mul_right _ ?_
  unfold layout
  dsimp only
  split
  next => exact Nat.le_refl _
  next => exact Nat.le_succ _

/-- **A size is covered if it has 46 bits, and only then.** -/
theorem le_layout_iff : n ≤ (layout n).1 <<< (layout n).2 ↔ n < 70368744177664 := by
  refine ⟨fun hle => ?_, le_layout⟩
  refine Nat.lt_of_le_of_ne (Nat.le_trans hle (layout_le n)) ?_
  intro heq
  -- no bit of 2^46 is left: two blocks
  subst heq
  have hlayout : layout 70368744177664 = (2, 14) := by
    simp [layout, halve, sizeT, MIN_RANGE_SHIFT, MAX_RANGE_COUNT]
  rw [hlayout] at hle
  exact absurd hle (by decide)

end Layout

@[simp] theorem resize_shift (n : Nat) : (c.Resize n).block_shift = (layout n).2 := by
  unfold Resize
  dsimp only
  split
  next h => exact h.2.symm
  next => rfl

@[simp] theorem resize_count (n : Nat) : (c.Resize n).block_count = (layout n).1 := by
  unfold Resize
  dsimp only
  split
  next h => exact h.1.symm
  next => exact List.length_replicate

@[simp] theorem resize_active (n : Nat) : (c.Resize n).active = c.active := by
  unfold Resize
  dsimp only
  split
  next => rfl
  next => rfl

/-- The bytes that the blocks are for. -/
def covered : Nat := c.block_count <<< c.block_shift

theorem le_covered_resize {n : Nat} (hn : n < 70368744177664) : n ≤ (c.Resize n).covered := by
  unfold covered
  rw [resize_count, resize_shift]
  exact le_layout hn

/-! ## Any number of resizes -/

/-- What `Resize` is for: some blocks, not many, and together as wide as the file. -/
structure Geometry (n : Nat) : Prop where
  some_block : 1 ≤ c.block_count
  few : c.block_count ≤ MAX_RANGE_COUNT + 1
  covers : n ≤ c.covered

/-- **After any resizes, the blocks are laid out for the last size if and only if it has 46
bits.** -/
theorem resized_geometry_iff (ns : List Nat) (n : Nat) :
    ((ns.foldl Resize c).Resize n).Geometry n ↔ n < 70368744177664 := by
  have hcovered : ((ns.foldl Resize c).Resize n).covered = (layout n).1 <<< (layout n).2 := by
    unfold covered
    rw [resize_count, resize_shift]
  constructor
  · intro h
    have hcovers := h.covers
    rw [hcovered] at hcovers
    exact le_layout_iff.mp hcovers
  · intro hn
    have hcount := layout_count n
    rw [← (ns.foldl Resize c).resize_count n] at hcount
    exact ⟨hcount.1, hcount.2, (ns.foldl Resize c).le_covered_resize hn⟩

/-- 64 TiB are laid out in two blocks of 16 KiB. -/
theorem resized_64_tebibytes :
    ¬ (({} : FileStatisticsCollector).Resize 70368744177664).Geometry 70368744177664 := by
  intro h
  have hcovers := h.covers
  unfold covered at hcovers
  rw [resize_count, resize_shift] at hcovers
  exact absurd (le_layout_iff.mp hcovers) (Nat.lt_irrefl _)

/-! ## Which blocks are counted -/

theorem addTotal_block_stats (length : Nat) (counter : Counter) :
    (c.addTotal length counter).block_stats = c.block_stats := by
  cases counter <;> rfl

theorem addTotal_block_shift (length : Nat) (counter : Counter) :
    (c.addTotal length counter).block_shift = c.block_shift := by
  cases counter <;> rfl

@[simp] theorem bump_count (offset length : Nat) (counter : Counter) :
    (c.BumpCounter offset length counter).block_count = c.block_count := by
  unfold BumpCounter block_count
  split
  next =>
    rw [addTotal_block_stats]
    exact List.length_mapIdx
  next => rfl

@[simp] theorem bump_shift (offset length : Nat) (counter : Counter) :
    (c.BumpCounter offset length counter).block_shift = c.block_shift := by
  unfold BumpCounter
  split
  next => rw [addTotal_block_shift]
  next => rfl

@[simp] theorem bump_active (offset length : Nat) (counter : Counter) :
    (c.BumpCounter offset length counter).active = c.active := by
  unfold BumpCounter
  split
  next => cases counter <;> rfl
  next => rfl

theorem bump_covered (offset length : Nat) (counter : Counter) :
    (c.BumpCounter offset length counter).covered = c.covered := by
  unfold covered
  rw [bump_count, bump_shift]

theorem mem_bumped {offset length i : Nat} (hactive : c.active = true) :
    i ∈ c.bumped offset length ↔ offset >>> c.block_shift ≤ i ∧
      i ≤ (offset + max (sizeT length) 1 - 1) >>> c.block_shift := by
  unfold bumped
  rw [if_pos hactive]
  dsimp only
  rw [List.range_eq_range', List.drop_range', List.mem_range'_1]
  omega

/-- A block has a byte of a range. -/
def Overlaps (block_shift i offset length : Nat) : Prop :=
  ∃ byte, offset ≤ byte ∧ byte < offset + length ∧ byte >>> block_shift = i

/-- The blocks of a range are those from its first byte to its last one. -/
theorem overlaps_iff {block_shift i offset length : Nat} (hlength : 0 < length) :
    Overlaps block_shift i offset length ↔
      offset >>> block_shift ≤ i ∧ i ≤ (offset + length - 1) >>> block_shift := by
  unfold Overlaps
  simp only [Nat.shiftRight_eq_div_pow]
  have hpos : 0 < 2 ^ block_shift := Nat.two_pow_pos block_shift
  constructor
  · rintro ⟨byte, hge, hlt, hblock⟩
    rw [← hblock]
    exact ⟨Nat.div_le_div_right hge, Nat.div_le_div_right (by omega)⟩
  · rintro ⟨hfirst, hlast⟩
    have hle : i * 2 ^ block_shift ≤ offset + length - 1 := (Nat.le_div_iff_mul_le hpos).mp hlast
    by_cases hbefore : offset ≤ i * 2 ^ block_shift
    · exact ⟨i * 2 ^ block_shift, hbefore, by omega, Nat.mul_div_cancel i hpos⟩
    · refine ⟨offset, Nat.le_refl _, by omega, Nat.le_antisymm hfirst ?_⟩
      exact (Nat.le_div_iff_mul_le hpos).mpr (by omega)

/-- **A range that ends where the blocks do, or before, is counted in bounds**, in just the
blocks that have bytes of it. -/
theorem bumped_right {offset length registered i : Nat} (hactive : c.active = true)
    (hlength : 0 < length) (hin : offset + length ≤ c.covered)
    (hregistered : 0 < sizeT registered)
    (hlast : (offset + sizeT registered - 1) >>> c.block_shift =
      (offset + length - 1) >>> c.block_shift) :
    (i ∈ c.bumped offset registered → i < c.block_count) ∧
      (i ∈ c.bumped offset registered ↔ Overlaps c.block_shift i offset length) := by
  have hmax : max (sizeT registered) 1 = sizeT registered := by omega
  rw [c.mem_bumped hactive, hmax, hlast, overlaps_iff hlength]
  refine ⟨fun ⟨_, hle⟩ => ?_, Iff.rfl⟩
  unfold covered at hin
  rw [Nat.shiftRight_eq_div_pow] at hle
  rw [Nat.shiftLeft_eq] at hin
  have hpos : 0 < 2 ^ c.block_shift := Nat.two_pow_pos c.block_shift
  have hlt : (offset + length - 1) / 2 ^ c.block_shift < c.block_count :=
    (Nat.div_lt_iff_lt_mul hpos).mpr (by omega)
  omega

end FileStatisticsCollector

end Haybarn.Io.FileStats
