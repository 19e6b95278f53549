import Haybarn.Io.FileStats
import Haybarn.Lib.Slice

/-!
# The statistics of a file, exported

`ExportStatistics` (lib/src/io/file_stats.cc) packs the counters of a block into the nibbles of
three bytes, behind seven numbers; `FileStatistics` unpacks them in bindings/file_stats.ts, and once more
in the shell (crate/src/duckdb/file_stats.rs). The shell's reading of a block is right
(`rust_block`). That of the bindings takes the counters of the pages from the byte before
(`ts_block_iff`), and the bytes of the blocks are copied into an array that is as large as all of
what was exported, so that the shell counts 18 blocks too many (`rust_block_count`).

Mirroring notes:
- `f64` is how a number lies in memory as a `double`; nothing is known of it but its eight bytes.
- An element of a typed array behind its end is `undefined`, which the bit operators take for 0;
  an index behind the end of a `Vec` panics. A `Float64Array` has to lie at a multiple of eight.
- The totals of the shell are those of the bindings, and are left out.
-/

namespace Haybarn.Io.FileStats

open Haybarn.Lib

/-! ## Export -/

/-- The loop of `as_nibble`. -/
def as_nibble (hits : Nat) : Nat :=
  (((List.range 16).takeWhile fun value => 1 <<< value - 1 ≤ hits).getLast?).getD 0

/-- The bytes of a block. -/
def exportBlock (b : BlockStatistics) : List UInt8 :=
  [UInt8.ofNat (as_nibble b.file_write.toNat ||| as_nibble b.file_read_cold.toNat <<< 4),
    UInt8.ofNat (as_nibble b.file_read_ahead.toNat ||| as_nibble b.file_read_cached.toNat <<< 4),
    UInt8.ofNat (as_nibble b.page_access.toNat ||| as_nibble b.page_load.toNat <<< 4)]

/-- The bytes of a `double`. -/
structure DoubleFormat where
  bytes : Nat → List UInt8
  length_bytes : ∀ n, (bytes n).length = 8

variable (f64 : DoubleFormat)

def exportHeader (c : FileStatisticsCollector) : List UInt8 :=
  [c.bytes_file_read_cold, c.bytes_file_read_ahead, c.bytes_file_read_cached, c.bytes_file_write,
    c.bytes_page_access, c.bytes_page_load, 1 <<< c.block_shift].flatMap f64.bytes

def FileStatisticsCollector.ExportStatistics (c : FileStatisticsCollector) : List UInt8 :=
  exportHeader f64 c ++ c.block_stats.flatMap exportBlock

/-! ## Import -/

structure FileBlockStatistics where
  file_reads_cold : Nat
  file_reads_ahead : Nat
  file_reads_cached : Nat
  file_writes : Nat
  page_accesses : Nat
  page_loads : Nat
  deriving DecidableEq, Repr

/-- `FileStatistics` of the bindings; the totals are the bytes of the numbers. -/
structure FileStatistics where
  totalFileReadsCold : List UInt8
  totalFileReadsAhead : List UInt8
  totalFileReadsCached : List UInt8
  totalFileWrites : List UInt8
  totalPageAccesses : List UInt8
  totalPageLoads : List UInt8
  blockSize : List UInt8
  blockStats : List UInt8

/-- The constructor, for a view of the memory at `byteOffset`. -/
def FileStatistics.new (byteOffset : Nat) (u8array : List UInt8) : Option FileStatistics :=
  if byteOffset % 8 = 0 then
    let f64 := fun i => slice u8array (8 * i) 8
    let blocks := u8array.drop (7 * 8)
    some {
      totalFileReadsCold := f64 0
      totalFileReadsAhead := f64 1
      totalFileReadsCached := f64 2
      totalFileWrites := f64 3
      totalPageAccesses := f64 4
      totalPageLoads := f64 5
      blockSize := f64 6
      blockStats := blocks ++ List.replicate (u8array.length - blocks.length) 0 }
  else none

def FileStatistics.getBlockStats (s : FileStatistics) (index : Nat) : FileBlockStatistics :=
  let blockStats := fun i => (s.blockStats.getD i 0).toNat
  { file_writes := blockStats (index * 3 + 0) &&& 15
    file_reads_cold := blockStats (index * 3 + 0) >>> 4
    file_reads_ahead := blockStats (index * 3 + 1) &&& 15
    file_reads_cached := blockStats (index * 3 + 1) >>> 4
    page_accesses := blockStats (index * 3 + 1) &&& 15
    page_loads := blockStats (index * 3 + 1) >>> 4 }

namespace Rust

/-- `FileStatistics::read` -/
def read (stats : FileStatistics) : List UInt8 := stats.blockStats

def get_block_count (block_stats : List UInt8) : Nat := block_stats.length / 3

def get_block_stats (block_stats : List UInt8) (idx : Nat) : Option FileBlockStatistics := do
  let a ← block_stats[3 * idx + 0]?
  let b ← block_stats[3 * idx + 1]?
  let c ← block_stats[3 * idx + 2]?
  pure {
    file_writes := a.toNat &&& 15
    file_reads_cold := a.toNat >>> 4
    file_reads_ahead := b.toNat &&& 15
    file_reads_cached := b.toNat >>> 4
    page_accesses := c.toNat &&& 15
    page_loads := c.toNat >>> 4 }

end Rust

/-! ## What is wanted -/

/-- The counters of a block as they are exported. -/
def BlockStatistics.quantised (b : BlockStatistics) : FileBlockStatistics where
  file_reads_cold := as_nibble b.file_read_cold.toNat
  file_reads_ahead := as_nibble b.file_read_ahead.toNat
  file_reads_cached := as_nibble b.file_read_cached.toNat
  file_writes := as_nibble b.file_write.toNat
  page_accesses := as_nibble b.page_access.toNat
  page_loads := as_nibble b.page_load.toNat

/-- Every block is read as it was exported, by the bindings and by the shell, and their number
is right. -/
structure RoundTrips (f64 : DoubleFormat) (c : FileStatisticsCollector) (byteOffset : Nat) :
    Prop where
  bindings : ∃ stats, FileStatistics.new byteOffset (c.ExportStatistics f64) = some stats ∧
    ∀ i b, c.block_stats[i]? = some b → stats.getBlockStats i = b.quantised
  shell : ∃ stats, FileStatistics.new byteOffset (c.ExportStatistics f64) = some stats ∧
    ∀ i b, c.block_stats[i]? = some b →
      Rust.get_block_stats (Rust.read stats) i = some b.quantised
  count : ∃ stats, FileStatistics.new byteOffset (c.ExportStatistics f64) = some stats ∧
    Rust.get_block_count (Rust.read stats) = c.block_count

/-! ## Nibbles -/

/-- What the loop has seen is a multiple of the nibble that it counts. -/
theorem as_nibble_spec (hits : Nat) : as_nibble hits < 16 ∧ 1 <<< as_nibble hits - 1 ≤ hits := by
  unfold as_nibble
  cases hlast : ((List.range 16).takeWhile fun value => 1 <<< value - 1 ≤ hits).getLast? with
  | none => exact ⟨by decide, Nat.zero_le _⟩
  | some value =>
    have hmem := List.mem_of_getLast? hlast
    have hin := (List.takeWhile_sublist _).subset hmem
    have hle := List.mem_takeWhile_imp hmem
    rw [decide_eq_true_eq] at hle
    exact ⟨List.mem_range.mp hin, hle⟩

theorem as_nibble_lt (hits : Nat) : as_nibble hits < 16 := (as_nibble_spec hits).1

theorem nibbles : ∀ lo < 16, ∀ hi < 16, (UInt8.ofNat (lo ||| hi <<< 4)).toNat &&& 15 = lo ∧
    (UInt8.ofNat (lo ||| hi <<< 4)).toNat >>> 4 = hi := by
  decide

/-- A byte that is packed from two counters has them in its nibbles. -/
theorem unpack (lo hi : UInt16) :
    (UInt8.ofNat (as_nibble lo.toNat ||| as_nibble hi.toNat <<< 4)).toNat &&& 15 =
        as_nibble lo.toNat ∧
      (UInt8.ofNat (as_nibble lo.toNat ||| as_nibble hi.toNat <<< 4)).toNat >>> 4 =
        as_nibble hi.toNat :=
  nibbles _ (as_nibble_lt _) _ (as_nibble_lt _)

/-! ## Blocks -/

@[simp] theorem length_exportBlock (b : BlockStatistics) : (exportBlock b).length = 3 := rfl

theorem length_exportBlocks (blocks : List BlockStatistics) :
    (blocks.flatMap exportBlock).length = 3 * blocks.length := by
  induction blocks with
  | nil => rfl
  | cons b blocks ih =>
    rw [List.flatMap_cons, List.length_append, ih, length_exportBlock, List.length_cons]
    omega

/-- The bytes of a block are those at three times its index. -/
theorem getElem?_exportBlocks {blocks : List BlockStatistics} {b : BlockStatistics} {i k : Nat}
    (h : blocks[i]? = some b) (hk : k < 3) (rest : List UInt8) :
    (blocks.flatMap exportBlock ++ rest)[3 * i + k]? = (exportBlock b)[k]? := by
  induction blocks generalizing i with
  | nil => cases h
  | cons b' blocks ih =>
    rw [List.flatMap_cons, List.append_assoc]
    cases i with
    | zero =>
      rw [List.getElem?_cons_zero] at h
      obtain rfl := Option.some.inj h
      rw [Nat.mul_zero, Nat.zero_add, List.getElem?_append_left (by simpa using hk)]
    | succ i =>
      rw [List.getElem?_cons_succ] at h
      rw [List.getElem?_append_right (by rw [length_exportBlock]; omega), length_exportBlock,
        show 3 * (i + 1) + k - 3 = 3 * i + k by omega]
      exact ih h

theorem length_exportHeader (f64 : DoubleFormat) (c : FileStatisticsCollector) :
    (exportHeader f64 c).length = 56 := by
  unfold exportHeader
  simp [f64.length_bytes]

variable {f64 : DoubleFormat} {c : FileStatisticsCollector} {stats : FileStatistics}
  {byteOffset : Nat}

/-- The array of the bindings: the blocks, and 56 zeros. -/
theorem blockStats_new (h : FileStatistics.new byteOffset (c.ExportStatistics f64) = some stats) :
    stats.blockStats = c.block_stats.flatMap exportBlock ++ List.replicate 56 0 := by
  have hheader := length_exportHeader f64 c
  unfold FileStatistics.new at h
  split at h
  next =>
    obtain rfl := Option.some.inj h
    have hblocks : (c.ExportStatistics f64).drop (7 * 8) = c.block_stats.flatMap exportBlock := by
      unfold FileStatisticsCollector.ExportStatistics
      rw [List.drop_append_of_le_length (by omega), List.drop_eq_nil_of_le (by omega),
        List.nil_append]
    dsimp only
    rw [hblocks, FileStatisticsCollector.ExportStatistics, List.length_append, hheader,
      Nat.add_sub_cancel]
  next => cases h

section

variable {i : Nat} {b : BlockStatistics}
  (h : FileStatistics.new byteOffset (c.ExportStatistics f64) = some stats)
  (hb : c.block_stats[i]? = some b)
include h hb

/-- **The shell reads every block as it was exported.** -/
theorem rust_block : Rust.get_block_stats (Rust.read stats) i = some b.quantised := by
  unfold Rust.get_block_stats Rust.read
  rw [blockStats_new h, getElem?_exportBlocks hb (by decide), getElem?_exportBlocks hb (by decide),
    getElem?_exportBlocks hb (by decide)]
  show some (FileBlockStatistics.mk _ _ _ _ _ _) = _
  rw [(unpack _ _).1, (unpack _ _).1, (unpack _ _).1, (unpack _ _).2, (unpack _ _).2,
    (unpack _ _).2]
  rfl

/-- What the bindings read: the pages have the counters of the byte before theirs. -/
theorem ts_block : stats.getBlockStats i = { b.quantised with
    page_accesses := b.quantised.file_reads_ahead
    page_loads := b.quantised.file_reads_cached } := by
  have hbyte : ∀ k < 3, stats.blockStats.getD (i * 3 + k) 0 = (exportBlock b).getD k 0 := by
    intro k hk
    rw [List.getD_eq_getElem?_getD, List.getD_eq_getElem?_getD, blockStats_new h,
      Nat.mul_comm i 3, getElem?_exportBlocks hb hk]
  unfold FileStatistics.getBlockStats
  dsimp only
  rw [hbyte 0 (by decide), hbyte 1 (by decide)]
  simp only [exportBlock, List.getD_cons_zero, List.getD_cons_succ]
  rw [(unpack _ _).1, (unpack _ _).1, (unpack _ _).2, (unpack _ _).2]
  rfl

/-- **The bindings read a block as it was exported exactly when its pages have been accessed as
often, in nibbles, as it was read ahead, and loaded as often as it was read from a cache.** -/
theorem ts_block_iff : stats.getBlockStats i = b.quantised ↔
    b.quantised.page_accesses = b.quantised.file_reads_ahead ∧
      b.quantised.page_loads = b.quantised.file_reads_cached := by
  rw [ts_block h hb]
  constructor
  · intro heq
    exact ⟨(congrArg FileBlockStatistics.page_accesses heq).symm,
      (congrArg FileBlockStatistics.page_loads heq).symm⟩
  · intro heq
    rw [← heq.1, ← heq.2]

end

/-- **The shell counts 18 blocks more than there are.** -/
theorem rust_block_count
    (h : FileStatistics.new byteOffset (c.ExportStatistics f64) = some stats) :
    Rust.get_block_count (Rust.read stats) = c.block_count + 18 := by
  unfold Rust.get_block_count Rust.read FileStatisticsCollector.block_count
  rw [blockStats_new h, List.length_append, length_exportBlocks, List.length_replicate]
  omega

/-- **What is exported is never read back as it was**: the number of the blocks is wrong. -/
theorem never_round_trips (f64 : DoubleFormat) (c : FileStatisticsCollector) (byteOffset : Nat) :
    ¬ RoundTrips f64 c byteOffset := by
  intro hround
  obtain ⟨stats, h, hcount⟩ := hround.count
  rw [rust_block_count h] at hcount
  omega

/-- A format of numbers. -/
def zeros : DoubleFormat := ⟨fun _ => List.replicate 8 0, fun _ => rfl⟩

/-- One block, with a page that was accessed once. -/
def oneAccess : FileStatisticsCollector :=
  { block_shift := 14, block_stats := [{ page_access := 1 }] }

/-- The bindings read 0 accesses of the page, and the shell 19 blocks. -/
theorem access_is_read_as_none : ¬ RoundTrips zeros oneAccess 0 ∧
    ∃ stats, FileStatistics.new 0 (oneAccess.ExportStatistics zeros) = some stats ∧
      (stats.getBlockStats 0).page_accesses = 0 ∧
      Rust.get_block_count (Rust.read stats) = 19 := by
  have hnew : ∃ stats, FileStatistics.new 0 (oneAccess.ExportStatistics zeros) = some stats :=
    ⟨_, rfl⟩
  obtain ⟨stats, h⟩ := hnew
  have hblock : oneAccess.block_stats[0]? = some { page_access := 1 } := rfl
  have hread := ts_block h hblock
  refine ⟨fun hround => ?_, stats, h, ?_, rust_block_count h⟩
  · obtain ⟨stats', h', hblocks⟩ := hround.bindings
    obtain rfl := Option.some.inj (h.symm.trans h')
    have hsame := (hblocks 0 _ hblock).symm.trans hread
    exact absurd (congrArg FileBlockStatistics.page_accesses hsame) (by decide)
  · rw [hread]
    decide

end Haybarn.Io.FileStats
