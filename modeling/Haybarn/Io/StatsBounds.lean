import Haybarn.Io.FileStats
import Haybarn.Io.ReadFailures
import Haybarn.Io.WebFiles

/-!
# The blocks that a file counts

`WebFileSystem` (lib/src/io/web_filesystem.cc) tells the statistics of a file what has been read
and written, and lays their blocks out anew when the size changes. A block that is counted should
be there, and have a byte of the range (`Update.Right`).

`Truncate` lays the blocks out for the size that the file had before. A write to a buffer registers
its end as its length. An empty range counts a block, which need not be there at the end of the
file. Without these (`Fine`), `counted_in_bounds` is about every run.

Mirroring notes:
- One file, which is open: `file_size` is `file_size_.value_or(0)`. Its handles are one position
  (`Seek`), and the calls with a location are made of those without.
- `World` is what the runtime has of each file, with the read-ahead buffer of the thread. Of a
  buffer only the size is modelled. A native file answers and takes as many bytes as the runtime
  says (`n`); a remote one has what it had.
- `nr_bytes` is the length of a buffer in memory. `size_t` has 32 bits (`sizeT`).
- A call that throws changes nothing and is no step.
- The page buffer registers its pages with the same collector; it is left out.
- `updates` is not in the source.
-/

namespace Haybarn.Io.StatsBounds

open Haybarn.Lib Haybarn.Io.FileStats
open Haybarn.Io.WebFiles (DataProtocol)

/-! ## The file -/

structure WebFile where
  data_protocol : DataProtocol
  file_id : BitVec 32
  file_size : Nat
  /-- The size of `data_buffer_`. -/
  data_buffer : Nat
  /-- Whether there is a pointer to the collector. -/
  file_stats : Bool := false
  deriving DecidableEq

/-- A range has been read or written, and these blocks have been counted for it. -/
structure Update where
  offset : Nat
  length : Nat
  blocks : List Nat
  block_count : Nat
  block_shift : Nat
  deriving DecidableEq, Repr

structure State where
  file : WebFile
  world : World
  /-- The collector that is registered under the name of the file. -/
  collector : Option FileStatisticsCollector
  position : Nat
  updates : List Update

/-- A file of the runtime, as it has been opened. -/
def opened (data_protocol : DataProtocol) (file_id : BitVec 32) (files : BitVec 32 → List UInt8) :
    State where
  file :=
    { data_protocol, file_id,
      file_size := (files file_id).length, data_buffer := (files file_id).length }
  world := { buffer := .initial, files }
  collector := none
  position := 0
  updates := []

/-- The runtime reads a part of a file as it is. -/
def readFn : ReadFn := fun contents bytes offset => slice contents offset bytes

namespace State

variable (s : State)

/-- What the runtime has of the file. -/
def contents : List UInt8 := s.world.files s.file.file_id

/-! ### The collector -/

/-- A call of a `Register` function, for a range of so many bytes. -/
def register (counter : Counter) (offset registered length : Nat) : State :=
  match s.collector with
  | some c =>
    if s.file.file_stats && c.active then
      { s with
        collector := some (c.BumpCounter offset registered counter),
        updates := s.updates ++
          [⟨offset, length, c.bumped offset registered, c.block_count, c.block_shift⟩] }
    else s
  | none => s

def resizeStats (n : Nat) : State :=
  if s.file.file_stats then { s with collector := s.collector.map (·.Resize n) } else s

/-- `EnableCollector` and `CollectFileStatistics`. -/
def CollectFileStatistics (enable : Bool) : State :=
  let s := match s.collector with
    | some c => { s with collector := some { c with active := enable } }
    | none => if enable then { s with collector := some {} } else s
  if s.collector.isSome && !s.file.file_stats then
    { s with file := { s.file with file_stats := true } }.resizeStats s.file.file_size
  else s

/-- What an open does for the statistics. -/
def track : State :=
  if s.collector.isSome then
    { s with file := { s.file with file_stats := true } }.resizeStats s.file.file_size
  else s

/-! ### The calls -/

/-- The runtime has other bytes now, and the read-ahead buffers of the file are invalidated. -/
def change (contents : List UInt8) : Option State :=
  (s.world.step readFn 32 (.change s.file.file_id contents)).map fun world => { s with world }

def InvalidateReadAheads : State :=
  { s with world := { s.world with buffer := s.world.buffer.invalidate (headId s.file.file_id) } }

/-- The bytes of a file that is cut off or filled up with zeros. -/
def filledTo (contents : List UInt8) (n : Nat) : List UInt8 := contents.takeD n 0

/-- The statistics are resized before the size is. -/
def Truncate (new_size : Nat) : Option State :=
  let resized := match s.file.data_protocol with
    | .BUFFER => some { s with file := { s.file with data_buffer := sizeT new_size } }
    | .NODE_FS | .BROWSER_FSACCESS => s.change (filledTo s.contents new_size)
    | .BROWSER_FILEREADER | .HTTP | .S3 => none
  resized.map fun s =>
    let s := s.resizeStats s.file.file_size
    { s with file := { s.file with file_size := new_size } }.InvalidateReadAheads

/-- The file as the runtime has opened it, which may return a buffer. -/
def openedFile (buffered : Bool) : WebFile :=
  let file := { s.file with file_size := s.contents.length }
  if buffered then { file with data_protocol := .BUFFER, data_buffer := sizeT file.file_size }
  else file

/-- `OpenFile` once more. -/
def OpenFile (overwrite buffered : Bool) : Option State :=
  match s.file.data_protocol with
  | .BUFFER =>
    let file := if overwrite then { s.file with data_buffer := 0, file_size := 0 } else s.file
    some { s with file }.track
  | .NODE_FS | .BROWSER_FILEREADER | .BROWSER_FSACCESS | .HTTP | .S3 =>
    let s := { s with file := s.openedFile buffered }
    (if overwrite then s.Truncate 0 else some s).map track

def moved (n : Nat) : State := { s with position := s.position + n }

end State

/-! ### Reading ahead -/

/-- The head that answers a read, if there is one. -/
def answering (file_id : FileId) (offset : Nat) (heads : List ReadHead) : Option ReadHead :=
  heads.find? fun head => head.fileId = file_id && head.offset ≤ offset &&
    offset ≤ (head.offset + head.bufferSize) % 2 ^ 64

/-- What `ReadAheadBuffer::Read` registers: the counters, offsets and lengths. -/
def registers (contents : List UInt8) (file_id : FileId) (nr_bytes offset : Nat)
    (heads : List ReadHead) : List (Counter × Nat × Nat) :=
  match answering file_id offset heads with
  | some head =>
    let fin := (head.offset + head.bufferSize) % 2 ^ 64
    if offset < fin then
      let copy_here := min (head.bufferSize - (offset - head.offset)) (sizeT nr_bytes)
      [(.FileReadCached, offset, copy_here)]
    else
      let safe_offset := min contents.length fin
      let head := (accelerate readFn 32 contents head nr_bytes).1
      let copy_here := min head.bufferSize nr_bytes
      [(.FileReadCold, safe_offset, copy_here),
        (.FileReadAhead, safe_offset + copy_here, head.bufferSize - copy_here)]
  | none =>
    let safe_offset := min contents.length offset
    let read_here := min (contents.length - safe_offset) (sizeT nr_bytes)
    [(.FileReadCold, safe_offset, (readFn contents read_here safe_offset).length)]

namespace State

variable (s : State)

/-- The registrations of a read, one after the other. -/
def registerAll (rs : List (Counter × Nat × Nat)) : State :=
  rs.foldl (fun s r => s.register r.1 r.2.1 r.2.2 r.2.2) s

def Read (nr_bytes n : Nat) : Option State :=
  match s.file.data_protocol with
  | .BUFFER =>
    let n := min nr_bytes (s.file.data_buffer - min (sizeT s.position) s.file.data_buffer)
    some ((s.register .FileReadCached s.position n n).moved n)
  | .NODE_FS | .BROWSER_FILEREADER | .BROWSER_FSACCESS =>
    if n ≤ nr_bytes ∧ (n = 0 ∨ s.position + n ≤ s.contents.length) then
      some ((s.register .FileReadCold s.position n n).moved n)
    else none
  | .HTTP | .S3 =>
    (s.world.step readFn 32 (.read s.file.file_id nr_bytes s.position)).map fun world =>
      let heads := s.world.buffer.applyInvalidations.readHeads
      let id := headId s.file.file_id
      let out := (s.world.buffer.read readFn 32 s.contents id nr_bytes s.position).2
      ({ s with world }.registerAll (registers s.contents id nr_bytes s.position heads)).moved
        out.length

/-- A write to a buffer registers its end, as if it were a length. -/
def Write (bytes : List UInt8) (n : Nat) : Option State :=
  let nr_bytes := bytes.length
  let pos := s.position
  let end_ := pos + nr_bytes
  match s.file.data_protocol with
  | .BUFFER =>
    let grown := if s.file.data_buffer < end_ then
      s.Truncate (max (sizeT end_) (sizeT s.file.file_size)) else some s
    grown.map fun s =>
      let s := (s.resizeStats s.file.file_size).register .FileWrite pos end_ nr_bytes
      { s with position := end_ }.InvalidateReadAheads
  | .NODE_FS | .BROWSER_FSACCESS =>
    if n ≤ nr_bytes then
      let written := if n = 0 then s.contents else overwrite 0 s.contents pos (bytes.take n)
      (s.change written).map fun s =>
        let s := if s.file.file_size < end_ then
            let file_size := max (sizeT (pos + n)) (sizeT s.file.file_size)
            { s with file := { s.file with file_size } }.resizeStats file_size
          else s
        ((s.register .FileWrite pos n n).moved n).InvalidateReadAheads
    else none
  | .BROWSER_FILEREADER | .HTTP | .S3 => none

end State

inductive Call
  | CollectFileStatistics (enable : Bool)
  | OpenFile (overwrite buffered : Bool)
  | Seek (position : Nat)
  | Read (nr_bytes n : Nat)
  | Write (bytes : List UInt8) (n : Nat)
  | Truncate (new_size : Nat)
  /-- Another file is read or changed, in the same thread. -/
  | elsewhere (e : Io.Event)

/-- The file that the read-ahead buffer is used for. -/
def isOf (file_id : BitVec 32) : Io.Event → Bool
  | .read id _ _ | .change id _ => id = file_id
  | .invalidate _ | .drop _ => false

def step (s : State) : Call → Option State
  | .CollectFileStatistics enable => some (s.CollectFileStatistics enable)
  | .OpenFile overwrite buffered => s.OpenFile overwrite buffered
  | .Seek position => some { s with position }
  | .Read nr_bytes n => if nr_bytes < 2 ^ 32 then s.Read nr_bytes n else none
  | .Write bytes n => if bytes.length < 2 ^ 32 then s.Write bytes n else none
  | .Truncate new_size => s.Truncate new_size
  | .elsewhere e =>
    if isOf s.file.file_id e then none
    else (s.world.step readFn 32 e).map fun world => { s with world }

/-! ## Counting in bounds -/

/-- The blocks that have been counted are there, and are those that have a byte of the range. -/
def Update.Right (u : Update) : Prop :=
  ∀ i, (i ∈ u.blocks → i < u.block_count) ∧
    (i ∈ u.blocks ↔ FileStatisticsCollector.Overlaps u.block_shift i u.offset u.length)

/-- The speed of a head that goes faster. -/
def faster (speed : Nat) : Nat :=
  max (min (speed * readaheadAcceleration % 2 ^ 32) readaheadMaximum) readaheadBase

namespace State

variable (s : State)

def counts : Bool := s.file.file_stats && s.collector.any (·.active)

/-- A read has a byte, and a read that goes ahead has a byte more than is wanted. -/
def Transfers (nr_bytes n : Nat) : Prop :=
  match s.file.data_protocol with
  | .BUFFER => 0 < nr_bytes ∧ s.position < s.file.file_size
  | .NODE_FS | .BROWSER_FILEREADER | .BROWSER_FSACCESS => 0 < n
  | .HTTP | .S3 => 0 < nr_bytes ∧ s.position < s.contents.length ∧
    ∀ head ∈ answering (headId s.file.file_id) s.position
        s.world.buffer.applyInvalidations.readHeads,
      s.position = head.offset + head.bufferSize →
        nr_bytes < min (s.contents.length - s.position) (faster head.speed)

/-- A write has a byte. The blocks of a buffer end with the block where it would end if its end
were its length. -/
def Fits (bytes : List UInt8) (n : Nat) : Prop :=
  let end_ := s.position + bytes.length
  match s.file.data_protocol with
  | .BUFFER => end_ < 4294967296 ∧ (s.counts = true → 0 < bytes.length ∧
    (s.position + end_ - 1) >>> (FileStatisticsCollector.layout (max end_ s.file.file_size)).2 =
      (end_ - 1) >>> (FileStatisticsCollector.layout (max end_ s.file.file_size)).2)
  | .NODE_FS | .BROWSER_FSACCESS =>
    (s.file.file_size < end_ → max (s.position + n) s.file.file_size < 4294967296) ∧
      (s.counts = true → 0 < n)
  | .BROWSER_FILEREADER | .HTTP | .S3 => True

/-- The file is not grown beyond the blocks that it has for the size before. -/
def StaysCovered (new_size : Nat) : Prop :=
  new_size < 70368744177664 ∧
    (s.file.data_protocol = .BUFFER → new_size < 4294967296) ∧
    (s.file.file_stats = true →
      new_size ≤ (FileStatisticsCollector.layout s.file.file_size).1 <<<
        (FileStatisticsCollector.layout s.file.file_size).2)

end State

def Fine (s : State) : Call → Prop
  | .OpenFile _ buffered => s.contents.length < 70368744177664 ∧
    (buffered = true → s.contents.length < 4294967296)
  | .Read nr_bytes n => s.counts = true → s.Transfers nr_bytes n
  | .Write bytes n => s.Fits bytes n
  | .Truncate new_size => s.StaysCovered new_size
  | .CollectFileStatistics _ | .Seek _ | .elsewhere _ => True

instance (s : State) (nr_bytes n : Nat) : Decidable (s.Transfers nr_bytes n) :=
  match h : s.file.data_protocol with
  | .BUFFER => decidable_of_iff (0 < nr_bytes ∧ s.position < s.file.file_size) (by
      unfold State.Transfers
      rw [h])
  | .NODE_FS | .BROWSER_FILEREADER | .BROWSER_FSACCESS => decidable_of_iff (0 < n) (by
      unfold State.Transfers
      rw [h])
  | .HTTP | .S3 => decidable_of_iff (0 < nr_bytes ∧ s.position < s.contents.length ∧
      ∀ head ∈ answering (headId s.file.file_id) s.position
          s.world.buffer.applyInvalidations.readHeads,
        s.position = head.offset + head.bufferSize →
          nr_bytes < min (s.contents.length - s.position) (faster head.speed)) (by
      unfold State.Transfers
      rw [h])

instance (s : State) (bytes : List UInt8) (n : Nat) : Decidable (s.Fits bytes n) :=
  match h : s.file.data_protocol with
  | .BUFFER => decidable_of_iff (s.position + bytes.length < 4294967296 ∧
      (s.counts = true → 0 < bytes.length ∧
        (s.position + (s.position + bytes.length) - 1) >>> (FileStatisticsCollector.layout
          (max (s.position + bytes.length) s.file.file_size)).2 =
        (s.position + bytes.length - 1) >>> (FileStatisticsCollector.layout
          (max (s.position + bytes.length) s.file.file_size)).2)) (by
      unfold State.Fits
      rw [h])
  | .NODE_FS | .BROWSER_FSACCESS => decidable_of_iff
      ((s.file.file_size < s.position + bytes.length →
        max (s.position + n) s.file.file_size < 4294967296) ∧ (s.counts = true → 0 < n)) (by
      unfold State.Fits
      rw [h])
  | .BROWSER_FILEREADER | .HTTP | .S3 => decidable_of_iff True (by
      unfold State.Fits
      rw [h])

instance (s : State) (new_size : Nat) : Decidable (s.StaysCovered new_size) :=
  inferInstanceAs (Decidable (_ ∧ _ ∧ _))

instance (s : State) : ∀ e, Decidable (Fine s e)
  | .OpenFile _ _ => inferInstanceAs (Decidable (_ ∧ _))
  | .Read nr_bytes n => inferInstanceAs (Decidable (s.counts = true → s.Transfers nr_bytes n))
  | .Write bytes n => inferInstanceAs (Decidable (s.Fits bytes n))
  | .Truncate new_size => inferInstanceAs (Decidable (s.StaysCovered new_size))
  | .CollectFileStatistics _ | .Seek _ | .elsewhere _ => inferInstanceAs (Decidable True)


/-! ## The invariant -/

variable {s s' : State}

namespace State

/-- The blocks cover so many bytes. -/
def Covers (s : State) (n : Nat) : Prop :=
  s.file.file_stats = true → ∀ c, s.collector = some c → n ≤ c.covered

/-- What does not depend on the blocks. -/
structure Sound (s : State) : Prop where
  world : s.world.Inv
  fits : s.file.file_size < 70368744177664
  buffer : s.file.data_protocol = .BUFFER →
    s.file.file_size = s.file.data_buffer ∧ s.file.file_size < 4294967296
  disk : s.file.data_protocol ≠ .BUFFER → s.contents.length ≤ s.file.file_size
  tracked : s.file.file_stats = true → s.collector.isSome = true
  updates : ∀ u ∈ s.updates, u.Right

structure Inv (s : State) : Prop extends Sound s where
  covers : s.Covers s.file.file_size

/-! ### The collector -/

@[simp] theorem resizeStats_file (n : Nat) : (s.resizeStats n).file = s.file := by
  unfold resizeStats
  split <;> rfl

@[simp] theorem resizeStats_world (n : Nat) : (s.resizeStats n).world = s.world := by
  unfold resizeStats
  split <;> rfl

@[simp] theorem resizeStats_updates (n : Nat) : (s.resizeStats n).updates = s.updates := by
  unfold resizeStats
  split <;> rfl

theorem Sound.resizeStats (hs : s.Sound) (n : Nat) : (s.resizeStats n).Sound := by
  unfold State.resizeStats
  split
  next =>
    refine ⟨hs.world, hs.fits, hs.buffer, hs.disk, ?_, hs.updates⟩
    intro hstats
    rw [Option.isSome_map]
    exact hs.tracked hstats
  next => exact hs

/-- The blocks after a resize are those of the size. -/
theorem resizeStats_collector {n : Nat} {c : FileStatisticsCollector}
    (hstats : s.file.file_stats = true) (hc : (s.resizeStats n).collector = some c) :
    ∃ c', s.collector = some c' ∧ c = c'.Resize n := by
  unfold State.resizeStats at hc
  rw [if_pos hstats] at hc
  obtain ⟨c', hc', hresize⟩ := Option.map_eq_some_iff.mp hc
  exact ⟨c', hc', hresize.symm⟩

theorem covers_layout {n m : Nat} (hm : m ≤ (FileStatisticsCollector.layout n).1 <<<
    (FileStatisticsCollector.layout n).2) : (s.resizeStats n).Covers m := by
  intro hstats c hc
  rw [resizeStats_file] at hstats
  obtain ⟨c', -, rfl⟩ := resizeStats_collector hstats hc
  unfold FileStatisticsCollector.covered
  rw [c'.resize_count, c'.resize_shift]
  exact hm

theorem covers_resizeStats {n : Nat} (hn : n < 70368744177664) : (s.resizeStats n).Covers n :=
  covers_layout (FileStatisticsCollector.le_layout hn)

@[simp] theorem resizeStats_counts (n : Nat) : (s.resizeStats n).counts = s.counts := by
  unfold State.counts
  rw [resizeStats_file]
  unfold State.resizeStats
  split
  next => cases s.collector <;> simp
  next => rfl

theorem Sound.track (hs : s.Sound) : s.track.Inv := by
  unfold State.track
  split
  next hsome =>
    have hsound : State.Sound { s with file := { s.file with file_stats := true } } :=
      ⟨hs.world, hs.fits, hs.buffer, hs.disk, fun _ => hsome, hs.updates⟩
    refine ⟨hsound.resizeStats _, ?_⟩
    rw [resizeStats_file]
    exact covers_resizeStats hs.fits
  next hnone =>
    refine ⟨hs, ?_⟩
    intro _ c hc
    rw [hc] at hnone
    exact absurd rfl hnone

/-- The collector that is registered gets a file that is not tracked yet. -/
theorem inv_registered (hs : s.Inv) {collector : Option FileStatisticsCollector}
    (htracked : s.file.file_stats = true → collector.isSome = true)
    (hcovers : s.file.file_stats = true → ∀ c, collector = some c → s.file.file_size ≤ c.covered) :
    Inv (if collector.isSome && !s.file.file_stats then
      State.resizeStats { s with collector, file := { s.file with file_stats := true } }
        s.file.file_size
    else { s with collector }) := by
  split
  next hsome =>
    have hsome := (Bool.and_eq_true_iff.mp hsome).1
    have hsound : State.Sound { s with collector, file := { s.file with file_stats := true } } :=
      ⟨hs.world, hs.fits, hs.buffer, hs.disk, fun _ => hsome, hs.updates⟩
    refine ⟨hsound.resizeStats _, ?_⟩
    rw [resizeStats_file]
    exact covers_resizeStats hs.fits
  next => exact ⟨⟨hs.world, hs.fits, hs.buffer, hs.disk, htracked, hs.updates⟩, hcovers⟩

theorem inv_collect (hs : s.Inv) (enable : Bool) : (s.CollectFileStatistics enable).Inv := by
  unfold State.CollectFileStatistics
  cases hcollector : s.collector with
  | none =>
    have huntracked : s.file.file_stats ≠ true := by
      intro hstats
      have hsome := hs.tracked hstats
      rw [hcollector] at hsome
      cases hsome
    cases enable with
    | true => exact inv_registered hs (fun _ => rfl) fun hstats => absurd hstats huntracked
    | false =>
      show Inv (if s.collector.isSome && _ then _ else s)
      rw [hcollector]
      exact hs
  | some c =>
    refine inv_registered hs (fun _ => rfl) ?_
    intro hstats c' hc'
    obtain rfl := Option.some.inj hc'
    exact hs.covers hstats c hcollector

/-! ### A registration -/

@[simp] theorem register_file (counter : Counter) (offset registered length : Nat) :
    (s.register counter offset registered length).file = s.file := by
  unfold register
  split
  next => split <;> rfl
  next => rfl

/-- **A range inside what the blocks cover is counted right**: if the registered length ends in
the block where the range ends. -/
theorem register_inv (hs : s.Inv) {counter : Counter} {offset registered length : Nat}
    (hright : ∀ c, s.collector = some c → s.file.file_stats = true → c.active = true →
      0 < length ∧ offset + length ≤ s.file.file_size ∧ 0 < sizeT registered ∧
        (offset + sizeT registered - 1) >>> c.block_shift =
          (offset + length - 1) >>> c.block_shift) :
    (s.register counter offset registered length).Inv := by
  unfold State.register
  cases hcollector : s.collector with
  | none => exact hs
  | some c =>
    dsimp only
    split
    next hcounts =>
      obtain ⟨hstats, hactive⟩ := Bool.and_eq_true_iff.mp hcounts
      obtain ⟨hlength, hin, hregistered, hlast⟩ := hright c hcollector hstats hactive
      have hcovers := hs.covers hstats c hcollector
      refine ⟨⟨hs.world, hs.fits, hs.buffer, hs.disk, fun _ => rfl, ?_⟩, ?_⟩
      · intro u hu
        obtain hu | hu := List.mem_append.mp hu
        · exact hs.updates u hu
        · obtain rfl := List.mem_singleton.mp hu
          intro i
          exact c.bumped_right hactive hlength (hin.trans hcovers) hregistered hlast
      · intro _ c' hc'
        obtain rfl := Option.some.inj hc'
        rw [c.bump_covered]
        exact hcovers
    next => exact hs

/-- What is registered as it is. -/
theorem register_inside (hs : s.Inv) {counter : Counter} {offset length : Nat}
    (hright : s.counts = true →
      0 < length ∧ offset + length ≤ s.file.file_size ∧ length < 4294967296) :
    (s.register counter offset length length).Inv := by
  refine register_inv hs ?_
  intro c hc hstats hactive
  have hcounts : s.counts = true := by
    unfold State.counts
    rw [hstats, hc, Bool.true_and]
    exact hactive
  obtain ⟨hpos, hin, hlt⟩ := hright hcounts
  have hsize : sizeT length = length := Nat.mod_eq_of_lt hlt
  rw [hsize]
  exact ⟨hpos, hin, hpos, rfl⟩

/-! ### The size of the file -/

theorem Sound.invalidate (hs : s.Sound) : s.InvalidateReadAheads.Sound := by
  have hworld : s.world.step readFn 32 (.invalidate (headId s.file.file_id)) =
      some s.InvalidateReadAheads.world := rfl
  exact ⟨hs.world.step exact_slice hworld, hs.fits, hs.buffer, hs.disk, hs.tracked, hs.updates⟩

theorem Inv.invalidate (hs : s.Inv) : s.InvalidateReadAheads.Inv :=
  ⟨hs.toSound.invalidate, hs.covers⟩

theorem Inv.moved (hs : s.Inv) (n : Nat) : (s.moved n).Inv :=
  ⟨⟨hs.world, hs.fits, hs.buffer, hs.disk, hs.tracked, hs.updates⟩, hs.covers⟩

theorem change_ok {contents : List UInt8} (hs : s.Sound) (h : s.change contents = some s') :
    ∃ world, s' = { s with world } ∧ world.Inv ∧ world.files s.file.file_id = contents := by
  unfold State.change at h
  obtain ⟨world, hworld, rfl⟩ := Option.map_eq_some_iff.mp h
  refine ⟨world, rfl, hs.world.step exact_slice hworld, ?_⟩
  rw [World.step] at hworld
  split at hworld
  next =>
    obtain rfl := Option.some.inj hworld
    exact if_pos rfl
  next => cases hworld

/-- What a truncation leaves, before the size of the file is set. -/
structure Truncated (s : State) (new_size : Nat) (t : State) : Prop where
  world : t.world.Inv
  file_size : t.file.file_size = s.file.file_size
  data_protocol : t.file.data_protocol = s.file.data_protocol
  file_stats : t.file.file_stats = s.file.file_stats
  collector : t.collector = s.collector
  updates : t.updates = s.updates
  data_buffer : t.file.data_protocol = .BUFFER → t.file.data_buffer = sizeT new_size
  contents : t.file.data_protocol ≠ .BUFFER → t.contents.length = new_size

theorem truncate_ok {new_size : Nat} (hs : s.Sound) (h : s.Truncate new_size = some s') :
    ∃ t, Truncated s new_size t ∧ s' = State.InvalidateReadAheads
      { t.resizeStats s.file.file_size with file := { t.file with file_size := new_size } } := by
  unfold State.Truncate at h
  obtain ⟨t, ht, rfl⟩ := Option.map_eq_some_iff.mp h
  have hchange : ∀ t, s.file.data_protocol ≠ .BUFFER →
      s.change (filledTo s.contents new_size) = some t → Truncated s new_size t := by
    intro t hother ht
    obtain ⟨world, rfl, hworld, hcontents⟩ := change_ok hs ht
    refine ⟨hworld, rfl, rfl, rfl, rfl, rfl, fun h => absurd h hother, ?_⟩
    intro _
    show (world.files s.file.file_id).length = _
    rw [hcontents]
    exact List.takeD_length _ _ _
  have hleft : Truncated s new_size t := by
    cases hprotocol : s.file.data_protocol with
    | BUFFER =>
      rw [hprotocol] at ht
      obtain rfl := Option.some.inj ht
      exact ⟨hs.world, rfl, rfl, rfl, rfl, rfl, fun _ => rfl, fun h => absurd hprotocol h⟩
    | NODE_FS =>
      rw [hprotocol] at ht
      exact hchange t (by rw [hprotocol]; decide) ht
    | BROWSER_FSACCESS =>
      rw [hprotocol] at ht
      exact hchange t (by rw [hprotocol]; decide) ht
    | BROWSER_FILEREADER | HTTP | S3 =>
      rw [hprotocol] at ht
      cases ht
  refine ⟨t, hleft, ?_⟩
  dsimp only
  rw [resizeStats_file, hleft.file_size]

/-- What does not depend on the blocks survives a truncation. -/
theorem truncate_sound {new_size : Nat} (hs : s.Sound) (h : s.Truncate new_size = some s')
    (hfits : new_size < 70368744177664)
    (hbuffer : s.file.data_protocol = .BUFFER → new_size < 4294967296) :
    s'.Sound ∧ s'.file.file_size = new_size ∧ s'.counts = s.counts := by
  obtain ⟨t, ht, rfl⟩ := truncate_ok hs h
  have hsound : State.Sound { t.resizeStats s.file.file_size with
      file := { t.file with file_size := new_size } } := by
    refine ⟨?_, hfits, ?_, ?_, ?_, ?_⟩
    · show (t.resizeStats s.file.file_size).world.Inv
      rw [resizeStats_world]
      exact ht.world
    · intro hprotocol
      have hlt := hbuffer (ht.data_protocol.symm.trans hprotocol)
      have hsize : sizeT new_size = new_size := Nat.mod_eq_of_lt hlt
      exact ⟨((ht.data_buffer hprotocol).trans hsize).symm, hlt⟩
    · intro hprotocol
      show ((t.resizeStats s.file.file_size).world.files t.file.file_id).length ≤ new_size
      rw [resizeStats_world]
      exact (ht.contents hprotocol).le
    · intro hstats
      have hsome := hs.tracked (ht.file_stats.symm.trans hstats)
      show (t.resizeStats s.file.file_size).collector.isSome = true
      unfold State.resizeStats
      rw [if_pos hstats]
      dsimp only
      rw [Option.isSome_map, ht.collector]
      exact hsome
    · show ∀ u ∈ (t.resizeStats s.file.file_size).updates, u.Right
      rw [resizeStats_updates, ht.updates]
      exact hs.updates
  refine ⟨hsound.invalidate, rfl, ?_⟩
  show (t.file.file_stats && (t.resizeStats s.file.file_size).collector.any (·.active)) = s.counts
  have hcounts : (t.resizeStats s.file.file_size).counts = t.counts := resizeStats_counts _
  unfold State.counts at hcounts ⊢
  rw [resizeStats_file] at hcounts
  rw [hcounts, ht.file_stats, ht.collector]

/-- **A truncation that does not grow the file beyond its blocks.** -/
theorem inv_truncate {new_size : Nat} (hs : s.Inv) (hok : s.StaysCovered new_size)
    (h : s.Truncate new_size = some s') : s'.Inv := by
  obtain ⟨hfits, hbuffer, hcovered⟩ := hok
  refine ⟨(truncate_sound hs.toSound h hfits hbuffer).1, ?_⟩
  obtain ⟨t, ht, rfl⟩ := truncate_ok hs.toSound h
  intro hstats c hc
  have hstats : t.file.file_stats = true := hstats
  have hlayout := hcovered (ht.file_stats.symm.trans hstats)
  refine covers_layout hlayout ?_ c hc
  rw [resizeStats_file]
  exact hstats

theorem openedFile_sound {buffered : Bool} (hs : s.Sound)
    (hother : s.file.data_protocol ≠ .BUFFER) (hfits : s.contents.length < 70368744177664)
    (hbuffered : buffered = true → s.contents.length < 4294967296) :
    State.Sound { s with file := s.openedFile buffered } := by
  cases buffered with
  | true =>
    have hlt := hbuffered rfl
    refine ⟨hs.world, hfits, ?_, fun h => absurd rfl h, hs.tracked, hs.updates⟩
    intro _
    exact ⟨(Nat.mod_eq_of_lt hlt).symm, hlt⟩
  | false =>
    exact ⟨hs.world, hfits, fun h => absurd h hother, fun _ => Nat.le_refl _, hs.tracked,
      hs.updates⟩

theorem inv_open {overwrite buffered : Bool} (hs : s.Inv)
    (hok : Fine s (.OpenFile overwrite buffered)) (h : s.OpenFile overwrite buffered = some s') :
    s'.Inv := by
  obtain ⟨hfits, hbuffered⟩ := hok
  unfold State.OpenFile at h
  split at h
  next hprotocol =>
    obtain rfl := Option.some.inj h
    refine Sound.track ?_
    cases overwrite with
    | true =>
      exact ⟨hs.world, Nat.two_pow_pos 46, fun _ => ⟨rfl, Nat.two_pow_pos 32⟩,
        fun h => absurd hprotocol h, hs.tracked, hs.updates⟩
    | false => exact hs.toSound
  all_goals
    next hprotocol =>
      have hother : s.file.data_protocol ≠ .BUFFER := by
        rw [hprotocol]
        decide
      have hsound := @openedFile_sound s buffered hs.toSound hother hfits hbuffered
      obtain ⟨t, ht, rfl⟩ := Option.map_eq_some_iff.mp h
      refine Sound.track ?_
      split at ht
      next => exact (truncate_sound hsound ht (by decide) fun _ => by decide).1
      next => exact Option.some.inj ht ▸ hsound

/-! ### Reading and writing -/

@[simp] theorem register_counts (counter : Counter) (offset registered length : Nat) :
    (s.register counter offset registered length).counts = s.counts := by
  unfold State.counts
  rw [register_file]
  unfold register
  cases hcollector : s.collector with
  | none =>
    dsimp only
    rw [hcollector]
  | some c =>
    dsimp only
    split
    next =>
      show (_ && (c.BumpCounter offset registered counter).active) = (_ && c.active)
      rw [c.bump_active]
    next => rw [hcollector]

/-- Several ranges are registered as they are. -/
theorem registerAll_inside (rs : List (Counter × Nat × Nat)) : ∀ {s : State}, s.Inv →
    (s.counts = true → ∀ r ∈ rs,
      0 < r.2.2 ∧ r.2.1 + r.2.2 ≤ s.file.file_size ∧ r.2.2 < 4294967296) →
    (s.registerAll rs).Inv := by
  induction rs with
  | nil =>
    intro s hs _
    exact hs
  | cons r rs ih =>
    intro s hs hright
    refine ih (register_inside hs fun hcounts => hright hcounts r List.mem_cons_self) ?_
    intro hcounts x hx
    rw [register_counts] at hcounts
    rw [register_file]
    exact hright hcounts x (List.mem_cons_of_mem _ hx)

/-- A head that answers a read holds a part of the file, and has the offset or ends there. -/
theorem answering_holds {offset : Nat} {head : ReadHead} {file_id : BitVec 32}
    (hworld : s.world.Inv) (hid : file_id ≠ 0)
    (hhead : head ∈ answering (headId file_id) offset
      s.world.buffer.applyInvalidations.readHeads) :
    Holds (s.world.files file_id) head ∧ head.offset ≤ offset ∧
      offset ≤ (head.offset + head.bufferSize) % 2 ^ 64 := by
  unfold answering at hhead
  have hfound := List.find?_some hhead
  simp only [Bool.and_eq_true, decide_eq_true_eq] at hfound
  obtain ⟨⟨hfile, hge⟩, hle⟩ := hfound
  exact ⟨hworld.fresh.applied _ (List.mem_of_find?_eq_some hhead) _ hid hfile, hge, hle⟩

theorem length_readFn {contents : List UInt8} {bytes offset : Nat} :
    (readFn contents bytes offset).length = min bytes (contents.length - offset) :=
  length_slice contents offset bytes

theorem faster_lt (speed : Nat) : faster speed < 4294967296 := by
  have hmaximum : readaheadMaximum = 16777216 := rfl
  have hbase : readaheadBase = 16384 := rfl
  unfold faster
  omega

/-- How many bytes a head has once it has read ahead. -/
theorem accelerate_size {contents : List UInt8} {head : ReadHead} {n offset : Nat}
    (hoffset : offset = (head.offset + head.bufferSize) % 2 ^ 64)
    (hin : offset ≤ contents.length) : (accelerate readFn 32 contents head n).1.bufferSize =
      min (contents.length - offset) (faster head.speed) := by
  have hspeed : ∀ h : ReadHead, (allocate h h.speed).speed = h.speed := by
    intro h
    unfold allocate
    split <;> rfl
  unfold accelerate
  dsimp only
  rw [length_readFn, hspeed, ← hoffset, Nat.min_eq_right hin]
  dsimp only
  unfold faster
  omega

/-- **What a read through the read-ahead buffer registers**: parts of the file, with a byte. -/
theorem registers_inside {nr_bytes n : Nat} (hs : s.Inv) (hid : s.file.file_id ≠ 0)
    (hremote : s.file.data_protocol = .HTTP ∨ s.file.data_protocol = .S3)
    (hn : nr_bytes < 4294967296) (hok : s.Transfers nr_bytes n) :
    ∀ r ∈ registers s.contents (headId s.file.file_id) nr_bytes s.position
        s.world.buffer.applyInvalidations.readHeads,
      0 < r.2.2 ∧ r.2.1 + r.2.2 ≤ s.file.file_size ∧ r.2.2 < 4294967296 := by
  have hother : s.file.data_protocol ≠ .BUFFER := by
    obtain hremote | hremote := hremote
    · rw [hremote]
      decide
    · rw [hremote]
      decide
  have hdisk := hs.disk hother
  obtain ⟨hpos, hin, hahead⟩ : 0 < nr_bytes ∧ s.position < s.contents.length ∧
      ∀ head ∈ answering (headId s.file.file_id) s.position
          s.world.buffer.applyInvalidations.readHeads,
        s.position = head.offset + head.bufferSize →
          nr_bytes < min (s.contents.length - s.position) (faster head.speed) := by
    unfold Transfers at hok
    obtain hremote | hremote := hremote
    · rw [hremote] at hok
      exact hok
    · rw [hremote] at hok
      exact hok
  have hsize : sizeT nr_bytes = nr_bytes := Nat.mod_eq_of_lt hn
  have hlong := hs.fits
  unfold registers
  cases hanswering : answering (headId s.file.file_id) s.position
      s.world.buffer.applyInvalidations.readHeads with
  | none =>
    dsimp only
    intro r hr
    obtain rfl := List.mem_singleton.mp hr
    dsimp only
    rw [length_readFn, hsize]
    omega
  | some head =>
    obtain ⟨hholds, hge, hle⟩ := answering_holds hs.world hid hanswering
    have hwithin : head.offset + head.bufferSize ≤ s.contents.length := hholds.within
    have hfin : (head.offset + head.bufferSize) % 2 ^ 64 = head.offset + head.bufferSize :=
      Nat.mod_eq_of_lt (by omega)
    rw [hfin] at hle
    dsimp only
    rw [hfin]
    split
    next hlt =>
      intro r hr
      obtain rfl := List.mem_singleton.mp hr
      dsimp only
      rw [hsize]
      omega
    next hnot =>
      have heq : s.position = head.offset + head.bufferSize := by omega
      have hmore := hahead head hanswering heq
      have hread : (accelerate readFn 32 s.contents head nr_bytes).1.bufferSize =
          min (s.contents.length - s.position) (faster head.speed) :=
        accelerate_size (heq.trans hfin.symm) (by omega)
      have hspeed := faster_lt head.speed
      rw [hread, ← heq]
      intro r hr
      simp only [List.mem_cons, List.not_mem_nil, or_false] at hr
      obtain rfl | rfl := hr
      · dsimp only
        omega
      · dsimp only
        omega

/-- What is read of the runtime is registered as it is. -/
theorem inv_remote {nr_bytes n : Nat} (hs : s.Inv)
    (hremote : s.file.data_protocol = .HTTP ∨ s.file.data_protocol = .S3)
    (hn : nr_bytes < 4294967296) (hok : s.counts = true → s.Transfers nr_bytes n)
    {world : World}
    (hworld : s.world.step readFn 32 (.read s.file.file_id nr_bytes s.position) = some world)
    (moved : Nat) : State.Inv ((State.registerAll { s with world } (registers s.contents
      (headId s.file.file_id) nr_bytes s.position
      s.world.buffer.applyInvalidations.readHeads)).moved moved) := by
  have hid : s.file.file_id ≠ 0 := by
    rw [World.step] at hworld
    split at hworld
    next h => exact h.1
    next => cases hworld
  have hfiles : world.files = s.world.files := by
    rw [World.step] at hworld
    split at hworld
    next => exact Option.some.inj hworld ▸ rfl
    next => cases hworld
  have hread : State.Inv { s with world } := by
    refine ⟨⟨hs.world.step exact_slice hworld, hs.fits, hs.buffer, ?_, hs.tracked, hs.updates⟩,
      hs.covers⟩
    intro hother
    show (world.files s.file.file_id).length ≤ s.file.file_size
    rw [hfiles]
    exact hs.disk hother
  refine Inv.moved (registerAll_inside _ hread ?_) moved
  intro hcounts
  exact registers_inside hs hid hremote hn (hok hcounts)

/-- What is read of a native file is registered as it is. -/
theorem inv_native {nr_bytes n : Nat} (hs : s.Inv) (hother : s.file.data_protocol ≠ .BUFFER)
    (hn : nr_bytes < 4294967296) (hok : s.counts = true → 0 < n)
    (h : (if n ≤ nr_bytes ∧ (n = 0 ∨ s.position + n ≤ s.contents.length) then
      some ((s.register .FileReadCold s.position n n).moved n) else none) = some s') : s'.Inv := by
  have hdisk := hs.disk hother
  split at h
  next hread =>
    obtain rfl := Option.some.inj h
    refine Inv.moved (register_inside hs ?_) n
    intro hcounts
    have hpos := hok hcounts
    omega
  next => cases h

theorem inv_read {nr_bytes n : Nat} (hs : s.Inv) (hn : nr_bytes < 4294967296)
    (hok : Fine s (.Read nr_bytes n)) (h : s.Read nr_bytes n = some s') : s'.Inv := by
  have hok : s.counts = true → s.Transfers nr_bytes n := hok
  unfold State.Read at h
  cases hprotocol : s.file.data_protocol with
  | BUFFER =>
    rw [hprotocol] at h
    obtain rfl := Option.some.inj h
    refine Inv.moved (register_inside hs ?_) _
    intro hcounts
    have hread := hok hcounts
    unfold Transfers at hread
    rw [hprotocol] at hread
    obtain ⟨hpos, hin⟩ := hread
    obtain ⟨hsize, hlt⟩ := hs.buffer hprotocol
    have hposition : sizeT s.position = s.position := Nat.mod_eq_of_lt (by omega)
    rw [hposition]
    omega
  | NODE_FS | BROWSER_FILEREADER | BROWSER_FSACCESS =>
    rw [hprotocol] at h
    refine inv_native hs (by rw [hprotocol]; decide) hn ?_ h
    intro hcounts
    have hread := hok hcounts
    unfold Transfers at hread
    rw [hprotocol] at hread
    exact hread
  | HTTP =>
    rw [hprotocol] at h
    obtain ⟨world, hworld, rfl⟩ := Option.map_eq_some_iff.mp h
    exact inv_remote hs (.inl hprotocol) hn hok hworld _
  | S3 =>
    rw [hprotocol] at h
    obtain ⟨world, hworld, rfl⟩ := Option.map_eq_some_iff.mp h
    exact inv_remote hs (.inr hprotocol) hn hok hworld _

/-- A buffer is large enough for a write, and its file has the size of the buffer. -/
theorem grown_ok {end_ : Nat} (hs : s.Inv) (hprotocol : s.file.data_protocol = .BUFFER)
    (hend : end_ < 4294967296)
    (h : (if s.file.data_buffer < end_ then s.Truncate (max (sizeT end_) (sizeT s.file.file_size))
      else some s) = some s') :
    s'.Sound ∧ s'.file.file_size = max end_ s.file.file_size ∧ s'.counts = s.counts := by
  obtain ⟨hsize, hlt⟩ := hs.buffer hprotocol
  split at h
  next hgrows =>
    have hnew : max (sizeT end_) (sizeT s.file.file_size) = max end_ s.file.file_size := by
      unfold sizeT
      omega
    rw [hnew] at h
    exact truncate_sound hs.toSound h (by omega) fun _ => by omega
  next hfits =>
    obtain rfl := Option.some.inj h
    exact ⟨hs.toSound, by omega, rfl⟩

/-- **A write to a buffer** is registered in the right blocks, if its end as a length leads to the
same block. -/
theorem inv_write_buffer {bytes : List UInt8} {n : Nat} (hs : s.Inv)
    (hprotocol : s.file.data_protocol = .BUFFER) (hok : Fine s (.Write bytes n))
    (h : s.Write bytes n = some s') : s'.Inv := by
  have hok : s.Fits bytes n := hok
  unfold Fits at hok
  unfold State.Write at h
  rw [hprotocol] at hok h
  obtain ⟨hend, hcounted⟩ := hok
  obtain ⟨t, ht, rfl⟩ := Option.map_eq_some_iff.mp h
  obtain ⟨hsound, hsize, hcounts⟩ := grown_ok hs hprotocol hend ht
  refine Inv.invalidate ?_
  have hresized : (t.resizeStats t.file.file_size).Inv := by
    refine ⟨hsound.resizeStats _, ?_⟩
    rw [resizeStats_file]
    exact covers_resizeStats hsound.fits
  have hregistered : ((t.resizeStats t.file.file_size).register .FileWrite s.position
      (s.position + bytes.length) bytes.length).Inv := by
    refine register_inv hresized ?_
    intro c hc hstats hactive
    have hcounting : s.counts = true := by
      rw [← hcounts, ← t.resizeStats_counts t.file.file_size]
      unfold State.counts
      rw [hstats, hc, Bool.true_and]
      exact hactive
    obtain ⟨hpos, hlast⟩ := hcounted hcounting
    have hend' : sizeT (s.position + bytes.length) = s.position + bytes.length :=
      Nat.mod_eq_of_lt hend
    have hshift : c.block_shift =
        (FileStatisticsCollector.layout (max (s.position + bytes.length) s.file.file_size)).2 := by
      rw [resizeStats_file] at hstats
      obtain ⟨c', -, rfl⟩ := resizeStats_collector hstats hc
      rw [c'.resize_shift, hsize]
    rw [resizeStats_file, hsize, hend', hshift]
    exact ⟨hpos, Nat.le_max_left _ _, by omega, hlast⟩
  exact ⟨⟨hregistered.world, hregistered.fits, hregistered.buffer, hregistered.disk,
    hregistered.tracked, hregistered.updates⟩, hregistered.covers⟩

/-- The size of a file behind which something has been written. -/
theorem inv_appended {n end_ : Nat} {world : World} {t : State} (hs : s.Inv)
    (hother : s.file.data_protocol ≠ .BUFFER) (hworld : world.Inv)
    (hlength : (world.files s.file.file_id).length ≤ max s.file.file_size (s.position + n))
    (hin : s.position + n ≤ end_)
    (hgrows : s.file.file_size < end_ → max (s.position + n) s.file.file_size < 4294967296)
    (ht : t = if s.file.file_size < end_ then
      State.resizeStats { s with
        world,
        file := { s.file with
          file_size := max (sizeT (s.position + n)) (sizeT s.file.file_size) } }
        (max (sizeT (s.position + n)) (sizeT s.file.file_size))
    else { s with world }) :
    t.Inv ∧ s.position + n ≤ t.file.file_size ∧ t.counts = s.counts := by
  split at ht
  next hlt =>
    have hsmall := hgrows hlt
    have hsize : max (sizeT (s.position + n)) (sizeT s.file.file_size) =
        max (s.position + n) s.file.file_size := by
      unfold sizeT
      omega
    rw [hsize] at ht
    obtain rfl := ht
    have hfits : max (s.position + n) s.file.file_size < 70368744177664 := by omega
    have hsound : State.Sound { s with
        world, file := { s.file with file_size := max (s.position + n) s.file.file_size } } := by
      refine ⟨hworld, hfits, fun h => absurd h hother, ?_, hs.tracked, hs.updates⟩
      intro _
      show (world.files s.file.file_id).length ≤ max (s.position + n) s.file.file_size
      omega
    refine ⟨⟨hsound.resizeStats _, ?_⟩, ?_, ?_⟩
    · rw [resizeStats_file]
      exact covers_resizeStats hfits
    · rw [resizeStats_file]
      exact Nat.le_max_left _ _
    · rw [resizeStats_counts]
      rfl
  next hnot =>
    obtain rfl := ht
    refine ⟨⟨⟨hworld, hs.fits, hs.buffer, ?_, hs.tracked, hs.updates⟩, hs.covers⟩, ?_, rfl⟩
    · intro _
      show (world.files s.file.file_id).length ≤ s.file.file_size
      omega
    · show s.position + n ≤ s.file.file_size
      omega

theorem inv_write_native {bytes : List UInt8} {n : Nat} (hs : s.Inv)
    (hnative : s.file.data_protocol = .NODE_FS ∨ s.file.data_protocol = .BROWSER_FSACCESS)
    (hbytes : bytes.length < 4294967296) (hok : Fine s (.Write bytes n))
    (h : s.Write bytes n = some s') : s'.Inv := by
  have hother : s.file.data_protocol ≠ .BUFFER := by
    obtain hnative | hnative := hnative
    · rw [hnative]
      decide
    · rw [hnative]
      decide
  obtain ⟨hgrows, hcounted⟩ : (s.file.file_size < s.position + bytes.length →
      max (s.position + n) s.file.file_size < 4294967296) ∧ (s.counts = true → 0 < n) := by
    have hok : s.Fits bytes n := hok
    unfold Fits at hok
    obtain hnative | hnative := hnative
    · rw [hnative] at hok
      exact hok
    · rw [hnative] at hok
      exact hok
  have hwrite : (if n ≤ bytes.length then
      (s.change (if n = 0 then s.contents
        else overwrite 0 s.contents s.position (bytes.take n))).map fun t =>
        (((if t.file.file_size < s.position + bytes.length then
            State.resizeStats { t with
              file := { t.file with
                file_size := max (sizeT (s.position + n)) (sizeT t.file.file_size) } }
              (max (sizeT (s.position + n)) (sizeT t.file.file_size))
          else t).register .FileWrite s.position n n).moved n).InvalidateReadAheads
      else none) = some s' := by
    unfold State.Write at h
    obtain hnative | hnative := hnative
    · rw [hnative] at h
      exact h
    · rw [hnative] at h
      exact h
  split at hwrite
  next hle =>
    obtain ⟨t, ht, rfl⟩ := Option.map_eq_some_iff.mp hwrite
    obtain ⟨world, rfl, hworld, hcontents⟩ := change_ok hs.toSound ht
    have hlength : (world.files s.file.file_id).length ≤
        max s.file.file_size (s.position + n) := by
      have hdisk := hs.disk hother
      rw [hcontents]
      split
      next => omega
      next =>
        rw [length_overwrite_max, List.length_take, Nat.min_eq_left hle]
        omega
    obtain ⟨hgrown, hin, hcounts⟩ := inv_appended hs hother hworld hlength (by omega) hgrows rfl
    refine Inv.invalidate (Inv.moved (register_inside hgrown ?_) n)
    intro hcounting
    have hpos := hcounted (hcounts.symm.trans hcounting)
    exact ⟨hpos, hin, by omega⟩
  next => cases hwrite

end State

/-! ## Every run -/

/-- Another file is read or changed. -/
theorem inv_elsewhere {e : Io.Event} {world : World} (hs : s.Inv)
    (hother : isOf s.file.file_id e ≠ true) (h : s.world.step readFn 32 e = some world) :
    State.Inv { s with world } := by
  have hcontents : world.files s.file.file_id = s.world.files s.file.file_id := by
    cases e with
    | read id nr_bytes offset =>
      rw [World.step] at h
      split at h
      next => exact Option.some.inj h ▸ rfl
      next => cases h
    | invalidate id => exact Option.some.inj h ▸ rfl
    | drop id => exact Option.some.inj h ▸ rfl
    | change id contents =>
      rw [World.step] at h
      split at h
      next =>
        obtain rfl := Option.some.inj h
        have hne : s.file.file_id ≠ id := by
          intro heq
          refine hother ?_
          rw [heq]
          exact decide_eq_true rfl
        exact if_neg hne
      next => cases h
  refine ⟨⟨hs.world.step exact_slice h, hs.fits, hs.buffer, ?_, hs.tracked, hs.updates⟩, hs.covers⟩
  intro hbuffer
  show (world.files s.file.file_id).length ≤ s.file.file_size
  rw [hcontents]
  exact hs.disk hbuffer

theorem inv_step {e : Call} (hs : s.Inv) (hok : Fine s e) (hstep : step s e = some s') :
    s'.Inv := by
  cases e with
  | CollectFileStatistics enable =>
    obtain rfl := Option.some.inj hstep
    exact State.inv_collect hs enable
  | OpenFile overwrite buffered => exact State.inv_open hs hok hstep
  | Seek position =>
    obtain rfl := Option.some.inj hstep
    exact ⟨⟨hs.world, hs.fits, hs.buffer, hs.disk, hs.tracked, hs.updates⟩, hs.covers⟩
  | Read nr_bytes n =>
    rw [step] at hstep
    split at hstep
    next hn => exact State.inv_read hs hn hok hstep
    next => cases hstep
  | Write bytes n =>
    rw [step] at hstep
    split at hstep
    next hn =>
      cases hprotocol : s.file.data_protocol with
      | BUFFER => exact State.inv_write_buffer hs hprotocol hok hstep
      | NODE_FS => exact State.inv_write_native hs (.inl hprotocol) hn hok hstep
      | BROWSER_FSACCESS => exact State.inv_write_native hs (.inr hprotocol) hn hok hstep
      | BROWSER_FILEREADER | HTTP | S3 =>
        unfold State.Write at hstep
        rw [hprotocol] at hstep
        cases hstep
    next => cases hstep
  | Truncate new_size => exact State.inv_truncate hs hok hstep
  | elsewhere e =>
    rw [step] at hstep
    split at hstep
    next => cases hstep
    next hother =>
      obtain ⟨world, hworld, rfl⟩ := Option.map_eq_some_iff.mp hstep
      exact inv_elsewhere hs hother hworld

theorem inv_opened {data_protocol : DataProtocol} {file_id : BitVec 32}
    {files : BitVec 32 → List UInt8} (hsizes : ∀ id, (files id).length < 70368744177664)
    (hbuffer : data_protocol = .BUFFER → (files file_id).length < 4294967296) :
    (opened data_protocol file_id files).Inv where
  world := by
    refine World.Inv.initial ?_
    intro id
    have hlt := hsizes id
    omega
  fits := hsizes file_id
  buffer := fun h => ⟨rfl, hbuffer h⟩
  disk := fun _ => Nat.le_refl _
  tracked := fun h => absurd h Bool.false_ne_true
  updates := fun _ hu => absurd hu List.not_mem_nil
  covers := fun h => absurd h Bool.false_ne_true

/-- **Over every run whose reads and writes have bytes, whose buffers are written near their
beginning, and whose truncations do not grow the file beyond its blocks, the statistics stay in
bounds**: each range has been counted in just the blocks that have bytes of it, and they are
there. -/
theorem counted_in_bounds {data_protocol : DataProtocol} {file_id : BitVec 32}
    {files : BitVec 32 → List UInt8} {es : List Call}
    (hsizes : ∀ id, (files id).length < 70368744177664)
    (hbuffer : data_protocol = .BUFFER → (files file_id).length < 4294967296)
    (hrun : Run step Fine (opened data_protocol file_id files) es s) :
    ∀ u ∈ s.updates, u.Right :=
  (hrun.invariant (inv_opened hsizes hbuffer) fun _ _ _ => inv_step).updates

/-- Three bytes of a native file are read, and it is written to and cut off. -/
def threeBytes : BitVec 32 → List UInt8 := fun _ => [1, 2, 3]

theorem counted_in_bounds_native : ∃ s,
    Run step Fine (opened .NODE_FS 1 threeBytes)
      [.CollectFileStatistics true, .Read 2 2, .Write [7, 8] 2, .Truncate 1] s ∧
    s.updates = [⟨0, 2, [0], 1, 14⟩, ⟨2, 2, [0], 1, 14⟩] ∧ ∀ u ∈ s.updates, u.Right := by
  obtain ⟨s, hrun, hupdates⟩ := Run.exists_of_execute
    (show (execute step Fine (opened .NODE_FS 1 threeBytes)
        [.CollectFileStatistics true, .Read 2 2, .Write [7, 8] 2, .Truncate 1]).map
      (fun s => decide (s.updates = [⟨0, 2, [0], 1, 14⟩, ⟨2, 2, [0], 1, 14⟩])) = some true
      by decide +kernel)
  have hsizes : ∀ id, (threeBytes id).length < 70368744177664 := by
    intro id
    show 3 < 70368744177664
    decide
  exact ⟨s, hrun, of_decide_eq_true hupdates,
    counted_in_bounds hsizes (fun h => by cases h) hrun⟩

/-- An empty buffer grows to two blocks, and has the one that it had. -/
theorem grown_buffer_has_one_block : ∃ s,
    Run step Always (opened .BUFFER 1 fun _ => [])
      [.CollectFileStatistics true, .Truncate 32768, .Seek 16384, .Read 1 0] s ∧
    s.updates = [⟨16384, 1, [1], 1, 14⟩] ∧ ¬ ∀ u ∈ s.updates, u.Right := by
  obtain ⟨s, hrun, hupdates⟩ := Run.exists_of_execute
    (show (execute step Always (opened .BUFFER 1 fun _ => [])
        [.CollectFileStatistics true, .Truncate 32768, .Seek 16384, .Read 1 0]).map
      (fun s => decide (s.updates = [⟨16384, 1, [1], 1, 14⟩])) = some true by decide +kernel)
  have hone := of_decide_eq_true hupdates
  refine ⟨s, hrun, hone, ?_⟩
  intro h
  have hright : Update.Right ⟨16384, 1, [1], 1, 14⟩ := by
    refine h _ ?_
    rw [hone]
    exact List.mem_singleton_self _
  exact absurd ((hright 1).1 (List.mem_singleton_self 1)) (Nat.lt_irrefl 1)

end Haybarn.Io.StatsBounds
