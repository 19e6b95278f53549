import Haybarn.Io.WebFiles
import Haybarn.Lib.Loop
import Haybarn.Lib.Slice

/-!
# Reading at a location

`WebFileSystem::Read` (lib/src/io/web_filesystem.cc) with a location moves the position of the
handle there, and calls `Read` without one until all bytes are there. Its loop asks whether the location
is inside the file, and means the end of what it has read: the location never moves. A read that
goes past the end of the file comes to where there is nothing more to read, and stays there.
`positional_read_iff` says that all other reads are right, with whatever short reads there are.

Mirroring notes:
- The file has the size that it was opened with, and does not change while it is read.
- A buffer is read at once. How many bytes the runtime returns, or the read-ahead buffer in front
  of it, is up to them (`Backend`): at least one, if there is one. It may depend on how often the
  file has been read.
- What is read lies in memory, so that the number of bytes is a `size_t`.
- The loop returns the bytes that it has copied to `buffer`, one after the other.
-/

namespace Haybarn.Io.PositionalRead

open Haybarn.Lib
open Haybarn.Io.WebFiles (DataProtocol)

/-- How many bytes a read returns that is the `k`-th one. -/
structure Backend (size : Nat) where
  count : (k nr_bytes position : Nat) → Nat
  at_most : ∀ k nr_bytes position, count k nr_bytes position ≤ min nr_bytes (size - position)
  positive : ∀ k nr_bytes position, 0 < nr_bytes → position < size →
    0 < count k nr_bytes position

structure File where
  data_protocol : DataProtocol
  bytes : List UInt8
  backend : Backend bytes.length

variable (file : File)

def File.file_size : Nat := file.bytes.length

structure WebFileHandle where
  position : Nat
  /-- How often the file has been read. -/
  reads : Nat := 0

/-- `Read` without a location: the bytes it returns. -/
def Read (h : WebFileHandle) (nr_bytes : Nat) : WebFileHandle × List UInt8 :=
  let n := match file.data_protocol with
    | .BUFFER => min nr_bytes (file.file_size - min h.position file.file_size)
    | .NODE_FS | .BROWSER_FILEREADER | .BROWSER_FSACCESS | .HTTP | .S3 =>
      file.backend.count h.reads nr_bytes h.position
  ({ position := h.position + n, reads := h.reads + 1 }, slice file.bytes h.position n)

/-- The variables of the loop. -/
structure Loop where
  handle : WebFileHandle
  /-- What has been copied to `buffer`. -/
  copied : List UInt8
  nr_bytes : Nat

/-- A turn of the loop. -/
def turn (location : Nat) (s : Loop) : Loop ⊕ (WebFileHandle × List UInt8) :=
  if 0 < s.nr_bytes ∧ location < file.file_size then
    let (handle, bytes) := Read file s.handle s.nr_bytes
    .inl { handle, copied := s.copied ++ bytes, nr_bytes := s.nr_bytes - bytes.length }
  else .inr (s.handle, s.copied)

/-- `Read` at a location, with the handle and the bytes that it ends with. -/
def ReadAt (h : WebFileHandle) (nr_bytes location : Nat)
    (result : WebFileHandle × List UInt8) : Prop :=
  Ends (turn file location) { handle := { h with position := location }, copied := [], nr_bytes }
    result

/-- The read ends, with the bytes at the location as far as the file has them, and with the
position at their end. -/
def Right (h : WebFileHandle) (nr_bytes location : Nat) : Prop :=
  ∃ handle, ReadAt file h nr_bytes location (handle, slice file.bytes location nr_bytes) ∧
    handle.position = location + (slice file.bytes location nr_bytes).length

/-! ## One read -/

variable {file} {h : WebFileHandle} {location nr_bytes : Nat}

/-- The number of bytes that a read returns. -/
theorem read_count (file : File) (h : WebFileHandle) (nr_bytes : Nat) :
    ∃ n, Read file h nr_bytes =
        ({ position := h.position + n, reads := h.reads + 1 }, slice file.bytes h.position n) ∧
      n ≤ min nr_bytes (file.file_size - h.position) ∧
      (0 < nr_bytes → h.position < file.file_size → 0 < n) := by
  unfold Read
  cases hp : file.data_protocol with
  | BUFFER =>
    refine ⟨_, rfl, ?_, ?_⟩ <;> simp only [] <;> omega
  | NODE_FS | BROWSER_FILEREADER | BROWSER_FSACCESS | HTTP | S3 =>
    exact ⟨_, rfl, file.backend.at_most _ _ _, file.backend.positive _ _ _⟩

/-! ## The loop -/

/-- What has been read lies between the location and the position, and the rest is still to be
read. -/
structure Reading (file : File) (location nr_bytes : Nat) (s : Loop) : Prop where
  between : location ≤ s.handle.position
  copied : s.copied = slice file.bytes location (s.handle.position - location)
  rest : s.handle.position + s.nr_bytes = location + nr_bytes

/-- A turn reads on. -/
theorem Reading.turn {s : Loop} (hs : Reading file location nr_bytes s) (hpos : 0 < s.nr_bytes)
    (hlt : location < file.file_size) : ∃ s', PositionalRead.turn file location s = .inl s' ∧
      Reading file location nr_bytes s' ∧ s'.nr_bytes ≤ s.nr_bytes ∧
      (s.handle.position < file.file_size → s'.nr_bytes < s.nr_bytes) := by
  obtain ⟨n, hread, hle, hprogress⟩ := read_count file s.handle s.nr_bytes
  have hbetween := hs.between
  have hrest := hs.rest
  have hlen : (slice file.bytes s.handle.position n).length = n := by
    rw [length_slice]
    have hsize : file.bytes.length = file.file_size := rfl
    omega
  unfold PositionalRead.turn
  rw [if_pos ⟨hpos, hlt⟩, hread]
  dsimp only
  rw [hlen]
  refine ⟨_, rfl, ⟨?_, ?_, ?_⟩, ?_, ?_⟩
  · show location ≤ s.handle.position + n
    omega
  · show s.copied ++ _ = slice file.bytes location (s.handle.position + n - location)
    have hat := slice_append file.bytes location n (s.handle.position - location)
    rw [show location + (s.handle.position - location) = s.handle.position by omega] at hat
    rw [hs.copied, hat]
    congr 1
    omega
  · show s.handle.position + n + (s.nr_bytes - n) = _
    omega
  · show s.nr_bytes - n ≤ s.nr_bytes
    omega
  · intro hin
    have := hprogress hpos hin
    show s.nr_bytes - n < s.nr_bytes
    omega

theorem reading_start (file : File) (h : WebFileHandle) (nr_bytes location : Nat) :
    Reading file location nr_bytes
      { handle := { h with position := location }, copied := [], nr_bytes } where
  between := Nat.le_refl _
  copied := by
    show [] = slice file.bytes location (location - location)
    rw [Nat.sub_self, slice_zero]
  rest := rfl

/-- Behind the file there is nothing to read. -/
theorem read_behind (h : WebFileHandle) (hbehind : file.file_size ≤ location) :
    Right file h nr_bytes location := by
  have hempty : slice file.bytes location nr_bytes = [] := slice_past _ _ _ hbehind
  refine ⟨{ h with position := location }, ?_, ?_⟩
  · rw [hempty]
    refine .left ?_
    unfold turn
    rw [if_neg (by omega)]
  · rw [hempty]
    rfl

/-- Inside the file every turn reads something. -/
theorem read_inside (h : WebFileHandle) (hinside : location + nr_bytes ≤ file.file_size) :
    Right file h nr_bytes location := by
  obtain ⟨⟨handle, bytes⟩, hends, hbytes, hposition⟩ := @ends_of_measure
    _ _ (turn file location) _ (Reading file location nr_bytes) Loop.nr_bytes
    (fun r => r.2 = slice file.bytes location nr_bytes ∧ r.1.position = location + nr_bytes)
    (fun s hs => by
      have hrest := hs.rest
      by_cases hpos : 0 < s.nr_bytes
      · have hbetween := hs.between
        obtain ⟨s', hturn, hs', -, hless⟩ := hs.turn hpos (by omega)
        exact Or.inl ⟨s', hturn, hs', hless (by omega)⟩
      · refine Or.inr ⟨(s.handle, s.copied), ?_, ?_, ?_⟩
        · unfold turn
          rw [if_neg (by omega)]
        · have hall : s.handle.position - location = nr_bytes := by omega
          dsimp only
          rw [hs.copied, hall]
        · dsimp only
          omega)
    (reading_start file h nr_bytes location)
  dsimp only at hbytes hposition
  subst hbytes
  have hsize : file.bytes.length = file.file_size := rfl
  refine ⟨handle, hends, ?_⟩
  rw [length_slice]
  omega

/-- A read that comes to the end of the file goes on for ever. -/
theorem read_past_end (h : WebFileHandle) (hlt : location < file.file_size)
    (hpast : file.file_size < location + nr_bytes) (result : WebFileHandle × List UInt8) :
    ¬ ReadAt file h nr_bytes location result := by
  refine not_ends
    (fun s => Reading file location nr_bytes s ∧ s.handle.position ≤ file.file_size)
    (fun s hs => ?_) ⟨reading_start file h nr_bytes location, Nat.le_of_lt hlt⟩
  obtain ⟨hs, hle⟩ := hs
  have hrest := hs.rest
  obtain ⟨s', hturn, hs', -⟩ := hs.turn (by omega) hlt
  refine ⟨s', hturn, hs', ?_⟩
  obtain ⟨n, hread, hn, -⟩ := read_count file s.handle s.nr_bytes
  unfold turn at hturn
  rw [if_pos ⟨by omega, hlt⟩, hread] at hturn
  obtain rfl := Sum.inl.inj hturn
  show s.handle.position + n ≤ file.file_size
  omega

/-- **A positional read is right exactly when it starts behind the end of the file or ends before
it**, for every pattern of short reads; any other one does not end. -/
theorem positional_read_iff (file : File) (h : WebFileHandle) (nr_bytes location : Nat) :
    Right file h nr_bytes location ↔
      file.file_size ≤ location ∨ location + nr_bytes ≤ file.file_size := by
  constructor
  · rintro ⟨handle, hread, -⟩
    by_cases hbehind : file.file_size ≤ location
    · exact Or.inl hbehind
    · by_cases hinside : location + nr_bytes ≤ file.file_size
      · exact Or.inr hinside
      · exact absurd hread (read_past_end h (by omega) (by omega) _)
  · rintro (hbehind | hinside)
    · exact read_behind h hbehind
    · exact read_inside h hinside

/-- A buffer of one byte. -/
def oneByte : File where
  data_protocol := .BUFFER
  bytes := [7]
  backend :=
    { count := fun _ nr_bytes position => min nr_bytes (1 - position)
      at_most := fun _ _ _ => Nat.le_refl _
      positive := fun _ _ _ hpos hlt => by
        have hlt : _ < 1 := hlt
        omega }

/-- Two bytes of it are read for ever. -/
theorem two_bytes_of_one : ¬ Right oneByte { position := 0 } 2 0 := by
  rintro ⟨handle, hread, -⟩
  exact read_past_end { position := 0 } (by decide) (by decide) _ hread

end Haybarn.Io.PositionalRead
