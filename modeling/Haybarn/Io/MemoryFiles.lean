import Haybarn.Lib.Run
import Haybarn.Lib.Slice

/-!
# The in-memory filesystem

`MemoryFileSystem` keeps each file in a `std::vector<char>`. A handle has a position of its own;
`Read` and `Write` without a location start there and move it, those with a location start at that
location. `Seek` sets the position to whatever it is given, and `Truncate` resizes the vector under
the positions of all handles of the file.

Mirroring notes:

* `size_t` has `w` bits: 32 in wasm, 64 in the native tests. Lengths are `int64_t` and locations
  `idx_t` (64 bits unsigned); where the code converts them to `size_t`, `sizeT` does. In
  `available < nr_bytes` the two sides have different types: with 32 bits the comparison is one of
  `int64_t`, with 64 bits one of `uint64_t`;
* a vector holds at most `maxSize` bytes, and its constructor or `resize` throws beyond. Whether
  an allocation below that succeeds is up to the event;
* what an access to the buffer touches is recorded in `log`, with the size of the buffer then. An
  access outside the buffer is undefined behaviour; in the model it has the record, and changes
  nothing of the buffer;
* a call that throws leaves no record. `Close`, `MoveFile` and `RemoveFile` are left out.

`in_bounds` says when every access of a run is in bounds and moves the position by what it
transfers; `inBounds_step` that the condition is exact for each step.
-/

namespace Haybarn.Io.MemoryFiles

open Haybarn.Lib

variable {w : Nat}

/-- The conversion to `size_t`. -/
def sizeT (w : Nat) (n : Int) : Nat := (n % 2 ^ w).toNat

/-- `std::vector<char>::max_size()` -/
def maxSize (w : Nat) : Nat := 2 ^ (w - 1) - 1

/-- A file buffer: a path and a vector. -/
structure FileBuffer (w : Nat) where
  file_path : String
  buffer : List UInt8
  fits : buffer.length ≤ maxSize w
  deriving DecidableEq, Repr

def FileBuffer.size (f : FileBuffer w) : Nat := f.buffer.length

structure FileHandle where
  /-- The number of the buffer. -/
  file : Nat
  position_ : Nat
  deriving DecidableEq, Repr

/-- A transfer between a buffer and the caller. -/
structure Access where
  /-- The size of the buffer. -/
  size : Nat
  /-- Where the caller wants to read or write: the position, or the location. -/
  wanted : Int
  offset : Nat
  length : Nat
  /-- The bytes that a read has found, that a write has stored. -/
  data : List UInt8
  /-- The position after it. -/
  position : Nat
  deriving DecidableEq, Repr

structure MemoryFileSystem (w : Nat) where
  files : List (FileBuffer w)
  handles : List FileHandle
  log : List Access
  deriving DecidableEq, Repr

namespace MemoryFileSystem

/-- The handle and its buffer. -/
def handle (s : MemoryFileSystem w) (h : Nat) : Option (FileHandle × FileBuffer w) :=
  s.handles[h]?.bind fun handle => s.files[handle.file]?.map (handle, ·)

/-- The end of an access: the position is set, and the access is recorded. -/
def accessed (s : MemoryFileSystem w) (h : Nat) (handle : FileHandle) (a : Access) :
    MemoryFileSystem w :=
  { s with
    handles := s.handles.set h { handle with position_ := a.position }
    log := s.log ++ [a] }

/-- `std::memcpy` of `n` bytes out of the buffer. -/
def readAccess (s : MemoryFileSystem w) (h : Nat) (handle : FileHandle) (f : FileBuffer w)
    (wanted : Int) (offset n position : Nat) : MemoryFileSystem w :=
  s.accessed h handle ⟨f.size, wanted, offset, n, slice f.buffer offset n, position⟩

theorem overwritten_fits (f : FileBuffer w) (offset : Nat) (bytes : List UInt8) :
    ((overwrite 0 f.buffer offset bytes).take f.buffer.length).length ≤ maxSize w :=
  (List.length_take_le _ _).trans f.fits

/-- `std::memcpy` of `n` bytes into the buffer. -/
def writeAccess (s : MemoryFileSystem w) (h : Nat) (handle : FileHandle) (f : FileBuffer w)
    (wanted : Int) (offset n position : Nat) (src : List UInt8) : MemoryFileSystem w :=
  let stored : FileBuffer w :=
    ⟨f.file_path, (overwrite 0 f.buffer offset (src.take n)).take f.buffer.length,
      overwritten_fits f offset (src.take n)⟩
  { s with files := s.files.set handle.file stored }.accessed h handle
    ⟨f.size, wanted, offset, n, src.take n, position⟩

/-- `RegisterFileBuffer` and the constructor of the vector. -/
def registerFileBuffer (s : MemoryFileSystem w) (f : FileBuffer w) : Option (MemoryFileSystem w) :=
  if s.files.any (·.file_path = f.file_path) then none else some { s with files := s.files ++ [f] }

def openFile (s : MemoryFileSystem w) (path : String) (writeLock : Bool) :
    Option (MemoryFileSystem w) :=
  match s.files.findIdx? (·.file_path = path) with
  | none => none
  | some file =>
    if writeLock ∧ s.handles.any (·.file = file) then none
    else some { s with handles := s.handles ++ [⟨file, 0⟩] }

/-- `available < nr_bytes`, with the conversions of the two sides. -/
def insufficient (w available : Nat) (nr_bytes : Int) : Prop :=
  if w < 64 then (available : Int) < nr_bytes else available < sizeT w nr_bytes

instance (available : Nat) (nr_bytes : Int) : Decidable (insufficient w available nr_bytes) :=
  inferInstanceAs (Decidable (if w < 64 then (available : Int) < nr_bytes
    else available < sizeT w nr_bytes))

/-- `std::min<size_t>(handle.buffer_.buffer.size(), location)` -/
def safeLoc (f : FileBuffer w) (location : Nat) : Nat := min f.size (sizeT w location)

/-- `Read` with a location. -/
def readAt (s : MemoryFileSystem w) (h : Nat) (nr_bytes : Int) (location : Nat) :
    Option (MemoryFileSystem w) :=
  (s.handle h).bind fun hf =>
    let safe_loc := safeLoc hf.2 location
    let available := hf.2.size - safe_loc
    if insufficient w available nr_bytes then none
    else some (s.readAccess h hf.1 hf.2 location safe_loc (sizeT w nr_bytes)
      (sizeT w (safe_loc + nr_bytes)))

/-- `Write` with a location. -/
def writeAt (s : MemoryFileSystem w) (h : Nat) (src : List UInt8) (nr_bytes : Int)
    (location : Nat) : Option (MemoryFileSystem w) :=
  (s.handle h).bind fun hf =>
    let safe_loc := safeLoc hf.2 location
    let available := hf.2.size - safe_loc
    if insufficient w available nr_bytes then none
    else some (s.writeAccess h hf.1 hf.2 location safe_loc (sizeT w nr_bytes)
      (sizeT w (safe_loc + nr_bytes)) src)

/-- `handle.buffer_.buffer.size() - handle.position_`, in `size_t`. -/
def available (handle : FileHandle) (f : FileBuffer w) : Nat :=
  sizeT w ((f.size : Int) - handle.position_)

/-- `Read` at the position. -/
def read (s : MemoryFileSystem w) (h : Nat) (nr_bytes : Int) : Option (MemoryFileSystem w) :=
  (s.handle h).map fun hf =>
    let n := min (sizeT w nr_bytes) (available hf.1 hf.2)
    s.readAccess h hf.1 hf.2 hf.1.position_ hf.1.position_ n (sizeT w (hf.1.position_ + n))

/-- `Write` at the position. -/
def write (s : MemoryFileSystem w) (h : Nat) (src : List UInt8) (nr_bytes : Int) :
    Option (MemoryFileSystem w) :=
  (s.handle h).map fun hf =>
    let n := min (sizeT w nr_bytes) (available hf.1 hf.2)
    s.writeAccess h hf.1 hf.2 hf.1.position_ hf.1.position_ n
      (sizeT w (hf.1.position_ + nr_bytes)) src

def seek (s : MemoryFileSystem w) (h location : Nat) : Option (MemoryFileSystem w) :=
  (s.handle h).map fun hf =>
    { s with handles := s.handles.set h { hf.1 with position_ := sizeT w location } }

/-- `handle.buffer_.buffer.resize(new_size)`; `allocated` says that there is memory. -/
def truncate (s : MemoryFileSystem w) (h : Nat) (new_size : Int) (allocated : Bool) :
    Option (MemoryFileSystem w) :=
  (s.handle h).bind fun hf =>
    let n := sizeT w new_size
    if hfits : n ≤ maxSize w ∧ allocated then
      some { s with files := s.files.set hf.1.file
                      ⟨hf.2.file_path, hf.2.buffer.takeD n 0,
                        (List.takeD_length n hf.2.buffer 0).le.trans hfits.1⟩ }
    else none

end MemoryFileSystem

open MemoryFileSystem

inductive Event (w : Nat)
  | register (f : FileBuffer w)
  | openFile (path : String) (writeLock : Bool)
  | seek (h location : Nat)
  | read (h : Nat) (nr_bytes : Int)
  | write (h : Nat) (src : List UInt8) (nr_bytes : Int)
  | readAt (h : Nat) (nr_bytes : Int) (location : Nat)
  | writeAt (h : Nat) (src : List UInt8) (nr_bytes : Int) (location : Nat)
  | truncate (h : Nat) (new_size : Int) (allocated : Bool)

/-- What a call does; `none` if it throws. -/
def call (s : MemoryFileSystem w) : Event w → Option (MemoryFileSystem w)
  | .register f => s.registerFileBuffer f
  | .openFile path writeLock => s.openFile path writeLock
  | .seek h location => s.seek h location
  | .read h nr_bytes => s.read h nr_bytes
  | .write h src nr_bytes => s.write h src nr_bytes
  | .readAt h nr_bytes location => s.readAt h nr_bytes location
  | .writeAt h src nr_bytes location => s.writeAt h src nr_bytes location
  | .truncate h new_size allocated => s.truncate h new_size allocated

/-- A call that throws changes nothing. -/
def step (s : MemoryFileSystem w) (e : Event w) : Option (MemoryFileSystem w) :=
  some ((call s e).getD s)

/-! ## Bounds -/

/-- The access lies in the buffer, the length is a difference that is not negative, what is
transferred are the bytes that were wanted, and the position is behind them. -/
structure Access.InBounds (a : Access) : Prop where
  offset_le : a.offset ≤ a.size
  end_le : a.offset + a.length ≤ a.size
  wanted : 0 < a.length → a.wanted = a.offset
  position : a.position = a.offset + a.length

theorem Access.inBounds_iff {size offset length position : Nat} {wanted : Int}
    {data : List UInt8} : (Access.mk size wanted offset length data position).InBounds ↔
      offset ≤ size ∧ offset + length ≤ size ∧ (0 < length → wanted = offset) ∧
        position = offset + length :=
  ⟨fun h => ⟨h.offset_le, h.end_le, h.wanted, h.position⟩,
    fun h => ⟨h.1, h.2.1, h.2.2.1, h.2.2.2⟩⟩

/-- What holds of the handle and its buffer, if the handle is there. -/
def AtHandle (s : MemoryFileSystem w) (h : Nat) (p : FileHandle → FileBuffer w → Prop) : Prop :=
  ∀ hf ∈ s.handle h, p hf.1 hf.2

/-- With a location: what is asked for lies in the file at that location, or nothing is. -/
def Located (f : FileBuffer w) (nr_bytes : Int) (location : Nat) : Prop :=
  insufficient w (f.size - safeLoc f location) nr_bytes ∨
    (sizeT w nr_bytes ≤ f.size - safeLoc f location ∧
      (0 < sizeT w nr_bytes → sizeT w location = location))

/-- The condition on the state before a call. -/
def Fits (s : MemoryFileSystem w) : Event w → Prop
  | .read h _ => AtHandle s h fun handle f => handle.position_ ≤ f.size
  | .write h _ nr_bytes => AtHandle s h fun handle f =>
      handle.position_ + sizeT w nr_bytes ≤ f.size
  | .readAt h nr_bytes location => AtHandle s h fun _ f => Located f nr_bytes location
  | .writeAt h _ nr_bytes location => AtHandle s h fun _ f => Located f nr_bytes location
  | _ => True

variable {s s' : MemoryFileSystem w} {f : FileBuffer w} {handle : FileHandle} {h : Nat}

theorem sizeT_lt (n : Int) : sizeT w n < 2 ^ w := by
  have hpos : (0 : Int) < 2 ^ w := by positivity
  have hlt := Int.emod_lt_of_pos n hpos
  have hnonneg := Int.emod_nonneg n hpos.ne'
  unfold sizeT
  zify
  rw [Int.toNat_of_nonneg hnonneg]
  exact hlt

theorem sizeT_natCast (n : Nat) : sizeT w n = n % 2 ^ w := by
  unfold sizeT
  rw [← Int.toNat_natCast (n % 2 ^ w)]
  push_cast
  rfl

theorem sizeT_of_lt {n : Nat} (hn : n < 2 ^ w) : sizeT w n = n := by
  rw [sizeT_natCast, Nat.mod_eq_of_lt hn]

/-- An addition to a `size_t`, with what is added converted or not. -/
theorem sizeT_add (n : Nat) (k : Int) : sizeT w (n + k) = (n + sizeT w k) % 2 ^ w := by
  have hpos : (0 : Int) < 2 ^ w := by positivity
  have hk : ((sizeT w k : Nat) : Int) = k % 2 ^ w :=
    Int.toNat_of_nonneg (Int.emod_nonneg k hpos.ne')
  rw [← sizeT_natCast]
  unfold sizeT at hk ⊢
  push_cast
  rw [hk, Int.add_emod_emod]

theorem size_lt (f : FileBuffer w) : f.size < 2 ^ w := by
  have hfits : f.size ≤ 2 ^ (w - 1) - 1 := f.fits
  have hpow : 2 ^ (w - 1) ≤ 2 ^ w := Nat.pow_le_pow_right (by decide) (Nat.sub_le w 1)
  have hpos : 0 < 2 ^ (w - 1) := Nat.two_pow_pos _
  omega

/-- The difference, where it is not negative. -/
theorem available_eq (hle : handle.position_ ≤ f.size) :
    available handle f = f.size - handle.position_ := by
  have hlt := size_lt f
  have hcast : (f.size : Int) - handle.position_ = ((f.size - handle.position_ : Nat) : Int) := by
    omega
  rw [available, hcast, sizeT_of_lt (by omega)]

/-- A read at the position is in bounds exactly if the position is in the file. -/
theorem read_inBounds_iff (f : FileBuffer w) (handle : FileHandle) (nr_bytes : Int)
    (data : List UInt8) :
    (Access.mk f.size handle.position_ handle.position_
      (min (sizeT w nr_bytes) (available handle f)) data
      (sizeT w (handle.position_ + (min (sizeT w nr_bytes) (available handle f) : Nat)))).InBounds ↔
      handle.position_ ≤ f.size := by
  rw [Access.inBounds_iff]
  constructor
  · exact fun h => h.1
  · intro hle
    have hlt := size_lt f
    rw [available_eq hle]
    have hn : min (sizeT w nr_bytes) (f.size - handle.position_) ≤ f.size - handle.position_ :=
      Nat.min_le_right _ _
    have hcast := sizeT_of_lt (w := w)
      (n := handle.position_ + min (sizeT w nr_bytes) (f.size - handle.position_)) (by omega)
    push_cast at hcast ⊢
    exact ⟨hle, by omega, fun _ => rfl, hcast⟩

/-- A write at the position is in bounds exactly if what it is given fits behind the position. -/
theorem write_inBounds_iff (f : FileBuffer w) (handle : FileHandle) (nr_bytes : Int)
    (data : List UInt8) :
    (Access.mk f.size handle.position_ handle.position_
      (min (sizeT w nr_bytes) (available handle f)) data
      (sizeT w (handle.position_ + nr_bytes))).InBounds ↔
      handle.position_ + sizeT w nr_bytes ≤ f.size := by
  have hlt := size_lt f
  have hk := sizeT_lt (w := w) nr_bytes
  rw [sizeT_add, Access.inBounds_iff]
  constructor
  · rintro ⟨hle, -, -, hpos⟩
    rw [available_eq hle] at hpos
    -- the position would have to wrap to come out right
    rcases Nat.lt_or_ge (handle.position_ + sizeT w nr_bytes) (2 ^ w) with hsum | hsum
    · rw [Nat.mod_eq_of_lt hsum] at hpos
      omega
    · rw [Nat.mod_eq_sub_mod hsum, Nat.mod_eq_of_lt (by omega)] at hpos
      omega
  · intro hfits
    have hle : handle.position_ ≤ f.size := by omega
    have hmin : min (sizeT w nr_bytes) (available handle f) = sizeT w nr_bytes := by
      rw [available_eq hle]
      omega
    rw [hmin, Nat.mod_eq_of_lt (by omega)]
    exact ⟨hle, hfits, fun _ => rfl, rfl⟩

/-- An access with a location, where it does not throw. -/
theorem located_inBounds_iff (nr_bytes : Int) (location : Nat) (data : List UInt8)
    (henough : ¬ insufficient w (f.size - safeLoc f location) nr_bytes) :
    (Access.mk f.size location (safeLoc f location) (sizeT w nr_bytes) data
      (sizeT w (safeLoc f location + nr_bytes))).InBounds ↔ Located f nr_bytes location := by
  have hlt := size_lt f
  have hsafe : safeLoc f location = min f.size (sizeT w location) := rfl
  have hle : safeLoc f location ≤ f.size := Nat.min_le_left _ _
  rw [sizeT_add, Access.inBounds_iff]
  constructor
  · rintro ⟨-, hend, hwanted, -⟩
    refine .inr ⟨by omega, fun hpos => ?_⟩
    have hloc := hwanted hpos
    omega
  · rintro (hthrows | ⟨hroom, hloc⟩)
    · exact absurd hthrows henough
    · rw [Nat.mod_eq_of_lt (by omega)]
      refine ⟨hle, by omega, fun hpos => ?_, rfl⟩
      have heq := hloc hpos
      omega

/-! ## Each call and every run -/

/-- The access that a call has added to the record, if it has added one, is in bounds. -/
def NewInBounds (log log' : List Access) : Prop := ∀ a, log' = log ++ [a] → a.InBounds

theorem newInBounds_self (log : List Access) : NewInBounds log log := by
  intro a ha
  simp at ha

theorem newInBounds_append (log : List Access) {a : Access} :
    NewInBounds log (log ++ [a]) ↔ a.InBounds := by
  constructor
  · exact fun h => h a rfl
  · intro h b hb
    rw [List.append_cancel_left_eq, List.singleton_inj] at hb
    exact hb ▸ h

/-- The calls that copy no bytes. -/
def Event.Quiet : Event w → Prop
  | .register _ | .openFile .. | .seek .. | .truncate .. => True
  | _ => False

theorem quiet_log (e : Event w) (he : e.Quiet) : ((call s e).getD s).log = s.log := by
  cases e with
  | register f =>
    rw [call, registerFileBuffer]
    split <;> rfl
  | openFile path writeLock =>
    rw [call, openFile]
    split
    · rfl
    · split <;> rfl
  | seek h location =>
    rw [call, seek]
    cases s.handle h <;> rfl
  | truncate h new_size allocated =>
    rw [call, truncate]
    cases s.handle h with
    | none => rfl
    | some hf =>
      simp only [Option.bind_some]
      split <;> rfl
  | read | write | readAt | writeAt => exact he.elim

/-- **The condition is exact for each call**: it holds before the call exactly if the access of the
call, where it makes one, is in bounds. -/
theorem inBounds_step (s : MemoryFileSystem w) (e : Event w) :
    Fits s e ↔ NewInBounds s.log ((call s e).getD s).log := by
  cases e with
  | register | openFile | seek | truncate =>
    rw [quiet_log _ (by trivial)]
    exact ⟨fun _ => newInBounds_self _, fun _ => trivial⟩
  | read h nr_bytes =>
    rw [call, MemoryFileSystem.read, Fits, AtHandle]
    cases s.handle h with
    | none => exact ⟨fun _ => newInBounds_self _, fun _ hf hmem => by cases hmem⟩
    | some hf =>
      have hlog := (newInBounds_append s.log).trans
        (read_inBounds_iff hf.2 hf.1 nr_bytes (slice hf.2.buffer hf.1.position_
          (min (sizeT w nr_bytes) (available hf.1 hf.2))))
      refine Iff.trans ?_ hlog.symm
      exact ⟨fun hfits => hfits hf rfl, fun hfits _ hmem => Option.some.inj hmem ▸ hfits⟩
  | write h src nr_bytes =>
    rw [call, MemoryFileSystem.write, Fits, AtHandle]
    cases s.handle h with
    | none => exact ⟨fun _ => newInBounds_self _, fun _ hf hmem => by cases hmem⟩
    | some hf =>
      have hlog := (newInBounds_append s.log).trans
        (write_inBounds_iff hf.2 hf.1 nr_bytes (src.take
          (min (sizeT w nr_bytes) (available hf.1 hf.2))))
      refine Iff.trans ?_ hlog.symm
      exact ⟨fun hfits => hfits hf rfl, fun hfits _ hmem => Option.some.inj hmem ▸ hfits⟩
  | readAt h nr_bytes location =>
    rw [call, readAt, Fits, AtHandle]
    cases s.handle h with
    | none => exact ⟨fun _ => newInBounds_self _, fun _ hf hmem => by cases hmem⟩
    | some hf =>
      simp only [Option.bind_some]
      split
      next hthrows =>
        exact ⟨fun _ => newInBounds_self _, fun _ _ hmem => Option.some.inj hmem ▸ .inl hthrows⟩
      next henough =>
        have hlog := (newInBounds_append s.log).trans
          (located_inBounds_iff nr_bytes location (slice hf.2.buffer (safeLoc hf.2 location)
            (sizeT w nr_bytes)) henough)
        refine Iff.trans ?_ hlog.symm
        exact ⟨fun hfits => hfits hf rfl, fun hfits _ hmem => Option.some.inj hmem ▸ hfits⟩
  | writeAt h src nr_bytes location =>
    rw [call, writeAt, Fits, AtHandle]
    cases s.handle h with
    | none => exact ⟨fun _ => newInBounds_self _, fun _ hf hmem => by cases hmem⟩
    | some hf =>
      simp only [Option.bind_some]
      split
      next hthrows =>
        exact ⟨fun _ => newInBounds_self _, fun _ _ hmem => Option.some.inj hmem ▸ .inl hthrows⟩
      next henough =>
        have hlog := (newInBounds_append s.log).trans
          (located_inBounds_iff nr_bytes location (src.take (sizeT w nr_bytes)) henough)
        refine Iff.trans ?_ hlog.symm
        exact ⟨fun hfits => hfits hf rfl, fun hfits _ hmem => Option.some.inj hmem ▸ hfits⟩

/-- A call adds nothing to the record, or one access. -/
theorem call_log (s : MemoryFileSystem w) (e : Event w) :
    ((call s e).getD s).log = s.log ∨ ∃ a, ((call s e).getD s).log = s.log ++ [a] := by
  cases e with
  | register | openFile | seek | truncate => exact .inl (quiet_log _ (by trivial))
  | read h nr_bytes =>
    rw [call, MemoryFileSystem.read]
    cases s.handle h with
    | none => exact .inl rfl
    | some hf => exact .inr ⟨_, rfl⟩
  | write h src nr_bytes =>
    rw [call, MemoryFileSystem.write]
    cases s.handle h with
    | none => exact .inl rfl
    | some hf => exact .inr ⟨_, rfl⟩
  | readAt h nr_bytes location =>
    rw [call, readAt]
    cases s.handle h with
    | none => exact .inl rfl
    | some hf =>
      simp only [Option.bind_some]
      split
      · exact .inl rfl
      · exact .inr ⟨_, rfl⟩
  | writeAt h src nr_bytes location =>
    rw [call, writeAt]
    cases s.handle h with
    | none => exact .inl rfl
    | some hf =>
      simp only [Option.bind_some]
      split
      · exact .inl rfl
      · exact .inr ⟨_, rfl⟩

/-- **Every access of a run is in bounds**, if each call meets the condition when it is made. -/
theorem in_bounds {es : List (Event w)} {s : MemoryFileSystem w}
    (h : Run step Fits ⟨[], [], []⟩ es s) : ∀ a ∈ s.log, a.InBounds := by
  refine h.invariant (P := fun s => ∀ a ∈ s.log, a.InBounds) (fun a ha => by cases ha) ?_
  intro s e s' hall hok hs a ha
  obtain rfl := Option.some.inj hs
  rcases call_log s e with hsame | hnew
  · exact hall a (hsame ▸ ha)
  · obtain ⟨b, hb⟩ := hnew
    have hbound : b.InBounds := (inBounds_step s e).mp hok b hb
    rw [hb] at ha
    rcases List.mem_append.mp ha with hold | hlast
    · exact hall a hold
    · exact List.mem_singleton.mp hlast ▸ hbound

/-! ## Two runs -/

instance (f : FileBuffer w) (nr_bytes : Int) (location : Nat) :
    Decidable (Located f nr_bytes location) := inferInstanceAs (Decidable (_ ∨ _))

instance (s : MemoryFileSystem w) (e : Event w) : Decidable (Fits s e) :=
  match e with
  | .read h _ => inferInstanceAs (Decidable (∀ hf ∈ s.handle h, hf.1.position_ ≤ hf.2.size))
  | .write h _ nr_bytes => inferInstanceAs
      (Decidable (∀ hf ∈ s.handle h, hf.1.position_ + sizeT w nr_bytes ≤ hf.2.size))
  | .readAt h nr_bytes location => inferInstanceAs
      (Decidable (∀ hf ∈ s.handle h, Located hf.2 nr_bytes location))
  | .writeAt h _ nr_bytes location => inferInstanceAs
      (Decidable (∀ hf ∈ s.handle h, Located hf.2 nr_bytes location))
  | .register _ | .openFile .. | .seek .. | .truncate .. => inferInstanceAs (Decidable True)

/-- A file of three bytes. -/
def threeBytes : FileBuffer 32 := ⟨"f", [1, 2, 3], by decide⟩

/-- A truncation below the position of another handle, which then seeks before it reads. -/
theorem in_bounds_truncated :
    ∃ s : MemoryFileSystem 32, Run step Fits ⟨[], [], []⟩ [.register threeBytes,
      .openFile "f" false, .openFile "f" false, .read 0 2, .truncate 1 1 true, .seek 0 0,
      .write 0 [9] 1, .readAt 1 1 0] s ∧
      s.log.map (fun a => (a.data, a.position)) = [([1, 2], 2), ([9], 1), ([9], 1)] ∧
      ∀ a ∈ s.log, a.InBounds := by
  obtain ⟨s, hrun, hs⟩ := Run.exists_of_execute (show (execute step Fits
      (⟨[], [], []⟩ : MemoryFileSystem 32) [.register threeBytes, .openFile "f" false,
        .openFile "f" false, .read 0 2, .truncate 1 1 true, .seek 0 0, .write 0 [9] 1,
        .readAt 1 1 0]).map
      (fun s => decide (s.log.map (fun a => (a.data, a.position)) =
        [([1, 2], 2), ([9], 1), ([9], 1)])) = some true by decide +kernel)
  exact ⟨s, hrun, of_decide_eq_true hs, in_bounds hrun⟩

/-- A write of five bytes moves the position by five, though three fit; a read of one byte then
starts behind the end of the buffer. -/
theorem position_passes_end :
    ∃ s : MemoryFileSystem 32, Run step Always ⟨[], [], []⟩ [.register threeBytes,
      .openFile "f" false, .write 0 [4, 5, 6, 7, 8] 5, .read 0 1] s ∧
      s.log.map (fun a => (a.size, a.offset, a.length, a.position)) =
        [(3, 0, 3, 5), (3, 5, 1, 6)] ∧
      ¬ ∀ a ∈ s.log, a.InBounds := by
  obtain ⟨s, hrun, hs⟩ := Run.exists_of_execute (show (execute step Always
      (⟨[], [], []⟩ : MemoryFileSystem 32) [.register threeBytes, .openFile "f" false,
        .write 0 [4, 5, 6, 7, 8] 5, .read 0 1]).map
      (fun s => decide (s.log.map (fun a => (a.size, a.offset, a.length, a.position)) =
        [(3, 0, 3, 5), (3, 5, 1, 6)])) = some true by decide +kernel)
  have hlog := of_decide_eq_true hs
  refine ⟨s, hrun, hlog, fun hall => ?_⟩
  -- the second access is behind the end
  have hmem : ((3, 5, 1, 6) : Nat × Nat × Nat × Nat) ∈
      s.log.map (fun a => (a.size, a.offset, a.length, a.position)) := by
    rw [hlog]
    decide
  obtain ⟨a, ha, heq⟩ := List.mem_map.mp hmem
  have hle := (hall a ha).offset_le
  obtain ⟨hsize, hoffset, -⟩ := Prod.mk.inj heq |>.imp_right Prod.mk.inj
  omega

end Haybarn.Io.MemoryFiles
