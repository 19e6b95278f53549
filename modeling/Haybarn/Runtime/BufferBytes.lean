import Haybarn.Runtime.UploadedBodies

/-!
# A buffer as an array of bytes

A handle of a file that is a buffer (lib/src/io/web_filesystem.cc) should be a position in an array
of bytes: a gap that is left when something is written behind the end, or when the file grows, is
filled with zeros. `DataBuffer::Resize` fills nothing: it gives the file what is in the memory, or
what a larger file has left there. And positions have 64 bits, while a `size_t` has 32: what is
behind the last address wraps around. `buffer_is_its_bytes` leaves this out: for all other calls, in
any order, the handle is the position in the array, and no access leaves the buffer.

Mirroring notes:
- `WebFile` and its buffer are those of `WriteBuffers`; this is one handle of a file that stays the
  buffer it is.
- `accesses` is not in the source: what is copied from the buffer and to it, with the size of the
  memory at that moment. A buffer has as much memory as its capacity.
-/

namespace Haybarn.Runtime.BufferBytes

open Haybarn.Lib Haybarn.Runtime.WriteBuffers

/-! ## The calls -/

/-- A copy from the buffer, or to it. -/
structure Access where
  start : Nat
  length : Nat
  allocated : Nat
  deriving DecidableEq, Repr

def Access.Inside (a : Access) : Prop := a.length = 0 ∨ a.start + a.length ≤ a.allocated

/-- The bytes that `Read` copies. -/
def readCount (b : DataBuffer) (position nr_bytes : Nat) : Nat :=
  min (sizeT nr_bytes) (b.size - min (sizeT position) b.size)

/-- What `Resize` copies from the old memory to the new one. -/
def resizeAccesses (b : DataBuffer) (n : Nat) (u : WriteBuffers.Memory) : List Access :=
  let next := b.Resize n u
  if b.capacity < n then [⟨0, b.size, b.capacity⟩, ⟨0, b.size, next.capacity⟩]
  else if n < b.capacity / 2 then [⟨0, n, b.capacity⟩, ⟨0, n, next.capacity⟩]
  else []

/-- What `Write` copies, after the buffer has been resized. -/
def writeAccesses (f : WebFile) (position : Nat) (bytes : List UInt8) (u : WriteBuffers.Memory) :
    List Access :=
  let copied := match (f.Write position bytes u).data_buffer with
    | some b => [⟨sizeT position, bytes.length, b.capacity⟩]
    | none => []
  match f.data_buffer with
  | none => []
  | some b =>
    let endPosition := position + bytes.length
    if b.size < endPosition then
      resizeAccesses b (sizeT (max (sizeT endPosition) (sizeT (f.file_size.getD 0)))) u ++ copied
    else copied

inductive Call
  | Seek (location : Nat)
  | Read (nr_bytes : Nat)
  | Write (bytes : List UInt8) (uninitialized : WriteBuffers.Memory)
  | Truncate (new_size : Nat) (uninitialized : WriteBuffers.Memory)

inductive Reply
  | done
  | read (bytes : List UInt8)
  | wrote (n : Nat)
  deriving DecidableEq, Repr

structure State where
  file : WebFile
  position : Nat
  replies : List Reply
  accesses : List Access

def reply (s : State) (r : Reply) : State := { s with replies := s.replies ++ [r] }

def step (s : State) (e : Call) : Option State :=
  match e with
  | .Seek location => some (reply { s with position := location } .done)
  | .Read nr_bytes =>
    s.file.data_buffer.map fun b =>
      let n := readCount b s.position nr_bytes
      reply { s with
        position := s.position + n
        accesses := s.accesses ++ [⟨sizeT s.position, n, b.capacity⟩] }
        (.read (segment b.data (sizeT s.position) n))
  | .Write bytes u =>
    some (reply { s with
      file := s.file.Write s.position bytes u
      position := s.position + bytes.length
      accesses := s.accesses ++ writeAccesses s.file s.position bytes u } (.wrote bytes.length))
  | .Truncate new_size u =>
    s.file.data_buffer.map fun b =>
      reply { s with
        file := s.file.Truncate new_size u
        accesses := s.accesses ++ resizeAccesses b (sizeT new_size) u } .done

/-- A file that is registered as a buffer, and a handle of it. -/
def initial (file_name : String) (size : Nat) (data : WriteBuffers.Memory) : State where
  file := {
    file_name
    data_protocol := .BUFFER
    data_url := none
    handle_count := 1
    file_size := some size
    data_buffer := some ⟨data, size, size⟩ }
  position := 0
  replies := []
  accesses := []

/-! ## The array -/

/-- A position in an array of bytes, and what has been answered. -/
structure Bytes where
  contents : Contents
  position : Nat
  replies : List Reply

def Bytes.step (a : Bytes) : Call → Bytes
  | .Seek location => { a with position := location, replies := a.replies ++ [.done] }
  | .Read nr_bytes =>
    let bytes := a.contents.read nr_bytes a.position
    { a with position := a.position + bytes.length, replies := a.replies ++ [.read bytes] }
  | .Write bytes _ =>
    { contents := a.contents.write a.position bytes
      position := a.position + bytes.length
      replies := a.replies ++ [.wrote bytes.length] }
  | .Truncate new_size _ =>
    { a with contents := a.contents.truncate new_size, replies := a.replies ++ [.done] }

/-- The buffer, next to the array. -/
def stepBoth (x : State × Bytes) (e : Call) : Option (State × Bytes) :=
  (step x.1 e).map fun s => (s, x.2.step e)

def bothInitial (file_name : String) (size : Nat) (data : WriteBuffers.Memory) : State × Bytes :=
  (initial file_name size data, ⟨⟨size, data⟩, 0, []⟩)

/-- The answers, the position and the bytes are those of the array, and no access leaves the
buffer. -/
structure Refines (s : State) (a : Bytes) : Prop where
  replies : s.replies = a.replies
  position : s.position = a.position
  contents : s.file.Holds a.contents
  inside : ∀ x ∈ s.accesses, x.Inside

/-! ## When it is the array -/

/-- No gap is left, and positions are where a buffer can reach. -/
def Fits (s : State) : Call → Prop
  | .Seek _ => True
  | .Read nr_bytes => nr_bytes < 4294967296 ∧ s.position < 4294967296
  | .Write bytes _ =>
    s.position ≤ s.file.file_size.getD 0 ∧ s.position + bytes.length < 4294967296
  | .Truncate new_size _ => new_size ≤ s.file.file_size.getD 0

instance (s : State) : (e : Call) → Decidable (Fits s e)
  | .Seek _ => .isTrue trivial
  | .Read nr_bytes =>
    inferInstanceAs (Decidable (nr_bytes < 4294967296 ∧ s.position < 4294967296))
  | .Write bytes _ => inferInstanceAs (Decidable
    (s.position ≤ s.file.file_size.getD 0 ∧ s.position + bytes.length < 4294967296))
  | .Truncate new_size _ => inferInstanceAs (Decidable (new_size ≤ s.file.file_size.getD 0))

def FitsBoth (x : State × Bytes) (e : Call) : Prop := Fits x.1 e

instance (x : State × Bytes) (e : Call) : Decidable (FitsBoth x e) :=
  inferInstanceAs (Decidable (Fits x.1 e))

variable {s s' : State} {a : Bytes} {b : DataBuffer} {f : WebFile} {c : Contents}

/-! ### The memory -/

/-- A buffer has as much memory as it has bytes. -/
def Roomy (f : WebFile) : Prop := ∀ b, f.data_buffer = some b → b.size ≤ b.capacity

theorem resize_roomy (b : DataBuffer) (n : Nat) (u : WriteBuffers.Memory) :
    (b.Resize n u).size ≤ (b.Resize n u).capacity := by
  rw [resize_size]
  unfold DataBuffer.Resize
  split
  next => exact Nat.le_max_right _ _
  next =>
    split
    next => exact Nat.le_refl n
    next => show n ≤ b.capacity; omega

theorem truncate_roomy (f : WebFile) (n : Nat) (u : WriteBuffers.Memory) :
    Roomy (f.Truncate n u) := by
  intro b hb
  unfold WebFile.Truncate at hb
  obtain ⟨b', _, rfl⟩ := Option.map_eq_some_iff.mp hb
  exact resize_roomy b' _ u

theorem write_roomy {position : Nat} {bytes : List UInt8} {u : WriteBuffers.Memory} (hf : Roomy f) :
    Roomy (f.Write position bytes u) := by
  unfold WebFile.Write
  split
  next => exact hf
  next b hb =>
    dsimp only
    intro b' hb'
    obtain ⟨old, hold, rfl⟩ := Option.map_eq_some_iff.mp hb'
    split at hold
    next => exact truncate_roomy f _ u old hold
    next => exact hf old hold

/-- Resizing copies what is in the old memory to where there is new memory. -/
theorem resize_inside (hb : b.size ≤ b.capacity) (n : Nat) (u : WriteBuffers.Memory) :
    ∀ x ∈ resizeAccesses b n u, x.Inside := by
  unfold resizeAccesses
  split
  next hgrow =>
    have hroom := resize_roomy b n u
    rw [resize_size] at hroom
    intro x hx
    simp only [List.mem_cons, List.not_mem_nil, or_false] at hx
    obtain rfl | rfl := hx
    · exact Or.inr (by dsimp only; omega)
    · exact Or.inr (by dsimp only; omega)
  next =>
    split
    next hshrink =>
      have hroom := resize_roomy b n u
      rw [resize_size] at hroom
      intro x hx
      simp only [List.mem_cons, List.not_mem_nil, or_false] at hx
      obtain rfl | rfl := hx
      · exact Or.inr (by dsimp only; omega)
      · exact Or.inr (by dsimp only; omega)
    next => exact fun x hx => absurd hx List.not_mem_nil

/-- What is written lies in the buffer once it has been resized. -/
theorem write_inside {position : Nat} {bytes : List UInt8} {u : WriteBuffers.Memory}
    (hf : f.Holds c) (hroom : Roomy f) (hin : position ≤ c.size)
    (hend : position + bytes.length < 4294967296) :
    ∀ x ∈ writeAccesses f position bytes u, x.Inside := by
  obtain ⟨hsize, b', hb', hbsize, -⟩ := hf.write u hin hend
  have hb'room := @write_roomy _ position bytes u hroom b' hb'
  have hcopy : Access.Inside ⟨sizeT position, bytes.length, b'.capacity⟩ := by
    by_cases hempty : bytes.length = 0
    · exact Or.inl hempty
    · refine Or.inr ?_
      have hwritten : (c.write position bytes).size = max c.size (position + bytes.length) :=
        if_neg hempty
      dsimp only
      rw [sizeT_of_lt (by omega)]
      omega
  obtain ⟨-, b, hb, -⟩ := hf
  unfold writeAccesses
  rw [hb, hb']
  dsimp only
  intro x hx
  split at hx
  next =>
    obtain hx | hx := List.mem_append.mp hx
    · exact resize_inside (hroom b hb) _ u x hx
    · rw [List.mem_singleton] at hx
      exact hx ▸ hcopy
  next =>
    rw [List.mem_singleton] at hx
    exact hx ▸ hcopy

/-! ### Every call -/

structure Inv (x : State × Bytes) : Prop where
  refines : Refines x.1 x.2
  roomy : Roomy x.1.file
  size : x.2.contents.size < 4294967296

theorem inv_initial (file_name : String) {size : Nat} (data : WriteBuffers.Memory)
    (hsize : size < 4294967296) : Inv (bothInitial file_name size data) where
  refines := ⟨rfl, rfl, ⟨rfl, _, rfl, rfl, fun _ _ => rfl⟩, fun _ hx => absurd hx List.not_mem_nil⟩
  roomy := fun b hb => by
    obtain rfl := Option.some.inj hb
    exact Nat.le_refl _
  size := hsize

/-- A read returns what the array has. -/
theorem read_bytes (hf : f.Holds c) (hb : f.data_buffer = some b) {nr_bytes position : Nat}
    (hn : nr_bytes < 4294967296) (hp : position < 4294967296) :
    readCount b position nr_bytes = min nr_bytes (c.size - position) ∧
      segment b.data (sizeT position) (readCount b position nr_bytes) =
        c.read nr_bytes position := by
  obtain ⟨-, b', hb', hsize, hdata⟩ := hf
  obtain rfl := Option.some.inj (hb.symm.trans hb')
  have hcount : readCount b position nr_bytes = min nr_bytes (c.size - position) := by
    unfold readCount
    rw [sizeT_of_lt hn, sizeT_of_lt hp, hsize]
    omega
  refine ⟨hcount, ?_⟩
  rw [hcount, sizeT_of_lt hp]
  exact segment_congr fun i _ hi => hdata i (by omega)

theorem append_inside {xs ys : List Access} (hxs : ∀ x ∈ xs, x.Inside) (hys : ∀ x ∈ ys, x.Inside) :
    ∀ x ∈ xs ++ ys, x.Inside := by
  intro x hx
  obtain hx | hx := List.mem_append.mp hx
  · exact hxs x hx
  · exact hys x hx

theorem inv_read {nr_bytes : Nat} (hx : Inv (s, a)) (hok : Fits s (.Read nr_bytes))
    (hs : step s (.Read nr_bytes) = some s') : Inv (s', a.step (.Read nr_bytes)) := by
  obtain ⟨hreplies, hposition, hholds, hinside⟩ := hx.refines
  dsimp only at hreplies hposition hholds hinside
  obtain ⟨b, hb, rfl⟩ := Option.map_eq_some_iff.mp hs
  obtain ⟨hcount, hbytes⟩ := read_bytes hholds hb hok.1 hok.2
  have hlen : (a.contents.read nr_bytes a.position).length =
      readCount b s.position nr_bytes := by
    rw [hcount, ← hposition]
    exact length_segment
  refine ⟨⟨?_, ?_, hholds, ?_⟩, hx.roomy, hx.size⟩
  · show s.replies ++ [_] = a.replies ++ [_]
    rw [hreplies, hbytes, hposition]
  · show s.position + _ = a.position + _
    rw [hlen, hposition]
  · refine append_inside hinside fun x hx' => ?_
    rw [List.mem_singleton] at hx'
    subst hx'
    have hroom := hx.roomy b hb
    obtain ⟨-, b', hb', hsize, -⟩ := hholds
    obtain rfl := Option.some.inj (hb.symm.trans hb')
    by_cases hempty : readCount b s.position nr_bytes = 0
    · exact Or.inl hempty
    · refine Or.inr ?_
      dsimp only
      rw [sizeT_of_lt hok.2]
      omega

theorem inv_write {bytes : List UInt8} {u : WriteBuffers.Memory} (hx : Inv (s, a))
    (hok : Fits s (.Write bytes u)) (hs : step s (.Write bytes u) = some s') :
    Inv (s', a.step (.Write bytes u)) := by
  obtain ⟨hreplies, hposition, hholds, hinside⟩ := hx.refines
  dsimp only at hreplies hposition hholds hinside
  obtain ⟨hin, hend⟩ := hok
  rw [hholds.1, Option.getD_some] at hin
  obtain rfl := Option.some.inj hs
  refine ⟨⟨?_, ?_, ?_, ?_⟩, write_roomy hx.roomy, ?_⟩
  · show s.replies ++ [_] = a.replies ++ [_]
    rw [hreplies]
  · show s.position + _ = a.position + _
    rw [hposition]
  · show (s.file.Write s.position bytes u).Holds (a.contents.write a.position bytes)
    rw [← hposition]
    exact hholds.write u hin hend
  · exact append_inside hinside (write_inside hholds hx.roomy hin hend)
  · have hsize := hx.size
    show (if bytes.length = 0 then a.contents.size else max a.contents.size _) < _
    rw [← hposition]
    split
    · exact hsize
    · exact max_lt hsize hend

theorem inv_truncate {new_size : Nat} {u : WriteBuffers.Memory} (hx : Inv (s, a))
    (hok : Fits s (.Truncate new_size u)) (hs : step s (.Truncate new_size u) = some s') :
    Inv (s', a.step (.Truncate new_size u)) := by
  obtain ⟨hreplies, hposition, hholds, hinside⟩ := hx.refines
  dsimp only at hreplies hposition hholds hinside
  have hin : new_size ≤ a.contents.size := by
    have hin : new_size ≤ s.file.file_size.getD 0 := hok
    rwa [hholds.1, Option.getD_some] at hin
  obtain ⟨b, hb, rfl⟩ := Option.map_eq_some_iff.mp hs
  refine ⟨⟨?_, hposition, hholds.truncate u hin hx.size, ?_⟩, truncate_roomy _ _ u,
    Nat.lt_of_le_of_lt hin hx.size⟩
  · show s.replies ++ [_] = a.replies ++ [_]
    rw [hreplies]
  · exact append_inside hinside (resize_inside (hx.roomy b hb) _ u)

theorem inv_step {x x' : State × Bytes} {e : Call} (hx : Inv x) (hok : FitsBoth x e)
    (hs : stepBoth x e = some x') : Inv x' := by
  obtain ⟨s, a⟩ := x
  obtain ⟨s', hmoved, rfl⟩ := Option.map_eq_some_iff.mp hs
  cases e with
  | Seek location =>
    obtain rfl := Option.some.inj hmoved
    obtain ⟨hreplies, -, hholds, hinside⟩ := hx.refines
    refine ⟨⟨?_, rfl, hholds, hinside⟩, hx.roomy, hx.size⟩
    show s.replies ++ [_] = a.replies ++ [_]
    rw [show s.replies = a.replies from hreplies]
  | Read nr_bytes => exact inv_read hx hok hmoved
  | Write bytes u => exact inv_write hx hok hmoved
  | Truncate new_size u => exact inv_truncate hx hok hmoved

/-- **Over every run whose writes start in the file or at its end, whose truncations do not grow
it, and which stays below 2^32, a handle of a buffer is a position in an array of bytes**: it
answers what the array answers, and no access leaves the buffer. -/
theorem buffer_is_its_bytes {file_name : String} {size : Nat} {data : WriteBuffers.Memory}
    {es : List Call} {x : State × Bytes} (hsize : size < 4294967296)
    (hrun : Run stepBoth FitsBoth (bothInitial file_name size data) es x) : Refines x.1 x.2 :=
  (hrun.invariant (inv_initial file_name data hsize) fun _ _ _ => inv_step).refines

/-- Something is written to the end of a file, read, and cut off. -/
theorem buffer_is_its_bytes_written : ∃ x,
    Run stepBoth FitsBoth (bothInitial "file" 1 fun _ => 5)
      [.Seek 1, .Write [6, 7] (fun _ => 9), .Seek 0, .Read 4, .Truncate 2 (fun _ => 9)] x ∧
    x.1.replies = [.done, .wrote 2, .done, .read [5, 6, 7], .done] ∧ Refines x.1 x.2 := by
  obtain ⟨x, hrun, hreplies⟩ := Run.exists_of_execute
    (show (execute stepBoth FitsBoth (bothInitial "file" 1 fun _ => 5)
        [.Seek 1, .Write [6, 7] (fun _ => 9), .Seek 0, .Read 4, .Truncate 2 (fun _ => 9)]).map
      (fun x => decide (x.1.replies = [.done, .wrote 2, .done, .read [5, 6, 7], .done])) = some true
      by decide +kernel)
  exact ⟨x, hrun, of_decide_eq_true hreplies, buffer_is_its_bytes (by decide) hrun⟩

/-- A gap has what is in the memory. -/
theorem gap_is_not_zero : ∃ x,
    Run stepBoth Always (bothInitial "file" 0 fun _ => 5)
      [.Seek 1, .Write [6] (fun _ => 9), .Seek 0, .Read 2] x ∧
    x.1.replies = [.done, .wrote 1, .done, .read [9, 6]] ∧
    x.2.replies = [.done, .wrote 1, .done, .read [0, 6]] ∧ ¬ Refines x.1 x.2 := by
  obtain ⟨x, hrun, hreplies⟩ := Run.exists_of_execute
    (show (execute stepBoth Always (bothInitial "file" 0 fun _ => 5)
        [.Seek 1, .Write [6] (fun _ => 9), .Seek 0, .Read 2]).map
      (fun x => decide (x.1.replies = [.done, .wrote 1, .done, .read [9, 6]] ∧
        x.2.replies = [.done, .wrote 1, .done, .read [0, 6]])) = some true by decide +kernel)
  obtain ⟨hcode, hwanted⟩ := of_decide_eq_true hreplies
  refine ⟨x, hrun, hcode, hwanted, fun h => ?_⟩
  have hsame := hcode.symm.trans (h.replies.trans hwanted)
  exact absurd hsame (by decide)

end Haybarn.Runtime.BufferBytes
