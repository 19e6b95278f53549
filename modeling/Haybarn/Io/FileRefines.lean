import Haybarn.Io.BufferedFile

/-!
# A buffered file is its bytes

What a file is to its users: a number of bytes (`Plain`), which calls read, overwrite, append to and
cut. **In every run whose calls find what they rely on, each read gives the bytes written last, each
call answers as it should, and the size is that of the bytes** (`file_is_its_bytes`): for every page
size, every sequence of calls, and whatever frames are evicted on the way.

What the calls rely on (`Handle.Fits`) is more than the file system promises: a write overwrites
only in a file that was opened for appending, and only if it does not pass the end of the file
within a page; and a file is truncated to more bytes only if its frames have zeros there.
-/

namespace Haybarn.Io.PagedFile

open Haybarn.Lib

/-- A file as its users see it. -/
structure Plain where
  openForWriting : Bool
  size : Nat
  bytes : Nat → UInt8
  position : Nat

namespace Plain

variable (A : Plain)

/-- The bytes, and zeros behind them. -/
def contents : Nat → UInt8 := fun i => if i < A.size then A.bytes i else 0

def write (offset : Nat) (bs : List UInt8) : Plain :=
  { A with
    size := if bs.length = 0 then A.size else max A.size (offset + bs.length)
    bytes := put A.contents offset bs }

def truncate (newSize : Nat) : Plain := { A with size := newSize, bytes := A.contents }

/-- Some of the bytes at the offset, at least one if there is one. -/
def ReadRight (n offset : Nat) (answer : Answer) : Prop :=
  ∃ k, answer = .bytes (segment A.bytes offset k) ∧ k ≤ min n (A.size - offset)
    ∧ (k = 0 → min n (A.size - offset) = 0)

/-- Some of the bytes have been written, at least one if there is one. -/
def WriteRight (bytes : List UInt8) (answer : Answer) : Prop :=
  if A.openForWriting then
    ∃ k, answer = .count k ∧ k ≤ bytes.length ∧ (k = 0 → bytes.length = 0)
  else answer = .thrown "File is not opened in write mode"

/-- What a call is to answer. -/
def Right (answer : Answer) : Call → Prop
  | .evict _ | .flush | .seek _ => answer = .done
  | .read n offset _ => A.ReadRight n offset answer
  | .readNext n _ => A.ReadRight n A.position answer
  | .write bytes _ _ | .writeNext bytes _ => A.WriteRight bytes answer
  | .append _ | .truncate _ =>
    answer = if A.openForWriting then .done else .thrown "file is not opened in write mode"
  | .readExactly n location _ =>
    answer = if n ≤ A.size - location then .bytes (segment A.bytes location n)
      else .thrown "tried to read past the end"
  | .writeExactly bytes _ _ =>
    answer = if A.openForWriting || bytes.length == 0 then .done
      else .thrown "File is not opened in write mode"

/-- What a call that has been answered does to the bytes. -/
def after : Call → Answer → Plain
  | .write bytes offset _, .count k => A.write offset (bytes.take k)
  | .writeNext bytes _, .count k =>
    { A.write A.position (bytes.take k) with position := A.position + k }
  | .append bytes, .done => A.write A.size bytes
  | .truncate newSize, .done => A.truncate newSize
  | .readNext _ _, .bytes bs => { A with position := A.position + bs.length }
  | .readExactly n location _, _ => { A with position := location + min n (A.size - location) }
  | .writeExactly bytes location _, .done =>
    { A.write location bytes with position := location + bytes.length }
  | .seek location, _ => { A with position := location }
  | _, _ => A

end Plain

/-! ## Runs -/

/-- What a call relies on. -/
def Handle.Fits (cfg : Config) (h : Handle) : Call → Prop
  | .write bytes offset access =>
    (h.file.makeRoom cfg access.evicted).WriteFits cfg bytes.length offset
  | .writeNext bytes access =>
    (h.file.makeRoom cfg access.evicted).WriteFits cfg bytes.length h.filePosition
  | .writeExactly bytes location _ => h.file.WritesFit cfg bytes.length location
  | .append bytes => h.file.openForWriting = true → h.file.AppendFits cfg bytes.length
  | .truncate newSize => h.file.openForWriting = true →
    h.file.TruncateFits cfg newSize ∧ h.file.GrowsIntoZeros cfg newSize
  | _ => True

/-- Each call of a run finds what it relies on. -/
def Handle.FitsThrough (cfg : Config) : Handle → List Call → Prop
  | _, [] => True
  | h, call :: calls => h.Fits cfg call ∧
    match h.step cfg call with
    | some (h', _) => FitsThrough cfg h' calls
    | none => True

/-- Each call of a run returns, with the right answer, and the size is always right. -/
def Handle.Refines (cfg : Config) : Handle → Plain → List Call → Prop
  | h, A, [] => h.file.fileSize = A.size
  | h, A, call :: calls => h.file.fileSize = A.size ∧
    match h.step cfg call with
    | some (h', answer) => A.Right answer call ∧ Refines cfg h' (A.after call answer) calls
    | none => False

/-- The file shows these bytes. -/
structure Handle.Shows (cfg : Config) (h : Handle) (A : Plain) : Prop where
  coherent : h.file.Coherent cfg
  writable : h.file.openForWriting = A.openForWriting
  size : h.file.fileSize = A.size
  bytes : ∀ i, i < A.size → h.file.view cfg i = A.bytes i
  position : h.filePosition = A.position

variable {cfg : Config} {h : Handle} {A : Plain}

namespace Handle

/-- An operation that changes no byte. -/
theorem Shows.same (hs : h.Shows cfg A) {file : File} (hsame : h.file.SameBytes cfg file)
    (position : Nat) : Shows cfg ⟨file, position⟩ { A with position } where
  coherent := hsame.coherent
  writable := hsame.mode.1.trans hs.writable
  size := hsame.fileSize.trans hs.size
  bytes i hi := (hsame.view i (hs.size ▸ hi)).trans (hs.bytes i hi)
  position := rfl

theorem Shows.written (hs : h.Shows cfg A) {file : File} {bs : List UInt8} {location : Nat}
    (hw : h.file.Written cfg bs location file) (position : Nat) :
    Shows cfg ⟨file, position⟩ { A.write location bs with position } := by
  have hsize := hw.fileSize
  have hin := hw.within
  rw [hs.size] at hsize hin
  refine ⟨hw.coherent, hw.mode.1.trans hs.writable, hsize, ?_, rfl⟩
  intro i hi
  rw [hw.view i (hsize ▸ hi)]
  by_cases hend : i < A.size
  · refine put_congr ((hs.bytes i hend).trans ?_)
    exact (if_pos hend).symm
  · have hi : i < if bs.length = 0 then A.size else max A.size (location + bs.length) := hi
    split at hi
    · omega
    · exact put_of_mem (by omega) (by omega)

/-- What is read from the file is what there is in the bytes. -/
theorem Shows.segment (hs : h.Shows cfg A) {location n : Nat} (hn : n ≤ A.size - location) :
    segment (h.file.view cfg) location n = segment A.bytes location n :=
  segment_congr fun i _ hi => hs.bytes i (by omega)

theorem Shows.readAt (hs : h.Shows cfg A) (n offset : Nat) (access : Access) :
    A.ReadRight n offset (.bytes (h.readAt cfg n offset access).2)
      ∧ h.file.SameBytes cfg (h.readAt cfg n offset access).1 := by
  have hroom := File.SameBytes.makeRoom access.evicted hs.coherent
  obtain ⟨hread, hbytes⟩ := File.read_view hroom.coherent n offset access.stale
  have hpos := Nat.mod_lt offset cfg.pageSize_pos
  have hcount : (h.file.makeRoom cfg access.evicted).readCount cfg n offset
      = min (min n (A.size - offset)) (cfg.pageSize - offset % cfg.pageSize) := by
    unfold File.readCount
    rw [hroom.fileSize, hs.size]
  rw [hcount] at hbytes
  refine ⟨⟨min (min n (A.size - offset)) (cfg.pageSize - offset % cfg.pageSize),
    congrArg Answer.bytes (hbytes.trans ?_), by omega, by omega⟩, hroom.trans hread⟩
  refine segment_congr fun i _ hi => ?_
  have hi : i < A.size := by omega
  exact (hroom.view i (hs.size ▸ hi)).trans (hs.bytes i hi)

theorem Shows.writeAt (hs : h.Shows cfg A) {bytes : List UInt8} {offset : Nat} {access : Access}
    (hfits : (h.file.makeRoom cfg access.evicted).WriteFits cfg bytes.length offset) :
    (∃ file k, h.writeAt cfg bytes offset access = .ok (file, k) ∧ A.WriteRight bytes (.count k)
        ∧ h.file.Written cfg (bytes.take k) offset file)
      ∨ ∃ e, h.writeAt cfg bytes offset access = .error e ∧ A.WriteRight bytes (.thrown e) := by
  have hroom := File.SameBytes.makeRoom access.evicted hs.coherent
  have hmode := hroom.mode.1.trans hs.writable
  unfold Plain.WriteRight
  cases hw : A.openForWriting with
  | true =>
    obtain ⟨file, k, hwrite, hk, hprogress, hwritten⟩ :=
      File.write_written hroom.coherent (hmode.trans hw) access.stale hfits
    exact .inl ⟨file, k, hwrite, ⟨k, rfl, hk, hprogress⟩, .of_sameBytes hroom hwritten⟩
  | false =>
    refine .inr ⟨"File is not opened in write mode", ?_, rfl⟩
    unfold Handle.writeAt File.write
    rw [hmode, hw]
    rfl

theorem Shows.readExactly (hs : h.Shows cfg A) (n location : Nat) (access : Nat → Access) :
    ∃ h' answer, h.readExactly cfg n location access = some (h', answer)
      ∧ A.Right answer (.readExactly n location access)
      ∧ h'.Shows cfg (A.after (.readExactly n location access) answer) := by
  obtain ⟨file, hloop, hsame⟩ :=
    File.readPages_view access n location hs.coherent (Nat.le_refl n)
  unfold Handle.readExactly
  rw [hloop, hs.size, hs.segment (Nat.min_le_right _ _)]
  dsimp only
  rw [length_segment]
  refine ⟨_, _, rfl, ?_, hs.same hsame _⟩
  show _ = if n ≤ A.size - location then _ else _
  by_cases hn : n ≤ A.size - location
  · rw [if_pos hn, if_neg (by omega), Nat.min_eq_left hn]
  · rw [if_neg hn, if_pos (by omega)]

theorem Shows.writeExactly (hs : h.Shows cfg A) {bytes : List UInt8} {location : Nat}
    (access : Nat → Access) (hfits : h.file.WritesFit cfg bytes.length location) :
    ∃ h' answer, h.writeExactly cfg bytes location access = some (h', answer)
      ∧ A.Right answer (.writeExactly bytes location access)
      ∧ h'.Shows cfg (A.after (.writeExactly bytes location access) answer) := by
  unfold Handle.writeExactly
  cases hw : A.openForWriting with
  | true =>
    obtain ⟨file, hloop, hwritten⟩ := File.writePages_written access bytes.length hs.coherent
      (hs.writable.trans hw) hfits (Nat.le_refl _)
    rw [hloop]
    refine ⟨_, _, rfl, ?_, hs.written hwritten _⟩
    unfold Plain.Right
    rw [hw]
    rfl
  | false =>
    cases bytes with
    | nil =>
      refine ⟨_, _, rfl, ?_, hs.written (.nil hs.coherent location) _⟩
      unfold Plain.Right
      rw [hw]
      rfl
    | cons b bs =>
      have hmode := (File.SameBytes.makeRoom (access bs.length).evicted hs.coherent).mode.1
      have hloop : File.writePages cfg access (b :: bs).length h.file (b :: bs) location
          = some (h.file, .error "File is not opened in write mode") := by
        rw [List.length_cons, File.writePages, File.write, hmode, hs.writable, hw]
        rfl
      rw [hloop]
      refine ⟨_, _, rfl, ?_, hs⟩
      unfold Plain.Right
      rw [hw]
      rfl

/-- **One call**: it returns, answers as it should, and the file still shows its bytes. -/
theorem Shows.step (hs : h.Shows cfg A) (call : Call) (hfits : h.Fits cfg call) :
    ∃ h' answer, h.step cfg call = some (h', answer) ∧ A.Right answer call
      ∧ h'.Shows cfg (A.after call answer) := by
  cases call with
  | evict page =>
    exact ⟨_, _, rfl, rfl, hs.position ▸ hs.same (.evict hs.coherent page) h.filePosition⟩
  | flush => exact ⟨_, _, rfl, rfl, hs.position ▸ hs.same (.flush hs.coherent) h.filePosition⟩
  | seek location => exact ⟨_, _, rfl, rfl, hs.same (.refl hs.coherent) location⟩
  | read n offset access =>
    obtain ⟨hright, hsame⟩ := hs.readAt n offset access
    exact ⟨_, _, rfl, hright, hs.position ▸ hs.same hsame h.filePosition⟩
  | readNext n access =>
    obtain ⟨hright, hsame⟩ := hs.readAt n h.filePosition access
    refine ⟨_, _, rfl, ?_, ?_⟩
    · rw [hs.position] at hright ⊢
      exact hright
    · unfold Plain.after
      rw [← hs.position]
      exact hs.same hsame _
  | write bytes offset access =>
    rw [Handle.step]
    rcases hs.writeAt hfits with ⟨file, k, hwrite, hright, hwritten⟩ | ⟨e, hwrite, hright⟩
    · rw [hwrite]
      have hshows := hs.written hwritten h.filePosition
      exact ⟨_, _, rfl, hright, hs.position ▸ hshows⟩
    · rw [hwrite]
      exact ⟨_, _, rfl, hright, hs⟩
  | writeNext bytes access =>
    rw [Handle.step]
    rcases hs.writeAt hfits with ⟨file, k, hwrite, hright, hwritten⟩ | ⟨e, hwrite, hright⟩
    · rw [hwrite]
      refine ⟨_, _, rfl, hright, ?_⟩
      unfold Plain.after
      rw [← hs.position]
      exact hs.written hwritten _
    · rw [hwrite]
      exact ⟨_, _, rfl, hright, hs⟩
  | append bytes =>
    rw [Handle.step]
    cases hw : A.openForWriting with
    | true =>
      have hw' := hs.writable.trans hw
      obtain ⟨file, happend⟩ := File.append_of_writable cfg hw' bytes
      obtain ⟨hc, hmode, hsize, hview⟩ := File.append_view hs.coherent (hfits hw') happend
      rw [happend]
      have hwritten : h.file.Written cfg bytes h.file.fileSize file := by
        refine ⟨hc, hmode, .inr (Nat.le_refl _), ?_, hview⟩
        rw [hsize]
        split <;> omega
      refine ⟨_, _, rfl, ?_, ?_⟩
      · unfold Plain.Right
        rw [hw]
        rfl
      · have hshows := hs.written hwritten h.filePosition
        rw [hs.size] at hshows
        exact hs.position ▸ hshows
    | false =>
      refine ⟨h, .thrown "file is not opened in write mode", ?_, ?_, hs⟩
      · unfold File.append
        rw [hs.writable, hw]
        rfl
      · unfold Plain.Right
        rw [hw]
        rfl
  | truncate newSize =>
    rw [Handle.step]
    cases hw : A.openForWriting with
    | true =>
      have hw' := hs.writable.trans hw
      obtain ⟨file, htruncate⟩ := File.truncate_of_writable cfg hw' newSize
      obtain ⟨hc, hmode, hsize, hview⟩ :=
        File.truncate_view hs.coherent (hfits hw').1 (hfits hw').2 htruncate
      rw [htruncate]
      refine ⟨_, _, rfl, ?_, hc, hmode.1.trans hs.writable, hsize, ?_, hs.position⟩
      · unfold Plain.Right
        rw [hw]
        rfl
      · intro i hi
        refine (hview i hi).trans ?_
        show _ = if i < A.size then A.bytes i else 0
        rw [hs.size]
        split
        · next hend => exact hs.bytes i hend
        · rfl
    | false =>
      refine ⟨h, .thrown "file is not opened in write mode", ?_, ?_, hs⟩
      · unfold File.truncate
        rw [hs.writable, hw]
        rfl
      · unfold Plain.Right
        rw [hw]
        rfl
  | readExactly n location access => exact hs.readExactly n location access
  | writeExactly bytes location access => exact hs.writeExactly access hfits

theorem Shows.refines (calls : List Call) :
    ∀ {h : Handle} {A : Plain}, h.Shows cfg A → h.FitsThrough cfg calls →
      h.Refines cfg A calls := by
  induction calls with
  | nil => exact fun hs _ => hs.size
  | cons call calls ih =>
    intro h A hs hfits
    obtain ⟨h', answer, hstep, hright, hs'⟩ := hs.step call hfits.1
    have hrest := hfits.2
    unfold Refines
    rw [hstep] at hrest ⊢
    exact ⟨hs.size, hright, ih hs' hrest⟩

/-- The handle of a file that has just been opened. -/
def opened (openForWriting openForAppending : Bool) (size : Nat) (bytes : Nat → UInt8) : Handle :=
  ⟨.opened openForWriting openForAppending size bytes, 0⟩

/-- **A buffered file is its bytes**, in every run whose calls find what they rely on. -/
theorem file_is_its_bytes (cfg : Config) (openForWriting openForAppending : Bool) (size : Nat)
    (bytes : Nat → UInt8) (calls : List Call)
    (hfits : (opened openForWriting openForAppending size bytes).FitsThrough cfg calls) :
    (opened openForWriting openForAppending size bytes).Refines cfg
      ⟨openForWriting, size, bytes, 0⟩ calls :=
  Shows.refines calls ⟨File.coherent_opened openForWriting openForAppending size bytes, rfl, rfl,
    fun _ _ => rfl, rfl⟩ hfits

/-- A file that is open for appending, overwritten in a page that is then evicted. -/
theorem file_is_its_bytes_overwritten :
    (opened true true 1 fun _ => 5).Refines ⟨1, by decide⟩ ⟨true, 1, fun _ => 5, 0⟩
      [.writeExactly [7] 0 fun _ => ⟨[], fun _ => 0⟩, .evict 0,
        .readExactly 1 0 fun _ => ⟨[], fun _ => 0⟩] :=
  file_is_its_bytes _ _ _ _ _ _
    ⟨fun _ => .inr ⟨by decide, .inl (by decide)⟩, trivial, trivial, trivial⟩

/-- A write at the start of a file that is open for writing is put at its end. -/
theorem write_at_the_start_appends :
    ¬ ∀ (cfg : Config) (openForWriting openForAppending : Bool) (size : Nat)
        (bytes : Nat → UInt8) (calls : List Call),
      (opened openForWriting openForAppending size bytes).Refines cfg
        ⟨openForWriting, size, bytes, 0⟩ calls := by
  intro h
  have hrun := h ⟨1, by decide⟩ true false 1 (fun _ => 5)
    [.writeExactly [7] 0 fun _ => ⟨[], fun _ => 0⟩]
  have hsize : 2 = 1 := hrun.2.2
  exact absurd hsize (by decide)

end Handle

end Haybarn.Io.PagedFile
