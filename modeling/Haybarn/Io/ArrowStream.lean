import Haybarn.Io.FileView
import Haybarn.Lib.Run

/-!
# The stream that Arrow reads

`ArrowInputFileStream` (lib/src/io/arrow_ifstream.cc) is the input stream that Arrow sees of a file
in the page buffer. A read copies, or fixes a page and hands out a view of it; a peek keeps the
page that it has fixed. Arrow takes a short read for the end of the file (`Answer.Honours`).

No call goes beyond a page, and a view is all of its page from the position on, whatever has been
asked for: `PeekView` computes the number of bytes and does not use it. A second peek moves the page
that it has fixed to the first one, but not the view of it. Behind the end of the file there is no
page. `stream_honours` leaves this out (`Fine`).

Mirroring notes:
- The file is one in the page buffer, with its pages on the disk or in frames, as `PagedFile` has
  it; others may evict a page unless the stream has fixed it (`evict`).
- Positions are a `size_t` of 32 bits (`toSize`).
- A view of a page that is no longer fixed has what has been loaded into its frame since then
  (`memory`). A view that starts behind the data of its page is a failed check of `nonstd::span`,
  which terminates: that is no step.
- `answers` is not in the source.
-/

namespace Haybarn.Io.ArrowStream

open Haybarn.Lib Haybarn.Io.PagedFile

/-! ## The stream -/

/-- Where a `PageView` points to: the data of a page from `skip` on. -/
structure View where
  page : Nat
  skip : Nat
  size : Nat
  deriving DecidableEq, Repr

/-- What a call has returned, at a position and for a number of bytes, and the position then. -/
inductive Answer
  | read (position nbytes : Nat) (bytes : List UInt8) (after : Nat)
  | peeked (position nbytes : Nat) (bytes : List UInt8) (after : Nat)
  | advanced (position nbytes after : Nat)
  deriving DecidableEq, Repr

structure Stream where
  file : File
  file_position : Nat
  /-- The page that is fixed, and the view. -/
  tmp_page : Option (Nat × View)
  answers : List Answer

/-- The conversion to `size_t`. -/
def toSize (n : Nat) : Nat := n % 4294967296

namespace Stream

variable (cfg : Config) (s : Stream)

def moveTo (file_position : Nat) : Stream := { s with file_position := toSize file_position }

def answer (a : Answer) : Stream := { s with answers := s.answers ++ [a] }

/-- `Read` into a buffer. -/
def ReadOut (nbytes : Nat) (stale : Nat → UInt8) : Stream :=
  let (file, bytes) := s.file.read cfg nbytes s.file_position stale
  let moved := { s with file, tmp_page := none }.moveTo (s.file_position + bytes.length)
  moved.answer (.read s.file_position nbytes bytes moved.file_position)

/-- The bytes of a view of a frame. -/
def viewed (F : Frame) (v : View) : List UInt8 := segment F.buffer v.skip v.size

/-- `PeekView`, which does not use the number of bytes: the view, and the frame that it is of. -/
def PeekView (stale : Nat → UInt8) : Option (File × View × Frame) :=
  let page_id := s.file_position >>> cfg.pageSizeBits
  let skip_here := s.file_position - page_id * cfg.pageSize
  let file := s.file.fixPage cfg page_id stale
  (file.frame page_id).bind fun F =>
    if skip_here ≤ F.dataSize then
      some (file, { page := page_id, skip := skip_here, size := F.dataSize - skip_here }, F)
    else none

/-- `Read` without a copy. -/
def Read (nbytes : Nat) (stale : Nat → UInt8) : Option Stream :=
  (s.PeekView cfg stale).map fun (file, view, F) =>
    let moved := { s with file }.moveTo (s.file_position + view.size)
    moved.answer (.read s.file_position nbytes (viewed F view) moved.file_position)

def Advance (nbytes : Nat) : Stream :=
  let moved := { s with tmp_page := none }.moveTo (s.file_position + nbytes)
  moved.answer (.advanced s.file_position nbytes moved.file_position)

/-- The assignment to `tmp_page_` takes the view only if there is none. -/
def Peek (nbytes : Nat) (stale memory : Nat → UInt8) : Option Stream :=
  (s.PeekView cfg stale).map fun (file, view, F) =>
    let kept := match s.tmp_page with
      | none => view
      | some (_, old) => old
    let bytes := if kept.page = view.page then viewed F kept else segment memory 0 kept.size
    { s with file, tmp_page := some (view.page, kept) }.answer
      (.peeked s.file_position nbytes bytes s.file_position)

end Stream

inductive Event
  | ReadOut (nbytes : Nat) (stale : Nat → UInt8)
  | Read (nbytes : Nat) (stale : Nat → UInt8)
  | Peek (nbytes : Nat) (stale memory : Nat → UInt8)
  | Advance (nbytes : Nat)
  | evict (page : Nat)

def step (cfg : Config) (s : Stream) : Event → Option Stream
  | .ReadOut nbytes stale => some (s.ReadOut cfg nbytes stale)
  | .Read nbytes stale => s.Read cfg nbytes stale
  | .Peek nbytes stale memory => s.Peek cfg nbytes stale memory
  | .Advance nbytes => some (s.Advance nbytes)
  | .evict page =>
    if s.tmp_page.map (·.1) = some page then none
    else some { s with file := s.file.evict cfg page }

/-- The constructor. -/
def initial (file : File) : Stream := ⟨file, 0, none, []⟩

/-! ## The contract -/

/-- At most so many bytes, those of the file, and fewer only at its end. -/
structure Returns (c : Contents) (position nbytes : Nat) (bytes : List UInt8) : Prop where
  at_most : bytes.length ≤ nbytes
  correct : bytes = segment c.bytes position bytes.length
  inside : bytes.length = 0 ∨ position + bytes.length ≤ c.size
  short : bytes.length < nbytes → c.size ≤ position + bytes.length

/-- A read moves the position by what it returns, a peek does not move it. -/
def Answer.Honours (c : Contents) : Answer → Prop
  | .read position nbytes bytes after =>
    Returns c position nbytes bytes ∧ after = position + bytes.length
  | .peeked position nbytes bytes after => Returns c position nbytes bytes ∧ after = position
  | .advanced position nbytes after => after = position + nbytes

/-- What the stream is of. -/
def contentsOf (cfg : Config) (file : File) : Contents := ⟨file.fileSize, file.view cfg⟩

/-! ## When it is kept -/

/-- What is left of the page at the position. -/
def Stream.rest (cfg : Config) (s : Stream) : Nat := cfg.pageSize - s.file_position % cfg.pageSize

/-- What is left of it, of the file. -/
def Stream.available (cfg : Config) (s : Stream) : Nat :=
  min (s.file.fileSize - s.file_position) (s.rest cfg)

/-- The page has just as many bytes as are wanted, or fewer and is the last one. -/
def Stream.PageFits (cfg : Config) (s : Stream) (nbytes : Nat) : Prop :=
  s.file_position ≤ s.file.fileSize ∧ s.available cfg ≤ nbytes ∧
    (s.available cfg = nbytes ∨ s.file.fileSize ≤ s.file_position + s.available cfg)

def Fine (cfg : Config) (s : Stream) : Event → Prop
  | .ReadOut nbytes _ =>
    (nbytes ≤ s.rest cfg ∨ s.file.fileSize ≤ s.file_position + s.rest cfg) ∧
      s.file_position + min nbytes (s.available cfg) < 4294967296
  | .Read nbytes _ => s.PageFits cfg nbytes ∧ s.file_position + s.available cfg < 4294967296
  | .Peek nbytes _ _ => s.PageFits cfg nbytes ∧
    ∀ x ∈ s.tmp_page, x.2.page * cfg.pageSize + x.2.skip = s.file_position
  | .Advance nbytes => s.file_position + nbytes < 4294967296
  | .evict _ => True

instance (cfg : Config) (s : Stream) : ∀ e, Decidable (Fine cfg s e)
  | .ReadOut _ _ => inferInstanceAs (Decidable (_ ∧ _))
  | .Read _ _ => inferInstanceAs (Decidable ((_ ∧ _ ∧ _) ∧ _))
  | .Peek _ _ _ => inferInstanceAs (Decidable ((_ ∧ _ ∧ _) ∧ ∀ x ∈ s.tmp_page, _))
  | .Advance _ => inferInstanceAs (Decidable (_ < _))
  | .evict _ => inferInstanceAs (Decidable True)

variable {cfg : Config} {s s' : Stream} {c : Contents}

/-! ### A view of a page -/

/-- What `PeekView` fixes: the rest of the page, as far as the file goes. -/
theorem peekView_spec (hc : s.file.Coherent cfg) (hpos : s.file_position ≤ s.file.fileSize)
    (stale : Nat → UInt8) : ∃ file F,
      s.PeekView cfg stale = some (file,
        ⟨s.file_position / cfg.pageSize, s.file_position % cfg.pageSize, s.available cfg⟩, F) ∧
      s.file.SameBytes cfg file ∧
      segment F.buffer (s.file_position % cfg.pageSize) (s.available cfg) =
        segment (s.file.view cfg) s.file_position (s.available cfg) := by
  have hmod := cfg.page_add_mod s.file_position
  have hlt := Nat.mod_lt s.file_position cfg.pageSize_pos
  have hsame : s.file.SameBytes cfg
      (s.file.fixPage cfg (s.file_position / cfg.pageSize) stale) :=
    .fixPage hc (fun _ => by omega) stale
  obtain ⟨F, hF⟩ := @File.frame_fixPage cfg s.file (s.file_position / cfg.pageSize) stale
  have hsize := hsame.coherent.dataSize hF
  rw [hsame.fileSize] at hsize
  have hskip : s.file_position - s.file_position / cfg.pageSize * cfg.pageSize =
      s.file_position % cfg.pageSize := by omega
  have havail : F.dataSize - s.file_position % cfg.pageSize = s.available cfg := by
    unfold Stream.available Stream.rest
    omega
  refine ⟨_, F, ?_, hsame, ?_⟩
  · unfold Stream.PeekView
    dsimp only
    rw [cfg.shiftRight_eq, hF, Option.bind_some, hskip, if_pos (by omega), havail]
  · unfold Lib.segment
    refine List.map_congr_left fun i hi => ?_
    have hi := List.mem_range.mp hi
    have hin : i < min (s.file.fileSize - s.file_position) (s.rest cfg) := hi
    have hrest : s.rest cfg = cfg.pageSize - s.file_position % cfg.pageSize := rfl
    have hsum : s.file_position / cfg.pageSize * cfg.pageSize +
        (s.file_position % cfg.pageSize + i) = s.file_position + i := by omega
    rw [← hsame.view (s.file_position + i) (by omega), ← hsum]
    exact (File.view_page hF (by omega)).symm

/-! ### Every call -/

structure Inv (cfg : Config) (c : Contents) (s : Stream) : Prop where
  coherent : s.file.Coherent cfg
  fileSize : s.file.fileSize = c.size
  view : ∀ i, i < c.size → s.file.view cfg i = c.bytes i
  /-- A view is of the page that is fixed, and is what is left of it. -/
  tmp : ∀ x ∈ s.tmp_page, x.2.skip < cfg.pageSize ∧
    x.2.size = min (c.size - (x.2.page * cfg.pageSize + x.2.skip)) (cfg.pageSize - x.2.skip)
  answers : ∀ a ∈ s.answers, a.Honours c

theorem inv_initial {file : File} (hc : file.Coherent cfg) :
    Inv cfg (contentsOf cfg file) (initial file) where
  coherent := hc
  fileSize := rfl
  view := fun _ _ => rfl
  tmp := fun x hx => absurd hx (Option.not_mem_none x)
  answers := fun _ ha => absurd ha List.not_mem_nil

/-- The file has stayed what it is, and one more call has been answered. -/
theorem Inv.answered (hs : Inv cfg c s) {file : File} {tmp_page : Option (Nat × View)}
    {file_position : Nat} {a : Answer} (hsame : s.file.SameBytes cfg file)
    (htmp : ∀ x ∈ tmp_page, x.2.skip < cfg.pageSize ∧
      x.2.size = min (c.size - (x.2.page * cfg.pageSize + x.2.skip)) (cfg.pageSize - x.2.skip))
    (ha : a.Honours c) :
    Inv cfg c { file, file_position, tmp_page, answers := s.answers ++ [a] } where
  coherent := hsame.coherent
  fileSize := hsame.fileSize.trans hs.fileSize
  view := fun i hi => (hsame.view i (hs.fileSize ▸ hi)).trans (hs.view i hi)
  tmp := htmp
  answers := fun x hx => by
    obtain hx | hx := List.mem_append.mp hx
    · exact hs.answers x hx
    · rw [List.mem_singleton] at hx
      exact hx ▸ ha

/-- A part of the file at the position is returned as it should be. -/
theorem Inv.returns (hs : Inv cfg c s) {nbytes k : Nat} (hk : k ≤ nbytes)
    (hin : k = 0 ∨ s.file_position + k ≤ c.size)
    (hshort : k < nbytes → c.size ≤ s.file_position + k) :
    Returns c s.file_position nbytes (segment (s.file.view cfg) s.file_position k) := by
  have hlen : (segment (s.file.view cfg) s.file_position k).length = k := length_segment
  refine ⟨by omega, ?_, ?_, ?_⟩
  · rw [hlen]
    exact segment_congr fun i _ hi => hs.view i (by omega)
  · rw [hlen]
    exact hin
  · rw [hlen]
    exact hshort

/-- A view that fits is returned as it should be. -/
theorem Inv.fits (hs : Inv cfg c s) {nbytes : Nat} (hfits : s.PageFits cfg nbytes) :
    Returns c s.file_position nbytes
      (segment (s.file.view cfg) s.file_position (s.available cfg)) := by
  obtain ⟨hpos, hle, hend⟩ := hfits
  have hsize := hs.fileSize
  have havail : s.available cfg ≤ s.file.fileSize - s.file_position := Nat.min_le_left _ _
  refine hs.returns hle (by omega) fun hlt => ?_
  obtain hsome | hend := hend
  · omega
  · omega

theorem inv_readOut {nbytes : Nat} {stale : Nat → UInt8} (hs : Inv cfg c s)
    (hok : Fine cfg s (.ReadOut nbytes stale)) : Inv cfg c (s.ReadOut cfg nbytes stale) := by
  obtain ⟨hfits, hroom⟩ := hok
  obtain ⟨hsame, hbytes⟩ := File.read_view hs.coherent nbytes s.file_position stale
  have hsize := hs.fileSize
  have hcount : s.file.readCount cfg nbytes s.file_position = min nbytes (s.available cfg) := by
    unfold File.readCount Stream.available Stream.rest
    omega
  rw [hcount] at hbytes
  have hlen : (s.file.read cfg nbytes s.file_position stale).2.length =
      min nbytes (s.available cfg) := by
    rw [hbytes]
    exact length_segment
  have havail : s.available cfg = min (s.file.fileSize - s.file_position) (s.rest cfg) := rfl
  have hreturns : Returns c s.file_position nbytes
      (s.file.read cfg nbytes s.file_position stale).2 := by
    rw [hbytes]
    refine hs.returns (Nat.min_le_left _ _) (by omega) fun hlt => ?_
    obtain hin | hend := hfits
    · omega
    · omega
  have hmoved : toSize (s.file_position +
      (s.file.read cfg nbytes s.file_position stale).2.length) =
      s.file_position + (s.file.read cfg nbytes s.file_position stale).2.length :=
    Nat.mod_eq_of_lt (by omega)
  clear hbytes hlen
  unfold Stream.ReadOut
  generalize s.file.read cfg nbytes s.file_position stale = r at *
  obtain ⟨file, bytes⟩ := r
  exact hs.answered hsame (fun x hx => absurd hx (Option.not_mem_none x)) ⟨hreturns, hmoved⟩

theorem inv_read {nbytes : Nat} {stale : Nat → UInt8} (hs : Inv cfg c s)
    (hok : Fine cfg s (.Read nbytes stale)) (hstep : s.Read cfg nbytes stale = some s') :
    Inv cfg c s' := by
  obtain ⟨hfits, hroom⟩ := hok
  obtain ⟨file, F, hview, hsame, hbytes⟩ := peekView_spec hs.coherent hfits.1 stale
  unfold Stream.Read at hstep
  rw [hview, Option.map_some] at hstep
  obtain rfl := Option.some.inj hstep
  refine hs.answered hsame hs.tmp ⟨?_, ?_⟩
  · show Returns c _ nbytes (segment F.buffer _ _)
    rw [hbytes]
    exact hs.fits hfits
  · show toSize _ = _ + (segment F.buffer _ _).length
    rw [length_segment]
    exact Nat.mod_eq_of_lt hroom

/-- The view that a peek keeps is the new one, if it has the same position. -/
theorem kept_view (hs : Inv cfg c s)
    (htmp : ∀ x ∈ s.tmp_page, x.2.page * cfg.pageSize + x.2.skip = s.file_position)
    {x : Nat × View} (hx : x ∈ s.tmp_page) : x.2 =
      ⟨s.file_position / cfg.pageSize, s.file_position % cfg.pageSize, s.available cfg⟩ := by
  obtain ⟨hskip, hsize⟩ := hs.tmp x hx
  have hat := htmp x hx
  obtain ⟨hpage, hmod⟩ := @Config.of_page cfg x.2.page s.file_position (by omega) (by omega)
  have hback : s.file_position - x.2.page * cfg.pageSize = x.2.skip := by omega
  have hrest : x.2.size = s.available cfg := by
    rw [hsize, hat, ← hs.fileSize, ← hback, ← hmod]
    rfl
  rw [hpage, hmod, hback, ← hrest]

theorem inv_peek {nbytes : Nat} {stale memory : Nat → UInt8} (hs : Inv cfg c s)
    (hok : Fine cfg s (.Peek nbytes stale memory))
    (hstep : s.Peek cfg nbytes stale memory = some s') : Inv cfg c s' := by
  obtain ⟨hfits, htmp⟩ := hok
  obtain ⟨file, F, hview, hsame, hbytes⟩ := peekView_spec hs.coherent hfits.1 stale
  have hlt := Nat.mod_lt s.file_position cfg.pageSize_pos
  have hmod := cfg.page_add_mod s.file_position
  have hview' : ∀ x ∈ some (s.file_position / cfg.pageSize, View.mk (s.file_position /
      cfg.pageSize) (s.file_position % cfg.pageSize) (s.available cfg)),
      x.2.skip < cfg.pageSize ∧ x.2.size =
        min (c.size - (x.2.page * cfg.pageSize + x.2.skip)) (cfg.pageSize - x.2.skip) := by
    intro x hx
    obtain rfl := Option.some.inj hx
    refine ⟨hlt, ?_⟩
    dsimp only
    rw [hmod, ← hs.fileSize]
    rfl
  have hreturns := hs.fits hfits
  rw [← hbytes] at hreturns
  unfold Stream.Peek at hstep
  rw [hview, Option.map_some] at hstep
  obtain rfl := Option.some.inj hstep
  cases hold : s.tmp_page with
  | none =>
    dsimp only
    rw [if_pos rfl]
    exact hs.answered hsame hview' ⟨hreturns, rfl⟩
  | some x =>
    dsimp only
    rw [kept_view hs htmp hold, if_pos rfl]
    exact hs.answered hsame hview' ⟨hreturns, rfl⟩

theorem inv_step {e : Event} (hs : Inv cfg c s) (hok : Fine cfg s e)
    (hstep : step cfg s e = some s') : Inv cfg c s' := by
  cases e with
  | ReadOut nbytes stale =>
    obtain rfl := Option.some.inj hstep
    exact inv_readOut hs hok
  | Read nbytes stale => exact inv_read hs hok hstep
  | Peek nbytes stale memory => exact inv_peek hs hok hstep
  | Advance nbytes =>
    obtain rfl := Option.some.inj hstep
    exact hs.answered (.refl hs.coherent) (fun x hx => absurd hx (Option.not_mem_none x))
      (Nat.mod_eq_of_lt hok)
  | evict page =>
    simp only [step] at hstep
    split at hstep
    next => cases hstep
    next =>
      obtain rfl := Option.some.inj hstep
      have hsame := File.SameBytes.evict hs.coherent page
      exact ⟨hsame.coherent, hsame.fileSize.trans hs.fileSize,
        fun i hi => (hsame.view i (hs.fileSize ▸ hi)).trans (hs.view i hi), hs.tmp, hs.answers⟩

/-- **Over every run of calls that find what is left of a page just large enough, the stream keeps
its contract**: each call has returned the bytes at the position, as many as were asked for but at
the end of the file, and has moved the position by what it returned. -/
theorem stream_honours {file : File} {es : List Event} (hc : file.Coherent cfg)
    (hrun : Run (step cfg) (Fine cfg) (initial file) es s) :
    ∀ a ∈ s.answers, a.Honours (contentsOf cfg file) :=
  (hrun.invariant (inv_initial hc) fun _ _ _ => inv_step).answers

theorem one_lt_31 : 1 < 31 := by decide

/-- Pages of two bytes. -/
def pairs : Config := ⟨1, one_lt_31⟩

def threeBytes : File := .opened false false 3 fun i => [1, 2, 3].getD i 0

/-- Three bytes are peeked at and read, page by page. -/
theorem stream_honours_pages : ∃ s,
    Run (step pairs) (Fine pairs) (initial threeBytes)
      [.Peek 2 (fun _ => 9) (fun _ => 9), .Read 2 (fun _ => 9), .Advance 0,
        .Peek 5 (fun _ => 9) (fun _ => 9), .evict 0, .ReadOut 4 (fun _ => 9)] s ∧
    s.answers = [.peeked 0 2 [1, 2] 0, .read 0 2 [1, 2] 2, .advanced 2 0 2, .peeked 2 5 [3] 2,
      .read 2 4 [3] 3] ∧
    ∀ a ∈ s.answers, a.Honours (contentsOf pairs threeBytes) := by
  obtain ⟨s, hrun, hanswers⟩ := Run.exists_of_execute
    (show (execute (step pairs) (Fine pairs) (initial threeBytes)
        [.Peek 2 (fun _ => 9) (fun _ => 9), .Read 2 (fun _ => 9), .Advance 0,
          .Peek 5 (fun _ => 9) (fun _ => 9), .evict 0, .ReadOut 4 (fun _ => 9)]).map
      (fun s => decide (s.answers = [.peeked 0 2 [1, 2] 0, .read 0 2 [1, 2] 2, .advanced 2 0 2,
        .peeked 2 5 [3] 2, .read 2 4 [3] 3])) = some true by decide +kernel)
  exact ⟨s, hrun, of_decide_eq_true hanswers,
    stream_honours (File.coherent_opened false false 3 _) hrun⟩

/-- One byte is asked for, and two are returned. -/
theorem view_is_too_long : ∃ s,
    Run (step pairs) Always (initial threeBytes) [.Read 1 (fun _ => 9)] s ∧
    Answer.read 0 1 [1, 2] 2 ∈ s.answers ∧
    ¬ ∀ a ∈ s.answers, a.Honours (contentsOf pairs threeBytes) := by
  obtain ⟨s, hrun, hanswers⟩ := Run.exists_of_execute
    (show (execute (step pairs) Always (initial threeBytes) [.Read 1 (fun _ => 9)]).map
      (fun s => decide (Answer.read 0 1 [1, 2] 2 ∈ s.answers)) = some true by decide +kernel)
  have hmem := of_decide_eq_true hanswers
  refine ⟨s, hrun, hmem, fun h => ?_⟩
  have hmost : 2 ≤ 1 := (h _ hmem).1.at_most
  omega

end Haybarn.Io.ArrowStream
