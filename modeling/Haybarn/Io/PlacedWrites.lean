import Haybarn.Io.FileRefines

/-!
# Where writes go

A file that is not open for appending is only ever appended to: a write to it is a write at its
end, wherever it is meant to go (`Handle.step_placed`). A call `Keeps` the bytes of the file if it
finds what it relies on where it goes; a call that `Fits` does.

A file all of whose frames have been flushed and discarded is what is on the disk (`view_discard`).
-/

namespace Haybarn.Io.PagedFile

open Haybarn.Lib

variable {cfg : Config}

def File.place (s : File) (offset : Nat) : Nat := if s.openForAppending then offset else s.fileSize

/-- The call as the file takes it, and the handle for it. -/
def Handle.placed (h : Handle) : Call → Handle × Call
  | .write bytes offset access => (h, .write bytes (h.file.place offset) access)
  | .writeNext bytes access => (⟨h.file, h.file.place h.filePosition⟩, .writeNext bytes access)
  | .writeExactly bytes location access =>
    (h, .writeExactly bytes (h.file.place location) access)
  | c => (h, c)

/-- The call finds what it relies on where it goes. -/
def Handle.Keeps (cfg : Config) (h : Handle) (c : Call) : Prop :=
  (h.placed c).1.Fits cfg (h.placed c).2

namespace File

/-! ## Making room -/

theorem flushFrame_keeps (s : File) (page : Nat) :
    s.SameMode (s.flushFrame cfg page) ∧ (s.flushFrame cfg page).fileSize = s.fileSize := by
  unfold File.flushFrame
  split
  · split <;> exact ⟨⟨rfl, rfl⟩, rfl⟩
  · exact ⟨.refl s, rfl⟩

theorem makeRoom_keeps (evicted : List Nat) : ∀ s : File,
    s.SameMode (s.makeRoom cfg evicted) ∧ (s.makeRoom cfg evicted).fileSize = s.fileSize := by
  induction evicted with
  | nil => exact fun s => ⟨.refl s, rfl⟩
  | cons page evicted ih =>
    intro s
    have hflush := @flushFrame_keeps cfg s page
    have hrest := ih (s.evict cfg page)
    exact ⟨hflush.1.trans hrest.1, hrest.2.trans hflush.2⟩

theorem place_makeRoom (s : File) (evicted : List Nat) (offset : Nat) :
    (s.makeRoom cfg evicted).place offset = s.place offset := by
  obtain ⟨hmode, hsize⟩ := @makeRoom_keeps cfg evicted s
  unfold place
  rw [hmode.2, hsize]

theorem mem_pages_discard {evicted : List Nat} {q : Nat} :
    ∀ {s : File}, q ∈ (s.makeRoom cfg evicted).pages → q ∈ s.pages ∧ q ∉ evicted := by
  induction evicted with
  | nil => exact fun h => ⟨h, List.not_mem_nil⟩
  | cons page evicted ih =>
    intro s h
    obtain ⟨hq, hnot⟩ := ih h
    have hne : q ≠ page := by
      obtain ⟨x, hx, rfl⟩ := List.mem_map.mp hq
      exact of_decide_eq_true (List.mem_filter.mp hx).2
    refine ⟨mem_pages_evict hq, ?_⟩
    rw [List.mem_cons, not_or]
    exact ⟨hne, hnot⟩

/-- Without frames, the bytes of the file are those on the disk. -/
theorem view_discard (s : File) (i : Nat) :
    (s.makeRoom cfg s.pages).view cfg i = (s.makeRoom cfg s.pages).disk i := by
  refine view_of_none ?_
  cases hF : (s.makeRoom cfg s.pages).frame (i / cfg.pageSize) with
  | none => rfl
  | some F =>
    have hmem := List.mem_map_of_mem (f := (·.1)) (mem_of_frame hF)
    obtain ⟨hin, hout⟩ := mem_pages_discard hmem
    exact absurd hin hout

/-! ## Writes -/

variable {s : File}

theorem write_place (bytes : List UInt8) (offset : Nat) (stale : Nat → UInt8) :
    s.write cfg bytes (s.place offset) stale = s.write cfg bytes offset stale := by
  cases happ : s.openForAppending with
  | true => rw [place, happ, if_pos rfl]
  | false =>
    -- the offset is not looked at
    unfold File.write
    rw [happ]
    rfl

/-- What an append to a file that is not open for appending leaves to be written. -/
theorem writePages_place (access : Nat → Access) (fuel : Nat) (bytes : List UInt8)
    (location : Nat) :
    writePages cfg access fuel s bytes (s.place location)
      = writePages cfg access fuel s bytes location := by
  cases happ : s.openForAppending with
  | true => rw [place, happ, if_pos rfl]
  | false =>
    cases bytes with
    | nil =>
      unfold writePages
      rfl
    | cons b bs =>
      cases fuel with
      | zero =>
        unfold writePages
        rfl
      | succ fuel =>
        unfold writePages
        rw [← @place_makeRoom cfg s (access fuel).evicted location, write_place]
        cases hwrite : (s.makeRoom cfg (access fuel).evicted).write cfg (b :: bs) location
            (access fuel).stale with
        | error e => rfl
        | ok r =>
          -- everything has been appended
          have hn := write_ok hwrite
          have happ' := (@makeRoom_keeps cfg (access fuel).evicted s).1.2.trans happ
          rw [happ'] at hn
          have hn : r.2 = (b :: bs).length := hn
          dsimp only
          rw [hn, List.drop_length]
          unfold writePages
          rfl

end File

namespace Handle

open File

variable {h : Handle}

/-- **A call does to the file what the call does that the file takes it as.** -/
theorem step_placed (h : Handle) (c : Call) :
    (h.step cfg c).map (fun r => (r.1.file, r.2))
      = ((h.placed c).1.step cfg (h.placed c).2).map fun r => (r.1.file, r.2) := by
  cases c with
  | write bytes offset access =>
    have hwrite : h.writeAt cfg bytes (h.file.place offset) access
        = h.writeAt cfg bytes offset access := by
      unfold Handle.writeAt
      rw [← @place_makeRoom cfg h.file access.evicted offset, write_place]
    unfold placed Handle.step
    dsimp only
    rw [hwrite]
  | writeNext bytes access =>
    have hwrite : Handle.writeAt cfg ⟨h.file, h.file.place h.filePosition⟩ bytes
        (h.file.place h.filePosition) access = h.writeAt cfg bytes h.filePosition access := by
      unfold Handle.writeAt
      dsimp only
      rw [← @place_makeRoom cfg h.file access.evicted h.filePosition, write_place]
    unfold placed Handle.step
    dsimp only
    rw [hwrite]
    cases h.writeAt cfg bytes h.filePosition access <;> rfl
  | writeExactly bytes location access =>
    unfold placed Handle.step Handle.writeExactly
    dsimp only
    rw [writePages_place]
    cases writePages cfg access bytes.length h.file bytes location with
    | none => rfl
    | some r =>
      obtain ⟨file, answer⟩ := r
      cases answer <;> rfl
  | _ => rfl

theorem writeFits_place {s : File} {n offset : Nat} (hfits : s.WriteFits cfg n offset) :
    s.WriteFits cfg n (s.place offset) := by
  cases happ : s.openForAppending with
  | true =>
    rw [place, happ, if_pos rfl]
    exact hfits
  | false =>
    intro hw
    have hfits := hfits hw
    rw [happ] at hfits ⊢
    rw [place, happ, if_neg Bool.false_ne_true]
    exact ⟨.inr rfl, hfits.2⟩

/-- A call that fits does where it goes. -/
theorem Fits.keeps {c : Call} (hfits : h.Fits cfg c) : h.Keeps cfg c := by
  unfold Keeps placed
  cases c with
  | write bytes offset access =>
    have hfits := writeFits_place hfits
    rw [place_makeRoom] at hfits
    exact hfits
  | writeNext bytes access =>
    have hfits := writeFits_place hfits
    rw [place_makeRoom] at hfits
    exact hfits
  | writeExactly bytes location access =>
    intro hw
    refine (hfits hw).imp_right fun hfits => ?_
    cases happ : h.file.openForAppending with
    | true =>
      rw [place, happ, if_pos rfl, if_pos rfl]
      rw [happ, if_pos rfl] at hfits
      exact hfits
    | false =>
      rw [happ, if_neg Bool.false_ne_true] at hfits
      rw [place, happ, if_neg Bool.false_ne_true, if_neg Bool.false_ne_true]
      exact ⟨rfl, hfits.2⟩
  | _ => exact hfits

/-- The bytes of the file, for the call as the file takes it. -/
def plain (cfg : Config) (h : Handle) (c : Call) : Plain :=
  ⟨h.file.openForWriting, h.file.fileSize, h.file.view cfg, (h.placed c).1.filePosition⟩

theorem placed_file (h : Handle) (c : Call) : (h.placed c).1.file = h.file := by
  cases c <;> rfl

/-- **After a call that keeps its bytes, the file shows what the call makes of them.** -/
theorem keeps_shows {c : Call} {h' : Handle} {answer : Answer} (hc : h.file.Coherent cfg)
    (hkeeps : h.Keeps cfg c) (hstep : h.step cfg c = some (h', answer)) :
    ∃ position, Shows cfg ⟨h'.file, position⟩ ((h.plain cfg c).after (h.placed c).2 answer) := by
  have hfile := h.placed_file c
  have hshows : Shows cfg (h.placed c).1 (h.plain cfg c) := by
    refine ⟨hfile ▸ hc, congrArg _ hfile, congrArg _ hfile, fun i _ => ?_, rfl⟩
    rw [hfile]
    rfl
  obtain ⟨h'', answer'', hplaced, -, hafter⟩ := hshows.step (h.placed c).2 hkeeps
  have hsame := @step_placed cfg h c
  rw [hstep, hplaced] at hsame
  injection Option.some.inj hsame with hfiles hanswers
  dsimp only at hfiles hanswers
  rw [hfiles, hanswers]
  exact ⟨h''.filePosition, hafter⟩

end Handle

end Haybarn.Io.PagedFile
