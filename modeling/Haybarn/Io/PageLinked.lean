import Haybarn.Io.PageBuffer

/-!
# The structures of the page buffer agree

Where a frame is, is kept five times: in the dictionary, in one of two queues, in the list
of its file, and as positions in the frame itself. `Linked` says that these agree, and that
the file ids in use and the free ones are what the files say. Each operation of the pool
keeps it.

`Represents` is the same in the words of the source's data structures: what a reader would
check in a debugger.
-/

namespace Haybarn.Io.PageBuffer

open Haybarn.Lib

namespace Pool

variable (P : Pool)

def fifoPos (g : Nat) : Option Nat := (P.frames g).bind Frame.fifoPosition

def lruPos (g : Nat) : Option Nat := (P.frames g).bind Frame.lruPosition

/-- The position of a frame in the list of the file `f`. -/
def filePos (f g : Nat) : Option Nat :=
  if GetFileID g = f then (P.frames g).map Frame.filePosition else none

end Pool

/-- The files are known under their paths, and no free id is the id of a file. -/
structure Registered (P : Pool) : Prop where
  named : ∀ path f, P.filesByName path = some f ↔ (P.files f).map File.path = some path
  freeNodup : P.freeFileIds.Nodup
  free : ∀ f ∈ P.freeFileIds, P.files f = none ∧ f < P.allocatedFileIds
  allocated : ∀ f, P.files f ≠ none → f < P.allocatedFileIds
  bound : P.allocatedFileIds ≤ maxFileId

/-- The structures agree. -/
structure Linked (P : Pool) : Prop where
  fifo : P.fifo.Tracks P.fifoPos
  lru : P.lru.Tracks P.lruPos
  queued : ∀ {g F}, P.frames g = some F → (F.fifoPosition = none ↔ F.lruPosition ≠ none)
  listed : ∀ {f file}, P.files f = some file → file.frames.Tracks (P.filePos f)
  live : ∀ {g F}, P.frames g = some F → P.files (GetFileID g) ≠ none
  registered : Registered P

/-- **The representation invariant**: each frame is in exactly one of the two queues, once,
at the position it stores; the queues hold nothing else; the list of each file holds that
file's frames, each once, and nothing else; the file of a frame is there; a free file id is
the id of no file. -/
structure Represents (P : Pool) : Prop where
  frame : ∀ {g F}, P.frames g = some F →
    (∃ k, F.fifoPosition = some k ∧ F.lruPosition = none ∧ P.fifo.get? k = some g ∧
      P.fifo.values.count g = 1 ∧ P.lru.values.count g = 0) ∨
    (∃ k, F.lruPosition = some k ∧ F.fifoPosition = none ∧ P.lru.get? k = some g ∧
      P.lru.values.count g = 1 ∧ P.fifo.values.count g = 0)
  queue : ∀ g, g ∈ P.fifo.values ∨ g ∈ P.lru.values → P.frames g ≠ none
  list : ∀ {f file}, P.files f = some file → ∀ g,
    g ∈ file.frames.values ↔ P.frames g ≠ none ∧ GetFileID g = f
  listPosition : ∀ {g F file}, P.frames g = some F → P.files (GetFileID g) = some file →
    file.frames.get? F.filePosition = some g ∧ file.frames.values.count g = 1
  live : ∀ g, P.frames g ≠ none → P.files (GetFileID g) ≠ none
  free : ∀ f ∈ P.freeFileIds, P.files f = none

/-- Nothing about the files changes but their contents. -/
theorem Registered.congr {P P' : Pool} (h : Registered P)
    (hpath : ∀ f, (P'.files f).map File.path = (P.files f).map File.path)
    (hname : P'.filesByName = P.filesByName) (hfree : P'.freeFileIds = P.freeFileIds)
    (hids : P'.allocatedFileIds = P.allocatedFileIds) : Registered P' := by
  have hnone : ∀ f, P'.files f = none ↔ P.files f = none := by
    intro f
    rw [← Option.map_eq_none_iff (f := File.path), hpath, Option.map_eq_none_iff]
  refine ⟨fun path f => ?_, hfree ▸ h.freeNodup, fun f hf => ?_, fun f hf => ?_, hids ▸ h.bound⟩
  · rw [hname, hpath]
    exact h.named path f
  · rw [hnone, hids]
    exact h.free f (hfree ▸ hf)
  · rw [hids]
    exact h.allocated f fun hn => hf ((hnone f).mpr hn)

namespace Linked

variable {P : Pool} {g f : Nat} {F : Frame} {file : File}

theorem represents (h : Linked P) : Represents P where
  frame := by
    intro g F hF
    cases hfifo : F.fifoPosition with
    | some k =>
      have hlru : F.lruPosition = none := by
        by_contra hne
        exact nomatch hfifo.symm.trans ((h.queued hF).mpr hne)
      have hk : P.fifoPos g = some k := by rw [Pool.fifoPos, hF, Option.bind_some, hfifo]
      have hnone : P.lruPos g = none := by rw [Pool.lruPos, hF, Option.bind_some, hlru]
      exact .inl ⟨k, rfl, hlru, h.fifo.get? hk, h.fifo.count hk, h.lru.count_eq_zero hnone⟩
    | none =>
      obtain ⟨k, hlru⟩ := Option.ne_none_iff_exists'.mp ((h.queued hF).mp hfifo)
      have hk : P.lruPos g = some k := by rw [Pool.lruPos, hF, Option.bind_some, hlru]
      have hnone : P.fifoPos g = none := by rw [Pool.fifoPos, hF, Option.bind_some, hfifo]
      exact .inr ⟨k, hlru, rfl, h.lru.get? hk, h.lru.count hk, h.fifo.count_eq_zero hnone⟩
  queue := by
    rintro g hg hnone
    rcases hg with hg | hg
    · have hpos := h.fifo.mem_values.mp hg
      rw [Pool.fifoPos, hnone] at hpos
      cases hpos
    · have hpos := h.lru.mem_values.mp hg
      rw [Pool.lruPos, hnone] at hpos
      cases hpos
  list := by
    intro f file hfile g
    rw [(h.listed hfile).mem_values, Pool.filePos]
    by_cases hf : GetFileID g = f
    · rw [if_pos hf, Option.isSome_map, Option.isSome_iff_ne_none]
      exact ⟨fun hg => ⟨hg, hf⟩, fun hg => hg.1⟩
    · rw [if_neg hf]
      exact ⟨nofun, fun hg => absurd hg.2 hf⟩
  listPosition := by
    intro g F file hF hfile
    have hk : P.filePos (GetFileID g) g = some F.filePosition := by
      rw [Pool.filePos, if_pos rfl, hF, Option.map_some]
    exact ⟨(h.listed hfile).get? hk, (h.listed hfile).count hk⟩
  live := by
    intro g hg
    obtain ⟨F, hF⟩ := Option.ne_none_iff_exists'.mp hg
    exact h.live hF
  free := fun f hf => (h.registered.free f hf).1

theorem empty : Linked .empty where
  fifo := NodeList.Tracks.empty
  lru := NodeList.Tracks.empty
  queued := nofun
  listed := nofun
  live := nofun
  registered :=
    ⟨fun _ _ => ⟨nofun, nofun⟩, List.nodup_nil, fun _ hf => absurd hf List.not_mem_nil,
      fun _ hf => absurd rfl hf, Nat.zero_le _⟩

/-! ## Frames -/

/-- A frame that is there gets other contents, and possibly another place in the queues. -/
theorem setFrame (h : Linked P) (hF : P.frames g = some F) {F' : Frame} {fifo lru : NodeList Nat}
    (hfile : F'.filePosition = F.filePosition)
    (hqueued : F'.fifoPosition = none ↔ F'.lruPosition ≠ none)
    (hfifo : fifo.Tracks (Function.update P.fifoPos g F'.fifoPosition))
    (hlru : lru.Tracks (Function.update P.lruPos g F'.lruPosition)) :
    Linked { P with
      frames := Function.update P.frames g (some F'), fifo := fifo, lru := lru } := by
  have hother : ∀ {x}, x ≠ g → Function.update P.frames g (some F') x = P.frames x :=
    fun hx => Function.update_of_ne hx ..
  refine ⟨hfifo.congr fun x => ?_, hlru.congr fun x => ?_, fun {x Fx} hx => ?_,
    fun {f file} hf => (h.listed hf).congr fun x => ?_, fun {x Fx} hx => ?_,
    h.registered.congr (fun _ => rfl) rfl rfl rfl⟩
  · by_cases hx : x = g
    · simp [Pool.fifoPos, hx]
    · simp [Pool.fifoPos, hx]
  · by_cases hx : x = g
    · simp [Pool.lruPos, hx]
    · simp [Pool.lruPos, hx]
  · by_cases hxg : x = g
    · subst hxg
      obtain rfl : F' = Fx := by simpa using hx
      exact hqueued
    · exact h.queued ((hother hxg).symm.trans hx)
  · by_cases hx : x = g
    · simp [Pool.filePos, hx, hF, hfile]
    · simp [Pool.filePos, hx]
  · by_cases hxg : x = g
    · subst hxg
      exact h.live hF
    · exact h.live ((hother hxg).symm.trans hx)

/-- An operation that leaves the positions of a frame as they are. -/
theorem modifyFrame (h : Linked P) (k : Frame → Frame)
    (hfifo : ∀ F, (k F).fifoPosition = F.fifoPosition)
    (hlru : ∀ F, (k F).lruPosition = F.lruPosition)
    (hfile : ∀ F, (k F).filePosition = F.filePosition) : Linked (P.modifyFrame g k) := by
  rw [Pool.modifyFrame]
  cases hF : P.frames g with
  | none =>
    rw [Option.map_none, ← hF, Function.update_eq_self]
    exact h
  | some F =>
    have hpf : P.fifoPos g = F.fifoPosition := by rw [Pool.fifoPos, hF, Option.bind_some]
    have hpl : P.lruPos g = F.lruPosition := by rw [Pool.lruPos, hF, Option.bind_some]
    refine h.setFrame hF (hfile F) ?_ ?_ ?_
    · rw [hfifo, hlru]
      exact h.queued hF
    · rw [hfifo, ← hpf, Function.update_eq_self]
      exact h.fifo
    · rw [hlru, ← hpl, Function.update_eq_self]
      exact h.lru

theorem moveToLru (h : Linked P) : Linked (P.moveToLru g) := by
  unfold Pool.moveToLru
  split
  next => exact h
  next F hF =>
    have hpf : P.fifoPos g = F.fifoPosition := by rw [Pool.fifoPos, hF, Option.bind_some]
    have hpl : P.lruPos g = F.lruPosition := by rw [Pool.lruPos, hF, Option.bind_some]
    cases hl : F.lruPosition with
    | some k =>
      -- it was in the LRU queue
      rw [Pool.modifyFrame, hF, Option.map_some]
      have hnone : F.fifoPosition = none := (h.queued hF).mpr (by simp [hl])
      have herased : (P.lru.erase k).Tracks (Function.update P.lruPos g none) :=
        h.lru.erase (hpl.trans hl) (Function.update_self ..)
          fun x hx => Function.update_of_ne hx ..
      refine h.setFrame hF ?_ ?_ ?_ ?_
      · rfl
      · simp [hnone]
      · rw [← hpf, Function.update_eq_self]
        exact h.fifo
      · refine herased.pushBack (Function.update_self ..) (Function.update_self ..) fun x hx => ?_
        rw [Function.update_of_ne hx, Function.update_of_ne hx]
    | none =>
      cases hf : F.fifoPosition with
      | some k =>
        -- it was in the FIFO queue
        simp only [Pool.modifyFrame, hF, Option.map_some]
        refine h.setFrame hF ?_ ?_ ?_ ?_
        · rfl
        · simp
        · exact h.fifo.erase (hpf.trans hf) (Function.update_self ..)
            fun x hx => Function.update_of_ne hx ..
        · exact h.lru.pushBack (hpl.trans hl) (Function.update_self ..)
            fun x hx => Function.update_of_ne hx ..
      | none => exact absurd hl ((h.queued hF).mp hf)

theorem eraseFrame (h : Linked P) : Linked (P.eraseFrame g) := by
  unfold Pool.eraseFrame
  split
  next => exact h
  next F hF =>
    have hpf : P.fifoPos g = F.fifoPosition := by rw [Pool.fifoPos, hF, Option.bind_some]
    have hpl : P.lruPos g = F.lruPosition := by rw [Pool.lruPos, hF, Option.bind_some]
    have hother : ∀ {x}, x ≠ g → Function.update P.frames g none x = P.frames x :=
      fun hx => Function.update_of_ne hx ..
    have hself : Function.update P.frames g none g = none := Function.update_self ..
    have hsome : ∀ {x Fx}, Function.update P.frames g none x = some Fx →
        x ≠ g ∧ P.frames x = some Fx := by
      intro x Fx hx
      have hxg : x ≠ g := by
        rintro rfl
        exact nomatch hself.symm.trans hx
      exact ⟨hxg, (hother hxg).symm.trans hx⟩
    have hnone : ∀ pos : Frame → Option Nat,
        (Function.update P.frames g none g).bind pos = none := by
      intro pos
      rw [hself, Option.bind_none]
    refine ⟨?_, ?_, fun {x Fx} hx => h.queued (hsome hx).2, fun {f file} hf => ?_,
      fun {x Fx} hx => ?_, h.registered.congr (fun f => ?_) rfl rfl rfl⟩
    · -- the FIFO queue: the frame was there, or in the other one
      have hrest : ∀ x, x ≠ g → (Function.update P.frames g none x).bind Frame.fifoPosition =
          P.fifoPos x := fun x hx => by rw [hother hx, Pool.fifoPos]
      cases hl : F.lruPosition with
      | some k =>
        refine h.fifo.congr fun x => ?_
        by_cases hx : x = g
        · have hff : F.fifoPosition = none := (h.queued hF).mpr (by simp [hl])
          rw [hx, hpf, hff]
          exact hnone _
        · exact hrest x hx
      | none =>
        cases hf : F.fifoPosition with
        | some k => exact h.fifo.erase (hpf.trans hf) (hnone _) hrest
        | none => exact absurd hl ((h.queued hF).mp hf)
    · have hrest : ∀ x, x ≠ g → (Function.update P.frames g none x).bind Frame.lruPosition =
          P.lruPos x := fun x hx => by rw [hother hx, Pool.lruPos]
      cases hl : F.lruPosition with
      | some k => exact h.lru.erase (hpl.trans hl) (hnone _) hrest
      | none =>
        refine h.lru.congr fun x => ?_
        by_cases hx : x = g
        · rw [hx, hpl, hl]
          exact hnone _
        · exact hrest x hx
    · by_cases hfg : f = GetFileID g
      · -- the list of its file loses the frame
        subst hfg
        have hmap : (P.files (GetFileID g)).map (fun file =>
            { file with frames := file.frames.erase F.filePosition }) = some file := by
          simpa [Pool.modifyFile] using hf
        obtain ⟨file', hfile', rfl⟩ := Option.map_eq_some_iff.mp hmap
        have hk : P.filePos (GetFileID g) g = some F.filePosition := by
          rw [Pool.filePos, if_pos rfl, hF, Option.map_some]
        refine (h.listed hfile').erase hk ?_ fun x hx => ?_
        · simp [Pool.filePos]
        · simp [Pool.filePos, hx]
      · have hold : P.files f = some file := by simpa [Pool.modifyFile, hfg] using hf
        refine (h.listed hold).congr fun x => ?_
        by_cases hx : x = g
        · subst hx
          rw [Pool.filePos, Pool.filePos, if_neg (Ne.symm hfg), if_neg (Ne.symm hfg)]
        · simp [Pool.filePos, hx]
    · have hlive := h.live (hsome hx).2
      by_cases hxg : GetFileID x = GetFileID g
      · simpa [Pool.modifyFile, hxg] using hxg ▸ hlive
      · simpa [Pool.modifyFile, hxg] using hlive
    · by_cases hfg : f = GetFileID g
      · simp [Pool.modifyFile, hfg, Function.comp_def]
      · simp [Pool.modifyFile, hfg]

theorem insertFrame (h : Linked P) (cfg : Config) (hg : P.frames g = none) :
    Linked (P.insertFrame cfg g) := by
  unfold Pool.insertFrame
  split
  next => exact h
  next file hfile =>
    have hpf : P.fifoPos g = none := by rw [Pool.fifoPos, hg, Option.bind_none]
    have hpl : P.lruPos g = none := by rw [Pool.lruPos, hg, Option.bind_none]
    refine ⟨?_, h.lru.congr fun x => ?_, fun {x Fx} hx => ?_, fun {f file'} hf => ?_,
      fun {x Fx} hx => ?_, h.registered.congr (fun f => ?_) rfl rfl rfl⟩
    · refine h.fifo.pushBack hpf ?_ fun x hx => ?_
      · simp [Pool.fifoPos, Pool.newFrame]
      · simp [Pool.fifoPos, hx]
    · by_cases hx : x = g
      · simp [Pool.lruPos, Pool.newFrame, hx, hg]
      · simp [Pool.lruPos, hx]
    · by_cases hxg : x = g
      · subst hxg
        have hFx := (Function.update_self ..).symm.trans hx
        cases hFx
        exact ⟨nofun, fun hne => absurd rfl hne⟩
      · exact h.queued ((Function.update_of_ne hxg ..).symm.trans hx)
    · by_cases hfg : f = GetFileID g
      · -- the list of its file gains the frame
        subst hfg
        have hf' := (Function.update_self ..).symm.trans hf
        cases hf'
        refine (h.listed hfile).pushFront ?_ ?_ fun x hx => ?_
        · simp [Pool.filePos, hg]
        · simp [Pool.filePos, Pool.newFrame]
        · simp [Pool.filePos, hx]
      · have hold : P.files f = some file' := (Function.update_of_ne hfg ..).symm.trans hf
        refine (h.listed hold).congr fun x => ?_
        by_cases hx : x = g
        · subst hx
          rw [Pool.filePos, Pool.filePos, if_neg (Ne.symm hfg), if_neg (Ne.symm hfg)]
        · simp [Pool.filePos, hx]
    · by_cases hxg : GetFileID x = GetFileID g
      · simp [hxg]
      · have hne : x ≠ g := fun heq => hxg (heq ▸ rfl)
        simpa [hxg] using h.live ((Function.update_of_ne hne ..).symm.trans hx)
    · by_cases hfg : f = GetFileID g
      · simp [hfg, hfile]
      · simp [hfg]

/-! ## Files -/

/-- An operation that leaves the path and the list of a file as they are. -/
theorem modifyFile (h : Linked P) (k : File → File) (hpath : ∀ x, (k x).path = x.path)
    (hframes : ∀ x, (k x).frames = x.frames) : Linked (P.modifyFile f k) := by
  refine ⟨h.fifo, h.lru, h.queued, fun {f' file'} hf => ?_, fun {x Fx} hx => ?_,
    h.registered.congr (fun f' => ?_) rfl rfl rfl⟩
  · by_cases hff : f' = f
    · subst hff
      rw [Pool.modifyFile_files, Function.update_self] at hf
      obtain ⟨file, hfile, rfl⟩ := Option.map_eq_some_iff.mp hf
      rw [hframes]
      exact h.listed hfile
    · exact h.listed ((Function.update_of_ne hff ..).symm.trans hf)
  · by_cases hxf : GetFileID x = f
    · simpa [Pool.modifyFile, hxf] using hxf ▸ h.live hx
    · simpa [Pool.modifyFile, hxf] using h.live hx
  · by_cases hff : f' = f
    · simp [Pool.modifyFile, hff, Function.comp_def, hpath]
    · simp [Pool.modifyFile, hff]

/-- A file whose list is empty has no frames. -/
theorem no_frame (h : Linked P) (hempty : P.beginFrames f = none) (hf : P.files f ≠ none)
    {F : Frame} (hF : P.frames g = some F) : GetFileID g ≠ f := by
  rintro rfl
  obtain ⟨file, hfile⟩ := Option.ne_none_iff_exists'.mp hf
  rw [Pool.beginFrames, hfile, Option.bind_some, NodeList.first_eq_none] at hempty
  exact hempty _ _ ((h.listed hfile F.filePosition g).mpr (by simp [Pool.filePos, hF]))

theorem eraseFile (h : Linked P) (hempty : P.beginFrames f = none) : Linked (P.eraseFile f) := by
  unfold Pool.eraseFile
  split
  next => exact h
  next file hfile =>
    have hf : P.files f ≠ none := by simp [hfile]
    have hself : Function.update P.files f none f = none := Function.update_self ..
    have hother : ∀ {f'}, f' ≠ f → Function.update P.files f none f' = P.files f' :=
      fun hne => Function.update_of_ne hne ..
    have hname : P.filesByName file.path = some f :=
      (h.registered.named _ _).mpr (by rw [hfile, Option.map_some])
    refine ⟨h.fifo, h.lru, h.queued, fun {f' file'} hf' => ?_, fun {x Fx} hx => ?_,
      ⟨fun path f' => ?_, ?_, fun f' hf' => ?_, fun f' hf' => ?_, h.registered.bound⟩⟩
    · have hff : f' ≠ f := by
        rintro rfl
        exact nomatch hself.symm.trans hf'
      exact h.listed ((hother hff).symm.trans hf')
    · exact fun hn => h.live hx ((hother (h.no_frame hempty hf hx)).symm.trans hn)
    · dsimp only
      by_cases hp : path = file.path
      · -- no other file has this path
        subst hp
        rw [Function.update_self]
        refine ⟨nofun, fun hpath => ?_⟩
        by_cases hff : f' = f
        · rw [hff, hself] at hpath
          cases hpath
        · rw [hother hff, ← h.registered.named, hname] at hpath
          exact absurd (Option.some.inj hpath).symm hff
      · rw [Function.update_of_ne hp, h.registered.named]
        by_cases hff : f' = f
        · simp [hff, hfile, Ne.symm hp]
        · rw [hother hff]
    · exact List.nodup_cons.mpr ⟨fun hmem => hf (h.registered.free f hmem).1, h.registered.freeNodup⟩
    · rcases List.mem_cons.mp hf' with rfl | hmem
      · exact ⟨hself, h.registered.allocated _ hf⟩
      · obtain ⟨hnone, hlt⟩ := h.registered.free f' hmem
        refine ⟨?_, hlt⟩
        dsimp only
        by_cases hff : f' = f
        · rw [hff, hself]
        · rw [hother hff, hnone]
    · have hff : f' ≠ f := by
        rintro rfl
        exact hf' hself
      dsimp only at hf'
      rw [hother hff] at hf'
      exact h.registered.allocated f' hf'

/-- The id that `OpenFile` allocates is the id of no file, and is free no longer. -/
theorem allocateFileId (h : Linked P) {P' : Pool} (ha : P.allocateFileId = .ok (f, P')) :
    Linked P' ∧ P'.files = P.files ∧ P'.filesByName = P.filesByName ∧ P.files f = none ∧
      f ∉ P'.freeFileIds ∧ f < P'.allocatedFileIds := by
  obtain ⟨hnamed, hnodup, hfree, halloc, hbound⟩ := h.registered
  unfold Pool.allocateFileId at ha
  split at ha
  next f' rest hids =>
    cases ha
    rw [hids] at hnodup hfree
    obtain ⟨hnone, hlt⟩ := hfree f (List.mem_cons_self ..)
    obtain ⟨hnot, hrest⟩ := List.nodup_cons.mp hnodup
    exact ⟨⟨h.fifo, h.lru, h.queued, h.listed, h.live, ⟨hnamed, hrest,
      fun x hx => hfree x (List.mem_cons_of_mem _ hx), halloc, hbound⟩⟩, rfl, rfl, hnone, hnot, hlt⟩
  next hids =>
    split at ha
    next => cases ha
    next hmax =>
      cases ha
      have hnone : P.files P.allocatedFileIds = none := by
        by_contra hne
        exact absurd (halloc _ hne) (Nat.lt_irrefl _)
      refine ⟨⟨h.fifo, h.lru, h.queued, h.listed, h.live, ⟨hnamed, hnodup, ?_, ?_, ?_⟩⟩, rfl, rfl,
        hnone, ?_, Nat.lt_succ_self _⟩
      · intro x hx
        exact ⟨(hfree x hx).1, Nat.lt_succ_of_lt (hfree x hx).2⟩
      · exact fun x hx => Nat.lt_succ_of_lt (halloc x hx)
      · exact Nat.lt_of_le_of_ne hbound hmax
      · exact fun hx => absurd (hfree _ hx).2 (Nat.lt_irrefl _)

theorem openNew (h : Linked P) {path : String} {flags : FileFlags} {size : Nat} {P' : Pool}
    (hpath : P.filesByName path = none) (ho : P.openNew path flags size = .ok (f, P')) :
    Linked P' := by
  unfold Pool.openNew at ho
  cases ha : P.allocateFileId with
  | error e =>
    rw [ha] at ho
    cases ho
  | ok r =>
    obtain ⟨f', P₁⟩ := r
    rw [ha] at ho
    cases ho
    obtain ⟨h₁, hfiles, hnames, hnone, hnot, hlt⟩ := h.allocateFileId ha
    have hother : ∀ {x}, x ≠ f → ∀ file, Function.update P₁.files f file x = P₁.files x :=
      fun hx _ => Function.update_of_ne hx ..
    have hnone₁ : P₁.files f = none := by rw [hfiles, hnone]
    refine ⟨h₁.fifo, h₁.lru, h₁.queued, fun {x file} hx => ?_, fun {g F} hF => ?_,
      ⟨fun path' x => ?_, h₁.registered.freeNodup, fun x hx => ?_, fun x hx => ?_,
        h₁.registered.bound⟩⟩
    · dsimp only at hx
      by_cases hxf : x = f
      · -- a new file has no frames, and its list is empty
        subst hxf
        rw [Function.update_self, Option.some.injEq] at hx
        subst hx
        refine NodeList.Tracks.empty.congr fun g => ?_
        dsimp only [Pool.filePos]
        split
        next hg =>
          cases hF : P₁.frames g with
          | none => rfl
          | some F => exact absurd (hg ▸ hnone₁) (h₁.live hF)
        next => rfl
      · rw [hother hxf] at hx
        exact h₁.listed hx
    · dsimp only
      by_cases hxf : GetFileID g = f
      · rw [hxf, Function.update_self]
        nofun
      · rw [hother hxf]
        exact h₁.live hF
    · dsimp only
      by_cases hp : path' = path
      · subst hp
        rw [Function.update_self]
        by_cases hxf : x = f
        · simp [hxf]
        · rw [hother hxf, ← h₁.registered.named, hnames, hpath]
          simp [Ne.symm hxf]
      · rw [Function.update_of_ne hp, h₁.registered.named]
        by_cases hxf : x = f
        · simp [hxf, hnone₁, Ne.symm hp]
        · rw [hother hxf]
    · obtain ⟨hx₁, hx₂⟩ := h₁.registered.free x hx
      refine ⟨?_, hx₂⟩
      have hxf : x ≠ f := fun heq => hnot (heq ▸ hx)
      exact (hother hxf _).trans hx₁
    · by_cases hxf : x = f
      · exact hxf ▸ hlt
      · exact h₁.registered.allocated x fun hn => hx ((hother hxf _).trans hn)

end Linked

end Haybarn.Io.PageBuffer
