import Haybarn.Io.PageContents

/-!
# No update of a page is lost

`Content` is the invariant of a file whose users are orderly: the last completed modification
of a page is in its frame, unless a thread loads or modifies it now, and it is on the disk,
unless the frame is dirty. A step of one thread may change the contents of one frame; the
latches keep everybody else from it.
-/

namespace Haybarn.Io.PageBuffer

open Haybarn.Lib State

/-- The frame is for a page of a file of `size` bytes. -/
def InFile (cfg : Config) (size g : Nat) : Prop := GetPageID g * cfg.pageSize < size

variable {Tid : Type} {cfg : Config} {p : String} {size : Nat}

/-- What holds of a frame of the file `p`. -/
structure FrameContent (cfg : Config) (p : String) (size : Nat) (s : State Tid) (g : Nat)
    (C : Contents) : Prop where
  dirty : C.isDirty = true → InFile cfg size g ∧ ∀ t, ¬ (s.place t).loads g
  sized : InFile cfg size g → C.dataSize = min cfg.pageSize (size - GetPageID g * cfg.pageSize)
  whole : InFile cfg size g → (∀ t, ¬ (s.place t).loads g) → C.data.length = C.dataSize
  cached : InFile cfg size g → (∀ t, ¬ (s.place t).loads g) → (∀ t, ¬ (s.place t).modifies g) →
    C.data = s.latest p (GetPageID g)

/-- What a thread knows about the contents of the frame it is at. -/
def Place.Knows (cfg : Config) (p : String) (size : Nat) (P : Pool) (disk : List UInt8) :
    Place → Prop
  | .hold c modified marked => (modified = true → c.exclusive = true) ∧
      (marked = true → c.exclusive = true → P.isDirty c.frame = true)
  | .loaded c => ∀ C, P.contents c.frame = some C → P.path c.file = p → InFile cfg size c.frame →
      C.data = pageOf cfg disk (GetPageID c.frame)
  | .flushed (.evict _) g => P.stateOf g = some .evicting → P.isDirty g = false
  | .flushed (.release ..) g => P.isDirty g = false
  | _ => True

/-- Where the last completed modifications of the pages of a file are. -/
structure Content (cfg : Config) (p : String) (size : Nat) (s : State Tid) : Prop where
  fixed : (s.disk p).length = size
  opened : ∀ f, s.pool.files f ≠ none → s.pool.path f = p →
    s.pool.fileSize f = size ∧ size < 2 ^ 63
  frame : ∀ g C, s.pool.contents g = some C → s.pool.path (GetFileID g) = p →
    FrameContent cfg p size s g C
  clean : ∀ page, (∀ g C, s.pool.contents g = some C → s.pool.path (GetFileID g) = p →
    GetPageID g = page → C.isDirty = false) → pageOf cfg (s.disk p) page = s.latest p page
  knows : ∀ t, (s.place t).Knows cfg p size s.pool (s.disk p)

/-! ## Pages and bytes -/

theorem length_pageOf (bytes : List UInt8) (page : Nat) :
    (pageOf cfg bytes page).length = min cfg.pageSize (bytes.length - page * cfg.pageSize) := by
  rw [pageOf, length_slice]

/-- The size of a page of the file, without the wrap-around. -/
theorem pageBytes_eq {g : Nat} (hg : InFile cfg size g) (hsize : size < 2 ^ 63) :
    Pool.pageBytes cfg size (GetPageID g) =
      min cfg.pageSize (size - GetPageID g * cfg.pageSize) := by
  have hg' : GetPageID g * cfg.pageSize < size := hg
  rw [Pool.pageBytes]
  omega

/-- Two frames of a file with one page are one frame. -/
theorem frame_ext {g g' : Nat} (hf : GetFileID g = GetFileID g') (hp : GetPageID g = GetPageID g') :
    g = g' := by
  have hg := Nat.div_add_mod g (2 ^ 48)
  have hg' := Nat.div_add_mod g' (2 ^ 48)
  rw [GetFileID, GetFileID] at hf
  rw [GetPageID, GetPageID] at hp
  omega

/-- What is written to one page is not seen in another one. -/
theorem pageOf_overwrite_ne {bytes data : List UInt8} {page page' : Nat} (hne : page' ≠ page)
    (hdata : data.length = min cfg.pageSize (bytes.length - page * cfg.pageSize))
    (hin : page * cfg.pageSize < bytes.length) :
    pageOf cfg (overwrite 0 bytes (page * cfg.pageSize) data) page' = pageOf cfg bytes page' := by
  refine slice_overwrite_apart (Nat.le_of_lt hin) ?_
  rcases Nat.lt_or_gt_of_ne hne with hlt | hgt
  · have hmul := Nat.mul_le_mul_right cfg.pageSize (Nat.succ_le_of_lt hlt)
    rw [Nat.succ_mul] at hmul
    exact .inl hmul
  · have hmul := Nat.mul_le_mul_right cfg.pageSize (Nat.succ_le_of_lt hgt)
    rw [Nat.succ_mul] at hmul
    exact .inr (by omega)

theorem pageOf_overwrite_self {bytes data : List UInt8} {page : Nat}
    (hdata : data.length = min cfg.pageSize (bytes.length - page * cfg.pageSize))
    (hin : page * cfg.pageSize < bytes.length) :
    pageOf cfg (overwrite 0 bytes (page * cfg.pageSize) data) page = data :=
  slice_overwrite_self (by omega) hdata

/-- What `LoadFrame` leaves in a buffer is the page. -/
theorem loaded_page {bytes stale : List UInt8} {page n : Nat}
    (hn : n = min cfg.pageSize (bytes.length - page * cfg.pageSize)) :
    (overwrite 0 stale 0 (slice bytes (page * cfg.pageSize) n)).take n = pageOf cfg bytes page := by
  have hlen : (slice bytes (page * cfg.pageSize) n).length = n := by
    rw [length_slice]
    omega
  have hslice : slice bytes (page * cfg.pageSize) n = pageOf cfg bytes page := by
    rw [pageOf, slice, slice, List.take_eq_take_iff, List.length_drop]
    omega
  rw [overwrite_of_le (Nat.zero_le _), List.take_zero, List.nil_append, ← hslice]
  exact List.take_left' hlen

/-! ## Who is at a frame -/

theorem Place.latch_of_loads {pc : Place} {g : Nat} (h : pc.loads g) :
    pc.exclusiveFrame = some g := by
  cases pc
  case read c => exact congrArg some h
  case loaded c => exact congrArg some h
  all_goals exact h.elim

theorem Place.latch_of_modifies {pc : Place} {P : Pool} {disk : List UInt8} {g : Nat}
    (hk : pc.Knows cfg p size P disk) (h : pc.modifies g) : pc.exclusiveFrame = some g := by
  cases pc
  case hold c modified marked =>
    cases modified with
    | false => exact h.elim
    | true =>
      have hg : c.frame = g := h
      rw [Place.exclusiveFrame, hk.1 rfl, if_pos rfl, hg]
  all_goals exact h.elim

theorem Place.latch_of_hold {c : Fix} {modified marked : Bool} :
    (Place.hold c modified marked).sharedFrame = some c.frame ∨
      (Place.hold c modified marked).exclusiveFrame = some c.frame := by
  cases hx : c.exclusive
  · exact .inl (by rw [Place.sharedFrame, hx]; rfl)
  · exact .inr (by rw [Place.exclusiveFrame, hx]; rfl)

variable [DecidableEq Tid] {s s' : State Tid} {t : Tid} {act : Act Tid} {g : Nat} {C : Contents}

/-- What the mover does not change, nobody does. -/
theorem nobody_iff {φ : Place → Prop} {pc : Place} (hplace : s'.place = Function.update s.place t pc)
    (ht : φ (s'.place t) ↔ φ (s.place t)) :
    (∀ q, ¬ φ (s'.place q)) ↔ ∀ q, ¬ φ (s.place q) := by
  refine forall_congr' fun q => not_congr ?_
  by_cases hq : q = t
  · rw [hq]
    exact ht
  · rw [hplace, Function.update_of_ne hq]

/-- A frame whose bytes and users' intentions are as they were. -/
theorem FrameContent.keep (h : FrameContent cfg p size s g C) {pc : Place}
    (hplace : s'.place = Function.update s.place t pc)
    (hl : (s'.place t).loads g ↔ (s.place t).loads g)
    (hm : (s'.place t).modifies g ↔ (s.place t).modifies g)
    (hlatest : s'.latest p (GetPageID g) = s.latest p (GetPageID g)) {C' : Contents}
    (hsize : C'.dataSize = C.dataSize) (hdata : C'.data = C.data)
    (hdirty : C'.isDirty = true → InFile cfg size g ∧ ∀ q, ¬ (s.place q).loads g) :
    FrameContent cfg p size s' g C' := by
  have hloads := nobody_iff (φ := fun pc => pc.loads g) hplace hl
  have hmods := nobody_iff (φ := fun pc => pc.modifies g) hplace hm
  refine ⟨fun hd => ?_, fun hin => ?_, fun hin hno => ?_, fun hin hno hno' => ?_⟩
  · exact ⟨(hdirty hd).1, hloads.mpr (hdirty hd).2⟩
  · exact hsize.trans (h.sized hin)
  · rw [hdata, hsize]
    exact h.whole hin (hloads.mp hno)
  · rw [hdata, hlatest]
    exact h.cached hin (hloads.mp hno) (hmods.mp hno')

namespace Inv

variable [Fintype Tid]

omit [DecidableEq Tid] in
theorem live_of_contents (hi : Inv s) (hg : s.pool.contents g ≠ none) :
    s.pool.files (GetFileID g) ≠ none := by
  obtain ⟨F, hF⟩ := Option.ne_none_iff_exists'.mp fun hn => hg (Pool.contents_eq_none.mpr hn)
  exact hi.linked.live hF

omit [DecidableEq Tid] in
/-- A path is the path of one file. -/
theorem file_ext (hi : Inv s) {f f' : Nat} (hf : s.pool.files f ≠ none)
    (hf' : s.pool.files f' ≠ none) (hpath : s.pool.path f = s.pool.path f') : f = f' := by
  obtain ⟨file, hfile⟩ := Option.ne_none_iff_exists'.mp hf
  obtain ⟨file', hfile'⟩ := Option.ne_none_iff_exists'.mp hf'
  rw [Pool.path, Pool.path, hfile, hfile'] at hpath
  have hname := (hi.linked.registered.named file.path f).mpr (by rw [hfile]; rfl)
  have hname' := (hi.linked.registered.named file'.path f').mpr (by rw [hfile']; rfl)
  have heq : file.path = file'.path := hpath
  rw [heq] at hname
  exact Option.some.inj (hname.symm.trans hname')

omit [DecidableEq Tid] in
/-- A page of a file is in one frame. -/
theorem frame_ext (hi : Inv s) {g' : Nat} (hg : s.pool.contents g ≠ none)
    (hg' : s.pool.contents g' ≠ none) (hp : s.pool.path (GetFileID g) = p)
    (hp' : s.pool.path (GetFileID g') = p) (hpage : GetPageID g = GetPageID g') : g = g' :=
  PageBuffer.frame_ext (hi.file_ext (hi.live_of_contents hg) (hi.live_of_contents hg')
    (hp.trans hp'.symm)) hpage

/-- The file of a frame keeps its path. -/
theorem path_stays (hi : Inv s) (hi' : Inv s') (hm : Move cfg s t act s')
    (hg : s'.pool.contents g ≠ none) :
    s'.pool.path (GetFileID g) = s.pool.path (GetFileID g) := by
  cases hm.file (hi.view t) (GetFileID g) with
  | same hs => rw [Pool.path_eq, hs, Pool.path_eq]
  | opened hold hframes _ _ _ =>
    rw [Pool.contents_congr hframes] at hg
    exact absurd hold (hi.live_of_contents hg)
  | gone hs => exact absurd hs (hi'.live_of_contents hg)

omit [DecidableEq Tid] in
theorem present_contents (hi : Inv s) (hu : 0 < (s.place t).uses g) : s.pool.contents g ≠ none :=
  fun hn => hi.present hu (Pool.contents_eq_none.mp hn)

/-- A frame that another thread uses does not go. -/
theorem contents_stay (hi : Inv s) (hm : Move cfg s t act s') {q : Tid} (hq : q ≠ t)
    (hu : 0 < (s.place q).uses g) : s'.pool.contents g ≠ none := by
  intro hnone
  have halone := hm.gone (hi.view t) (Pool.contents_eq_none.mp hnone)
  have htwo := hi.uses_two hq g
  omega

end Inv

/-! ## One step -/

namespace Content

variable [Fintype Tid]

omit [DecidableEq Tid] in
/-- What the disk has of a page whose frame is clean. -/
theorem clean_frame (h : Content cfg p size s) (hi : Inv s) (hC : s.pool.contents g = some C)
    (hp : s.pool.path (GetFileID g) = p) (hd : C.isDirty = false) :
    pageOf cfg (s.disk p) (GetPageID g) = s.latest p (GetPageID g) := by
  refine h.clean _ fun g' C' hC' hp' hpage => ?_
  obtain rfl := hi.frame_ext (by simp [hC']) (by simp [hC]) hp' hp hpage
  rw [hC] at hC'
  exact Option.some.inj hC' ▸ hd

/-- The record of a page changes only when its frame is released. -/
theorem latest_stays (hi : Inv s) (hm : Move cfg s t act s')
    (ho : Orderly cfg p s (t, act)) (hg : s.pool.contents g ≠ none)
    (hp : s.pool.path (GetFileID g) = p)
    (hnot : (s'.place t).modifies g ∨ ¬ (s.place t).modifies g) :
    s'.latest p (GetPageID g) = s.latest p (GetPageID g) := by
  cases hm.store (hi.view t) ho with
  | same _ hlatest => rw [hlatest]
  | @completed c marked _ hh h' hpath _ _ hlatest =>
    rw [hlatest]
    refine Function.update_of_ne (fun hpage => ?_) ..
    have hok : GetFileID c.frame = c.file := by
      have hok := hi.ok t
      rw [hh] at hok
      exact hok
    have hc : s.pool.contents c.frame ≠ none :=
      hi.present_contents (t := t) (by rw [hh]; simp [Place.uses])
    obtain rfl := hi.frame_ext hg hc hp (by rw [hok, hpath]) hpage
    rcases hnot with hmod | hmod
    · rw [h'] at hmod
      exact hmod
    · rw [hh] at hmod
      exact hmod rfl
  | written _ _ _ _ hlatest => rw [hlatest]

omit [DecidableEq Tid] in
/-- Nobody loads or modifies a frame that another thread has latched. -/
theorem nobody_else (h : Content cfg p size s) (hi : Inv s) (q : Tid)
    (hq : (s.place q).sharedFrame = some g ∨ (s.place q).exclusiveFrame = some g)
    (hl : ¬ (s.place q).loads g) :
    (∀ r, ¬ (s.place r).loads g) ∧ ∀ r, (s.place r).modifies g → r = q := by
  refine ⟨fun r hr => ?_, fun r hr => ?_⟩
  · obtain rfl := hi.frameLatches.alone (Place.latch_of_loads hr) hq
    exact hl hr
  · exact (hi.frameLatches.alone (Place.latch_of_modifies (h.knows r) hr) hq).symm

theorem frame_step (h : Content cfg p size s) (hi : Inv s) (hi' : Inv s')
    (hm : Move cfg s t act s') (ho : Orderly cfg p s (t, act)) (hC : s'.pool.contents g = some C)
    (hp' : s'.pool.path (GetFileID g) = p) : FrameContent cfg p size s' g C := by
  obtain ⟨pc, hplace, -⟩ := hm.acquires
  have hp : s.pool.path (GetFileID g) = p :=
    (hi.path_stays hi' hm (by simp [hC])).symm.trans hp'
  have hlatest := latest_stays hi hm ho (g := g)
  cases hm.contents (hi.view t) g with
  | same hs hl hmod =>
    rw [hs] at hC
    have hF := h.frame g C hC hp
    refine hF.keep hplace hl hmod ?_ rfl rfl hF.dirty
    refine hlatest (by simp [hC]) hp ?_
    rw [hmod]
    exact em _
  | @created file hold hf hs hl =>
    obtain rfl := Option.some.inj (hs.symm.trans hC)
    have hsize := h.opened _ (by rw [hf]; exact Option.some_ne_none _) hp
    have hfile : file.fileSize = size := by
      rw [Pool.fileSize, hf] at hsize
      exact hsize.1
    refine ⟨fun hd => absurd hd Bool.false_ne_true, fun hin => ?_,
      fun _ hno => absurd hl (hno t), fun _ hno => absurd hl (hno t)⟩
    rw [hfile]
    exact pageBytes_eq hin hsize.2
  | read hh hg hlen hs h' =>
    rw [hs] at hC
    obtain ⟨C₀, hC₀, rfl⟩ := Option.map_eq_some_iff.mp hC
    have hF := h.frame g C₀ hC₀ hp
    have hl : (s.place t).loads g := by rw [hh]; exact hg
    have hl' : (s'.place t).loads g := by rw [h']; exact hg
    exact ⟨fun hd => absurd hl ((hF.dirty hd).2 t), hF.sized,
      fun _ hno => absurd hl' (hno t), fun _ hno => absurd hl' (hno t)⟩
  | @loaded c hh hg hs hl =>
    rw [hs] at hC
    obtain ⟨C₀, hC₀, rfl⟩ := Option.map_eq_some_iff.mp hC
    have hF := h.frame g C₀ hC₀ hp
    have hload : (s.place t).loads g := by rw [hh]; exact hg
    have hclean : C₀.isDirty = false :=
      Bool.eq_false_iff.mpr fun hd => (hF.dirty hd).2 t hload
    have hok := hi.ok t
    have hk := h.knows t
    rw [hh] at hok hk
    subst hg
    have hdata := hk C₀ hC₀ (hok.1 ▸ hp)
    refine ⟨fun hd => absurd hd Bool.false_ne_true, hF.sized, fun hin _ => ?_, fun hin _ _ => ?_⟩
    · have hlen := congrArg List.length (hdata hin)
      rw [length_pageOf, h.fixed] at hlen
      exact hlen.trans (hF.sized hin).symm
    · -- the thread has read the page as the disk has it
      rw [hlatest (by simp [hC₀]) hp (.inr (by rw [hh]; exact id))]
      exact (hdata hin).trans (h.clean_frame hi hC₀ hp hclean)
  | @modified c modified marked offset bytes hh hg hx hlen hs h' =>
    rw [hs] at hC
    obtain ⟨C₀, hC₀, rfl⟩ := Option.map_eq_some_iff.mp hC
    have hF := h.frame g C₀ hC₀ hp
    subst hg
    have hno := (h.nobody_else hi t (hh ▸ Place.latch_of_hold) (by rw [hh]; exact id)).1
    have hno' : ∀ q, ¬ (s'.place q).loads c.frame :=
      (nobody_iff (φ := fun pc => pc.loads c.frame) hplace
        (by rw [hh, h']; exact Iff.rfl)).mpr hno
    refine ⟨fun hd => ⟨(hF.dirty hd).1, hno'⟩, hF.sized, fun hin _ => ?_, fun _ _ hmod => ?_⟩
    · rw [Pool.dataOf_eq, hC₀] at hlen
      exact (length_overwrite hlen).trans (hF.whole hin hno)
    · exact absurd (by rw [h']; rfl) (hmod t)
  | @marked c modified marked hact hh hg hs h' =>
    rw [hs] at hC
    obtain ⟨C₀, hC₀, rfl⟩ := Option.map_eq_some_iff.mp hC
    have hF := h.frame g C₀ hC₀ hp
    subst hg
    have hno := (h.nobody_else hi t (hh ▸ Place.latch_of_hold) (by rw [hh]; exact id)).1
    have hmod : (s'.place t).modifies c.frame ↔ (s.place t).modifies c.frame := by
      rw [hh, h']
      cases modified <;> exact Iff.rfl
    refine hF.keep hplace (by rw [hh, h']; exact Iff.rfl) hmod ?_ rfl rfl fun _ => ⟨?_, hno⟩
    · refine hlatest (by simp [hC₀]) hp ?_
      rw [hmod]
      exact em _
    · -- who marks a page marks one of the file
      have hok := hi.ok t
      rw [hh] at hok
      have hmark := hact ▸ ho
      have hin := hmark (c, modified, marked) (by rw [hh]; rfl) (hok ▸ hp)
      rwa [h.fixed] at hin
  | @released c marked hh hg hs h' hrec =>
    rw [hs] at hC
    have hF := h.frame g C hC hp
    subst hg
    have hok : GetFileID c.frame = c.file := by
      have hok := hi.ok t
      rw [hh] at hok
      exact hok
    have hno := (h.nobody_else hi t (hh ▸ Place.latch_of_hold) (by rw [hh]; exact id)).1
    have hno' : ∀ q, ¬ (s'.place q).loads c.frame :=
      (nobody_iff (φ := fun pc => pc.loads c.frame) hplace
        (by rw [hh, h']; exact Iff.rfl)).mpr hno
    refine ⟨fun hd => ⟨(hF.dirty hd).1, hno'⟩, hF.sized, fun hin _ => hF.whole hin hno,
      fun _ _ _ => ?_⟩
    rw [hrec, ← hok, hp, Function.update_self, Function.update_self, Pool.dataOf_eq, hC]
    rfl
  | @written k hh hx hs h' hdisk =>
    rw [hs] at hC
    obtain ⟨C₀, hC₀, rfl⟩ := Option.map_eq_some_iff.mp hC
    have hF := h.frame g C₀ hC₀ hp
    refine hF.keep hplace (by rw [hh, h']; exact Iff.rfl) (by rw [hh, h']; exact Iff.rfl)
      ?_ rfl rfl fun hd => absurd hd Bool.false_ne_true
    exact hlatest (by simp [hC₀]) hp (.inr (by rw [hh]; exact id))
  | gone hs => cases hs.symm.trans hC

omit [DecidableEq Tid] in
/-- What a thread that writes a dirty frame finds in it. -/
theorem dirty_frame (h : Content cfg p size s) (hi : Inv s) {k : Flusher}
    (hh : s.place t = .flushWrite k g) (hx : s.pool.isDirty g = true)
    (hp : s.pool.path (GetFileID g) = p) :
    GetPageID g * cfg.pageSize < (s.disk p).length ∧
      (s.pool.dataOf g).length =
        min cfg.pageSize ((s.disk p).length - GetPageID g * cfg.pageSize) ∧
      s.pool.dataOf g = s.latest p (GetPageID g) := by
  obtain ⟨C, hC⟩ := Option.ne_none_iff_exists'.mp fun hn =>
    Pool.present_of_isDirty hx (Pool.contents_eq_none.mp hn)
  have hF := h.frame g C hC hp
  have hd : C.isDirty = true := by simpa [Pool.isDirty_eq, hC] using hx
  have hdata : s.pool.dataOf g = C.data := by rw [Pool.dataOf_eq, hC]; rfl
  obtain ⟨hin, hno⟩ := hF.dirty hd
  have hmod : ∀ q, ¬ (s.place q).modifies g := by
    intro q hq
    obtain rfl := hi.frameLatches.alone (Place.latch_of_modifies (h.knows q) hq)
      (.inl (by rw [hh]; rfl) : (s.place t).sharedFrame = some g ∨ _)
    rw [hh] at hq
    exact hq
  rw [hdata, h.fixed]
  exact ⟨hin, (hF.whole hin hno).trans (hF.sized hin), hF.cached hin hno hmod⟩

theorem fixed_step (h : Content cfg p size s) (hi : Inv s) (hm : Move cfg s t act s')
    (ho : Orderly cfg p s (t, act)) : (s'.disk p).length = size := by
  cases hm.store (hi.view t) ho with
  | same hdisk _ => rw [hdisk, h.fixed]
  | completed _ _ _ _ hdisk _ _ => rw [hdisk, h.fixed]
  | written hh hx hpath hdisk _ =>
    obtain ⟨hin, hlen, -⟩ := h.dirty_frame hi hh hx hpath
    rw [hdisk, length_overwrite (by omega), h.fixed]

theorem opened_step (h : Content cfg p size s) (hi : Inv s) (hm : Move cfg s t act s')
    (ho : Orderly cfg p s (t, act)) {f : Nat} (hf : s'.pool.files f ≠ none)
    (hp : s'.pool.path f = p) : s'.pool.fileSize f = size ∧ size < 2 ^ 63 := by
  cases hm.file (hi.view t) f with
  | same hs =>
    rw [Pool.path_eq, hs, ← Pool.path_eq] at hp
    rw [Pool.fileSize_eq, hs, ← Pool.fileSize_eq]
    refine h.opened f (fun hnone => hf ?_) hp
    rw [Pool.fileHeader, Pool.fileHeader, hnone] at hs
    exact Option.map_eq_none_iff.mp hs
  | @opened path bytes hold hframes hs hlen hdisk =>
    have hpath : path = p := by simpa [Pool.path_eq, hs] using hp
    subst hpath
    have hsize := h.fixed_step hi hm ho
    rw [hdisk] at hsize
    rw [Pool.fileSize_eq, hs, ← hsize]
    exact ⟨rfl, hlen⟩
  | gone hs => exact absurd hs hf

/-- A frame that goes is clean. -/
theorem discarded (h : Content cfg p size s) (hi : Inv s) (hm : Move cfg s t act s')
    (hC : s.pool.contents g ≠ none) (hnone : s'.pool.contents g = none) :
    s.pool.isDirty g = false := by
  have hk := h.knows t
  obtain ⟨hclean | hevict | hrelease, -, -⟩ := hm.goes (hi.view t) hC hnone
  · exact hclean
  · obtain ⟨c, hh, hs⟩ := hevict
    rw [hh] at hk
    exact hk hs
  · obtain ⟨f, k, refs, keep, hh⟩ := hrelease
    rw [hh] at hk
    exact hk

/-- A frame that is dirty stays so, unless the mover writes it. -/
theorem dirty_stays (h : Content cfg p size s) (hi : Inv s) (hi' : Inv s')
    (hm : Move cfg s t act s') (hC : s.pool.contents g = some C)
    (hp : s.pool.path (GetFileID g) = p) (hd : C.isDirty = true) :
    (∃ C', s'.pool.contents g = some C' ∧ s'.pool.path (GetFileID g) = p ∧ C'.isDirty = true) ∨
      ∃ k, s.place t = .flushWrite k g ∧ s.pool.isDirty g = true ∧
        s'.disk = Function.update s.disk (s.pool.path (GetFileID g)) (overwrite 0
          (s.disk (s.pool.path (GetFileID g))) (GetPageID g * cfg.pageSize) (s.pool.dataOf g)) := by
  have hdirty : s.pool.isDirty g = true := by rw [Pool.isDirty_eq, hC]; exact hd
  have hkeep : ∀ C', s'.pool.contents g = some C' → C'.isDirty = true →
      ∃ C', s'.pool.contents g = some C' ∧ s'.pool.path (GetFileID g) = p ∧ C'.isDirty = true :=
    fun C' hC' hd' => ⟨C', hC', (hi.path_stays hi' hm (by simp [hC'])).trans hp, hd'⟩
  have hload : ¬ (s.place t).loads g := ((h.frame g C hC hp).dirty hd).2 t
  cases hm.contents (hi.view t) g with
  | same hs _ _ => exact .inl (hkeep C (hs.trans hC) hd)
  | created hold _ _ _ => cases hold.symm.trans hC
  | read hh hg _ _ _ => exact absurd (by rw [hh]; exact hg) hload
  | loaded hh hg _ _ => exact absurd (by rw [hh]; exact hg) hload
  | modified _ _ _ _ hs _ =>
    rw [hC] at hs
    exact .inl (hkeep _ hs hd)
  | marked _ _ _ hs _ =>
    rw [hC] at hs
    exact .inl (hkeep _ hs rfl)
  | released _ _ hs _ _ => exact .inl (hkeep C (hs.trans hC) hd)
  | written hh hx _ _ hdisk => exact .inr ⟨_, hh, hx, hdisk⟩
  | gone hs _ _ _ =>
    have hgone := h.discarded hi hm (by simp [hC]) hs
    cases hdirty.symm.trans hgone

theorem clean_step (h : Content cfg p size s) (hi : Inv s) (hi' : Inv s')
    (hm : Move cfg s t act s') (ho : Orderly cfg p s (t, act)) (page : Nat)
    (hpage : ∀ g C, s'.pool.contents g = some C → s'.pool.path (GetFileID g) = p →
      GetPageID g = page → C.isDirty = false) :
    pageOf cfg (s'.disk p) page = s'.latest p page := by
  -- a dirty frame of the page is written by the mover
  by_cases hwrite : ∃ g k, s.place t = .flushWrite k g ∧ s.pool.isDirty g = true ∧
      s.pool.path (GetFileID g) = p ∧ GetPageID g = page ∧
      s'.disk = Function.update s.disk (s.pool.path (GetFileID g)) (overwrite 0
          (s.disk (s.pool.path (GetFileID g))) (GetPageID g * cfg.pageSize) (s.pool.dataOf g))
  · obtain ⟨g, k, hh, hx, hp, hpg, hdisk⟩ := hwrite
    obtain ⟨hin, hlen, hlatest⟩ := h.dirty_frame hi hh hx hp
    subst hpg
    rw [hdisk, hp, Function.update_self, pageOf_overwrite_self hlen hin, hlatest]
    refine (latest_stays hi hm ho ?_ hp (.inr (by rw [hh]; exact id))).symm
    exact fun hn => Pool.present_of_isDirty hx (Pool.contents_eq_none.mp hn)
  · have hold : pageOf cfg (s.disk p) page = s.latest p page := by
      refine h.clean page fun g C hC hp hpg => Bool.eq_false_iff.mpr fun hd => ?_
      rcases h.dirty_stays hi hi' hm hC hp hd with ⟨C', hC', hp', hd'⟩ | ⟨k, hh, hx, hdisk⟩
      · cases hd'.symm.trans (hpage g C' hC' hp' hpg)
      · exact hwrite ⟨g, k, hh, hx, hp, hpg, hdisk⟩
    cases hm.store (hi.view t) ho with
    | same hdisk hlatest => rw [hdisk, hlatest, hold]
    | @completed c marked hact hh _ hpath hdisk hcontents hlatest =>
      rw [hdisk, hlatest, hold]
      refine (Function.update_of_ne (fun hpg => ?_) ..).symm
      -- the frame of the page has been marked
      have hok := hi.ok t
      have hk := h.knows t
      have hunfix := hact ▸ ho
      rw [hh] at hok hk
      have hmark : marked = true :=
        hunfix (c, true, marked) (by rw [hh]; rfl) hpath rfl
      have hdirty := hk.2 hmark (hk.1 rfl)
      obtain ⟨C, hC⟩ := Option.ne_none_iff_exists'.mp fun hn =>
        Pool.present_of_isDirty hdirty (Pool.contents_eq_none.mp hn)
      have hC' : s'.pool.contents c.frame = some C := by rw [hcontents, hC]
      have hp' : s'.pool.path (GetFileID c.frame) = p := by
        rw [hi.path_stays hi' hm (by simp [hC']), show GetFileID c.frame = c.file from hok, hpath]
      rw [Pool.isDirty_eq, hC] at hdirty
      cases hdirty.symm.trans (hpage c.frame C hC' hp' hpg.symm)
    | @written k g hh hx hpath hdisk hlatest =>
      obtain ⟨hin, hlen, hrec⟩ := h.dirty_frame hi hh hx hpath
      rw [hdisk, hlatest]
      by_cases hpg : page = GetPageID g
      · rw [hpg, pageOf_overwrite_self hlen hin, hrec]
      · rw [pageOf_overwrite_ne hpg hlen hin, hold]

/-- What the mover knows where it goes. -/
theorem knows_mover (h : Content cfg p size s) (hi : Inv s) (hm : Move cfg s t act s')
    (ho : Orderly cfg p s (t, act)) : (s'.place t).Knows cfg p size s'.pool (s'.disk p) := by
  have hk := h.knows t
  have hok := hi.ok t
  have hstore := hm.store (hi.view t) ho
  cases hm
  case stay => exact hk
  case refused hh hopen =>
    obtain ⟨-, -, rfl⟩ := hopen
    dsimp only
    rw [hh]
    trivial
  case givenUp hh _ _ =>
    rw [hh] at hok
    exact hok.elim
  case read c stale n bytes hh hlen hsize hbytes =>
    subst hbytes hsize
    rw [hh] at hok
    simp only [State.go, Function.update_self]
    intro C hC hp hin
    rw [Pool.contents_modify (k := fun C => { C with
      data := (overwrite 0 stale 0 (slice (s.disk (s.pool.path c.file))
        (GetPageID c.frame * cfg.pageSize) (s.pool.dataSize c.frame))).take
          (s.pool.dataSize c.frame) }) fun _ => rfl, if_pos rfl] at hC
    obtain ⟨C₀, hC₀, rfl⟩ := Option.map_eq_some_iff.mp hC
    have hpath : s.pool.path c.file = p := hp
    have hsized := (h.frame c.frame C₀ hC₀ (by rw [hok.1, hpath])).sized hin
    have hsize : s.pool.dataSize c.frame = C₀.dataSize := by rw [Pool.dataSize_eq, hC₀]; rfl
    dsimp only
    rw [hpath, hsize]
    exact loaded_page (by rw [h.fixed, hsized])
  case loaded c hh _ =>
    simp only [State.go, Function.update_self]
    cases c.exclusive
    · trivial
    · exact ⟨fun hd => absurd hd Bool.false_ne_true, fun hd => absurd hd Bool.false_ne_true⟩
  case modify c modified marked offset bytes hh hx hlen =>
    rw [hh] at hk
    simp only [State.go, Function.update_self]
    refine ⟨fun _ => hx, fun hmark hexcl => ?_⟩
    have hdirty := hk.2 hmark hexcl
    rw [Pool.isDirty_eq] at hdirty ⊢
    rw [Pool.contents_modify (k := fun C => { C with
      data := overwrite 0 C.data offset bytes }) fun _ => rfl, if_pos rfl, Option.map_map]
    exact hdirty
  case mark c modified marked hh =>
    have hC : s.pool.contents c.frame ≠ none :=
      hi.present_contents (t := t) (by rw [hh]; simp [Place.uses])
    obtain ⟨C, hC⟩ := Option.ne_none_iff_exists'.mp hC
    rw [hh] at hk
    simp only [State.go, Function.update_self]
    refine ⟨hk.1, fun _ _ => ?_⟩
    rw [Pool.isDirty_eq, Pool.contents_modify (k := fun C => { C with isDirty := true })
      fun _ => rfl, if_pos rfl, hC]
    rfl
  case write k g hh hx =>
    have hclean : (s.pool.modifyFrame g fun F => { F with isDirty := false }).isDirty g = false := by
      rw [Pool.isDirty_eq, Pool.contents_modify (k := fun C => { C with isDirty := false })
        fun _ => rfl, if_pos rfl, Option.map_map]
      cases s.pool.contents g <;> rfl
    simp only [State.go, Function.update_self]
    cases k
    · exact fun _ => hclean
    · trivial
    · exact hclean
  case noWrite k g hh hx =>
    simp only [State.goto, State.go, Function.update_self]
    cases k
    · exact fun _ => hx
    · trivial
    · exact hx
  all_goals simp [State.go, State.goto, State.own, Place.Knows]

/-- A frame that another thread has latched as exclusive keeps its bytes and stays dirty. -/
theorem latched_stays (hi : Inv s) (hm : Move cfg s t act s') {q : Tid} (hq : q ≠ t)
    (hx : (s.place q).exclusiveFrame = some g) (hC : s'.pool.contents g = some C) :
    ∃ C₀, s.pool.contents g = some C₀ ∧ C.data = C₀.data ∧
      (C₀.isDirty = true → C.isDirty = true) := by
  have hmine : ∀ {g'}, (s.place t).sharedFrame = some g' ∨ (s.place t).exclusiveFrame = some g' →
      g' ≠ g := by
    rintro g' hg rfl
    exact hq (hi.frameLatches.alone hx hg).symm
  cases hm.contents (hi.view t) g with
  | same hs _ _ => exact ⟨C, hs.symm.trans hC, rfl, id⟩
  | created hold _ _ _ =>
    exact absurd hold (hi.present_contents (Place.uses_of_latch (.inr hx)))
  | read hh hg _ _ _ => exact absurd hg (hmine (.inr (by rw [hh]; rfl)))
  | loaded hh hg _ _ => exact absurd hg (hmine (.inr (by rw [hh]; rfl)))
  | modified hh hg _ _ _ _ => exact absurd hg (hmine (hh ▸ Place.latch_of_hold))
  | marked _ hh hg _ _ => exact absurd hg (hmine (hh ▸ Place.latch_of_hold))
  | released hh hg _ _ _ => exact absurd hg (hmine (hh ▸ Place.latch_of_hold))
  | written hh _ _ _ _ => exact absurd rfl (hmine (.inl (by rw [hh]; rfl)))
  | gone hs _ _ _ => cases hs.symm.trans hC

/-- A clean frame stays clean if the mover has not fixed it. -/
theorem clean_stays (hi : Inv s) (hm : Move cfg s t act s') (hx : s.pool.isDirty g = false)
    (hno : ¬ (s.place t).fixes g) : s'.pool.isDirty g = false := by
  rw [Pool.isDirty_eq] at hx ⊢
  cases hm.contents (hi.view t) g with
  | same hs _ _ => rw [hs, hx]
  | created _ _ hs _ => rw [hs]; rfl
  | read _ _ _ hs _ => rw [hs, Option.map_map]; exact hx
  | loaded _ _ hs _ => rw [hs]; cases s.pool.contents g <;> rfl
  | modified _ _ _ _ hs _ => rw [hs, Option.map_map]; exact hx
  | marked _ hh hg _ _ => exact absurd (by rw [hh]; exact hg) hno
  | released _ _ hs _ _ => rw [hs, hx]
  | written _ _ hs _ _ => rw [hs]; cases s.pool.contents g <;> rfl
  | gone hs _ _ _ => rw [hs]; rfl

/-- A frame that another thread evicts has been evicted before the step. -/
theorem evicting_before (hi : Inv s) (hm : Move cfg s t act s') {q : Tid} (hu : 0 < (s.place q).uses g) (hs' : s'.pool.stateOf g = some .evicting) :
    s.pool.stateOf g = some .evicting := by
  cases hm.state (hi.view t) g with
  | same hs _ _ => exact hs.symm.trans hs'
  | claimed hs _ _ => cases hs.symm.trans hs'
  | evicting _ _ hnone _ _ =>
    have hle := hi.uses_le q g
    omega
  | kept hs _ _ =>
    obtain ⟨_, _, hst⟩ := Option.map_eq_some_iff.mp (hs.symm.trans hs')
    cases hst
  | loaded hs _ =>
    obtain ⟨_, _, hst⟩ := Option.map_eq_some_iff.mp (hs.symm.trans hs')
    cases hst
  | created hs _ _ => cases hs.symm.trans hs'
  | gone hs => cases hs.symm.trans hs'

/-- The page that another thread has loaded is on the disk as before. -/
theorem disk_stays (h : Content cfg p size s) (hi : Inv s) (hm : Move cfg s t act s')
    (ho : Orderly cfg p s (t, act)) {q : Tid} (hq : q ≠ t) (hx : (s.place q).exclusiveFrame = some g)
    (hp : s.pool.path (GetFileID g) = p) :
    pageOf cfg (s'.disk p) (GetPageID g) = pageOf cfg (s.disk p) (GetPageID g) := by
  cases hm.store (hi.view t) ho with
  | same hdisk _ => rw [hdisk]
  | completed _ _ _ _ hdisk _ _ => rw [hdisk]
  | @written k g' hh hdirty hpath hdisk _ =>
    obtain ⟨hin, hlen, -⟩ := h.dirty_frame hi hh hdirty hpath
    rw [hdisk]
    refine pageOf_overwrite_ne (fun hpage => ?_) hlen hin
    have hg' : s.pool.contents g' ≠ none := fun hn =>
      Pool.present_of_isDirty hdirty (Pool.contents_eq_none.mp hn)
    obtain rfl := hi.frame_ext (hi.present_contents (Place.uses_of_latch (.inr hx))) hg' hp hpath
      hpage
    exact hq (hi.frameLatches.alone hx
      (.inl (by rw [hh]; rfl) : (s.place t).sharedFrame = some g ∨ _)).symm

/-- What another thread knows stays true. -/
theorem knows_other (h : Content cfg p size s) (hi : Inv s) (hi' : Inv s')
    (hm : Move cfg s t act s') (ho : Orderly cfg p s (t, act)) {q : Tid} (hq : q ≠ t) :
    (s.place q).Knows cfg p size s'.pool (s'.disk p) := by
  have hk := h.knows q
  have hok := hi.ok q
  cases hp : s.place q <;> rw [hp] at hk hok
  case hold c modified marked =>
    refine ⟨hk.1, fun hmark hx => ?_⟩
    have hlatch : (s.place q).exclusiveFrame = some c.frame := by
      rw [hp, Place.exclusiveFrame, hx, if_pos rfl]
    obtain ⟨C, hC⟩ := Option.ne_none_iff_exists'.mp
      (hi.contents_stay hm hq (Place.uses_of_latch (.inr hlatch)))
    obtain ⟨C₀, hC₀, -, hdirty⟩ := latched_stays hi hm hq hlatch hC
    have hold := hk.2 hmark hx
    rw [Pool.isDirty_eq, hC₀] at hold
    rw [Pool.isDirty_eq, hC]
    exact hdirty hold
  case loaded c =>
    intro C hC hp' hin
    have hlatch : (s.place q).exclusiveFrame = some c.frame := by rw [hp]; rfl
    obtain ⟨C₀, hC₀, hdata, -⟩ := latched_stays hi hm hq hlatch hC
    have hthere : s'.pool.contents c.frame ≠ none := by simp [hC]
    have hstays := hi.path_stays hi' hm hthere
    rw [hok.1, hp'] at hstays
    rw [hdata, h.disk_stays hi hm ho hq hlatch (by rw [hok.1, ← hstays])]
    exact hk C₀ hC₀ hstays.symm hin
  case flushed k g =>
    have huses : 0 < (s.place q).uses g := by
      rw [hp]
      cases k <;> simp [Place.uses, Flusher.uses]
    cases k with
    | evict c =>
      intro hs'
      have hs := evicting_before hi hm huses hs'
      exact clean_stays hi hm (hk hs) (hi.evicting g hs t)
    | flush f k fs refs => trivial
    | release f k refs keep =>
      refine clean_stays hi hm hk fun hfix => ?_
      -- the file is locked
      have hlock : (s.place q).exclusiveFile = some (GetFileID g) := by
        rw [hp, Place.exclusiveFile, hok.1]
      exact hq (hi.fileLocks.alone hlock
        (Place.locks_of_uses (hi.ok t) (Place.uses_of_fixes hfix))).symm
  all_goals trivial

/-- **One step keeps the contents.** -/
theorem step (h : Content cfg p size s) (hi : Inv s) (hm : Move cfg s t act s')
    (ho : Orderly cfg p s (t, act)) : Content cfg p size s' where
  fixed := h.fixed_step hi hm ho
  opened := fun _ hf hp => h.opened_step hi hm ho hf hp
  frame := fun _ _ hC hp => h.frame_step hi (hi.step hm) hm ho hC hp
  clean := h.clean_step hi (hi.step hm) hm ho
  knows := by
    intro q
    obtain ⟨pc, hplace, -⟩ := hm.acquires
    by_cases hq : q = t
    · rw [hq]
      exact h.knows_mover hi hm ho
    · rw [hplace, Function.update_of_ne hq]
      exact h.knows_other hi (hi.step hm) hm ho hq

omit [DecidableEq Tid] [Fintype Tid] in
theorem initial (disk : String → List UInt8) :
    Content cfg p (disk p).length (State.initial cfg disk : State Tid) where
  fixed := rfl
  opened := fun _ hf => absurd rfl hf
  frame := fun _ _ hC => absurd hC.symm (Option.some_ne_none _)
  clean := fun _ _ => rfl
  knows := fun _ => trivial

/-- **The contents are kept over every run** of orderly users. -/
theorem run {disk : String → List UInt8} {es : List (Tid × Act Tid)}
    (h : Run (PageBuffer.step cfg) (Orderly cfg p) (.initial cfg disk) es s) :
    Inv s ∧ Content cfg p (disk p).length s :=
  h.invariant (P := fun s => Inv s ∧ Content cfg p (disk p).length s)
    ⟨Inv.initial disk, initial disk⟩ fun _ _ _ hinv ho hs =>
      ⟨hinv.1.step (step_move hs), hinv.2.step hinv.1 (step_move hs) ho⟩

end Content

/-! ## Over every run -/

theorem GetPageID_BuildFrameID {f page : Nat} (h : page < 2 ^ 48) :
    GetPageID (BuildFrameID f page) = page := by
  rw [GetPageID, BuildFrameID, Nat.add_mul_mod_self_right, Nat.mod_mod, Nat.mod_eq_of_lt h]

omit [DecidableEq Tid] in
/-- The thread that has fixed a frame finds the last completed modification there. -/
theorem Content.fixed_page [Fintype Tid] (h : Content cfg p size s) (hi : Inv s) {c : Fix}
    {marked : Bool} (hh : s.place t = .hold c false marked) (hp : s.pool.path c.file = p)
    (hin : InFile cfg size c.frame) : s.pool.dataOf c.frame = s.latest p (GetPageID c.frame) := by
  have hok := hi.ok t
  rw [hh] at hok
  obtain ⟨C, hC⟩ := Option.ne_none_iff_exists'.mp
    (hi.present_contents (t := t) (g := c.frame) (by rw [hh]; simp [Place.uses]))
  obtain ⟨hno, hmod⟩ := h.nobody_else hi t (hh ▸ Place.latch_of_hold) (by rw [hh]; exact id)
  rw [Pool.dataOf_eq, hC]
  refine (h.frame c.frame C hC ((congrArg _ hok).trans hp)).cached hin hno fun r hr => ?_
  obtain rfl := hmod r hr
  rw [hh] at hr
  exact hr

/-- The bytes of a frame that goes are on the disk. -/
theorem Content.discarded_page [Fintype Tid] (h : Content cfg p size s) (hi : Inv s)
    (hm : Move cfg s t act s') (hF : s.pool.contents g ≠ none) (hF' : s'.pool.contents g = none)
    (hp : s.pool.path (GetFileID g) = p) (hin : InFile cfg size g) :
    s.pool.dataOf g = pageOf cfg (s.disk p) (GetPageID g) := by
  obtain ⟨C, hC⟩ := Option.ne_none_iff_exists'.mp hF
  have hclean := h.discarded hi hm hF hF'
  have halone := hm.gone (hi.view t) (Pool.contents_eq_none.mp hF')
  -- nobody but the mover is at the frame
  have hlatch : ∀ q, (s.place q).exclusiveFrame = some g → q = t := by
    intro q hx
    by_contra hq
    have hu := Place.uses_of_latch (.inr hx)
    have htwo := hi.uses_two hq g
    omega
  obtain ⟨-, hl, hmod⟩ := hm.goes (hi.view t) hF hF'
  have hdirty : C.isDirty = false := by rwa [Pool.isDirty_eq, hC] at hclean
  rw [Pool.dataOf_eq, hC]
  refine Eq.trans ?_ (h.clean_frame hi hC hp hdirty).symm
  refine (h.frame g C hC hp).cached hin (fun q hq => ?_) fun q hq => ?_
  · obtain rfl := hlatch q (Place.latch_of_loads hq)
    exact hl hq
  · obtain rfl := hlatch q (Place.latch_of_modifies (h.knows q) hq)
    exact hmod hq

/-- **No update of a page is lost**: for a file of fixed size whose users mark what they have
modified before they release it, and any threads that open, fix, modify, release, flush,
drop and evict in any order, interleaved at the latches: who has fixed a page of it finds
there what the last completed modification has left, and a frame that is discarded is clean,
with its bytes on the disk. So is every page whose frame is not dirty. -/
theorem no_lost_update [Fintype Tid] (p : String) (disk : String → List UInt8)
    (es : List (Tid × Act Tid)) (s : State Tid)
    (h : Run (step cfg) (Orderly cfg p) (.initial cfg disk) es s) :
    (∀ t f page exclusive marked,
      s.place t = .hold ⟨f, BuildFrameID f page, exclusive⟩ false marked → s.pool.path f = p →
      page < 2 ^ 48 → page * cfg.pageSize < (disk p).length →
      s.pool.dataOf (BuildFrameID f page) = s.latest p page) ∧
    (∀ t act s', step cfg s (t, act) = some s' → ∀ g, s.pool.frames g ≠ none →
      s'.pool.frames g = none → s.pool.path (GetFileID g) = p →
      s.pool.isDirty g = false ∧ (GetPageID g * cfg.pageSize < (disk p).length →
        s.pool.dataOf g = pageOf cfg (s.disk p) (GetPageID g))) ∧
    (∀ page, (∀ g, s.pool.path (GetFileID g) = p → GetPageID g = page →
      s.pool.isDirty g = false) → pageOf cfg (s.disk p) page = s.latest p page) := by
  obtain ⟨hi, hcontent⟩ := Content.run h
  refine ⟨fun t f page exclusive marked hh hp hlt hin => ?_,
    fun t act s' hs g hF hF' hp => ⟨?_, fun hin => ?_⟩, fun page hpage => ?_⟩
  · have hpg := GetPageID_BuildFrameID (f := f) hlt
    have hdata := hcontent.fixed_page hi hh hp (by rw [InFile, hpg]; exact hin)
    rwa [hpg] at hdata
  · exact hcontent.discarded hi (step_move hs) (fun hn => hF (Pool.contents_eq_none.mp hn))
      (Pool.contents_eq_none.mpr hF')
  · exact hcontent.discarded_page hi (step_move hs) (fun hn => hF (Pool.contents_eq_none.mp hn))
      (Pool.contents_eq_none.mpr hF') hp hin
  · refine hcontent.clean page fun g C hC hp hpg => ?_
    have hx := hpage g hp hpg
    rw [Pool.isDirty_eq, hC] at hx
    exact hx

/-! A run of two threads with room for one frame: the page that the first thread has modified is
evicted for the second one, and read again. -/

section Rereading

private def onePage : Config := { pageSizeBits := 1, pageCapacity := 1 }

private def twoPages : String → List UInt8 := fun _ => [1, 2, 3, 4]

private def forUpdate : FileFlags :=
  { forReading := true, forWriting := true, forAppending := false, createNew := false,
    lock := .none }

private def goes (t : Fin 2) (n : Nat) : List (Fin 2 × Act (Fin 2)) := List.replicate n (t, .go)

private def rereading : List (Fin 2 × Act (Fin 2)) :=
  [(firstThread, .openFile "f" forUpdate (some [1, 2, 3, 4])),
    (firstThread, .fixPage firstThread 0 0 true)] ++ goes firstThread 4 ++
  [(firstThread, .load [0, 0]), (firstThread, .go), (firstThread, .modify 0 [9]),
    (firstThread, .markAsDirty), (firstThread, .unfix),
    (secondThread, .fixPage firstThread 0 1 false)] ++ goes secondThread 3 ++
  [(secondThread, .scan fun _ => true)] ++ goes secondThread 5 ++
  [(secondThread, .load [9, 2])] ++ goes secondThread 2 ++
  [(secondThread, .unfix), (firstThread, .fixPage firstThread 0 0 false)] ++
  goes firstThread 3 ++ [(firstThread, .scan fun _ => true)] ++ goes firstThread 2 ++
  [(firstThread, .load [3, 4])] ++ goes firstThread 2

theorem no_lost_update_rereading :
    ∃ s : State (Fin 2), Run (step onePage) (Orderly onePage "f") (.initial onePage twoPages)
      rereading s ∧
      s.pool.dataOf (BuildFrameID 0 0) = [9, 2] ∧
      s.pool.dataOf (BuildFrameID 0 0) = s.latest "f" 0 := by
  obtain ⟨s, hrun, hp⟩ := Run.exists_of_execute (show (execute (step onePage) (Orderly onePage "f")
    (.initial onePage twoPages) rereading).map (fun s => decide (
      s.pool.dataOf (BuildFrameID 0 0) = [9, 2] ∧ s.pool.path 0 = "f" ∧
      (s.place firstThread).fixed = some (⟨0, BuildFrameID 0 0, false⟩, false, false))) =
        some true by decide +kernel)
  obtain ⟨hdata, hpath, hplace⟩ := of_decide_eq_true hp
  exact ⟨s, hrun, hdata, (no_lost_update "f" twoPages rereading s hrun).1 firstThread 0 0 false
    false (Place.fixed_eq_some.mp hplace) hpath (Nat.two_pow_pos 48) (by decide)⟩

end Rereading

end Haybarn.Io.PageBuffer
