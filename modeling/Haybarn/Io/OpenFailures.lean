import Haybarn.Io.WebFilesAgree

/-!
# Files that cannot be opened

`WebFileSystem::OpenFile` (lib/src/io/web_filesystem.cc) registers a file, or finds one, makes a
handle and asks the runtime to open it. When that fails, the file is erased from the indexes and
the handle is closed, whether or not this call has registered the file and whether or not somebody
else has a handle. `Undone` says when that leaves the directory as it was.

As long as every failure is undone, the file of an open handle stays in the directory (`Holding`):
its handle count is the number of its handles, and nobody erases a file that is in use.
-/

namespace Haybarn.Io.WebFiles

open Haybarn.Lib

namespace WebFileSystem

variable {s s' : WebFileSystem} {p q : Ptr} {f g : WebFile} {h : HandleId} {closing : Closing}
  {url : String} {flags : OpenFlags} {opened : Opened}

/-- What a call that fails is to leave as it was: the indexes, the files and the handles. -/
structure SameDirectory (s s' : WebFileSystem) : Prop where
  by_id : ∀ i, s'.files_by_id.lookup i = s.files_by_id.lookup i
  by_name : ∀ n, s'.files_by_name.lookup n = s.files_by_name.lookup n
  by_url : ∀ u, s'.files_by_url.lookup u = s.files_by_url.lookup u
  files : ∀ p f, s.files p = some f → s'.files p = some f
  handles : ∀ h, s'.handles h = s.handles h
  defined : s'.undefined = s.undefined

/-- The protocol of the file that `OpenFile` finds or creates. -/
def protocolOf (s : WebFileSystem) (url : String) : Option DataProtocol :=
  match s.files_by_name.lookup url with
  | some p => (s.files p).map WebFile.data_protocol
  | none => some (s.inferDataProtocol url)

/-- The runtime throws, does not find the file, or cannot truncate it. -/
def unopened : Opened → Bool
  | .threw | .missing => true
  | .opened _ truncateThrows => truncateThrows

/-- Opening the file fails; a file in a buffer is not opened by the runtime. -/
def Fails (s : WebFileSystem) (url : String) (opened : Opened) : Prop :=
  s.protocolOf url ≠ some .BUFFER ∧ unopened opened = true

/-- The file that `OpenFile` registers under a name that is not there. -/
def newFile (s : WebFileSystem) (url : String) : WebFile :=
  { file_id := s.allocateFileID, file_name := url, data_protocol := s.inferDataProtocol url,
    data_url := some url }

/-- That file when its handle is closed after the failure. -/
def createdFile (s : WebFileSystem) (url : String) (flags : OpenFlags) (opened : Opened) : WebFile :=
  lowered (atEnd flags opened (raised (s.newFile url)))

/-- The failure leaves no trace. A file that was registered must not be aborted, and must stay when
the handle is closed. A file that was not registered must have a URL and an id of its own, and is
erased exactly once. -/
def Undone (s : WebFileSystem) (url : String) (flags : OpenFlags) (opened : Opened)
    (closing : Closing) : Prop :=
  match s.files_by_name.lookup url with
  | some p => aborts flags opened = false ∧
      ∀ f ∈ s.files p, 0 < f.handle_count ∨ closing.have_file_lock = false
  | none => s.files_by_url.lookup url = none ∧ s.IdIsNew ∧
      if aborts flags opened then
        (s.createdFile url flags opened).closeAction closing ≠ .erase
      else closing.have_file_lock = true

/-- The open handles of a file. -/
def openHandles (s : WebFileSystem) (p : Ptr) : Finset HandleId :=
  (Finset.range s.nextHandle).filter fun h => s.handles h = some p

/-- The file of a handle is in the directory, and its handle count is right. -/
structure Holding (s : WebFileSystem) : Prop where
  by_name : ∀ n p, s.files_by_name.lookup n = some p → ∃ f, s.Indexed p f ∧ f.file_name = n
  by_id : ∀ i p, s.files_by_id.lookup i = some p → ∃ f, s.files p = some f ∧ f.file_id = i
  fresh : ∀ p, s.nextPtr ≤ p → s.files p = none
  handled : ∀ h p, s.handles h = some p → h < s.nextHandle ∧ ∃ f, s.Indexed p f
  counted : ∀ p f, s.Indexed p f → f.handle_count.toNat = (s.openHandles p).card
  defined : s.undefined = false

theorem initial_holding (protocol : DataProtocol) : (initial protocol).Holding := by
  refine ⟨?_, ?_, fun _ _ => rfl, nofun, ?_, rfl⟩
  · intro n p hp
    rw [initial, AList.lookup_empty] at hp
    cases hp
  · intro i p hp
    rw [initial, AList.lookup_empty] at hp
    cases hp
  · intro p f hf
    cases hf.1

/-! ## The handles of a file -/

theorem mem_openHandles (hs : s.Holding) : h ∈ s.openHandles p ↔ s.handles h = some p := by
  unfold openHandles
  rw [Finset.mem_filter, Finset.mem_range]
  exact and_iff_right_of_imp fun hh => (hs.handled h p hh).1

/-- A file without handles has none that leads to it. -/
theorem Holding.unused (hs : s.Holding) (hf : s.Indexed p f) (hzero : f.handle_count = 0) :
    s.handles h ≠ some p := by
  intro hh
  have hcard := hs.counted p f hf
  have hpos : 0 < (s.openHandles p).card :=
    Finset.card_pos.mpr ⟨h, (mem_openHandles hs).mpr hh⟩
  rw [hzero] at hcard
  exact absurd hcard (Nat.ne_of_lt hpos)

/-- Two files with the same id are one. -/
theorem same_of_id (hf : s.Indexed p f) (hg : s.Indexed q g) (hid : g.file_id = f.file_id) :
    q = p ∧ g = f := by
  have hlookup := hg.2
  rw [hid, hf.2] at hlookup
  obtain rfl := Option.some.inj hlookup
  exact ⟨rfl, Option.some.inj (hg.1.symm.trans hf.1)⟩

/-! ## Changes that keep the invariant -/

/-- Nothing changes that the invariant speaks about, but objects that are not in the directory. -/
theorem SameDirectory.holding (h : s.SameDirectory s') (hs : s.Holding)
    (hfresh : ∀ p, s'.nextPtr ≤ p → s'.files p = none) (hnext : s.nextHandle ≤ s'.nextHandle) :
    s'.Holding := by
  have hindexed : ∀ {p f}, s.Indexed p f → s'.Indexed p f :=
    fun hf => ⟨h.files _ _ hf.1, (h.by_id _).trans hf.2⟩
  refine ⟨fun n p hp => ?_, fun i p hp => ?_, hfresh, fun h' p hp => ?_, fun p f hf => ?_,
    h.defined.trans hs.defined⟩
  · rw [h.by_name] at hp
    obtain ⟨f, hf, hname⟩ := hs.by_name n p hp
    exact ⟨f, hindexed hf, hname⟩
  · rw [h.by_id] at hp
    obtain ⟨f, hf, hid⟩ := hs.by_id i p hp
    exact ⟨f, h.files p f hf, hid⟩
  · rw [h.handles] at hp
    obtain ⟨hlt, f, hf⟩ := hs.handled h' p hp
    exact ⟨Nat.lt_of_lt_of_le hlt hnext, f, hindexed hf⟩
  · have hold := hf.2
    rw [h.by_id] at hold
    obtain ⟨g, hg, hid⟩ := hs.by_id _ p hold
    obtain rfl : g = f := Option.some.inj ((h.files p g hg).symm.trans hf.1)
    rw [hs.counted p g ⟨hg, hold⟩]
    congr 1
    ext h'
    unfold openHandles
    rw [Finset.mem_filter, Finset.mem_filter, Finset.mem_range, Finset.mem_range, h.handles]
    constructor
    · exact fun hmem => ⟨Nat.lt_of_lt_of_le hmem.1 hnext, hmem.2⟩
    · exact fun hmem => ⟨(hs.handled h' p hmem.2).1, hmem.2⟩

/-- The change leaves the id, the name and the handle count. -/
def KeepsCount (k : WebFile → WebFile) : Prop :=
  ∀ f, (k f).file_id = f.file_id ∧ (k f).file_name = f.file_name
    ∧ (k f).handle_count = f.handle_count

theorem overwriteWithBuffer_keepsCount : KeepsCount overwriteWithBuffer := by
  intro f
  unfold overwriteWithBuffer
  split <;> exact ⟨rfl, rfl, rfl⟩

theorem afterOpen_keepsCount (flags : OpenFlags) (buffer : Bool) :
    KeepsCount (afterOpen flags buffer) := by
  intro f
  unfold afterOpen
  split <;> exact ⟨rfl, rfl, rfl⟩

/-- What is at an address after a change. -/
theorem modify_some {k : WebFile → WebFile} (hf : (s.modify p k).files q = some f) :
    ∃ g, s.files q = some g ∧ f = if q = p then k g else g := by
  rw [modify_files] at hf
  split at hf
  · next hq =>
    obtain ⟨g, hg, rfl⟩ := Option.map_eq_some_iff.mp hf
    exact ⟨g, hg, (if_pos hq).symm⟩
  · next hq => exact ⟨f, hf, (if_neg hq).symm⟩

theorem modify_of_some {k : WebFile → WebFile} (hf : s.files q = some f) :
    (s.modify p k).files q = some (if q = p then k f else f) := by
  rw [modify_files, hf]
  split <;> rfl

/-- The ids of the files stay. -/
theorem modify_indexed_iff {k : WebFile → WebFile} (hk : ∀ f, (k f).file_id = f.file_id) :
    (s.modify p k).Indexed q f ↔ ∃ g, s.Indexed q g ∧ f = if q = p then k g else g := by
  have hid : ∀ g : WebFile, (if q = p then k g else g).file_id = g.file_id := by
    intro g
    split
    · exact hk g
    · rfl
  constructor
  · intro hf
    obtain ⟨g, hg, rfl⟩ := modify_some hf.1
    exact ⟨g, ⟨hg, (hid g) ▸ hf.2⟩, rfl⟩
  · rintro ⟨g, hg, rfl⟩
    exact ⟨modify_of_some hg.1, (hid g).symm ▸ hg.2⟩

theorem Holding.modify {k : WebFile → WebFile} (hs : s.Holding) (hk : KeepsCount k) :
    (s.modify p k).Holding := by
  have hid : ∀ f, (k f).file_id = f.file_id := fun f => (hk f).1
  have hindexed : ∀ {q f}, s.Indexed q f →
      (s.modify p k).Indexed q (if q = p then k f else f) :=
    fun hf => (modify_indexed_iff hid).mpr ⟨_, hf, rfl⟩
  refine ⟨fun n q hq => ?_, fun i q hq => ?_, fun q hq => ?_, fun h' q hq => ?_, fun q f hf => ?_,
    hs.defined⟩
  · obtain ⟨f, hf, hname⟩ := hs.by_name n q hq
    refine ⟨_, hindexed hf, ?_⟩
    split
    · exact (hk f).2.1.trans hname
    · exact hname
  · obtain ⟨f, hf, hi⟩ := hs.by_id i q hq
    refine ⟨_, modify_of_some hf, ?_⟩
    split
    · exact (hid f).trans hi
    · exact hi
  · rw [modify_files, hs.fresh q hq]
    exact ite_self _
  · obtain ⟨hlt, f, hf⟩ := hs.handled h' q hq
    exact ⟨hlt, _, hindexed hf⟩
  · obtain ⟨g, hwas, rfl⟩ := (modify_indexed_iff hid).mp hf
    have hcount := hs.counted q g hwas
    split
    · rw [(hk g).2.2]
      exact hcount
    · exact hcount

/-- One more handle of a file in the directory, which has room for it. -/
theorem Holding.makeHandle (hs : s.Holding) (hf : s.Indexed p f)
    (hroom : f.handle_count.toNat + 1 < 2 ^ 32) : (s.makeHandle p).Holding := by
  have hid : ∀ f, (raised f).file_id = f.file_id := fun _ => rfl
  have hindexed : ∀ {q g}, s.Indexed q g →
      (s.makeHandle p).Indexed q (if q = p then raised g else g) :=
    fun hg => (modify_indexed_iff hid).mpr ⟨_, hg, rfl⟩
  have hnew : s.handles s.nextHandle ≠ some p := by
    intro hh
    exact absurd (hs.handled _ _ hh).1 (Nat.lt_irrefl _)
  refine ⟨fun n q hq => ?_, fun i q hq => ?_, fun q hq => ?_, fun h' q hq => ?_, fun q g hg => ?_,
    hs.defined⟩
  · obtain ⟨g, hg, hname⟩ := hs.by_name n q hq
    refine ⟨_, hindexed hg, ?_⟩
    split <;> exact hname
  · obtain ⟨g, hg, hi⟩ := hs.by_id i q hq
    refine ⟨_, modify_of_some hg, ?_⟩
    split <;> exact hi
  · show (s.modify p raised).files q = none
    rw [modify_files, hs.fresh q hq]
    exact ite_self _
  · by_cases hlast : h' = s.nextHandle
    · subst hlast
      have hp : (s.makeHandle p).handles s.nextHandle = some p := Function.update_self ..
      obtain rfl := Option.some.inj (hp.symm.trans hq)
      exact ⟨Nat.lt_succ_self _, _, hindexed hf⟩
    · have hold : s.handles h' = some q := (Function.update_of_ne hlast ..).symm.trans hq
      obtain ⟨hlt, g, hg⟩ := hs.handled h' q hold
      exact ⟨Nat.lt_succ_of_lt hlt, _, hindexed hg⟩
  · obtain ⟨g, hold, rfl⟩ := (modify_indexed_iff hid).mp hg
    have hcount := hs.counted q g hold
    have hrange : (s.makeHandle p).openHandles q = if q = p
        then insert s.nextHandle (s.openHandles q) else s.openHandles q := by
      ext h'
      have hmem : h' ∈ (s.makeHandle p).openHandles q ↔
          h' < s.nextHandle + 1 ∧ (s.makeHandle p).handles h' = some q := by
        unfold openHandles
        rw [Finset.mem_filter, Finset.mem_range]
        rfl
      rw [hmem]
      by_cases hlast : h' = s.nextHandle
      · have hp : (s.makeHandle p).handles h' = some p := by
          rw [hlast]
          exact Function.update_self ..
        rw [hp]
        split
        · next hq => simp [hlast, hq]
        · next hq => simp [hlast, Ne.symm hq, openHandles]
      · have hp : (s.makeHandle p).handles h' = s.handles h' := Function.update_of_ne hlast ..
        rw [hp]
        have hand : h' < s.nextHandle + 1 ∧ s.handles h' = some q ↔ h' ∈ s.openHandles q := by
          rw [mem_openHandles hs]
          exact and_iff_right_of_imp fun hh => Nat.lt_succ_of_lt (hs.handled h' q hh).1
        rw [hand]
        split
        · rw [Finset.mem_insert, or_iff_right hlast]
        · rfl
    rw [hrange]
    split
    · next hq =>
      subst hq
      obtain rfl := Option.some.inj (hf.1.symm.trans hold.1)
      have hnot : s.nextHandle ∉ s.openHandles q := by
        rw [mem_openHandles hs]
        exact hnew
      rw [Finset.card_insert_of_notMem hnot, ← hcount]
      show (f.handle_count + 1).toNat = f.handle_count.toNat + 1
      rw [UInt32.toNat_add]
      exact Nat.mod_eq_of_lt hroom
    · exact hcount

/-- A new file with an id of its own. -/
theorem Holding.create {n : String} {protocol : DataProtocol} {url : Option String}
    (hs : s.Holding) (hid : s.IdIsNew) : (s.create n protocol url).Holding := by
  have hfree := hs.fresh _ (Nat.le_refl s.nextPtr)
  obtain ⟨f, hf, hfid, hfname, -⟩ := create_indexed n protocol url hid
  have hold : ∀ {p g}, s.Indexed p g → (s.create n protocol url).Indexed p g := create_keeps hfree hid
  have hunused : ∀ h, s.handles h ≠ some s.nextPtr := by
    intro h hh
    obtain ⟨-, g, hg, -⟩ := hs.handled h _ hh
    rw [hfree] at hg
    cases hg
  refine ⟨fun n' q hq => ?_, fun i q hq => ?_, fun q hq => ?_, fun h' q hq => ?_, fun q g hg => ?_,
    hs.defined⟩
  · rcases lookup_insertNew_some hq with hq | ⟨rfl, rfl, -⟩
    · obtain ⟨g, hg, hgname⟩ := hs.by_name n' q hq
      exact ⟨g, hold hg, hgname⟩
    · exact ⟨f, hf, hfname⟩
  · rcases lookup_insertNew_some hq with hq | ⟨rfl, rfl, -⟩
    · obtain ⟨g, hg, hgid⟩ := hs.by_id i q hq
      refine ⟨g, (Function.update_of_ne ?_ ..).trans hg, hgid⟩
      rintro rfl
      rw [hfree] at hg
      cases hg
    · exact ⟨f, hf.1, hfid⟩
  · have hlt : s.nextPtr < q := hq
    exact (Function.update_of_ne (Nat.ne_of_gt hlt) ..).trans (hs.fresh q (Nat.le_of_lt hlt))
  · obtain ⟨hlt, g, hg⟩ := hs.handled h' q hq
    exact ⟨hlt, g, hold hg⟩
  · by_cases hq : q = s.nextPtr
    · subst hq
      obtain rfl := Option.some.inj (hf.1.symm.trans hg.1)
      have hempty : (s.create n protocol url).openHandles s.nextPtr = ∅ := by
        apply Finset.filter_eq_empty_iff.mpr
        exact fun h _ => hunused h
      rw [hempty]
      have hnew := hf.1
      unfold WebFileSystem.create at hnew
      dsimp only at hnew
      rw [Function.update_self] at hnew
      obtain rfl := Option.some.inj hnew
      rfl
    · have hfiles : s.files q = some g := (Function.update_of_ne hq ..).symm.trans hg.1
      have hlookup : s.files_by_id.lookup g.file_id = some q := by
        rcases lookup_insertNew_some hg.2 with hlookup | ⟨-, rfl, -⟩
        · exact hlookup
        · exact absurd rfl hq
      exact hs.counted q g ⟨hfiles, hlookup⟩

/-- A file without handles may be forgotten. -/
theorem Holding.forget (hs : s.Holding) (hf : s.Indexed p f) (hunused : ∀ h, s.handles h ≠ some p) :
    (s.forget f).Holding := by
  have hkept : ∀ {q g}, q ≠ p → s.Indexed q g → (s.forget f).Indexed q g :=
    fun hq hg => forget_indexed hg fun hid => hq (same_of_id hf hg hid).1
  refine ⟨fun n q hq => ?_, fun i q hq => ?_, hs.fresh, fun h' q hq => ?_, fun q g hg => ?_,
    hs.defined⟩
  · obtain ⟨hne, hq⟩ := lookup_erase_some hq
    obtain ⟨g, hg, hgname⟩ := hs.by_name n q hq
    refine ⟨g, hkept ?_ hg, hgname⟩
    rintro rfl
    apply hne
    rw [← hgname, Option.some.inj (hg.1.symm.trans hf.1)]
  · exact hs.by_id i q (lookup_erase_some hq).2
  · obtain ⟨hlt, g, hg⟩ := hs.handled h' q hq
    refine ⟨hlt, g, hkept ?_ hg⟩
    rintro rfl
    exact hunused h' hq
  · exact hs.counted q g ⟨hg.1, (lookup_erase_some hg.2).2⟩

/-! ## Closing -/

/-- A handle is gone, and the count of its file is lower by one. -/
theorem Holding.release {k : WebFile → WebFile} (hs : s.Holding) (hh : s.handles h = some p)
    (hk : ∀ f, (k f).file_id = f.file_id ∧ (k f).file_name = f.file_name
      ∧ (k f).handle_count = f.handle_count - 1) :
    ({ s with handles := Function.update s.handles h none }.modify p k).Holding := by
  have hid : ∀ f, (k f).file_id = f.file_id := fun f => (hk f).1
  let released : WebFileSystem := { s with handles := Function.update s.handles h none }
  have hindexed : ∀ {q g}, s.Indexed q g →
      (released.modify p k).Indexed q (if q = p then k g else g) :=
    fun hg => (modify_indexed_iff (s := released) hid).mpr ⟨_, hg, rfl⟩
  have hold : ∀ {h' q}, (released.modify p k).handles h' = some q →
      h' ≠ h ∧ s.handles h' = some q := by
    intro h' q hq
    by_cases heq : h' = h
    · rw [heq] at hq
      cases (Function.update_self (β := fun _ => Option Ptr) h none s.handles).symm.trans hq
    · exact ⟨heq, (Function.update_of_ne heq ..).symm.trans hq⟩
  refine ⟨fun n q hq => ?_, fun i q hq => ?_, fun q hq => ?_, fun h' q hq => ?_, fun q g hg => ?_,
    hs.defined⟩
  · obtain ⟨g, hg, hname⟩ := hs.by_name n q hq
    refine ⟨_, hindexed hg, ?_⟩
    split
    · exact (hk g).2.1.trans hname
    · exact hname
  · obtain ⟨g, hg, hi⟩ := hs.by_id i q hq
    refine ⟨_, modify_of_some (s := released) hg, ?_⟩
    split
    · exact (hid g).trans hi
    · exact hi
  · have hnone : released.files q = none := hs.fresh q hq
    rw [modify_files, hnone]
    exact ite_self _
  · obtain ⟨hlt, g, hg⟩ := hs.handled h' q (hold hq).2
    exact ⟨hlt, _, hindexed hg⟩
  · obtain ⟨g, hwas, rfl⟩ := (modify_indexed_iff (s := released) hid).mp hg
    have hcount := hs.counted q g hwas
    have hrange : (released.modify p k).openHandles q = (s.openHandles q).erase h := by
      ext h'
      rw [Finset.mem_erase, mem_openHandles hs]
      unfold openHandles
      rw [Finset.mem_filter, Finset.mem_range]
      constructor
      · exact fun hmem => hold hmem.2
      · exact fun hmem => ⟨(hs.handled h' q hmem.2).1, (Function.update_of_ne hmem.1 ..).trans hmem.2⟩
    rw [hrange]
    split
    · next hq =>
      subst hq
      have hmem : h ∈ s.openHandles q := (mem_openHandles hs).mpr hh
      have hpos := Finset.card_pos.mpr ⟨h, hmem⟩
      have hone : (1 : UInt32) ≤ g.handle_count := by
        rw [UInt32.le_iff_toNat_le, hcount]
        exact hpos
      rw [Finset.card_erase_of_mem hmem, (hk g).2.2, UInt32.toNat_sub_of_le _ _ hone, hcount]
      rfl
    · next hq =>
      have hnot : h ∉ s.openHandles q := by
        rw [mem_openHandles hs, hh]
        exact fun heq => hq (Option.some.inj heq).symm
      rw [Finset.erase_eq_of_notMem hnot]
      exact hcount

/-- What `Close` does to the file of a handle, and to the indexes. -/
theorem Close_eq (closing : Closing) (hh : s.handles h = some p) (hf : s.files p = some f) :
    ∃ k : WebFile → WebFile, (∀ f, (k f).file_id = f.file_id ∧ (k f).file_name = f.file_name
        ∧ (k f).data_url = f.data_url ∧ (k f).handle_count = f.handle_count - 1)
      ∧ (s.Close h closing).1 =
        if (lowered f).closeAction closing = .erase
        then ({ s with handles := Function.update s.handles h none }.modify p k).forgetFound f
        else { s with handles := Function.update s.handles h none }.modify p k := by
  have hrestore : ∀ f, (s.restoreProtocol (lowered f)).file_id = f.file_id
      ∧ (s.restoreProtocol (lowered f)).file_name = f.file_name
      ∧ (s.restoreProtocol (lowered f)).data_url = f.data_url
      ∧ (s.restoreProtocol (lowered f)).handle_count = f.handle_count - 1 := by
    intro f
    unfold restoreProtocol
    split <;> exact ⟨rfl, rfl, rfl, rfl⟩
  unfold WebFileSystem.Close
  rw [hh]
  dsimp only
  rw [hf]
  dsimp only
  cases (lowered f).closeAction closing with
  | keep => exact ⟨lowered, fun _ => ⟨rfl, rfl, rfl, rfl⟩, (if_neg nofun).symm⟩
  | fail => exact ⟨_, hrestore, (if_neg nofun).symm⟩
  | erase => exact ⟨_, hrestore, (if_pos rfl).symm⟩

theorem closeAction_erase (herase : (lowered f).closeAction closing = .erase) :
    (f.handle_count - 1).toNat = 0 := by
  unfold WebFile.closeAction at herase
  split at herase
  · cases herase
  · next hcount =>
    rw [UInt32.lt_iff_toNat_lt] at hcount
    exact Nat.eq_zero_of_not_pos hcount

/-- **Closing a handle** finds its file, and erases it only if nobody else has it. -/
theorem Holding.close (hs : s.Holding) (h : HandleId) (closing : Closing) :
    (s.Close h closing).1.Holding := by
  cases hh : s.handles h with
  | none =>
    unfold WebFileSystem.Close
    rw [hh]
    exact hs
  | some p =>
    obtain ⟨-, f, hf⟩ := hs.handled h p hh
    obtain ⟨k, hk, heq⟩ := Close_eq closing hh hf.1
    have hreleased := hs.release hh fun f => ⟨(hk f).1, (hk f).2.1, (hk f).2.2.2⟩
    have hindexed : ({ s with handles := Function.update s.handles h none }.modify p k).Indexed p
        (k f) := by
      refine ⟨?_, (hk f).1.symm ▸ hf.2⟩
      rw [modify_files, if_pos rfl]
      show (s.files p).map k = some (k f)
      rw [hf.1]
      rfl
    rw [heq]
    split
    · next herase =>
      have hsame : ∀ t : WebFileSystem, t.forgetFound f = t.forgetFound (k f) := by
        intro t
        rw [forgetFound, forgetFound, WebFileSystem.forget, WebFileSystem.forget, (hk f).1,
          (hk f).2.1, (hk f).2.2.1]
      rw [hsame, forgetFound_of_indexed hindexed]
      refine hreleased.forget hindexed fun h' => hreleased.unused hindexed ?_
      rw [(hk f).2.2.2]
      exact UInt32.toNat_inj.mp (closeAction_erase herase)
    · exact hreleased

/-! ## Dropping and moving -/

theorem Holding.forgetAll {pick : (Sigma fun _ : UInt32 => Ptr) → Option WebFile}
    (entries : List (Sigma fun _ : UInt32 => Ptr)) : ∀ {s : WebFileSystem}, s.Holding →
    (∀ e ∈ entries, ∀ f, pick e = some f →
      s.Indexed e.2 f ∧ f.file_id = e.1 ∧ f.handle_count = 0) →
    (entries.map Sigma.fst).Nodup →
    ((entries.filterMap pick).foldl WebFileSystem.forget s).Holding := by
  induction entries with
  | nil => exact fun hs _ _ => hs
  | cons e rest ih =>
    intro s hs hpick hnodup
    rw [List.map_cons, List.nodup_cons] at hnodup
    have hrest : ∀ e' ∈ rest, ∀ f, pick e' = some f →
        s.Indexed e'.2 f ∧ f.file_id = e'.1 ∧ f.handle_count = 0 :=
      fun e' he' => hpick e' (List.mem_cons_of_mem _ he')
    cases he : pick e with
    | none =>
      rw [List.filterMap_cons_none he]
      exact ih hs hrest hnodup.2
    | some f =>
      obtain ⟨hf, hid, hzero⟩ := hpick e List.mem_cons_self f he
      rw [List.filterMap_cons_some he, List.foldl_cons]
      refine ih (hs.forget hf fun h => hs.unused hf hzero) (fun e' he' g hg => ?_) hnodup.2
      obtain ⟨hg', hgid, hgzero⟩ := hrest e' he' g hg
      refine ⟨forget_indexed hg' fun heq => hnodup.1 ?_, hgid, hgzero⟩
      rw [← hid, ← heq, hgid]
      exact List.mem_map_of_mem he'

theorem Holding.dropDanglingFiles (hs : s.Holding) : s.DropDanglingFiles.1.Holding := by
  refine hs.forgetAll s.files_by_id.entries (fun e he f hpick => ?_) s.files_by_id.nodupKeys
  have hlookup : s.files_by_id.lookup e.1 = some e.2 := AList.mem_lookup_iff.mpr he
  obtain ⟨g, hg, hid⟩ := hs.by_id e.1 e.2 hlookup
  rw [hg, Option.filter_some] at hpick
  split at hpick
  · next hzero =>
    obtain rfl := Option.some.inj hpick
    exact ⟨⟨hg, hid.symm ▸ hlookup⟩, hid, of_decide_eq_true hzero⟩
  · cases hpick

theorem Holding.tryDropFile (hs : s.Holding) (n : String) : (s.TryDropFile n).1.Holding := by
  unfold WebFileSystem.TryDropFile
  split
  · exact hs
  · next f hf =>
    split
    · next hzero =>
      obtain ⟨p, hp, hfile⟩ := Option.bind_eq_some_iff.mp hf
      obtain ⟨g, hg, -⟩ := hs.by_name n p hp
      obtain rfl : g = f := Option.some.inj (hg.1.symm.trans hfile)
      exact hs.forget hg fun h => hs.unused hg hzero
    · exact hs

/-- The URL index plays no part. -/
theorem Holding.of_urls {urls : Index String} (hs : s.Holding) :
    { s with files_by_url := urls }.Holding :=
  ⟨hs.by_name, hs.by_id, hs.fresh, hs.handled, hs.counted, hs.defined⟩

theorem Holding.moveUrl (hs : s.Holding) (source target : String) :
    (s.moveUrl source target).Holding := by
  unfold WebFileSystem.moveUrl
  split
  · exact hs
  · next p _ =>
    have hmoved : (s.modify p fun f => { f with data_url := some target }).Holding :=
      hs.modify fun _ => ⟨rfl, rfl, rfl⟩
    exact hmoved.of_urls

/-- The file is where its new name leads, or, if the name is taken, under no name at all. -/
theorem Holding.moveName (hs : s.Holding) (source target : String) :
    (s.moveName source target).Holding := by
  unfold WebFileSystem.moveName
  split
  · exact hs
  · next p hp =>
    obtain ⟨f, hf, hfname⟩ := hs.by_name source p hp
    let k : WebFile → WebFile := fun f => { f with file_name := target }
    have hid : ∀ f, (k f).file_id = f.file_id := fun _ => rfl
    have hindexed : ∀ {q g}, s.Indexed q g → (s.modify p k).Indexed q (if q = p then k g else g) :=
      fun hg => (modify_indexed_iff hid).mpr ⟨_, hg, rfl⟩
    refine ⟨fun n q hq => ?_, fun i q hq => ?_, fun q hq => ?_, fun h' q hq => ?_, fun q g hg => ?_,
      hs.defined⟩
    · rcases lookup_insertNew_some hq with hq | ⟨rfl, rfl, -⟩
      · obtain ⟨hne, hq⟩ := lookup_erase_some hq
        obtain ⟨g, hg, hgname⟩ := hs.by_name n q hq
        have hqp : q ≠ p := by
          rintro rfl
          obtain rfl := Option.some.inj (hf.1.symm.trans hg.1)
          exact hne (hgname.symm.trans hfname)
        refine ⟨_, hindexed hg, ?_⟩
        rw [if_neg hqp]
        exact hgname
      · refine ⟨_, hindexed hf, ?_⟩
        rw [if_pos rfl]
    · obtain ⟨g, hg, hi⟩ := hs.by_id i q hq
      refine ⟨_, modify_of_some hg, ?_⟩
      split <;> exact hi
    · show (s.modify p k).files q = none
      rw [modify_files, hs.fresh q hq]
      exact ite_self _
    · obtain ⟨hlt, g, hg⟩ := hs.handled h' q hq
      exact ⟨hlt, _, hindexed hg⟩
    · obtain ⟨g, hwas, rfl⟩ := (modify_indexed_iff hid).mp hg
      have hcount := hs.counted q g hwas
      split <;> exact hcount

/-! ## Opening -/

/-- An index from which what has been added is erased again. -/
theorem lookup_erase_insertNew {K : Type} [DecidableEq K] {m : Index K} {k : K} (p : Ptr)
    (hk : m.lookup k = none) (k' : K) : ((insertNew m k p).erase k).lookup k' = m.lookup k' := by
  by_cases heq : k' = k
  · rw [heq, AList.lookup_erase, hk]
  · rw [AList.lookup_erase_ne heq, lookup_insertNew_of_ne heq]

/-- `Close` adds nothing to the name index. -/
theorem Close_names {n : String} (hn : s.files_by_name.lookup n = none) :
    (s.Close h closing).1.files_by_name.lookup n = none := by
  have herase : ∀ k : String, (s.files_by_name.erase k).lookup n = none := by
    intro k
    by_cases hk : n = k
    · rw [hk, AList.lookup_erase]
    · rw [AList.lookup_erase_ne hk, hn]
  unfold WebFileSystem.Close
  split
  · exact hn
  · dsimp only
    split
    · exact hn
    · split
      · exact hn
      · exact hn
      · unfold forgetFound
        split <;> exact herase _

/-- What is left of `OpenFile` when it fails. -/
theorem openInRuntime_fails (hf : s.files p = some f) (hprotocol : f.data_protocol ≠ .BUFFER)
    (hfails : unopened opened = true) :
    (s.openInRuntime p h flags opened closing).1 =
      if aborts flags opened
      then ((s.modify p (atEnd flags opened)).abortOpen p h closing).1
      else (s.Close h closing).1 := by
  have hsame : s.modify p (fun f => f) = s := by
    have hid : (s.files p).map (fun f => f) = s.files p := Option.map_id_apply
    rw [modify, hid, Function.update_eq_self]
  have hbuffer : (s.files p).map WebFile.data_protocol ≠ some .BUFFER := by
    rw [hf]
    exact fun heq => hprotocol (Option.some.inj heq)
  unfold WebFileSystem.openInRuntime
  rw [if_neg hbuffer]
  cases opened with
  | threw => exact (congrArg (fun s => (s.abortOpen p h closing).1) hsame).symm
  | missing =>
    cases hnull : flags.returnNullIfNotExists with
    | true =>
      rw [aborts, hnull]
      rfl
    | false =>
      rw [aborts, hnull]
      exact (congrArg (fun s => (s.abortOpen p h closing).1) hsame).symm
  | opened buffer truncateThrows =>
    have hthrows : truncateThrows = true := hfails
    rw [hthrows]
    rfl

theorem abortOpen_eq (hf : s.files p = some f) :
    (s.abortOpen p h closing).1 = ((s.forgetFound f).Close h closing).1 := by
  unfold WebFileSystem.abortOpen
  rw [hf]

theorem atEnd_keeps (flags : OpenFlags) (opened : Opened) : KeepsKeys (atEnd flags opened) := by
  intro f
  unfold atEnd
  split
  · exact afterOpen_keeps flags _ f
  · exact ⟨rfl, rfl, rfl⟩

theorem forgetFound_names (f : WebFile) :
    (s.forgetFound f).files_by_name = s.files_by_name.erase f.file_name := by
  unfold forgetFound
  split <;> rfl

/-- Forgetting a file that has a URL erases that URL. -/
theorem forget_urls {url : String} (hurl : f.data_url = some url) :
    (s.forget f).files_by_url = s.files_by_url.erase url := by
  unfold WebFileSystem.forget
  rw [hurl]

theorem forgetFound_of_mem (hid : f.file_id ∈ s.files_by_id) : s.forgetFound f = s.forget f := by
  rw [forgetFound, if_pos hid]

/-- What has been erased is looked up once more. -/
theorem forgetFound_undefined (hid : f.file_id ∉ s.files_by_id) :
    (s.forgetFound f).undefined = true := by
  rw [forgetFound, if_neg hid]

theorem handles_next (hs : s.Holding) : s.handles s.nextHandle = none := by
  cases hh : s.handles s.nextHandle with
  | none => rfl
  | some q => exact absurd (hs.handled _ q hh).1 (Nat.lt_irrefl _)

theorem lowered_raised (f : WebFile) : lowered (raised f) = f := by
  unfold lowered raised
  rw [UInt32.add_sub_cancel]

/-- A file that is not in a buffer stays in the directory when a handle of it is closed, if there
is another one or if somebody has locked the file. -/
theorem closeAction_of_not_buffer (hprotocol : f.data_protocol ≠ .BUFFER) :
    f.closeAction closing =
      if 0 < f.handle_count ∨ closing.have_file_lock = false then .keep else .erase := by
  unfold WebFile.closeAction
  by_cases hcount : 0 < f.handle_count
  · rw [if_pos hcount, if_pos (.inl hcount)]
  · rw [if_neg hcount]
    by_cases hlock : closing.have_file_lock = false
    · rw [if_pos hlock, if_pos (.inr hlock)]
    · rw [if_neg hlock, if_neg hprotocol, if_neg (not_or.mpr ⟨hcount, hlock⟩)]

/-- `OpenFile` of a registered file, aborted: the name has gone. -/
theorem aborted_names (hp : s.files p = some f) :
    ((s.modify p (atEnd flags opened)).abortOpen p h closing).1.files_by_name.lookup f.file_name
      = none := by
  have hended : (s.modify p (atEnd flags opened)).files p = some (atEnd flags opened f) := by
    rw [modify_of_some hp, if_pos rfl]
  rw [abortOpen_eq hended]
  apply Close_names
  rw [forgetFound_names, (atEnd_keeps flags opened f).2.1, AList.lookup_erase]

/-- A handle that is made and closed again. -/
theorem sameDirectory_of_kept (hs : s.Holding) (hf : s.files p = some f)
    (hkeep : f.closeAction closing = .keep) :
    s.SameDirectory ((s.makeHandle p).Close s.nextHandle closing).1 := by
  have hhandle : (s.makeHandle p).handles s.nextHandle = some p := Function.update_self ..
  have hraised : (s.makeHandle p).files p = some (raised f) :=
    (modify_of_some hf).trans (by rw [if_pos rfl])
  let released : WebFileSystem := { s.makeHandle p with
    handles := Function.update (s.makeHandle p).handles s.nextHandle none }
  have hclose : ((s.makeHandle p).Close s.nextHandle closing).1 = released.modify p lowered := by
    unfold WebFileSystem.Close
    rw [hhandle]
    dsimp only
    rw [hraised]
    dsimp only
    rw [lowered_raised, hkeep]
  rw [hclose]
  refine ⟨fun _ => rfl, fun _ => rfl, fun _ => rfl, fun q g hg => ?_, fun h' => ?_, rfl⟩
  · have hup : released.files q = some (if q = p then raised g else g) := modify_of_some hg
    rw [modify_of_some hup]
    split
    · rw [lowered_raised]
    · rfl
  · show Function.update (Function.update s.handles s.nextHandle (some p)) s.nextHandle none h'
      = s.handles h'
    rw [Function.update_idem, ← handles_next hs, Function.update_eq_self]

/-- **A failure to open a file that was registered** leaves the directory as it was if and only if
it is not aborted and the file stays when the handle of the call is closed. -/
theorem sameDirectory_of_found (hs : s.Holding) (hp : s.files_by_name.lookup url = some p)
    (hfails : s.Fails url opened) :
    s.SameDirectory (s.OpenFile url flags opened closing).1 ↔
      aborts flags opened = false ∧
        ∀ f ∈ s.files p, 0 < f.handle_count ∨ closing.have_file_lock = false := by
  obtain ⟨f, hf, hname⟩ := hs.by_name url p hp
  have hprotocol : f.data_protocol ≠ .BUFFER := by
    have hfound := hfails.1
    rw [protocolOf, hp] at hfound
    dsimp only at hfound
    rw [hf.1] at hfound
    exact fun heq => hfound (congrArg some heq)
  have hraised : (s.makeHandle p).files p = some (raised f) :=
    (modify_of_some hf.1).trans (by rw [if_pos rfl])
  have hopen : (s.OpenFile url flags opened closing).1 =
      if aborts flags opened
      then (((s.makeHandle p).modify p (atEnd flags opened)).abortOpen p s.nextHandle closing).1
      else ((s.makeHandle p).Close s.nextHandle closing).1 := by
    unfold WebFileSystem.OpenFile findOrCreate
    rw [hp]
    exact openInRuntime_fails hraised hprotocol hfails.2
  -- in each case that fails the name is erased, and it was there
  have hgone : ∀ {t : WebFileSystem}, t.files_by_name.lookup url = none → ¬ s.SameDirectory t := by
    intro t hnone hsame
    rw [hsame.by_name, hp] at hnone
    cases hnone
  rw [hopen]
  cases haborts : aborts flags opened with
  | true =>
    rw [if_pos rfl]
    refine iff_of_false (hgone ?_) (fun hkept => nomatch hkept.1)
    have herased : (raised f).file_name = url := hname
    rw [← herased]
    exact aborted_names hraised
  | false =>
    rw [if_neg Bool.false_ne_true]
    have hall : (∀ g ∈ s.files p, 0 < g.handle_count ∨ closing.have_file_lock = false) ↔
        0 < f.handle_count ∨ closing.have_file_lock = false := by
      rw [hf.1]
      exact ⟨fun hg => hg f rfl, fun hkept g hg => Option.some.inj hg ▸ hkept⟩
    rw [hall]
    by_cases hkept : 0 < f.handle_count ∨ closing.have_file_lock = false
    · refine iff_of_true (sameDirectory_of_kept hs hf.1 ?_) ⟨rfl, hkept⟩
      rw [closeAction_of_not_buffer hprotocol, if_pos hkept]
    · refine iff_of_false (hgone ?_) (fun h => hkept h.2)
      obtain ⟨k, -, hclose⟩ := Close_eq closing
        (show (s.makeHandle p).handles s.nextHandle = some p from Function.update_self ..) hraised
      rw [lowered_raised, closeAction_of_not_buffer hprotocol, if_neg hkept, if_pos rfl] at hclose
      rw [hclose, forgetFound_names, show (raised f).file_name = url from hname,
        AList.lookup_erase]

/-- Registering a file and erasing it again, in whatever state its object is left. -/
theorem sameDirectory_of_forgotten (hs : s.Holding) (hname : s.files_by_name.lookup url = none)
    {t : WebFileSystem}
    (hids : t.files_by_id =
      (insertNew s.files_by_id s.allocateFileID s.nextPtr).erase s.allocateFileID)
    (hnames : t.files_by_name = (insertNew s.files_by_name url s.nextPtr).erase url)
    (hurls : t.files_by_url = (insertNew s.files_by_url url s.nextPtr).erase url)
    (hfiles : ∀ q, q ≠ s.nextPtr → t.files q = s.files q)
    (hhandles : t.handles = Function.update
      (Function.update s.handles s.nextHandle (some s.nextPtr)) s.nextHandle none) :
    s.SameDirectory t ↔
      s.files_by_url.lookup url = none ∧ s.IdIsNew ∧ t.undefined = false := by
  constructor
  · intro hsame
    refine ⟨?_, ?_, hsame.defined.trans hs.defined⟩
    · rw [← hsame.by_url, hurls, AList.lookup_erase]
    · show s.files_by_id.lookup s.allocateFileID = none
      rw [← hsame.by_id, hids, AList.lookup_erase]
  · rintro ⟨hurl, hid, hdefined⟩
    refine ⟨fun i => ?_, fun n => ?_, fun u => ?_, fun q f hq => ?_, fun h' => ?_, ?_⟩
    · rw [hids, lookup_erase_insertNew _ hid]
    · rw [hnames, lookup_erase_insertNew _ hname]
    · rw [hurls, lookup_erase_insertNew _ hurl]
    · have hne : q ≠ s.nextPtr := by
        rintro rfl
        rw [hs.fresh _ (Nat.le_refl _)] at hq
        cases hq
      rw [hfiles q hne]
      exact hq
    · rw [hhandles, Function.update_idem, ← handles_next hs, Function.update_eq_self]
    · rw [hdefined, hs.defined]

/-- What an index has after an entry with the key has been added. -/
theorem mem_insertNew {K : Type} [DecidableEq K] (m : Index K) (k : K) (p : Ptr) :
    k ∈ insertNew m k p := by
  unfold insertNew
  split
  · assumption
  · exact AList.mem_insert _ |>.mpr (.inl rfl)

/-- **A failure to open a file that was not registered** leaves the directory as it was if and only
if the URL and the id are new and the file is erased exactly once. -/
theorem sameDirectory_of_created (hs : s.Holding) (hname : s.files_by_name.lookup url = none)
    (hfails : s.Fails url opened) :
    s.SameDirectory (s.OpenFile url flags opened closing).1 ↔
      s.files_by_url.lookup url = none ∧ s.IdIsNew ∧
        if aborts flags opened then
          (s.createdFile url flags opened).closeAction closing ≠ .erase
        else closing.have_file_lock = true := by
  let made : WebFileSystem := (s.create url (s.inferDataProtocol url) (some url)).makeHandle s.nextPtr
  have hprotocol : (s.newFile url).data_protocol ≠ .BUFFER := by
    have hfound := hfails.1
    rw [protocolOf, hname] at hfound
    exact fun heq => hfound (congrArg some heq)
  have hcreated : (s.create url (s.inferDataProtocol url) (some url)).files s.nextPtr
      = some (s.newFile url) := Function.update_self ..
  have hraised : made.files s.nextPtr = some (raised (s.newFile url)) :=
    (modify_of_some hcreated).trans (by rw [if_pos rfl])
  have hhandle : made.handles s.nextHandle = some s.nextPtr := Function.update_self ..
  have hmem : s.allocateFileID ∈ made.files_by_id := mem_insertNew ..
  have hothers : ∀ q, q ≠ s.nextPtr → made.files q = s.files q := by
    intro q hq
    show ((s.create url (s.inferDataProtocol url) (some url)).modify s.nextPtr raised).files q = _
    rw [modify_files, if_neg hq]
    exact Function.update_of_ne hq ..
  have hopen : (s.OpenFile url flags opened closing).1 =
      if aborts flags opened
      then ((made.modify s.nextPtr (atEnd flags opened)).abortOpen s.nextPtr s.nextHandle closing).1
      else (made.Close s.nextHandle closing).1 := by
    unfold WebFileSystem.OpenFile findOrCreate
    rw [hname]
    exact openInRuntime_fails hraised hprotocol hfails.2
  rw [hopen]
  cases haborts : aborts flags opened with
  | true =>
    rw [if_pos rfl, if_pos rfl]
    let ended := atEnd flags opened (raised (s.newFile url))
    let changed := made.modify s.nextPtr (atEnd flags opened)
    have hkeys := atEnd_keeps flags opened (raised (s.newFile url))
    have hended : changed.files s.nextPtr = some ended := by
      rw [modify_of_some hraised, if_pos rfl]
    have hforgotten : changed.forgetFound ended = changed.forget ended := by
      apply forgetFound_of_mem
      rw [show ended.file_id = s.allocateFileID from hkeys.1]
      exact hmem
    obtain ⟨k, -, hclose⟩ := Close_eq closing
      (show (changed.forget ended).handles s.nextHandle = some s.nextPtr from hhandle)
      (show (changed.forget ended).files s.nextPtr = some ended from hended)
    rw [abortOpen_eq hended, hforgotten, hclose]
    have hclosed : lowered ended = s.createdFile url flags opened := rfl
    rw [hclosed]
    by_cases herase : (s.createdFile url flags opened).closeAction closing = .erase
    · -- the file is erased a second time, and is not there
      rw [if_pos herase]
      refine iff_of_false (fun hsame => ?_) (fun hundone => hundone.2.2 herase)
      have hgone : ended.file_id ∉ (changed.forget ended).files_by_id := by
        rw [← AList.lookup_eq_none]
        exact AList.lookup_erase ..
      have hdefined := hsame.defined.trans hs.defined
      rw [forgetFound_undefined] at hdefined
      · cases hdefined
      · exact hgone
    · rw [if_neg herase]
      refine (sameDirectory_of_forgotten hs hname ?_ ?_ ?_ (fun q hq => ?_) rfl).trans ?_
      · show made.files_by_id.erase ended.file_id = _
        rw [show ended.file_id = s.allocateFileID from hkeys.1]
        rfl
      · show made.files_by_name.erase ended.file_name = _
        rw [show ended.file_name = url from hkeys.2.1]
        rfl
      · show (changed.forget ended).files_by_url = _
        rw [forget_urls hkeys.2.2]
        rfl
      · rw [modify_files, if_neg hq]
        show (made.modify s.nextPtr (atEnd flags opened)).files q = s.files q
        rw [modify_files, if_neg hq]
        exact hothers q hq
      · have hdefined : made.undefined = false := hs.defined
        exact ⟨fun h => ⟨h.1, h.2.1, herase⟩, fun h => ⟨h.1, h.2.1, hdefined⟩⟩
  | false =>
    rw [if_neg Bool.false_ne_true, if_neg Bool.false_ne_true]
    obtain ⟨k, -, hclose⟩ := Close_eq closing hhandle hraised
    rw [lowered_raised] at hclose
    rw [hclose]
    cases hlock : closing.have_file_lock with
    | false =>
      -- the file stays
      have hkeep : (s.newFile url).closeAction closing = .keep := by
        rw [closeAction_of_not_buffer hprotocol, if_pos (.inr hlock)]
      rw [hkeep, if_neg (by decide)]
      refine iff_of_false (fun hsame => ?_) (fun hundone => nomatch hundone.2.2)
      have hfound : made.files_by_name.lookup url = some s.nextPtr := lookup_insertNew_of_none hname
      have hnone := (hsame.by_name url).trans hname
      cases hfound.symm.trans hnone
    | true =>
      have herase : (s.newFile url).closeAction closing = .erase := by
        rw [closeAction_of_not_buffer hprotocol, hlock]
        exact if_neg (show ¬ ((0 : UInt32) < 0 ∨ true = false) by decide)
      rw [herase, if_pos rfl, forgetFound_of_mem]
      · refine (sameDirectory_of_forgotten hs hname rfl rfl rfl (fun q hq => ?_) rfl).trans ?_
        · show (WebFileSystem.modify _ s.nextPtr k).files q = s.files q
          rw [modify_files, if_neg hq]
          exact hothers q hq
        · have hdefined : made.undefined = false := hs.defined
          exact ⟨fun h => ⟨h.1, h.2.1, rfl⟩, fun h => ⟨h.1, h.2.1, hdefined⟩⟩
      · exact hmem

/-- **A failure leaves the directory as it was** if and only if it is undone. -/
theorem sameDirectory_iff (hs : s.Holding) (hfails : s.Fails url opened) :
    s.SameDirectory (s.OpenFile url flags opened closing).1 ↔ s.Undone url flags opened closing := by
  cases hname : s.files_by_name.lookup url with
  | some p =>
    rw [sameDirectory_of_found hs hname hfails, Undone, hname]
  | none =>
    rw [sameDirectory_of_created hs hname hfails, Undone, hname]

theorem protocol_made (s : WebFileSystem) (url : String) :
    (((s.findOrCreate url).1.makeHandle (s.findOrCreate url).2).files (s.findOrCreate url).2).map
      WebFile.data_protocol = s.protocolOf url := by
  cases hname : s.files_by_name.lookup url with
  | some p =>
    rw [findOrCreate, protocolOf, hname]
    show ((s.modify p raised).files p).map _ = _
    rw [modify_files, if_pos rfl, Option.map_map]
    rfl
  | none =>
    rw [findOrCreate, protocolOf, hname]
    have hcreated : (s.create url (s.inferDataProtocol url) (some url)).files s.nextPtr
        = some (s.newFile url) := Function.update_self ..
    show ((WebFileSystem.modify _ s.nextPtr raised).files s.nextPtr).map _ = _
    rw [modify_of_some hcreated, if_pos rfl]
    rfl

/-- Opening that does not fail makes a handle, and then only what the runtime says about the file
changes. -/
theorem OpenFile_of_opens (flags : OpenFlags) (closing : Closing) (hopens : ¬ s.Fails url opened) :
    ∃ k, KeepsCount k ∧ (s.OpenFile url flags opened closing).1 =
      ((s.findOrCreate url).1.makeHandle (s.findOrCreate url).2).modify (s.findOrCreate url).2 k := by
  have hprotocol := protocol_made s url
  have hsame : ∀ (t : WebFileSystem) (p : Ptr), t.modify p (fun f => f) = t := by
    intro t p
    have hid : (t.files p).map (fun f => f) = t.files p := Option.map_id_apply
    rw [modify, hid, Function.update_eq_self]
  have hid : KeepsCount fun f => f := fun _ => ⟨rfl, rfl, rfl⟩
  unfold WebFileSystem.OpenFile WebFileSystem.openInRuntime
  dsimp only
  rw [hprotocol]
  split
  · exact ⟨_, hid, (hsame ..).symm⟩
  · next hbuffer =>
    cases opened with
    | threw => exact absurd ⟨hbuffer, rfl⟩ hopens
    | missing => exact absurd ⟨hbuffer, rfl⟩ hopens
    | opened buffer truncateThrows =>
      cases truncateThrows with
      | true => exact absurd ⟨hbuffer, rfl⟩ hopens
      | false => exact ⟨_, afterOpen_keepsCount flags buffer, rfl⟩

/-- No objects appear, and no handles. -/
structure Within (s s' : WebFileSystem) : Prop where
  nextPtr : s'.nextPtr = s.nextPtr
  nextHandle : s'.nextHandle = s.nextHandle
  files : ∀ p, s.files p = none → s'.files p = none

theorem Within.modify (s : WebFileSystem) (p : Ptr) (k : WebFile → WebFile) :
    s.Within (s.modify p k) := by
  refine ⟨rfl, rfl, fun q hq => ?_⟩
  rw [modify_files, hq]
  exact ite_self _

theorem Within.trans {s'' : WebFileSystem} (h : s.Within s') (h' : s'.Within s'') : s.Within s'' :=
  ⟨h'.nextPtr.trans h.nextPtr, h'.nextHandle.trans h.nextHandle, fun p hp => h'.files p (h.files p hp)⟩

theorem Within.forgetFound (s : WebFileSystem) (f : WebFile) : s.Within (s.forgetFound f) := by
  unfold WebFileSystem.forgetFound
  split <;> exact ⟨rfl, rfl, fun _ hp => hp⟩

theorem Within.close (s : WebFileSystem) (h : HandleId) (closing : Closing) :
    s.Within (s.Close h closing).1 := by
  cases hh : s.handles h with
  | none =>
    unfold WebFileSystem.Close
    rw [hh]
    exact ⟨rfl, rfl, fun _ hp => hp⟩
  | some p =>
    have hreleased : s.Within { s with handles := Function.update s.handles h none } :=
      ⟨rfl, rfl, fun _ hp => hp⟩
    cases hf : s.files p with
    | none =>
      unfold WebFileSystem.Close
      rw [hh]
      dsimp only
      rw [hf]
      exact hreleased
    | some f =>
      obtain ⟨k, -, hclose⟩ := Close_eq closing hh hf
      rw [hclose]
      have hmodified := hreleased.trans (.modify _ p k)
      split
      · exact hmodified.trans (.forgetFound _ f)
      · exact hmodified

/-- Only the file and the handle of this call are new after a failure. -/
theorem within_of_fails (flags : OpenFlags) (closing : Closing) (hs : s.Holding) (hfails : s.Fails url opened) :
    ((s.findOrCreate url).1.makeHandle (s.findOrCreate url).2).Within
      (s.OpenFile url flags opened closing).1 := by
  have hbuffer := hfails.1
  rw [← protocol_made] at hbuffer
  cases hf : ((s.findOrCreate url).1.makeHandle (s.findOrCreate url).2).files
      (s.findOrCreate url).2 with
  | none =>
    have hnone := protocol_made s url
    rw [hf] at hnone
    unfold protocolOf at hnone
    split at hnone
    · next p hp =>
      obtain ⟨f, hf', -⟩ := hs.by_name url p hp
      rw [hf'.1] at hnone
      cases hnone
    · cases hnone
  | some f =>
    have hprotocol : f.data_protocol ≠ .BUFFER := by
      rw [hf] at hbuffer
      exact fun heq => hbuffer (congrArg some heq)
    generalize hmade : (s.findOrCreate url).1.makeHandle (s.findOrCreate url).2 = made at *
    generalize hp : (s.findOrCreate url).2 = p at *
    have hopen : (s.OpenFile url flags opened closing).1 =
        if aborts flags opened
        then ((made.modify p (atEnd flags opened)).abortOpen p s.nextHandle closing).1
        else (made.Close s.nextHandle closing).1 := by
      unfold WebFileSystem.OpenFile
      dsimp only
      rw [hp, hmade]
      exact openInRuntime_fails hf hprotocol hfails.2
    rw [hopen]
    split
    · have hended : (made.modify p (atEnd flags opened)).files p = some (atEnd flags opened f) := by
        rw [modify_of_some hf, if_pos rfl]
      rw [abortOpen_eq hended]
      exact ((Within.modify ..).trans (.forgetFound ..)).trans (.close ..)
    · exact .close ..

/-- The handle count of the file of a name does not overflow: there are less handles than bytes. -/
def HasRoom (s : WebFileSystem) (n : String) : Prop :=
  ∀ p ∈ s.files_by_name.lookup n, ∀ f ∈ s.files p, f.handle_count.toNat + 1 < 2 ^ 32

end WebFileSystem

open WebFileSystem

/-- Ids are new when they are allocated, and every failure to open a file is undone. -/
def UndoesFailures (s : WebFileSystem) : Event → Prop
  | .RegisterFileURL n _ _ | .RegisterFileBuffer n =>
    (s.files_by_name.lookup n = none → s.IdIsNew) ∧ s.HasRoom n
  | .OpenFile url flags opened closing =>
    (s.files_by_name.lookup url = none → s.IdIsNew) ∧ s.HasRoom url ∧
      (s.Fails url opened → s.Undone url flags opened closing)
  | .Close .. | .TryDropFile _ | .DropDanglingFiles | .MoveFile .. => True

namespace WebFileSystem

variable {s : WebFileSystem} {p : Ptr}

theorem Holding.makeHandle_found {n : String} {k : WebFile → WebFile} (hs : s.Holding)
    (hk : KeepsCount k) (hroom : s.HasRoom n) (hp : s.files_by_name.lookup n = some p) :
    ((s.modify p k).makeHandle p).Holding := by
  obtain ⟨f, hf, -⟩ := hs.by_name n p hp
  have hmodified : (s.modify p k).Indexed p (k f) :=
    (modify_indexed_iff fun f => (hk f).1).mpr ⟨f, hf, (if_pos rfl).symm⟩
  refine (hs.modify hk).makeHandle hmodified ?_
  rw [(hk f).2.2]
  exact hroom p hp f hf.1

theorem Holding.makeHandle_created {n : String} {protocol : DataProtocol} {url : Option String}
    (hs : s.Holding) (hid : s.IdIsNew) :
    ((s.create n protocol url).makeHandle s.nextPtr).Holding := by
  obtain ⟨f, hf, -⟩ := create_indexed n protocol url hid
  refine (hs.create hid).makeHandle hf ?_
  have hnew := hf.1
  unfold WebFileSystem.create at hnew
  dsimp only at hnew
  rw [Function.update_self] at hnew
  obtain rfl := Option.some.inj hnew
  exact (by decide : 0 + 1 < 2 ^ 32)

/-- **Every call keeps the invariant**, if failures are undone. -/
theorem Holding.call {e : Event} (hs : s.Holding) (hok : UndoesFailures s e) :
    (call s e).1.Holding := by
  have hid : KeepsCount fun f => f := fun _ => ⟨rfl, rfl, rfl⟩
  have hsame : ∀ p : Ptr, s.modify p (fun f => f) = s := by
    intro p
    have hmap : (s.files p).map (fun f => f) = s.files p := Option.map_id_apply
    rw [WebFileSystem.modify, hmap, Function.update_eq_self]
  cases e with
  | RegisterFileURL n url protocol =>
    rw [WebFiles.call, WebFileSystem.RegisterFileURL]
    split
    · next p hp =>
      split
      · have hmade := hs.makeHandle_found hid hok.2 hp
        rw [hsame] at hmade
        exact hmade
      · exact hs
    · next hnone => exact hs.makeHandle_created (hok.1 hnone)
  | RegisterFileBuffer n =>
    rw [WebFiles.call, WebFileSystem.RegisterFileBuffer]
    split
    · next p hp => exact hs.makeHandle_found overwriteWithBuffer_keepsCount hok.2 hp
    · next hnone => exact hs.makeHandle_created (hok.1 hnone)
  | OpenFile url flags opened closing =>
    obtain ⟨hnew, hroom, hundone⟩ := hok
    have hmade : ((s.findOrCreate url).1.makeHandle (s.findOrCreate url).2).Holding := by
      unfold findOrCreate
      split
      · next p hp =>
        have hmade := hs.makeHandle_found hid hroom hp
        rw [hsame] at hmade
        exact hmade
      · next hnone => exact hs.makeHandle_created (hnew hnone)
    by_cases hfails : s.Fails url opened
    · have hwithin := within_of_fails flags closing hs hfails
      have hundo := (sameDirectory_iff hs hfails).mpr (hundone hfails)
      refine hundo.holding hs (fun q hq => ?_) ?_
      · have hq : (s.OpenFile url flags opened closing).1.nextPtr ≤ q := hq
        rw [hwithin.nextPtr] at hq
        exact hwithin.files q (hmade.fresh q hq)
      · show s.nextHandle ≤ (s.OpenFile url flags opened closing).1.nextHandle
        rw [hwithin.nextHandle]
        unfold findOrCreate
        split <;> exact Nat.le_succ _
    · obtain ⟨k, hk, hopen⟩ := OpenFile_of_opens flags closing hfails
      show (s.OpenFile url flags opened closing).1.Holding
      rw [hopen]
      exact hmade.modify hk
  | Close h closing => exact hs.close h closing
  | TryDropFile n => exact hs.tryDropFile n
  | DropDanglingFiles => exact hs.dropDanglingFiles
  | MoveFile source target => exact (hs.moveUrl source target).moveName source target

end WebFileSystem

/-- **Failures are undone and handles can be closed.** In every run in which failures to open a
file are undone, the file of every open handle is in the directory and nothing is ever erased that
is not there. A failure in such a state leaves the directory and the handles as they were if and
only if it is undone. -/
theorem failures_undone {protocol : DataProtocol} {es : List Event} {s : WebFileSystem}
    (hrun : Run step UndoesFailures (initial protocol) es s) :
    (∀ h p, s.handles h = some p → ∃ f, s.Indexed p f) ∧ s.undefined = false ∧
      ∀ url flags opened closing, s.Fails url opened →
        (s.SameDirectory (s.OpenFile url flags opened closing).1 ↔
          s.Undone url flags opened closing) := by
  have hs : s.Holding := hrun.invariant (initial_holding protocol) fun s e s' hs hok hstep => by
    obtain rfl := Option.some.inj hstep
    exact hs.call hok
  exact ⟨fun h p hh => (hs.handled h p hh).2, hs.defined,
    fun _ _ _ _ hfails => sameDirectory_iff hs hfails⟩

/-! Runs: failures that are undone, and one that is not. -/

namespace WebFileSystem

variable (s : WebFileSystem) (url : String) (flags : OpenFlags) (opened : Opened)
  (closing : Closing)

instance : Decidable (s.Fails url opened) := inferInstanceAs (Decidable (_ ≠ _ ∧ _))

instance : Decidable (s.HasRoom url) :=
  inferInstanceAs (Decidable (∀ p ∈ s.files_by_name.lookup url, ∀ f ∈ s.files p, _))

instance : Decidable (s.Undone url flags opened closing) :=
  match h : s.files_by_name.lookup url with
  | some p => decidable_of_iff (aborts flags opened = false ∧
      ∀ f ∈ s.files p, 0 < f.handle_count ∨ closing.have_file_lock = false) (by rw [Undone, h])
  | none => decidable_of_iff (s.files_by_url.lookup url = none ∧ s.IdIsNew ∧
      if aborts flags opened then (s.createdFile url flags opened).closeAction closing ≠ .erase
      else closing.have_file_lock = true) (by rw [Undone, h])

end WebFileSystem

instance (s : WebFileSystem) : (e : Event) → Decidable (UndoesFailures s e)
  | .RegisterFileURL .. | .RegisterFileBuffer _ => inferInstanceAs (Decidable ((_ = none → _) ∧ _))
  | .OpenFile .. => inferInstanceAs (Decidable ((_ = none → _) ∧ HasRoom _ _ ∧ (Fails .. → Undone ..)))
  | .Close .. | .TryDropFile _ | .DropDanglingFiles | .MoveFile .. =>
    inferInstanceAs (Decidable True)

/-- Two files that are not found: one that is in use, and one that is not registered. -/
def notFound : List Event :=
  [.RegisterFileURL "a" "http://x" .HTTP,
    .OpenFile "a" { returnNullIfNotExists := true } .missing {},
    .OpenFile "b" { returnNullIfNotExists := true } .missing {}]

theorem failures_undone_not_found : ∃ s, Run step UndoesFailures (initial .NODE_FS) notFound s ∧
    s.files_by_name.keys = ["a"] ∧ s.handles 0 = some 0 ∧ ∃ f, s.Indexed 0 f := by
  obtain ⟨s, hrun, hs⟩ := Run.exists_of_execute
    (show (execute step UndoesFailures (initial .NODE_FS) notFound).map
      (fun s => decide (s.files_by_name.keys = ["a"] ∧ s.handles 0 = some 0)) = some true
      by decide +kernel)
  obtain ⟨hkeys, hhandle⟩ := of_decide_eq_true hs
  exact ⟨s, hrun, hkeys, hhandle, (failures_undone hrun).1 0 0 hhandle⟩

/-- A registered file that somebody has a handle of cannot be opened: it leaves the directory, and
the handle is closed through an entry that is missing. -/
theorem open_fails_in_use : ∃ s, Run step Always (initial .NODE_FS)
    [.RegisterFileURL "a" "http://x" .HTTP] s ∧ s.handles 0 = some 0 ∧
    (s.OpenFile "a" {} .threw {}).2 = .threw ∧
    ¬ s.SameDirectory (s.OpenFile "a" {} .threw {}).1 ∧
    (((s.OpenFile "a" {} .threw {}).1).Close 0 {}).1.undefined = true := by
  refine ⟨_, .of_execute rfl, rfl, by decide +kernel, fun hsame => ?_, by decide +kernel⟩
  have hname := hsame.by_name "a"
  revert hname
  decide +kernel

end Haybarn.Io.WebFiles
