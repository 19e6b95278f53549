import Haybarn.Io.PageThreads

/-!
# What a step of the page buffer can do

`Move` lists the steps: where the thread was, what it found, and what the state is
afterwards. It is the only place where `step` is taken apart; every invariant is then a
case analysis of `Move`.
-/

namespace Haybarn.Io.PageBuffer

open Haybarn.Lib State

variable {Tid : Type} [DecidableEq Tid] {cfg : Config}

/-- What the underlying filesystem does to the disk when it opens an unbuffered file. -/
def Opened (s : State Tid) (path : String) (bytes : List UInt8) (s' : State Tid) : Prop :=
  s.pool.filesByName path = none ∧ bytes.length < 2 ^ 63 ∧
    s' = { s with disk := Function.update s.disk path bytes }

/-- One step of the thread `t`, case by case. -/
inductive Move (cfg : Config) (s : State Tid) (t : Tid) : Act Tid → State Tid → Prop
  /-- The call throws, or has nothing to do. -/
  | stay (act : Act Tid) : Move cfg s t act s
  /-- `OpenFile` throws after the file has been opened. -/
  | refused {path flags bytes s'} (h : s.place t = .idle) (ho : Opened s path bytes s') :
    Move cfg s t (.openFile path flags (some bytes)) s'
  | opened {path flags opened f file} (h : s.place t = .idle) (hd : s.dir = none)
      (hf : s.pool.files f = some file) :
    Move cfg s t (.openFile path flags opened) ((s.go t (s.pool.addRef f) none .idle).own t f)
  | openedReadable {path flags opened f file} (h : s.place t = .idle) (hd : s.dir = none)
      (hf : s.pool.files f = some file) :
    Move cfg s t (.openFile path flags opened) (s.go t (s.pool.addRef f) none (.reopen f))
  | openedNew {path flags bytes s' f P} (h : s.place t = .idle) (hd : s.dir = none)
      (ho : Opened s path bytes s') (hP : s.pool.openNew path flags bytes.length = .ok (f, P)) :
    Move cfg s t (.openFile path flags (some bytes)) ((s'.go t P none .idle).own t f)
  | reopenFailed {f} (h : s.place t = .reopen f) (hf : s.FileFree f) :
    Move cfg s t (.reopen none) (s.goto t (.releaseAll [f] true))
  | reopened {f bytes} (h : s.place t = .reopen f) (hf : s.FileFree f) :
    Move cfg s t (.reopen (some bytes))
      ({ s.goto t .idle with
        disk := Function.update s.disk (s.pool.path f) bytes }.own t f)
  | flushFile {path f} (h : s.place t = .idle) (hd : s.dir = none)
      (hf : s.pool.filesByName path = some f) :
    Move cfg s t (.flushFile path) (s.go t (s.pool.addRef f) none (.flushAll [f] [f]))
  | tryDropFile {path f} (h : s.place t = .idle) (hd : s.dir = none)
      (hf : s.pool.filesByName path = some f) :
    Move cfg s t (.tryDropFile path) (s.go t (s.pool.addRef f) none (.releaseAll [f] false))
  | flushAllFiles {order} (h : s.place t = .idle) (hd : s.dir = none)
      (ho : order.Perm s.pool.fileIds) :
    Move cfg s t (.flushFiles order)
      (s.go t (order.foldl .addRef s.pool) none (.flushAll order order))
  | dropDanglingFiles {order} (h : s.place t = .idle) (hd : s.dir = none)
      (ho : order.Perm s.pool.fileIds) :
    Move cfg s t (.dropDanglingFiles order)
      (s.go t (order.foldl .addRef s.pool) none (.releaseAll order false))
  | release {f keep} (h : s.place t = .idle) (hf : f ∈ s.held t) :
    Move cfg s t (.release f keep) { s.goto t (.releaseAll [f] keep) with
      held := Function.update s.held t ((s.held t).erase f) }
  -- `FixPage`
  | fixPage {owner f page x} (h : s.place t = .idle) (hf : f ∈ s.held owner)
      (hl : s.FileShareable f) :
    Move cfg s t (.fixPage owner f page x) (s.goto t (.fix ⟨f, BuildFrameID f page, x⟩))
  | fix {c} (h : s.place t = .fix c) (hd : s.dir = none) :
    Move cfg s t .go (s.go t s.pool (some t) (.look c))
  | absent {c} (h : s.place t = .look c) (hF : s.pool.frames c.frame = none) :
    Move cfg s t .go (s.go t s.pool (some t) (.allocate c))
  | foundNew {c F} (h : s.place t = .look c) (hF : s.pool.frames c.frame = some F)
      (hs : F.state = .new) :
    Move cfg s t .go (s.go t (s.pool.modifyFrame c.frame .pin) none (.waitNew c))
  | found {c F} (h : s.place t = .look c) (hF : s.pool.frames c.frame = some F)
      (hs : F.state ≠ .new) :
    Move cfg s t .go
      (s.go t ((s.pool.modifyFrame c.frame .claim).moveToLru c.frame) none (.latch c))
  | waited {c} (h : s.place t = .waitNew c) (hl : s.FrameFree c.frame) :
    Move cfg s t .go (s.goto t (.waitedNew c))
  | givenUp {c s'} (h : s.place t = .waitedNew c) (hd : s.dir = none)
      (hs : s' = s.lookAgain t c) : Move cfg s t .go s'
  | full {c} (h : s.place t = .allocate c) :
    Move cfg s t .go (s.go t s.pool (some t) (.scan c none))
  | notFull {c} (h : s.place t = .allocate c) :
    Move cfg s t .go (s.go t s.pool (some t) (.create c))
  | noVictim {c guard tryLock} (h : s.place t = .scan c guard) :
    Move cfg s t (.scan tryLock) (s.go t s.pool (some t) (.create c))
  | evictDirty {c guard tryLock g F} (h : s.place t = .scan c guard)
      (hF : s.pool.frames g = some F) (hu : F.numUsers = 0) (hs : F.state = .loaded)
      (hl : s.FileShareable (GetFileID g)) (hx : F.isDirty = true) :
    Move cfg s t (.scan tryLock)
      (s.go t (s.pool.modifyFrame g .beginEviction) none (.flushLatch (.evict c) g))
  | evictClean {c guard tryLock g F} (h : s.place t = .scan c guard)
      (hF : s.pool.frames g = some F) (hu : F.numUsers = 0) (hs : F.state = .loaded)
      (hl : s.FileShareable (GetFileID g)) (hx : F.isDirty = false) :
    Move cfg s t (.scan tryLock) (s.go t (s.pool.eraseFrame g) (some t) (.allocate c))
  | createdMeanwhile {c F} (h : s.place t = .create c) (hF : s.pool.frames c.frame = some F) :
    Move cfg s t .go (s.go t s.pool (some t) (.look c))
  | create {c} (h : s.place t = .create c) (hF : s.pool.frames c.frame = none) :
    Move cfg s t .go (s.go t (s.pool.insertFrame cfg c.frame) none (.read c))
  | read {c stale size bytes} (h : s.place t = .read c) (hlen : stale.length = cfg.pageSize)
      (hsize : size = s.pool.dataSize c.frame)
      (hbytes : bytes =
        slice (s.disk (s.pool.path c.file)) (GetPageID c.frame * cfg.pageSize) size) :
    Move cfg s t (.load stale)
      (s.go t (s.pool.modifyFrame c.frame fun F =>
        { F with data := (overwrite 0 stale 0 bytes).take size }) s.dir (.loaded c))
  | loaded {c} (h : s.place t = .loaded c) (hd : s.dir = none) :
    Move cfg s t .go
      (s.go t (s.pool.modifyFrame c.frame fun F => { F with state := .loaded, isDirty := false })
        none (if c.exclusive then .hold c false false else .latch c))
  | latchShared {c} (h : s.place t = .latch c) (hx : c.exclusive = false)
      (hl : s.FrameShareable c.frame) : Move cfg s t .go (s.goto t (.hold c false false))
  | latchExclusive {c} (h : s.place t = .latch c) (hx : c.exclusive = true)
      (hl : s.FrameFree c.frame) : Move cfg s t .go (s.goto t (.hold c false false))
  -- `BufferRef`
  | modify {c modified marked offset bytes} (h : s.place t = .hold c modified marked)
      (hx : c.exclusive = true)
      (hlen : offset + bytes.length ≤ (s.pool.dataOf c.frame).length) :
    Move cfg s t (.modify offset bytes)
      (s.go t (s.pool.modifyFrame c.frame fun F => { F with data := overwrite 0 F.data offset bytes })
        s.dir (.hold c true marked))
  | mark {c modified marked} (h : s.place t = .hold c modified marked) :
    Move cfg s t .markAsDirty
      (s.go t (s.pool.modifyFrame c.frame fun F => { F with isDirty := true }) s.dir
        (.hold c modified true))
  | unfix {c modified marked} (h : s.place t = .hold c modified marked) (hd : s.dir = none) :
    Move cfg s t .unfix
      ((s.complete c modified).go t (s.pool.modifyFrame c.frame .unpin) none .idle)
  -- `FlushFrame`
  | flushLatch {k g} (h : s.place t = .flushLatch k g) (hl : s.FrameShareable g) :
    Move cfg s t .go (s.goto t (.flushWrite k g))
  | write {k g} (h : s.place t = .flushWrite k g) (hx : s.pool.isDirty g = true) :
    Move cfg s t .go
      { s.go t (s.pool.modifyFrame g fun F => { F with isDirty := false }) s.dir (.flushed k g) with
        disk := Function.update s.disk (s.pool.path (GetFileID g))
          (overwrite 0 (s.disk (s.pool.path (GetFileID g))) (GetPageID g * cfg.pageSize)
            (s.pool.dataOf g)) }
  | noWrite {k g} (h : s.place t = .flushWrite k g) (hx : s.pool.isDirty g = false) :
    Move cfg s t .go (s.goto t (.flushed k g))
  | evictUsed {c g P} (h : s.place t = .flushed (.evict c) g) (hd : s.dir = none)
      (hP : P = (s.pool.modifyFrame g .unpin).modifyFrame g .unpin) (hu : 0 < P.users g) :
    Move cfg s t .go (s.go t P (some t) (.scan c (some (GetFileID g))))
  | evict {c g P} (h : s.place t = .flushed (.evict c) g) (hd : s.dir = none)
      (hP : P = (s.pool.modifyFrame g .unpin).modifyFrame g .unpin) (hu : P.users g = 0)
      (hs : P.stateOf g = some .evicting) :
    Move cfg s t .go (s.go t (P.eraseFrame g) (some t) (.allocate c))
  | evictReloaded {c g P} (h : s.place t = .flushed (.evict c) g) (hd : s.dir = none)
      (hP : P = (s.pool.modifyFrame g .unpin).modifyFrame g .unpin) (hu : P.users g = 0) :
    Move cfg s t .go
      (s.go t (P.modifyFrame g fun F => { F with state := .loaded }) (some t)
        (.scan c (some (GetFileID g))))
  | flushed {f k fs refs g P} (h : s.place t = .flushed (.flush f k fs refs) g) (hd : s.dir = none)
      (hP : P = s.pool.modifyFrame g .unpin) :
    Move cfg s t .go (s.go t P (some t) (.flushIter f (P.nextFrame f k) fs refs))
  | releaseFlushed {f k refs keep g P} (h : s.place t = .flushed (.release f k refs keep) g)
      (hd : s.dir = none) (hP : P = s.pool.modifyFrame g .unpin) :
    Move cfg s t .go
      (s.go t (P.eraseFrame g) (some t) (.releaseIter f (P.nextFrame f k) refs keep))
  -- `FileRef::Flush`
  | flush {owner f} (h : s.place t = .idle) (hf : f ∈ s.held owner) (hl : s.FileShareable f) :
    Move cfg s t (.flush owner f) (s.goto t (.flushLocked f [] []))
  | flushDone {refs} (h : s.place t = .flushAll [] refs) :
    Move cfg s t .go (s.goto t (.releaseAll refs true))
  | flushLock {f fs refs} (h : s.place t = .flushAll (f :: fs) refs) (hl : s.FileShareable f) :
    Move cfg s t .go (s.goto t (.flushLocked f fs refs))
  | flushStart {f fs refs} (h : s.place t = .flushLocked f fs refs) (hd : s.dir = none) :
    Move cfg s t .go (s.go t s.pool (some t) (.flushIter f (s.pool.beginFrames f) fs refs))
  | flushEnd {f fs refs} (h : s.place t = .flushIter f none fs refs) :
    Move cfg s t .go (s.go t s.pool none (.flushAll fs refs))
  | flushDirty {f k fs refs g} (h : s.place t = .flushIter f (some k) fs refs)
      (hg : s.pool.frameAt f k = some g) (hx : s.pool.isDirty g = true) :
    Move cfg s t .go
      (s.go t (s.pool.modifyFrame g .pin) none (.flushLatch (.flush f k fs refs) g))
  | flushClean {f k fs refs g} (h : s.place t = .flushIter f (some k) fs refs)
      (hg : s.pool.frameAt f k = some g) (hx : s.pool.isDirty g = false) :
    Move cfg s t .go (s.go t s.pool (some t) (.flushIter f (s.pool.nextFrame f k) fs refs))
  -- `FileRef::Release`
  | releaseDone {keep} (h : s.place t = .releaseAll [] keep) : Move cfg s t .go (s.goto t .idle)
  | releaseRef {f refs keep} (h : s.place t = .releaseAll (f :: refs) keep) (hd : s.dir = none) :
    Move cfg s t .go (s.go t (s.pool.dropRef f) none (.releaseAll refs keep))
  | releaseLast {f refs keep} (h : s.place t = .releaseAll (f :: refs) keep) (hd : s.dir = none) :
    Move cfg s t .go (s.go t s.pool none (.releaseWait f refs keep))
  | releaseLock {f refs keep} (h : s.place t = .releaseWait f refs keep) (hf : s.FileFree f) :
    Move cfg s t .go (s.goto t (.releaseLocked f refs keep))
  | releaseShared {f refs keep} (h : s.place t = .releaseLocked f refs keep) (hd : s.dir = none) :
    Move cfg s t .go (s.go t (s.pool.dropRef f) none (.releaseAll refs keep))
  | releaseStart {f refs keep} (h : s.place t = .releaseLocked f refs keep) (hd : s.dir = none) :
    Move cfg s t .go (s.go t s.pool (some t) (.releaseIter f (s.pool.beginFrames f) refs keep))
  | releaseKept {f refs keep} (h : s.place t = .releaseIter f none refs keep) :
    Move cfg s t .go (s.go t (s.pool.dropRef f) none (.releaseAll refs keep))
  | releaseErase {f refs keep} (h : s.place t = .releaseIter f none refs keep)
      (hr : (s.pool.dropRef f).references f = 0) :
    Move cfg s t .go (s.go t ((s.pool.dropRef f).eraseFile f) none (.releaseAll refs keep))
  | releaseDirty {f k refs keep g} (h : s.place t = .releaseIter f (some k) refs keep)
      (hg : s.pool.frameAt f k = some g) (hx : s.pool.isDirty g = true) :
    Move cfg s t .go
      (s.go t (s.pool.modifyFrame g .pin) none (.flushLatch (.release f k refs keep) g))
  | releaseClean {f k refs keep g} (h : s.place t = .releaseIter f (some k) refs keep)
      (hg : s.pool.frameAt f k = some g) (hx : s.pool.isDirty g = false) :
    Move cfg s t .go
      (s.go t (s.pool.eraseFrame g) (some t) (.releaseIter f (s.pool.nextFrame f k) refs keep))

/-! ## Every step is a move -/

section

variable {s s' : State Tid} {t : Tid} {act : Act Tid}

omit [DecidableEq Tid] in
theorem locking_eq {next : State Tid} : s.locking next = some s' ↔ s.dir = none ∧ next = s' := by
  unfold locking
  split <;> simp [*]

theorem move_of_openFile {path : String} {flags : FileFlags} {opened : Option (List UInt8)}
    (h : s.place t = .idle) (hd : s.dir = none)
    (ho : s.openFile t path flags opened = some s') :
    Move cfg s t (.openFile path flags opened) s' := by
  unfold State.openFile at ho
  split at ho
  next f hf =>
    obtain ⟨file, hfile, rfl⟩ := Option.map_eq_some_iff.mp ho
    have hadd : ∀ P b, s.pool.openAgain f file flags = .ok (P, b) → P = s.pool.addRef f := by
      intro P b hok
      unfold Pool.openAgain at hok
      split at hok
      · cases hok
      split at hok
      · cases hok
      split at hok
      · split at hok
        · cases hok
          rfl
        · split at hok
          · cases hok
          · cases hok
            rfl
      · cases hok
        rfl
    split
    next => exact .stay _
    next P hok =>
      rw [hadd P _ hok]
      exact .opened h hd hfile
    next P hok =>
      rw [hadd P _ hok]
      exact .openedReadable h hd hfile
  next hf =>
    unfold State.openUnbuffered at ho
    split at ho
    next =>
      obtain rfl := Option.some.inj ho
      exact .stay _
    next bytes =>
      split at ho
      next hlen =>
        split at ho
        next =>
          obtain rfl := Option.some.inj ho
          exact .refused h ⟨hf, hlen, rfl⟩
        next f P hP =>
          obtain rfl := Option.some.inj ho
          exact .openedNew h hd ⟨hf, hlen, rfl⟩ hP
      next => cases ho

theorem isDirty_of {P : Pool} {g : Nat} {F : Frame} (hF : P.frames g = some F) :
    P.isDirty g = F.isDirty := by
  rw [Pool.isDirty, hF, Option.map_some, Option.getD_some]

theorem move_of_look {c : Fix} (h : s.place t = .look c) : Move cfg s t .go (s.lookUp t c) := by
  unfold State.lookUp
  split
  next hF => exact .absent h hF
  next F hF =>
    split
    next hs => exact .foundNew h hF hs
    next hs => exact .found h hF hs

theorem move_of_create {c : Fix} (h : s.place t = .create c) :
    Move cfg s t .go (s.createFrame cfg t c) := by
  unfold State.createFrame
  split
  next F hF => exact .createdMeanwhile h hF
  next hF => exact .create h hF

theorem move_of_flushWrite {k : Flusher} {g : Nat} (h : s.place t = .flushWrite k g) :
    Move cfg s t .go (s.writeFrame cfg t k g) := by
  unfold State.writeFrame
  split
  next hx => exact .write h hx
  next hx => exact .noWrite h (Bool.eq_false_iff.mpr hx)

theorem move_of_flushed {k : Flusher} {g : Nat} (h : s.place t = .flushed k g)
    (hd : s.dir = none) : Move cfg s t .go (s.frameFlushed t k g) := by
  unfold State.frameFlushed
  split
  next c =>
    unfold State.evictFlushed
    dsimp only
    split
    next hu => exact .evictUsed h hd rfl hu
    next hu =>
      split
      next hs => exact .evict h hd rfl (Nat.eq_zero_of_not_pos hu) hs
      next => exact .evictReloaded h hd rfl (Nat.eq_zero_of_not_pos hu)
  next f k fs refs => exact .flushed h hd rfl
  next f k refs keep => exact .releaseFlushed h hd rfl

theorem move_of_flushIter {f : Nat} {k : Option Nat} {fs refs : List Nat}
    (h : s.place t = .flushIter f k fs refs) (hs : s.flushIteration t f k fs refs = some s') :
    Move cfg s t .go s' := by
  unfold State.flushIteration at hs
  split at hs
  next =>
    obtain rfl := Option.some.inj hs
    exact .flushEnd h
  next k =>
    obtain ⟨g, hg, rfl⟩ := Option.map_eq_some_iff.mp hs
    unfold State.flushFrame
    split
    next hx => exact .flushDirty h hg hx
    next hx => exact .flushClean h hg (Bool.eq_false_iff.mpr hx)

theorem move_of_releaseIter {f : Nat} {k : Option Nat} {refs : List Nat} {keep : Bool}
    (h : s.place t = .releaseIter f k refs keep)
    (hs : s.releaseIteration t f k refs keep = some s') : Move cfg s t .go s' := by
  unfold State.releaseIteration at hs
  split at hs
  next =>
    obtain rfl := Option.some.inj hs
    split
    next => exact .releaseKept h
    next hr => exact .releaseErase h (Nat.eq_zero_of_not_pos hr)
  next k =>
    obtain ⟨g, hg, rfl⟩ := Option.map_eq_some_iff.mp hs
    unfold State.flushFrame
    split
    next hx => exact .releaseDirty h hg hx
    next hx => exact .releaseClean h hg (Bool.eq_false_iff.mpr hx)

variable [Fintype Tid]

omit [DecidableEq Tid] in
theorem victim_spec {g : Nat} {tryLock : Nat → Bool}
    (h : s.pool.victim (fun f => tryLock f && decide (s.FileShareable f)) = some g) :
    ∃ F, s.pool.frames g = some F ∧ F.numUsers = 0 ∧ F.state = .loaded ∧
      s.FileShareable (GetFileID g) := by
  have hg := List.find?_some h
  rw [Bool.and_eq_true, Bool.and_eq_true, decide_eq_true_eq] at hg
  obtain ⟨hevict, -, hshare⟩ := hg
  unfold Pool.evictable at hevict
  split at hevict
  next F hF =>
    rw [Bool.and_eq_true, beq_iff_eq, beq_iff_eq] at hevict
    exact ⟨F, hF, hevict.1, hevict.2, hshare⟩
  next => cases hevict

theorem move_of_scan {c : Fix} {guard : Option Nat} {tryLock : Nat → Bool}
    (h : s.place t = .scan c guard) :
    Move cfg s t (.scan tryLock) (s.evictAnyBufferFrame t c tryLock) := by
  unfold State.evictAnyBufferFrame
  split
  next => exact .noVictim h
  next g hg =>
    obtain ⟨F, hF, hu, hs, hl⟩ := victim_spec hg
    rw [isDirty_of hF]
    split
    next hx => exact .evictDirty h hF hu hs hl hx
    next hx => exact .evictClean h hF hu hs hl (Bool.eq_false_iff.mpr hx)

theorem move_of_latch {c : Fix} (h : s.place t = .latch c) (hs : s.latchFrame t c = some s') :
    Move cfg s t .go s' := by
  unfold State.latchFrame at hs
  cases hx : c.exclusive with
  | true =>
    simp only [hx, if_true] at hs
    split at hs
    next hl =>
      obtain rfl := Option.some.inj hs
      exact .latchExclusive h hx hl
    next => cases hs
  | false =>
    simp only [hx, Bool.false_eq_true, if_false] at hs
    split at hs
    next hl =>
      obtain rfl := Option.some.inj hs
      exact .latchShared h hx hl
    next => cases hs

theorem move_of_idle (h : s.place t = .idle) (hs : step cfg s (t, act) = some s') :
    Move cfg s t act s' := by
  cases act <;> simp only [step, h, reduceCtorEq] at hs
  case openFile path flags opened =>
    split at hs
    next hd => exact move_of_openFile h hd hs
    next => cases hs
  case fixPage owner f page x =>
    unfold State.fixPage at hs
    split at hs
    next hf =>
      obtain rfl := Option.some.inj hs
      exact .fixPage h hf.1 hf.2
    next => cases hs
  case flush owner f =>
    unfold State.flush at hs
    split at hs
    next hf =>
      obtain rfl := Option.some.inj hs
      exact .flush h hf.1 hf.2
    next => cases hs
  case flushFile path =>
    obtain ⟨hd, rfl⟩ := locking_eq.mp hs
    unfold State.flushFile
    split
    next => exact .stay _
    next f hf => exact .flushFile h hd hf
  case flushFiles order =>
    split at hs
    next hd =>
      unfold State.referToAll at hs
      split at hs
      next ho =>
        obtain rfl := Option.some.inj hs
        exact .flushAllFiles h hd ho
      next => cases hs
    next => cases hs
  case release f keep =>
    unfold State.release at hs
    split at hs
    next hf =>
      obtain rfl := Option.some.inj hs
      exact .release h hf
    next => cases hs
  case tryDropFile path =>
    obtain ⟨hd, rfl⟩ := locking_eq.mp hs
    unfold State.tryDropFile
    split
    next => exact .stay _
    next f hf =>
      split
      next => exact .stay _
      next => exact .tryDropFile h hd hf
  case dropDanglingFiles order =>
    split at hs
    next hd =>
      unfold State.referToAll at hs
      split at hs
      next ho =>
        obtain rfl := Option.some.inj hs
        exact .dropDanglingFiles h hd ho
      next => cases hs
    next => cases hs

theorem move_of_hold {c : Fix} {modified marked : Bool} (h : s.place t = .hold c modified marked)
    (hs : step cfg s (t, act) = some s') : Move cfg s t act s' := by
  cases act <;> simp only [step, h, reduceCtorEq] at hs
  case modify offset bytes =>
    unfold State.modify at hs
    split at hs
    next hx =>
      obtain rfl := Option.some.inj hs
      exact .modify h hx.1 hx.2
    next => cases hs
  case markAsDirty =>
    unfold State.markAsDirty at hs
    split at hs
    next =>
      obtain rfl := Option.some.inj hs
      exact .mark h
    next => cases hs
  case unfix =>
    obtain ⟨hd, rfl⟩ := locking_eq.mp hs
    exact .unfix h hd

/-- **Every step is one of the moves.** -/
theorem step_move (hs : step cfg s (t, act) = some s') : Move cfg s t act s' := by
  cases h : s.place t with
  | idle => exact move_of_idle h hs
  | hold c modified marked => exact move_of_hold h hs
  | scan c guard =>
    cases act <;> simp only [step, h, reduceCtorEq, Option.some.injEq] at hs
    exact hs ▸ move_of_scan h
  | read c =>
    cases act <;> simp only [step, h, reduceCtorEq] at hs
    unfold State.readPage at hs
    split at hs
    next hlen =>
      obtain rfl := Option.some.inj hs
      exact .read h hlen rfl rfl
    next => cases hs
  | reopen f =>
    cases act <;> simp only [step, h, reduceCtorEq] at hs
    unfold State.reopen at hs
    split at hs
    next hf =>
      split at hs
      · obtain rfl := Option.some.inj hs
        exact .reopenFailed h hf
      · obtain rfl := Option.some.inj hs
        exact .reopened h hf
    next => cases hs
  | releaseAll refs keep =>
    cases refs with
    | nil =>
      cases act <;> simp only [step, h, reduceCtorEq, Option.some.injEq] at hs
      exact hs ▸ .releaseDone h
    | cons f refs =>
      cases act <;> simp only [step, h, reduceCtorEq, locking_eq] at hs
      obtain ⟨hd, rfl⟩ := hs
      unfold State.releaseRef
      split
      next => exact .releaseRef h hd
      next =>
        split
        next => exact .releaseRef h hd
        next => exact .releaseLast h hd
  | flushAll fs refs =>
    cases act <;> simp only [step, h, reduceCtorEq] at hs
    unfold State.flushFiles at hs
    split at hs
    next =>
      obtain rfl := Option.some.inj hs
      exact .flushDone h
    next f fs =>
      split at hs
      next hl =>
        obtain rfl := Option.some.inj hs
        exact .flushLock h hl
      next => cases hs
  | releaseLocked f refs keep =>
    cases act <;> simp only [step, h, reduceCtorEq, locking_eq] at hs
    obtain ⟨hd, rfl⟩ := hs
    unfold State.releaseFile
    split
    next => exact .releaseShared h hd
    next => exact .releaseStart h hd
  | allocate c =>
    cases act <;> simp only [step, h, reduceCtorEq, Option.some.injEq] at hs
    subst hs
    unfold State.allocateFrameBuffer
    split
    next => exact .full h
    next => exact .notFull h
  | _ =>
    cases act <;> simp only [step, h, reduceCtorEq, locking_eq, Option.some.injEq,
      Option.ite_none_right_eq_some] at hs
    first
    | exact hs ▸ move_of_look h
    | exact hs ▸ move_of_create h
    | exact hs ▸ move_of_flushWrite h
    | exact move_of_latch h hs
    | exact move_of_flushIter h hs
    | exact move_of_releaseIter h hs
    | exact hs.2 ▸ .fix h hs.1
    | exact hs.2 ▸ .waited h hs.1
    | exact .givenUp h hs.1 hs.2.symm
    | exact hs.2 ▸ .loaded h hs.1
    | exact hs.2 ▸ .flushLatch h hs.1
    | exact hs.2 ▸ move_of_flushed h hs.1
    | exact hs.2 ▸ .flushStart h hs.1
    | exact hs.2 ▸ .releaseLock h hs.1

end

end Haybarn.Io.PageBuffer
