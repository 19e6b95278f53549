import Haybarn.Io.PageBuffer
import Haybarn.Lib.Run
import Haybarn.Lib.Slice

/-!
# The threads of the page buffer

`step` runs threads through `FixPage`, `EvictAnyBufferFrame`, `FlushFrame`, `FileRef::Flush`,
`FileRef::Release`, `OpenFile` and the drops (lib/src/io/file_page_buffer.cc), from one
latch acquisition to the next; what runs under the directory latch is several steps.

Mirroring notes:

* The latches of files and of frames are not part of the state: who has which is read off
  the threads' places (`sharedFiles`, `exclusiveFile`, `sharedFrame`, `exclusiveFrame`).
  `dir` is the directory latch.
* A thread makes one call at a time; one that keeps a page fixed while it fixes another is
  two of these threads. A `FileRef` may be used by several threads; `held` says who
  destroys it.
* `try_lock` may fail whatever the latch says: a scan is given the files for which it
  succeeds. The order in which the files of an `unordered_map` come is arbitrary.
* A call of the underlying filesystem returns, except that opening a file may fail. What
  throws leaves the pool as it was.
* `latest` is not in the source: it records, for each page of each file, what the last
  thread that modified it left there.
-/

namespace Haybarn.Io.PageBuffer

open Haybarn.Lib

/-! ## Where a thread is -/

/-- A call of `FixPage`: the file, the frame id, the kind of latch. -/
structure Fix where
  file : Nat
  frame : Nat
  exclusive : Bool
  deriving DecidableEq

/-- Who has called `FlushFrame`. -/
inductive Flusher
  /-- `EvictAnyBufferFrame`, for a call of `FixPage`. -/
  | evict (c : Fix)
  /-- `FileRef::Flush`, at a position of the file's frame list; then the files `fs` are
  flushed, and then the references `refs` released. -/
  | flush (f k : Nat) (fs refs : List Nat)
  /-- `FileRef::Release`, at a position of the file's frame list; then the references `refs`
  are released. -/
  | release (f k : Nat) (refs : List Nat) (keepDangling : Bool)

inductive Place
  | idle
  /-- `FixPage` has the file lock and waits for the directory latch. -/
  | fix (c : Fix)
  /-- The head of its loop. -/
  | look (c : Fix)
  /-- It has found a frame in state `NEW` and waits for the frame latch. -/
  | waitNew (c : Fix)
  | waitedNew (c : Fix)
  /-- The head of the loop of `AllocateFrameBuffer`. -/
  | allocate (c : Fix)
  /-- The head of the loop of `EvictAnyBufferFrame`, with the file whose lock it has kept. -/
  | scan (c : Fix) (guard : Option Nat)
  /-- `AllocateFrameBuffer` has returned. -/
  | create (c : Fix)
  /-- `LoadFrame` has let go of the directory latch. -/
  | read (c : Fix)
  /-- `LoadFrame` has read the page and waits for the directory latch. -/
  | loaded (c : Fix)
  /-- `FixPage` waits for the frame latch. -/
  | latch (c : Fix)
  /-- `FixPage` has returned: the thread has a `BufferRef`. -/
  | hold (c : Fix) (modified marked : Bool)
  /-- `FlushFrame` waits for the frame latch. -/
  | flushLatch (k : Flusher) (g : Nat)
  /-- `FlushFrame` has the frame latch. -/
  | flushWrite (k : Flusher) (g : Nat)
  /-- `FlushFrame` waits for the directory latch. -/
  | flushed (k : Flusher) (g : Nat)
  /-- Flush the files `fs`, then release the references `refs`. -/
  | flushAll (fs refs : List Nat)
  /-- `FileRef::Flush` has the file lock and waits for the directory latch. -/
  | flushLocked (f : Nat) (fs refs : List Nat)
  /-- The head of its loop. -/
  | flushIter (f : Nat) (k : Option Nat) (fs refs : List Nat)
  /-- Release the references `refs`. -/
  | releaseAll (refs : List Nat) (keepDangling : Bool)
  /-- `FileRef::Release` waits for the file lock. -/
  | releaseWait (f : Nat) (refs : List Nat) (keepDangling : Bool)
  /-- It has the file lock and waits for the directory latch. -/
  | releaseLocked (f : Nat) (refs : List Nat) (keepDangling : Bool)
  /-- The head of its loop. -/
  | releaseIter (f : Nat) (k : Option Nat) (refs : List Nat) (keepDangling : Bool)
  /-- `ReOpen` waits for the file lock. -/
  | reopen (f : Nat)

namespace Place

/-- The files that a thread has locked as shared. -/
def sharedFiles : Place → List Nat
  | fix c | look c | waitNew c | waitedNew c | allocate c | create c | read c | loaded c
  | latch c | hold c _ _ => [c.file]
  | scan c guard => c.file :: guard.toList
  | flushLatch (.evict c) g | flushWrite (.evict c) g | flushed (.evict c) g =>
    [c.file, GetFileID g]
  | flushLatch (.flush f ..) _ | flushWrite (.flush f ..) _ | flushed (.flush f ..) _
  | flushLocked f .. | flushIter f .. => [f]
  | _ => []

/-- The file that a thread has locked as exclusive. -/
def exclusiveFile : Place → Option Nat
  | flushLatch (.release f ..) _ | flushWrite (.release f ..) _ | flushed (.release f ..) _
  | releaseLocked f .. | releaseIter f .. => some f
  | _ => none

/-- The frame that a thread has latched as shared. -/
def sharedFrame : Place → Option Nat
  | hold c _ _ => if c.exclusive then none else some c.frame
  | flushWrite _ g => some g
  | _ => none

/-- The frame that a thread has latched as exclusive. -/
def exclusiveFrame : Place → Option Nat
  | read c | loaded c => some c.frame
  | hold c _ _ => if c.exclusive then some c.frame else none
  | _ => none

/-- The thread has the directory latch. -/
def inDirectory : Place → Bool
  | look _ | allocate _ | scan .. | create _ | flushIter .. | releaseIter .. => true
  | _ => false

end Place

structure State (Tid : Type) where
  pool : Pool
  dir : Option Tid
  place : Tid → Place
  /-- The `FileRef`s that a thread owns. -/
  held : Tid → List Nat
  /-- The files of the underlying filesystem. -/
  disk : String → List UInt8
  /-- The last completed modification of each page. -/
  latest : String → Nat → List UInt8

/-- The bytes of a page of a file. -/
def pageOf (cfg : Config) (bytes : List UInt8) (page : Nat) : List UInt8 :=
  slice bytes (page * cfg.pageSize) cfg.pageSize

/-- What a thread does next, where it is not the source that says so. -/
inductive Act (Tid : Type)
  /-- The next segment of the call. -/
  | go
  /-- The next segment is a scan for a victim: the files whose lock it gets. -/
  | scan (tryLock : Nat → Bool)
  /-- The next segment is the read of `LoadFrame`: what has been in the page buffer. -/
  | load (stale : List UInt8)
  /-- `OpenFile`; the contents of the file, if the underlying filesystem opens it. -/
  | openFile (path : String) (flags : FileFlags) (opened : Option (List UInt8))
  /-- `ReOpen` gets the lock; the contents of the file, if it is opened. -/
  | reopen (opened : Option (List UInt8))
  /-- `FixPage` of a `FileRef` of `owner`. -/
  | fixPage (owner : Tid) (f page : Nat) (exclusive : Bool)
  /-- Write into the span of an exclusively fixed page. -/
  | modify (offset : Nat) (bytes : List UInt8)
  | markAsDirty
  /-- `BufferRef::Release` -/
  | unfix
  /-- `FileRef::Flush` of a `FileRef` of `owner`. -/
  | flush (owner : Tid) (f : Nat)
  | flushFile (path : String)
  /-- `FlushFiles`; the order in which `files` has them. -/
  | flushFiles (order : List Nat)
  /-- `FileRef::Release` -/
  | release (f : Nat) (keepDangling : Bool)
  | tryDropFile (path : String)
  | dropDanglingFiles (order : List Nat)

/-! ## The segments

Each definition below is what a thread does from one place to the next. -/

namespace State

variable {Tid : Type} [DecidableEq Tid] [Fintype Tid] (cfg : Config) (s : State Tid) (t : Tid)

/-- All files are on the disk and nothing is buffered. -/
def initial (disk : String → List UInt8) : State Tid where
  pool := .empty
  dir := none
  place := fun _ => .idle
  held := fun _ => []
  disk := disk
  latest := fun path page => pageOf cfg (disk path) page

/-- Nobody has locked the file as exclusive. -/
def FileShareable (f : Nat) : Prop := ∀ q, (s.place q).exclusiveFile ≠ some f

/-- Nobody has locked the file. -/
def FileFree (f : Nat) : Prop :=
  ∀ q, (s.place q).exclusiveFile ≠ some f ∧ f ∉ (s.place q).sharedFiles

def FrameShareable (g : Nat) : Prop := ∀ q, (s.place q).exclusiveFrame ≠ some g

def FrameFree (g : Nat) : Prop :=
  ∀ q, (s.place q).exclusiveFrame ≠ some g ∧ (s.place q).sharedFrame ≠ some g

instance (f : Nat) : Decidable (s.FileShareable f) := inferInstanceAs (Decidable (∀ _, _))
instance (f : Nat) : Decidable (s.FileFree f) := inferInstanceAs (Decidable (∀ _, _))
instance (g : Nat) : Decidable (s.FrameShareable g) := inferInstanceAs (Decidable (∀ _, _))
instance (g : Nat) : Decidable (s.FrameFree g) := inferInstanceAs (Decidable (∀ _, _))

/-- The thread is at `pc` now; the pool and the directory latch are these. -/
def go (P : Pool) (dir : Option Tid) (pc : Place) : State Tid :=
  { s with pool := P, dir := dir, place := Function.update s.place t pc }

/-- The thread is at `pc` now. -/
def goto (pc : Place) : State Tid := s.go t s.pool s.dir pc

/-- The thread owns one more reference. -/
def own (f : Nat) : State Tid := { s with held := Function.update s.held t (f :: s.held t) }

/-- The directory latch is taken; then `next`. -/
def locking (next : State Tid) : Option (State Tid) := if s.dir = none then some next else none

/-! ### `FixPage` -/

def fixPage (owner : Tid) (f page : Nat) (exclusive : Bool) : Option (State Tid) :=
  if f ∈ s.held owner ∧ s.FileShareable f then
    some (s.goto t (.fix ⟨f, BuildFrameID f page, exclusive⟩))
  else none

def lookUp (c : Fix) : State Tid :=
  match s.pool.frames c.frame with
  | none => s.go t s.pool (some t) (.allocate c)
  | some F =>
    if F.state = .new then s.go t (s.pool.modifyFrame c.frame .pin) none (.waitNew c)
    else s.go t ((s.pool.modifyFrame c.frame .claim).moveToLru c.frame) none (.latch c)

/-- The thread that was to load the page is done, or has given up. -/
def lookAgain (c : Fix) : State Tid :=
  match s.pool.frames c.frame with
  | none => s
  | some F =>
    if F.state = .new then
      let P := s.pool.modifyFrame c.frame .unpin
      s.go t (if P.users c.frame = 0 then P.eraseFrame c.frame else P) (some t) (.look c)
    else s.go t (s.pool.moveToLru c.frame) none (.latch c)

def allocateFrameBuffer (c : Fix) : State Tid :=
  s.go t s.pool (some t) <|
    if cfg.pageCapacity ≤ s.pool.frameCount then .scan c none else .create c

def evictAnyBufferFrame (c : Fix) (tryLock : Nat → Bool) : State Tid :=
  match s.pool.victim fun f => tryLock f && decide (s.FileShareable f) with
  | none => s.go t s.pool (some t) (.create c)
  | some g =>
    if s.pool.isDirty g then
      s.go t (s.pool.modifyFrame g .beginEviction) none (.flushLatch (.evict c) g)
    else s.go t (s.pool.eraseFrame g) (some t) (.allocate c)

/-- `EvictAnyBufferFrame` has the directory latch again. -/
def evictFlushed (c : Fix) (g : Nat) : State Tid :=
  let P := (s.pool.modifyFrame g .unpin).modifyFrame g .unpin
  if 0 < P.users g then s.go t P (some t) (.scan c (some (GetFileID g)))
  else if P.stateOf g = some .evicting then s.go t (P.eraseFrame g) (some t) (.allocate c)
  else
    s.go t (P.modifyFrame g fun F => { F with state := .loaded }) (some t)
      (.scan c (some (GetFileID g)))

def createFrame (c : Fix) : State Tid :=
  match s.pool.frames c.frame with
  | some _ => s.go t s.pool (some t) (.look c)
  | none => s.go t (s.pool.insertFrame cfg c.frame) none (.read c)

/-- `LoadFrame` reads the page into a buffer that has had other contents before. -/
def readPage (c : Fix) (stale : List UInt8) : Option (State Tid) :=
  if stale.length = cfg.pageSize then
    let size := s.pool.dataSize c.frame
    let bytes := slice (s.disk (s.pool.path c.file)) (GetPageID c.frame * cfg.pageSize) size
    let P := s.pool.modifyFrame c.frame fun F =>
      { F with data := (overwrite 0 stale 0 bytes).take size }
    some (s.go t P s.dir (.loaded c))
  else none

def frameLoaded (c : Fix) : State Tid :=
  s.go t (s.pool.modifyFrame c.frame fun F => { F with state := .loaded, isDirty := false }) none
    (if c.exclusive then .hold c false false else .latch c)

def latchFrame (c : Fix) : Option (State Tid) :=
  if (if c.exclusive then s.FrameFree c.frame else s.FrameShareable c.frame) then
    some (s.goto t (.hold c false false))
  else none

/-! ### `BufferRef` -/

def modify (c : Fix) (marked : Bool) (offset : Nat) (bytes : List UInt8) : Option (State Tid) :=
  if c.exclusive = true ∧ offset + bytes.length ≤ (s.pool.dataOf c.frame).length then
    let P := s.pool.modifyFrame c.frame fun F => { F with data := overwrite 0 F.data offset bytes }
    some (s.go t P s.dir (.hold c true marked))
  else none

def markAsDirty (c : Fix) (modified : Bool) : Option (State Tid) :=
  if s.pool.forWriting c.file then
    let P := s.pool.modifyFrame c.frame fun F => { F with isDirty := true }
    some (s.go t P s.dir (.hold c modified true))
  else none

/-- What the page is from now on. -/
def complete (c : Fix) (modified : Bool) : State Tid :=
  if modified then
    let path := s.pool.path c.file
    { s with latest := Function.update s.latest path <|
        Function.update (s.latest path) (GetPageID c.frame) (s.pool.dataOf c.frame) }
  else s

def releaseBuffer (c : Fix) (modified : Bool) : State Tid :=
  (s.complete c modified).go t (s.pool.modifyFrame c.frame .unpin) none .idle

/-! ### `FlushFrame` and `FileRef::Flush` -/

/-- `FlushFrame` of the frame of an iteration: straight to `clean`, if it is clean. -/
def flushFrame (k : Flusher) (g : Nat) (clean : State Tid) : State Tid :=
  if s.pool.isDirty g then s.go t (s.pool.modifyFrame g .pin) none (.flushLatch k g) else clean

def writeFrame (k : Flusher) (g : Nat) : State Tid :=
  if s.pool.isDirty g then
    let path := s.pool.path (GetFileID g)
    { s.go t (s.pool.modifyFrame g fun F => { F with isDirty := false }) s.dir (.flushed k g) with
      disk := Function.update s.disk path <|
        overwrite 0 (s.disk path) (GetPageID g * cfg.pageSize) (s.pool.dataOf g) }
  else s.goto t (.flushed k g)

/-- The frame of an iteration of `FileRef::Flush` is flushed: to the next one. -/
def flushNext (P : Pool) (f k : Nat) (fs refs : List Nat) : State Tid :=
  s.go t P (some t) (.flushIter f (P.nextFrame f k) fs refs)

/-- That of an iteration of `FileRef::Release`: erase the frame. -/
def releaseNext (P : Pool) (f k g : Nat) (refs : List Nat) (keepDangling : Bool) : State Tid :=
  s.go t (P.eraseFrame g) (some t) (.releaseIter f (P.nextFrame f k) refs keepDangling)

/-- `FlushFrame` has the directory latch again. -/
def frameFlushed (k : Flusher) (g : Nat) : State Tid :=
  match k with
  | .evict c => s.evictFlushed t c g
  | .flush f k fs refs => s.flushNext t (s.pool.modifyFrame g .unpin) f k fs refs
  | .release f k refs keep => s.releaseNext t (s.pool.modifyFrame g .unpin) f k g refs keep

def flushFiles (fs refs : List Nat) : Option (State Tid) :=
  match fs with
  | [] => some (s.goto t (.releaseAll refs true))
  | f :: rest =>
    if s.FileShareable f then some (s.goto t (.flushLocked f rest refs)) else none

def flush (owner : Tid) (f : Nat) : Option (State Tid) :=
  if f ∈ s.held owner ∧ s.FileShareable f then some (s.goto t (.flushLocked f [] [])) else none

def flushIteration (f : Nat) (k : Option Nat) (fs refs : List Nat) : Option (State Tid) :=
  match k with
  | none => some (s.go t s.pool none (.flushAll fs refs))
  | some k =>
    (s.pool.frameAt f k).map fun g =>
      s.flushFrame t (.flush f k fs refs) g (s.flushNext t s.pool f k fs refs)

/-! ### `FileRef::Release` -/

def releaseRef (f : Nat) (refs : List Nat) (keepDangling : Bool) : State Tid :=
  if 1 < s.pool.references f then s.go t (s.pool.dropRef f) none (.releaseAll refs keepDangling)
  else if keepDangling && s.pool.forReading f then
    -- leave buffered pages dangling and clean up later
    s.go t (s.pool.dropRef f) none (.releaseAll refs keepDangling)
  else s.go t s.pool none (.releaseWait f refs keepDangling)

/-- With the file lock. Someone may have opened the file in the meantime. -/
def releaseFile (f : Nat) (refs : List Nat) (keepDangling : Bool) : State Tid :=
  if 1 < s.pool.references f then s.go t (s.pool.dropRef f) none (.releaseAll refs keepDangling)
  else s.go t s.pool (some t) (.releaseIter f (s.pool.beginFrames f) refs keepDangling)

def releaseIteration (f : Nat) (k : Option Nat) (refs : List Nat) (keepDangling : Bool) :
    Option (State Tid) :=
  match k with
  | none =>
    let P := s.pool.dropRef f
    some (s.go t (if 0 < P.references f then P else P.eraseFile f) none
      (.releaseAll refs keepDangling))
  | some k =>
    (s.pool.frameAt f k).map fun g =>
      s.flushFrame t (.release f k refs keepDangling) g
        (s.releaseNext t s.pool f k g refs keepDangling)

def release (f : Nat) (keepDangling : Bool) : Option (State Tid) :=
  if f ∈ s.held t then
    some { s.goto t (.releaseAll [f] keepDangling) with
      held := Function.update s.held t ((s.held t).erase f) }
  else none

/-! ### `OpenFile` and the drops -/

/-- The path of a file that is there. -/
def openBuffered (f : Nat) (flags : FileFlags) : Option (State Tid) :=
  (s.pool.files f).map fun file =>
    match s.pool.openAgain f file flags with
    | .error _ => s
    | .ok (P, false) => (s.go t P none .idle).own t f
    | .ok (P, true) => s.go t P none (.reopen f)

/-- The path of a file that is not there. The size of a file is an `int64_t`. -/
def openUnbuffered (path : String) (flags : FileFlags) (opened : Option (List UInt8)) :
    Option (State Tid) :=
  match opened with
  | none => some s
  | some bytes =>
    if bytes.length < 2 ^ 63 then
      let s' := { s with disk := Function.update s.disk path bytes }
      match s.pool.openNew path flags bytes.length with
      | .error _ => some s'
      | .ok (f, P) => some ((s'.go t P none .idle).own t f)
    else none

def openFile (path : String) (flags : FileFlags) (opened : Option (List UInt8)) :
    Option (State Tid) :=
  match s.pool.filesByName path with
  | some f => s.openBuffered t f flags
  | none => s.openUnbuffered t path flags opened

/-- The file is opened with the new flags and its handle replaced. If that throws, the new
reference is destroyed. -/
def reopen (f : Nat) (opened : Option (List UInt8)) : Option (State Tid) :=
  if s.FileFree f then
    match opened with
    | none => some (s.goto t (.releaseAll [f] true))
    | some bytes =>
      some ({ s.goto t .idle with
        disk := Function.update s.disk (s.pool.path f) bytes }.own t f)
  else none

def flushFile (path : String) : State Tid :=
  match s.pool.filesByName path with
  | none => s
  | some f => s.go t (s.pool.addRef f) none (.flushAll [f] [f])

/-- References to all files. -/
def referToAll (order : List Nat) (pc : Place) : Option (State Tid) :=
  if order.Perm s.pool.fileIds then some (s.go t (order.foldl .addRef s.pool) none pc) else none

def tryDropFile (path : String) : State Tid :=
  match s.pool.filesByName path with
  | none => s
  | some f =>
    if 0 < s.pool.references f then s
    else s.go t (s.pool.addRef f) none (.releaseAll [f] false)

end State

/-! ## Steps -/

variable {Tid : Type} [DecidableEq Tid] [Fintype Tid]

/-- One step of a thread. -/
def step (cfg : Config) (s : State Tid) : Tid × Act Tid → Option (State Tid)
  | (t, act) =>
    match s.place t, act with
    | .idle, .openFile path flags opened =>
      if s.dir = none then s.openFile t path flags opened else none
    | .idle, .fixPage owner f page exclusive => s.fixPage t owner f page exclusive
    | .idle, .flush owner f => s.flush t owner f
    | .idle, .flushFile path => s.locking (s.flushFile t path)
    | .idle, .flushFiles order =>
      if s.dir = none then s.referToAll t order (.flushAll order order) else none
    | .idle, .release f keep => s.release t f keep
    | .idle, .tryDropFile path => s.locking (s.tryDropFile t path)
    | .idle, .dropDanglingFiles order =>
      if s.dir = none then s.referToAll t order (.releaseAll order false) else none
    | .fix c, .go => s.locking (s.go t s.pool (some t) (.look c))
    | .look c, .go => some (s.lookUp t c)
    | .waitNew c, .go => if s.FrameFree c.frame then some (s.goto t (.waitedNew c)) else none
    | .waitedNew c, .go => s.locking (s.lookAgain t c)
    | .allocate c, .go => some (s.allocateFrameBuffer cfg t c)
    | .scan c _, .scan tryLock => some (s.evictAnyBufferFrame t c tryLock)
    | .create c, .go => some (s.createFrame cfg t c)
    | .read c, .load stale => s.readPage cfg t c stale
    | .loaded c, .go => s.locking (s.frameLoaded t c)
    | .latch c, .go => s.latchFrame t c
    | .hold c _ marked, .modify offset bytes => s.modify t c marked offset bytes
    | .hold c modified _, .markAsDirty => s.markAsDirty t c modified
    | .hold c modified _, .unfix => s.locking (s.releaseBuffer t c modified)
    | .flushLatch k g, .go =>
      if s.FrameShareable g then some (s.goto t (.flushWrite k g)) else none
    | .flushWrite k g, .go => some (s.writeFrame cfg t k g)
    | .flushed k g, .go => s.locking (s.frameFlushed t k g)
    | .flushAll fs refs, .go => s.flushFiles t fs refs
    | .flushLocked f fs refs, .go =>
      s.locking (s.go t s.pool (some t) (.flushIter f (s.pool.beginFrames f) fs refs))
    | .flushIter f k fs refs, .go => s.flushIteration t f k fs refs
    | .releaseAll [] _, .go => some (s.goto t .idle)
    | .releaseAll (f :: refs) keep, .go => s.locking (s.releaseRef t f refs keep)
    | .releaseWait f refs keep, .go =>
      if s.FileFree f then some (s.goto t (.releaseLocked f refs keep)) else none
    | .releaseLocked f refs keep, .go => s.locking (s.releaseFile t f refs keep)
    | .releaseIter f k refs keep, .go => s.releaseIteration t f k refs keep
    | .reopen f, .reopen opened => s.reopen t f opened
    | _, _ => none

end Haybarn.Io.PageBuffer
