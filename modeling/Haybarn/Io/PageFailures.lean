import Haybarn.Io.PageRun

/-!
# Page loads that fail

`LoadFrame` (lib/src/io/file_page_buffer.cc) has let go of the directory latch and calls the
filesystem underneath. What if that throws? `FixPage` has put the frame into the dictionary and
into the FIFO queue, has counted itself as its user and has marked it as `LOADING`, and none of it
is behind a guard: the exception takes the latches away and leaves the rest.

Mirroring notes:
- A read that throws leaves anything in the page buffer: what was there before, and as much of the
  page as has been read.
- The call throws, and so does every call that it was made for; the thread is `idle` again.
-/

namespace Haybarn.Io.PageBuffer

open Haybarn.Lib State

/-- A step of a thread, or the read of its `LoadFrame` throws and leaves `junk` in the page
buffer. -/
inductive Event (Tid : Type)
  | runs (t : Tid) (act : Act Tid)
  | readThrows (t : Tid) (junk : List UInt8)

variable {Tid : Type} [DecidableEq Tid]

/-- `LoadFrame` is left by an exception, which releases the frame latch and the file lock. -/
def State.loadThrows (cfg : Config) (s : State Tid) (t : Tid) (c : Fix) (junk : List UInt8) :
    Option (State Tid) :=
  if junk.length = cfg.pageSize then
    let size := s.pool.dataSize c.frame
    some (s.go t (s.pool.modifyFrame c.frame fun F => { F with data := junk.take size }) s.dir .idle)
  else none

variable [Fintype Tid]

/-- One step, with reads that may throw. -/
def stepOrThrow (cfg : Config) (s : State Tid) : Event Tid → Option (State Tid)
  | .runs t act => step cfg s (t, act)
  | .readThrows t junk =>
    match s.place t with
    | .read c => s.loadThrows cfg t c junk
    | _ => none

/-- What is wanted of a call of `FixPage` whose read has thrown: `s` is the state before the read,
`s'` the one after the exception. -/
structure LeavesNoTrace (cfg : Config) (s : State Tid) (t : Tid) (c : Fix) (s' : State Tid) :
    Prop where
  /-- The call no longer counts as a user of any frame. -/
  users : ∀ g, s'.pool.users g + (s.place t).uses g = s.pool.users g
  /-- A frame that is not loaded is being loaded. -/
  usable : ∀ g, s'.pool.stateOf g = some .loading → ∃ q, (s'.place q).loads g
  /-- Whoever fixes the page later, and has not written into it, has what the file has there. -/
  bytes : ∀ es s'', Run (stepOrThrow cfg) Always s' es s'' → ∀ q c' marked,
    s''.place q = .hold c' false marked → c'.frame = c.frame →
      s''.pool.dataOf c'.frame = s''.latest (s''.pool.path c'.file) (GetPageID c'.frame)

/-! ## What the exception leaves -/

section

variable {cfg : Config} {s s' : State Tid} {t : Tid} {c : Fix} {junk : List UInt8}

omit [Fintype Tid] in
theorem loadThrows_eq (h : s.loadThrows cfg t c junk = some s') :
    s' = s.go t (s.pool.modifyFrame c.frame fun F =>
      { F with data := junk.take (s.pool.dataSize c.frame) }) s.dir .idle := by
  unfold State.loadThrows at h
  split at h
  · exact (Option.some.inj h).symm
  · cases h

omit [Fintype Tid] in
/-- The frames keep their users. -/
theorem users_loadThrows (h : s.loadThrows cfg t c junk = some s') (g : Nat) :
    s'.pool.users g = s.pool.users g := by
  rw [loadThrows_eq h]
  exact Pool.users_keep fun _ => rfl

/-- **A load that throws always leaves a trace**: the thread is still counted as a user of the
frame, whichever state it has found and whatever the read has left in the page buffer. -/
theorem failing_load_leaves_trace (cfg : Config) (s s' : State Tid) (t : Tid) (c : Fix)
    (junk : List UInt8) (hread : s.place t = .read c)
    (hthrow : stepOrThrow cfg s (.readThrows t junk) = some s') :
    ¬ LeavesNoTrace cfg s t c s' := by
  intro h
  rw [stepOrThrow, hread] at hthrow
  have husers := h.users c.frame
  rw [users_loadThrows hthrow, hread, Place.uses, if_pos rfl] at husers
  omega

/-! ## Who fixes the page next

The frame is in the dictionary, and its state is not `NEW`. -/

theorem dataOf_fixed {P : Pool} (g : Nat) :
    ((P.modifyFrame g .claim).moveToLru g).dataOf g = P.dataOf g := by
  rw [Pool.dataOf, Pool.map_moveToLru Frame.data fun _ _ _ => rfl, Pool.map_modifyFrame, if_pos rfl]
  rfl

/-- **`FixPage` returns what is in the frame** without reading it, whether or not it has ever been
read, as soon as nobody else has the latches. -/
theorem fixPage_returns_frame (cfg : Config) {s : State Tid} {q owner : Tid} {f page : Nat}
    {exclusive : Bool} {F : Frame} (hidle : s.place q = .idle) (hheld : f ∈ s.held owner)
    (hfile : s.FileShareable f) (hdir : s.dir = none)
    (hframe : s.pool.frames (BuildFrameID f page) = some F) (hstate : F.state ≠ .new)
    (hlatch : s.FrameFree (BuildFrameID f page)) :
    ∃ s', Run (stepOrThrow cfg) Always s
        [.runs q (.fixPage owner f page exclusive), .runs q .go, .runs q .go, .runs q .go] s'
      ∧ s'.place q = .hold ⟨f, BuildFrameID f page, exclusive⟩ false false
      ∧ s'.pool.dataOf (BuildFrameID f page) = F.data := by
  generalize hg : BuildFrameID f page = g at *
  let c : Fix := ⟨f, g, exclusive⟩
  let s₁ := s.goto q (.fix c)
  let s₂ := s₁.go q s₁.pool (some q) (.look c)
  let s₃ := s₂.go q ((s₂.pool.modifyFrame g .claim).moveToLru g) none (.latch c)
  let s₄ := s₃.goto q (.hold c false false)
  have h₁ : stepOrThrow cfg s (.runs q (.fixPage owner f page exclusive)) = some s₁ := by
    show step cfg s (q, .fixPage owner f page exclusive) = some s₁
    simp only [step, hidle]
    unfold State.fixPage
    rw [if_pos ⟨hheld, hfile⟩, hg]
  have h₂ : stepOrThrow cfg s₁ (.runs q .go) = some s₂ := by
    have hplace : s₁.place q = .fix c := Function.update_self ..
    show step cfg s₁ (q, .go) = some s₂
    simp only [step, hplace]
    exact locking_eq.mpr ⟨hdir, rfl⟩
  have h₃ : stepOrThrow cfg s₂ (.runs q .go) = some s₃ := by
    have hplace : s₂.place q = .look c := Function.update_self ..
    have hF : s₂.pool.frames c.frame = some F := hframe
    show step cfg s₂ (q, .go) = some s₃
    simp only [step, hplace]
    unfold State.lookUp
    rw [hF]
    dsimp only
    rw [if_neg hstate]
  have hfree : s₃.FrameFree g := by
    intro p
    by_cases hp : p = q
    · have hplace : s₃.place p = .latch c := by rw [hp]; exact Function.update_self ..
      rw [hplace]
      exact ⟨by simp [Place.exclusiveFrame], by simp [Place.sharedFrame]⟩
    · have hplace : s₃.place p = s.place p := by
        show Function.update (Function.update (Function.update s.place q _) q _) q _ p = s.place p
        rw [Function.update_of_ne hp, Function.update_of_ne hp, Function.update_of_ne hp]
      rw [hplace]
      exact hlatch p
  have h₄ : stepOrThrow cfg s₃ (.runs q .go) = some s₄ := by
    have hplace : s₃.place q = .latch c := Function.update_self ..
    show step cfg s₃ (q, .go) = some s₄
    simp only [step, hplace]
    unfold State.latchFrame
    rw [if_pos]
    split
    · exact hfree
    · exact fun p => (hfree p).1
  refine ⟨s₄, .snoc (.snoc (.snoc (.snoc .nil trivial h₁) trivial h₂) trivial h₃) trivial h₄, ?_, ?_⟩
  · exact Function.update_self ..
  · show ((s.pool.modifyFrame g .claim).moveToLru g).dataOf g = F.data
    rw [dataOf_fixed, Pool.dataOf, hframe]
    rfl

end

/-! A run of two threads: the read of the first one throws, and the second one fixes the page. -/

section Unread

private def twoBytes : Config := { pageSizeBits := 1, pageCapacity := 1 }

private def fourByteFile : String → List UInt8 := fun _ => [1, 2, 3, 4]

private def reading : FileFlags :=
  { forReading := true, forWriting := false, forAppending := false, createNew := false,
    lock := .none }

/-- The first thread opens the file and fixes its first page, up to the read. -/
private def beforeRead : List (Event (Fin 2)) :=
  [.runs firstThread (.openFile "f" reading (some [1, 2, 3, 4])),
    .runs firstThread (.fixPage firstThread 0 0 false), .runs firstThread .go,
    .runs firstThread .go, .runs firstThread .go, .runs firstThread .go]

/-- The read throws; the second thread fixes the page. -/
private def throwing : List (Event (Fin 2)) :=
  beforeRead ++ [.readThrows firstThread [7, 7],
    .runs secondThread (.fixPage firstThread 0 0 false), .runs secondThread .go,
    .runs secondThread .go, .runs secondThread .go]

private def secondHolds (s : State (Fin 2)) : Bool :=
  match s.place 0, s.place 1 with
  | .idle, .hold c false false => decide (c = ⟨0, 0, false⟩ ∧ s.pool.dataOf 0 = [7, 7]
      ∧ s.latest "f" 0 = [1, 2] ∧ s.pool.users 0 = 2)
  | _, _ => false

private def firstReads (s : State (Fin 2)) : Bool :=
  match s.place 0 with
  | .read _ => true
  | _ => false

/-- The second thread has two bytes that the file does not have. It is one thread, and the frame
has two users. -/
theorem unread_page_is_returned : ∃ s : State (Fin 2),
    Run (stepOrThrow twoBytes) Always (.initial twoBytes fourByteFile) throwing s
      ∧ s.place 0 = .idle ∧ s.place 1 = .hold ⟨0, 0, false⟩ false false
      ∧ s.pool.dataOf 0 = [7, 7] ∧ s.latest "f" 0 = [1, 2] ∧ s.pool.users 0 = 2 := by
  obtain ⟨s, hrun, hp⟩ := Run.exists_of_execute (show (execute (stepOrThrow twoBytes) Always
    (.initial twoBytes fourByteFile) throwing).map secondHolds = some true by decide +kernel)
  unfold secondHolds at hp
  split at hp
  · next hfirst hsecond =>
    obtain ⟨rfl, hbytes⟩ := of_decide_eq_true hp
    exact ⟨s, hrun, hfirst, hsecond, hbytes⟩
  · cases hp

theorem failing_load_leaves_trace_first : ∃ (s s' : State (Fin 2)) (c : Fix),
    Run (stepOrThrow twoBytes) Always (.initial twoBytes fourByteFile) beforeRead s
      ∧ s.place 0 = .read c ∧ stepOrThrow twoBytes s (.readThrows 0 [7, 7]) = some s'
      ∧ ¬ LeavesNoTrace twoBytes s 0 c s' := by
  obtain ⟨s, hrun, hp⟩ := Run.exists_of_execute (show (execute (stepOrThrow twoBytes) Always
    (.initial twoBytes fourByteFile) beforeRead).map firstReads = some true by decide +kernel)
  unfold firstReads at hp
  split at hp
  · next c hread =>
    have hthrow : ∃ s', stepOrThrow twoBytes s (.readThrows 0 [7, 7]) = some s' := by
      simp only [stepOrThrow, hread]
      unfold State.loadThrows
      exact ⟨_, if_pos rfl⟩
    obtain ⟨s', hs'⟩ := hthrow
    exact ⟨s, s', c, hrun, hread, hs', failing_load_leaves_trace twoBytes s s' 0 c [7, 7] hread hs'⟩
  · cases hp

end Unread

end Haybarn.Io.PageBuffer
