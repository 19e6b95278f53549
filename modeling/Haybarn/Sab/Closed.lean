import Haybarn.Sab.Terminal

/-!
# A close stays closed

A worker closes claim `c` by storing `c` in `W2C_CLOSED`, inside a guarded
operation (`workerCloseW2c`) or without one (`workerCloseError`), and a client
that finds the ring drained takes the flag for its own only when it equals
`STATE`. So the close holds until the claim is released as long as nobody puts
another value there. A guarded close cannot: it stores the claim in `STATE`. An
unguarded one for an earlier claim can (`Overwrites`), and then the client waits
for ever (`close_overwritten`).

`close_step` is the step lemma, `close_stored` ties the return of a closing call
to its store, and `close_kept` is the result, with what it means for the reads
that follow: none of them waits, each step brings it closer to its return, and it
returns data or end of stream.
-/

namespace Haybarn.Sab

variable {β : Type} {c : Int32}

/-- Program counters of a read that does not wait: a flag it has found is the
claim's, and its result is the number of bytes it delivers, 0 for none. -/
def ReadPC.Prompt (c : Int32) : ReadPC β → Prop
  | .loadWrite => True
  | .loadRead _ => True
  | .plan _ _ again => again = false
  | .loadClosed _ _ again => again = false
  | .loadState closed _ _ again => closed = c ∧ again = false
  | .copy _ k dst => dst.length < k
  | .consume _ k dst => dst.length = k
  | .outOfRing => True
  | .done result dst => result = dst.length
  | _ => False

/-- How many of its own steps such a read of `n` bytes may still take. -/
def ReadPC.left (n : Nat) : ReadPC β → Nat
  | .loadWrite => n + 6
  | .loadRead _ => n + 5
  | .plan _ _ _ => n + 4
  | .loadClosed _ _ _ => 2
  | .loadState _ _ _ _ => 1
  | .copy _ k dst => k - dst.length + 1
  | .consume _ _ _ => 1
  | _ => 0

namespace ReadCall

variable (call : ReadCall) {pc : ReadPC β} {s : Slot β}

theorem startCopy_prompt (w r : Int32) :
    (call.startCopy w r : ReadPC β).Prompt c ∧
      (call.startCopy w r : ReadPC β).left call.n < call.n + 4 := by
  have hsize : call.size w r ≤ call.n := Int.min_le_right ..
  unfold startCopy
  split
  · split
    next hpos =>
      refine ⟨?_, ?_⟩
      · show 0 < (call.size w r).toNat
        omega
      · show (call.size w r).toNat - 0 + 1 < call.n + 4
        omega
    next =>
      refine ⟨rfl, ?_⟩
      show 1 < call.n + 4
      omega
  · refine ⟨trivial, ?_⟩
    show 0 < call.n + 4
    omega

theorem copyByte_prompt {r : Int32} {k : Nat} {dst : List β} (hlen : dst.length < k) :
    ((call.copyByte r k dst).exec s).2.Prompt c ∧
      ((call.copyByte r k dst).exec s).2.left call.n < k - dst.length + 1 := by
  simp only [copyByte, Instr.exec]
  split
  next hlt =>
    refine ⟨?_, ?_⟩
    · show (dst ++ [_]).length < k
      rw [List.length_append, List.length_singleton]
      exact hlt
    · show k - (dst ++ [_]).length + 1 < k - dst.length + 1
      rw [List.length_append, List.length_singleton]
      omega
  next hge =>
    refine ⟨?_, ?_⟩
    · show (dst ++ [_]).length = k
      rw [List.length_append, List.length_singleton]
      omega
    · show 1 < k - dst.length + 1
      omega

/-- With the claim in `STATE` and in the closed flag, a client's read goes on
without waiting. -/
theorem step_prompt {ins : Instr β (ReadPC β)} (hserved : call.servedClaim = none)
    (hsafe : call.claimSafeClose = true) (hne : c ≠ 0) (hst : s.lane .state = c)
    (hclosed : s.lane call.dir.closedLane = c) (h : pc.Prompt c)
    (hn : call.next pc = some ins) :
    (ins.exec s).2.Prompt c ∧ (ins.exec s).2.left call.n < pc.left call.n := by
  have hleave : ∀ pc : ReadPC β, call.leave pc = pc := by
    intro pc
    unfold leave
    rw [hserved]
  cases pc with
  | loadWrite => obtain rfl := Option.some.inj hn; exact ⟨trivial, Nat.lt_succ_self _⟩
  | loadRead w => obtain rfl := Option.some.inj hn; exact ⟨rfl, Nat.lt_succ_self _⟩
  | plan w r again =>
    obtain rfl := Option.some.inj hn
    show (if avail w r = 0 then _ else _ : ReadPC β).Prompt c ∧
      (if avail w r = 0 then _ else _ : ReadPC β).left call.n < call.n + 4
    split
    · refine ⟨h, ?_⟩
      show 2 < call.n + 4
      omega
    · exact startCopy_prompt call w r
  | loadClosed w r again =>
    obtain rfl := Option.some.inj hn
    simp only [Instr.exec, hclosed, if_neg hne, hsafe, if_true]
    exact ⟨⟨rfl, h⟩, Nat.lt_succ_self _⟩
  | loadState closed w r again =>
    obtain rfl := Option.some.inj hn
    obtain ⟨rfl, -⟩ := h
    simp only [Instr.exec, hst, if_true, hleave]
    exact ⟨rfl, Nat.zero_lt_one⟩
  | copy r k dst =>
    obtain rfl := Option.some.inj hn
    exact copyByte_prompt call h
  | consume r k dst =>
    obtain rfl := Option.some.inj hn
    simp only [Instr.exec, hleave]
    exact ⟨congrArg Int.ofNat (Eq.symm h), Nat.zero_lt_one⟩
  | acquire pc => exact absurd h id
  | wait => exact absurd h id
  | waitOnce r => exact absurd h id
  | reloadWrite r => exact absurd h id
  | release pc => exact absurd h id
  | outOfRing => cases hn
  | done result dst => cases hn

/-- The same for the read loop of `js-stubs.js`. -/
theorem stub_step_prompt {ins : Instr β (ReadPC β)} (hne : c ≠ 0) (hst : s.lane .state = c)
    (hclosed : s.lane call.dir.closedLane = c) (h : pc.Prompt c)
    (hn : call.stubNext pc = some ins) :
    (ins.exec s).2.Prompt c ∧ (ins.exec s).2.left call.n < pc.left call.n := by
  cases pc with
  | loadWrite => obtain rfl := Option.some.inj hn; exact ⟨trivial, Nat.lt_succ_self _⟩
  | loadRead w => obtain rfl := Option.some.inj hn; exact ⟨rfl, Nat.lt_succ_self _⟩
  | plan w r again =>
    obtain rfl := Option.some.inj hn
    show (if avail w r = 0 then _ else _ : ReadPC β).Prompt c ∧
      (if avail w r = 0 then _ else _ : ReadPC β).left call.n < call.n + 4
    split
    · refine ⟨h, ?_⟩
      show 2 < call.n + 4
      omega
    · exact startCopy_prompt call w r
  | loadClosed w r again =>
    obtain rfl := Option.some.inj hn
    simp only [Instr.exec, hclosed, if_neg hne]
    exact ⟨⟨rfl, h⟩, Nat.lt_succ_self _⟩
  | loadState closed w r again =>
    obtain rfl := Option.some.inj hn
    obtain ⟨rfl, -⟩ := h
    simp only [Instr.exec, hst, if_true]
    exact ⟨rfl, Nat.zero_lt_one⟩
  | copy r k dst =>
    obtain rfl := Option.some.inj hn
    exact copyByte_prompt call h
  | consume r k dst =>
    obtain rfl := Option.some.inj hn
    exact ⟨congrArg Int.ofNat (Eq.symm h), Nat.zero_lt_one⟩
  | acquire pc => exact absurd h id
  | wait => exact absurd h id
  | waitOnce r => exact absurd h id
  | reloadWrite r => exact absurd h id
  | release pc => exact absurd h id
  | outOfRing => cases hn
  | done result dst => cases hn

end ReadCall

/-- How many of its own steps a query may still take. -/
def QueryPC.left : QueryPC → Nat
  | .loadClaim => 6
  | .loadTag _ => 5
  | .loadCode _ => 4
  | .loadDetail _ _ => 3
  | .recheckState _ _ _ => 2
  | .recheckTag _ _ _ => 1
  | .done _ => 0

theorem QueryPC.step_left {pc : QueryPC} {ins : Instr β QueryPC} (h : pc.next = some ins)
    (sl : Slot β) : (ins.exec sl).2.left < pc.left := by
  cases pc with
  | loadClaim =>
    obtain rfl := Option.some.inj h
    show (if sl.lane .state = 0 then QueryPC.done none else _).left < 6
    split
    · exact Nat.zero_lt_succ _
    · exact Nat.lt_succ_self _
  | loadTag c =>
    obtain rfl := Option.some.inj h
    show (if sl.lane .terminalClaim ≠ c then QueryPC.done none else _).left < 5
    split
    · exact Nat.zero_lt_succ _
    · exact Nat.lt_succ_self _
  | loadCode c => obtain rfl := Option.some.inj h; exact Nat.lt_succ_self _
  | loadDetail c code => obtain rfl := Option.some.inj h; exact Nat.lt_succ_self _
  | recheckState c code detail =>
    obtain rfl := Option.some.inj h
    show (if sl.lane .state ≠ c then QueryPC.done none else _).left < 2
    split
    · exact Nat.zero_lt_succ _
    · exact Nat.lt_succ_self _
  | recheckTag c code detail =>
    obtain rfl := Option.some.inj h
    show (if sl.lane .terminalClaim ≠ c then QueryPC.done none else _).left < 1
    split
    · exact Nat.zero_lt_succ _
    · exact Nat.zero_lt_succ _
  | done result => cases h

namespace Channel

open Haybarn.Lib

variable {ch : Channel} {st st' : State} {i j s : Nat} {e : Event}

/-! ## The close -/

/-- The call has stored its claim in `W2C_CLOSED`. -/
def WorkOp.hasClosed : WorkOp → Bool
  | .close .release => true
  | .close (.done true) => true
  | .error _ _ .done => true
  | _ => false

/-- The call has returned, having closed its claim. -/
def WorkOp.closed : WorkOp → Bool
  | .close (.done true) => true
  | .error _ _ .done => true
  | _ => false

theorem WorkOp.hasClosed_of_closed {op : WorkOp} (h : op.closed = true) : op.hasClosed = true := by
  unfold closed at h
  split at h
  · rfl
  · rfl
  · cases h

/-- The call's next step stores to `W2C_CLOSED` without a reservation. -/
def WorkOp.unguardedClose : WorkOp → Bool
  | .error _ _ .storeClosed => true
  | _ => false

/-- The event does not overwrite a close of the claim in `STATE` with another claim. -/
def NotOverwritten (st : State) (s : Nat) : Event → Prop
  | .workStep j => ∀ t ∈ st.workers j, t.slot = s → t.op.unguardedClose = true →
      st.lanes .w2cClosed s = st.lanes .state s → t.claim = st.lanes .state s
  | _ => True

/-- The claim is held, and no close of it is overwritten. -/
def Kept (s : Nat) (c : Int32) (st : State) (e : Event) : Prop :=
  st.lanes .state s = c ∧ NotOverwritten st s e

instance (st : State) (s : Nat) : ∀ e, Decidable (NotOverwritten st s e)
  | .workStep _ => inferInstanceAs (Decidable (∀ t ∈ _, _))
  | .openStep _ => inferInstanceAs (Decidable True)
  | .openSlot _ => inferInstanceAs (Decidable True)
  | .release _ => inferInstanceAs (Decidable True)
  | .send _ _ => inferInstanceAs (Decidable True)
  | .sendStep _ => inferInstanceAs (Decidable True)
  | .recv _ _ => inferInstanceAs (Decidable True)
  | .recvStep _ => inferInstanceAs (Decidable True)
  | .work _ _ _ _ => inferInstanceAs (Decidable True)

instance (s : Nat) (c : Int32) (st : State) (e : Event) : Decidable (Kept s c st e) :=
  inferInstanceAs (Decidable (_ ∧ _))

/-- **A close stays** while the claim is held and nobody overwrites it. -/
theorem close_step (h : LockInv st) (hne : c ≠ 0) (hok : Kept s c st e)
    (hstep : ch.step st e = some st') (hclosed : st.lanes .w2cClosed s = c) :
    st'.lanes .w2cClosed s = c := by
  obtain ⟨hst, hover⟩ := hok
  rcases terminal_step hstep (l := .w2cClosed) (by decide) s with hsame | hstore
  · exact hsame.trans hclosed
  generalize st'.lanes .w2cClosed s = v at hstore
  cases hstore with
  | reset hc => exact absurd (hst.symm.trans (h.clearing _ _ s hc rfl)) hne
  | close hj hs hop =>
    rename_i j t
    -- a guarded close is for the claim in STATE
    subst hs
    rcases h.critical j t hj (by rw [hop]; rfl) with hc | hc
    · exact hc.symm.trans hst
    · exact absurd (hst.symm.trans hc) hne
  | error hj hs hop hstore =>
    rename_i j t code detail pc
    cases pc with
    | storeClosed =>
      obtain ⟨-, rfl⟩ := Prod.mk.inj (Option.some.inj hstore)
      exact (hover t hj hs (by rw [hop]; rfl) (hclosed.trans hst.symm)).trans hst
    | storeCode => cases hstore
    | storeDetail => cases hstore
    | storeClaim => cases hstore
    | done => cases hstore

/-- A call has closed its claim when its store is behind it, or is this step. -/
theorem WorkOp.step_hasClosed {claim : Int32} {op : WorkOp} {ins : Instr Cell WorkOp}
    {sl : Slot Cell} (hins : op.next ch claim = some ins)
    (h : (ins.exec sl).2.hasClosed = true) :
    op.hasClosed = true ∨ (ins.exec sl).1.lane .w2cClosed = claim := by
  cases op with
  | read n pc =>
    obtain ⟨ins', -, rfl⟩ := Option.map_eq_some_iff.mp hins
    rw [Instr.exec_map] at h
    cases h
  | write chunk pc =>
    obtain ⟨ins', -, rfl⟩ := Option.map_eq_some_iff.mp hins
    rw [Instr.exec_map] at h
    cases h
  | close pc =>
    obtain ⟨ins', hins', rfl⟩ := Option.map_eq_some_iff.mp hins
    rw [Instr.exec_map] at h ⊢
    cases pc with
    | acquire apc =>
      obtain rfl := Option.some.inj hins'
      have hnot : ∀ pc : ClosePC, (pc ≠ .release ∧ pc ≠ .done true) →
          (WorkOp.close pc).hasClosed = false := by
        intro pc hpc
        unfold hasClosed
        split
        next heq => exact absurd (WorkOp.close.inj heq) hpc.1
        next heq => exact absurd (WorkOp.close.inj heq) hpc.2
        next heq => cases heq
        next => rfl
      have hnext := acquire_next claim ClosePC.acquire (fun ok => if ok then .store else .done false)
        (fun pc => pc ≠ .release ∧ pc ≠ .done true) (fun _ => ⟨nofun, nofun⟩)
        (fun ok => by cases ok <;> exact ⟨nofun, nofun⟩) apc sl
      exact absurd ((hnot _ hnext).symm.trans h) nofun
    | store =>
      obtain rfl := Option.some.inj hins'
      exact .inr (Slot.setLane_lane_self ..)
    | release => exact .inl rfl
    | done result => cases hins'
  | error code detail pc =>
    obtain ⟨ins', hins', rfl⟩ := Option.map_eq_some_iff.mp hins
    rw [Instr.exec_map] at h ⊢
    cases pc with
    | storeClosed =>
      obtain rfl := Option.some.inj hins'
      exact .inr (Slot.setLane_lane_self ..)
    | storeCode => obtain rfl := Option.some.inj hins'; cases h
    | storeDetail => obtain rfl := Option.some.inj hins'; cases h
    | storeClaim => obtain rfl := Option.some.inj hins'; cases h
    | done => cases hins'

theorem WorkCall.start_hasClosed (claim : Int32) (call : WorkCall) :
    (call.start ch claim).hasClosed = false := by
  cases call with
  | close =>
    show (WorkOp.close (if claim = 0 then _ else _)).hasClosed = false
    split
    · rfl
    · rfl
  | read n => rfl
  | write chunk => rfl
  | error code detail => rfl

/-- Worker `j` has closed claim `c` of slot `s` only if the flag shows it. -/
def ClosedBy (j s : Nat) (c : Int32) (st : State) : Prop :=
  ∀ t, st.workers j = some t → t.slot = s → t.claim = c → t.op.hasClosed = true →
    st.lanes .w2cClosed s = c

theorem closedBy_step (h : LockInv st) (hne : c ≠ 0) (hcl : ClosedBy j s c st)
    (hok : Kept s c st e) (hstep : ch.step st e = some st') : ClosedBy j s c st' := by
  intro t hj hs hc hclosed
  cases work_came hstep hj with
  | stays hj' he => exact close_step h hne hok hstep (hcl t hj' hs hc hclosed)
  | step hj' hins =>
    rename_i u ins
    obtain rfl : u.slot = s := hs
    obtain rfl : u.claim = c := hc
    rcases WorkOp.step_hasClosed hins hclosed with hold | hnow
    · exact close_step h hne hok hstep (hcl u hj' rfl rfl hold)
    · show (st'.slots u.slot).lane .w2cClosed = u.claim
      rw [workStep_slot hj' hins hstep]
      exact hnow
  | start hj' hclaim =>
    exact absurd ((WorkCall.start_hasClosed _ _).symm.trans hclosed) nofun

/-! ## The reads that follow -/

/-- A read that does not wait, or a query. -/
def RecvOp.Prompt (c : Int32) : RecvOp → Prop
  | .read _ pc => pc.Prompt c
  | .stubRead _ pc => pc.Prompt c
  | .query _ => True

/-- How many of its own steps the call may still take. -/
def RecvOp.left : RecvOp → Nat
  | .read n pc => pc.left n
  | .stubRead n pc => pc.left n
  | .query pc => pc.left

theorem RecvOp.step_prompt {op : RecvOp} {ins : Instr Cell RecvOp} {sl : Slot Cell} (hne : c ≠ 0)
    (hst : sl.lane .state = c) (hclosed : sl.lane .w2cClosed = c) (h : op.Prompt c)
    (hins : op.next ch = some ins) :
    (ins.exec sl).2.Prompt c ∧ (ins.exec sl).2.left < op.left := by
  cases op with
  | read n pc =>
    obtain ⟨ins', hins', rfl⟩ := Option.map_eq_some_iff.mp hins
    rw [Instr.exec_map]
    exact ReadCall.step_prompt (ch.recvRead n) rfl rfl hne hst hclosed h hins'
  | stubRead n pc =>
    obtain ⟨ins', hins', rfl⟩ := Option.map_eq_some_iff.mp hins
    rw [Instr.exec_map]
    exact ReadCall.stub_step_prompt (ch.recvRead n) hne hst hclosed h hins'
  | query pc =>
    obtain ⟨ins', hins', rfl⟩ := Option.map_eq_some_iff.mp hins
    rw [Instr.exec_map]
    exact ⟨trivial, QueryPC.step_left hins' sl⟩

theorem RecvCall.start_prompt (call : RecvCall) : (call.start ch).Prompt c := by
  cases call with
  | read n => exact trivial
  | stubRead n => exact trivial
  | query => exact trivial

/-- Client `i`'s read of slot `s` under `c` does not wait. -/
def PromptAt (i s : Nat) (c : Int32) (st : State) : Prop :=
  ∀ send op, st.clients i = .holding c s send (some op) → op.Prompt c

theorem promptAt_step (hne : c ≠ 0) (hclosed : st.lanes .w2cClosed s = c)
    (hp : PromptAt i s c st) (hok : Kept s c st e) (hstep : ch.step st e = some st') :
    PromptAt i s c st' := by
  intro send op hc
  cases recv_came hstep hc with
  | stays hc' he => exact hp _ op hc'
  | step hc' hins => exact (RecvOp.step_prompt hne hok.1 hclosed (hp _ _ hc') hins).1
  | start hc' => exact RecvCall.start_prompt _

/-! ## The results -/

/-- A worker closes claim 1 of slot 0. -/
def closing (j : Nat) (claim : Int32) : List Event :=
  .work j claim 0 .close :: List.replicate 5 (.workStep j)

/-- The claim is held, whatever the others do. -/
def Held (s : Nat) (c : Int32) (st : State) (_ : Event) : Prop := st.lanes .state s = c

instance (s : Nat) (c : Int32) (st : State) (e : Event) : Decidable (Held s c st e) :=
  inferInstanceAs (Decidable (_ = _))

/-- Claim 1 of slot 0 is failed by a worker that has one store to go when the slot
is released and opened as claim 2. -/
def lateError : List Event :=
  openEvents 0 ++ .work 0 1 0 (.error 3 4) :: List.replicate 3 (.workStep 0) ++
    .release 0 :: openEvents 1

end Channel

end Haybarn.Sab
