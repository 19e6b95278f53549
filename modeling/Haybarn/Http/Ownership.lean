import Haybarn.Http.ServeSteps

/-!
# Whose slot, whose memory, whose response

What the invariant says of every state of a run: a slot has one owner, the helper reads the
inputs of a call that has not returned and writes to a buffer that has not been freed, and
a call that returns `OK` has the response to its own request (`Safe`).

`mailbox_safe` is for the runs that are `Tidy`. Without it a caller that stalls between
`ABANDONED` and its compare-exchanges frees the slot of the next caller, and the slot is
claimed a second time: `freed_under_owner`.
-/

namespace Haybarn.Http

open Haybarn.Lib

variable {web : Web} {st st' : Mailbox} {c d : CallId} {s : Nat}

/-! ## Every step -/

theorem Inv.ready_step (hi : Inv web st) : Inv web { st with ready := true } := by
  refine ⟨fun s => ?_, fun c => ?_⟩
  · exact (hi.slot s).of_same rfl rfl (fun _ _ => rfl) (fun _ => id) (fun _ _ _ _ => rfl)
  · have hc := hi.call c
    exact ⟨hc.holds, hc.sweeps, hc.allocated, hc.own, hc.freed, fun hpc =>
      (hc.ok hpc).mono rfl rfl (fun _ => id) (fun _ _ => rfl)⟩

theorem Inv.start_step (hi : Inv web st) {r : Request} (h : st.step web (.start c r) = some st') :
    Inv web st' := by
  rw [Mailbox.step] at h
  split at h
  next hpc =>
    obtain rfl := Option.some.inj h
    have hmoves : Moves st
        { st with calls := Function.update st.calls c { pc := .checkReady, request := r } } c
        { who := { pc := .checkReady, request := r }, slot := st.slots (st.calls c).slot } :=
      ⟨rfl, (Function.update_eq_self _ _).symm, rfl, rfl, Nat.le_refl _, fun _ _ => rfl,
        fun _ _ => .inl⟩
    have hgone : ¬ (st.calls c).gone := by
      intro hgone
      rw [Call.gone, hpc] at hgone
      cases hgone
    refine ⟨fun s => ?_, hmoves.callInv hi (fun _ _ => id) (.inr (.inl rfl)) (by simp) (fun h => by cases h)
      (by simp) (by simp) (by simp)⟩
    by_cases hs : s = (st.calls c).slot
    · rw [hs]
      exact hmoves.outside hi (by rw [hpc]; rfl) rfl fun h => absurd h hgone
    · exact hmoves.slotInv_ne hi hs
  next => cases h

theorem Inv.scan_step (hi : Inv web st) (h : st.step web (.scan s) = some st') : Inv web st' := by
  rw [Mailbox.step] at h
  split at h
  next hidle =>
    obtain rfl := Option.some.inj h
    have hserves : Serves st { st with serves := Function.update st.serves s { pc := .claim } } s
        { who := { pc := .claim }, slot := st.slots s } :=
      ⟨rfl, (Function.update_eq_self _ _).symm, rfl, fun _ => id, rfl, fun _ _ => rfl, fun _ => rfl⟩
    have hfits := (hi.slot s).fits
    rw [hidle.2.1] at hfits
    exact hserves.quiet hi rfl (fun _ _ => nofun) hfits nofun (fun _ => nofun)
  next => cases h

theorem Inv.watch_step (hi : Inv web st) (h : st.step web (.watch s) = some st') : Inv web st' := by
  rw [Mailbox.step] at h
  split at h
  next asked hpc =>
    split at h
    next =>
      obtain rfl := Option.some.inj h
      have hserves : Serves st
          { st with
            serves := Function.update st.serves s { pc := .fetching asked, aborted := true } } s
          { who := { pc := .fetching asked, aborted := true }, slot := st.slots s } :=
        ⟨rfl, (Function.update_eq_self _ _).symm, rfl, fun _ => id, rfl, fun _ _ => rfl,
          fun _ => rfl⟩
      have hfits := (hi.slot s).fits
      have hclient := (hi.slot s).client
      rw [hpc] at hfits hclient
      obtain ⟨c, hc⟩ := hclient rfl
      have hknows := hc.knows
      rw [hpc] at hknows
      exact hserves.learns hi rfl (fun _ _ => nofun) hfits hc hknows (fun _ _ => nofun) nofun
        (fun _ => nofun)
    next => cases h
  next => cases h

theorem Inv.freeResult_step (hi : Inv web st) (h : st.step web (.freeResult c) = some st') :
    Inv web st' := by
  rw [Mailbox.step] at h
  split at h
  next b hpc hbuffer =>
    split at h
    next => cases h
    next =>
      obtain rfl := Option.some.inj h
      have hcontents : ∀ b', ((st.apply (.free b)).buffers b').contents =
          (st.buffers b').contents := by
        intro b'
        dsimp only [Mailbox.apply]
        by_cases hb : b' = b
        · rw [hb, Function.update_self]
        · rw [Function.update_of_ne hb]
      refine ⟨fun s => ?_, fun d => ?_⟩
      · exact (hi.slot s).of_same rfl rfl (fun _ _ => rfl) (fun _ => id)
          (fun _ _ b' _ => hcontents b')
      · have hd := hi.call d
        refine ⟨hd.holds, hd.sweeps, hd.allocated, hd.own, fun b' hb' hfreed => ?_, fun hret =>
          (hd.ok hret).mono rfl rfl (fun _ => id) (fun b' _ => hcontents b')⟩
        dsimp only [Mailbox.apply] at hfreed
        by_cases hb : b' = b
        · obtain rfl := hb
          obtain rfl := hd.own b' c hb' hbuffer
          exact .inr (.inr hpc)
        · rw [Function.update_of_ne hb] at hfreed
          exact hd.freed b' hb' hfreed
  next => cases h

theorem Inv.initial : Inv web {} := by
  refine ⟨fun s => ⟨True.intro, nofun, fun _ => ⟨nofun, nofun, fun hne => absurd rfl hne⟩, nofun,
    fun _ => nofun, nofun⟩, fun c => ⟨nofun, fun _ => nofun, fun _ => nofun, fun _ _ => nofun,
    fun _ => nofun, nofun⟩⟩

theorem Inv.step {ev : Event} (hi : Inv web st) (htidy : Tidy st ev)
    (h : st.step web ev = some st') : Inv web st' := by
  cases ev with
  | ready =>
    obtain rfl := Option.some.inj h
    exact hi.ready_step
  | start c r => exact hi.start_step h
  | call c luck => exact hi.call_step htidy h
  | scan s => exact hi.scan_step h
  | serve s fate => exact hi.serve_step h
  | watch s => exact hi.watch_step h
  | freeResult c => exact hi.freeResult_step h

theorem Inv.of_run {es : List Event} (h : Run (Mailbox.step web) Tidy {} es st) : Inv web st :=
  h.invariant (P := Inv web) .initial fun _ _ _ hi hok hs => hi.step hok hs

/-! ## Safety -/

/-- The call has claimed the slot and has not given it up: where it is says so. -/
def Owns (st : Mailbox) (c : CallId) (s : Nat) : Prop :=
  (st.calls c).pc.holding = true ∧ (st.calls c).slot = s

/-- Whose memory the next step of a serve reads. -/
def ServePC.reads : ServePC → Option CallId
  | .copy _ ptr _ _ => ptr
  | .copyHeader ptr count i _ => if i < count then ptr else none
  | _ => none

variable (web) in
structure Safe (st : Mailbox) : Prop where
  one_owner : ∀ s c d, Owns st c s → Owns st d s → c = d
  inputs_live : ∀ s c, (st.serves s).pc.reads = some c →
    ∀ outcome, (st.calls c).pc ≠ .returned outcome
  buffer_live : ∀ s b bytes, (st.serves s).pc = .write b bytes → (st.buffers b).freed = false
  own_response : ∀ c, (st.calls c).pc = .returned .ok → Answered web st c

theorem Inv.owner (hi : Inv web st) (h : Owns st c s) : (st.slots s).holder = some c :=
  h.2 ▸ (hi.call c).holds h.1

/-- The call whose memory is read has the slot. -/
theorem Inv.reads_owner (hi : Inv web st) (h : (st.serves s).pc.reads = some c) : Owns st c s := by
  have hs := hi.slot s
  have hfits := hs.fits
  have hclient := hs.client
  cases hpc : (st.serves s).pc <;> rw [hpc] at h hfits hclient
  case copy part ptr len asked =>
    obtain ⟨d, hd⟩ := hclient rfl
    have hknows := hd.knows
    rw [hpc] at hknows
    have hptr : ptr = some d := by
      cases part <;> exact hknows.1
    obtain rfl := Option.some.inj (hptr.symm.trans h)
    obtain ⟨hholder, -⟩ := hs.early hfits.1 hfits.2 hd
    obtain ⟨hholding, hat, -⟩ := hs.held d hholder
    exact ⟨hholding, hat⟩
  case copyHeader ptr count i asked =>
    obtain ⟨d, hd⟩ := hclient rfl
    have hknows := hd.knows
    rw [hpc] at hknows
    rw [ServePC.reads] at h
    split at h
    next =>
      obtain rfl := Option.some.inj (hknows.1.symm.trans h)
      obtain ⟨hholder, -⟩ := hs.early hfits.1 hfits.2 hd
      obtain ⟨hholding, hat, -⟩ := hs.held d hholder
      exact ⟨hholding, hat⟩
    next => cases h
  all_goals cases h

/-- The buffer that is written has not been freed. -/
theorem Inv.write_live (hi : Inv web st) {b : BufferId} {bytes : List UInt8}
    (h : (st.serves s).pc = .write b bytes) : (st.buffers b).freed = false := by
  have hs := hi.slot s
  have hfits := hs.fits
  have hclient := hs.client
  rw [h] at hfits hclient
  obtain ⟨c, hc⟩ := hclient rfl
  rw [Bool.eq_false_iff]
  intro hfreed
  have hpc := (hi.call c).freed b (hc.writes b bytes h) hfreed
  rcases hc.here with hholder | hgone
  · -- the holder would be leaving, and then the helper would have finished
    obtain ⟨hholding, -, hagrees⟩ := hs.held c hholder
    rcases hpc with hpc | hpc | hpc
    · rw [Agrees, hpc, hfits.1] at hagrees
      rcases hagrees.1 with hstate | hstate <;> cases hstate
    all_goals
      rw [hpc] at hholding
      cases hholding
  · rcases hpc with hpc | hpc | hpc <;> rw [Call.gone, hpc] at hgone <;> cases hgone

/-- **The mailbox is safe** in every state of a tidy run. -/
theorem mailbox_safe {es : List Event} (h : Run (Mailbox.step web) Tidy {} es st) :
    Safe web st := by
  have hi : Inv web st := Inv.of_run h
  refine ⟨?_, ?_, ?_, ?_⟩
  · intro s c d hc hd
    exact Option.some.inj ((hi.owner hc).symm.trans (hi.owner hd))
  · intro s c hreads outcome hpc
    have howns := (hi.reads_owner hreads).1
    rw [hpc] at howns
    cases howns
  · intro s b bytes hwrite
    exact hi.write_live hwrite
  · intro c hpc
    exact (hi.call c).ok hpc

/-! ## Two runs -/

/-- A browser, for bytes that are ASCII. -/
def ascii : Web where
  decode bytes := String.ofList (bytes.map fun b => Char.ofNat b.toNat)
  encode text := text.toList.map fun c => UInt8.ofNat c.toNat
  appendable _ _ := true

def requestFor (path : UInt8) : Request where
  url := [path]
  method := [71, 69, 84]

def emptyResponse : Response where
  status := 200
  headers := []
  body := []

/-- `n` steps of a call that finds nothing out of the ordinary. -/
def calling (c : CallId) (n : Nat) : List Event := List.replicate n (.call c .nothing)

def serving (n : Nat) : List Event := List.replicate n (.serve 0 .nothing)

/-- A call from its start to the waiting loop. -/
def posts (c : CallId) : List Event := .start c (requestFor c.toUInt8) :: calling c 16

/-- The helper takes the request in slot 0 and copies its inputs. -/
def copies : List Event := .scan 0 :: serving 9

/-- The call is cancelled and, after the grace period, abandons its slot. -/
def givesUp (c : CallId) : List Event :=
  calling c 3 ++ .call c .cancelled :: calling c 4 ++ .call c .overdue :: calling c 3

/-- The helper notices the abort and frees the abandoned slot. -/
def cancels : List Event := .watch 0 :: .serve 0 .rejects :: serving 3

/-- Call 0 gives up; the helper frees its slot, call 1 claims it and its fetch fails; only then
does call 0 come to its compare-exchanges, and call 2 claims the slot of call 1. -/
def stalledSweep : List Event :=
  .ready :: posts 0 ++ copies ++ givesUp 0 ++ cancels ++ posts 1 ++ copies ++
    .serve 0 .rejects :: serving 2 ++ calling 0 2 ++ .start 2 (requestFor 2) :: calling 2 2

/-- The helper has a response for call 2, and call 1 takes it. -/
def wrongResponse : List Event :=
  stalledSweep ++ calling 2 14 ++ copies ++ .serve 0 (.responds emptyResponse) :: serving 2 ++
    calling 1 4 ++ serving 5 ++ calling 1 2

/-- **The slot of an owner is freed**: two calls have the same slot, and in the longer run a call
returns `OK` though nothing has been fetched for it. -/
theorem freed_under_owner :
    (∃ st, Run (Mailbox.step ascii) Always {} stalledSweep st ∧ Owns st 1 0 ∧ Owns st 2 0) ∧
    ∃ st, Run (Mailbox.step ascii) Always {} wrongResponse st ∧
      (st.calls 1).pc = .returned .ok ∧ ¬ Answered ascii st 1 := by
  constructor
  · obtain ⟨st, hrun, hp⟩ := Run.exists_of_execute (show (execute (Mailbox.step ascii) Always {}
      stalledSweep).map (fun st => (st.calls 1).pc.holding && (st.calls 2).pc.holding &&
        decide ((st.calls 1).slot = 0 ∧ (st.calls 2).slot = 0)) = some true by decide +kernel)
    simp only [Bool.and_eq_true, decide_eq_true_eq] at hp
    exact ⟨st, hrun, ⟨hp.1.1, hp.2.1⟩, hp.1.2, hp.2.2⟩
  · obtain ⟨st, hrun, hp⟩ := Run.exists_of_execute (show (execute (Mailbox.step ascii) Always {}
      wrongResponse).map (fun st => decide ((st.calls 1).pc = .returned .ok) &&
        st.fetches.all fun f => decide (f.caller = some 2)) = some true by decide +kernel)
    simp only [Bool.and_eq_true, decide_eq_true_eq, List.all_eq_true] at hp
    refine ⟨st, hrun, hp.1, ?_⟩
    rintro ⟨b, bytes, -, -, response, -, hfetch⟩
    cases hp.2 _ hfetch

/-- Call 0 gives up and makes its compare-exchanges in time; call 1 gets its response in the
same slot. -/
def orderlySweep : List Event :=
  .ready :: posts 0 ++ copies ++ givesUp 0 ++ calling 0 4 ++ cancels ++ posts 1 ++ copies ++
    .serve 0 (.responds emptyResponse) :: serving 2 ++ calling 1 4 ++ serving 5 ++ calling 1 2

theorem mailbox_safe_reused : ∃ st, Run (Mailbox.step ascii) Tidy {} orderlySweep st ∧
    (st.calls 0).pc = .returned .cancelled ∧ (st.calls 1).pc = .returned .ok ∧ Safe ascii st := by
  obtain ⟨st, hrun, hp⟩ := Run.exists_of_execute (show (execute (Mailbox.step ascii) Tidy {}
    orderlySweep).map (fun st => decide ((st.calls 0).pc = .returned .cancelled ∧
      (st.calls 1).pc = .returned .ok)) = some true by decide +kernel)
  obtain ⟨hgone, hok⟩ := of_decide_eq_true hp
  exact ⟨st, hrun, hgone, hok, mailbox_safe hrun⟩

end Haybarn.Http
