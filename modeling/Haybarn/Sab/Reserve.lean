import Haybarn.Sab.RingInv

/-!
# What one step does to the reservation lane

A worker call for claim `c` holds the slot's reservation from the
compare-exchange in `acquireWorkerOperation` that finds the lane free to the one
that puts zero back, either there (`undo`) or in `releaseWorkerOperation`.
`reserving` marks these program counters and `critical` those at which the claim
has also been found in `STATE`; `LockStep` is what a step can do to the lane, and
`WriteCall.step_lock`, `ReadCall.step_lock` and `Closer.step_lock` say that a
step of a guarded call does one of these things, enters its critical part only
with the claim in `STATE`, and never stores to `STATE`.
-/

namespace Haybarn.Sab

variable {β σ : Type}

/-! ## Program counters -/

/-- The compare-exchange has taken the reservation. -/
def AcquirePC.reserving : AcquirePC → Bool
  | .recheck => true
  | .undo => true
  | _ => false

/-- A served `ringWrite` holds the reservation. -/
def WritePC.reserving : WritePC → Bool
  | .acquire _ pc => pc.reserving
  | .wait _ => false
  | .done _ => false
  | _ => true

/-- A served `ringWrite` has validated its claim and works on the ring. -/
def WritePC.critical : WritePC → Bool
  | .loadWrite _ => true
  | .loadRead _ _ => true
  | .plan _ _ _ => true
  | .copy _ _ _ _ => true
  | .publish _ _ _ => true
  | _ => false

/-- What follows a release neither holds the reservation nor works on the ring. -/
def WritePC.LeavesOk : WritePC → Prop
  | .release pc => pc.reserving = false ∧ pc.critical = false
  | _ => True

theorem WritePC.LeavesOk.of_idle {pc : WritePC} (h : pc.reserving = false) : pc.LeavesOk := by
  cases pc with
  | release pc => cases h
  | _ => trivial

def ReadPC.reserving : ReadPC β → Bool
  | .acquire pc => pc.reserving
  | .wait => false
  | .done _ _ => false
  | _ => true

def ReadPC.critical : ReadPC β → Bool
  | .loadWrite => true
  | .loadRead _ => true
  | .plan _ _ _ => true
  | .loadClosed _ _ _ => true
  | .loadState _ _ _ _ => true
  | .waitOnce _ => true
  | .reloadWrite _ => true
  | .copy _ _ _ => true
  | .consume _ _ _ => true
  | _ => false

def ReadPC.LeavesOk : ReadPC β → Prop
  | .release pc => pc.reserving = false ∧ pc.critical = false
  | _ => True

theorem ReadPC.LeavesOk.of_idle {pc : ReadPC β} (h : pc.reserving = false) : pc.LeavesOk := by
  cases pc with
  | release pc => cases h
  | _ => trivial

def ClosePC.reserving : ClosePC → Bool
  | .acquire pc => pc.reserving
  | .done _ => false
  | _ => true

def ClosePC.critical : ClosePC → Bool
  | .store => true
  | _ => false

/-! ## The three kinds of step -/

/-- What a step of a call for `claim` does to the reservation, `held` and `held'`
saying whether the call holds it before and after. -/
inductive LockStep (claim : Int32) (s s' : Slot β) (held held' : Bool) : Prop
  | keep (hres : s'.lane .reservation = s.lane .reservation) (h : held' = true → held = true)
  | take (hfree : s.lane .reservation = 0) (hres : s'.lane .reservation = claim)
  | drop (h : held = true) (h' : held' = false)
      (hres : s.lane .reservation = claim → s'.lane .reservation = 0)

section Acquire

variable (claim : Int32) (lift : AcquirePC → σ) (ret : Bool → σ)

/-- `acquireWorkerOperation`, for a caller whose program counters are marked by
`reserving` and `critical`. -/
theorem acquire_lock (reserving critical : σ → Bool)
    (hlift : ∀ pc, reserving (lift pc) = pc.reserving ∧ critical (lift pc) = false)
    (hret : reserving (ret false) = false ∧ critical (ret false) = false)
    (pc : AcquirePC) (s : Slot β) :
    LockStep claim s ((acquireWorkerOperation claim lift ret pc).exec s).1 pc.reserving
      (reserving ((acquireWorkerOperation claim lift ret pc).exec s).2) ∧
    (critical ((acquireWorkerOperation claim lift ret pc).exec s).2 = true →
      s.lane .state = claim) := by
  cases pc with
  | loadState =>
    show LockStep claim s s false (reserving (if s.lane .state ≠ claim then _ else _)) ∧
      (critical (if s.lane .state ≠ claim then _ else _) = true → _)
    split
    · rw [hret.1, hret.2]
      exact ⟨.keep rfl id, nofun⟩
    · rw [(hlift _).1, (hlift _).2]
      exact ⟨.keep rfl id, nofun⟩
  | reserve =>
    show LockStep claim s (if s.lane .reservation = 0 then _ else _) false
        (reserving (if s.lane .reservation = 0 then _ else _)) ∧
      (critical (if s.lane .reservation = 0 then _ else _) = true → _)
    split
    next hfree =>
      rw [(hlift _).2]
      exact ⟨.take hfree (s.setLane_lane_self ..), nofun⟩
    next =>
      rw [(hlift _).1, (hlift _).2]
      exact ⟨.keep rfl id, nofun⟩
  | recheck =>
    show LockStep claim s s true _ ∧ (critical (if s.lane .state = claim then _ else _) = true → _)
    split
    next hst => exact ⟨.keep rfl fun _ => rfl, fun _ => hst⟩
    next =>
      rw [(hlift _).2]
      exact ⟨.keep rfl fun _ => rfl, nofun⟩
  | undo =>
    show LockStep claim s (if s.lane .reservation = claim then _ else s) true
        (reserving (ret false)) ∧ (critical (ret false) = true → _)
    rw [hret.1, hret.2]
    refine ⟨.drop rfl rfl fun hres => ?_, nofun⟩
    rw [if_pos hres, Slot.setLane_lane_self]
  | wait =>
    show LockStep claim s s false (reserving (lift .loadState)) ∧
      (critical (lift .loadState) = true → _)
    rw [(hlift _).1, (hlift _).2]
    exact ⟨.keep rfl id, nofun⟩

/-- `releaseWorkerOperation` puts back the holder's own tag. -/
theorem release_lock {k : σ} {held' : Bool} (h' : held' = false) (s : Slot β) :
    LockStep claim s ((releaseWorkerOperation claim k).exec s).1 true held' := by
  refine .drop rfl h' fun hres => ?_
  show (if s.lane .reservation = claim then s.setLane .reservation 0 else s).lane .reservation = 0
  rw [if_pos hres, Slot.setLane_lane_self]

end Acquire

/-! ## The guarded calls -/

namespace WriteCall

variable {c : WriteCall β} {pc : WritePC} {claim : Int32}

theorem loop_idle (c : WriteCall β) (hc : c.servedClaim = some claim) (off : Nat) :
    (c.loop off).reserving = false ∧ (c.loop off).critical = false := by
  unfold loop enterAcquire
  rw [hc]
  split
  next =>
    show (WritePC.reserving (if claim = 0 then _ else _) = false) ∧
      WritePC.critical (if claim = 0 then _ else _) = false
    split
    · exact ⟨rfl, rfl⟩
    · exact ⟨rfl, rfl⟩
  next => exact ⟨rfl, rfl⟩

/-- Outside its critical part a call knows nothing about the ring. -/
theorem Ok.of_idle {s s' : Slot β} (hcrit : pc.critical = false) (hpc : pc.LeavesOk)
    (h : c.Ok s pc) : c.Ok s' pc := by
  induction pc with
  | acquire off pc => exact h
  | wait off => exact h
  | release pc ih => exact ih hpc.2 (.of_idle hpc.1) h
  | outOfRing => exact h
  | done n => exact h
  | _ => cases hcrit

/-- A step outside the critical part keeps the outline, whatever the slot holds. -/
theorem step_idle {ins : Instr β WritePC} (hcrit : pc.critical = false) (hpc : pc.LeavesOk)
    {s : Slot β} (h : c.Ok s pc) (hn : c.next pc = some ins) :
    c.Ok (ins.exec s).1 (ins.exec s).2 := by
  cases pc with
  | acquire off pc =>
    obtain ⟨claim, -, rfl⟩ := Option.map_eq_some_iff.mp hn
    refine acquire_next claim (WritePC.acquire off) _ (c.Ok _) (fun _ => h) ?_ pc s
    rintro (_ | _)
    · exact Nat.le_of_lt h
    · exact h
  | wait off => obtain rfl := Option.some.inj hn; exact loop_ok ..
  | release pc =>
    obtain ⟨claim, -, rfl⟩ := Option.map_eq_some_iff.mp hn
    exact Ok.of_idle hpc.2 (.of_idle hpc.1) (show c.Ok s pc from h)
  | outOfRing => cases hn
  | done n => cases hn
  | _ => cases hcrit

theorem leave_served (c : WriteCall β) (hc : c.servedClaim = some claim) (pc : WritePC) :
    c.leave pc = .release pc := by
  unfold leave
  rw [hc]

/-- A step of a served `ringWrite`, as its reservation sees it. -/
theorem step_lock {ins : Instr β WritePC} (hc : c.servedClaim = some claim)
    (hpc : pc.LeavesOk) (hn : c.next pc = some ins) (s : Slot β) :
    LockStep claim s (ins.exec s).1 pc.reserving (ins.exec s).2.reserving ∧
      ((ins.exec s).2.critical = true → pc.critical = true ∨ s.lane .state = claim) ∧
      (ins.exec s).2.LeavesOk := by
  cases pc with
  | acquire off apc =>
    obtain ⟨claim', hc', rfl⟩ := Option.map_eq_some_iff.mp hn
    obtain rfl := Option.some.inj (hc.symm.trans hc')
    obtain ⟨hlock, hcrit⟩ := acquire_lock claim (WritePC.acquire off)
      (fun ok => if ok then .loadWrite off else .done off) WritePC.reserving WritePC.critical
      (fun _ => ⟨rfl, rfl⟩) ⟨rfl, rfl⟩ apc s
    refine ⟨hlock, fun h => .inr (hcrit h), ?_⟩
    refine acquire_next claim (WritePC.acquire off) _ WritePC.LeavesOk (fun _ => trivial) ?_ apc s
    rintro (_ | _)
    · exact trivial
    · exact trivial
  | loadWrite off => obtain rfl := Option.some.inj hn; exact ⟨.keep rfl id, .inl, trivial⟩
  | loadRead off w => obtain rfl := Option.some.inj hn; exact ⟨.keep rfl id, .inl, trivial⟩
  | plan off w r =>
    obtain rfl := Option.some.inj hn
    refine ⟨.keep rfl fun _ => rfl, fun _ => .inl rfl, ?_⟩
    show WritePC.LeavesOk (if c.free w r = 0 then _ else _)
    split
    · rw [leave_served c hc]
      exact ⟨rfl, rfl⟩
    · split
      · exact trivial
      · exact trivial
  | copy off w k i =>
    obtain rfl := Option.some.inj hn
    refine ⟨.keep rfl fun _ => rfl, fun _ => .inl rfl, ?_⟩
    show WritePC.LeavesOk (if i + 1 < k then _ else _)
    split
    · exact trivial
    · exact trivial
  | publish off w k =>
    obtain rfl := Option.some.inj hn
    refine ⟨.keep (Slot.setLane_lane_ne _ _ (by simp [Ne.symm])) fun _ => rfl, fun _ => .inl rfl, ?_⟩
    show (c.leave _).LeavesOk
    rw [leave_served c hc]
    exact loop_idle c hc _
  | wait off =>
    obtain rfl := Option.some.inj hn
    obtain ⟨hres, hcrit⟩ := loop_idle c hc off
    refine ⟨.keep rfl fun h => ?_, fun h => ?_, .of_idle hres⟩
    · exact absurd (hres.symm.trans h) nofun
    · exact absurd (hcrit.symm.trans h) nofun
  | release pc =>
    obtain ⟨claim', hc', rfl⟩ := Option.map_eq_some_iff.mp hn
    obtain rfl := Option.some.inj (hc.symm.trans hc')
    obtain ⟨hres, hcrit⟩ := hpc
    exact ⟨release_lock claim hres s, fun h => absurd (hcrit.symm.trans h) nofun, .of_idle hres⟩
  | outOfRing => cases hn
  | done n => cases hn

end WriteCall

namespace ReadCall

variable {c : ReadCall} {pc : ReadPC β} {claim : Int32}

theorem loop_idle (c : ReadCall) (hc : c.servedClaim = some claim) :
    (c.loop : ReadPC β).reserving = false ∧ (c.loop : ReadPC β).critical = false := by
  unfold loop enterAcquire
  rw [hc]
  show (ReadPC.reserving (if claim = 0 then _ else _) = false) ∧
    ReadPC.critical (if claim = 0 then _ else _) = false
  split
  · exact ⟨rfl, rfl⟩
  · exact ⟨rfl, rfl⟩

/-- Outside its critical part a call knows nothing about the ring. -/
theorem Ok.of_idle {P Q : Nat → β → Prop} {s s' : Slot β} (hcrit : pc.critical = false)
    (hpc : pc.LeavesOk) (h : c.Ok P s pc) : c.Ok Q s' pc := by
  induction pc with
  | acquire pc => exact h
  | wait => exact h
  | release pc ih => exact ih hpc.2 (.of_idle hpc.1) h
  | outOfRing => exact h
  | done n dst => exact h
  | _ => cases hcrit

/-- A step outside the critical part keeps the outline, whatever the slot holds. -/
theorem step_idle {P : Nat → β → Prop} {ins : Instr β (ReadPC β)} (hcrit : pc.critical = false)
    (hpc : pc.LeavesOk) {s : Slot β} (h : c.Ok P s pc) (hn : c.next pc = some ins) :
    c.Ok P (ins.exec s).1 (ins.exec s).2 := by
  cases pc with
  | acquire pc =>
    obtain ⟨claim, -, rfl⟩ := Option.map_eq_some_iff.mp hn
    refine acquire_next claim ReadPC.acquire _ (c.Ok P _) (fun _ => trivial) ?_ pc s
    rintro (_ | _)
    · exact rfl
    · exact trivial
  | wait => obtain rfl := Option.some.inj hn; exact loop_ok ..
  | release pc =>
    obtain ⟨claim, -, rfl⟩ := Option.map_eq_some_iff.mp hn
    exact Ok.of_idle hpc.2 (.of_idle hpc.1) (show c.Ok P s pc from h)
  | outOfRing => cases hn
  | done n dst => cases hn
  | _ => cases hcrit

theorem leave_served (c : ReadCall) (hc : c.servedClaim = some claim) (pc : ReadPC β) :
    c.leave pc = .release pc := by
  unfold leave
  rw [hc]

/-- A step of a served `ringRead`, as its reservation sees it. -/
theorem step_lock {ins : Instr β (ReadPC β)} (hc : c.servedClaim = some claim)
    (hpc : pc.LeavesOk) (hn : c.next pc = some ins) (s : Slot β) :
    LockStep claim s (ins.exec s).1 pc.reserving (ins.exec s).2.reserving ∧
      ((ins.exec s).2.critical = true → pc.critical = true ∨ s.lane .state = claim) ∧
      (ins.exec s).2.LeavesOk := by
  cases pc with
  | acquire apc =>
    obtain ⟨claim', hc', rfl⟩ := Option.map_eq_some_iff.mp hn
    obtain rfl := Option.some.inj (hc.symm.trans hc')
    obtain ⟨hlock, hcrit⟩ := acquire_lock claim (ReadPC.acquire (β := β))
      (fun ok => if ok then .loadWrite else .done 0 []) ReadPC.reserving ReadPC.critical
      (fun _ => ⟨rfl, rfl⟩) ⟨rfl, rfl⟩ apc s
    refine ⟨hlock, fun h => .inr (hcrit h), ?_⟩
    refine acquire_next claim ReadPC.acquire _ ReadPC.LeavesOk (fun _ => trivial) ?_ apc s
    rintro (_ | _)
    · exact trivial
    · exact trivial
  | loadWrite => obtain rfl := Option.some.inj hn; exact ⟨.keep rfl id, .inl, trivial⟩
  | loadRead w => obtain rfl := Option.some.inj hn; exact ⟨.keep rfl id, .inl, trivial⟩
  | plan w r again =>
    obtain rfl := Option.some.inj hn
    refine ⟨.keep rfl fun _ => rfl, fun _ => .inl rfl, ?_⟩
    show ReadPC.LeavesOk (if avail w r = 0 then _ else _)
    split
    · exact trivial
    · unfold startCopy
      split
      · split
        · exact trivial
        · exact trivial
      · exact trivial
  | loadClosed w r again =>
    obtain rfl := Option.some.inj hn
    refine ⟨.keep rfl fun _ => rfl, fun _ => .inl rfl, ?_⟩
    show ReadPC.LeavesOk
      (if s.lane c.dir.closedLane = 0 then _ else if c.claimSafeClose then _ else _)
    rw [leave_served c hc, leave_served c hc]
    split
    · exact ⟨rfl, rfl⟩
    · split
      · exact trivial
      · exact ⟨rfl, rfl⟩
  | loadState closed w r again =>
    obtain rfl := Option.some.inj hn
    refine ⟨.keep rfl fun _ => rfl, fun _ => .inl rfl, ?_⟩
    show ReadPC.LeavesOk (if closed = s.lane .state then _ else _)
    rw [leave_served c hc, leave_served c hc]
    split
    · exact ⟨rfl, rfl⟩
    · exact ⟨rfl, rfl⟩
  | wait =>
    obtain rfl := Option.some.inj hn
    obtain ⟨hres, hcrit⟩ := loop_idle (β := β) c hc
    refine ⟨.keep rfl fun h => ?_, fun h => ?_, .of_idle hres⟩
    · exact absurd (hres.symm.trans h) nofun
    · exact absurd (hcrit.symm.trans h) nofun
  | copy r k dst =>
    obtain rfl := Option.some.inj hn
    refine ⟨.keep rfl fun _ => rfl, fun _ => .inl rfl, ?_⟩
    show ReadPC.LeavesOk (if dst.length + 1 < k then _ else _)
    split
    · exact trivial
    · exact trivial
  | consume r k dst =>
    obtain rfl := Option.some.inj hn
    refine ⟨.keep (Slot.setLane_lane_ne _ _ (by simp [Ne.symm])) fun _ => rfl, fun _ => .inl rfl, ?_⟩
    show (c.leave _).LeavesOk
    rw [leave_served c hc]
    exact ⟨rfl, rfl⟩
  | release pc =>
    obtain ⟨claim', hc', rfl⟩ := Option.map_eq_some_iff.mp hn
    obtain rfl := Option.some.inj (hc.symm.trans hc')
    obtain ⟨hres, hcrit⟩ := hpc
    exact ⟨release_lock claim hres s, fun h => absurd (hcrit.symm.trans h) nofun, .of_idle hres⟩
  | waitOnce r => cases hn
  | reloadWrite r => cases hn
  | outOfRing => cases hn
  | done n dst => cases hn

end ReadCall

namespace Closer

variable {pc : ClosePC} {claim : Int32}

theorem start_idle (claim : Int32) : (workerCloseW2c claim).start.reserving = false ∧
    (workerCloseW2c claim).start.critical = false := by
  show ClosePC.reserving (if claim = 0 then _ else _) = false ∧
    ClosePC.critical (if claim = 0 then _ else _) = false
  split
  · exact ⟨rfl, rfl⟩
  · exact ⟨rfl, rfl⟩

/-- A step of `workerCloseW2c`, as its reservation sees it. -/
theorem step_lock {ins : Instr β ClosePC} (hn : (workerCloseW2c claim).next pc = some ins)
    (s : Slot β) :
    LockStep claim s (ins.exec s).1 pc.reserving (ins.exec s).2.reserving ∧
      ((ins.exec s).2.critical = true → pc.critical = true ∨ s.lane .state = claim) := by
  cases pc with
  | acquire apc =>
    obtain rfl := Option.some.inj hn
    obtain ⟨hlock, hcrit⟩ := acquire_lock claim ClosePC.acquire
      (fun ok => if ok then .store else .done false) ClosePC.reserving ClosePC.critical
      (fun _ => ⟨rfl, rfl⟩) ⟨rfl, rfl⟩ apc s
    exact ⟨hlock, fun h => .inr (hcrit h)⟩
  | store =>
    obtain rfl := Option.some.inj hn
    exact ⟨.keep (Slot.setLane_lane_ne _ _ (by simp [Ne.symm])) fun _ => rfl, nofun⟩
  | release =>
    obtain rfl := Option.some.inj hn
    exact ⟨release_lock claim rfl s, nofun⟩
  | done result => cases hn

end Closer

end Haybarn.Sab
