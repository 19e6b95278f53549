import Haybarn.Sab.Channel
import Haybarn.Sab.Reserve

/-!
# What one event of a channel can do

`step_moved` is the one case analysis of `Channel.step`: `Moved` has a
constructor for each kind of event, with what it found and the state it leaves.
Beside it stand the facts about the calls in progress that the invariants need
of a step: which lanes it can store to (`step_lane`), that none stores to
`STATE`, and what a worker's step does to the reservation (`WorkOp.step_lock`).
-/

namespace Haybarn.Sab.Channel

open Haybarn.Lib

variable {ch : Channel} {st st' : State}

/-- What an event can do to a state, one constructor for each kind of step. -/
inductive Moved (ch : Channel) (st : State) : Event → State → Prop
  | openSlot {i : Nat} (hc : st.clients i = .idle) :
      Moved ch st (.openSlot i) (st.setClient i (.opening .addSeq))
  | addSeq {i : Nat} (hc : st.clients i = .opening .addSeq) :
      Moved ch st (.openStep i) ({ st with claimSeq := st.claimSeq + 1 }.setClient i
        (.opening (.probe ch.nSlots (nextClaim st.claimSeq) 0)))
  | opened {i s : Nat} {id : Int32} (hc : st.clients i = .opening (.opened id s)) :
      Moved ch st (.openStep i) (st.setClient i (.holding id s none none))
  | failed {i : Nat} (hc : st.clients i = .opening .failed) :
      Moved ch st (.openStep i) (st.setClient i .idle)
  | openStep {i s : Nat} {pc : OpenPC} {ins : Instr Cell OpenPC}
      (hc : st.clients i = .opening pc) (hs : pc.slot? = some s)
      (hins : pc.next ch.nSlots = some ins) :
      Moved ch st (.openStep i) ((st.setSlot s (ins.exec (st.slots s)).1).setClient i
        (.opening (ins.exec (st.slots s)).2))
  | release {i s : Nat} {claim : Int32} (hc : st.clients i = .holding claim s none none) :
      Moved ch st (.release i) ((st.setSlot s ((st.slots s).setLane .state 0)).setClient i .idle)
  | send {i s : Nat} {claim : Int32} {recv : Option RecvOp} {call : SendCall}
      (hc : st.clients i = .holding claim s none recv) :
      Moved ch st (.send i call)
        (st.setClient i (.holding claim s (some (call.start ch claim)) recv))
  | sendStep {i s : Nat} {claim : Int32} {op : SendOp} {recv : Option RecvOp}
      {ins : Instr Cell SendOp} (hc : st.clients i = .holding claim s (some op) recv)
      (hins : op.next ch claim = some ins) :
      Moved ch st (.sendStep i) ((st.setSlot s (ins.exec (st.slots s)).1).setClient i
        (.holding claim s (some (ins.exec (st.slots s)).2) recv))
  | sendReturn {i s : Nat} {claim : Int32} {op : SendOp} {recv : Option RecvOp}
      (hc : st.clients i = .holding claim s (some op) recv) (hdone : op.isDone) :
      Moved ch st (.sendStep i) (st.setClient i (.holding claim s none recv))
  | recv {i s : Nat} {claim : Int32} {send : Option SendOp} {call : RecvCall}
      (hc : st.clients i = .holding claim s send none) :
      Moved ch st (.recv i call)
        (st.setClient i (.holding claim s send (some (call.start ch))))
  | recvStep {i s : Nat} {claim : Int32} {send : Option SendOp} {op : RecvOp}
      {ins : Instr Cell RecvOp} (hc : st.clients i = .holding claim s send (some op))
      (hins : op.next ch = some ins) :
      Moved ch st (.recvStep i) ((st.setSlot s (ins.exec (st.slots s)).1).setClient i
        (.holding claim s send (some (ins.exec (st.slots s)).2)))
  | recvReturn {i s : Nat} {claim : Int32} {send : Option SendOp} {op : RecvOp}
      (hc : st.clients i = .holding claim s send (some op)) (hdone : op.isDone) :
      Moved ch st (.recvStep i) (st.setClient i (.holding claim s send none))
  | work {j s : Nat} {claim : Int32} {call : WorkCall} (hj : st.workers j = none)
      (hclaim : claim ≠ 0) :
      Moved ch st (.work j claim s call)
        (st.setWorker j (some { claim, slot := s, op := call.start ch claim }))
  | workStep {j : Nat} {t : Task} {ins : Instr Cell WorkOp} (hj : st.workers j = some t)
      (hins : t.op.next ch t.claim = some ins) :
      Moved ch st (.workStep j) ((st.setSlot t.slot (ins.exec (st.slots t.slot)).1).setWorker j
        (some { t with op := (ins.exec (st.slots t.slot)).2 }))
  | workReturn {j : Nat} {t : Task} (hj : st.workers j = some t) (hdone : t.op.isDone) :
      Moved ch st (.workStep j) (st.setWorker j none)

theorem openStep_moved {i : Nat} {pc : OpenPC} (hc : st.clients i = .opening pc)
    (h : ch.openStep st i pc = some st') : Moved ch st (.openStep i) st' := by
  unfold openStep at h
  split at h
  next => rw [← Option.some.inj h]; exact .addSeq hc
  next => rw [← Option.some.inj h]; exact .opened hc
  next => rw [← Option.some.inj h]; exact .failed hc
  next =>
    split at h
    next s ins hs hins => rw [← Option.some.inj h]; exact .openStep hc hs hins
    next => cases h

/-- The one case analysis of `step`. -/
theorem step_moved {e : Event} (h : ch.step st e = some st') : Moved ch st e st' := by
  cases e with
  | openSlot i =>
    obtain ⟨hc, heq⟩ := Option.ite_none_right_eq_some.mp h
    rw [← Option.some.inj heq]
    exact .openSlot hc
  | openStep i =>
    simp only [step] at h
    split at h
    next pc hc => exact openStep_moved hc h
    next => cases h
  | release i =>
    simp only [step] at h
    split at h
    next hc => rw [← Option.some.inj h]; exact .release hc
    next => cases h
  | send i call =>
    simp only [step] at h
    split at h
    next hc => rw [← Option.some.inj h]; exact .send hc
    next => cases h
  | sendStep i =>
    simp only [step] at h
    split at h
    next hc =>
      split at h
      next ins hins => rw [← Option.some.inj h]; exact .sendStep hc hins
      next =>
        obtain ⟨hdone, heq⟩ := Option.ite_none_right_eq_some.mp h
        rw [← Option.some.inj heq]
        exact .sendReturn hc hdone
    next => cases h
  | recv i call =>
    simp only [step] at h
    split at h
    next hc => rw [← Option.some.inj h]; exact .recv hc
    next => cases h
  | recvStep i =>
    simp only [step] at h
    split at h
    next hc =>
      split at h
      next ins hins => rw [← Option.some.inj h]; exact .recvStep hc hins
      next =>
        obtain ⟨hdone, heq⟩ := Option.ite_none_right_eq_some.mp h
        rw [← Option.some.inj heq]
        exact .recvReturn hc hdone
    next => cases h
  | work j claim slot call =>
    obtain ⟨⟨hj, hclaim⟩, heq⟩ := Option.ite_none_right_eq_some.mp h
    rw [← Option.some.inj heq]
    exact .work hj hclaim
  | workStep j =>
    simp only [step] at h
    split at h
    next t hj =>
      split at h
      next ins hins => rw [← Option.some.inj h]; exact .workStep hj hins
      next =>
        obtain ⟨hdone, heq⟩ := Option.ite_none_right_eq_some.mp h
        rw [← Option.some.inj heq]
        exact .workReturn hj hdone
    next => cases h

/-! ## Reading an updated state -/

namespace State

variable (st : State) (s s' i i' j j' : Nat) (sl : Slot Cell) (c : Client) (t : Option Task)

theorem setSlot_self : st.setSlot s (st.slots s) = st := by
  unfold setSlot
  rw [Function.update_eq_self]

@[simp] theorem setSlot_slots_self : (st.setSlot s sl).slots s = sl := Function.update_self ..

@[simp] theorem setSlot_slots_ne {s s' : Nat} (h : s' ≠ s) :
    (st.setSlot s sl).slots s' = st.slots s' := Function.update_of_ne h ..

@[simp] theorem setClient_slots : (st.setClient i c).slots = st.slots := rfl

@[simp] theorem setClient_clients_self : (st.setClient i c).clients i = c :=
  Function.update_self ..

@[simp] theorem setClient_clients_ne {i i' : Nat} (h : i' ≠ i) :
    (st.setClient i c).clients i' = st.clients i' := Function.update_of_ne h ..

@[simp] theorem setWorker_slots : (st.setWorker j t).slots = st.slots := rfl

@[simp] theorem setWorker_workers_self : (st.setWorker j t).workers j = t :=
  Function.update_self ..

@[simp] theorem setWorker_workers_ne {j j' : Nat} (h : j' ≠ j) :
    (st.setWorker j t).workers j' = st.workers j' := Function.update_of_ne h ..

end State

/-! ## Where a call in progress comes from -/

/-- A read or a query in progress was in progress before, has just made a step, or
has just been started. -/
inductive RecvCame (ch : Channel) (st : State) (i s : Nat) (claim : Int32) :
    Event → RecvOp → Prop
  | stays {e : Event} {send : Option SendOp} {op : RecvOp}
      (hc : st.clients i = .holding claim s send (some op)) (he : e ≠ .recvStep i) :
      RecvCame ch st i s claim e op
  | step {send : Option SendOp} {op : RecvOp} {ins : Instr Cell RecvOp}
      (hc : st.clients i = .holding claim s send (some op)) (hins : op.next ch = some ins) :
      RecvCame ch st i s claim (.recvStep i) (ins.exec (st.slots s)).2
  | start {send : Option SendOp} {call : RecvCall}
      (hc : st.clients i = .holding claim s send none) :
      RecvCame ch st i s claim (.recv i call) (call.start ch)

theorem recv_came {e : Event} {i s : Nat} {claim : Int32} {send : Option SendOp} {op : RecvOp}
    (hstep : ch.step st e = some st') (hc : st'.clients i = .holding claim s send (some op)) :
    RecvCame ch st i s claim e op := by
  -- an event of another client, or one that leaves this client in no call
  have hold : ∀ {st₁ : State} {k : Nat} {c : Client},
      (st₁.setClient k c).clients i = .holding claim s send (some op) → st₁.clients = st.clients →
      (∀ s send, c ≠ .holding claim s send (some op)) → e ≠ .recvStep i →
      RecvCame ch st i s claim e op := by
    intro st₁ k c hk hsame hnot he
    by_cases hik : i = k
    · subst hik
      rw [State.setClient_clients_self] at hk
      exact absurd hk (hnot s send)
    · rw [State.setClient_clients_ne _ _ hik, hsame] at hk
      exact .stays hk he
  cases step_moved hstep with
  | openSlot hk => exact hold hc rfl nofun nofun
  | addSeq hk => exact hold hc rfl nofun nofun
  | opened hk => exact hold hc rfl nofun nofun
  | failed hk => exact hold hc rfl nofun nofun
  | openStep hk hs hins => exact hold hc rfl nofun nofun
  | release hk => exact hold hc rfl nofun nofun
  | send hk =>
    rename_i k s' claim' recv call
    by_cases hik : i = k
    · subst hik
      rw [State.setClient_clients_self] at hc
      obtain ⟨rfl, rfl, -, rfl⟩ := Client.holding.inj hc
      exact .stays hk nofun
    · rw [State.setClient_clients_ne _ _ hik] at hc
      exact .stays hc nofun
  | sendStep hk hins =>
    rename_i k s' claim' op' recv ins
    by_cases hik : i = k
    · subst hik
      rw [State.setClient_clients_self] at hc
      obtain ⟨rfl, rfl, -, rfl⟩ := Client.holding.inj hc
      exact .stays hk nofun
    · rw [State.setClient_clients_ne _ _ hik] at hc
      exact .stays hc nofun
  | sendReturn hk hdone =>
    rename_i k s' claim' op' recv
    by_cases hik : i = k
    · subst hik
      rw [State.setClient_clients_self] at hc
      obtain ⟨rfl, rfl, -, rfl⟩ := Client.holding.inj hc
      exact .stays hk nofun
    · rw [State.setClient_clients_ne _ _ hik] at hc
      exact .stays hc nofun
  | recv hk =>
    rename_i k s' claim' send' call
    by_cases hik : i = k
    · subst hik
      rw [State.setClient_clients_self] at hc
      obtain ⟨rfl, rfl, rfl, heq⟩ := Client.holding.inj hc
      obtain rfl := Option.some.inj heq
      exact .start hk
    · rw [State.setClient_clients_ne _ _ hik] at hc
      exact .stays hc nofun
  | recvStep hk hins =>
    rename_i k s' claim' send' op' ins
    by_cases hik : i = k
    · subst hik
      rw [State.setClient_clients_self] at hc
      obtain ⟨rfl, rfl, rfl, heq⟩ := Client.holding.inj hc
      obtain rfl := Option.some.inj heq
      exact .step hk hins
    · rw [State.setClient_clients_ne _ _ hik] at hc
      exact .stays hc fun he => hik (Event.recvStep.inj he).symm
  | recvReturn hk hdone =>
    rename_i k s' claim' send' op'
    by_cases hik : i = k
    · subst hik
      rw [State.setClient_clients_self] at hc
      cases hc
    · rw [State.setClient_clients_ne _ _ hik] at hc
      exact .stays hc fun he => hik (Event.recvStep.inj he).symm
  | work hj hclaim => exact .stays hc nofun
  | workStep hj hins => exact .stays hc nofun
  | workReturn hj hdone => exact .stays hc nofun

/-- A step of a client's read or query, as its slot sees it. -/
theorem recvStep_slot {i s : Nat} {claim : Int32} {send : Option SendOp} {op : RecvOp}
    {ins : Instr Cell RecvOp} (hc : st.clients i = .holding claim s send (some op))
    (hins : op.next ch = some ins) (hstep : ch.step st (.recvStep i) = some st') :
    st'.slots s = (ins.exec (st.slots s)).1 := by
  simp only [step, hc, hins] at hstep
  rw [← Option.some.inj hstep]
  exact State.setSlot_slots_self ..

/-- A worker's call in progress was in progress before, has just made a step, or
has just been started. -/
inductive WorkCame (ch : Channel) (st : State) (j : Nat) : Event → Task → Prop
  | stays {e : Event} {t : Task} (hj : st.workers j = some t) (he : e ≠ .workStep j) :
      WorkCame ch st j e t
  | step {t : Task} {ins : Instr Cell WorkOp} (hj : st.workers j = some t)
      (hins : t.op.next ch t.claim = some ins) :
      WorkCame ch st j (.workStep j) { t with op := (ins.exec (st.slots t.slot)).2 }
  | start {claim : Int32} {s : Nat} {call : WorkCall} (hj : st.workers j = none)
      (hclaim : claim ≠ 0) :
      WorkCame ch st j (.work j claim s call) { claim, slot := s, op := call.start ch claim }

theorem work_came {e : Event} {j : Nat} {t : Task} (hstep : ch.step st e = some st')
    (hj : st'.workers j = some t) : WorkCame ch st j e t := by
  cases step_moved hstep with
  | work hk hclaim =>
    rename_i k s claim call
    by_cases hjk : j = k
    · subst hjk
      rw [State.setWorker_workers_self] at hj
      obtain rfl := Option.some.inj hj
      exact .start hk hclaim
    · rw [State.setWorker_workers_ne _ _ hjk] at hj
      exact .stays hj nofun
  | workStep hk hins =>
    rename_i k u ins
    by_cases hjk : j = k
    · subst hjk
      rw [State.setWorker_workers_self] at hj
      obtain rfl := Option.some.inj hj
      exact .step hk hins
    · rw [State.setWorker_workers_ne _ _ hjk] at hj
      exact .stays hj fun he => hjk (Event.workStep.inj he).symm
  | workReturn hk hdone =>
    rename_i k u
    by_cases hjk : j = k
    · subst hjk
      rw [State.setWorker_workers_self] at hj
      cases hj
    · rw [State.setWorker_workers_ne _ _ hjk] at hj
      exact .stays hj fun he => hjk (Event.workStep.inj he).symm
  | openSlot hk => exact .stays hj nofun
  | addSeq hk => exact .stays hj nofun
  | opened hk => exact .stays hj nofun
  | failed hk => exact .stays hj nofun
  | openStep hk hs hins => exact .stays hj nofun
  | release hk => exact .stays hj nofun
  | send hk => exact .stays hj nofun
  | sendStep hk hins => exact .stays hj nofun
  | sendReturn hk hdone => exact .stays hj nofun
  | recv hk => exact .stays hj nofun
  | recvStep hk hins => exact .stays hj nofun
  | recvReturn hk hdone => exact .stays hj nofun

/-- A step of a worker's call, as its slot sees it. -/
theorem workStep_slot {j : Nat} {t : Task} {ins : Instr Cell WorkOp} (hj : st.workers j = some t)
    (hins : t.op.next ch t.claim = some ins) (hstep : ch.step st (.workStep j) = some st') :
    st'.slots t.slot = (ins.exec (st.slots t.slot)).1 := by
  simp only [step, hj, hins] at hstep
  rw [← Option.some.inj hstep]
  exact State.setSlot_slots_self ..

/-! ## The lanes a call can store to -/

theorem SendOp.step_lane {claim : Int32} {op : SendOp} {ins : Instr Cell SendOp}
    (h : op.next ch claim = some ins) (sl : Slot Cell) {l : Lane} (hw : l ≠ .c2wWrite)
    (hc : l ≠ .c2wClosed) : (ins.exec sl).1.lane l = sl.lane l := by
  cases op with
  | write chunk pc =>
    obtain ⟨ins', hins', rfl⟩ := Option.map_eq_some_iff.mp h
    rw [Instr.exec_map]
    exact WriteCall.step_lane hins' sl nofun hw
  | eos pc =>
    obtain ⟨ins', hins', rfl⟩ := Option.map_eq_some_iff.mp h
    rw [Instr.exec_map]
    rcases Closer.step_cases hins' with ⟨c, apc, hpc, -⟩ | ⟨k, -, rfl, -⟩ | ⟨c, hpc, -⟩
    · subst hpc; cases hins'
    · exact Slot.setLane_lane_ne _ _ hc
    · subst hpc; cases hins'

/-- The query only loads. -/
theorem QueryPC.step_slot {pc : QueryPC} {ins : Instr Cell QueryPC} (h : pc.next = some ins)
    (sl : Slot Cell) : (ins.exec sl).1 = sl := by
  cases pc with
  | done r => cases h
  | _ => obtain rfl := Option.some.inj h; rfl

theorem RecvOp.step_lane {op : RecvOp} {ins : Instr Cell RecvOp} (h : op.next ch = some ins)
    (sl : Slot Cell) {l : Lane} (hr : l ≠ .w2cRead) : (ins.exec sl).1.lane l = sl.lane l := by
  cases op with
  | read n pc =>
    obtain ⟨ins', hins', rfl⟩ := Option.map_eq_some_iff.mp h
    rw [Instr.exec_map]
    exact ReadCall.step_lane hins' sl nofun hr
  | stubRead n pc =>
    obtain ⟨ins', hins', rfl⟩ := Option.map_eq_some_iff.mp h
    rw [Instr.exec_map]
    exact ReadCall.stub_step_lane hins' sl hr
  | query pc =>
    obtain ⟨ins', hins', rfl⟩ := Option.map_eq_some_iff.mp h
    rw [Instr.exec_map, QueryPC.step_slot hins']

/-! ## A worker's call and its reservation -/

def WorkOp.reserving : WorkOp → Bool
  | .read _ pc => pc.reserving
  | .write _ pc => pc.reserving
  | .close pc => pc.reserving
  | .error _ _ _ => false

def WorkOp.critical : WorkOp → Bool
  | .read _ pc => pc.critical
  | .write _ pc => pc.critical
  | .close pc => pc.critical
  | .error _ _ _ => false

def WorkOp.LeavesOk : WorkOp → Prop
  | .read _ pc => pc.LeavesOk
  | .write _ pc => pc.LeavesOk
  | _ => True

theorem WorkOp.reserving_of_critical {op : WorkOp} (h : op.critical = true) :
    op.reserving = true := by
  cases op with
  | read n pc => cases pc <;> first | rfl | cases h
  | write chunk pc => cases pc <;> first | rfl | cases h
  | close pc => cases pc <;> first | rfl | cases h
  | error code detail pc => cases h

theorem WorkCall.start_idle (claim : Int32) (call : WorkCall) :
    (call.start ch claim).reserving = false ∧ (call.start ch claim).critical = false ∧
      (call.start ch claim).LeavesOk := by
  cases call with
  | read n =>
    obtain ⟨hres, hcrit⟩ := ReadCall.loop_idle (β := Cell) (ch.workRead claim n) rfl
    exact ⟨hres, hcrit, .of_idle hres⟩
  | write chunk =>
    obtain ⟨hres, hcrit⟩ := WriteCall.loop_idle (ch.workWrite claim chunk) rfl 0
    exact ⟨hres, hcrit, .of_idle hres⟩
  | close =>
    obtain ⟨hres, hcrit⟩ := Closer.start_idle claim
    exact ⟨hres, hcrit, trivial⟩
  | error code detail => exact ⟨rfl, rfl, trivial⟩

/-- A worker's step, as the reservation of its slot sees it. -/
theorem WorkOp.step_lock {claim : Int32} {op : WorkOp} {ins : Instr Cell WorkOp}
    (hop : op.LeavesOk) (h : op.next ch claim = some ins) (sl : Slot Cell) :
    LockStep claim sl (ins.exec sl).1 op.reserving (ins.exec sl).2.reserving ∧
      ((ins.exec sl).2.critical = true → op.critical = true ∨ sl.lane .state = claim) ∧
      (ins.exec sl).2.LeavesOk := by
  cases op with
  | read n pc =>
    obtain ⟨ins', hins', rfl⟩ := Option.map_eq_some_iff.mp h
    rw [Instr.exec_map]
    exact ReadCall.step_lock (c := ch.workRead claim n) rfl hop hins' sl
  | write chunk pc =>
    obtain ⟨ins', hins', rfl⟩ := Option.map_eq_some_iff.mp h
    rw [Instr.exec_map]
    exact WriteCall.step_lock (c := ch.workWrite claim chunk) rfl hop hins' sl
  | close pc =>
    obtain ⟨ins', hins', rfl⟩ := Option.map_eq_some_iff.mp h
    rw [Instr.exec_map]
    obtain ⟨hlock, hcrit⟩ := Closer.step_lock hins' sl
    exact ⟨hlock, hcrit, trivial⟩
  | error code detail pc =>
    obtain ⟨ins', hins', rfl⟩ := Option.map_eq_some_iff.mp h
    rw [Instr.exec_map]
    refine ⟨.keep ?_ id, nofun, trivial⟩
    cases pc with
    | done => cases hins'
    | _ => obtain rfl := Option.some.inj hins'; rfl

/-- No worker stores to `STATE`. -/
theorem WorkOp.step_state {claim : Int32} {op : WorkOp} {ins : Instr Cell WorkOp}
    (h : op.next ch claim = some ins) (sl : Slot Cell) :
    (ins.exec sl).1.lane .state = sl.lane .state := by
  cases op with
  | read n pc =>
    obtain ⟨ins', hins', rfl⟩ := Option.map_eq_some_iff.mp h
    rw [Instr.exec_map]
    exact ReadCall.step_lane hins' sl (fun _ _ => nofun) nofun
  | write chunk pc =>
    obtain ⟨ins', hins', rfl⟩ := Option.map_eq_some_iff.mp h
    rw [Instr.exec_map]
    exact WriteCall.step_lane hins' sl (fun _ _ => nofun) nofun
  | close pc =>
    obtain ⟨ins', hins', rfl⟩ := Option.map_eq_some_iff.mp h
    rw [Instr.exec_map]
    exact Closer.step_lane hins' sl nofun fun _ => nofun
  | error code detail pc =>
    obtain ⟨ins', hins', rfl⟩ := Option.map_eq_some_iff.mp h
    rw [Instr.exec_map]
    cases pc with
    | done => cases hins'
    | _ => obtain rfl := Option.some.inj hins'; rfl

/-- The call is `workerCloseError`. -/
def WorkOp.isError : WorkOp → Bool
  | .error _ _ _ => true
  | _ => false

theorem WorkOp.step_isError {claim : Int32} {op : WorkOp} {ins : Instr Cell WorkOp}
    (h : op.next ch claim = some ins) (sl : Slot Cell) :
    (ins.exec sl).2.isError = op.isError := by
  cases op <;>
  · obtain ⟨ins', -, rfl⟩ := Option.map_eq_some_iff.mp h
    rw [Instr.exec_map]
    rfl

/-- The slot as it was, up to the reservation. -/
def SameButReservation (sl sl' : Slot Cell) : Prop :=
  (∀ l, l ≠ .reservation → sl'.lane l = sl.lane l) ∧ ∀ d, sl'.ring d = sl.ring d

theorem SameButReservation.refl (sl : Slot Cell) : SameButReservation sl sl :=
  ⟨fun _ _ => rfl, fun _ => rfl⟩

theorem acquire_same {σ : Type} (claim : Int32) (lift : AcquirePC → σ) (ret : Bool → σ)
    (pc : AcquirePC) (sl : Slot Cell) :
    SameButReservation sl ((acquireWorkerOperation claim lift ret pc).exec sl).1 :=
  ⟨fun _ hl => acquire_lane claim lift ret pc sl hl,
    fun d => (acquire_sameDir claim lift ret pc d sl).ring⟩

theorem release_same {σ : Type} (claim : Int32) (k : σ) (sl : Slot Cell) :
    SameButReservation sl ((releaseWorkerOperation claim k).exec sl).1 :=
  ⟨fun _ hl => release_lane claim k sl hl, fun d => (release_sameDir claim k d sl).ring⟩

/-- Outside its critical part a guarded operation touches nothing but the
reservation. -/
theorem WorkOp.step_same {claim : Int32} {op : WorkOp} {ins : Instr Cell WorkOp}
    (hcrit : op.critical = false) (herr : op.isError = false) (h : op.next ch claim = some ins)
    (sl : Slot Cell) : SameButReservation sl (ins.exec sl).1 := by
  cases op with
  | read n pc =>
    obtain ⟨ins', hins', rfl⟩ := Option.map_eq_some_iff.mp h
    rw [Instr.exec_map]
    cases pc with
    | acquire apc =>
      obtain rfl := Option.some.inj hins'
      exact acquire_same ..
    | release pc =>
      obtain rfl := Option.some.inj hins'
      exact release_same ..
    | wait => obtain rfl := Option.some.inj hins'; exact .refl _
    | waitOnce r => cases hins'
    | reloadWrite r => cases hins'
    | outOfRing => cases hins'
    | done r dst => cases hins'
    | _ => cases hcrit
  | write chunk pc =>
    obtain ⟨ins', hins', rfl⟩ := Option.map_eq_some_iff.mp h
    rw [Instr.exec_map]
    cases pc with
    | acquire off apc =>
      obtain rfl := Option.some.inj hins'
      exact acquire_same ..
    | release pc =>
      obtain rfl := Option.some.inj hins'
      exact release_same ..
    | wait off => obtain rfl := Option.some.inj hins'; exact .refl _
    | outOfRing => cases hins'
    | done r => cases hins'
    | _ => cases hcrit
  | close pc =>
    obtain ⟨ins', hins', rfl⟩ := Option.map_eq_some_iff.mp h
    rw [Instr.exec_map]
    cases pc with
    | acquire apc => obtain rfl := Option.some.inj hins'; exact acquire_same ..
    | release => obtain rfl := Option.some.inj hins'; exact release_same ..
    | done r => cases hins'
    | store => cases hcrit
  | error code detail pc => cases herr

end Haybarn.Sab.Channel
