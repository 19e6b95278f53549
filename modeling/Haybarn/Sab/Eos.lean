import Haybarn.Sab.PipeInv

/-!
# End of stream

`ringRead` returns 0 when it has found the ring empty and then the direction
closed. These are separate loads, the write position first: a producer that
publishes its last bytes and closes in between makes the reader report the end
of the stream with those bytes still in the ring (`eos_overtakes`).

That is the only way it goes wrong. `Overtaken` is the state of affairs in which
a close must not happen: the reader has loaded a write position equal to its own
position, and the writer has published since. In every run that closes in no
such state (and sends fewer than 2^31 bytes), end of stream means that all the
bytes written before the close have been returned (`eos_after_data`). The
invariant `EosInv` carries this: after the close, a write position the reader
still holds is either the final one or not the reader's own position.
-/

namespace Haybarn.Sab

open Haybarn.Lib

/-- The write position the reader has loaded and not yet set against the closed
flag. -/
def ReadPC.loaded? {β : Type} : ReadPC β → Option Int32
  | .loadRead w => some w
  | .plan w _ _ => some w
  | .loadClosed w _ _ => some w
  | .release pc => pc.loaded?
  | _ => none

/-- What the reader knows towards an end of stream at each program counter, from
the direction's closed flag and positions. -/
def ReadPC.EosOk {β : Type} (n : Nat) (closed w r : Int32) : ReadPC β → Prop
  | .acquire pc => pc ≠ .undo
  | .loadRead w' => closed ≠ 0 → w' = r → w' = w
  | .plan w' _ _ => closed ≠ 0 → w' = r → w' = w
  | .loadClosed w' _ _ => closed ≠ 0 → w' = r → w' = w
  | .loadState _ _ _ _ => closed ≠ 0 ∧ w = r
  | .copy _ k _ => 0 < n → 0 < k
  | .consume _ k _ => 0 < n → 0 < k
  | .release pc => pc.EosOk n closed w r
  | .done result _ => 0 < n → result = 0 → closed ≠ 0 ∧ w = r
  | _ => True

namespace Pipe

variable {p : Pipe} {s s' : State} {claim : Int32}

/-! ## The condition -/

/-- The write position the consumer holds. -/
def State.loaded? (s : State) : Option Int32 :=
  match s.consumer with
  | .reading _ pc => pc.loaded?
  | .idle => none

/-- The consumer holds its own position as the write position, and the writer has
published since. -/
def Overtaken (p : Pipe) (s : State) : Prop :=
  s.loaded? = some (s.slot.lane p.dir.readLane) ∧
    s.slot.lane p.dir.readLane ≠ s.slot.lane p.dir.writeLane

instance (s : State) : Decidable (p.Overtaken s) := inferInstanceAs (Decidable (_ ∧ _))

/-- The claim stays in `STATE`, and only the producer closes the direction. -/
def Undisturbed (p : Pipe) : Event → Prop
  | .poke l _ => l ≠ .state ∧ l ≠ p.dir.closedLane
  | _ => True

instance : ∀ e : Event, Decidable (p.Undisturbed e)
  | .poke _ _ => inferInstanceAs (Decidable (_ ∧ _))
  | .write _ => inferInstanceAs (Decidable True)
  | .close => inferInstanceAs (Decidable True)
  | .produce => inferInstanceAs (Decidable True)
  | .read _ => inferInstanceAs (Decidable True)
  | .consume => inferInstanceAs (Decidable True)
  | .pokeByte _ _ _ => inferInstanceAs (Decidable True)

/-- The steps of a claim that nobody released. -/
def Held (p : Pipe) (_ : State) (e : Event) : Prop := p.Undisturbed e

instance (s : State) (e : Event) : Decidable (p.Held s e) :=
  inferInstanceAs (Decidable (p.Undisturbed e))

/-- ... whose positions fit, and none of which closes the direction on an
overtaken reader. -/
def ClosesAfter (p : Pipe) (s : State) (e : Event) : Prop :=
  p.Held s e ∧ p.Fits s e ∧ (e = .produce ∧ s.producer = .closing .store → ¬ p.Overtaken s)

instance (s : State) (e : Event) : Decidable (p.ClosesAfter s e) :=
  inferInstanceAs (Decidable (_ ∧ _ ∧ (_ → _)))

/-- The two ends of a direction that serve `claim`. -/
structure ForClaim (p : Pipe) (claim : Int32) : Prop where
  live : claim ≠ 0
  reader : ∀ c, p.readerClaim = some c → c = claim
  closes : p.closer.dir = p.dir
  token : p.closer.token ≠ 0

theorem clientToWorker_forClaim (ringCap : Nat) (h : claim ≠ 0) :
    ForClaim (clientToWorker ringCap claim) claim :=
  ⟨h, fun _ hc => (Option.some.inj hc).symm, rfl, show (1 : Int32) ≠ 0 by decide⟩

theorem workerToClient_forClaim (ringCap : Nat) (stub : Bool) (h : claim ≠ 0) :
    ForClaim (workerToClient ringCap claim stub) claim :=
  ⟨h, nofun, rfl, h⟩

/-- A freshly published claim whose direction is open. -/
structure Opened (p : Pipe) (claim : Int32) (s : State) : Prop where
  init : p.Init s
  state : s.slot.lane .state = claim
  closed : s.slot.lane p.dir.closedLane = 0

/-! ## The invariant -/

/-- The producer has stored the closed flag. -/
def Producer.closedBy : Producer → Prop
  | .closing .release => True
  | .closing (.done _) => True
  | .closed => True
  | _ => False

structure EosInv (p : Pipe) (claim : Int32) (s : State) : Prop where
  inv : Inv p s
  state : s.slot.lane .state = claim
  closed : s.slot.lane p.dir.closedLane ≠ 0 → s.producer.closedBy
  reading : ∀ n pc, s.consumer = .reading n pc →
    pc.EosOk n (s.slot.lane p.dir.closedLane) (s.slot.lane p.dir.writeLane)
      (s.slot.lane p.dir.readLane)

end Pipe

/-! ## The reader's outline -/

namespace ReadPC

variable {β : Type} {n : Nat} {w w' r closed : Int32} {pc : ReadPC β}

/-- While the direction is open, the outline does not depend on the writer. -/
theorem EosOk.of_open (h : pc.EosOk n 0 w r) : pc.EosOk n 0 w' r := by
  induction pc with
  | acquire pc => exact h
  | loadRead w' => exact fun hc => absurd rfl hc
  | plan w' r' again => exact fun hc => absurd rfl hc
  | loadClosed w' r' again => exact fun hc => absurd rfl hc
  | loadState c w' r' again => exact absurd rfl h.1
  | copy r' k dst => exact h
  | consume r' k dst => exact h
  | release pc ih => exact ih h
  | done result dst => exact fun hn hz => absurd rfl (h hn hz).1
  | _ => trivial

/-- Closing keeps the outline, unless the reader is overtaken. -/
theorem EosOk.of_close (h : pc.EosOk n 0 w r) (hover : ¬ (pc.loaded? = some r ∧ r ≠ w)) :
    pc.EosOk n closed w r := by
  have hload : ∀ w', pc.loaded? = some w' → w' = r → w' = w := by
    intro w' hw' he
    subst he
    exact not_not.mp fun hne => hover ⟨hw', hne⟩
  clear hover
  induction pc with
  | acquire pc => exact h
  | loadRead w' => exact fun _ => hload w' rfl
  | plan w' r' again => exact fun _ => hload w' rfl
  | loadClosed w' r' again => exact fun _ => hload w' rfl
  | loadState c w' r' again => exact absurd rfl h.1
  | copy r' k dst => exact h
  | consume r' k dst => exact h
  | release pc ih => exact ih h hload
  | done result dst => exact fun hn hz => absurd rfl (h hn hz).1
  | _ => trivial

end ReadPC

section Steps

variable {β : Type} {P : Nat → β → Prop} {c : ReadCall} {pc : ReadPC β} {s : Slot β}

theorem ReadCall.leave_eosOk (c : ReadCall) {n : Nat} {closed w r : Int32} {pc : ReadPC β}
    (h : pc.EosOk n closed w r) : (c.leave pc).EosOk n closed w r := by
  unfold ReadCall.leave
  split
  · exact h
  · exact h

theorem ReadCall.loop_eosOk (c : ReadCall) {n : Nat} {closed w r : Int32}
    (hclaim : ∀ claim, c.servedClaim = some claim → claim ≠ 0) :
    (c.loop : ReadPC β).EosOk n closed w r := by
  unfold ReadCall.loop enterAcquire
  split
  · exact trivial
  next claim hc =>
    rw [if_neg (hclaim claim hc)]
    exact nofun

/-- The branch that copies: at least one byte, when the caller wants any. -/
theorem ReadCall.startCopy_eosOk {w r : Int32} {again : Bool} {closed w' r' : Int32}
    (hR : RingOk c.ringCap c.dir P s) (h : c.Ok P s (.plan w r again))
    (hne : avail w r ≠ 0) : (c.startCopy w r : ReadPC β).EosOk c.n closed w' r' := by
  have hb := avail_bounds hR h
  have hin := plan_inside hR h hne
  have hpos : 0 < c.n → 0 < c.size w r := by
    intro hn
    unfold size
    omega
  unfold startCopy
  rw [if_pos hin]
  split
  next hsize => exact fun _ => by omega
  next hsize => exact fun hn => absurd (hpos hn) hsize

/-- The outline read off the slot. -/
def ReadCall.EosOk (c : ReadCall) (s : Slot β) (pc : ReadPC β) : Prop :=
  pc.EosOk c.n (s.lane c.dir.closedLane) (s.lane c.dir.writeLane) (s.lane c.dir.readLane)

theorem ReadCall.EosOk.of_lanes {s s' : Slot β} (h : c.EosOk s pc)
    (hc : s'.lane c.dir.closedLane = s.lane c.dir.closedLane)
    (hw : s'.lane c.dir.writeLane = s.lane c.dir.writeLane)
    (hr : s'.lane c.dir.readLane = s.lane c.dir.readLane) : c.EosOk s' pc := by
  unfold ReadCall.EosOk
  rw [hc, hw, hr]
  exact h

/-- The reservation is taken at once or waited for: with the claim in `STATE`
the call is never turned away. -/
theorem ReadCall.acquire_eosOk {claim : Int32} {pc : AcquirePC} (hst : s.lane .state = claim)
    (hpc : pc ≠ .undo) :
    c.EosOk s ((acquireWorkerOperation claim ReadPC.acquire
      (fun ok => if ok then .loadWrite else .done 0 []) pc).exec s).2 := by
  cases pc with
  | loadState =>
    show c.EosOk s (if s.lane .state ≠ claim then _ else _)
    rw [if_neg (not_not.mpr hst)]
    exact nofun
  | reserve =>
    show c.EosOk s (if s.lane .reservation = 0 then _ else _)
    split
    · exact nofun
    · exact nofun
  | recheck =>
    show c.EosOk s (if s.lane .state = claim then _ else _)
    rw [if_pos hst]
    exact trivial
  | undo => exact absurd rfl hpc
  | wait => exact nofun

/-- A step of `ringRead` keeps the outline. -/
theorem ReadCall.step_eosOk {ins : Instr β (ReadPC β)}
    (hR : RingOk c.ringCap c.dir P s) (hok : c.Ok P s pc)
    (hclaim : ∀ claim, c.servedClaim = some claim → claim ≠ 0 ∧ s.lane .state = claim)
    (h : c.EosOk s pc) (hn : c.next pc = some ins) : c.EosOk (ins.exec s).1 (ins.exec s).2 := by
  cases pc with
  | acquire pc =>
    obtain ⟨claim, hc, rfl⟩ := Option.map_eq_some_iff.mp hn
    have hnext := acquire_eosOk (c := c) (hclaim claim hc).2 h
    exact EosOk.of_lanes hnext (acquire_lane _ _ _ _ _ (by simp)) (acquire_lane _ _ _ _ _ (by simp))
      (acquire_lane _ _ _ _ _ (by simp))
  | loadWrite =>
    obtain rfl := Option.some.inj hn
    exact fun _ _ => rfl
  | loadRead w =>
    obtain rfl := Option.some.inj hn
    exact h
  | plan w r again =>
    obtain rfl := Option.some.inj hn
    show c.EosOk s (if avail w r = 0 then _ else _)
    split
    next => exact h
    next hne => exact startCopy_eosOk hR hok hne
  | loadClosed w r again =>
    obtain rfl := Option.some.inj hn
    have hw : w = s.lane c.dir.readLane := Int32.toInt_inj.mp hok.2
    show c.EosOk s (if s.lane c.dir.closedLane = 0 then _ else if c.claimSafeClose then _ else _)
    split
    next => exact leave_eosOk c trivial
    next hclosed =>
      have hdrained : s.lane c.dir.closedLane ≠ 0 ∧
          s.lane c.dir.writeLane = s.lane c.dir.readLane := by
        refine ⟨hclosed, ?_⟩
        rw [← h hclosed hw, hw]
      split
      · exact hdrained
      · exact leave_eosOk c fun _ _ => hdrained
  | loadState closed w r again =>
    obtain rfl := Option.some.inj hn
    show c.EosOk s (if closed = s.lane .state then _ else _)
    split
    · exact leave_eosOk c fun _ _ => h
    · exact leave_eosOk c trivial
  | wait =>
    obtain rfl := Option.some.inj hn
    exact loop_eosOk c fun claim hc => (hclaim claim hc).1
  | copy r k dst =>
    obtain rfl := Option.some.inj hn
    show c.EosOk s (if dst.length + 1 < k then _ else _)
    split
    · exact h
    · exact h
  | consume r k dst =>
    obtain rfl := Option.some.inj hn
    refine leave_eosOk c fun hpos hz => ?_
    have hk : 0 < k := h hpos
    omega
  | release pc =>
    obtain ⟨claim, hc, rfl⟩ := Option.map_eq_some_iff.mp hn
    have h' : c.EosOk s pc := h
    exact h'.of_lanes (release_lane _ _ _ (by simp)) (release_lane _ _ _ (by simp))
      (release_lane _ _ _ (by simp))
  | waitOnce r => cases hn
  | reloadWrite r => cases hn
  | outOfRing => cases hn
  | done n dst => cases hn

/-- A step of the read loop of `js-stubs.js` keeps the outline. -/
theorem ReadCall.stub_step_eosOk {ins : Instr β (ReadPC β)}
    (hR : RingOk c.ringCap c.dir P s) (hok : c.Ok P s pc) (h : c.EosOk s pc)
    (hn : c.stubNext pc = some ins) : c.EosOk (ins.exec s).1 (ins.exec s).2 := by
  cases pc with
  | loadWrite =>
    obtain rfl := Option.some.inj hn
    exact fun _ _ => rfl
  | loadRead w =>
    obtain rfl := Option.some.inj hn
    exact h
  | plan w r again =>
    obtain rfl := Option.some.inj hn
    show c.EosOk s (if avail w r = 0 then _ else _)
    split
    next => exact h
    next hne => exact startCopy_eosOk hR hok hne
  | loadClosed w r again =>
    obtain rfl := Option.some.inj hn
    have hw : w = s.lane c.dir.readLane := Int32.toInt_inj.mp hok.2
    show c.EosOk s (if s.lane c.dir.closedLane = 0 then if again then _ else _ else _)
    split
    next =>
      split
      · exact fun _ => nofun
      · exact trivial
    next hclosed => exact ⟨hclosed, by rw [← h hclosed hw, hw]⟩
  | loadState closed w r again =>
    obtain rfl := Option.some.inj hn
    show c.EosOk s (if closed = s.lane .state then _ else if again then _ else _)
    split
    · exact fun _ _ => h
    · split
      · exact fun _ => nofun
      · exact trivial
  | waitOnce r => obtain rfl := Option.some.inj hn; exact trivial
  | reloadWrite r =>
    obtain rfl := Option.some.inj hn
    exact fun _ _ => rfl
  | copy r k dst =>
    obtain rfl := Option.some.inj hn
    show c.EosOk s (if dst.length + 1 < k then _ else _)
    split
    · exact h
    · exact h
  | consume r k dst =>
    obtain rfl := Option.some.inj hn
    intro hpos hz
    have hk : 0 < k := h hpos
    omega
  | acquire pc => cases hn
  | wait => cases hn
  | release pc => cases hn
  | outOfRing => cases hn
  | done n dst => cases hn

end Steps

/-! ## Every step keeps the invariant -/

namespace Pipe

variable {p : Pipe} {s s' : State} {claim : Int32}

theorem eosInv_init (h : p.Opened claim s) : EosInv p claim s := by
  refine ⟨inv_init h.init, h.state, fun hc => absurd h.closed hc, ?_⟩
  intro n pc hpc
  rw [h.init.consumer] at hpc
  cases hpc

/-- A writer in a call has not closed, so the flag is still down. -/
theorem EosInv.closed_eq_zero (h : EosInv p claim s) (hp : ¬ s.producer.closedBy) :
    s.slot.lane p.dir.closedLane = 0 :=
  not_not.mp fun hne => hp (h.closed hne)

theorem readStart_eosOk (hp : ForClaim p claim) (n : Nat) {closed w r : Int32} :
    (p.readStart n).EosOk n closed w r := by
  unfold readStart
  split
  · exact trivial
  · exact ReadCall.loop_eosOk (c := p.readCall n) fun c hc => hp.reader c hc ▸ hp.live

/-- One step of the reader, whichever of the two loops it runs. -/
theorem readStep_eosOk (hp : ForClaim p claim) (h : EosInv p claim s)
    {n : Nat} {pc : ReadPC UInt8} {ins : Instr UInt8 (ReadPC UInt8)}
    (hpc : s.consumer = .reading n pc) (hins : p.readNext n pc = some ins) :
    (p.readCall n).EosOk (ins.exec s.slot).1 (ins.exec s.slot).2 := by
  have hok := h.inv.reading n pc hpc
  have heos := h.reading n pc hpc
  unfold readNext at hins
  split at hins
  · exact ReadCall.stub_step_eosOk (c := p.readCall n) h.inv.ring hok heos hins
  · refine ReadCall.step_eosOk (c := p.readCall n) h.inv.ring hok ?_ heos hins
    intro c hc
    rw [hp.reader c hc]
    exact ⟨hp.live, h.state⟩

/-- Steps after which the lanes of the end of stream are as before. -/
theorem EosInv.of_lanes (h : EosInv p claim s) (hinv : Inv p s')
    (hst : s'.slot.lane .state = s.slot.lane .state)
    (hc : s'.slot.lane p.dir.closedLane = s.slot.lane p.dir.closedLane)
    (hw : s'.slot.lane p.dir.writeLane = s.slot.lane p.dir.writeLane)
    (hr : s'.slot.lane p.dir.readLane = s.slot.lane p.dir.readLane)
    (hp : s.producer.closedBy → s'.producer.closedBy) (hcons : s'.consumer = s.consumer) :
    EosInv p claim s' := by
  refine ⟨hinv, hst.trans h.state, ?_, ?_⟩
  · rw [hc]
    exact fun hne => hp (h.closed hne)
  · rw [hc, hw, hr, hcons]
    exact h.reading

/-- **Every step keeps the invariant**, when it closes on no overtaken reader. -/
theorem eosInv_step (hp : ForClaim p claim) {e : Event}
    (h : EosInv p claim s) (hstep : p.step s e = some s') (hok : p.ClosesAfter s e) :
    EosInv p claim s' := by
  obtain ⟨hheld, hfit, hclean⟩ := hok
  have hinv := inv_step h.inv hstep hfit
  cases step_moved hstep with
  | write chunk hidle =>
    refine ⟨hinv, h.state, fun hc => ?_, h.reading⟩
    exact absurd (h.closed_eq_zero (by rw [hidle]; exact id)) hc
  | close hidle =>
    refine ⟨hinv, h.state, fun hc => ?_, h.reading⟩
    exact absurd (h.closed_eq_zero (by rw [hidle]; exact id)) hc
  | writeStep hpc hins =>
    -- the flag is down, so what the reader knows does not depend on the position published
    have hopen := h.closed_eq_zero (by rw [hpc]; exact id)
    have hlane : ∀ l, l ≠ .reservation → l ≠ p.dir.writeLane → _ = s.slot.lane l :=
      fun l hl hw => WriteCall.step_lane hins s.slot (fun _ _ => hl) hw
    have hcl := hlane p.dir.closedLane (by simp) (by simp)
    refine ⟨hinv, (hlane .state nofun (Ne.symm (by simp))).trans h.state, fun hc => ?_, ?_⟩
    · exact absurd (hcl.trans hopen) hc
    · intro n pc hpc'
      have hread := h.reading n pc hpc'
      rw [hopen] at hread
      show pc.EosOk n _ _ _
      rw [hcl, hopen, hlane p.dir.readLane (by simp) (by simp)]
      exact hread.of_open
  | writeReturn hpc =>
    refine ⟨hinv, h.state, fun hc => ?_, h.reading⟩
    exact absurd (h.closed_eq_zero (by rw [hpc]; exact id)) hc
  | closeStep hpc hins =>
    have hfree : ∀ l, l ≠ .reservation → l ≠ p.dir.closedLane → _ = s.slot.lane l :=
      fun l hl hc => Closer.step_lane hins s.slot hl fun _ => by rw [hp.closes]; exact hc
    rcases Closer.step_cases hins with ⟨c, apc, rfl, rfl⟩ | ⟨k, rfl, rfl, hk⟩ | ⟨c, rfl, rfl⟩
    · refine h.of_lanes hinv (hfree .state nofun p.dir.closedLane_ne_state.symm)
        (Closer.step_lane hins s.slot (by simp) nofun)
        (hfree _ (by simp) (by simp)) (hfree _ (by simp) (by simp)) ?_ rfl
      rw [hpc]
      exact False.elim
    · -- the store of the flag: the reader is not overtaken
      have hopen := h.closed_eq_zero (by rw [hpc]; exact id)
      have hover := hclean ⟨rfl, hpc⟩
      refine ⟨hinv, (hfree .state nofun p.dir.closedLane_ne_state.symm).trans h.state, fun _ => ?_, ?_⟩
      · rcases hk with rfl | rfl
        · exact trivial
        · exact trivial
      · intro n pc hpc'
        have hread := h.reading n pc hpc'
        rw [hopen] at hread
        show pc.EosOk n _ _ _
        rw [hfree p.dir.writeLane (by simp) (by simp), hfree p.dir.readLane (by simp) (by simp)]
        refine hread.of_close fun hl => hover ⟨?_, hl.2⟩
        unfold State.loaded?
        rw [show s.consumer = .reading n pc from hpc']
        exact hl.1
    · refine h.of_lanes hinv (hfree .state nofun p.dir.closedLane_ne_state.symm)
        (Closer.step_lane hins s.slot (by simp) nofun)
        (hfree _ (by simp) (by simp)) (hfree _ (by simp) (by simp)) (fun _ => trivial) rfl
  | closeReturn hpc =>
    exact ⟨hinv, h.state, fun _ => trivial, h.reading⟩
  | read n hidle =>
    refine ⟨hinv, h.state, h.closed, ?_⟩
    intro n' pc hpc
    obtain ⟨rfl, rfl⟩ := Consumer.reading.inj hpc
    exact readStart_eosOk hp n
  | readStep hpc hins =>
    have hlane : ∀ l, l ≠ .reservation → l ≠ p.dir.readLane → _ = s.slot.lane l :=
      fun l hl hr => readStep_lane hins s.slot hl hr
    refine ⟨hinv, (hlane .state nofun (Ne.symm (by simp))).trans h.state, ?_, ?_⟩
    · show (_ : Int32) ≠ 0 → _
      rw [hlane p.dir.closedLane (by simp) (by simp)]
      exact h.closed
    · intro n' pc' hpc'
      obtain ⟨rfl, rfl⟩ := Consumer.reading.inj hpc'
      exact readStep_eosOk hp h hpc hins
  | readReturn hpc =>
    exact ⟨hinv, h.state, h.closed, nofun⟩
  | poke l v hw hr =>
    obtain ⟨hst, hcl⟩ : l ≠ .state ∧ l ≠ p.dir.closedLane := hheld
    exact h.of_lanes hinv (Slot.setLane_lane_ne _ _ hst.symm) (Slot.setLane_lane_ne _ _ hcl.symm)
      (Slot.setLane_lane_ne _ _ hw.symm) (Slot.setLane_lane_ne _ _ hr.symm) id rfl
  | pokeByte d i b hd =>
    exact ⟨hinv, h.state, h.closed, h.reading⟩

/-- **End of stream comes last.** A reader that gets 0 for a read of at least one
byte has been returned everything the producer wrote, and the producer has
closed. -/
theorem eos_after_data {ringCap : Nat} (hclaim : claim ≠ 0)
    (hp : p = clientToWorker ringCap claim ∨ ∃ stub, p = workerToClient ringCap claim stub)
    {s₀ : State} {es : List Event} (h0 : p.Opened claim s₀)
    (hrun : Run p.step p.ClosesAfter s₀ es s) {n : Nat} {dst : List UInt8}
    (hpc : s.consumer = .reading n (.done 0 dst)) (hn : 0 < n) :
    s.returned = s.sent ∧ s.producer.closedBy := by
  have hfor : ForClaim p claim := by
    rcases hp with rfl | ⟨stub, rfl⟩
    · exact clientToWorker_forClaim ringCap hclaim
    · exact workerToClient_forClaim ringCap stub hclaim
  have h : EosInv p claim s :=
    hrun.invariant (eosInv_init h0) fun _ _ _ hi hok hs => eosInv_step hfor hi hs hok
  obtain ⟨hclosed, hw⟩ : s.slot.lane p.dir.closedLane ≠ 0 ∧
      s.slot.lane p.dir.writeLane = s.slot.lane p.dir.readLane := h.reading n _ hpc hn rfl
  refine ⟨?_, h.closed hclosed⟩
  have hdst : dst = [] := List.eq_nil_of_length_eq_zero (h.inv.reading n _ hpc)
  have hret : s.received = s.returned := by
    unfold State.received
    rw [hpc, hdst]
    exact List.append_nil _
  have hpos : s.slot.readPos p.dir = s.slot.writePos p.dir := by
    unfold Slot.readPos Slot.writePos
    rw [hw]
  have hlen := h.inv.len
  rw [← hret, h.inv.received, hpos]
  exact List.take_of_length_le (by omega)

/-- Two bytes, the close, a read of both and one more read. -/
def writeCloseRead : List Event :=
  .write [1, 2] :: List.replicate 7 .produce ++ .close :: List.replicate 2 .produce ++
    .read 5 :: List.replicate 11 .consume ++ .read 5 :: List.replicate 8 .consume

theorem eos_after_writeCloseRead : ∃ s : State, s.sent = [1, 2] ∧
    s.returned = s.sent ∧ s.producer.closedBy := by
  have hex : ((execute (clientToWorker 8 7).step (clientToWorker 8 7).ClosesAfter (fresh 7)
      writeCloseRead).map fun s =>
        decide (s.sent = [1, 2] ∧ s.consumer = .reading 5 (.done 0 []))) = some true := by
    decide +kernel
  obtain ⟨s, hrun, hs⟩ := Run.exists_of_execute hex
  obtain ⟨hsent, hpc⟩ := of_decide_eq_true hs
  have heos := eos_after_data (show (7 : Int32) ≠ 0 by decide) (.inl rfl)
    ⟨init_fresh .., rfl, rfl⟩ hrun hpc (by decide)
  exact ⟨s, hsent, heos⟩

/-- The reader loads the write position; then three bytes are written and the
direction is closed; then the reader goes on. -/
def closeBetweenLoads : List Event :=
  .read 5 :: List.replicate 4 .consume ++ .write [1, 2, 3] :: List.replicate 8 .produce ++
    .close :: List.replicate 2 .produce ++ List.replicate 4 .consume

/-- **End of stream can overtake data**: a close that falls between the reader's
loads makes it report the end with three bytes unread. -/
theorem eos_overtakes : ¬ ∀ (p : Pipe) (claim : Int32), claim ≠ 0 →
    (p = clientToWorker 8 claim ∨ ∃ stub, p = workerToClient 8 claim stub) →
    ∀ s₀ es s, p.Opened claim s₀ → Run p.step p.Held s₀ es s →
    ∀ n dst, s.consumer = .reading n (.done 0 dst) → 0 < n → s.returned = s.sent := by
  intro hall
  have hex : ((execute (clientToWorker 8 7).step (clientToWorker 8 7).Held (fresh 7)
      closeBetweenLoads).map fun s =>
        decide (s.sent = [1, 2, 3] ∧ s.returned = [] ∧ s.consumer = .reading 5 (.done 0 [])))
          = some true := by
    decide +kernel
  obtain ⟨s, hrun, hs⟩ := Run.exists_of_execute hex
  obtain ⟨hsent, hret, hpc⟩ := of_decide_eq_true hs
  have heq := hall (clientToWorker 8 7) 7 (by decide) (.inl rfl) (fresh 7) _ s
    ⟨init_fresh .., rfl, rfl⟩ hrun 5 [] hpc (by decide)
  rw [hsent, hret] at heq
  cases heq

end Pipe

end Haybarn.Sab
