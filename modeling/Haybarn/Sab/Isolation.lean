import Haybarn.Sab.Exclusive

/-!
# Claims are isolated from each other

Slots are reused and workers can be arbitrarily late, so a call that serves
claim `c` may run on a slot that holds another claim. What keeps the claims
apart is the reservation: a worker works on a ring only in the critical part of
a guarded operation, and there the claim it serves is the one in `STATE`, or the
client has released it and nobody can reopen the slot yet.

`Serves s c` names the claims whose bytes may be in slot `s`. There is at most
one (`Serves.unique`), and the invariant (`IsoInv`) says that both its rings are
in order and hold bytes of that claim only, each stored by the side that owns
the direction (`Authored`). The client's step and the worker's critical step are
one move each on the two directions (`SideMove`); every other step leaves both
directions alone, except for an opener's resets, which fall in a slot that serves
nobody.

The reservation lane itself is not covered: a late worker may take it between
its two looks at `STATE`, and gives it back at once (`reserve_by_stale`).
-/

namespace Haybarn.Sab

/-- The direction a side writes to. -/
def Side.out : Side → Dir
  | .client => .c2w
  | .worker => .w2c

/-- The direction a side reads from. -/
def Side.inn : Side → Dir
  | .client => .w2c
  | .worker => .c2w

/-- The side that writes to a direction. -/
def Dir.author : Dir → Side
  | .c2w => .client
  | .w2c => .worker

namespace Channel

open Haybarn.Lib

variable {ch : Channel} {st st' : State} {i j s : Nat} {c claim : Int32} {e : Event}

/-! ## Whose bytes -/

/-- The byte was stored for claim `c` by the side that writes to `d`. -/
def Authored (d : Dir) (c : Int32) (b : Cell) : Prop := b.side = d.author ∧ b.claim = c

/-- Both rings of the slot are in order and hold bytes of claim `c` only. -/
def RingsOk (ch : Channel) (c : Int32) (sl : Slot Cell) : Prop :=
  ∀ d, RingOk ch.ringCap d (fun _ => Authored d c) sl

/-- The claims whose bytes may be in slot `s`: the one in `STATE`, and the one a
worker works for. -/
def State.Serves (st : State) (s : Nat) (c : Int32) : Prop :=
  (st.lanes .state s = c ∧ c ≠ 0) ∨
    ∃ j t, st.workers j = some t ∧ t.slot = s ∧ t.claim = c ∧ t.op.critical = true

/-- A slot serves one claim at a time. -/
theorem Serves.unique (h : LockInv st) (hc : st.Serves s c) (hc' : st.Serves s claim) :
    c = claim := by
  rcases hc with ⟨hst, hne⟩ | ⟨j, t, hj, hs, ht, hcrit⟩
  · rcases hc' with ⟨hst', -⟩ | ⟨j', t', hj', hs', ht', hcrit'⟩
    · exact hst.symm.trans hst'
    · have hcl := h.critical j' t' hj' hcrit'
      rw [hs', hst, ht'] at hcl
      exact hcl.resolve_right hne
  · rcases hc' with ⟨hst', hne'⟩ | ⟨j', t', hj', hs', ht', hcrit'⟩
    · have hcl := h.critical j t hj hcrit
      rw [hs, hst', ht] at hcl
      exact (hcl.resolve_right hne').symm
    · have hjj := h.worker_unique hj hj' (hs.trans hs'.symm) (WorkOp.reserving_of_critical hcrit)
        (WorkOp.reserving_of_critical hcrit')
      subst hjj
      obtain rfl := Option.some.inj (hj.symm.trans hj')
      exact ht.symm.trans ht'

/-- Nobody has bytes in a slot that an opener is resetting. -/
theorem not_serves_clearing {pc : OpenPC} (h : LockInv st) (hc : st.clients i = .opening pc)
    (hcl : pc.clearing? = some s) (hr : pc.reserved? = some (s, claim)) : ¬ st.Serves s c := by
  rintro (⟨hst, hne⟩ | ⟨j, t, hj, hs, -, hcrit⟩)
  · exact hne (hst.symm.trans (h.clearing i pc s hc hcl))
  · have hidle := h.no_worker hc hr hj hs
    exact absurd (hidle.symm.trans (WorkOp.reserving_of_critical hcrit)) nofun

/-! ## What each call knows -/

/-- The bytes a call has consumed and not yet returned. -/
def RecvOp.consumed : RecvOp → List Cell
  | .read _ pc => pc.consumed
  | .stubRead _ pc => pc.consumed
  | .query _ => []

def WorkOp.consumed : WorkOp → List Cell
  | .read _ pc => pc.consumed
  | _ => []

/-- The outline of the sending side's call, for the claim its client holds. -/
def SendOp.Ok (ch : Channel) (claim : Int32) (sl : Slot Cell) : SendOp → Prop
  | .write chunk pc => (ch.sendWrite claim chunk).Ok sl pc
  | .eos _ => True

def RecvOp.Ok (ch : Channel) (claim : Int32) (sl : Slot Cell) : RecvOp → Prop
  | .read n pc => (ch.recvRead n).Ok (fun _ => Authored .w2c claim) sl pc
  | .stubRead n pc => (ch.recvRead n).Ok (fun _ => Authored .w2c claim) sl pc
  | .query _ => True

/-- The outline of a worker's call, for the claim it serves. -/
def WorkOp.Ok (ch : Channel) (claim : Int32) (sl : Slot Cell) : WorkOp → Prop
  | .read n pc => (ch.workRead claim n).Ok (fun _ => Authored .c2w claim) sl pc
  | .write chunk pc => (ch.workWrite claim chunk).Ok sl pc
  | .close _ => True
  | .error _ _ _ => True

theorem SendOp.Ok.of_sameDir {op : SendOp} {sl sl' : Slot Cell} (h : op.Ok ch claim sl)
    (hs : SameDir .c2w sl sl') : op.Ok ch claim sl' := by
  cases op with
  | write chunk pc => exact WriteCall.Ok.of_sameDir (c := ch.sendWrite claim chunk) hs h
  | eos pc => exact trivial

theorem RecvOp.Ok.of_sameDir {op : RecvOp} {sl sl' : Slot Cell} (h : op.Ok ch claim sl)
    (hs : SameDir .w2c sl sl') : op.Ok ch claim sl' := by
  cases op with
  | read n pc => exact ReadCall.Ok.of_sameDir (c := ch.recvRead n) hs h
  | stubRead n pc => exact ReadCall.Ok.of_sameDir (c := ch.recvRead n) hs h
  | query pc => exact trivial

theorem WorkOp.Ok.of_sameDir {op : WorkOp} {sl sl' : Slot Cell} (h : op.Ok ch claim sl)
    (hs : ∀ d, SameDir d sl sl') : op.Ok ch claim sl' := by
  cases op with
  | read n pc => exact ReadCall.Ok.of_sameDir (c := ch.workRead claim n) (hs _) h
  | write chunk pc => exact WriteCall.Ok.of_sameDir (c := ch.workWrite claim chunk) (hs _) h
  | close pc => exact trivial
  | error code detail pc => exact trivial

/-- Outside its critical part a worker's call knows nothing about the slot. -/
theorem WorkOp.Ok.of_idle {op : WorkOp} {sl sl' : Slot Cell} (hcrit : op.critical = false)
    (hop : op.LeavesOk) (h : op.Ok ch claim sl) : op.Ok ch claim sl' := by
  cases op with
  | read n pc => exact ReadCall.Ok.of_idle (c := ch.workRead claim n) hcrit hop h
  | write chunk pc => exact WriteCall.Ok.of_idle (c := ch.workWrite claim chunk) hcrit hop h
  | close pc => exact trivial
  | error code detail pc => exact trivial

theorem SendCall.start_ok (call : SendCall) (sl : Slot Cell) :
    (call.start ch claim).Ok ch claim sl := by
  cases call with
  | write chunk => exact WriteCall.loop_ok (ch.sendWrite claim chunk) sl 0
  | eos => exact trivial

theorem RecvCall.start_ok (call : RecvCall) (sl : Slot Cell) :
    (call.start ch).Ok ch claim sl ∧ (call.start ch).consumed = [] := by
  cases call with
  | read n => exact ⟨ReadCall.loop_ok (ch.recvRead n) (fun _ => Authored .w2c claim) sl,
      ReadCall.loop_consumed _⟩
  | stubRead n => exact ⟨trivial, rfl⟩
  | query => exact ⟨trivial, rfl⟩

theorem WorkCall.start_ok (call : WorkCall) (sl : Slot Cell) :
    (call.start ch claim).Ok ch claim sl ∧ (call.start ch claim).consumed = [] := by
  cases call with
  | read n => exact ⟨ReadCall.loop_ok (ch.workRead claim n) (fun _ => Authored .c2w claim) sl,
      ReadCall.loop_consumed _⟩
  | write chunk => exact ⟨WriteCall.loop_ok (ch.workWrite claim chunk) sl 0, rfl⟩
  | close => exact ⟨trivial, rfl⟩
  | error code detail => exact ⟨trivial, rfl⟩

/-! ## One side's move -/

/-- A side puts bytes of its claim into the direction it writes to, or takes some
out of the one it reads from. -/
structure SideMove (ch : Channel) (side : Side) (claim : Int32) (sl sl' : Slot Cell) : Prop where
  writes : ∃ new, WriterMove ch.ringCap side.out new sl sl' ∧ ∀ b ∈ new, Authored side.out claim b
  reads : ∃ got, ReaderMove side.inn (fun _ => Authored side.inn claim) got sl sl'

theorem SideMove.of_sameDir {side : Side} {sl sl' : Slot Cell} (h : ∀ d, SameDir d sl sl') :
    SideMove ch side claim sl sl' :=
  ⟨⟨[], .quiet rfl (h _), nofun⟩, ⟨[], .quiet rfl (h _)⟩⟩

/-- Both rings stay in order, and with bytes of the claim only. -/
theorem RingsOk.of_sideMove {side : Side} {sl sl' : Slot Cell} (h : RingsOk ch claim sl)
    (hm : SideMove ch side claim sl sl') : RingsOk ch claim sl' := by
  obtain ⟨⟨new, hw, hnew⟩, got, hr⟩ := hm
  have hout : RingOk ch.ringCap side.out (fun _ => Authored side.out claim) sl' := by
    refine (h side.out).of_writerMove hw (fun _ _ hb => hb) fun k b hk => ?_
    exact hnew b (List.mem_of_getElem? hk)
  have hinn : RingOk ch.ringCap side.inn (fun _ => Authored side.inn claim) sl' :=
    (h side.inn).of_readerMove hr
  intro d
  cases side with
  | client => cases d with
    | c2w => exact hout
    | w2c => exact hinn
  | worker => cases d with
    | c2w => exact hinn
    | w2c => exact hout

/-- A worker's outline survives the client's moves. -/
theorem WorkOp.Ok.of_sideMove {op : WorkOp} {sl sl' : Slot Cell} (h : op.Ok ch claim sl)
    (hR : RingsOk ch claim sl) (hm : SideMove ch .client claim sl sl') : op.Ok ch claim sl' := by
  obtain ⟨⟨new, hw, -⟩, got, hr⟩ := hm
  cases op with
  | read n pc =>
    have h0 := Int.le_trans (hR .c2w).read_nonneg (hR .c2w).read_le
    exact ReadCall.Ok.of_writerMove (c := ch.workRead claim n) h0 hw h
  | write chunk pc =>
    exact WriteCall.Ok.of_readerMove (c := ch.workWrite claim chunk) (hR .w2c) hr h
  | close pc => exact trivial
  | error code detail pc => exact trivial

/-- The client's outlines survive the worker's moves. -/
theorem SendOp.Ok.of_sideMove {op : SendOp} {sl sl' : Slot Cell} (h : op.Ok ch claim sl)
    (hR : RingsOk ch claim sl) (hm : SideMove ch .worker claim sl sl') : op.Ok ch claim sl' := by
  obtain ⟨-, got, hr⟩ := hm
  cases op with
  | write chunk pc =>
    exact WriteCall.Ok.of_readerMove (c := ch.sendWrite claim chunk) (hR .c2w) hr h
  | eos pc => exact trivial

theorem RecvOp.Ok.of_sideMove {op : RecvOp} {sl sl' : Slot Cell} (h : op.Ok ch claim sl)
    (hR : RingsOk ch claim sl) (hm : SideMove ch .worker claim sl sl') : op.Ok ch claim sl' := by
  obtain ⟨⟨new, hw, -⟩, -⟩ := hm
  have h0 := Int.le_trans (hR .w2c).read_nonneg (hR .w2c).read_le
  cases op with
  | read n pc => exact ReadCall.Ok.of_writerMove (c := ch.recvRead n) h0 hw h
  | stubRead n pc => exact ReadCall.Ok.of_writerMove (c := ch.recvRead n) h0 hw h
  | query pc => exact trivial

/-! ## The steps of the calls -/

/-- What a step consumes is what the ring held. -/
theorem ReaderMove.authored {d : Dir} {got : List Cell} {sl sl' : Slot Cell}
    (hm : ReaderMove d (fun _ => Authored d claim) got sl sl') : ∀ b ∈ got, Authored d claim b := by
  intro b hb
  cases hm with
  | quiet hgot hs =>
    rw [hgot] at hb
    cases hb
  | consume hk hP hs =>
    obtain ⟨k, hk⟩ := List.getElem?_of_mem hb
    exact hP k b hk

theorem cells_authored (side : Side) {chunk : List UInt8} {pc : WritePC} {call : WriteCall Cell}
    (hdir : call.dir = side.out) (hsrc : call.src = cells side claim chunk) :
    ∀ b ∈ call.published pc, Authored call.dir claim b := by
  intro b hb
  rw [hdir]
  cases pc with
  | publish off w k =>
    obtain ⟨m, -, rfl⟩ := List.mem_map.mp hb
    rw [hsrc]
    cases side with
    | client => exact ⟨rfl, rfl⟩
    | worker => exact ⟨rfl, rfl⟩
  | _ => cases hb

/-- The position a step of the sending side publishes, if any. -/
def SendOp.target : SendOp → Int
  | .write _ pc => pc.target
  | .eos _ => 0

def WorkOp.target : WorkOp → Int
  | .write _ pc => pc.target
  | _ => 0

/-- A step of the sending side is a move of the client, and leaves the receiving
direction alone. -/
theorem SendOp.step_move {op : SendOp} {ins : Instr Cell SendOp} {sl : Slot Cell}
    (hR : RingsOk ch claim sl) (h : op.Ok ch claim sl) (hins : op.next ch claim = some ins)
    (hfit : op.target < 2 ^ 31) :
    SideMove ch .client claim sl (ins.exec sl).1 ∧ SameDir .w2c sl (ins.exec sl).1 ∧
      (ins.exec sl).2.Ok ch claim (ins.exec sl).1 := by
  cases op with
  | write chunk pc =>
    obtain ⟨ins', hins', rfl⟩ := Option.map_eq_some_iff.mp hins
    rw [Instr.exec_map]
    have hother : SameDir .w2c sl (ins'.exec sl).1 :=
      WriteCall.step_otherDir (d := .w2c) (c := ch.sendWrite claim chunk) hins' nofun sl
    obtain ⟨hw, hok⟩ :=
      WriteCall.step_cases (c := ch.sendWrite claim chunk) (hR .c2w) h hins' hfit
    refine ⟨⟨⟨_, hw, cells_authored .client rfl rfl⟩, [], .quiet rfl hother⟩, hother, hok⟩
  | eos pc =>
    obtain ⟨ins', hins', rfl⟩ := Option.map_eq_some_iff.mp hins
    rw [Instr.exec_map]
    have hs := fun d => Closer.step_sameDir hins' d sl
    exact ⟨.of_sameDir hs, hs _, trivial⟩

/-- A step of the receiving side is a move of the client, and leaves the sending
direction alone. -/
theorem RecvOp.step_move {op : RecvOp} {ins : Instr Cell RecvOp} {sl : Slot Cell}
    (hR : RingsOk ch claim sl) (h : op.Ok ch claim sl) (hins : op.next ch = some ins)
    (hcons : ∀ b ∈ op.consumed, Authored .w2c claim b) :
    SideMove ch .client claim sl (ins.exec sl).1 ∧ SameDir .c2w sl (ins.exec sl).1 ∧
      (ins.exec sl).2.Ok ch claim (ins.exec sl).1 ∧
      ∀ b ∈ (ins.exec sl).2.consumed, Authored .w2c claim b := by
  have hmove : ∀ {pc : ReadPC Cell} {sl' : Slot Cell}, SameDir .c2w sl sl' →
      ReaderMove .w2c (fun _ => Authored .w2c claim) pc.fetched sl sl' →
      SideMove ch .client claim sl sl' :=
    fun hother hr => ⟨⟨[], .quiet rfl hother, nofun⟩, _, hr⟩
  cases op with
  | read n pc =>
    obtain ⟨ins', hins', rfl⟩ := Option.map_eq_some_iff.mp hins
    rw [Instr.exec_map]
    have hother : SameDir .c2w sl (ins'.exec sl).1 :=
      ReadCall.step_otherDir (d := .c2w) (c := ch.recvRead n) hins' nofun sl
    obtain ⟨hr, hok⟩ := ReadCall.step_cases (c := ch.recvRead n) (hR .w2c) h hins'
    refine ⟨hmove hother hr, hother, hok, ?_⟩
    show ∀ b ∈ (ins'.exec sl).2.consumed, _
    rw [ReadCall.step_consumed hins' sl]
    exact List.forall_mem_append.mpr ⟨hcons, ReaderMove.authored hr⟩
  | stubRead n pc =>
    obtain ⟨ins', hins', rfl⟩ := Option.map_eq_some_iff.mp hins
    rw [Instr.exec_map]
    have hother : SameDir .c2w sl (ins'.exec sl).1 :=
      ReadCall.stub_step_otherDir (d := .c2w) (c := ch.recvRead n) hins' nofun sl
    obtain ⟨hr, hok⟩ := ReadCall.stub_step_cases (c := ch.recvRead n) (hR .w2c) h hins'
    refine ⟨hmove hother hr, hother, hok, ?_⟩
    show ∀ b ∈ (ins'.exec sl).2.consumed, _
    rw [ReadCall.stub_step_consumed hins' sl]
    exact List.forall_mem_append.mpr ⟨hcons, ReaderMove.authored hr⟩
  | query pc =>
    obtain ⟨ins', hins', rfl⟩ := Option.map_eq_some_iff.mp hins
    rw [Instr.exec_map, QueryPC.step_slot hins']
    exact ⟨.of_sameDir fun d => .refl d sl, .refl .c2w sl, trivial, nofun⟩

/-- A step of a worker's call outside its critical part leaves both directions
alone, whatever the slot holds. -/
theorem WorkOp.step_idle {op : WorkOp} {ins : Instr Cell WorkOp} {sl : Slot Cell}
    (hcrit : op.critical = false) (herr : op.isError = false) (hop : op.LeavesOk)
    (h : op.Ok ch claim sl) (hins : op.next ch claim = some ins)
    (hcons : ∀ b ∈ op.consumed, Authored .c2w claim b) :
    (∀ d, SameDir d sl (ins.exec sl).1) ∧ (ins.exec sl).2.Ok ch claim (ins.exec sl).1 ∧
      ∀ b ∈ (ins.exec sl).2.consumed, Authored .c2w claim b := by
  obtain ⟨hlane, hring⟩ := WorkOp.step_same hcrit herr hins sl
  refine ⟨fun d => ⟨hlane _ (by simp), hlane _ (by simp), hring d⟩, ?_⟩
  cases op with
  | read n pc =>
    obtain ⟨ins', hins', rfl⟩ := Option.map_eq_some_iff.mp hins
    rw [Instr.exec_map]
    refine ⟨ReadCall.step_idle (c := ch.workRead claim n) hcrit hop h hins', ?_⟩
    have hnone : pc.fetched = [] := by
      cases pc with
      | consume r k dst => cases hcrit
      | _ => rfl
    show ∀ b ∈ (ins'.exec sl).2.consumed, _
    rw [ReadCall.step_consumed hins' sl, hnone, List.append_nil]
    exact hcons
  | write chunk pc =>
    obtain ⟨ins', hins', rfl⟩ := Option.map_eq_some_iff.mp hins
    rw [Instr.exec_map]
    exact ⟨WriteCall.step_idle (c := ch.workWrite claim chunk) hcrit hop h hins', nofun⟩
  | close pc =>
    obtain ⟨ins', hins', rfl⟩ := Option.map_eq_some_iff.mp hins
    rw [Instr.exec_map]
    exact ⟨trivial, nofun⟩
  | error code detail pc => cases herr

/-- A step of a worker's call in its critical part is a move of the worker. -/
theorem WorkOp.step_move {op : WorkOp} {ins : Instr Cell WorkOp} {sl : Slot Cell}
    (herr : op.isError = false) (hR : RingsOk ch claim sl) (h : op.Ok ch claim sl)
    (hins : op.next ch claim = some ins) (hfit : op.target < 2 ^ 31)
    (hcons : ∀ b ∈ op.consumed, Authored .c2w claim b) :
    SideMove ch .worker claim sl (ins.exec sl).1 ∧ (ins.exec sl).2.Ok ch claim (ins.exec sl).1 ∧
      ∀ b ∈ (ins.exec sl).2.consumed, Authored .c2w claim b := by
  cases op with
  | read n pc =>
    obtain ⟨ins', hins', rfl⟩ := Option.map_eq_some_iff.mp hins
    rw [Instr.exec_map]
    have hother : SameDir .w2c sl (ins'.exec sl).1 :=
      ReadCall.step_otherDir (d := .w2c) (c := ch.workRead claim n) hins' nofun sl
    obtain ⟨hr, hok⟩ := ReadCall.step_cases (c := ch.workRead claim n) (hR .c2w) h hins'
    refine ⟨⟨⟨[], .quiet rfl hother, nofun⟩, _, hr⟩, hok, ?_⟩
    show ∀ b ∈ (ins'.exec sl).2.consumed, _
    rw [ReadCall.step_consumed hins' sl]
    exact List.forall_mem_append.mpr ⟨hcons, ReaderMove.authored hr⟩
  | write chunk pc =>
    obtain ⟨ins', hins', rfl⟩ := Option.map_eq_some_iff.mp hins
    rw [Instr.exec_map]
    have hother : SameDir .c2w sl (ins'.exec sl).1 :=
      WriteCall.step_otherDir (d := .c2w) (c := ch.workWrite claim chunk) hins' nofun sl
    obtain ⟨hw, hok⟩ :=
      WriteCall.step_cases (c := ch.workWrite claim chunk) (hR .w2c) h hins' hfit
    exact ⟨⟨⟨_, hw, cells_authored .worker rfl rfl⟩, [], .quiet rfl hother⟩, hok, nofun⟩
  | close pc =>
    obtain ⟨ins', hins', rfl⟩ := Option.map_eq_some_iff.mp hins
    rw [Instr.exec_map]
    exact ⟨.of_sameDir fun d => Closer.step_sameDir hins' d sl, trivial, nofun⟩
  | error code detail pc => cases herr

/-! ## The invariant -/

/-- Both rings of a slot that serves a claim are in order and hold its bytes, every
call knows its outline, and what the reads have consumed is of their claim. -/
structure IsoInv (ch : Channel) (st : State) : Prop where
  clean : CleanInv st
  rings : ∀ s c, st.Serves s c → RingsOk ch c (st.slots s)
  send : ∀ i claim s op recv, st.clients i = .holding claim s (some op) recv →
    op.Ok ch claim (st.slots s)
  recv : ∀ i claim s send op, st.clients i = .holding claim s send (some op) →
    op.Ok ch claim (st.slots s) ∧ ∀ b ∈ op.consumed, Authored .w2c claim b
  work : ∀ j t, st.workers j = some t →
    t.op.Ok ch t.claim (st.slots t.slot) ∧ ∀ b ∈ t.op.consumed, Authored .c2w t.claim b

theorem isoInv_init (h : Init st) : IsoInv ch st := by
  refine ⟨cleanInv_init h, ?_, ?_, ?_, ?_⟩
  · rintro s c (⟨hst, hne⟩ | ⟨j, t, hj, -⟩)
    · exact absurd (hst.symm.trans (h.free s)) hne
    · rw [h.workers] at hj
      cases hj
  · intro i claim s op recv hc
    rw [h.clients] at hc
    cases hc
  · intro i claim s send op hc
    rw [h.clients] at hc
    cases hc
  · intro j t hj
    rw [h.workers] at hj
    cases hj

theorem RingsOk.of_sameDir {sl sl' : Slot Cell} (h : RingsOk ch c sl)
    (hs : ∀ d, SameDir d sl sl') : RingsOk ch c sl' := fun d => (h d).of_sameDir (hs d)

/-- A slot that has just been reset holds no bytes. -/
theorem RingsOk.of_reset {sl : Slot Cell} (h : ∀ l ∈ resetLanes, sl.lane l = 0) :
    RingsOk ch c sl := by
  intro d
  have hw : sl.writePos d = 0 := by
    unfold Slot.writePos
    rw [h d.writeLane (by cases d <;> decide)]
    rfl
  have hr : sl.readPos d = 0 := by
    unfold Slot.readPos
    rw [h d.readLane (by cases d <;> decide)]
    rfl
  refine ⟨?_, ?_, ?_, ?_⟩
  · exact Int.le_of_eq hr.symm
  · exact Int.le_of_eq (hr.trans hw.symm)
  · rw [hr, hw]; omega
  · rw [hr, hw]; exact .empty (Nat.le_refl _)

namespace IsoInv

/-! ## The moves of a client -/

section Client

variable {sl : Slot Cell} {c' : Client}

theorem serves_setClient_ne {s' : Nat} (hs : s' ≠ s)
    (h : ((st.setSlot s sl).setClient i c').Serves s' c) : st.Serves s' c := by
  rcases h with ⟨hst, hne⟩ | hw
  · rw [lanes_setSlot_ne hs] at hst
    exact .inl ⟨hst, hne⟩
  · exact .inr hw

theorem serves_setClient_self (hst : sl.lane .state = (st.slots s).lane .state ∨ sl.lane .state = 0)
    (h : ((st.setSlot s sl).setClient i c').Serves s c) : st.Serves s c := by
  rcases h with ⟨hc, hne⟩ | hw
  · rw [lanes_setSlot_self] at hc
    rcases hst with hst | hst
    · exact .inl ⟨hst.symm.trans hc, hne⟩
    · exact absurd (hc.symm.trans hst) hne
  · exact .inr hw

/-- A client moves, changing one slot. -/
theorem of_client (h : IsoInv ch st) (hclean : CleanInv ((st.setSlot s sl).setClient i c'))
    (hrings : ∀ claim, ((st.setSlot s sl).setClient i c').Serves s claim → RingsOk ch claim sl)
    (hsend : ∀ claim s' op recv, c' = .holding claim s' (some op) recv →
      s' = s ∧ op.Ok ch claim sl)
    (hrecv : ∀ claim s' send op, c' = .holding claim s' send (some op) →
      s' = s ∧ op.Ok ch claim sl ∧ ∀ b ∈ op.consumed, Authored .w2c claim b)
    (hother : ∀ k claim send recv, k ≠ i → st.clients k = .holding claim s send recv →
      ∀ d, SameDir d (st.slots s) sl)
    (hwork : ∀ j t, st.workers j = some t → t.slot = s → t.op.Ok ch t.claim sl) :
    IsoInv ch ((st.setSlot s sl).setClient i c') := by
  have hslot : ∀ s', s' ≠ s → ((st.setSlot s sl).setClient i c').slots s' = st.slots s' :=
    fun s' hs => State.setSlot_slots_ne _ _ hs
  have hself : ((st.setSlot s sl).setClient i c').slots s = sl := State.setSlot_slots_self ..
  refine ⟨hclean, ?_, ?_, ?_, ?_⟩
  · intro s' c hserve
    by_cases hs : s' = s
    · subst hs
      rw [hself]
      exact hrings c hserve
    · rw [hslot s' hs]
      exact h.rings s' c (serves_setClient_ne hs hserve)
  · intro k claim s' op recv hk
    by_cases hki : k = i
    · subst hki
      rw [State.setClient_clients_self] at hk
      obtain ⟨rfl, hok⟩ := hsend claim s' op recv hk
      rw [hself]
      exact hok
    · rw [State.setClient_clients_ne _ _ hki] at hk
      have hok := h.send k claim s' op recv hk
      by_cases hs : s' = s
      · subst hs
        rw [hself]
        exact hok.of_sameDir (hother k claim _ _ hki hk .c2w)
      · rw [hslot s' hs]
        exact hok
  · intro k claim s' send op hk
    by_cases hki : k = i
    · subst hki
      rw [State.setClient_clients_self] at hk
      obtain ⟨rfl, hok⟩ := hrecv claim s' send op hk
      rw [hself]
      exact hok
    · rw [State.setClient_clients_ne _ _ hki] at hk
      obtain ⟨hok, hcons⟩ := h.recv k claim s' send op hk
      refine ⟨?_, hcons⟩
      by_cases hs : s' = s
      · subst hs
        rw [hself]
        exact hok.of_sameDir (hother k claim _ _ hki hk .w2c)
      · rw [hslot s' hs]
        exact hok
  · intro j t hj
    obtain ⟨hok, hcons⟩ := h.work j t hj
    refine ⟨?_, hcons⟩
    by_cases hs : t.slot = s
    · rw [hs, hself]
      exact hwork j t hj hs
    · rw [hslot _ hs]
      exact hok

/-- A client's step that leaves both directions alone. -/
theorem of_quiet (h : IsoInv ch st) (hclean : CleanInv ((st.setSlot s sl).setClient i c'))
    (hs : ∀ d, SameDir d (st.slots s) sl)
    (hst : sl.lane .state = (st.slots s).lane .state ∨ sl.lane .state = 0)
    (hsend : ∀ claim s' op recv, c' = .holding claim s' (some op) recv →
      s' = s ∧ op.Ok ch claim sl)
    (hrecv : ∀ claim s' send op, c' = .holding claim s' send (some op) →
      s' = s ∧ op.Ok ch claim sl ∧ ∀ b ∈ op.consumed, Authored .w2c claim b) :
    IsoInv ch ((st.setSlot s sl).setClient i c') := by
  refine h.of_client hclean ?_ hsend hrecv (fun _ _ _ _ _ _ => hs) ?_
  · intro claim hserve
    exact (h.rings s claim (serves_setClient_self hst hserve)).of_sameDir hs
  · rintro j t hj rfl
    exact (h.work j t hj).1.of_sameDir hs

/-- A client's step that changes no slot and leaves it in no call. -/
theorem of_idle_client (h : IsoInv ch st) (hclean : CleanInv (st.setClient i c'))
    (hsend : ∀ claim s op recv, c' ≠ .holding claim s (some op) recv)
    (hrecv : ∀ claim s send op, c' ≠ .holding claim s send (some op)) :
    IsoInv ch (st.setClient i c') := by
  rw [← st.setSlot_self 0] at hclean ⊢
  refine h.of_quiet hclean (fun d => .refl ..) (.inl rfl) ?_ ?_
  · intro claim s' op recv heq
    exact absurd heq (hsend claim s' op recv)
  · intro claim s' send op heq
    exact absurd heq (hrecv claim s' send op)

/-- The client that holds the slot makes a move. -/
theorem of_sideMove {send send' : Option SendOp} {recv recv' : Option RecvOp} (h : IsoInv ch st)
    (hc : st.clients i = .holding claim s send recv)
    (hclean : CleanInv ((st.setSlot s sl).setClient i (.holding claim s send' recv')))
    (hm : SideMove ch .client claim (st.slots s) sl)
    (hst : sl.lane .state = (st.slots s).lane .state)
    (hsend : ∀ op, send' = some op → op.Ok ch claim sl)
    (hrecv : ∀ op, recv' = some op →
      op.Ok ch claim sl ∧ ∀ b ∈ op.consumed, Authored .w2c claim b) :
    IsoInv ch ((st.setSlot s sl).setClient i (.holding claim s send' recv')) := by
  have hlock := h.clean.lock
  have hown : st.Owns i s claim := by
    unfold State.Owns
    rw [hc]
    rfl
  have hserves : st.Serves s claim := .inl ⟨hlock.own.tag hown, hlock.own.live hown⟩
  have hR := h.rings s claim hserves
  refine h.of_client hclean ?_ ?_ ?_ ?_ ?_
  · intro c hserve
    obtain rfl := Serves.unique hlock hserves (serves_setClient_self (.inl hst) hserve)
    exact hR.of_sideMove hm
  · intro c s' op recv heq
    obtain ⟨rfl, rfl, hop, -⟩ := Client.holding.inj heq
    exact ⟨rfl, hsend op hop⟩
  · intro c s' send op heq
    obtain ⟨rfl, rfl, -, hop⟩ := Client.holding.inj heq
    exact ⟨rfl, hrecv op hop⟩
  · intro k c send recv hki hk
    have hown' : st.Owns k s c := by
      unfold State.Owns
      rw [hk]
      rfl
    exact absurd (hlock.owner_unique hown' hown).1 hki
  · intro j t hj hs
    obtain ⟨hok, -⟩ := h.work j t hj
    rw [hs] at hok
    by_cases hcrit : t.op.critical = true
    · obtain rfl := hlock.critical_claim hown hj hs hcrit
      exact hok.of_sideMove hR hm
    · exact hok.of_idle (Bool.not_eq_true _ ▸ hcrit) (hlock.task j t hj).2

/-- A store to the reservation or to `STATE` leaves both directions alone. -/
theorem sameDir_setLane {sl : Slot Cell} {l : Lane} {v : Int32}
    (hl : l = .reservation ∨ l = .state) (d : Dir) : SameDir d sl (sl.setLane l v) := by
  rcases hl with rfl | rfl
  · exact ⟨Slot.setLane_lane_ne _ _ (by simp), Slot.setLane_lane_ne _ _ (by simp), rfl⟩
  · exact ⟨Slot.setLane_lane_ne _ _ (by simp), Slot.setLane_lane_ne _ _ (by simp), rfl⟩

/-- An opener's step on a slot that serves nobody. -/
theorem of_clearing {pc pc' : OpenPC} {sl : Slot Cell} {id : Int32} (h : IsoInv ch st)
    (hc : st.clients i = .opening pc) (hcl : pc.clearing? = some s)
    (hr : pc.reserved? = some (s, id))
    (hclean : CleanInv ((st.setSlot s sl).setClient i (.opening pc')))
    (hrings : ∀ claim, sl.lane .state = claim → claim ≠ 0 → RingsOk ch claim sl) :
    IsoInv ch ((st.setSlot s sl).setClient i (.opening pc')) := by
  have hlock := h.clean.lock
  refine h.of_client hclean ?_ (by simp) (by simp) ?_ ?_
  · rintro claim (⟨hst, hne⟩ | hw)
    · rw [lanes_setSlot_self] at hst
      exact hrings claim hst hne
    · exact absurd (.inr hw) (not_serves_clearing (c := claim) hlock hc hcl hr)
  · intro k claim send recv hki hk
    have hown : st.Owns k s claim := by
      unfold State.Owns
      rw [hk]
      rfl
    exact absurd hown (hlock.own.not_holds (hlock.clearing i pc s hc hcl))
  · intro j t hj hs
    have hcrit : t.op.critical = false := by
      by_contra hne
      have hres := WorkOp.reserving_of_critical (Bool.not_eq_false _ ▸ hne)
      exact absurd ((hlock.no_worker hc hr hj hs).symm.trans hres) (by simp)
    exact (h.work j t hj).1.of_idle hcrit (hlock.task j t hj).2

/-- A step of `slotOpen` on the slot it works on. -/
theorem of_openStep {pc : OpenPC} {ins : Instr Cell OpenPC} (h : IsoInv ch st)
    (hc : st.clients i = .opening pc) (hs : pc.slot? = some s)
    (hins : pc.next ch.nSlots = some ins)
    (hclean : CleanInv ((st.setSlot s (ins.exec (st.slots s)).1).setClient i
      (.opening (ins.exec (st.slots s)).2))) :
    IsoInv ch ((st.setSlot s (ins.exec (st.slots s)).1).setClient i
      (.opening (ins.exec (st.slots s)).2)) := by
  cases pc with
  | addSeq => cases hs
  | reserve id s' =>
    obtain rfl := Option.some.inj hs
    obtain rfl := Option.some.inj hins
    refine h.of_quiet hclean ?_ (.inl ?_) (by simp) (by simp)
    · intro d
      show SameDir d (st.slots s') (if (st.slots s').lane .reservation = 0 then _ else _)
      split
      · exact sameDir_setLane (.inl rfl) d
      · exact .refl ..
    · show (if (st.slots s').lane .reservation = 0 then _ else st.slots s').lane .state = _
      split
      · exact Slot.setLane_lane_ne _ _ (by simp)
      · rfl
  | checkState id s' =>
    obtain rfl := Option.some.inj hs
    obtain rfl := Option.some.inj hins
    exact h.of_quiet hclean (fun d => .refl ..) (.inl rfl) (by simp) (by simp)
  | unreserve id s' =>
    obtain rfl := Option.some.inj hs
    obtain rfl := Option.some.inj hins
    exact h.of_quiet hclean (sameDir_setLane (.inl rfl))
      (.inl (Slot.setLane_lane_ne _ _ (by simp))) (by simp) (by simp)
  | reset id s' l rest =>
    obtain rfl := Option.some.inj hs
    obtain rfl := Option.some.inj hins
    refine h.of_clearing hc rfl rfl hclean ?_
    intro claim hst hne
    have hl := ((h.clean.lock.resetting i id s' l rest hc).subset (List.mem_cons_self ..))
    have hzero : ((st.slots s').setLane l 0).lane .state = 0 := by
      rw [Slot.setLane_lane_ne _ _ (LockInv.ne_of_mem_resetLanes hl).1.symm]
      exact h.clean.lock.clearing i _ s' hc rfl
    exact absurd (hst.symm.trans hzero) hne
  | publish id s' =>
    obtain rfl := Option.some.inj hs
    obtain rfl := Option.some.inj hins
    refine h.of_clearing hc rfl rfl hclean ?_
    intro claim _ _
    refine .of_reset fun l hl => ?_
    have hne := (LockInv.ne_of_mem_resetLanes hl).1
    exact (Slot.setLane_lane_ne _ _ hne).trans
      (h.clean.clean i _ s' [] hc rfl l hl List.not_mem_nil)
  | unlock id s' =>
    obtain rfl := Option.some.inj hs
    obtain rfl := Option.some.inj hins
    exact h.of_quiet hclean (sameDir_setLane (.inl rfl))
      (.inl (Slot.setLane_lane_ne _ _ (by simp))) (by simp) (by simp)
  | opened id s' => cases hs
  | failed => cases hs

end Client

/-! ## The moves of a worker -/

section Worker

variable {sl : Slot Cell} {t : Task} {t' : Option Task}

/-- A worker moves, changing nothing but the slot it works on. -/
theorem of_worker (h : IsoInv ch st) (hclean : CleanInv ((st.setSlot s sl).setWorker j t'))
    (hst : sl.lane .state = (st.slots s).lane .state)
    (hrings : ∀ claim, st.Serves s claim → RingsOk ch claim sl)
    (hclient : ∀ i claim send recv, st.clients i = .holding claim s send recv →
      (∀ op, send = some op → op.Ok ch claim sl) ∧ ∀ op, recv = some op → op.Ok ch claim sl)
    (hcrit : ∀ t, t' = some t → t.op.critical = true → st.Serves t.slot t.claim)
    (hself : ∀ t, t' = some t → t.slot = s ∧ t.op.Ok ch t.claim sl ∧
      ∀ b ∈ t.op.consumed, Authored .c2w t.claim b)
    (hother : ∀ k t, k ≠ j → st.workers k = some t → t.slot = s → t.op.Ok ch t.claim sl) :
    IsoInv ch ((st.setSlot s sl).setWorker j t') := by
  have hslot : ∀ s', s' ≠ s → ((st.setSlot s sl).setWorker j t').slots s' = st.slots s' :=
    fun s' hs => State.setSlot_slots_ne _ _ hs
  have hhere : ((st.setSlot s sl).setWorker j t').slots s = sl := State.setSlot_slots_self ..
  -- what is served after the step was served before
  have hserves : ∀ s' c, ((st.setSlot s sl).setWorker j t').Serves s' c → st.Serves s' c := by
    rintro s' c (⟨hc, hne⟩ | ⟨k, u, hk, rfl, rfl, hu⟩)
    · refine .inl ⟨?_, hne⟩
      rw [← hc]
      unfold State.lanes
      by_cases hs : s' = s
      · subst hs
        rw [hhere, hst]
      · rw [hslot s' hs]
    · by_cases hkj : k = j
      · subst hkj
        rw [State.setWorker_workers_self] at hk
        exact hcrit u hk hu
      · rw [State.setWorker_workers_ne _ _ hkj] at hk
        exact .inr ⟨k, u, hk, rfl, rfl, hu⟩
  refine ⟨hclean, ?_, ?_, ?_, ?_⟩
  · intro s' c hserve
    by_cases hs : s' = s
    · subst hs
      rw [hhere]
      exact hrings c (hserves s' c hserve)
    · rw [hslot s' hs]
      exact h.rings s' c (hserves s' c hserve)
  · intro i claim s' op recv hi
    by_cases hs : s' = s
    · subst hs
      rw [hhere]
      exact (hclient i claim _ _ hi).1 op rfl
    · rw [hslot s' hs]
      exact h.send i claim s' op recv hi
  · intro i claim s' send op hi
    obtain ⟨hok, hcons⟩ := h.recv i claim s' send op hi
    refine ⟨?_, hcons⟩
    by_cases hs : s' = s
    · subst hs
      rw [hhere]
      exact (hclient i claim _ _ hi).2 op rfl
    · rw [hslot s' hs]
      exact hok
  · intro k u hk
    by_cases hkj : k = j
    · subst hkj
      rw [State.setWorker_workers_self] at hk
      obtain ⟨hs, hok, hcons⟩ := hself u hk
      rw [hs, hhere]
      exact ⟨hok, hcons⟩
    · rw [State.setWorker_workers_ne _ _ hkj] at hk
      obtain ⟨hok, hcons⟩ := h.work k u hk
      refine ⟨?_, hcons⟩
      by_cases hs : u.slot = s
      · rw [hs, hhere]
        exact hother k u hkj hk hs
      · rw [hslot _ hs]
        exact hok

/-- A worker's step that leaves both directions alone. -/
theorem of_quiet_worker (h : IsoInv ch st)
    (hclean : CleanInv ((st.setSlot s sl).setWorker j t'))
    (hs : ∀ d, SameDir d (st.slots s) sl) (hst : sl.lane .state = (st.slots s).lane .state)
    (hcrit : ∀ t, t' = some t → t.op.critical = true → st.Serves t.slot t.claim)
    (hself : ∀ t, t' = some t → t.slot = s ∧ t.op.Ok ch t.claim sl ∧
      ∀ b ∈ t.op.consumed, Authored .c2w t.claim b) :
    IsoInv ch ((st.setSlot s sl).setWorker j t') := by
  refine h.of_worker hclean hst ?_ ?_ hcrit hself ?_
  · intro claim hserve
    exact (h.rings s claim hserve).of_sameDir hs
  · intro i claim send recv hi
    refine ⟨?_, ?_⟩
    · rintro op rfl
      exact (h.send i claim s op recv hi).of_sameDir (hs _)
    · rintro op rfl
      exact (h.recv i claim s send op hi).1.of_sameDir (hs _)
  · rintro k u - hk rfl
    exact (h.work k u hk).1.of_sameDir hs

/-- A step of a worker's call. -/
theorem of_workStep {ins : Instr Cell WorkOp} (h : IsoInv ch st) (hj : st.workers j = some t)
    (hins : t.op.next ch t.claim = some ins) (hfit : t.op.target < 2 ^ 31)
    (hclean : CleanInv ((st.setSlot t.slot (ins.exec (st.slots t.slot)).1).setWorker j
      (some { t with op := (ins.exec (st.slots t.slot)).2 }))) :
    IsoInv ch ((st.setSlot t.slot (ins.exec (st.slots t.slot)).1).setWorker j
      (some { t with op := (ins.exec (st.slots t.slot)).2 })) := by
  have hlock := h.clean.lock
  obtain ⟨hne, hleaves⟩ := hlock.task j t hj
  obtain ⟨hok, hcons⟩ := h.work j t hj
  have herr := h.clean.noError j t hj
  have hst := WorkOp.step_state hins (st.slots t.slot)
  have hserves : t.op.critical = true → st.Serves t.slot t.claim :=
    fun hcrit => .inr ⟨j, t, hj, rfl, rfl, hcrit⟩
  -- a call enters its critical part with its claim in STATE
  have hcrit' : ∀ u, some { t with op := (ins.exec (st.slots t.slot)).2 } = some u →
      u.op.critical = true → st.Serves u.slot u.claim := by
    intro u hu hcrit
    obtain rfl := Option.some.inj hu
    rcases (WorkOp.step_lock hleaves hins (st.slots t.slot)).2.1 hcrit with hold | hnew
    · exact hserves hold
    · exact .inl ⟨hnew, hne⟩
  by_cases hcrit : t.op.critical = true
  · have hR := h.rings t.slot t.claim (hserves hcrit)
    obtain ⟨hm, hok', hcons'⟩ := WorkOp.step_move herr hR hok hins hfit hcons
    refine h.of_worker hclean hst ?_ ?_ hcrit' ?_ ?_
    · intro claim hserve
      obtain rfl := Serves.unique hlock (hserves hcrit) hserve
      exact hR.of_sideMove hm
    · intro i claim send recv hi
      have hown : st.Owns i t.slot claim := by
        unfold State.Owns
        rw [hi]
        rfl
      have hclaim := hlock.critical_claim hown hj rfl hcrit
      subst hclaim
      refine ⟨?_, ?_⟩
      · rintro op rfl
        exact (h.send i _ _ op recv hi).of_sideMove hR hm
      · rintro op rfl
        exact (h.recv i _ _ send op hi).1.of_sideMove hR hm
    · intro u hu
      obtain rfl := Option.some.inj hu
      exact ⟨rfl, hok', hcons'⟩
    · intro k u hkj hk hs
      -- another worker on this slot is outside its critical part
      have hidle : u.op.critical = false := by
        by_contra hne
        have hres := WorkOp.reserving_of_critical (Bool.not_eq_false _ ▸ hne)
        exact hkj (hlock.worker_unique hk hj hs hres (WorkOp.reserving_of_critical hcrit))
      exact (h.work k u hk).1.of_idle hidle (hlock.task k u hk).2
  · obtain ⟨hs, hok', hcons'⟩ :=
      WorkOp.step_idle (Bool.not_eq_true _ ▸ hcrit) herr hleaves hok hins hcons
    refine h.of_quiet_worker hclean hs hst hcrit' ?_
    intro u hu
    obtain rfl := Option.some.inj hu
    exact ⟨rfl, hok', hcons'⟩

end Worker

end IsoInv

/-! ## Every event keeps the invariant -/

/-- The position the event publishes, if any. -/
def State.target (st : State) : Event → Int
  | .sendStep i =>
    match st.clients i with
    | .holding _ _ (some op) _ => op.target
    | _ => 0
  | .workStep j =>
    match st.workers j with
    | some t => t.op.target
    | none => 0
  | _ => 0

/-- No call of `workerCloseError`, and every published position fits its lane:
fewer than 2^31 bytes have been sent in each direction of a claim. -/
def Guarded (st : State) (e : Event) : Prop := NoErrors st e ∧ st.target e < 2 ^ 31

instance (st : State) (e : Event) : Decidable (Guarded st e) :=
  inferInstanceAs (Decidable (_ ∧ _))

/-- **Every event keeps the claims apart.** -/
theorem isoInv_step (h : IsoInv ch st) (hok : Guarded st e) (hstep : ch.step st e = some st') :
    IsoInv ch st' := by
  obtain ⟨herr, hfit⟩ := hok
  have hclean := cleanInv_step h.clean herr hstep
  cases step_moved hstep with
  | openSlot hc => exact h.of_idle_client hclean (by simp) (by simp)
  | addSeq hc =>
    have h' : IsoInv ch { st with claimSeq := st.claimSeq + 1 } :=
      ⟨⟨⟨h.clean.lock.reserve, h.clean.lock.own, h.clean.lock.id, h.clean.lock.clearing,
          h.clean.lock.task, h.clean.lock.resetting, h.clean.lock.critical⟩,
        h.clean.noError, h.clean.clean⟩, h.rings, h.send, h.recv, h.work⟩
    exact h'.of_idle_client hclean (by simp) (by simp)
  | opened hc => exact h.of_idle_client hclean (by simp) (by simp)
  | failed hc => exact h.of_idle_client hclean (by simp) (by simp)
  | openStep hc hs hins => exact h.of_openStep hc hs hins hclean
  | release hc =>
    exact h.of_quiet hclean (IsoInv.sameDir_setLane (.inr rfl)) (.inr (Slot.setLane_lane_self ..))
      (by intros; contradiction) (by intros; contradiction)
  | send hc =>
    rename_i i s claim recv call
    rw [← st.setSlot_self s] at hclean ⊢
    refine h.of_sideMove hc hclean (.of_sameDir fun d => .refl ..) rfl ?_ ?_
    · intro op hop
      exact Option.some.inj hop ▸ SendCall.start_ok call _
    · rintro op rfl
      exact h.recv i claim s _ op hc
  | sendStep hc hins =>
    rename_i i s claim op recv ins
    have htarget : op.target < 2 ^ 31 := by
      simp only [State.target, hc] at hfit
      exact hfit
    have hown : st.Owns i s claim := by
      unfold State.Owns
      rw [hc]
      rfl
    have hR := h.rings s claim (.inl ⟨h.clean.lock.own.tag hown, h.clean.lock.own.live hown⟩)
    obtain ⟨hm, hother, hok'⟩ :=
      SendOp.step_move hR (h.send i claim s op recv hc) hins htarget
    refine h.of_sideMove hc hclean hm (SendOp.step_lane hins _ (by simp) (by simp)) ?_ ?_
    · intro op' hop
      exact Option.some.inj hop ▸ hok'
    · rintro op' rfl
      obtain ⟨hrecv, hcons⟩ := h.recv i claim s _ op' hc
      exact ⟨hrecv.of_sameDir hother, hcons⟩
  | sendReturn hc hdone =>
    rename_i i s claim op recv
    rw [← st.setSlot_self s] at hclean ⊢
    refine h.of_sideMove hc hclean (.of_sameDir fun d => .refl ..) rfl (by simp) ?_
    rintro op' rfl
    exact h.recv i claim s _ op' hc
  | recv hc =>
    rename_i i s claim send call
    rw [← st.setSlot_self s] at hclean ⊢
    refine h.of_sideMove hc hclean (.of_sameDir fun d => .refl ..) rfl ?_ ?_
    · rintro op rfl
      exact h.send i claim s op _ hc
    · intro op hop
      obtain ⟨hok', hcons⟩ := RecvCall.start_ok call (st.slots s)
      obtain rfl := Option.some.inj hop
      refine ⟨hok', ?_⟩
      rw [hcons]
      simp
  | recvStep hc hins =>
    rename_i i s claim send op ins
    have hown : st.Owns i s claim := by
      unfold State.Owns
      rw [hc]
      rfl
    have hR := h.rings s claim (.inl ⟨h.clean.lock.own.tag hown, h.clean.lock.own.live hown⟩)
    obtain ⟨hrecv, hcons⟩ := h.recv i claim s send op hc
    obtain ⟨hm, hother, hok', hcons'⟩ := RecvOp.step_move hR hrecv hins hcons
    refine h.of_sideMove hc hclean hm (RecvOp.step_lane hins _ (by simp)) ?_ ?_
    · rintro op' rfl
      exact (h.send i claim s op' _ hc).of_sameDir hother
    · intro op' hop
      exact Option.some.inj hop ▸ ⟨hok', hcons'⟩
  | recvReturn hc hdone =>
    rename_i i s claim send op
    rw [← st.setSlot_self s] at hclean ⊢
    refine h.of_sideMove hc hclean (.of_sameDir fun d => .refl ..) rfl ?_ (by simp)
    rintro op' rfl
    exact h.send i claim s op' _ hc
  | work hj hclaim =>
    rename_i j s claim call
    rw [← st.setSlot_self s] at hclean ⊢
    refine h.of_quiet_worker hclean (fun d => .refl ..) rfl ?_ ?_
    · intro t ht hcrit
      obtain rfl := Option.some.inj ht
      exact absurd ((WorkCall.start_idle claim call).2.1.symm.trans hcrit) (by simp)
    · intro t ht
      obtain rfl := Option.some.inj ht
      obtain ⟨hok', hcons⟩ := WorkCall.start_ok call (st.slots s)
      refine ⟨rfl, hok', ?_⟩
      rw [hcons]
      simp
  | workStep hj hins =>
    rename_i j t ins
    have htarget : t.op.target < 2 ^ 31 := by
      simp only [State.target, hj] at hfit
      exact hfit
    exact h.of_workStep hj hins htarget hclean
  | workReturn hj hdone =>
    rename_i j t
    rw [← st.setSlot_self t.slot] at hclean ⊢
    exact h.of_quiet_worker hclean (fun d => .refl ..) rfl (by simp) (by simp)

theorem isoInv_run {st₀ : State} {es : List Event} (h0 : Init st₀)
    (hrun : Run ch.step Guarded st₀ es st) : IsoInv ch st :=
  hrun.invariant (isoInv_init h0) fun _ _ _ hi hok hs => isoInv_step hi hok hs

/-! ## The results -/

/-- The call has left its ring. -/
def SendOp.outOfRing : SendOp → Prop
  | .write _ pc => pc = .outOfRing
  | .eos _ => False

def RecvOp.outOfRing : RecvOp → Prop
  | .read _ pc => pc = .outOfRing
  | .stubRead _ pc => pc = .outOfRing
  | .query _ => False

def WorkOp.outOfRing : WorkOp → Prop
  | .read _ pc => pc = .outOfRing
  | .write _ pc => pc = .outOfRing
  | _ => False

theorem SendOp.Ok.not_outOfRing {op : SendOp} {sl : Slot Cell} (h : op.Ok ch claim sl) :
    ¬ op.outOfRing := by
  cases op with
  | write chunk pc => rintro rfl; exact h
  | eos pc => exact id

theorem RecvOp.Ok.not_outOfRing {op : RecvOp} {sl : Slot Cell} (h : op.Ok ch claim sl) :
    ¬ op.outOfRing := by
  cases op with
  | read n pc => rintro rfl; exact h
  | stubRead n pc => rintro rfl; exact h
  | query pc => exact id

theorem WorkOp.Ok.not_outOfRing {op : WorkOp} {sl : Slot Cell} (h : op.Ok ch claim sl) :
    ¬ op.outOfRing := by
  cases op with
  | read n pc => rintro rfl; exact h
  | write chunk pc => rintro rfl; exact h
  | close pc => exact id
  | error code detail pc => exact id

/-- What a worker's step does to the reservation: nothing, or take it from free
for its claim, or give it back from its claim. -/
def ReservesOrFrees (claim old new : Int32) : Prop :=
  new = old ∨ (old = 0 ∧ new = claim) ∨ (old = claim ∧ new = 0)

/-- A worker's step changes no other slot, and on a slot that holds another claim
nothing but the reservation. -/
theorem IsoInv.stale_step {t : Task} (h : IsoInv ch st) (hj : st.workers j = some t)
    (hstep : ch.step st (.workStep j) = some st') :
    (∀ s, s ≠ t.slot → st'.slots s = st.slots s) ∧
    (st.lanes .state t.slot ≠ t.claim → st.lanes .state t.slot ≠ 0 →
      SameButReservation (st.slots t.slot) (st'.slots t.slot) ∧
        ReservesOrFrees t.claim (st.lanes .reservation t.slot)
          (st'.lanes .reservation t.slot)) := by
  cases step_moved hstep with
  | workStep hk hins =>
    obtain rfl := Option.some.inj (hj.symm.trans hk)
    refine ⟨fun s hs => State.setSlot_slots_ne _ _ hs, fun hne hlive => ?_⟩
    have hcrit : t.op.critical = false := by
      by_contra hcrit
      rcases h.clean.lock.critical j t hj (Bool.not_eq_false _ ▸ hcrit) with hc | hc
      · exact hne hc
      · exact hlive hc
    unfold State.lanes
    rw [State.setWorker_slots, State.setSlot_slots_self]
    refine ⟨WorkOp.step_same hcrit (h.clean.noError j t hj) hins _, ?_⟩
    rcases (WorkOp.step_lock (h.clean.lock.task j t hj).2 hins (st.slots t.slot)).1 with
      ⟨hres, -⟩ | ⟨hfree, hres⟩ | ⟨hheld, -, hres⟩
    · exact .inl hres
    · exact .inr (.inl ⟨hfree, hres⟩)
    · have htag : (st.slots t.slot).lane .reservation = t.claim :=
        h.clean.lock.reserve.tag (LockInv.worker_reserves hj hheld)
      exact .inr (.inr ⟨htag, hres htag⟩)
  | workReturn hk hdone =>
    exact ⟨fun _ _ => rfl, fun _ _ => ⟨.refl _, .inl rfl⟩⟩

/-- **Claims are isolated.** In every run without `workerCloseError` and with
fewer than 2^31 bytes in each direction of a claim: a worker's step changes no
slot but its own, and nothing but the reservation of a slot that holds another
claim; what a client's read has consumed was stored by workers serving the
client's claim; what a worker's read has consumed was stored by the client for
the claim the worker serves; and no copy leaves its ring. -/
theorem claims_isolated {st₀ : State} {es : List Event} (h0 : Init st₀)
    (hrun : Run ch.step Guarded st₀ es st) :
    (∀ j t st', st.workers j = some t → ch.step st (.workStep j) = some st' →
      (∀ s, s ≠ t.slot → st'.slots s = st.slots s) ∧
      (st.lanes .state t.slot ≠ t.claim → st.lanes .state t.slot ≠ 0 →
        SameButReservation (st.slots t.slot) (st'.slots t.slot) ∧
          ReservesOrFrees t.claim (st.lanes .reservation t.slot)
            (st'.lanes .reservation t.slot))) ∧
    (∀ i claim s send op, st.clients i = .holding claim s send (some op) →
      ∀ b ∈ op.consumed, b.side = .worker ∧ b.claim = claim) ∧
    (∀ j t, st.workers j = some t → ∀ b ∈ t.op.consumed, b.side = .client ∧ b.claim = t.claim) ∧
    (∀ i claim s op recv, st.clients i = .holding claim s (some op) recv → ¬ op.outOfRing) ∧
    (∀ i claim s send op, st.clients i = .holding claim s send (some op) → ¬ op.outOfRing) ∧
    (∀ j t, st.workers j = some t → ¬ t.op.outOfRing) := by
  have h := isoInv_run h0 hrun
  refine ⟨fun j t st' hj hstep => h.stale_step hj hstep, ?_, ?_, ?_, ?_, ?_⟩
  · intro i claim s send op hc
    exact (h.recv i claim s send op hc).2
  · intro j t hj
    exact (h.work j t hj).2
  · intro i claim s op recv hc
    exact (h.send i claim s op recv hc).not_outOfRing
  · intro i claim s send op hc
    exact (h.recv i claim s send op hc).1.not_outOfRing
  · intro j t hj
    exact (h.work j t hj).1.not_outOfRing

/-- Client 0 sends a byte under claim 1 and a worker serving that claim reads it. -/
def delivered : List Event :=
  openEvents 0 ++ .send 0 (.write [7]) :: List.replicate 5 (.sendStep 0) ++
    .work 0 1 0 (.read 4) :: List.replicate 9 (.workStep 0)

theorem claims_isolated_delivered : ∃ (st : State) (t : Task), st.workers 0 = some t ∧
    t.op.consumed = [⟨7, .client, 1⟩] ∧
    ∀ b ∈ t.op.consumed, b.side = .client ∧ b.claim = t.claim := by
  have hex : ((execute oneSlot.step Guarded fresh delivered).map fun st =>
      decide ((st.workers 0).map (fun t => t.op.consumed) = some [⟨7, .client, 1⟩]))
      = some true := by
    decide +kernel
  obtain ⟨st, hrun, hst⟩ := Run.exists_of_execute hex
  obtain ⟨t, hj, hcons⟩ := Option.map_eq_some_iff.mp (of_decide_eq_true hst)
  exact ⟨st, t, hj, hcons, (claims_isolated init_fresh hrun).2.2.1 0 t hj⟩

/-- A worker looks at `STATE` for claim 1; then the client releases the slot and
another one opens it as claim 2. -/
def overtaken : List Event :=
  openEvents 0 ++ .work 0 1 0 (.read 4) :: .workStep 0 :: .release 0 :: openEvents 1

/-- **The reservation is not isolated**: the late worker takes the reservation of
a slot that holds claim 2. -/
theorem reserve_by_stale : ¬ ∀ (es : List Event) (st st' : State) (j : Nat) (t : Task),
    Run oneSlot.step Guarded fresh es st → st.workers j = some t →
    oneSlot.step st (.workStep j) = some st' →
    st.lanes .state t.slot ≠ t.claim → st.lanes .state t.slot ≠ 0 →
    (∀ l, st'.lanes l t.slot = st.lanes l t.slot) ∧
      ∀ d, (st'.slots t.slot).ring d = (st.slots t.slot).ring d := by
  intro hall
  have hex : ((execute oneSlot.step Guarded fresh overtaken).map fun st =>
      decide (st.workers 0 = some { claim := 1, slot := 0, op := .read 4 (.acquire .reserve) } ∧
        st.lanes .state 0 = 2 ∧ st.lanes .reservation 0 = 0 ∧
        ((oneSlot.step st (.workStep 0)).map fun st' =>
          decide (st'.lanes .reservation 0 = 1)) = some true)) = some true := by
    decide +kernel
  obtain ⟨st, hrun, hst⟩ := Run.exists_of_execute hex
  obtain ⟨hj, hlive, hfree, hnext⟩ := of_decide_eq_true hst
  obtain ⟨st', hstep, htaken⟩ := Option.map_eq_some_iff.mp hnext
  have hsame := (hall _ st st' 0 _ hrun hj hstep (by rw [hlive]; decide)
    (by rw [hlive]; decide)).1 .reservation
  have htaken' : st'.lanes .reservation 0 = 1 := of_decide_eq_true htaken
  exact absurd (hsame.symm.trans htaken') (by rw [hfree]; decide)

end Channel

end Haybarn.Sab
