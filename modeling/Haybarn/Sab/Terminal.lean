import Haybarn.Sab.ChannelLock

/-!
# Terminal errors

`workerCloseError` stores an error's code, its detail and the claim it is for
into three lanes, one after the other and without a reservation, and the query
reads the claim, the code, the detail and the claim again. `terminal_step` says
who can store to these lanes: an opener that resets the slot, a close, and
`workerCloseError` at any time.

A query reports a pair that was passed to one call for its claim as long as no
call of `workerCloseError` interferes with another one (`Sound`): none changes
the three lanes while they hold an error of the claim in `STATE`, and one that
stores the claim in `STATE` finds its own code and detail in their lanes.
`ErrorInv` is the invariant: an error tagged with the claim in `STATE` is the
pair of one call, and a query that has seen the tag holds what the lanes hold.

Without the condition the pair can be mixed up from two calls (`pair_torn`).
-/

namespace Haybarn.Sab

/-- What the next store of `workerCloseError` puts where. -/
def ErrorCall.store? (c : ErrorCall) : ErrorPC → Option (Lane × Int32)
  | .storeCode => some (.terminalCode, c.code)
  | .storeDetail => some (.terminalDetail, c.detail)
  | .storeClaim => some (.terminalClaim, c.claim)
  | .storeClosed => some (.w2cClosed, c.claim)
  | .done => none

/-- A step of `workerCloseError` is one store. -/
theorem ErrorCall.step_store {β : Type} {c : ErrorCall} {pc : ErrorPC} {ins : Instr β ErrorPC}
    (h : c.next pc = some ins) (sl : Slot β) :
    ∃ l v, c.store? pc = some (l, v) ∧ (ins.exec sl).1 = sl.setLane l v := by
  cases pc with
  | storeCode => obtain rfl := Option.some.inj h; exact ⟨_, _, rfl, rfl⟩
  | storeDetail => obtain rfl := Option.some.inj h; exact ⟨_, _, rfl, rfl⟩
  | storeClaim => obtain rfl := Option.some.inj h; exact ⟨_, _, rfl, rfl⟩
  | storeClosed => obtain rfl := Option.some.inj h; exact ⟨_, _, rfl, rfl⟩
  | done => cases h

/-- The lanes a close or a terminal error is made of. -/
def terminalLanes : List Lane := [.w2cClosed, .terminalClaim, .terminalCode, .terminalDetail]

namespace Channel

open Haybarn.Lib

variable {ch : Channel} {st st' : State} {i j s : Nat} {claim v : Int32} {l : Lane} {e : Event}

/-! ## Who stores to the terminal lanes -/

/-- The event stores `v` to a terminal lane of slot `s`. -/
inductive Stores (st : State) (s : Nat) : Event → Lane → Int32 → Prop
  | reset {i : Nat} {id : Int32} {l : Lane} {rest : List Lane}
      (hc : st.clients i = .opening (.reset id s l rest)) : Stores st s (.openStep i) l 0
  | close {j : Nat} {t : Task} (hj : st.workers j = some t) (hs : t.slot = s)
      (hop : t.op = .close .store) : Stores st s (.workStep j) .w2cClosed t.claim
  | error {j : Nat} {t : Task} {code detail v : Int32} {pc : ErrorPC} {l : Lane}
      (hj : st.workers j = some t) (hs : t.slot = s) (hop : t.op = .error code detail pc)
      (hstore : ErrorCall.store? ⟨code, detail, t.claim⟩ pc = some (l, v)) :
      Stores st s (.workStep j) l v

/-- An opener's step changes a terminal lane only by resetting it. -/
theorem terminal_openStep {pc : OpenPC} {ins : Instr Cell OpenPC}
    (hc : st.clients i = .opening pc) (hs : pc.slot? = some s) (hins : pc.next ch.nSlots = some ins)
    (hl : l ∈ terminalLanes) :
    (ins.exec (st.slots s)).1.lane l = st.lanes l s ∨
      Stores st s (.openStep i) l ((ins.exec (st.slots s)).1.lane l) := by
  have hres : l ≠ .reservation := by
    intro h
    rw [h] at hl
    exact absurd hl (by decide)
  have hst : l ≠ .state := by
    intro h
    rw [h] at hl
    exact absurd hl (by decide)
  cases pc with
  | reset id s' l' rest =>
    obtain rfl := Option.some.inj hs
    obtain rfl := Option.some.inj hins
    by_cases hll : l = l'
    · subst hll
      refine .inr ?_
      show Stores st s' (.openStep i) l (((st.slots s').setLane l 0).lane l)
      rw [Slot.setLane_lane_self]
      exact .reset hc
    · exact .inl (Slot.setLane_lane_ne _ _ hll)
  | reserve id s' =>
    obtain rfl := Option.some.inj hins
    refine .inl ?_
    show (if (st.slots s).lane .reservation = 0 then _ else st.slots s).lane l = _
    split
    · exact Slot.setLane_lane_ne _ _ hres
    · rfl
  | checkState id s' => obtain rfl := Option.some.inj hins; exact .inl rfl
  | unreserve id s' =>
    obtain rfl := Option.some.inj hins
    exact .inl (Slot.setLane_lane_ne _ _ hres)
  | publish id s' =>
    obtain rfl := Option.some.inj hins
    exact .inl (Slot.setLane_lane_ne _ _ hst)
  | unlock id s' =>
    obtain rfl := Option.some.inj hins
    exact .inl (Slot.setLane_lane_ne _ _ hres)
  | addSeq => cases hs
  | opened id s' => cases hs
  | failed => cases hs

/-- A worker's step changes a terminal lane only by a close or an error. -/
theorem terminal_workStep {t : Task} {ins : Instr Cell WorkOp} (hj : st.workers j = some t)
    (hins : t.op.next ch t.claim = some ins) (hl : l ∈ terminalLanes) :
    (ins.exec (st.slots t.slot)).1.lane l = st.lanes l t.slot ∨
      Stores st t.slot (.workStep j) l ((ins.exec (st.slots t.slot)).1.lane l) := by
  have hnot : ∀ l', l' ∉ terminalLanes → l ≠ l' := by
    intro l' hl' h
    rw [h] at hl
    exact hl' hl
  have hres : l ≠ .reservation := hnot _ (by decide)
  cases hop : t.op with
  | read n pc =>
    rw [hop] at hins
    obtain ⟨ins', hins', rfl⟩ := Option.map_eq_some_iff.mp hins
    rw [Instr.exec_map]
    exact .inl (ReadCall.step_lane hins' _ (fun _ _ => hres) (hnot .c2wRead (by decide)))
  | write chunk pc =>
    rw [hop] at hins
    obtain ⟨ins', hins', rfl⟩ := Option.map_eq_some_iff.mp hins
    rw [Instr.exec_map]
    exact .inl (WriteCall.step_lane hins' _ (fun _ _ => hres) (hnot .w2cWrite (by decide)))
  | close pc =>
    rw [hop] at hins
    obtain ⟨ins', hins', rfl⟩ := Option.map_eq_some_iff.mp hins
    rw [Instr.exec_map]
    by_cases hstore : pc = .store ∧ l = .w2cClosed
    · obtain ⟨rfl, rfl⟩ := hstore
      obtain rfl := Option.some.inj hins'
      refine .inr ?_
      show Stores st t.slot _ _ (((st.slots t.slot).setLane .w2cClosed t.claim).lane .w2cClosed)
      rw [Slot.setLane_lane_self]
      exact .close hj rfl hop
    · exact .inl (Closer.step_lane hins' _ hres fun hpc hl => hstore ⟨hpc, hl⟩)
  | error code detail pc =>
    rw [hop] at hins
    obtain ⟨ins', hins', rfl⟩ := Option.map_eq_some_iff.mp hins
    rw [Instr.exec_map]
    obtain ⟨l', v, hstore, hslot⟩ := ErrorCall.step_store hins' (st.slots t.slot)
    show (ins'.exec (st.slots t.slot)).1.lane l = _ ∨
      Stores st t.slot _ l ((ins'.exec (st.slots t.slot)).1.lane l)
    rw [hslot]
    by_cases hll : l = l'
    · subst hll
      rw [Slot.setLane_lane_self]
      exact .inr (.error hj rfl hop hstore)
    · exact .inl (Slot.setLane_lane_ne _ _ hll)

/-- **Who stores to the terminal lanes**: an opener's reset, a close and a terminal
error. -/
theorem terminal_step (hstep : ch.step st e = some st') (hl : l ∈ terminalLanes) (s : Nat) :
    st'.lanes l s = st.lanes l s ∨ Stores st s e l (st'.lanes l s) := by
  have hnot : ∀ l', l' ∉ terminalLanes → l ≠ l' := by
    intro l' hl' h
    rw [h] at hl
    exact hl' hl
  cases step_moved hstep with
  | openStep hc hs hins =>
    rename_i i s' pc ins
    by_cases hss : s = s'
    · subst hss
      rw [lanes_setSlot_self]
      exact terminal_openStep hc hs hins hl
    · exact .inl (lanes_setSlot_ne hss)
  | release hc => exact .inl (lanes_setSlot (Slot.setLane_lane_ne _ _ (hnot _ (by decide))) s)
  | sendStep hc hins =>
    exact .inl (lanes_setSlot
      (SendOp.step_lane hins _ (hnot _ (by decide)) (hnot _ (by decide))) s)
  | recvStep hc hins =>
    exact .inl (lanes_setSlot (RecvOp.step_lane hins _ (hnot _ (by decide))) s)
  | workStep hj hins =>
    rename_i j t ins
    by_cases hss : s = t.slot
    · subst hss
      unfold State.lanes
      rw [State.setWorker_slots, State.setSlot_slots_self]
      exact terminal_workStep hj hins hl
    · refine .inl ?_
      unfold State.lanes
      rw [State.setWorker_slots, State.setSlot_slots_ne _ _ hss]
  | _ => exact .inl rfl

/-- **Who stores to `STATE`**: a release and a publication. -/
theorem state_step (hstep : ch.step st e = some st') (s : Nat) :
    st'.lanes .state s = st.lanes .state s ∨ st'.lanes .state s = 0 ∨
      ∃ i id, e = .openStep i ∧ st.clients i = .opening (.publish id s) ∧
        st'.lanes .state s = id := by
  cases step_moved hstep with
  | openStep hc hs hins =>
    rename_i i s' pc ins
    by_cases hss : s = s'
    · subst hss
      rw [lanes_setSlot_self]
      cases pc with
      | publish id s' =>
        obtain rfl := Option.some.inj hs
        obtain rfl := Option.some.inj hins
        exact .inr (.inr ⟨i, id, rfl, hc, Slot.setLane_lane_self ..⟩)
      | reserve id s' =>
        obtain rfl := Option.some.inj hins
        refine .inl ?_
        show (if (st.slots s).lane .reservation = 0 then _ else st.slots s).lane .state = _
        split
        · exact Slot.setLane_lane_ne _ _ nofun
        · rfl
      | checkState id s' => obtain rfl := Option.some.inj hins; exact .inl rfl
      | unreserve id s' =>
        obtain rfl := Option.some.inj hins
        exact .inl (Slot.setLane_lane_ne _ _ nofun)
      | reset id s' l rest =>
        obtain rfl := Option.some.inj hins
        by_cases hl : l = .state
        · subst hl
          exact .inr (.inl (Slot.setLane_lane_self ..))
        · exact .inl (Slot.setLane_lane_ne _ _ (Ne.symm hl))
      | unlock id s' =>
        obtain rfl := Option.some.inj hins
        exact .inl (Slot.setLane_lane_ne _ _ nofun)
      | addSeq => cases hs
      | opened id s' => cases hs
      | failed => cases hs
    · exact .inl (lanes_setSlot_ne hss)
  | release hc =>
    rename_i i s' claim
    by_cases hss : s = s'
    · subst hss
      rw [lanes_setSlot_self]
      exact .inr (.inl (Slot.setLane_lane_self ..))
    · exact .inl (lanes_setSlot_ne hss)
  | sendStep hc hins => exact .inl (lanes_setSlot (SendOp.step_lane (l := .state) hins _ nofun nofun) s)
  | recvStep hc hins => exact .inl (lanes_setSlot (RecvOp.step_lane (l := .state) hins _ nofun) s)
  | workStep hj hins =>
    rename_i j t ins
    refine .inl ?_
    unfold State.lanes
    rw [State.setWorker_slots]
    by_cases hss : s = t.slot
    · subst hss
      rw [State.setSlot_slots_self]
      exact WorkOp.step_state hins _
    · rw [State.setSlot_slots_ne _ _ hss]
  | _ => exact .inl rfl

/-! ## Calls that do not interfere -/

/-- The slot holds an error of the claim in `STATE`. -/
def Standing (sl : Slot Cell) : Prop :=
  sl.lane .state ≠ 0 ∧ sl.lane .terminalClaim = sl.lane .state

instance (sl : Slot Cell) : Decidable (Standing sl) := inferInstanceAs (Decidable (_ ∧ _))

/-- The next store of a call interferes with no other call: it does not change an
error of the claim in `STATE`, and it tags such an error only over its own pair. -/
def StoreSound (sl : Slot Cell) (c : ErrorCall) : ErrorPC → Prop
  | .storeCode => Standing sl → sl.lane .terminalCode = c.code
  | .storeDetail => Standing sl → sl.lane .terminalDetail = c.detail
  | .storeClaim => (Standing sl → sl.lane .state = c.claim) ∧
      (sl.lane .state = c.claim → sl.lane .terminalCode = c.code ∧
        sl.lane .terminalDetail = c.detail)
  | .storeClosed => True
  | .done => True

instance (sl : Slot Cell) (c : ErrorCall) : ∀ pc, Decidable (StoreSound sl c pc)
  | .storeCode => inferInstanceAs (Decidable (_ → _))
  | .storeDetail => inferInstanceAs (Decidable (_ → _))
  | .storeClaim => inferInstanceAs (Decidable (_ ∧ _))
  | .storeClosed => inferInstanceAs (Decidable True)
  | .done => inferInstanceAs (Decidable True)

def WorkOp.Sound (sl : Slot Cell) (claim : Int32) : WorkOp → Prop
  | .error code detail pc => StoreSound sl { code, detail, claim } pc
  | _ => True

instance (sl : Slot Cell) (claim : Int32) : ∀ op, Decidable (WorkOp.Sound sl claim op)
  | .error code detail pc => inferInstanceAs (Decidable (StoreSound sl ⟨code, detail, claim⟩ pc))
  | .read _ _ => inferInstanceAs (Decidable True)
  | .write _ _ => inferInstanceAs (Decidable True)
  | .close _ => inferInstanceAs (Decidable True)

/-- The slot the client's next step publishes a claim in, and the claim. -/
def Client.publishing? : Client → Option (Nat × Int32)
  | .opening (.publish id s) => some (s, id)
  | _ => none

/-- No call of `workerCloseError` interferes with another one, and no claim is
published under a tag that is already its own. -/
def Sound (st : State) : Event → Prop
  | .workStep j => ∀ t ∈ st.workers j, t.op.Sound (st.slots t.slot) t.claim
  | .openStep i => ∀ p ∈ (st.clients i).publishing?, st.lanes .terminalClaim p.1 ≠ p.2
  | _ => True

instance (st : State) : ∀ e, Decidable (Sound st e)
  | .workStep _ => inferInstanceAs (Decidable (∀ t ∈ _, _))
  | .openStep _ => inferInstanceAs (Decidable (∀ p ∈ _, _))
  | .openSlot _ => inferInstanceAs (Decidable True)
  | .release _ => inferInstanceAs (Decidable True)
  | .send _ _ => inferInstanceAs (Decidable True)
  | .sendStep _ => inferInstanceAs (Decidable True)
  | .recv _ _ => inferInstanceAs (Decidable True)
  | .recvStep _ => inferInstanceAs (Decidable True)
  | .work _ _ _ _ => inferInstanceAs (Decidable True)

theorem Sound.store {t : Task} {code detail : Int32} {pc : ErrorPC}
    (h : Sound st (.workStep j)) (hj : st.workers j = some t) (hop : t.op = .error code detail pc) :
    StoreSound (st.slots t.slot) { code, detail, claim := t.claim } pc := by
  have ht := h t hj
  rw [hop] at ht
  exact ht

/-- One event stores to one lane. -/
theorem Stores.lane_eq {l' : Lane} {v' : Int32} (h : Stores st s e l v) (h' : Stores st s e l' v') :
    l = l' := by
  cases h with
  | reset hc =>
    cases h' with
    | reset hc' =>
      have hpc := Client.opening.inj (hc.symm.trans hc')
      exact (OpenPC.reset.inj hpc).2.2.1
  | close hj hs hop =>
    cases h' with
    | close hj' hs' hop' => rfl
    | error hj' hs' hop' hstore' =>
      obtain rfl := Option.some.inj (hj.symm.trans hj')
      cases hop.symm.trans hop'
  | error hj hs hop hstore =>
    cases h' with
    | close hj' hs' hop' =>
      obtain rfl := Option.some.inj (hj.symm.trans hj')
      cases hop.symm.trans hop'
    | error hj' hs' hop' hstore' =>
      obtain rfl := Option.some.inj (hj.symm.trans hj')
      obtain ⟨rfl, rfl, rfl⟩ := WorkOp.error.inj (hop.symm.trans hop')
      exact (Prod.mk.inj (Option.some.inj (hstore.symm.trans hstore'))).1

/-- An error of the claim in `STATE` is not changed. -/
theorem standing_lane (h : LockInv st) (hok : Sound st e) (hstep : ch.step st e = some st')
    (hst : Standing (st.slots s)) (hl : l ∈ terminalLanes) (hclosed : l ≠ .w2cClosed) :
    st'.lanes l s = st.lanes l s := by
  rcases terminal_step hstep hl s with hsame | hstore
  · exact hsame
  generalize st'.lanes l s = v at hstore
  cases hstore with
  | reset hc => exact absurd (h.clearing _ _ s hc rfl) hst.1
  | close hj hs hop => exact absurd rfl hclosed
  | error hj hs hop hstore =>
    rename_i j t code detail pc
    have hsound := hok.store hj hop
    subst hs
    cases pc with
    | storeCode =>
      obtain ⟨rfl, rfl⟩ := Prod.mk.inj (Option.some.inj hstore)
      exact (hsound hst).symm
    | storeDetail =>
      obtain ⟨rfl, rfl⟩ := Prod.mk.inj (Option.some.inj hstore)
      exact (hsound hst).symm
    | storeClaim =>
      obtain ⟨rfl, rfl⟩ := Prod.mk.inj (Option.some.inj hstore)
      exact ((hsound.1 hst).symm.trans hst.2.symm)
    | storeClosed =>
      obtain ⟨rfl, rfl⟩ := Prod.mk.inj (Option.some.inj hstore)
      exact absurd rfl hclosed
    | done => cases hstore

/-! ## The invariant -/

/-- A worker has called `workerCloseError` for the claim with this pair. -/
def Passed (es : List Event) (claim : Int32) (s : Nat) (code detail : Int32) : Prop :=
  ∃ j, .work j claim s (.error code detail) ∈ es

theorem Passed.mono {es fs : List Event} {code detail : Int32} (h : Passed es claim s code detail) :
    Passed (es ++ fs) claim s code detail := by
  obtain ⟨j, hj⟩ := h
  exact ⟨j, List.mem_append_left fs hj⟩

/-- What a query knows, made under `claim`. -/
def QueryPC.Ok (es : List Event) (claim : Int32) (s : Nat) (sl : Slot Cell) : QueryPC → Prop
  | .loadClaim => True
  | .loadTag c => c = claim
  | .loadCode c => c = claim ∧ sl.lane .terminalClaim = claim
  | .loadDetail c code => c = claim ∧ sl.lane .terminalClaim = claim ∧
      code = sl.lane .terminalCode
  | .recheckState c code detail => c = claim ∧ sl.lane .terminalClaim = claim ∧
      code = sl.lane .terminalCode ∧ detail = sl.lane .terminalDetail
  | .recheckTag c code detail => c = claim ∧ sl.lane .terminalClaim = claim ∧
      code = sl.lane .terminalCode ∧ detail = sl.lane .terminalDetail
  | .done (some (code, detail)) => Passed es claim s code detail
  | .done none => True

/-- Every call in progress is in the trace, an error of the claim in `STATE` is the
pair of one call for it, and every query knows its outline. -/
structure ErrorInv (es : List Event) (st : State) : Prop where
  lock : LockInv st
  calls : ∀ j t code detail pc, st.workers j = some t → t.op = .error code detail pc →
    .work j t.claim t.slot (.error code detail) ∈ es
  standing : ∀ s, Standing (st.slots s) → Passed es (st.lanes .state s) s
    (st.lanes .terminalCode s) (st.lanes .terminalDetail s)
  query : ∀ i claim s send pc, st.clients i = .holding claim s send (some (.query pc)) →
    QueryPC.Ok es claim s (st.slots s) pc

theorem errorInv_init (h : Init st) : ErrorInv [] st := by
  refine ⟨lockInv_init h, ?_, ?_, ?_⟩
  · intro j t code detail pc hj
    rw [h.workers] at hj
    cases hj
  · intro s hst
    exact absurd (h.free s) hst.1
  · intro i claim s send pc hc
    rw [h.clients] at hc
    cases hc

/-- A query's outline survives what leaves the error alone. -/
theorem QueryPC.Ok.of_lanes {es fs : List Event} {sl sl' : Slot Cell} {pc : QueryPC}
    (h : QueryPC.Ok es claim s sl pc)
    (hsame : sl.lane .terminalClaim = claim → sl'.lane .terminalClaim = sl.lane .terminalClaim ∧
      sl'.lane .terminalCode = sl.lane .terminalCode ∧
      sl'.lane .terminalDetail = sl.lane .terminalDetail) :
    QueryPC.Ok (es ++ fs) claim s sl' pc := by
  cases pc with
  | loadClaim => exact trivial
  | loadTag c => exact h
  | loadCode c =>
    obtain ⟨hc, htag⟩ := h
    exact ⟨hc, (hsame htag).1.trans htag⟩
  | loadDetail c code =>
    obtain ⟨hc, htag, hcode⟩ := h
    obtain ⟨htag', hcode', -⟩ := hsame htag
    exact ⟨hc, htag'.trans htag, hcode.trans hcode'.symm⟩
  | recheckState c code detail =>
    obtain ⟨hc, htag, hcode, hdetail⟩ := h
    obtain ⟨htag', hcode', hdetail'⟩ := hsame htag
    exact ⟨hc, htag'.trans htag, hcode.trans hcode'.symm, hdetail.trans hdetail'.symm⟩
  | recheckTag c code detail =>
    obtain ⟨hc, htag, hcode, hdetail⟩ := h
    obtain ⟨htag', hcode', hdetail'⟩ := hsame htag
    exact ⟨hc, htag'.trans htag, hcode.trans hcode'.symm, hdetail.trans hdetail'.symm⟩
  | done result =>
    cases result with
    | none => exact trivial
    | some pair => exact Passed.mono h

/-- A step of the query keeps its outline. -/
theorem QueryPC.Ok.step {es : List Event} {sl : Slot Cell} {pc : QueryPC}
    {ins : Instr Cell QueryPC} (h : QueryPC.Ok es claim s sl pc) (hins : pc.next = some ins)
    (hst : sl.lane .state = claim)
    (hpass : sl.lane .terminalClaim = claim →
      Passed es claim s (sl.lane .terminalCode) (sl.lane .terminalDetail)) :
    QueryPC.Ok es claim s sl (ins.exec sl).2 := by
  cases pc with
  | loadClaim =>
    obtain rfl := Option.some.inj hins
    show QueryPC.Ok es claim s sl (if sl.lane .state = 0 then _ else _)
    split
    · exact trivial
    · exact hst
  | loadTag c =>
    obtain rfl := Option.some.inj hins
    obtain rfl : c = claim := h
    show QueryPC.Ok es c s sl (if sl.lane .terminalClaim ≠ c then _ else _)
    split
    · exact trivial
    next htag => exact ⟨rfl, not_not.mp htag⟩
  | loadCode c =>
    obtain rfl := Option.some.inj hins
    obtain ⟨hc, htag⟩ := h
    exact ⟨hc, htag, rfl⟩
  | loadDetail c code =>
    obtain rfl := Option.some.inj hins
    obtain ⟨hc, htag, hcode⟩ := h
    exact ⟨hc, htag, hcode, rfl⟩
  | recheckState c code detail =>
    obtain rfl := Option.some.inj hins
    show QueryPC.Ok es claim s sl (if sl.lane .state ≠ c then _ else _)
    split
    · exact trivial
    · exact h
  | recheckTag c code detail =>
    obtain rfl := Option.some.inj hins
    obtain ⟨rfl, htag, rfl, rfl⟩ := h
    show QueryPC.Ok es c s sl (if sl.lane .terminalClaim ≠ c then _ else _)
    split
    · exact trivial
    · exact hpass htag
  | done result => cases hins

/-- The step after which a query is in progress was a step of the query. -/
theorem query_came {op : RecvOp} {ins : Instr Cell RecvOp} {sl : Slot Cell} {pc : QueryPC}
    (hins : op.next ch = some ins) (hop : (ins.exec sl).2 = .query pc) :
    ∃ pc₀ ins₀, op = .query pc₀ ∧ pc₀.next = some ins₀ ∧ pc = (ins₀.exec sl).2 ∧
      (ins.exec sl).1 = sl := by
  cases op with
  | query pc₀ =>
    obtain ⟨ins₀, hins₀, rfl⟩ := Option.map_eq_some_iff.mp hins
    rw [Instr.exec_map] at hop ⊢
    exact ⟨pc₀, ins₀, rfl, hins₀, (RecvOp.query.inj hop).symm, QueryPC.step_slot hins₀ sl⟩
  | read n pc₀ =>
    obtain ⟨ins₀, -, rfl⟩ := Option.map_eq_some_iff.mp hins
    rw [Instr.exec_map] at hop
    cases hop
  | stubRead n pc₀ =>
    obtain ⟨ins₀, -, rfl⟩ := Option.map_eq_some_iff.mp hins
    rw [Instr.exec_map] at hop
    cases hop

/-- The calls in progress stay in the trace. -/
theorem calls_step {es : List Event}
    (h : ∀ j t code detail pc, st.workers j = some t → t.op = .error code detail pc →
      .work j t.claim t.slot (.error code detail) ∈ es)
    (hstep : ch.step st e = some st') :
    ∀ j t code detail pc, st'.workers j = some t → t.op = .error code detail pc →
      .work j t.claim t.slot (.error code detail) ∈ es ++ [e] := by
  intro j t code detail pc hj hop
  cases work_came hstep hj with
  | stays hj' he => exact List.mem_append_left _ (h j t code detail pc hj' hop)
  | step hj' hins =>
    rename_i u ins
    have hop' : (ins.exec (st.slots u.slot)).2 = .error code detail pc := hop
    refine List.mem_append_left _ ?_
    cases hu : u.op with
    | error code' detail' pc' =>
      rw [hu] at hins
      obtain ⟨ins', -, rfl⟩ := Option.map_eq_some_iff.mp hins
      rw [Instr.exec_map] at hop'
      obtain ⟨rfl, rfl, -⟩ := WorkOp.error.inj hop'
      exact h j u code' detail' pc' hj' hu
    | read n pc' =>
      rw [hu] at hins
      obtain ⟨ins', -, rfl⟩ := Option.map_eq_some_iff.mp hins
      rw [Instr.exec_map] at hop'
      cases hop'
    | write chunk pc' =>
      rw [hu] at hins
      obtain ⟨ins', -, rfl⟩ := Option.map_eq_some_iff.mp hins
      rw [Instr.exec_map] at hop'
      cases hop'
    | close pc' =>
      rw [hu] at hins
      obtain ⟨ins', -, rfl⟩ := Option.map_eq_some_iff.mp hins
      rw [Instr.exec_map] at hop'
      cases hop'
  | start hj' hclaim =>
    rename_i claim s call
    cases call with
    | error code' detail' =>
      obtain ⟨rfl, rfl, -⟩ := WorkOp.error.inj hop
      exact List.mem_append_right _ (List.mem_singleton_self _)
    | read n => cases hop
    | write chunk => cases hop
    | close => cases hop

/-- An error of the claim in `STATE` is the pair of one call. -/
theorem standing_step {es : List Event} (h : ErrorInv es st) (hok : Sound st e)
    (hstep : ch.step st e = some st') (hst : Standing (st'.slots s)) :
    Passed es (st'.lanes .state s) s (st'.lanes .terminalCode s) (st'.lanes .terminalDetail s) := by
  obtain ⟨hne, htag⟩ := hst
  have htag' : st'.lanes .terminalClaim s = st'.lanes .state s := htag
  rcases state_step hstep s with hstate | hzero | ⟨i, id, rfl, hc, hid⟩
  · by_cases hold : Standing (st.slots s)
    · -- it stood before: nothing has changed
      rw [hstate, standing_lane h.lock hok hstep hold (l := .terminalCode) (by decide) nofun,
        standing_lane h.lock hok hstep hold (l := .terminalDetail) (by decide) nofun]
      exact h.standing s hold
    · -- the tag has just been stored
      have hchanged : st'.lanes .terminalClaim s ≠ st.lanes .terminalClaim s := by
        intro hsame
        refine hold ⟨?_, ?_⟩
        · show st.lanes .state s ≠ 0
          rw [← hstate]
          exact hne
        · show st.lanes .terminalClaim s = st.lanes .state s
          rw [← hsame, ← hstate]
          exact htag'
      have hstore := (terminal_step hstep (l := .terminalClaim) (by decide) s).resolve_left hchanged
      have hother : ∀ l ∈ terminalLanes, l ≠ .terminalClaim → st'.lanes l s = st.lanes l s := by
        intro l hl hne
        rcases terminal_step hstep hl s with hsame | hstore'
        · exact hsame
        · exact absurd (hstore'.lane_eq hstore) hne
      rw [hother .terminalCode (by decide) nofun, hother .terminalDetail (by decide) nofun]
      generalize hv : st'.lanes .terminalClaim s = v at hstore
      cases hstore with
      | reset hc => exact absurd (htag'.symm.trans hv) hne
      | error hj hs hop hstore =>
        rename_i j t code detail pc
        subst hs
        have hsound := hok.store hj hop
        cases pc with
        | storeClaim =>
          obtain ⟨-, rfl⟩ := Prod.mk.inj (Option.some.inj hstore)
          have hclaim : st'.lanes .state t.slot = t.claim := htag'.symm.trans hv
          obtain ⟨hcode, hdetail⟩ := hsound.2 (hstate.symm.trans hclaim)
          refine ⟨j, ?_⟩
          show Event.work j (st'.lanes .state t.slot) t.slot
            (.error ((st.slots t.slot).lane .terminalCode)
              ((st.slots t.slot).lane .terminalDetail)) ∈ es
          rw [hclaim, hcode, hdetail]
          exact h.calls j t code detail _ hj hop
        | storeCode => cases hstore
        | storeDetail => cases hstore
        | storeClosed => cases hstore
        | done => cases hstore
  · exact absurd hzero hne
  · -- a claim is never published under its own tag
    have hsame : st'.lanes .terminalClaim s = st.lanes .terminalClaim s := by
      rcases terminal_step hstep (l := .terminalClaim) (by decide) s with hsame | hstore
      · exact hsame
      · generalize st'.lanes .terminalClaim s = v at hstore
        cases hstore with
        | reset hc' => cases Client.opening.inj (hc.symm.trans hc')
    have hpub : (s, id) ∈ (st.clients i).publishing? := by
      rw [hc]
      rfl
    exact absurd (hsame.symm.trans (htag'.trans hid)) (hok _ hpub)

/-- **Every event that does not interfere keeps the errors apart.** -/
theorem errorInv_step {es : List Event} (h : ErrorInv es st) (hok : Sound st e)
    (hstep : ch.step st e = some st') : ErrorInv (es ++ [e]) st' := by
  refine ⟨lockInv_step h.lock hstep, calls_step h.calls hstep, ?_, ?_⟩
  · intro s hst
    exact (standing_step h hok hstep hst).mono
  · intro i claim s send pc hc
    have hold : ∀ {send op}, st.clients i = .holding claim s send (some op) →
        st.lanes .state s = claim ∧ claim ≠ 0 := by
      intro send op hc'
      have hown : st.Owns i s claim := by
        unfold State.Owns
        rw [hc']
        rfl
      exact ⟨h.lock.own.tag hown, h.lock.own.live hown⟩
    generalize hop : RecvOp.query pc = op at hc
    cases recv_came hstep hc with
    | stays hc' he =>
      subst hop
      obtain ⟨hstate, hne⟩ := hold hc'
      refine (h.query i claim s _ pc hc').of_lanes fun htag => ?_
      have hst : Standing (st.slots s) :=
        ⟨fun hzero => hne (hstate.symm.trans hzero), htag.trans hstate.symm⟩
      have hlane := fun l => standing_lane (l := l) h.lock hok hstep hst
      exact ⟨hlane _ (by decide) nofun, hlane _ (by decide) nofun, hlane _ (by decide) nofun⟩
    | step hc' hins =>
      obtain ⟨hstate, hne⟩ := hold hc'
      obtain ⟨pc₀, ins₀, rfl, hins₀, rfl, hsl⟩ := query_came hins hop.symm
      have hslot : st'.slots s = st.slots s := (recvStep_slot hc' hins hstep).trans hsl
      have hstep' := (h.query i claim s _ pc₀ hc').step hins₀ hstate fun htag => by
        have hpass := h.standing s
          ⟨fun hzero => hne (hstate.symm.trans hzero), htag.trans hstate.symm⟩
        rw [hstate] at hpass
        exact hpass
      rw [hslot]
      exact hstep'.of_lanes fun _ => ⟨rfl, rfl, rfl⟩
    | start hc' =>
      rename_i call
      cases call with
      | query =>
        obtain rfl := RecvOp.query.inj hop
        unfold QueryPC.start
        split
        · exact trivial
        · exact trivial
      | read n => cases hop
      | stubRead n => cases hop

/-! ## The results -/

/-- A worker fails claim 1 with error (7, 9) and the client asks. -/
def failed : List Event :=
  openEvents 0 ++ .work 0 1 0 (.error 7 9) :: List.replicate 4 (.workStep 0) ++
    .recv 0 .query :: List.replicate 6 (.recvStep 0)

/-- Slot 0 is opened as claim 1, released and opened as claim 2; a late worker's
error for claim 1 comes between the stores of one for claim 2. -/
def mixed : List Event :=
  openEvents 0 ++ .release 0 :: openEvents 1 ++ .work 0 1 0 (.error 3 4) ::
    .work 1 2 0 (.error 7 9) :: List.replicate 2 (.workStep 1) ++ .workStep 0 ::
    .workStep 1 :: .recv 1 .query :: List.replicate 6 (.recvStep 1)

end Channel

end Haybarn.Sab
