import Haybarn.Lib.Lock
import Haybarn.Sab.ChannelStep

/-!
# Who holds a slot

Two words of a slot are locks. Its reservation is held by an opener from its
compare-exchange to the store that gives it back, and by a worker in a guarded
operation; its `STATE` is held by the client whose claim id it is, from the
publication to the release. `LockInv` says that both are locks in the sense of
`LockOk`, and the two facts that tie them together: while an opener clears a
slot `STATE` is zero (`clearing`), and a worker that has validated its claim
finds it in `STATE` until it leaves, unless the client has released it in
between (`critical`).

No other invariant looks at the program counters of all the parties; the ones
that follow take a slot's few users from here.
-/

namespace Haybarn.Sab

/-- The claim id an open has drawn. -/
def OpenPC.id? : OpenPC → Option Int32
  | .addSeq => none
  | .reserve id _ => some id
  | .checkState id _ => some id
  | .unreserve id _ => some id
  | .reset id _ _ _ => some id
  | .publish id _ => some id
  | .unlock id _ => some id
  | .opened id _ => some id
  | .failed => none

/-- The slot an open has reserved, and its tag. -/
def OpenPC.reserved? : OpenPC → Option (Nat × Int32)
  | .checkState id s => some (s, id)
  | .unreserve id s => some (s, id)
  | .reset id s _ _ => some (s, id)
  | .publish id s => some (s, id)
  | .unlock id s => some (s, id)
  | _ => none

/-- The slot an open is resetting. -/
def OpenPC.clearing? : OpenPC → Option Nat
  | .reset _ s _ _ => some s
  | .publish _ s => some s
  | _ => none

/-- The slot an open has published its claim in. -/
def OpenPC.owned? : OpenPC → Option (Nat × Int32)
  | .unlock id s => some (s, id)
  | .opened id s => some (s, id)
  | _ => none

namespace Channel

open Haybarn.Lib

variable {ch : Channel} {st st' : State}

def Client.reserved? : Client → Option (Nat × Int32)
  | .opening pc => pc.reserved?
  | _ => none

/-- The slot a client has claimed and not released, and its claim. -/
def Client.owned? : Client → Option (Nat × Int32)
  | .opening pc => pc.owned?
  | .holding claim s _ _ => some (s, claim)
  | .idle => none

inductive Party
  | client (i : Nat)
  | worker (j : Nat)
  deriving DecidableEq, Repr

/-- The party holds the reservation of slot `s` with tag `t`. -/
def State.Reserves (st : State) : Party → Nat → Int32 → Prop
  | .client i, s, t => (st.clients i).reserved? = some (s, t)
  | .worker j, s, t => ∃ k, st.workers j = some k ∧ k.slot = s ∧ k.claim = t ∧
      k.op.reserving = true

/-- Client `i` has claimed slot `s` with id `claim` and not released it. -/
def State.Owns (st : State) (i s : Nat) (claim : Int32) : Prop :=
  (st.clients i).owned? = some (s, claim)

/-- The lane of every slot. -/
def State.lanes (st : State) (l : Lane) (s : Nat) : Int32 := (st.slots s).lane l

structure LockInv (st : State) : Prop where
  reserve : LockOk 0 (st.lanes .reservation) st.Reserves
  own : LockOk 0 (st.lanes .state) st.Owns
  id : ∀ i pc id, st.clients i = .opening pc → pc.id? = some id → id ≠ 0
  clearing : ∀ i pc s, st.clients i = .opening pc → pc.clearing? = some s →
    st.lanes .state s = 0
  task : ∀ j t, st.workers j = some t → t.claim ≠ 0 ∧ t.op.LeavesOk
  resetting : ∀ i id s l rest, st.clients i = .opening (.reset id s l rest) →
    l :: rest <:+ resetLanes
  critical : ∀ j t, st.workers j = some t → t.op.critical = true →
    st.lanes .state t.slot = t.claim ∨ st.lanes .state t.slot = 0

theorem lockInv_init (h : Init st) : LockInv st := by
  have hres : ∀ p s t, ¬ st.Reserves p s t := by
    rintro (i | j) s t hp
    · have hr : (st.clients i).reserved? = some (s, t) := hp
      rw [h.clients] at hr
      cases hr
    · obtain ⟨k, hk, -⟩ := hp
      rw [h.workers] at hk
      cases hk
  have hown : ∀ i s c, ¬ st.Owns i s c := by
    intro i s c hp
    unfold State.Owns at hp
    rw [h.clients] at hp
    cases hp
  refine ⟨?_, ?_, ?_, ?_, ?_, ?_, ?_⟩
  · exact ⟨fun hp => absurd hp (hres _ _ _), fun hp => absurd hp (hres _ _ _),
      fun hp => absurd hp (hres _ _ _)⟩
  · exact ⟨fun hp => absurd hp (hown _ _ _), fun hp => absurd hp (hown _ _ _),
      fun hp => absurd hp (hown _ _ _)⟩
  · intro i pc id hc
    rw [h.clients] at hc
    cases hc
  · intro i pc s hc
    rw [h.clients] at hc
    cases hc
  · intro j t hj
    rw [h.workers] at hj
    cases hj
  · intro i id s l rest hc
    rw [h.clients] at hc
    cases hc
  · intro j t hj
    rw [h.workers] at hj
    cases hj

/-! ## What follows for one slot -/

namespace LockInv

variable {i i' j j' s : Nat} {claim claim' : Int32} {pc : OpenPC} {t t' : Task}

/-- **Two claims never share a slot.** -/
theorem owner_unique (h : LockInv st) (hi : st.Owns i s claim) (hi' : st.Owns i' s claim') :
    i = i' ∧ claim = claim' :=
  ⟨h.own.unique hi hi', h.own.tag_eq hi hi'⟩

theorem worker_reserves (hj : st.workers j = some t) (hres : t.op.reserving = true) :
    st.Reserves (.worker j) t.slot t.claim := ⟨t, hj, rfl, rfl, hres⟩

theorem client_reserves (hc : st.clients i = .opening pc)
    (hr : pc.reserved? = some (s, claim)) : st.Reserves (.client i) s claim := by
  show (st.clients i).reserved? = some (s, claim)
  rw [hc]
  exact hr

/-- No worker is in a guarded operation on a slot that an opener has reserved. -/
theorem no_worker (h : LockInv st) (hc : st.clients i = .opening pc)
    (hr : pc.reserved? = some (s, claim)) (hj : st.workers j = some t) (hs : t.slot = s) :
    t.op.reserving = false := by
  by_contra hne
  have hres := worker_reserves hj (Bool.not_eq_false _ ▸ hne)
  rw [hs] at hres
  exact absurd (h.reserve.unique (client_reserves hc hr) hres) nofun

/-- At most one worker is in a guarded operation on a slot. -/
theorem worker_unique (h : LockInv st) (hj : st.workers j = some t) (hj' : st.workers j' = some t')
    (hs : t.slot = t'.slot) (hres : t.op.reserving = true) (hres' : t'.op.reserving = true) :
    j = j' := by
  have h1 := worker_reserves hj hres
  have h2 := worker_reserves hj' hres'
  rw [hs] at h1
  exact Party.worker.inj (h.reserve.unique h1 h2)

/-- A worker that works on the ring of a claimed slot serves that claim. -/
theorem critical_claim (h : LockInv st) (hi : st.Owns i s claim) (hj : st.workers j = some t)
    (hs : t.slot = s) (hcrit : t.op.critical = true) : t.claim = claim := by
  have hst : st.lanes .state s = claim := h.own.tag hi
  subst hs
  rcases h.critical j t hj hcrit with hc | hc
  · exact hc.symm.trans hst
  · exact absurd (hst.symm.trans hc) (h.own.live hi)

end LockInv

/-! ## A state in which one client and one slot have changed -/

section Update

variable {s s' i k : Nat} {u v : Int32} {sl : Slot Cell} {c : Client} {l l' : Lane} {p : Party}

theorem reserves_setClient (hp : ((st.setSlot s sl).setClient i c).Reserves p s' u) :
    (st.Reserves p s' u ∧ p ≠ .client i) ∨ (p = .client i ∧ c.reserved? = some (s', u)) := by
  cases p with
  | client k =>
    have hk : (((st.setSlot s sl).setClient i c).clients k).reserved? = some (s', u) := hp
    by_cases hki : k = i
    · subst hki
      rw [State.setClient_clients_self] at hk
      exact .inr ⟨rfl, hk⟩
    · rw [State.setClient_clients_ne _ _ hki] at hk
      exact .inl ⟨hk, fun he => hki (Party.client.inj he)⟩
  | worker j => exact .inl ⟨hp, nofun⟩

theorem owns_setClient (hk : ((st.setSlot s sl).setClient i c).Owns k s' u) :
    (st.Owns k s' u ∧ k ≠ i) ∨ (k = i ∧ c.owned? = some (s', u)) := by
  unfold State.Owns at hk
  by_cases hki : k = i
  · subst hki
    rw [State.setClient_clients_self] at hk
    exact .inr ⟨rfl, hk⟩
  · rw [State.setClient_clients_ne _ _ hki] at hk
    exact .inl ⟨hk, hki⟩

theorem lanes_setSlot_ne (hs : s' ≠ s) :
    ((st.setSlot s sl).setClient i c).lanes l s' = st.lanes l s' := by
  unfold State.lanes
  rw [State.setClient_slots, State.setSlot_slots_ne _ _ hs]

theorem lanes_setSlot_self : ((st.setSlot s sl).setClient i c).lanes l s = sl.lane l := by
  unfold State.lanes
  rw [State.setClient_slots, State.setSlot_slots_self]

/-- A lane that the slot's change leaves alone. -/
theorem lanes_setSlot (hl : sl.lane l = (st.slots s).lane l) (s' : Nat) :
    ((st.setSlot s sl).setClient i c).lanes l s' = st.lanes l s' := by
  by_cases hs : s' = s
  · subst hs
    rw [lanes_setSlot_self, hl]
    rfl
  · exact lanes_setSlot_ne hs

end Update

/-! ## The moves of a client -/

namespace LockInv

variable {i s : Nat} {claim id : Int32} {pc pc' : OpenPC} {c c' : Client} {sl : Slot Cell}

/-- A client moves, changing one slot: the two locks are given, and `STATE` only
goes to zero, or changes in a slot that nobody else is clearing or working on. -/
theorem of_move (h : LockInv st)
    (hreserve : LockOk 0 (((st.setSlot s sl).setClient i c').lanes .reservation)
      ((st.setSlot s sl).setClient i c').Reserves)
    (hown : LockOk 0 (((st.setSlot s sl).setClient i c').lanes .state)
      ((st.setSlot s sl).setClient i c').Owns)
    (hid : ∀ pc id, c' = .opening pc → pc.id? = some id → id ≠ 0)
    (hclear : ∀ pc s', c' = .opening pc → pc.clearing? = some s' →
      ((st.setSlot s sl).setClient i c').lanes .state s' = 0)
    (hreset : ∀ id s l rest, c' = .opening (.reset id s l rest) → l :: rest <:+ resetLanes)
    (hstate : sl.lane .state = (st.slots s).lane .state ∨ sl.lane .state = 0 ∨
      ((∀ k pc, k ≠ i → st.clients k = .opening pc → pc.clearing? ≠ some s) ∧
        ∀ j t, st.workers j = some t → t.op.critical = true → t.slot ≠ s)) :
    LockInv ((st.setSlot s sl).setClient i c') := by
  have hself : ((st.setSlot s sl).setClient i c').clients i = c' :=
    State.setClient_clients_self ..
  have hother : ∀ k, k ≠ i → ((st.setSlot s sl).setClient i c').clients k = st.clients k :=
    fun k hk => State.setClient_clients_ne _ _ hk
  refine ⟨hreserve, hown, ?_, ?_, h.task, ?_, ?_⟩
  · intro k pc id hk
    by_cases hki : k = i
    · subst hki
      exact hid pc id (hself.symm.trans hk)
    · rw [hother k hki] at hk
      exact h.id k pc id hk
  · intro k pc s' hk hc
    by_cases hki : k = i
    · subst hki
      exact hclear pc s' (hself.symm.trans hk) hc
    · rw [hother k hki] at hk
      have hzero := h.clearing k pc s' hk hc
      by_cases hs : s' = s
      · subst hs
        rw [lanes_setSlot_self]
        rcases hstate with hst | hst | ⟨hfree, -⟩
        · exact hst.trans hzero
        · exact hst
        · exact absurd hc (hfree k pc hki hk)
      · rw [lanes_setSlot_ne hs]
        exact hzero
  · intro k id s' l rest hk
    by_cases hki : k = i
    · subst hki
      exact hreset id s' l rest (hself.symm.trans hk)
    · rw [hother k hki] at hk
      exact h.resetting k id s' l rest hk
  · intro j t hj hcrit
    have hold := h.critical j t hj hcrit
    by_cases hs : t.slot = s
    · rw [hs, lanes_setSlot_self]
      rw [hs] at hold
      rcases hstate with hst | hst | ⟨-, hfree⟩
      · rw [hst]
        exact hold
      · exact .inr hst
      · exact absurd hs (hfree j t hj hcrit)
    · rw [lanes_setSlot_ne hs]
      exact hold

/-- A client moves without taking or giving up a lock. -/
theorem of_quiet (h : LockInv st) (hres : sl.lane .reservation = (st.slots s).lane .reservation)
    (hst : sl.lane .state = (st.slots s).lane .state)
    (hr : c'.reserved? = (st.clients i).reserved?) (ho : c'.owned? = (st.clients i).owned?)
    (hid : ∀ pc id, c' = .opening pc → pc.id? = some id → id ≠ 0)
    (hclear : ∀ pc s', c' = .opening pc → pc.clearing? = some s' → st.lanes .state s' = 0)
    (hreset : ∀ id s l rest, c' = .opening (.reset id s l rest) → l :: rest <:+ resetLanes) :
    LockInv ((st.setSlot s sl).setClient i c') := by
  refine h.of_move ?_ ?_ hid ?_ hreset (.inl hst)
  · refine h.reserve.keep (lanes_setSlot hres) fun p s' u hp => ?_
    rcases reserves_setClient hp with ⟨hold, -⟩ | ⟨rfl, hc⟩
    · exact hold
    · exact hr.symm.trans hc
  · refine h.own.keep (lanes_setSlot hst) fun k s' u hk => ?_
    rcases owns_setClient hk with ⟨hold, -⟩ | ⟨rfl, hc⟩
    · exact hold
    · exact ho.symm.trans hc
  · intro pc s' hpc hc
    rw [lanes_setSlot hst]
    exact hclear pc s' hpc hc

/-- A client moves inside the slot it has claimed. -/
theorem of_holding {send send' : Option SendOp} {recv recv' : Option RecvOp} (h : LockInv st)
    (hc : st.clients i = .holding claim s send recv)
    (hres : sl.lane .reservation = (st.slots s).lane .reservation)
    (hst : sl.lane .state = (st.slots s).lane .state) :
    LockInv ((st.setSlot s sl).setClient i (.holding claim s send' recv')) := by
  refine h.of_quiet hres hst ?_ ?_ nofun nofun nofun
  · rw [hc]; rfl
  · rw [hc]; rfl

/-- An opener's compare-exchange finds the reservation free. -/
theorem of_reserve (h : LockInv st) (hc : st.clients i = .opening (.reserve id s))
    (hfree : (st.slots s).lane .reservation = 0) :
    LockInv ((st.setSlot s ((st.slots s).setLane .reservation id)).setClient i
      (.opening (.checkState id s))) := by
  have hid : id ≠ 0 := h.id i _ id hc rfl
  have hst : ((st.slots s).setLane .reservation id).lane .state = (st.slots s).lane .state :=
    Slot.setLane_lane_ne _ _ (by decide)
  refine h.of_move ?_ ?_ ?_ nofun nofun (.inl hst)
  · refine h.reserve.take (p := .client i) (k := s) (t := id) hfree hid ?_ ?_ ?_
    · rw [lanes_setSlot_self, Slot.setLane_lane_self]
    · exact fun s' hs => lanes_setSlot_ne hs
    · intro p s' u hp
      rcases reserves_setClient hp with ⟨hold, -⟩ | ⟨rfl, hr⟩
      · exact .inl hold
      · obtain ⟨rfl, rfl⟩ := Prod.mk.inj (Option.some.inj hr)
        exact .inr ⟨rfl, rfl, rfl⟩
  · refine h.own.keep (lanes_setSlot hst) fun k s' u hk => ?_
    rcases owns_setClient hk with ⟨hold, -⟩ | ⟨-, ho⟩
    · exact hold
    · cases ho
  · intro pc id' hpc hid'
    obtain rfl := Client.opening.inj hpc
    exact Option.some.inj hid' ▸ hid

/-- An opener gives the reservation back. -/
theorem of_unreserve (h : LockInv st) (hc : st.clients i = .opening pc)
    (hr : pc.reserved? = some (s, id)) (hr' : pc'.reserved? = none) (ho : pc'.owned? = pc.owned?)
    (hid : ∀ id', pc'.id? = some id' → id' = id) (hclear : pc'.clearing? = none)
    (hreset : ∀ id s l rest, pc' ≠ .reset id s l rest) :
    LockInv ((st.setSlot s ((st.slots s).setLane .reservation 0)).setClient i (.opening pc')) := by
  have hheld := client_reserves hc hr
  have hst : ((st.slots s).setLane .reservation 0).lane .state = (st.slots s).lane .state :=
    Slot.setLane_lane_ne _ _ (by decide)
  refine h.of_move ?_ ?_ ?_ ?_ ?_ (.inl hst)
  · refine h.reserve.drop hheld (fun s' hs => lanes_setSlot_ne hs) fun p s' u hp => ?_
    rcases reserves_setClient hp with hold | ⟨-, hnone⟩
    · exact hold
    · exact absurd (hr'.symm.trans hnone) nofun
  · refine h.own.keep (lanes_setSlot hst) fun k s' u hk => ?_
    rcases owns_setClient hk with ⟨hold, -⟩ | ⟨rfl, hown⟩
    · exact hold
    · unfold State.Owns
      rw [hc]
      exact ho.symm.trans hown
  · intro pc'' id' hpc hid'
    obtain rfl := Client.opening.inj hpc
    rw [hid id' hid']
    exact h.reserve.live hheld
  · intro pc'' s' hpc hcl
    obtain rfl := Client.opening.inj hpc
    exact absurd (hclear.symm.trans hcl) nofun
  · intro id' s' l rest hpc
    exact absurd (Client.opening.inj hpc) (hreset id' s' l rest)

/-- An opener publishes its claim. -/
theorem of_publish (h : LockInv st) (hc : st.clients i = .opening (.publish id s)) :
    LockInv ((st.setSlot s ((st.slots s).setLane .state id)).setClient i
      (.opening (.unlock id s))) := by
  have hid : id ≠ 0 := h.id i _ id hc rfl
  have hzero : st.lanes .state s = 0 := h.clearing i _ s hc rfl
  have hheld : st.Reserves (.client i) s id := client_reserves hc rfl
  have hres : ((st.slots s).setLane .state id).lane .reservation = (st.slots s).lane .reservation :=
    Slot.setLane_lane_ne _ _ (by decide)
  refine h.of_move ?_ ?_ ?_ nofun nofun (.inr (.inr ⟨?_, ?_⟩))
  · refine h.reserve.keep (lanes_setSlot hres) fun p s' u hp => ?_
    rcases reserves_setClient hp with ⟨hold, -⟩ | ⟨rfl, hr⟩
    · exact hold
    · obtain ⟨rfl, rfl⟩ := Prod.mk.inj (Option.some.inj hr)
      exact hheld
  · refine h.own.take (p := i) (k := s) (t := id) hzero hid ?_ ?_ ?_
    · rw [lanes_setSlot_self, Slot.setLane_lane_self]
    · exact fun s' hs => lanes_setSlot_ne hs
    · intro k s' u hk
      rcases owns_setClient hk with ⟨hold, -⟩ | ⟨rfl, ho⟩
      · exact .inl hold
      · obtain ⟨rfl, rfl⟩ := Prod.mk.inj (Option.some.inj ho)
        exact .inr ⟨rfl, rfl, rfl⟩
  · intro pc' id' hpc hid'
    obtain rfl := Client.opening.inj hpc
    exact Option.some.inj hid' ▸ hid
  · -- another opener clearing this slot would have reserved it
    intro k pc' hk hpc hcl
    obtain ⟨tag, htag⟩ : ∃ tag, pc'.reserved? = some (s, tag) := by
      cases pc' with
      | reset id' s' l rest => exact ⟨id', by rw [OpenPC.reserved?, ← Option.some.inj hcl]⟩
      | publish id' s' => exact ⟨id', by rw [OpenPC.reserved?, ← Option.some.inj hcl]⟩
      | _ => cases hcl
    exact hk (Party.client.inj (h.reserve.unique (client_reserves hpc htag) hheld))
  · intro j t hj hcrit hs
    have hidle := h.no_worker hc (show OpenPC.reserved? (.publish id s) = some (s, id) from rfl) hj hs
    exact absurd (hidle.symm.trans (WorkOp.reserving_of_critical hcrit)) nofun

/-- A client releases its claim. -/
theorem of_release (h : LockInv st) (hc : st.clients i = .holding claim s none none) :
    LockInv ((st.setSlot s ((st.slots s).setLane .state 0)).setClient i .idle) := by
  have howns : st.Owns i s claim := by
    unfold State.Owns
    rw [hc]
    rfl
  have hres : ((st.slots s).setLane .state 0).lane .reservation = (st.slots s).lane .reservation :=
    Slot.setLane_lane_ne _ _ (by decide)
  refine h.of_move ?_ ?_ nofun nofun nofun (.inr (.inl (Slot.setLane_lane_self ..)))
  · refine h.reserve.keep (lanes_setSlot hres) fun p s' u hp => ?_
    rcases reserves_setClient hp with ⟨hold, -⟩ | ⟨-, hr⟩
    · exact hold
    · cases hr
  · refine h.own.drop howns (fun s' hs => lanes_setSlot_ne hs) fun k s' u hk => ?_
    rcases owns_setClient hk with hold | ⟨-, ho⟩
    · exact hold
    · cases ho

/-- A client moves and changes no slot. -/
theorem of_client (h : LockInv st) (hr : c'.reserved? = (st.clients i).reserved?)
    (ho : c'.owned? = (st.clients i).owned?)
    (hid : ∀ pc id, c' = .opening pc → pc.id? = some id → id ≠ 0)
    (hclear : ∀ pc s', c' = .opening pc → pc.clearing? = some s' → st.lanes .state s' = 0)
    (hreset : ∀ id s l rest, c' = .opening (.reset id s l rest) → l :: rest <:+ resetLanes) :
    LockInv (st.setClient i c') := by
  rw [← st.setSlot_self 0]
  exact h.of_quiet rfl rfl hr ho hid hclear hreset

theorem probe_reserved (nSlots : Nat) (id : Int32) (s : Nat) :
    (OpenPC.probe nSlots id s).reserved? = none ∧ (OpenPC.probe nSlots id s).owned? = none ∧
      (OpenPC.probe nSlots id s).clearing? = none ∧
      (∀ id', (OpenPC.probe nSlots id s).id? = some id' → id' = id) ∧
      ∀ id' s' l rest, OpenPC.probe nSlots id s ≠ .reset id' s' l rest := by
  unfold OpenPC.probe
  split
  · exact ⟨rfl, rfl, rfl, fun _ h => (Option.some.inj h).symm, nofun⟩
  · exact ⟨rfl, rfl, rfl, nofun, nofun⟩

/-- What is left to reset is the end of the list of lanes, or the slot is clean. -/
theorem resetFrom_ok (id : Int32) (s : Nat) {lanes : List Lane} (h : lanes <:+ resetLanes) :
    (OpenPC.resetFrom id s lanes).reserved? = some (s, id) ∧
      (OpenPC.resetFrom id s lanes).owned? = none ∧
      (OpenPC.resetFrom id s lanes).clearing? = some s ∧
      (∀ id', (OpenPC.resetFrom id s lanes).id? = some id' → id' = id) ∧
      ∀ id' s' l rest, OpenPC.resetFrom id s lanes = .reset id' s' l rest →
        l :: rest <:+ resetLanes := by
  unfold OpenPC.resetFrom
  split
  · exact ⟨rfl, rfl, rfl, fun _ h => (Option.some.inj h).symm, nofun⟩
  · refine ⟨rfl, rfl, rfl, fun _ h => (Option.some.inj h).symm, ?_⟩
    intro id' s' l rest he
    obtain ⟨-, -, rfl, rfl⟩ := OpenPC.reset.inj he
    exact h

theorem ne_of_mem_resetLanes {l : Lane} (h : l ∈ resetLanes) : l ≠ .state ∧ l ≠ .reservation := by
  refine ⟨?_, ?_⟩
  · rintro rfl
    revert h
    decide
  · rintro rfl
    revert h
    decide

/-- A step of `slotOpen` on a slot. -/
theorem of_openStep {ins : Instr Cell OpenPC} (h : LockInv st) (hc : st.clients i = .opening pc)
    (hs : pc.slot? = some s) (hins : pc.next ch.nSlots = some ins) :
    LockInv ((st.setSlot s (ins.exec (st.slots s)).1).setClient i
      (.opening (ins.exec (st.slots s)).2)) := by
  cases pc with
  | addSeq => cases hins
  | reserve id s' =>
    obtain rfl := Option.some.inj hs
    obtain rfl := Option.some.inj hins
    obtain ⟨hr, ho, hcl, hid, hreset⟩ := probe_reserved ch.nSlots id (s' + 1)
    show LockInv ((st.setSlot s' (if (st.slots s').lane .reservation = 0 then _ else _)).setClient i
      (.opening (if (st.slots s').lane .reservation = 0 then _ else _)))
    split
    next hfree => exact h.of_reserve hc hfree
    next =>
      rw [st.setSlot_self]
      refine h.of_client ?_ ?_ ?_ ?_ ?_
      · rw [hc]; exact hr
      · rw [hc]; exact ho
      · intro pc id' hpc hid'
        obtain rfl := Client.opening.inj hpc
        rw [hid id' hid']
        exact h.id i _ id hc rfl
      · intro pc s hpc hs
        obtain rfl := Client.opening.inj hpc
        exact absurd (hcl.symm.trans hs) nofun
      · intro id' s l rest hpc
        exact absurd (Client.opening.inj hpc) (hreset id' s l rest)
  | checkState id s' =>
    obtain rfl := Option.some.inj hs
    obtain rfl := Option.some.inj hins
    show LockInv ((st.setSlot s' (st.slots s')).setClient i
      (.opening (if (st.slots s').lane .state ≠ 0 then _ else _)))
    rw [st.setSlot_self]
    split
    next =>
      refine h.of_client ?_ ?_ ?_ ?_ ?_
      · rw [hc]; rfl
      · rw [hc]; rfl
      · intro pc id' hpc hid'
        obtain rfl := Client.opening.inj hpc
        exact Option.some.inj hid' ▸ h.id i _ id hc rfl
      · intro pc s hpc hs
        obtain rfl := Client.opening.inj hpc
        cases hs
      · intro id' s l rest hpc
        cases Client.opening.inj hpc
    next hzero =>
      obtain ⟨hr, ho, hcl, hid, hreset⟩ := resetFrom_ok id s' (List.suffix_refl _)
      refine h.of_client ?_ ?_ ?_ ?_ ?_
      · rw [hc]; exact hr
      · rw [hc]; exact ho
      · intro pc id' hpc hid'
        obtain rfl := Client.opening.inj hpc
        rw [hid id' hid']
        exact h.id i _ id hc rfl
      · intro pc s hpc hs
        obtain rfl := Client.opening.inj hpc
        obtain rfl := Option.some.inj (hcl.symm.trans hs)
        exact not_not.mp hzero
      · intro id' s l rest hpc
        exact hreset id' s l rest (Client.opening.inj hpc)
  | unreserve id s' =>
    obtain rfl := Option.some.inj hs
    obtain rfl := Option.some.inj hins
    obtain ⟨hr, ho, hcl, hid, hreset⟩ := probe_reserved ch.nSlots id (s' + 1)
    exact h.of_unreserve hc rfl hr ho hid hcl hreset
  | reset id s' l rest =>
    obtain rfl := Option.some.inj hs
    obtain rfl := Option.some.inj hins
    have hsuffix := h.resetting i id s' l rest hc
    obtain ⟨hst, hres⟩ := ne_of_mem_resetLanes (hsuffix.subset (List.mem_cons_self ..))
    obtain ⟨hr, ho, hcl, hid, hreset⟩ :=
      resetFrom_ok id s' ((List.suffix_cons l rest).trans hsuffix)
    refine h.of_quiet (Slot.setLane_lane_ne _ _ hres.symm) (Slot.setLane_lane_ne _ _ hst.symm)
      ?_ ?_ ?_ ?_ ?_
    · rw [hc]; exact hr
    · rw [hc]; exact ho
    · intro pc id' hpc hid'
      obtain rfl := Client.opening.inj hpc
      rw [hid id' hid']
      exact h.id i _ id hc rfl
    · intro pc s hpc hs
      obtain rfl := Client.opening.inj hpc
      obtain rfl := Option.some.inj (hcl.symm.trans hs)
      exact h.clearing i _ s' hc rfl
    · intro id' s l rest hpc
      exact hreset id' s l rest (Client.opening.inj hpc)
  | publish id s' =>
    obtain rfl := Option.some.inj hs
    obtain rfl := Option.some.inj hins
    exact h.of_publish hc
  | unlock id s' =>
    obtain rfl := Option.some.inj hs
    obtain rfl := Option.some.inj hins
    exact h.of_unreserve hc rfl rfl rfl (fun _ h => (Option.some.inj h).symm) rfl nofun
  | opened id s' => cases hins
  | failed => cases hins

/-! ## The moves of a worker -/

/-- A worker's step, or the start or the return of its call (`sl` is then the
slot as it was). -/
theorem of_worker {j : Nat} {t' : Option Task} {sl : Slot Cell} (h : LockInv st)
    (hst : sl.lane .state = (st.slots s).lane .state)
    (hreserve : LockOk 0 (((st.setSlot s sl).setWorker j t').lanes .reservation)
      ((st.setSlot s sl).setWorker j t').Reserves)
    (htask : ∀ t, t' = some t → t.claim ≠ 0 ∧ t.op.LeavesOk)
    (hcrit : ∀ t, t' = some t → t.op.critical = true →
      st.lanes .state t.slot = t.claim ∨ st.lanes .state t.slot = 0) :
    LockInv ((st.setSlot s sl).setWorker j t') := by
  have hlane : ∀ s', ((st.setSlot s sl).setWorker j t').lanes .state s' = st.lanes .state s' := by
    intro s'
    unfold State.lanes
    rw [State.setWorker_slots]
    by_cases hs : s' = s
    · rw [hs, State.setSlot_slots_self, hst]
    · rw [State.setSlot_slots_ne _ _ hs]
  have hself : ((st.setSlot s sl).setWorker j t').workers j = t' := State.setWorker_workers_self ..
  refine ⟨hreserve, h.own.keep hlane fun _ _ _ hk => hk, h.id, ?_, ?_, h.resetting, ?_⟩
  · intro i pc s' hc hcl
    rw [hlane]
    exact h.clearing i pc s' hc hcl
  · intro j' t hj
    by_cases hjj : j' = j
    · subst hjj
      exact htask t (hself.symm.trans hj)
    · rw [State.setWorker_workers_ne _ _ hjj] at hj
      exact h.task j' t hj
  · intro j' t hj hc
    rw [hlane]
    by_cases hjj : j' = j
    · subst hjj
      exact hcrit t (hself.symm.trans hj) hc
    · rw [State.setWorker_workers_ne _ _ hjj] at hj
      exact h.critical j' t hj hc

theorem reserves_setWorker {p : Party} {j s s' : Nat} {u : Int32} {sl : Slot Cell}
    {t' : Option Task} (hp : ((st.setSlot s sl).setWorker j t').Reserves p s' u) :
    (st.Reserves p s' u ∧ p ≠ .worker j) ∨ (p = .worker j ∧ ∃ k, t' = some k ∧ k.slot = s' ∧
      k.claim = u ∧ k.op.reserving = true) := by
  cases p with
  | client i => exact .inl ⟨hp, nofun⟩
  | worker j' =>
    obtain ⟨k, hk, hrest⟩ := hp
    by_cases hjj : j' = j
    · subst hjj
      rw [State.setWorker_workers_self] at hk
      exact .inr ⟨rfl, k, hk, hrest⟩
    · rw [State.setWorker_workers_ne _ _ hjj] at hk
      exact .inl ⟨⟨k, hk, hrest⟩, fun he => hjj (Party.worker.inj he)⟩

/-- A worker that is outside its guarded operation moves and changes no slot. -/
theorem of_idle_worker {j : Nat} {t' : Option Task} (h : LockInv st)
    (htask : ∀ t, t' = some t → t.claim ≠ 0 ∧ t.op.LeavesOk)
    (hidle : ∀ t, t' = some t → t.op.reserving = false) : LockInv (st.setWorker j t') := by
  rw [← st.setSlot_self 0]
  refine h.of_worker rfl ?_ htask fun t ht hc => ?_
  · refine h.reserve.keep (fun s' => ?_) fun p s' u hp => ?_
    · rw [st.setSlot_self]
      rfl
    · rcases reserves_setWorker hp with ⟨hold, -⟩ | ⟨-, k, hk, -, -, hres⟩
      · exact hold
      · exact absurd ((hidle k hk).symm.trans hres) nofun
  · exact absurd ((hidle t ht).symm.trans (WorkOp.reserving_of_critical hc)) nofun

/-- A step of a worker's call. -/
theorem of_workStep {j : Nat} {t : Task} {ins : Instr Cell WorkOp} (h : LockInv st)
    (hj : st.workers j = some t) (hins : t.op.next ch t.claim = some ins) :
    LockInv ((st.setSlot t.slot (ins.exec (st.slots t.slot)).1).setWorker j
      (some { t with op := (ins.exec (st.slots t.slot)).2 })) := by
  obtain ⟨hclaim, hleaves⟩ := h.task j t hj
  have hst := WorkOp.step_state hins (st.slots t.slot)
  obtain ⟨hlock, hcrit, hleaves'⟩ := WorkOp.step_lock hleaves hins (st.slots t.slot)
  generalize hsl : (ins.exec (st.slots t.slot)).1 = sl at hst hlock
  generalize (ins.exec (st.slots t.slot)).2 = op' at hlock hcrit hleaves'
  have hself : ((st.setSlot t.slot sl).setWorker j (some { t with op := op' })).lanes .reservation
      t.slot = sl.lane .reservation := by
    unfold State.lanes
    rw [State.setWorker_slots, State.setSlot_slots_self]
  have hother : ∀ s', s' ≠ t.slot →
      ((st.setSlot t.slot sl).setWorker j (some { t with op := op' })).lanes .reservation s'
        = st.lanes .reservation s' := by
    intro s' hs
    unfold State.lanes
    rw [State.setWorker_slots, State.setSlot_slots_ne _ _ hs]
  refine h.of_worker hst ?_ ?_ ?_
  · cases hlock with
    | keep hres hheld =>
      refine h.reserve.keep (fun s' => ?_) fun p s' u hp => ?_
      · by_cases hs : s' = t.slot
        · subst hs
          rw [hself]
          exact hres
        · exact hother s' hs
      · rcases reserves_setWorker hp with ⟨hold, -⟩ | ⟨rfl, k, hk, rfl, rfl, hres'⟩
        · exact hold
        · obtain rfl := Option.some.inj hk
          have hold := worker_reserves hj (hheld hres')
          exact hold
    | take hfree hres =>
      refine h.reserve.take (p := .worker j) (k := t.slot) (t := t.claim) hfree hclaim ?_ hother ?_
      · rw [hself]
        exact hres
      · intro p s' u hp
        rcases reserves_setWorker hp with ⟨hold, -⟩ | ⟨rfl, k, hk, rfl, rfl, -⟩
        · exact .inl hold
        · obtain rfl := Option.some.inj hk
          exact .inr ⟨rfl, rfl, rfl⟩
    | drop hheld hidle hres =>
      refine h.reserve.drop (worker_reserves hj hheld) hother fun p s' u hp => ?_
      rcases reserves_setWorker hp with hold | ⟨-, k, hk, -, -, hres'⟩
      · exact hold
      · obtain rfl := Option.some.inj hk
        exact absurd (hidle.symm.trans hres') nofun
  · intro k hk
    obtain rfl := Option.some.inj hk
    exact ⟨hclaim, hleaves'⟩
  · intro k hk hc
    obtain rfl := Option.some.inj hk
    rcases hcrit hc with hold | hnow
    · exact h.critical j t hj hold
    · exact .inl hnow

end LockInv

/-- **Every event keeps both locks.** -/
theorem lockInv_step {e : Event} (h : LockInv st) (hstep : ch.step st e = some st') :
    LockInv st' := by
  cases step_moved hstep with
  | openSlot hc =>
    refine h.of_client ?_ ?_ ?_ ?_ nofun
    · rw [hc]; rfl
    · rw [hc]; rfl
    · intro pc id hpc hid
      obtain rfl := Client.opening.inj hpc
      cases hid
    · intro pc s hpc hs
      obtain rfl := Client.opening.inj hpc
      cases hs
  | addSeq hc =>
    have h' : LockInv { st with claimSeq := st.claimSeq + 1 } :=
      ⟨h.reserve, h.own, h.id, h.clearing, h.task, h.resetting, h.critical⟩
    obtain ⟨hr, ho, hcl, hid, hreset⟩ := LockInv.probe_reserved ch.nSlots (nextClaim st.claimSeq) 0
    refine h'.of_client ?_ ?_ ?_ ?_ ?_
    · exact hr.trans (by rw [hc]; rfl)
    · exact ho.trans (by rw [hc]; rfl)
    · intro pc id' hpc hid'
      obtain rfl := Client.opening.inj hpc
      rw [hid id' hid']
      exact nextClaim_ne_zero _
    · intro pc s hpc hs
      obtain rfl := Client.opening.inj hpc
      exact absurd (hcl.symm.trans hs) nofun
    · intro id' s l rest hpc
      exact absurd (Client.opening.inj hpc) (hreset id' s l rest)
  | opened hc =>
    refine h.of_client ?_ ?_ nofun nofun nofun
    · rw [hc]; rfl
    · rw [hc]; rfl
  | failed hc =>
    refine h.of_client ?_ ?_ nofun nofun nofun
    · rw [hc]; rfl
    · rw [hc]; rfl
  | openStep hc hs hins => exact h.of_openStep hc hs hins
  | release hc => exact h.of_release hc
  | send hc =>
    rw [← st.setSlot_self]
    exact h.of_holding hc rfl rfl
  | sendStep hc hins =>
    exact h.of_holding hc (SendOp.step_lane hins _ nofun nofun)
      (SendOp.step_lane hins _ nofun nofun)
  | sendReturn hc hdone =>
    rw [← st.setSlot_self]
    exact h.of_holding hc rfl rfl
  | recv hc =>
    rw [← st.setSlot_self]
    exact h.of_holding hc rfl rfl
  | recvStep hc hins =>
    exact h.of_holding hc (RecvOp.step_lane hins _ nofun) (RecvOp.step_lane hins _ nofun)
  | recvReturn hc hdone =>
    rw [← st.setSlot_self]
    exact h.of_holding hc rfl rfl
  | work hj hclaim =>
    obtain ⟨hres, -, hleaves⟩ := WorkCall.start_idle _ _
    refine h.of_idle_worker ?_ ?_
    · intro t ht
      obtain rfl := Option.some.inj ht
      exact ⟨hclaim, hleaves⟩
    · intro t ht
      obtain rfl := Option.some.inj ht
      exact hres
  | workStep hj hins => exact h.of_workStep hj hins
  | workReturn hj hdone => exact h.of_idle_worker nofun nofun

/-- **In every run both words of every slot are locks.** -/
theorem lockInv_run {ok : State → Event → Prop} {st₀ : State} {es : List Event} (h0 : Init st₀)
    (hrun : Run ch.step ok st₀ es st) : LockInv st :=
  hrun.invariant (lockInv_init h0) fun _ _ _ hi _ hs => lockInv_step hi hs

end Channel

end Haybarn.Sab
