import Haybarn.Http.Tenancy

/-!
# The steps of a caller

A step of a call changes the call and its slot, and what else it does is in its effect.
`Moves` says this once; the invariant is then kept by five kinds of step: a holder that
stays, a holder that leaves its slot free, a holder that abandons it, a call that leaves the
slot alone, and the two compare-exchanges by which a call outside changes a slot.
-/

namespace Haybarn.Http

variable {web : Web} {st st' : Mailbox} {c d : CallId} {s : Nat} {σ : Slot} {x : Call}
  {m : Move Call}

/-! ## Small facts -/

@[simp] theorem state_release : σ.release.state = .free := rfl

theorem Agrees.busy (h : Agrees c x σ) (hx : x.pc.holding = true) : σ.state ≠ .free := by
  unfold Agrees at h
  intro hfree
  rw [hfree] at h
  cases hpc : x.pc <;> rw [hpc] at h hx <;> simp_all [CallPC.holding]

/-- A serve that is at work is in a slot that is not at rest. -/
theorem Fits.not_resting {pc : ServePC} (h : Fits σ pc) (hpc : pc.active = true) :
    ¬ σ.state.resting := by
  cases pc <;> simp_all [Fits, ServePC.active, State.resting]
  all_goals rcases h.1 with h | h <;> simp [h]

theorem Fits.inactive {pc : ServePC} (h : Fits σ pc) (hrest : σ.state.resting) :
    pc.active = false :=
  Bool.eq_false_iff.mpr fun hpc => h.not_resting hpc hrest

theorem Fits.congr {σ' : Slot} {pc : ServePC} (h : Fits σ pc) (hstate : σ'.state = σ.state)
    (hcopied : σ'.copied = σ.copied) : Fits σ' pc := by
  unfold Fits at h ⊢
  rw [hstate, hcopied]
  exact h

/-- A slot at rest may go from any such state to any other. -/
theorem Fits.of_resting {σ' : Slot} {pc : ServePC} (h : Fits σ pc) (hrest : σ.state.resting)
    (hrest' : σ'.state.resting) : Fits σ' pc := by
  have hpc := h.inactive hrest
  cases pc with
  | idle | claim => exact hrest'
  | checkAbandoned _ | freeSlot _ => exact ⟨hrest', h.2⟩
  | _ => cases hpc

theorem SlotInv.busy (h : SlotInv web st s) (hc : (st.slots s).holder = some c) :
    (st.slots s).state ≠ .free :=
  (h.held c hc).2.2.busy (h.held c hc).1

/-- Nobody holds a free slot. -/
theorem SlotInv.nobody (h : SlotInv web st s) (hfree : (st.slots s).state = .free) :
    (st.slots s).holder = none := by
  cases hc : (st.slots s).holder with
  | none => rfl
  | some c => exact absurd hfree (h.busy hc)

theorem Produced.mono {fetches fetches' : List Fetch} {r : Request} {bytes : List UInt8}
    (h : Produced web fetches c r bytes) (hf : ∀ f ∈ fetches, f ∈ fetches') :
    Produced web fetches' c r bytes := by
  obtain ⟨response, hbytes, hmem⟩ := h
  exact ⟨response, hbytes, hf _ hmem⟩

theorem Knows.mono {fetches fetches' : List Fetch} {r : Request} {pc : ServePC}
    (h : Knows web fetches c r pc) (hf : ∀ f ∈ fetches, f ∈ fetches') :
    Knows web fetches' c r pc := by
  unfold Knows at h ⊢
  split at h <;> first | exact h | exact h.mono hf

theorem Answered.mono (h : Answered web st c) (hbuffer : (st'.calls c).buffer = (st.calls c).buffer)
    (hrequest : (st'.calls c).request = (st.calls c).request)
    (hf : ∀ f ∈ st.fetches, f ∈ st'.fetches)
    (hb : ∀ b, (st.calls c).buffer = some b →
      (st'.buffers b).contents = (st.buffers b).contents) :
    Answered web st' c := by
  obtain ⟨b, bytes, hsome, hcontents, hproduced⟩ := h
  refine ⟨b, bytes, hbuffer.trans hsome, (hb b hsome).trans hcontents, ?_⟩
  rw [hrequest]
  exact hproduced.mono hf

theorem Client.of_same (h : Client web st s c) (hslot : st'.slots s = st.slots s)
    (hserve : st'.serves s = st.serves s) (hcall : st'.calls c = st.calls c)
    (hf : ∀ f ∈ st.fetches, f ∈ st'.fetches)
    (hb : ∀ b, (st.calls c).buffer = some b →
      (st'.buffers b).contents = (st.buffers b).contents) :
    Client web st' s c := by
  refine ⟨?_, ?_, ?_, ?_, ?_, ?_, ?_⟩
  · rw [hslot]
    exact h.url
  · rw [hcall]
    exact h.slot
  · rw [hslot, hcall]
    exact h.here
  · rw [hcall, hserve]
    exact h.knows.mono hf
  · rw [hslot, hcall]
    exact h.lent
  · rw [hserve, hcall]
    exact h.writes
  · rw [hserve]
    exact fun hpc => (h.written hpc).mono (by rw [hcall]) (by rw [hcall]) hf hb

/-- A step elsewhere: the slot, its serve and the calls that use it are as they were. -/
theorem SlotInv.of_same (h : SlotInv web st s) (hslot : st'.slots s = st.slots s)
    (hserve : st'.serves s = st.serves s)
    (hcall : ∀ c, (st.calls c).slot = s → st'.calls c = st.calls c)
    (hf : ∀ f ∈ st.fetches, f ∈ st'.fetches)
    (hb : ∀ c, (st.calls c).slot = s → ∀ b, (st.calls c).buffer = some b →
      (st'.buffers b).contents = (st.buffers b).contents) :
    SlotInv web st' s := by
  refine ⟨?_, ?_, ?_, ?_, ?_, ?_⟩
  · rw [hslot, hserve]
    exact h.fits
  · intro c hc
    rw [hslot] at hc ⊢
    rw [hcall c (h.held c hc).2.1]
    exact h.held c hc
  · rw [hslot]
    exact h.vacant
  · rw [hserve]
    intro hactive
    obtain ⟨c, hc⟩ := h.client hactive
    exact ⟨c, hc.of_same hslot hserve (hcall c hc.slot) hf (hb c hc.slot)⟩
  · rw [hserve, hslot]
    exact h.freeing
  · intro c hc hdone
    rw [hslot] at hc hdone
    have hat := (h.held c hc).2.1
    exact (h.answered c hc hdone).mono (by rw [hcall c hat]) (by rw [hcall c hat]) hf (hb c hat)

/-! ## What a step of a call changes -/

structure Moves (st st' : Mailbox) (c : CallId) (m : Move Call) : Prop where
  calls : st'.calls = Function.update st.calls c m.who
  slots : st'.slots = Function.update st.slots (st.calls c).slot m.slot
  serves : st'.serves = st.serves
  fetches : st'.fetches = st.fetches
  fresh : st.fresh ≤ st'.fresh
  contents : ∀ b < st.fresh, (st'.buffers b).contents = (st.buffers b).contents
  freed : ∀ b < st.fresh, (st'.buffers b).freed = true →
    (st.buffers b).freed = true ∨ m.effect = .free b

/-- The effects of a caller. -/
def Effect.own : Effect → Prop
  | .write .. | .fetched _ => False
  | _ => True

theorem moveCall_moves (h : m.effect.own) : Moves st (st.moveCall c m) c m := by
  unfold Mailbox.moveCall
  cases heffect : m.effect with
  | nothing => exact ⟨rfl, rfl, rfl, rfl, Nat.le_refl _, fun _ _ => rfl, fun _ _ => .inl⟩
  | unready => exact ⟨rfl, rfl, rfl, rfl, Nat.le_refl _, fun _ _ => rfl, fun _ _ => .inl⟩
  | alloc size =>
    refine ⟨rfl, rfl, rfl, rfl, Nat.le_succ _, fun b hb => ?_, fun b hb => ?_⟩
    all_goals
      dsimp only [Mailbox.apply]
      rw [Function.update_of_ne (Nat.ne_of_lt hb)]
    exact .inl
  | free b₀ =>
    refine ⟨rfl, rfl, rfl, rfl, Nat.le_refl _, fun b _ => ?_, fun b _ hfreed => ?_⟩
    all_goals dsimp only [Mailbox.apply] at *
    · by_cases hb : b = b₀
      · rw [hb, Function.update_self]
      · rw [Function.update_of_ne hb]
    · by_cases hb : b = b₀
      · exact .inr (hb ▸ heffect)
      · rw [Function.update_of_ne hb] at hfreed
        exact .inl hfreed
  | write b bytes => rw [heffect] at h; cases h
  | fetched f => rw [heffect] at h; cases h

namespace Moves

variable (h : Moves st st' c m)
include h

theorem call_self : st'.calls c = m.who := by rw [h.calls, Function.update_self]

theorem call_ne (hd : d ≠ c) : st'.calls d = st.calls d := by
  rw [h.calls, Function.update_of_ne hd]

theorem slot_self : st'.slots (st.calls c).slot = m.slot := by rw [h.slots, Function.update_self]

theorem slot_ne (hs : s ≠ (st.calls c).slot) : st'.slots s = st.slots s := by
  rw [h.slots, Function.update_of_ne hs]

theorem mem_fetches : ∀ f ∈ st.fetches, f ∈ st'.fetches := by
  rw [h.fetches]
  exact fun _ hf => hf

/-- Who has let go of its buffer has let go of it before, unless this step frees it. -/
theorem was_freed (hi : Inv web st) (heffect : ∀ b, m.effect ≠ .free b) {b : BufferId}
    (hb : (st.calls c).buffer = some b) (hfreed : (st'.buffers b).freed = true) :
    (st.calls c).pc = .leave .failed ∨ (st.calls c).pc = .returned .failed ∨
      (st.calls c).pc = .returned .ok :=
  (hi.call c).freed b hb
    ((h.freed b ((hi.call c).allocated b hb) hfreed).resolve_right (heffect b))

/-- The other slots. -/
theorem slotInv_ne (hi : Inv web st) (hs : s ≠ (st.calls c).slot) : SlotInv web st' s := by
  refine (hi.slot s).of_same (h.slot_ne hs) (by rw [h.serves]) ?_ h.mem_fetches ?_
  · intro d hd
    apply h.call_ne
    rintro rfl
    exact hs hd.symm
  · exact fun d _ b hb => h.contents b ((hi.call d).allocated b hb)

end Moves

/-! ## The slot of the call -/

theorem Agrees.inputs (h : Agrees c x σ) (hstate : σ.state ≠ .claimed) : Inputs c x.request σ := by
  unfold Agrees at h
  cases hx : x.pc <;> rw [hx] at h
  all_goals first
    | exact absurd h.1 hstate
    | exact h.2
    | exact h.2.1
    | exact h.2.2
    | exact h.2.2.2
    | exact h.2.2.2.2

/-- The client of a slot that is held is its holder. -/
theorem SlotInv.client_holder (h : SlotInv web st s) (hc : (st.slots s).holder = some c)
    (hactive : (st.serves s).pc.active = true) : Client web st s c := by
  obtain ⟨d, hd⟩ := h.client hactive
  obtain ⟨-, -, hagrees⟩ := h.held c hc
  have hclaimed : (st.slots s).state ≠ .claimed := by
    intro hstate
    apply h.fits.not_resting hactive
    rw [hstate]
    trivial
  have hurl := (hagrees.inputs hclaimed).url
  rw [hd.url] at hurl
  exact Option.some.inj hurl ▸ hd

namespace Moves

/-- A holder that stays. -/
theorem stay (h : Moves st st' c m) (hi : Inv web st) (hpc : (st.calls c).pc.holding = true)
    (hpc' : m.who.pc.holding = true) (hslot : m.who.slot = (st.calls c).slot)
    (hrequest : m.who.request = (st.calls c).request)
    (hbuffer : m.who.buffer = (st.calls c).buffer ∨ m.slot.state = .needsBuffer)
    (hholder : m.slot.holder = (st.slots (st.calls c).slot).holder)
    (hfits : Fits m.slot (st.serves (st.calls c).slot).pc) (hagrees : Agrees c m.who m.slot)
    (hearly : (st.slots (st.calls c).slot).state.early → m.slot.state.early)
    (hdone : m.slot.state = .done → (st.slots (st.calls c).slot).state = .done)
    (hlent : m.slot.state = .bufferProvided → m.slot.buffer = m.who.buffer) :
    SlotInv web st' (st.calls c).slot := by
  have hs := hi.slot (st.calls c).slot
  have hholds : (st.slots (st.calls c).slot).holder = some c := (hi.call c).holds hpc
  have hsame : m.slot.state ≠ .needsBuffer → Answered web st c → Answered web st' c := by
    intro hstate hold
    have hkeep := hbuffer.resolve_right hstate
    refine hold.mono ?_ ?_ h.mem_fetches fun b hb => h.contents b ((hi.call c).allocated b hb)
    · rw [h.call_self, hkeep]
    · rw [h.call_self, hrequest]
  refine ⟨?_, ?_, ?_, ?_, ?_, ?_⟩
  · rw [h.slot_self, h.serves]
    exact hfits
  · intro d hd
    rw [h.slot_self, hholder, hholds] at hd
    obtain rfl := Option.some.inj hd
    rw [h.slot_self, h.call_self]
    exact ⟨hpc', hslot, hagrees⟩
  · intro hnone
    rw [h.slot_self, hholder, hholds] at hnone
    cases hnone
  · intro hactive
    rw [h.serves] at hactive
    have hclient := hs.client_holder hholds hactive
    have hclaimed : m.slot.state ≠ .claimed := by
      intro hstate
      apply hfits.not_resting hactive
      rw [hstate]
      trivial
    refine ⟨c, ?_, ?_, ?_, ?_, ?_, ?_, ?_⟩
    · rw [h.slot_self]
      exact (hagrees.inputs hclaimed).url
    · rw [h.call_self, hslot]
    · rw [h.slot_self, hholder]
      exact .inl hholds
    · rw [h.call_self, hrequest, h.serves, h.fetches]
      exact hclient.knows
    · rw [h.slot_self, h.call_self]
      exact hlent
    · intro b bytes hwrite
      rw [h.serves] at hwrite
      rw [hwrite] at hfits
      have hstate : m.slot.state ≠ .needsBuffer := by
        rw [hfits.1]
        decide
      rw [h.call_self, hbuffer.resolve_right hstate]
      exact hclient.writes b bytes hwrite
    · intro hfinish
      rw [h.serves] at hfinish
      rw [hfinish] at hfits
      have hstate : m.slot.state ≠ .needsBuffer := by
        rcases hfits.1 with hstate | hstate <;> rw [hstate] <;> decide
      exact hsame hstate (hclient.written hfinish)
  · intro state hpc _
    rw [h.serves] at hpc
    rw [h.slot_self]
    apply hearly
    apply hs.freeing state hpc
    rw [hholds]
    nofun
  · intro d hd hstate
    rw [h.slot_self, hholder, hholds] at hd
    obtain rfl := Option.some.inj hd
    rw [h.slot_self] at hstate
    refine hsame ?_ (hs.answered c hholds (hdone hstate))
    rw [hstate]
    decide

/-- A holder that leaves its slot free. -/
theorem leave (h : Moves st st' c m) (hi : Inv web st)
    (hrest : (st.slots (st.calls c).slot).state.resting)
    (hslot : m.slot = (st.slots (st.calls c).slot).release) :
    SlotInv web st' (st.calls c).slot := by
  have hs := hi.slot (st.calls c).slot
  have hself := h.slot_self.trans hslot
  refine ⟨?_, ?_, ?_, ?_, ?_, ?_⟩
  · rw [hself, h.serves]
    exact hs.fits.of_resting hrest trivial
  · intro d hd
    rw [hself] at hd
    cases hd
  · intro _
    rw [hself, state_release]
    exact ⟨by decide, by decide, fun hne => absurd rfl hne⟩
  · intro hactive
    rw [h.serves] at hactive
    exact absurd hrest (hs.fits.not_resting hactive)
  · intro _ _ hheld
    rw [hself] at hheld
    exact absurd rfl hheld
  · intro d hd
    rw [hself] at hd
    cases hd

/-- A holder that abandons its slot. -/
theorem abandons (h : Moves st st' c m) (hi : Inv web st)
    (hpc : (st.calls c).pc = .abandon) (hwho : m.who = { st.calls c with pc := .sweep finished })
    (hslot : m.slot = { st.slots (st.calls c).slot with abandoned := true, holder := none }) :
    SlotInv web st' (st.calls c).slot := by
  have hs := hi.slot (st.calls c).slot
  have hself := h.slot_self.trans hslot
  have hcall := h.call_self.trans hwho
  have hholds : (st.slots (st.calls c).slot).holder = some c :=
    (hi.call c).holds (by rw [hpc]; rfl)
  have hagrees := (hs.held c hholds).2.2
  rw [Agrees, hpc] at hagrees
  obtain ⟨-, hclaimed, hrequest, hcopied, -⟩ := hagrees
  refine ⟨?_, ?_, ?_, ?_, ?_, ?_⟩
  · rw [hself, h.serves]
    exact hs.fits.congr rfl rfl
  · intro d hd
    rw [hself] at hd
    cases hd
  · intro _
    rw [hself]
    exact ⟨hclaimed, hrequest, fun _ => ⟨hcopied, rfl⟩⟩
  · intro hactive
    rw [h.serves] at hactive
    have hclient := hs.client_holder hholds hactive
    refine ⟨c, ?_, ?_, ?_, ?_, ?_, ?_, ?_⟩
    · rw [hself]
      exact hclient.url
    · rw [hcall]
    · rw [hcall]
      exact .inr trivial
    · rw [hcall, h.serves, h.fetches]
      exact hclient.knows
    · rw [hself, hcall]
      exact hclient.lent
    · rw [h.serves, hcall]
      exact hclient.writes
    · intro hfinish
      rw [h.serves] at hfinish
      refine (hclient.written hfinish).mono ?_ ?_ h.mem_fetches fun b hb =>
        h.contents b ((hi.call c).allocated b hb)
      · rw [hcall]
      · rw [hcall]
  · intro _ _ hheld
    rw [hself] at hheld
    exact absurd rfl hheld
  · intro d hd
    rw [hself] at hd
    cases hd

end Moves

/-! ## Calls that do not hold the slot -/

theorem Inv.not_holder (hi : Inv web st) (hpc : (st.calls c).pc.holding = false)
    (hd : (st.slots s).holder = some d) : d ≠ c := by
  rintro rfl
  have hholds := ((hi.slot s).held d hd).1
  rw [hpc] at hholds
  cases hholds

namespace Moves

/-- A call that leaves the slot alone. -/
theorem outside (h : Moves st st' c m) (hi : Inv web st) (hpc : (st.calls c).pc.holding = false)
    (hslot : m.slot = st.slots (st.calls c).slot)
    (hgone : (st.calls c).gone → m.who.gone ∧ m.who.slot = (st.calls c).slot ∧
      m.who.buffer = (st.calls c).buffer ∧ m.who.request = (st.calls c).request) :
    SlotInv web st' (st.calls c).slot := by
  have hs := hi.slot (st.calls c).slot
  have hself := h.slot_self.trans hslot
  refine ⟨?_, ?_, ?_, ?_, ?_, ?_⟩
  · rw [hself, h.serves]
    exact hs.fits
  · intro d hd
    rw [hself] at hd ⊢
    rw [h.call_ne (hi.not_holder hpc hd)]
    exact hs.held d hd
  · rw [hself]
    exact hs.vacant
  · intro hactive
    rw [h.serves] at hactive
    obtain ⟨d, hd⟩ := hs.client hactive
    refine ⟨d, ?_⟩
    by_cases hdc : d = c
    · obtain rfl := hdc
      have hleft : (st.calls d).gone :=
        hd.here.resolve_left fun hheld => hi.not_holder hpc hheld rfl
      obtain ⟨hgone', hslot', hbuffer, hrequest⟩ := hgone hleft
      have hcall := h.call_self
      refine ⟨?_, ?_, ?_, ?_, ?_, ?_, ?_⟩
      · rw [hself]
        exact hd.url
      · rw [hcall, hslot']
      · rw [hcall]
        exact .inr hgone'
      · rw [hcall, hrequest, h.serves, h.fetches]
        exact hd.knows
      · rw [hself, hcall, hbuffer]
        exact hd.lent
      · rw [h.serves, hcall, hbuffer]
        exact hd.writes
      · intro hfinish
        rw [h.serves] at hfinish
        refine (hd.written hfinish).mono ?_ ?_ h.mem_fetches fun b hb =>
          h.contents b ((hi.call d).allocated b hb)
        · rw [hcall, hbuffer]
        · rw [hcall, hrequest]
    · exact hd.of_same hself (by rw [h.serves]) (h.call_ne hdc) h.mem_fetches fun b hb =>
        h.contents b ((hi.call d).allocated b hb)
  · rw [h.serves, hself]
    exact hs.freeing
  · intro d hd hdone
    rw [hself] at hd hdone
    have hdc := hi.not_holder hpc hd
    refine (hs.answered d hd hdone).mono ?_ ?_ h.mem_fetches fun b hb =>
      h.contents b ((hi.call d).allocated b hb)
    · rw [h.call_ne hdc]
    · rw [h.call_ne hdc]

/-- The compare-exchange that claims a slot. -/
theorem claims (h : Moves st st' c m) (hi : Inv web st)
    (hfree : (st.slots (st.calls c).slot).state = .free)
    (hwho : m.who = { st.calls c with pc := .fill 0 })
    (hslot : m.slot = { st.slots (st.calls c).slot with state := .claimed, holder := some c }) :
    SlotInv web st' (st.calls c).slot := by
  have hs := hi.slot (st.calls c).slot
  have hself := h.slot_self.trans hslot
  have hcall := h.call_self.trans hwho
  have hrest : (st.slots (st.calls c).slot).state.resting := by
    rw [hfree]
    trivial
  refine ⟨?_, ?_, ?_, ?_, ?_, ?_⟩
  · rw [hself, h.serves]
    exact hs.fits.of_resting hrest trivial
  · intro d hd
    rw [hself] at hd
    obtain rfl := Option.some.inj hd
    rw [hself, hcall]
    exact ⟨rfl, rfl, rfl, _, rfl⟩
  · intro hnone
    rw [hself] at hnone
    cases hnone
  · intro hactive
    rw [h.serves] at hactive
    exact absurd hrest (hs.fits.not_resting hactive)
  · intro _ _ _
    rw [hself]
    exact True.intro
  · intro d _ hdone
    rw [hself] at hdone
    cases hdone

/-- A compare-exchange after `ABANDONED` that finds its value. -/
theorem sweeps (h : Moves st st' c m) (hi : Inv web st)
    (hrest : (st.slots (st.calls c).slot).state.resting)
    (hnobody : (st.slots (st.calls c).slot).holder = none)
    (hslot : m.slot = { st.slots (st.calls c).slot with state := .free }) :
    SlotInv web st' (st.calls c).slot := by
  apply h.leave hi hrest
  rw [hslot, Slot.release, ← hnobody]

/-! ## The calls -/

/-- What holds of the calls after a step, from what the step does to its own call. -/
theorem callInv (h : Moves st st' c m) (hi : Inv web st)
    (hkept : ∀ d ≠ c, (st.slots (st.calls c).slot).holder = some d → m.slot.holder = some d)
    (hbuffer : m.who.buffer = (st.calls c).buffer ∨ m.who.buffer = none ∨
      m.who.buffer = some st.fresh ∧ st.fresh < st'.fresh)
    (hfree : ∀ b, m.effect = .free b → (st.calls c).buffer = some b)
    (hholds : m.who.pc.holding = true → (st'.slots m.who.slot).holder = some c)
    (hsweeps : ∀ rest, m.who.pc = .sweep rest → ∀ value ∈ rest, value ∈ finished)
    (hfreed : ∀ b, m.who.buffer = some b → (st'.buffers b).freed = true →
      m.who.pc = .leave .failed ∨ m.who.pc = .returned .failed ∨ m.who.pc = .returned .ok)
    (hok : m.who.pc = .returned .ok → Answered web st' c) (d : CallId) : CallInv web st' d := by
  by_cases hdc : d = c
  · obtain rfl := hdc
    have hcall := h.call_self
    refine ⟨?_, ?_, ?_, ?_, ?_, ?_⟩
    · rw [hcall]
      exact hholds
    · rw [hcall]
      exact hsweeps
    · intro b hb
      rw [hcall] at hb
      rcases hbuffer with hkeep | hnone | ⟨hfresh, hlt⟩
      · rw [hkeep] at hb
        exact Nat.lt_of_lt_of_le ((hi.call d).allocated b hb) h.fresh
      · rw [hnone] at hb
        cases hb
      · rw [hfresh] at hb
        exact Option.some.inj hb ▸ hlt
    · intro b e hb he
      rw [hcall] at hb
      by_cases hed : e = d
      · exact hed
      rw [h.call_ne hed] at he
      rcases hbuffer with hkeep | hnone | ⟨hfresh, -⟩
      · rw [hkeep] at hb
        exact (hi.call d).own b e hb he
      · rw [hnone] at hb
        cases hb
      · rw [hfresh] at hb
        have hlt := (hi.call e).allocated b he
        rw [Option.some.inj hb] at hlt
        exact absurd hlt (Nat.lt_irrefl _)
    · rw [hcall]
      exact hfreed
    · rw [hcall]
      exact hok
  · have hcall := h.call_ne hdc
    have hd := hi.call d
    refine ⟨?_, ?_, ?_, ?_, ?_, ?_⟩
    · intro hpc
      rw [hcall] at hpc ⊢
      have hold := hd.holds hpc
      by_cases hat : (st.calls d).slot = (st.calls c).slot
      · rw [hat] at hold ⊢
        rw [h.slot_self]
        exact hkept d hdc hold
      · rw [h.slot_ne hat]
        exact hold
    · rw [hcall]
      exact hd.sweeps
    · rw [hcall]
      exact fun b hb => Nat.lt_of_lt_of_le (hd.allocated b hb) h.fresh
    · intro b e hb he
      rw [hcall] at hb
      by_cases hec : e = c
      · rw [hec, h.call_self] at he
        rcases hbuffer with hkeep | hnone | ⟨hfresh, -⟩
        · rw [hkeep] at he
          exact hec.trans (hd.own b c hb he)
        · rw [hnone] at he
          cases he
        · rw [hfresh] at he
          have hlt := hd.allocated b hb
          rw [Option.some.inj he] at hlt
          exact absurd hlt (Nat.lt_irrefl _)
      · rw [h.call_ne hec] at he
        exact hd.own b e hb he
    · intro b hb hbfreed
      rw [hcall] at hb ⊢
      rcases h.freed b (hd.allocated b hb) hbfreed with hold | heffect
      · exact hd.freed b hb hold
      · exact absurd (hd.own b c hb (hfree b heffect)).symm hdc
    · intro hpc
      rw [hcall] at hpc
      refine (hd.ok hpc).mono ?_ ?_ h.mem_fetches fun b hb =>
        h.contents b (hd.allocated b hb)
      · rw [hcall]
      · rw [hcall]

end Moves

/-! ## One step of a call -/

theorem Call.step_own {ready : Bool} {fresh : BufferId} {luck : Luck}
    (h : x.step c ready fresh luck σ = some m) : m.effect.own := by
  unfold Call.step at h
  split at h
  case h_10 =>
    obtain rfl := Option.some.inj h
    dsimp only
    split <;> exact True.intro
  all_goals
    repeat' split at h
    all_goals first
      | (obtain rfl := Option.some.inj h; exact True.intro)
      | cases h

namespace Inv

variable (hi : Inv web st)
include hi

/-- A holder that stays in its slot, and keeps its buffer. -/
theorem of_stay (h : Moves st st' c m) (hpc : (st.calls c).pc.holding = true)
    (hleave : (st.calls c).pc ≠ .leave .failed) (hpc' : m.who.pc.holding = true)
    (hwho : m.who.slot = (st.calls c).slot ∧ m.who.request = (st.calls c).request ∧
      m.who.buffer = (st.calls c).buffer)
    (hholder : m.slot.holder = (st.slots (st.calls c).slot).holder)
    (heffect : ∀ b, m.effect ≠ .free b)
    (hfits : Fits m.slot (st.serves (st.calls c).slot).pc) (hagrees : Agrees c m.who m.slot)
    (hearly : (st.slots (st.calls c).slot).state.early → m.slot.state.early)
    (hdone : m.slot.state = .done → (st.slots (st.calls c).slot).state = .done)
    (hlent : m.slot.state = .bufferProvided → m.slot.buffer = m.who.buffer) :
    Inv web st' := by
  obtain ⟨hslot, hrequest, hbuffer⟩ := hwho
  have hholds := (hi.call c).holds hpc
  refine ⟨fun s => ?_, h.callInv hi ?_ (.inl hbuffer) ?_ ?_ ?_ ?_ ?_⟩
  · by_cases hs : s = (st.calls c).slot
    · rw [hs]
      exact h.stay hi hpc hpc' hslot hrequest (.inl hbuffer) hholder hfits hagrees
        hearly hdone hlent
    · exact h.slotInv_ne hi hs
  · intro d _ hd
    rw [hholder, hd]
  · intro b hb
    exact absurd hb (heffect b)
  · intro _
    rw [hslot, h.slot_self, hholder, hholds]
  · intro rest hrest
    rw [hrest] at hpc'
    cases hpc'
  · intro b hb hfreed
    rw [hbuffer] at hb
    rcases h.was_freed hi heffect hb hfreed with hold | hold | hold
    · exact absurd hold hleave
    all_goals
      rw [hold] at hpc
      cases hpc
  · intro hret
    rw [hret] at hpc'
    cases hpc'

/-- A holder that leaves its slot free. -/
theorem of_leave (h : Moves st st' c m) (hpc : (st.calls c).pc.holding = true)
    (hrest : (st.slots (st.calls c).slot).state.resting)
    (hslot : m.slot = (st.slots (st.calls c).slot).release)
    (hbuffer : m.who.buffer = (st.calls c).buffer) (heffect : ∀ b, m.effect ≠ .free b)
    (hpc' : m.who.pc.holding = false) (hsweep : ∀ rest, m.who.pc ≠ .sweep rest)
    (hleave : (st.calls c).pc = .leave .failed → m.who.pc = .returned .failed)
    (hok : m.who.pc = .returned .ok → Answered web st' c) : Inv web st' := by
  have hholds := (hi.call c).holds hpc
  refine ⟨fun s => ?_, h.callInv hi ?_ (.inl hbuffer) ?_ ?_ ?_ ?_ hok⟩
  · by_cases hs : s = (st.calls c).slot
    · rw [hs]
      exact h.leave hi hrest hslot
    · exact h.slotInv_ne hi hs
  · intro d hdc hd
    rw [hholds] at hd
    exact absurd (Option.some.inj hd).symm hdc
  · intro b hb
    exact absurd hb (heffect b)
  · intro hholding
    rw [hpc'] at hholding
    cases hholding
  · intro rest hrest'
    exact absurd hrest' (hsweep rest)
  · intro b hb hfreed
    rw [hbuffer] at hb
    rcases h.was_freed hi heffect hb hfreed with hold | hold | hold
    · exact .inr (.inl (hleave hold))
    all_goals
      rw [hold] at hpc
      cases hpc

/-- A call that does not hold its slot and leaves it alone. -/
theorem of_outside (h : Moves st st' c m) (hpc : (st.calls c).pc.holding = false)
    (hslot : m.slot = st.slots (st.calls c).slot)
    (hgone : (st.calls c).gone → m.who.gone ∧ m.who.slot = (st.calls c).slot)
    (hwho : m.who.buffer = (st.calls c).buffer ∧ m.who.request = (st.calls c).request)
    (heffect : ∀ b, m.effect ≠ .free b) (hpc' : m.who.pc.holding = false)
    (hsweeps : ∀ rest, m.who.pc = .sweep rest → ∀ value ∈ rest, value ∈ finished)
    (hreturned : (st.calls c).pc ≠ .returned .failed ∧ (st.calls c).pc ≠ .returned .ok)
    (hok : m.who.pc ≠ .returned .ok) : Inv web st' := by
  refine ⟨fun s => ?_, h.callInv hi ?_ (.inl hwho.1) ?_ ?_ hsweeps ?_ (fun hret => absurd hret hok)⟩
  · by_cases hs : s = (st.calls c).slot
    · rw [hs]
      exact h.outside hi hpc hslot fun hleft =>
        ⟨(hgone hleft).1, (hgone hleft).2, hwho.1, hwho.2⟩
    · exact h.slotInv_ne hi hs
  · intro d _ hd
    rw [hslot, hd]
  · intro b hb
    exact absurd hb (heffect b)
  · intro hholding
    rw [hpc'] at hholding
    cases hholding
  · intro b hb hfreed
    rw [hwho.1] at hb
    rcases h.was_freed hi heffect hb hfreed with hold | hold | hold
    · rw [hold] at hpc
      cases hpc
    · exact absurd hold hreturned.1
    · exact absurd hold hreturned.2

end Inv

theorem Fits.active {pc : ServePC} (h : Fits σ pc) (hbusy : ¬ σ.state.resting) :
    pc.active = true := by
  cases pc with
  | idle | claim => exact absurd h hbusy
  | checkAbandoned _ | freeSlot _ => exact absurd h.1 hbusy
  | _ => rfl

/-- The buffer lane holds the holder's buffer once it has been provided. -/
theorem Inv.lent (hi : Inv web st) (hpc : (st.calls c).pc.holding = true)
    (hstate : (st.slots (st.calls c).slot).state = .bufferProvided) :
    (st.slots (st.calls c).slot).buffer = (st.calls c).buffer := by
  have hs := hi.slot (st.calls c).slot
  have hactive := hs.fits.active (by rw [hstate]; exact id)
  exact (hs.client_holder ((hi.call c).holds hpc) hactive).lent hstate

/-- What the holder of a slot knows of it. -/
theorem Inv.agrees (hi : Inv web st) (hpc : (st.calls c).pc.holding = true) :
    Agrees c (st.calls c) (st.slots (st.calls c).slot) :=
  ((hi.slot _).held c ((hi.call c).holds hpc)).2.2

theorem Inv.at_pc (hi : Inv web st) {pc : CallPC} (hpc : (st.calls c).pc = pc)
    (hholding : pc.holding = true) : (st.calls c).pc.holding = true ∧
      Agrees c { st.calls c with pc } (st.slots (st.calls c).slot) := by
  obtain rfl := hpc
  exact ⟨hholding, hi.agrees hholding⟩

theorem Filled.succ {r : Request} {k : Nat} {store : Slot → Slot} (h : Filled c r k σ)
    (hstore : (fills c r)[k]? = some store) : Filled c r (k + 1) (store σ) := by
  obtain ⟨σ₀, hσ⟩ := h
  refine ⟨σ₀, ?_⟩
  rw [List.take_add_one, hstore, List.foldl_append, ← hσ]
  rfl

/-- All lanes are filled before the request is posted. -/
theorem Filled.inputs {r : Request} {k : Nat} (h : Filled c r k σ) (hk : (fills c r)[k]? = none) :
    Inputs c r { σ with state := .request } ∧ σ.copied = false := by
  obtain ⟨σ₀, rfl⟩ := h
  rw [List.take_of_length_le (List.getElem?_eq_none_iff.mp hk)]
  exact ⟨⟨rfl, rfl, rfl, rfl, rfl, rfl, rfl, rfl, rfl, fun _ => rfl⟩, rfl⟩

/-- The stores leave the state lane and the holder alone. -/
theorem fills_keep {r : Request} {store : Slot → Slot} (h : store ∈ fills c r) (σ : Slot) :
    (store σ).state = σ.state ∧ (store σ).holder = σ.holder := by
  simp only [fills, List.mem_cons, List.not_mem_nil, or_false] at h
  rcases h with rfl | rfl | rfl | rfl | rfl | rfl | rfl | rfl | rfl | rfl | rfl | rfl | rfl <;>
    exact ⟨rfl, rfl⟩

/-- Where the switch of the waiting loop goes. -/
theorem Inputs.dispatch (h : Inputs c x.request σ) (hfree : σ.state ≠ .free)
    (hclaimed : σ.state ≠ .claimed) : Agrees c { x with pc := dispatch σ.state } σ := by
  cases hstate : σ.state with
  | free => exact absurd hstate hfree
  | claimed => exact absurd hstate hclaimed
  | needsBuffer => exact ⟨hstate, h⟩
  | done => exact ⟨hstate, h⟩
  | failed => exact ⟨.inl hstate, h⟩
  | cancelled => exact ⟨.inr hstate, h⟩
  | _ => exact ⟨hfree, hclaimed, h⟩

theorem dispatch_holding (state : State) : (dispatch state).holding = true := by
  cases state <;> rfl

/-- In a slot that waits for a buffer the helper waits for it. -/
theorem Fits.awaits {pc : ServePC} (h : Fits σ pc) (hstate : σ.state = .needsBuffer) :
    (∃ bytes, pc = .awaitBuffer bytes) ∧ σ.copied = true := by
  cases pc with
  | awaitBuffer bytes => exact ⟨⟨bytes, rfl⟩, h.2⟩
  | _ => simp [Fits, hstate, State.resting] at h

/-! ## The invariant -/

/-- A buffer is allocated, or null is handed over. -/
theorem Inv.readSize (hi : Inv web st) (h : Moves st st' c m) (hpc : (st.calls c).pc = .readSize)
    (hslot : m.slot = st.slots (st.calls c).slot) (hpc' : m.who.pc = .storeBuffer)
    (hwho : m.who.slot = (st.calls c).slot ∧ m.who.request = (st.calls c).request)
    (hbuffer : m.who.buffer = none ∨ m.who.buffer = some st.fresh ∧ st.fresh < st'.fresh ∧
      (st'.buffers st.fresh).freed = false)
    (heffect : ∀ b, m.effect ≠ .free b) : Inv web st' := by
  obtain ⟨hholding, hagrees⟩ := hi.at_pc hpc rfl
  have hstate : m.slot.state = .needsBuffer := by
    rw [hslot]
    exact hagrees.1
  refine ⟨fun s => ?_, h.callInv hi ?_ (.inr ?_) ?_ ?_ ?_ ?_ ?_⟩
  · by_cases hs : s = (st.calls c).slot
    · rw [hs]
      refine h.stay hi hholding (by rw [hpc']; rfl) hwho.1 hwho.2 (.inr hstate) (by rw [hslot])
        (by rw [hslot]; exact (hi.slot _).fits) ?_ ?_ ?_ ?_
      · rw [Agrees, hpc', hslot, hwho.2]
        exact hagrees
      · rw [hslot]
        exact id
      · intro hdone
        rw [hstate] at hdone
        cases hdone
      · intro hprovided
        rw [hstate] at hprovided
        cases hprovided
    · exact h.slotInv_ne hi hs
  · intro d _ hd
    rw [hslot, hd]
  · exact hbuffer.imp_right fun hnew => ⟨hnew.1, hnew.2.1⟩
  · intro b hb
    exact absurd hb (heffect b)
  · intro _
    rw [hwho.1, h.slot_self, hslot]
    exact (hi.call c).holds hholding
  · intro rest hrest
    rw [hpc'] at hrest
    cases hrest
  · intro b hb hfreed
    rcases hbuffer with hnone | ⟨hsome, -, hlive⟩
    · rw [hnone] at hb
      cases hb
    · rw [hsome] at hb
      rw [← Option.some.inj hb, hlive] at hfreed
      cases hfreed
  · intro hret
    rw [hpc'] at hret
    cases hret

theorem Call.givenUp_gone : ({ x with pc := .returned x.givenUp } : Call).gone := by
  unfold Call.givenUp
  split
  next reason _ => cases reason <;> exact True.intro
  next => exact True.intro

theorem Call.givenUp_ne_ok : x.givenUp ≠ .ok := by
  unfold Call.givenUp
  split
  next reason _ => cases reason <;> exact fun h => nomatch h
  next => exact fun h => nomatch h

theorem Call.failure_ne_ok : x.failure ≠ .ok := by
  unfold Call.failure
  split
  next => exact fun h => nomatch h
  next reason _ _ => cases reason <;> exact fun h => nomatch h
  next => exact fun h => nomatch h

/-- A holder whose request failed frees its buffer. -/
theorem Inv.release (hi : Inv web st) (h : Moves st st' c m) (hpc : (st.calls c).pc = .release)
    (hslot : m.slot = st.slots (st.calls c).slot)
    (hwho : m.who = { st.calls c with pc := .leave (st.calls c).failure })
    (heffect : ∀ b, m.effect = .free b → (st.calls c).buffer = some b) : Inv web st' := by
  obtain ⟨hholding, hagrees⟩ := hi.at_pc hpc rfl
  refine ⟨fun s => ?_, h.callInv hi ?_ (.inl (by rw [hwho])) heffect ?_ ?_ ?_ ?_⟩
  · by_cases hs : s = (st.calls c).slot
    · rw [hs]
      refine h.stay hi hholding (by rw [hwho]; rfl) (by rw [hwho]) (by rw [hwho])
        (.inl (by rw [hwho])) (by rw [hslot]) (by rw [hslot]; exact (hi.slot _).fits) ?_ ?_ ?_ ?_
      · rw [hwho, hslot]
        exact ⟨hagrees.1, Call.failure_ne_ok, hagrees.2⟩
      · rw [hslot]
        exact id
      · rw [hslot]
        exact id
      · intro hprovided
        rw [hslot] at hprovided
        rcases hagrees.1 with hstate | hstate <;> rw [hstate] at hprovided <;> cases hprovided
    · exact h.slotInv_ne hi hs
  · intro d _ hd
    rw [hslot, hd]
  · intro _
    rw [hwho, h.slot_self, hslot]
    exact (hi.call c).holds hholding
  · intro rest hrest
    rw [hwho] at hrest
    cases hrest
  · intro b hb _
    rw [hwho] at hb ⊢
    have hsome : (st.calls c).buffer = some b := hb
    refine .inl ?_
    rw [Call.failure, hsome]
  · intro hret
    rw [hwho] at hret
    cases hret

theorem Inv.abandon (hi : Inv web st) (h : Moves st st' c m) (hpc : (st.calls c).pc = .abandon)
    (hwho : m.who = { st.calls c with pc := .sweep finished })
    (hslot : m.slot = { st.slots (st.calls c).slot with abandoned := true, holder := none })
    (heffect : ∀ b, m.effect ≠ .free b) : Inv web st' := by
  have hholds := (hi.call c).holds (by rw [hpc]; rfl)
  refine ⟨fun s => ?_, h.callInv hi ?_ (.inl (by rw [hwho])) ?_ ?_ ?_ ?_ ?_⟩
  · by_cases hs : s = (st.calls c).slot
    · rw [hs]
      exact h.abandons hi hpc hwho hslot
    · exact h.slotInv_ne hi hs
  · intro d hdc hd
    rw [hholds] at hd
    exact absurd (Option.some.inj hd).symm hdc
  · intro b hb
    exact absurd hb (heffect b)
  · intro hholding
    rw [hwho] at hholding
    cases hholding
  · intro rest hrest
    rw [hwho] at hrest
    cases hrest
    exact fun _ => id
  · intro b hb hfreed
    rw [hwho] at hb
    rcases h.was_freed hi heffect hb hfreed with hold | hold | hold <;> rw [hpc] at hold <;> cases hold
  · intro hret
    rw [hwho] at hret
    cases hret

/-- The compare-exchanges from outside that change a slot. -/
theorem Inv.exchange (hi : Inv web st) (h : Moves st st' c m)
    (hpc : (st.calls c).pc.holding = false) (hslot : SlotInv web st' (st.calls c).slot)
    (hnobody : (st.slots (st.calls c).slot).holder = none)
    (hwho : m.who.slot = (st.calls c).slot ∧ m.who.buffer = (st.calls c).buffer)
    (heffect : ∀ b, m.effect ≠ .free b)
    (hholds : m.who.pc.holding = true → m.slot.holder = some c)
    (hsweeps : ∀ rest, m.who.pc = .sweep rest → ∀ value ∈ rest, value ∈ finished)
    (hreturned : (∀ o, (st.calls c).pc ≠ .returned o) ∧ ∀ o, m.who.pc ≠ .returned o) :
    Inv web st' := by
  refine ⟨fun s => ?_, h.callInv hi ?_ (.inl hwho.2) ?_ ?_ hsweeps ?_ ?_⟩
  · by_cases hs : s = (st.calls c).slot
    · exact hs ▸ hslot
    · exact h.slotInv_ne hi hs
  · intro d _ hd
    rw [hnobody] at hd
    cases hd
  · intro b hb
    exact absurd hb (heffect b)
  · intro hholding
    rw [hwho.1, h.slot_self]
    exact hholds hholding
  · intro b hb hfreed
    rw [hwho.2] at hb
    rcases h.was_freed hi heffect hb hfreed with hold | hold | hold
    · rw [hold] at hpc
      cases hpc
    · exact absurd hold (hreturned.1 _)
    · exact absurd hold (hreturned.1 _)
  · intro hret
    exact absurd hret (hreturned.2 _)

theorem Inv.call_step (hi : Inv web st) {luck : Luck} (htidy : Tidy st (.call c luck))
    (h : st.step web (.call c luck) = some st') : Inv web st' := by
  obtain ⟨m, hm, rfl⟩ := Option.map_eq_some_iff.mp h
  have hmoves : Moves st (st.moveCall c m) c m := moveCall_moves (Call.step_own hm)
  have hfits := (hi.slot (st.calls c).slot).fits
  cases hpc : (st.calls c).pc <;> simp only [Call.step, hpc] at hm
  case unborn => cases hm
  case returned => cases hm
  case checkReady =>
    obtain rfl := Option.some.inj hm
    refine hi.of_outside hmoves (by rw [hpc]; rfl) rfl ?_ ⟨rfl, rfl⟩ (fun _ => nofun) ?_ ?_ ?_ ?_
    · intro hgone
      rw [Call.gone, hpc] at hgone
      cases hgone
    · dsimp only
      split <;> rfl
    · intro rest hrest
      dsimp only at hrest
      split at hrest <;> cases hrest
    · rw [hpc]
      exact ⟨nofun, nofun⟩
    · dsimp only
      split <;> nofun
  case claim =>
    have hgone : ¬ (st.calls c).gone := by
      intro hgone
      rw [Call.gone, hpc] at hgone
      cases hgone
    split at hm
    next hfree =>
      obtain rfl := Option.some.inj hm
      refine hi.exchange hmoves (by rw [hpc]; rfl) (hmoves.claims hi hfree rfl rfl)
        ((hi.slot _).nobody hfree) ⟨rfl, rfl⟩ (fun _ => nofun) (fun _ => rfl) (fun _ => nofun) ⟨?_, fun _ => nofun⟩
      rw [hpc]
      exact fun _ => nofun
    next =>
      split at hm
      all_goals
        obtain rfl := Option.some.inj hm
        refine hi.of_outside hmoves (by rw [hpc]; rfl) rfl (fun h => absurd h hgone) ⟨rfl, rfl⟩
          (fun _ => nofun) ?_ ?_ ?_ ?_
      · rfl
      · exact fun _ => nofun
      · rw [hpc]
        exact ⟨nofun, nofun⟩
      · nofun
      · rfl
      · exact fun _ => nofun
      · rw [hpc]
        exact ⟨nofun, nofun⟩
      · nofun
  case fill k =>
    obtain ⟨hholding, hagrees⟩ := hi.at_pc hpc rfl
    obtain ⟨hstate, hfilled⟩ := hagrees
    have hrest : (st.slots (st.calls c).slot).state.resting := by
      rw [hstate]
      trivial
    split at hm
    next store hstore =>
      obtain rfl := Option.some.inj hm
      obtain ⟨hkeep, hholder⟩ :=
        fills_keep (List.mem_of_getElem? hstore) (st.slots (st.calls c).slot)
      have hclaimed := hkeep.trans hstate
      refine hi.of_stay hmoves hholding (by rw [hpc]; nofun) rfl ⟨rfl, rfl, rfl⟩ hholder
        (fun _ => nofun) ?_ ?_ ?_ ?_ ?_
      · exact hfits.of_resting hrest (by rw [hclaimed]; trivial)
      · exact ⟨hclaimed, hfilled.succ hstore⟩
      · intro _
        rw [hclaimed]
        exact True.intro
      · intro hdone
        rw [hclaimed] at hdone
        cases hdone
      · intro hprovided
        rw [hclaimed] at hprovided
        cases hprovided
    next hlast =>
      obtain rfl := Option.some.inj hm
      obtain ⟨hinputs, -⟩ := hfilled.inputs hlast
      exact hi.of_stay hmoves hholding (by rw [hpc]; nofun) rfl ⟨rfl, rfl, rfl⟩ rfl
        (fun _ => nofun)
        (hfits.of_resting hrest trivial) ⟨nofun, nofun, hinputs⟩
        (fun _ => True.intro) nofun nofun
  case poll =>
    obtain ⟨hholding, hagrees⟩ := hi.at_pc hpc rfl
    obtain ⟨hfree, hclaimed, hinputs⟩ := hagrees
    obtain rfl := Option.some.inj hm
    exact hi.of_stay hmoves hholding (by rw [hpc]; nofun) (dispatch_holding _) ⟨rfl, rfl, rfl⟩ rfl
        (fun _ => nofun) hfits (hinputs.dispatch hfree hclaimed) id id (hi.lent hholding)
  case readSize =>
    split at hm
    all_goals obtain rfl := Option.some.inj hm
    · exact hi.readSize hmoves hpc rfl rfl ⟨rfl, rfl⟩ (.inl rfl) (fun _ => nofun)
    · refine hi.readSize hmoves hpc rfl rfl ⟨rfl, rfl⟩ (.inr ⟨rfl, Nat.lt_succ_self _, ?_⟩)
        (fun _ => nofun)
      show (Function.update st.buffers st.fresh _ st.fresh).freed = false
      rw [Function.update_self]
  case storeBuffer =>
    obtain ⟨hholding, hagrees⟩ := hi.at_pc hpc rfl
    obtain ⟨hstate, hinputs⟩ := hagrees
    obtain rfl := Option.some.inj hm
    refine hi.of_stay hmoves hholding (by rw [hpc]; nofun) rfl ⟨rfl, rfl, rfl⟩ rfl
        (fun _ => nofun)
      (hfits.congr rfl rfl) ⟨hstate, ?_, rfl⟩ id id (fun _ => rfl)
    exact { hinputs with }
  case provide =>
    obtain ⟨hholding, hagrees⟩ := hi.at_pc hpc rfl
    obtain ⟨hstate, hinputs, hbuffer⟩ := hagrees
    obtain rfl := Option.some.inj hm
    obtain ⟨⟨bytes, hserve⟩, hcopied⟩ := hfits.awaits hstate
    refine hi.of_stay hmoves hholding (by rw [hpc]; nofun) rfl ⟨rfl, rfl, rfl⟩ rfl
        (fun _ => nofun) ?_
      ⟨nofun, nofun, { hinputs with fresh := nofun }⟩ ?_ nofun (fun _ => hbuffer)
    · rw [hserve]
      exact ⟨.inr rfl, hcopied⟩
    · intro hearly
      rw [hstate] at hearly
      cases hearly
  case collect =>
    obtain ⟨hholding, hagrees⟩ := hi.at_pc hpc rfl
    obtain rfl := Option.some.inj hm
    refine hi.of_leave hmoves hholding (by rw [hagrees.1]; trivial) rfl rfl (fun _ => nofun)
        rfl (fun _ => nofun)
      (by rw [hpc]; nofun) fun _ => ?_
    refine ((hi.slot _).answered c ((hi.call c).holds hholding) hagrees.1).mono ?_ ?_
      hmoves.mem_fetches fun b hb => hmoves.contents b ((hi.call c).allocated b hb)
    · rw [hmoves.call_self]
    · rw [hmoves.call_self]
  case release =>
    obtain rfl := Option.some.inj hm
    refine hi.release hmoves hpc rfl rfl fun b hb => ?_
    dsimp only at hb
    split at hb
    next b' hsome => exact Effect.free.inj hb ▸ hsome
    next => cases hb
  case leave outcome =>
    obtain ⟨hholding, hagrees⟩ := hi.at_pc hpc rfl
    obtain rfl := Option.some.inj hm
    refine hi.of_leave hmoves hholding ?_ rfl rfl (fun _ => nofun)
        rfl (fun _ => nofun) ?_ ?_
    · rcases hagrees.1 with hstate | hstate <;> rw [hstate] <;> trivial
    · rw [hpc]
      intro hfailed
      rw [CallPC.leave.inj hfailed]
    · intro hret
      exact absurd (CallPC.returned.inj hret) hagrees.2.1
  case wait =>
    obtain ⟨hholding, hagrees⟩ := hi.at_pc hpc rfl
    obtain rfl := Option.some.inj hm
    exact hi.of_stay hmoves hholding (by rw [hpc]; nofun) rfl ⟨rfl, rfl, rfl⟩ rfl
        (fun _ => nofun) hfits hagrees id id
      (hi.lent hholding)
  case recheck =>
    obtain ⟨hholding, hagrees⟩ := hi.at_pc hpc rfl
    obtain rfl := Option.some.inj hm
    refine hi.of_stay hmoves hholding (by rw [hpc]; nofun) ?_ ⟨rfl, rfl, rfl⟩ rfl
        (fun _ => nofun) hfits ?_ id id
      (hi.lent hholding)
    · dsimp only
      split <;> rfl
    · by_cases hlate : (st.slots (st.calls c).slot).state = .request ∧ luck = .overdue
      · rw [if_pos hlate]
        exact hagrees
      · rw [if_neg hlate]
        exact hagrees
  case takeBack =>
    obtain ⟨hholding, hagrees⟩ := hi.at_pc hpc rfl
    split at hm
    next hstate =>
      obtain rfl := Option.some.inj hm
      exact hi.of_leave hmoves hholding (by rw [hstate]; trivial) rfl rfl (fun _ => nofun)
        rfl (fun _ => nofun)
        (by rw [hpc]; nofun) nofun
    next =>
      obtain rfl := Option.some.inj hm
      exact hi.of_stay hmoves hholding (by rw [hpc]; nofun) rfl ⟨rfl, rfl, rfl⟩ rfl
        (fun _ => nofun) hfits hagrees
        id id (hi.lent hholding)
  case unready =>
    obtain rfl := Option.some.inj hm
    refine hi.of_outside hmoves (by rw [hpc]; rfl) rfl ?_ ⟨rfl, rfl⟩ (fun _ => nofun) rfl
      (fun _ => nofun) (by rw [hpc]; exact ⟨nofun, nofun⟩) nofun
    intro hgone
    rw [Call.gone, hpc] at hgone
    cases hgone
  case decide =>
    obtain ⟨hholding, hagrees⟩ := hi.at_pc hpc rfl
    split at hm
    all_goals
      obtain rfl := Option.some.inj hm
      refine hi.of_stay hmoves hholding (by rw [hpc]; nofun) ?_ ⟨rfl, rfl, rfl⟩ rfl
        (fun _ => nofun) hfits ?_ id id
        (hi.lent hholding)
    · rfl
    · exact hagrees
    · rfl
    · exact hagrees
    · dsimp only
      split <;> rfl
    · by_cases hlate : luck = .overdue
      · rw [if_pos hlate]
        exact hagrees
      · rw [if_neg hlate]
        exact hagrees
  case raiseAbort =>
    obtain ⟨hholding, hagrees⟩ := hi.at_pc hpc rfl
    obtain ⟨hfree, hclaimed, hinputs⟩ := hagrees
    obtain rfl := Option.some.inj hm
    exact hi.of_stay hmoves hholding (by rw [hpc]; nofun) rfl ⟨rfl, rfl, rfl⟩ rfl
        (fun _ => nofun)
      (hfits.congr rfl rfl) ⟨hfree, hclaimed, { hinputs with }⟩ id id (hi.lent hholding)
  case withdraw =>
    obtain ⟨hholding, hagrees⟩ := hi.at_pc hpc rfl
    split at hm
    next hstate =>
      obtain rfl := Option.some.inj hm
      refine hi.of_leave hmoves hholding (by rw [hstate]; trivial) rfl rfl (fun _ => nofun)
        rfl (fun _ => nofun)
        (by rw [hpc]; nofun) fun hret => ?_
      exact absurd (CallPC.returned.inj hret) Call.givenUp_ne_ok
    next hstate =>
      obtain rfl := Option.some.inj hm
      exact hi.of_stay hmoves hholding (by rw [hpc]; nofun) rfl ⟨rfl, rfl, rfl⟩ rfl
        (fun _ => nofun) hfits
        ⟨hagrees.1, hagrees.2.1, hstate, hagrees.2.2⟩ id id (hi.lent hholding)
  case checkCopied =>
    obtain ⟨hholding, hagrees⟩ := hi.at_pc hpc rfl
    obtain ⟨hfree, hclaimed, hrequest, hinputs⟩ := hagrees
    obtain rfl := Option.some.inj hm
    refine hi.of_stay hmoves hholding (by rw [hpc]; nofun) ?_ ⟨rfl, rfl, rfl⟩ rfl
        (fun _ => nofun) hfits ?_ id id
      (hi.lent hholding)
    · dsimp only
      split <;> rfl
    · by_cases hcopied : (st.slots (st.calls c).slot).copied = true
      · rw [if_pos hcopied]
        exact ⟨hfree, hclaimed, hrequest, hcopied, hinputs⟩
      · rw [if_neg hcopied]
        exact ⟨hfree, hclaimed, hinputs⟩
  case abandon =>
    obtain rfl := Option.some.inj hm
    exact hi.abandon hmoves hpc rfl rfl (fun _ => nofun)
  case sweep rest =>
    cases rest with
    | nil =>
      obtain rfl := Option.some.inj hm
      refine hi.of_outside hmoves (by rw [hpc]; rfl) rfl (fun _ => ⟨Call.givenUp_gone, rfl⟩)
        ⟨rfl, rfl⟩ (fun _ => nofun) rfl (fun _ => nofun) (by rw [hpc]; exact ⟨nofun, nofun⟩)
        fun hret => ?_
      exact absurd (CallPC.returned.inj hret) Call.givenUp_ne_ok
    | cons value rest =>
      have hfinished := (hi.call c).sweeps _ hpc
      have hrestOk : ∀ v ∈ rest, v ∈ finished := fun v hv => hfinished v (.tail _ hv)
      obtain rfl := Option.some.inj hm
      by_cases hstate : (st.slots (st.calls c).slot).state = value
      · have hnobody : (st.slots (st.calls c).slot).holder = none := by
          rw [Tidy, hpc] at htidy
          exact htidy hstate
        have hrest : (st.slots (st.calls c).slot).state.resting := by
          have hmem := hfinished value (.head _)
          rw [hstate]
          simp only [finished, List.mem_cons, List.not_mem_nil, or_false] at hmem
          rcases hmem with rfl | rfl | rfl <;> trivial
        refine hi.exchange hmoves (by rw [hpc]; rfl) (hmoves.sweeps hi hrest hnobody ?_) hnobody
          ⟨rfl, rfl⟩ (fun _ => nofun) nofun ?_ ⟨by rw [hpc]; exact fun _ => nofun, fun _ => nofun⟩
        · rw [if_pos hstate]
        · intro tail htail
          cases htail
          exact hrestOk
      · refine hi.of_outside hmoves (by rw [hpc]; rfl) ?_ (fun _ => ⟨True.intro, rfl⟩) ⟨rfl, rfl⟩
          (fun _ => nofun) rfl ?_ (by rw [hpc]; exact ⟨nofun, nofun⟩) nofun
        · dsimp only
          rw [if_neg hstate]
        · intro tail htail
          cases htail
          exact hrestOk

end Haybarn.Http
