import Haybarn.Http.CallSteps

/-!
# The steps of the helper

A step of the helper in a slot changes the serve and the lanes, never who holds the slot.
What it needs of the caller it finds in the slot's client; what it does to the caller is to
move the state lane on, where `Agrees` has room for it.
-/

namespace Haybarn.Http

variable {web : Web} {st st' : Mailbox} {c d : CallId} {s : Nat} {σ σ' : Slot} {x : Call}
  {m : Move Serve}

/-- What a step of the helper changes. -/
structure Serves (st st' : Mailbox) (s : Nat) (m : Move Serve) : Prop where
  calls : st'.calls = st.calls
  slots : st'.slots = Function.update st.slots s m.slot
  serves : st'.serves = Function.update st.serves s m.who
  fetches : ∀ f ∈ st.fetches, f ∈ st'.fetches
  fresh : st'.fresh = st.fresh
  contents : ∀ b, (∀ bytes, m.effect ≠ .write b bytes) →
    (st'.buffers b).contents = (st.buffers b).contents
  freed : ∀ b, (st'.buffers b).freed = (st.buffers b).freed

/-- The effects of the helper. -/
def Effect.helpers : Effect → Prop
  | .nothing | .write .. | .fetched _ => True
  | _ => False

theorem moveServe_serves (h : m.effect.helpers) : Serves st (st.moveServe s m) s m := by
  unfold Mailbox.moveServe
  cases heffect : m.effect with
  | nothing => exact ⟨rfl, rfl, rfl, fun _ => id, rfl, fun _ _ => rfl, fun _ => rfl⟩
  | write b₀ bytes₀ =>
    refine ⟨rfl, rfl, rfl, fun _ => id, rfl, fun b hb => ?_, fun b => ?_⟩
    all_goals dsimp only [Mailbox.apply]
    · have hne : b ≠ b₀ := by
        rintro rfl
        exact hb bytes₀ heffect
      rw [Function.update_of_ne hne]
    · by_cases hb : b = b₀
      · rw [hb, Function.update_self]
      · rw [Function.update_of_ne hb]
  | fetched f =>
    exact ⟨rfl, rfl, rfl, fun _ => List.mem_append_left _, rfl, fun _ _ => rfl, fun _ => rfl⟩
  | _ => rw [heffect] at h; cases h

namespace Serves

variable (h : Serves st st' s m)
include h

theorem slot_self : st'.slots s = m.slot := by rw [h.slots, Function.update_self]

theorem serve_self : st'.serves s = m.who := by rw [h.serves, Function.update_self]

theorem slot_ne {t : Nat} (ht : t ≠ s) : st'.slots t = st.slots t := by
  rw [h.slots, Function.update_of_ne ht]

theorem serve_ne {t : Nat} (ht : t ≠ s) : st'.serves t = st.serves t := by
  rw [h.serves, Function.update_of_ne ht]

/-- An answer stays, unless its buffer is the one that is written. -/
theorem answered (hd : Answered web st d)
    (hother : ∀ b, (st.calls d).buffer = some b → ∀ bytes, m.effect ≠ .write b bytes) :
    Answered web st' d := by
  refine hd.mono ?_ ?_ h.fetches fun b hb => h.contents b (hother b hb)
  · rw [h.calls]
  · rw [h.calls]

/-- The whole invariant, from what the step does to its slot. -/
theorem inv (hi : Inv web st)
    (hwrite : ∀ b bytes, m.effect = .write b bytes →
      ∃ c, Client web st s c ∧ (st.calls c).buffer = some b)
    (hholder : m.slot.holder = (st.slots s).holder)
    (hfits : Fits m.slot m.who.pc)
    (hheld : ∀ d, (st.slots s).holder = some d → Agrees d (st.calls d) (st.slots s) →
      Agrees d (st.calls d) m.slot)
    (hvacant : (st.slots s).holder = none → m.slot.state ≠ .claimed ∧ m.slot.state ≠ .request ∧
      (m.slot.state ≠ .free → m.slot.copied = true ∧ m.slot.abandoned = true))
    (hclient : m.who.pc.active = true → ∃ c, Client web st' s c)
    (hfreeing : ∀ state, m.who.pc = .freeSlot state → (st.slots s).holder ≠ none →
      m.slot.state.early)
    (hanswered : ∀ c, (st.slots s).holder = some c → m.slot.state = .done → Answered web st' c) :
    Inv web st' := by
  have hs := hi.slot s
  refine ⟨fun t => ?_, fun d => ?_⟩
  · by_cases ht : t = s
    · obtain rfl := ht
      refine ⟨?_, ?_, ?_, ?_, ?_, ?_⟩
      · rw [h.slot_self, h.serve_self]
        exact hfits
      · intro d hd
        rw [h.slot_self, hholder] at hd
        rw [h.slot_self, h.calls]
        obtain ⟨hpc, hat, hagrees⟩ := hs.held d hd
        exact ⟨hpc, hat, hheld d hd hagrees⟩
      · rw [h.slot_self, hholder]
        exact hvacant
      · rw [h.serve_self]
        exact hclient
      · rw [h.slot_self, h.serve_self, hholder]
        exact hfreeing
      · rw [h.slot_self, hholder]
        exact hanswered
    · refine (hi.slot t).of_same (h.slot_ne ht) (h.serve_ne ht) ?_ h.fetches ?_
      · exact fun d _ => by rw [h.calls]
      · intro d hd b hb
        apply h.contents
        intro bytes heffect
        obtain ⟨c, hc, hbuffer⟩ := hwrite b bytes heffect
        have hdc := (hi.call c).own b d hbuffer hb
        rw [hdc, hc.slot] at hd
        exact ht hd.symm
  · have hd := hi.call d
    refine ⟨?_, ?_, ?_, ?_, ?_, ?_⟩
    · intro hpc
      rw [h.calls] at hpc ⊢
      have hold := hd.holds hpc
      by_cases hat : (st.calls d).slot = s
      · rw [hat] at hold ⊢
        rw [h.slot_self, hholder]
        exact hold
      · rw [h.slot_ne hat]
        exact hold
    · rw [h.calls]
      exact hd.sweeps
    · rw [h.calls, h.fresh]
      exact hd.allocated
    · rw [h.calls]
      exact hd.own
    · rw [h.calls]
      intro b hb hfreed
      rw [h.freed] at hfreed
      exact hd.freed b hb hfreed
    · intro hpc
      rw [h.calls] at hpc
      refine h.answered (hd.ok hpc) fun b hb bytes heffect => ?_
      -- the buffer written is that of the client, and the client has not returned `OK`
      obtain ⟨c, hc, hbuffer⟩ := hwrite b bytes heffect
      obtain rfl := (hi.call c).own b d hbuffer hb
      rcases hc.here with hheld' | hgone
      · have hholding := (hs.held d hheld').1
        rw [hpc] at hholding
        cases hholding
      · rw [Call.gone, hpc] at hgone
        cases hgone

end Serves

/-! ## The client -/

/-- The helper moves on: its client stays. -/
theorem Client.moves (hc : Client web st s c) (h : Serves st st' s m)
    (hholder : m.slot.holder = (st.slots s).holder) (hurl : m.slot.url = (st.slots s).url)
    (hknows : Knows web st'.fetches c (st.calls c).request m.who.pc)
    (hlent : m.slot.state = .bufferProvided → (st.slots s).state = .bufferProvided ∧
      m.slot.buffer = (st.slots s).buffer)
    (hwrites : ∀ b bytes, m.who.pc = .write b bytes → (st.calls c).buffer = some b)
    (hwritten : m.who.pc = .finish .done → Answered web st' c) : Client web st' s c := by
  refine ⟨?_, ?_, ?_, ?_, ?_, ?_, ?_⟩
  · rw [h.slot_self, hurl]
    exact hc.url
  · rw [h.calls]
    exact hc.slot
  · rw [h.slot_self, hholder, h.calls]
    exact hc.here
  · rw [h.calls, h.serve_self]
    exact hknows
  · rw [h.slot_self, h.calls]
    intro hstate
    obtain ⟨hold, hbuffer⟩ := hlent hstate
    rw [hbuffer]
    exact hc.lent hold
  · rw [h.serve_self, h.calls]
    exact hwrites
  · rw [h.serve_self]
    exact hwritten

/-- Before the inputs are copied their caller has the slot. -/
theorem SlotInv.early (hs : SlotInv web st s) (hstate : (st.slots s).state = .inFlight)
    (hcopied : (st.slots s).copied = false) (hc : Client web st s c) :
    (st.slots s).holder = some c ∧ Inputs c (st.calls c).request (st.slots s) := by
  cases hholder : (st.slots s).holder with
  | none =>
    have hleft := (hs.vacant hholder).2.2 (by rw [hstate]; nofun)
    rw [hcopied] at hleft
    cases hleft.1
  | some d =>
    have hinputs := ((hs.held d hholder).2.2).inputs (by rw [hstate]; nofun)
    have hurl := hinputs.url
    rw [hc.url] at hurl
    obtain rfl := Option.some.inj hurl
    exact ⟨rfl, hinputs⟩

/-- The state lane moves on under a holder that waits. -/
theorem Agrees.progress (h : Agrees c x σ)
    (hfrom : σ.state = .request ∨ σ.state = .inFlight ∨ σ.state = .bufferProvided)
    (hto : σ'.state ≠ .free ∧ σ'.state ≠ .claimed ∧ σ'.state ≠ .request)
    (hinputs : Inputs c x.request σ → Inputs c x.request σ')
    (hcopied : σ.copied = true → σ'.copied = true) : Agrees c x σ' := by
  obtain ⟨hfree, hclaimed, hrequest⟩ := hto
  unfold Agrees at h ⊢
  cases hpc : x.pc with
  | fill | readSize | storeBuffer | provide | collect =>
    rw [hpc] at h
    rcases hfrom with hstate | hstate | hstate <;> rw [hstate] at h <;> cases h.1
  | release | leave =>
    rw [hpc] at h
    rcases hfrom with hstate | hstate | hstate <;> rw [hstate] at h <;> rcases h.1 with h | h <;>
      cases h
  | abandon =>
    rw [hpc] at h
    exact ⟨hfree, hclaimed, hrequest, hcopied h.2.2.2.1, hinputs h.2.2.2.2⟩
  | checkCopied =>
    rw [hpc] at h
    exact ⟨hfree, hclaimed, hrequest, hinputs h.2.2.2⟩
  | _ =>
    rw [hpc] at h
    exact ⟨hfree, hclaimed, hinputs h.2.2⟩

/-! ## One step of the helper -/

theorem Serve.step_helpers {memory : CallId → Request} {fate : Fate} {v : Serve}
    (h : v.step web memory fate σ = some m) : m.effect.helpers := by
  unfold Serve.step at h
  split at h
  case h_4 =>
    split at h
    · obtain rfl := Option.some.inj h
      exact True.intro
    · obtain ⟨_, -, rfl⟩ := Option.map_eq_some_iff.mp h
      exact True.intro
  case h_6 =>
    split at h
    · split at h
      · obtain rfl := Option.some.inj h
        exact True.intro
      · obtain ⟨_, -, h⟩ := Option.bind_eq_some_iff.mp h
        obtain ⟨_, -, rfl⟩ := Option.map_eq_some_iff.mp h
        exact True.intro
    · obtain rfl := Option.some.inj h
      exact True.intro
  all_goals
    repeat' split at h
    all_goals first
      | (obtain rfl := Option.some.inj h; exact True.intro)
      | cases h

/-- A step that leaves the slot alone. -/
theorem Serves.quiet (h : Serves st st' s m) (hi : Inv web st) (hslot : m.slot = st.slots s)
    (heffect : ∀ b bytes, m.effect ≠ .write b bytes) (hfits : Fits (st.slots s) m.who.pc)
    (hclient : m.who.pc.active = true → ∃ c, Client web st' s c)
    (hfreeing : ∀ state, m.who.pc = .freeSlot state → (st.slots s).holder ≠ none →
      (st.slots s).state.early) : Inv web st' := by
  have hs := hi.slot s
  refine h.inv hi (fun b bytes hb => absurd hb (heffect b bytes)) (by rw [hslot]) ?_ ?_ ?_ hclient
    ?_ ?_
  · rw [hslot]
    exact hfits
  · rw [hslot]
    exact fun d _ hagrees => hagrees
  · rw [hslot]
    exact hs.vacant
  · rw [hslot]
    exact hfreeing
  · rw [hslot]
    exact fun c hc hdone => h.answered (hs.answered c hc hdone) fun b _ bytes => heffect b bytes

/-- A step within a serve that leaves the slot alone: the helper knows more. -/
theorem Serves.learns (h : Serves st st' s m) (hi : Inv web st) (hslot : m.slot = st.slots s)
    (heffect : ∀ b bytes, m.effect ≠ .write b bytes) (hfits : Fits (st.slots s) m.who.pc)
    (hc : Client web st s c) (hknows : Knows web st'.fetches c (st.calls c).request m.who.pc)
    (hwrites : ∀ b bytes, m.who.pc = .write b bytes → (st.calls c).buffer = some b)
    (hwritten : m.who.pc ≠ .finish .done) (hfree : ∀ state, m.who.pc ≠ .freeSlot state) :
    Inv web st' := by
  refine h.quiet hi hslot heffect hfits (fun _ => ⟨c, ?_⟩) fun state hpc => absurd hpc (hfree state)
  refine hc.moves h (by rw [hslot]) (by rw [hslot]) hknows ?_ hwrites fun hpc => absurd hpc hwritten
  rw [hslot]
  exact fun hstate => ⟨hstate, rfl⟩

/-- A step within a serve that moves the slot on. -/
theorem Serves.advances (h : Serves st st' s m) (hi : Inv web st)
    (heffect : ∀ b bytes, m.effect ≠ .write b bytes)
    (hfrom : (st.slots s).state = .inFlight ∨ (st.slots s).state = .bufferProvided)
    (hto : m.slot.state ≠ .free ∧ m.slot.state ≠ .claimed ∧ m.slot.state ≠ .request)
    (hlanes : m.slot = { st.slots s with
      state := m.slot.state, size := m.slot.size, copied := m.slot.copied })
    (hcopied : (st.slots s).copied = true → m.slot.copied = true) (hfits : Fits m.slot m.who.pc)
    (hclient : m.who.pc.active = true → ∃ c, Client web st' s c)
    (hfree : ∀ state, m.who.pc ≠ .freeSlot state)
    (hanswered : m.slot.state = .done → ∀ c, Client web st s c → Answered web st' c) :
    Inv web st' := by
  have hs := hi.slot s
  have hholder : m.slot.holder = (st.slots s).holder := by rw [hlanes]
  have hactive : (st.serves s).pc.active = true := by
    apply hs.fits.active
    rcases hfrom with hstate | hstate <;> rw [hstate] <;> exact id
  refine h.inv hi (fun b bytes hb => absurd hb (heffect b bytes)) hholder hfits ?_ ?_ hclient
    (fun state hpc => absurd hpc (hfree state)) ?_
  · intro d _ hagrees
    refine hagrees.progress (.inr hfrom) hto (fun hinputs => ?_) hcopied
    rw [hlanes]
    exact { hinputs with fresh := fun hstate => absurd hstate hto.2.2 }
  · intro hnone
    refine ⟨hto.2.1, hto.2.2, fun _ => ?_⟩
    have hleft := (hs.vacant hnone).2.2 (by
      rcases hfrom with hstate | hstate <;> rw [hstate] <;> nofun)
    refine ⟨hcopied hleft.1, ?_⟩
    rw [hlanes]
    exact hleft.2
  · intro c hc hdone
    exact hanswered hdone c (hs.client_holder hc hactive)

theorem outgoingHeaders_succ {r : Request} {i : Nat} {h : List UInt8 × List UInt8}
    (hi : r.headers[i]? = some h) :
    outgoingHeaders web r (i + 1) = addHeader web (outgoingHeaders web r i) h := by
  rw [outgoingHeaders, List.take_add_one, hi, List.foldl_append]
  rfl

/-- A request without a body. -/
theorem outgoing_empty {r : Request} (h : r.body.length = 0) :
    outgoing web r = { url := web.decode r.url, method := web.decode r.method
                       headers := outgoingHeaders web r r.headers.length } := by
  rw [outgoing, h]
  rfl

theorem outgoing_body {r : Request} (h : 0 < r.body.length) :
    outgoing web r = { url := web.decode r.url, method := web.decode r.method
                       headers := outgoingHeaders web r r.headers.length
                       body := some r.body } := by
  rw [outgoing, if_pos h]

/-- A slot that is held is marked abandoned only before its holder has cleared the mark. -/
theorem Agrees.marked (h : Agrees c x σ) (habandoned : σ.abandoned = true) : σ.state.early := by
  by_cases hstate : σ.state = .claimed
  · rw [hstate]
    exact True.intro
  · have hkept := (h.inputs hstate).kept
    rw [habandoned] at hkept
    cases hkept

theorem resting_of_finished {state : State} (h : state ∈ finished) :
    state.resting ∧ state ≠ .free ∧ state ≠ .claimed ∧ state ≠ .request := by
  simp only [finished, List.mem_cons, List.not_mem_nil, or_false] at h
  rcases h with rfl | rfl | rfl <;> exact ⟨True.intro, by simp, by simp, by simp⟩

theorem Inv.serve_step (hi : Inv web st) {fate : Fate} (h : st.step web (.serve s fate) = some st') :
    Inv web st' := by
  obtain ⟨m, hm, rfl⟩ := Option.map_eq_some_iff.mp h
  have hserves : Serves st (st.moveServe s m) s m := moveServe_serves (Serve.step_helpers hm)
  have hs := hi.slot s
  have hfits := hs.fits
  have hclient := hs.client
  cases hpc : (st.serves s).pc <;> simp only [Serve.step, hpc] at hm <;> rw [hpc] at hfits hclient
  case idle => cases hm
  case claim =>
    split at hm
    next hstate =>
      obtain rfl := Option.some.inj hm
      obtain ⟨c, hholder⟩ := Option.ne_none_iff_exists'.mp fun hnone =>
        (hs.vacant hnone).2.1 hstate
      obtain ⟨-, hat, hagrees⟩ := hs.held c hholder
      have hinputs := hagrees.inputs (by rw [hstate]; simp)
      refine hserves.inv hi (by simp) rfl ⟨rfl, hinputs.fresh hstate⟩ ?_ ?_
        (fun _ => ⟨c, ?_⟩) (by simp) (by simp)
      · intro d _ hagrees'
        exact hagrees'.progress (.inl hstate) ⟨by simp, by simp, by simp⟩
          (fun hinputs' => { hinputs' with fresh := (by simp) }) id
      · intro hnone
        rw [hholder] at hnone
        cases hnone
      · refine ⟨?_, hat, ?_, ?_, ?_, ?_, ?_⟩
        · rw [hserves.slot_self]
          exact hinputs.url
        · rw [hserves.slot_self]
          exact .inl hholder
        · rw [hserves.serve_self]
          exact rfl
        · rw [hserves.slot_self]
          simp
        · rw [hserves.serve_self]
          simp
        · rw [hserves.serve_self]
          simp
    next =>
      obtain rfl := Option.some.inj hm
      exact hserves.quiet hi rfl (by simp) hfits (fun h => by cases h) (by simp)
  case point part asked =>
    obtain rfl := Option.some.inj hm
    obtain ⟨c, hc⟩ := hclient rfl
    obtain ⟨-, hinputs⟩ := hs.early hfits.1 hfits.2 hc
    have hknows := hc.knows
    rw [hpc] at hknows
    cases part with
    | url =>
      exact hserves.learns hi rfl (by simp) hfits hc ⟨hinputs.url, hinputs.urlLen, hknows⟩
        (fun _ _ h => by cases h) (fun h => by cases h) (fun _ h => by cases h)
    | method =>
      exact hserves.learns hi rfl (by simp) hfits hc
        ⟨hinputs.method, hinputs.methodLen, hknows⟩ (fun _ _ h => by cases h) (fun h => by cases h) (fun _ h => by cases h)
    | body =>
      have hlen := hinputs.bodyLen
      by_cases hzero : (st.slots s).bodyLen = 0
      · have hnext : pointed .body (st.slots s).body (st.slots s).bodyLen asked =
            .storeCopied asked := if_pos ⟨rfl, hzero⟩
        refine hserves.learns hi rfl (by simp) ?_ hc ?_ ?_ ?_ ?_
        all_goals
          dsimp only [Slot.lanes]
          rw [hnext]
        · exact hfits
        · rw [Knows, hknows, outgoing_empty (hlen ▸ hzero)]
        · exact fun _ _ => by simp
        · simp
        · exact fun _ => by simp
      · have hnext : pointed .body (st.slots s).body (st.slots s).bodyLen asked =
            .copy .body (st.slots s).body (st.slots s).bodyLen asked :=
          if_neg fun hboth => hzero hboth.2
        refine hserves.learns hi rfl (by simp) ?_ hc ?_ ?_ ?_ ?_
        all_goals
          dsimp only [Slot.lanes]
          rw [hnext]
        · exact hfits
        · exact ⟨hinputs.body, hlen, Nat.pos_of_ne_zero hzero, hknows⟩
        · exact fun _ _ => by simp
        · simp
        · exact fun _ => by simp
  case copy part ptr len asked =>
    obtain ⟨c, hc⟩ := hclient rfl
    have hknows := hc.knows
    rw [hpc] at hknows
    split at hm
    next =>
      obtain rfl := Option.some.inj hm
      exact hserves.learns hi rfl (by simp) hfits hc True.intro (by simp) (by simp)
        (by simp)
    next =>
      obtain ⟨c', hptr, rfl⟩ := Option.map_eq_some_iff.mp hm
      cases part with
      | url =>
        obtain ⟨hc', hlen, hasked⟩ := hknows
        obtain rfl := Option.some.inj (hptr.symm.trans hc')
        refine hserves.learns hi rfl (by simp) hfits hc ?_ (fun _ _ h => by cases h) (fun h => by cases h)
          (fun _ h => by cases h)
        show _ = _
        rw [hlen, List.take_length, hasked]
      | method =>
        obtain ⟨hc', hlen, hasked⟩ := hknows
        obtain rfl := Option.some.inj (hptr.symm.trans hc')
        refine hserves.learns hi rfl (by simp) hfits hc ?_ (fun _ _ h => by cases h) (fun h => by cases h)
          (fun _ h => by cases h)
        show _ = _
        rw [hlen, List.take_length, hasked]
      | body =>
        obtain ⟨hc', hlen, hpos, hasked⟩ := hknows
        obtain rfl := Option.some.inj (hptr.symm.trans hc')
        refine hserves.learns hi rfl (by simp) hfits hc ?_ (fun _ _ h => by cases h) (fun h => by cases h)
          (fun _ h => by cases h)
        show _ = _
        rw [outgoing_body (hlen ▸ hpos), hlen, List.take_length, hasked]
  case pointHeaders asked =>
    obtain rfl := Option.some.inj hm
    obtain ⟨c, hc⟩ := hclient rfl
    obtain ⟨-, hinputs⟩ := hs.early hfits.1 hfits.2 hc
    have hknows := hc.knows
    rw [hpc] at hknows
    exact hserves.learns hi rfl (by simp) hfits hc
      ⟨hinputs.headers, hinputs.headerCount, Nat.zero_le _, hknows⟩ (by simp) (by simp)
      (by simp)
  case copyHeader ptr count i asked =>
    obtain ⟨c, hc⟩ := hclient rfl
    have hknows := hc.knows
    rw [hpc] at hknows
    obtain ⟨hptr, hcount, hle, hasked⟩ := hknows
    split at hm
    next hlt =>
      split at hm
      next =>
        obtain rfl := Option.some.inj hm
        exact hserves.learns hi rfl (by simp) hfits hc True.intro (by simp) (by simp)
          (by simp)
      next =>
        obtain ⟨c', hptr', hm⟩ := Option.bind_eq_some_iff.mp hm
        obtain ⟨header, hheader, rfl⟩ := Option.map_eq_some_iff.mp hm
        obtain rfl := Option.some.inj (hptr'.symm.trans hptr)
        refine hserves.learns hi rfl (by simp) hfits hc ⟨hptr, hcount, hlt, ?_⟩
          (by simp) (by simp) (by simp)
        rw [outgoingHeaders_succ hheader, hasked]
    next hge =>
      obtain rfl := Option.some.inj hm
      refine hserves.learns hi rfl (by simp) hfits hc ?_ (by simp) (by simp)
        (by simp)
      have hall : i = (st.calls c).request.headers.length := by omega
      show _ = _
      rw [hasked, hall]
  case unreadable =>
    obtain rfl := Option.some.inj hm
    obtain ⟨c, hc⟩ := hclient rfl
    refine hserves.advances hi (by simp) (.inl hfits.1)
      (by rw [hfits.1]; exact ⟨by simp, by simp, by simp⟩) rfl (fun _ => rfl)
      ⟨.inl hfits.1, rfl, .tail _ (.head _)⟩ (fun _ => ⟨c, ?_⟩) (by simp)
      (by rw [hfits.1]; simp)
    exact hc.moves hserves rfl rfl True.intro (fun hstate => ⟨hstate, rfl⟩) (by simp) (by simp)
  case storeCopied asked =>
    obtain rfl := Option.some.inj hm
    obtain ⟨c, hc⟩ := hclient rfl
    have hknows := hc.knows
    rw [hpc] at hknows
    refine hserves.advances hi (by simp) (.inl hfits.1)
      (by rw [hfits.1]; exact ⟨by simp, by simp, by simp⟩) rfl (fun _ => rfl) ⟨hfits.1, rfl⟩
      (fun _ => ⟨c, ?_⟩) (by simp) (by rw [hfits.1]; simp)
    exact hc.moves hserves rfl rfl hknows (fun hstate => ⟨hstate, rfl⟩) (by simp) (by simp)
  case fetching asked =>
    obtain ⟨c, hc⟩ := hclient rfl
    have hknows := hc.knows
    rw [hpc] at hknows
    split at hm
    next response =>
      obtain rfl := Option.some.inj hm
      refine hserves.learns hi rfl (by simp) hfits hc ⟨response, rfl, ?_⟩ (by simp)
        (by simp) (by simp)
      obtain rfl : asked = outgoing web (st.calls c).request := hknows
      apply List.mem_append_right
      rw [hc.url]
      exact .head _
    next =>
      obtain rfl := Option.some.inj hm
      refine hserves.learns hi rfl (by simp) ⟨.inl hfits.1, hfits.2, ?_⟩ hc True.intro
        (by simp) ?_ (by simp)
      · split <;> simp [finished]
      · dsimp only
        split <;> simp
    next => cases hm
  case storeSize response =>
    obtain rfl := Option.some.inj hm
    obtain ⟨c, hc⟩ := hclient rfl
    have hknows := hc.knows
    rw [hpc] at hknows
    refine hserves.advances hi (by simp) (.inl hfits.1)
      (by rw [hfits.1]; exact ⟨by simp, by simp, by simp⟩) rfl id hfits (fun _ => ⟨c, ?_⟩) (by simp)
      (by rw [hfits.1]; simp)
    exact hc.moves hserves rfl rfl hknows (fun hstate => ⟨hstate, rfl⟩) (by simp) (by simp)
  case announce response =>
    obtain rfl := Option.some.inj hm
    obtain ⟨c, hc⟩ := hclient rfl
    have hknows := hc.knows
    rw [hpc] at hknows
    refine hserves.advances hi (by simp) (.inl hfits.1) ⟨by simp, by simp, by simp⟩ rfl id
      ⟨.inl rfl, hfits.2⟩ (fun _ => ⟨c, ?_⟩) (by simp) (by simp)
    exact hc.moves hserves rfl rfl hknows (by simp) (by simp) (by simp)
  case awaitBuffer response =>
    obtain ⟨c, hc⟩ := hclient rfl
    have hknows := hc.knows
    rw [hpc] at hknows
    split at hm
    next =>
      obtain rfl := Option.some.inj hm
      refine hserves.learns hi rfl (by simp) ?_ hc ?_ ?_ ?_ ?_ <;> rw [hpc]
      · exact hfits
      · exact hknows
      · exact fun _ _ => by simp
      · simp
      · exact fun _ => by simp
    next hstate =>
      obtain rfl := Option.some.inj hm
      exact hserves.learns hi rfl (by simp) ⟨hfits.1.resolve_left hstate, hfits.2⟩ hc hknows
        (by simp) (by simp) (by simp)
  case readBuffer response =>
    obtain ⟨c, hc⟩ := hclient rfl
    have hknows := hc.knows
    rw [hpc] at hknows
    split at hm
    next =>
      obtain rfl := Option.some.inj hm
      exact hserves.learns hi rfl (by simp) ⟨.inr hfits.1, hfits.2, by simp [finished]⟩ hc
        True.intro (by simp) (by simp) (by simp)
    next b hbuffer =>
      obtain rfl := Option.some.inj hm
      refine hserves.learns hi rfl (by simp) hfits hc hknows ?_ (by simp) (by simp)
      intro b' bytes hwrite
      obtain ⟨rfl, rfl⟩ := ServePC.write.inj hwrite
      rw [← hc.lent hfits.1, hbuffer]
  case write b response =>
    obtain rfl := Option.some.inj hm
    obtain ⟨c, hc⟩ := hclient rfl
    have hknows := hc.knows
    rw [hpc] at hknows
    have hbuffer := hc.writes b response hpc
    refine hserves.inv hi ?_ rfl ⟨.inr hfits.1, hfits.2, .head _⟩ (fun _ _ => id) hs.vacant
      (fun _ => ⟨c, ?_⟩) (by simp) ?_
    · intro b' bytes heffect
      obtain ⟨rfl, rfl⟩ := Effect.write.inj heffect
      exact ⟨c, hc, hbuffer⟩
    · refine hc.moves hserves rfl rfl True.intro (fun hstate => ⟨hstate, rfl⟩) (by simp)
        fun _ => ⟨b, response, hbuffer, ?_, hknows⟩
      show (Function.update st.buffers b _ b).contents = some response
      rw [Function.update_self]
    · rw [hfits.1]
      exact fun _ _ => by simp
  case finish state =>
    obtain rfl := Option.some.inj hm
    obtain ⟨c, hc⟩ := hclient rfl
    obtain ⟨hrest, hfree⟩ := resting_of_finished hfits.2.2
    refine hserves.advances hi (by simp) hfits.1 hfree rfl id ⟨hrest, hfits.2.2⟩ (fun h => by cases h)
      (by simp) ?_
    intro hdone d hd
    refine hserves.answered (hd.written ?_) fun _ _ _ => by simp
    rw [hpc]
    exact congrArg ServePC.finish hdone
  case checkAbandoned state =>
    obtain rfl := Option.some.inj hm
    refine hserves.quiet hi rfl (by simp) ?_ ?_ ?_
    · dsimp only
      split
      · exact hfits
      · exact hfits.1
    · dsimp only
      split <;> exact fun h => by cases h
    · intro _ hfree hheld
      dsimp only at hfree
      split at hfree
      next habandoned =>
        obtain ⟨d, hd⟩ := Option.ne_none_iff_exists'.mp hheld
        exact (hs.held d hd).2.2.marked habandoned
      next => cases hfree
  case freeSlot state =>
    obtain rfl := Option.some.inj hm
    by_cases hstate : (st.slots s).state = state
    · have hnobody : (st.slots s).holder = none := by
        by_contra hheld
        have hearly := hs.freeing state hpc hheld
        obtain ⟨-, -, hclaimed, hrequest⟩ := resting_of_finished hfits.2
        rw [← hstate] at hclaimed hrequest
        cases hcase : (st.slots s).state <;> rw [hcase] at hearly hclaimed hrequest
        all_goals first
          | exact hclaimed rfl
          | exact hrequest rfl
          | cases hearly
      rw [if_pos hstate] at hserves ⊢
      refine hserves.inv hi (by simp) rfl True.intro ?_ ?_ (fun h => by cases h) (by simp) ?_
      · intro d hd
        rw [hnobody] at hd
        cases hd
      · exact fun _ => ⟨by simp, by simp, fun hne => absurd rfl hne⟩
      · intro d hd
        rw [hnobody] at hd
        cases hd
    · rw [if_neg hstate] at hserves ⊢
      exact hserves.quiet hi rfl (by simp) hfits.1 (fun h => by cases h) (by simp)

end Haybarn.Http
