import Haybarn.Http.Ownership

/-!
# Abandoned slots

A caller that gives up may leave its slot to the helper. Whichever of the two sees the slot
finished frees it, and `Leads` says that some steps of theirs do. One case is missing: a
helper that has the whole response asks for a buffer (`NEEDS_BUFFER`) and waits until it
is given one, and a caller that has left gives none. Such a slot is `Stranded`, and
stays so for ever (`Stranded.stays`).

`abandoned_reclaimable`: in the runs that are tidy, where no response comes for an abandoned
slot and no slot is abandoned while its response is on offer (`Timely`), every slot that is
marked abandoned can be led back to `FREE`. `abandoned_slot_leaks` is a run that is not timely.
-/

namespace Haybarn.Http

open Haybarn.Lib

variable {web : Web} {st st' : Mailbox} {c d : CallId} {s : Nat} {σ : Slot} {x : Call}

/-- The helper has a response and no buffer yet. -/
def ServePC.offering : ServePC → Bool
  | .storeSize _ | .announce _ => true
  | _ => false

/-- A response is on offer in the slot. -/
def Offered (st : Mailbox) (s : Nat) : Prop :=
  (st.serves s).pc.offering = true ∨ (st.slots s).state = .needsBuffer

instance : Decidable (Offered st s) := inferInstanceAs (Decidable (_ ∨ _))

/-- No slot is abandoned while a response is on offer, and no response comes for an abandoned
slot. -/
def Timely (st : Mailbox) : Event → Prop
  | .call c _ => (st.calls c).pc = .abandon → ¬ Offered st (st.calls c).slot
  | .serve s (.responds _) => (st.slots s).abandoned = false
  | _ => True

instance (st : Mailbox) : ∀ ev, Decidable (Timely st ev)
  | .call _ _ => inferInstanceAs (Decidable (_ → _))
  | .serve s (.responds _) => inferInstanceAs (Decidable ((st.slots s).abandoned = false))
  | .serve _ .nothing | .serve _ .throws | .serve _ .rejects | .ready | .start .. | .scan _
  | .watch _ | .freeResult _ => .isTrue trivial

/-- A response is on offer, and nobody holds the slot. -/
def Stranded (st : Mailbox) (s : Nat) : Prop := (st.slots s).holder = none ∧ Offered st s

/-- A step of a caller or of the helper in a slot. -/
def Working (_ : Mailbox) : Event → Prop
  | .call .. | .serve .. => True
  | _ => False

variable (web) in
/-- Steps of callers and of the helper lead the slot to `FREE`. -/
def Leads (st : Mailbox) (s : Nat) : Prop :=
  ∃ es st', Run (Mailbox.step web) Working st es st' ∧ (st'.slots s).state = .free

/-! ## What is left to do in a slot that nobody holds -/

/-- A finished slot that nobody holds is about to be freed: by the helper, or by the caller that
has abandoned it. -/
def Finishing (st : Mailbox) (s : Nat) : Prop :=
  (st.slots s).holder = none → (st.slots s).state ∈ finished →
    (st.serves s).pc = .checkAbandoned (st.slots s).state ∨
    (st.serves s).pc = .freeSlot (st.slots s).state ∨
    ∃ c rest, (st.calls c).pc = .sweep rest ∧ (st.calls c).slot = s ∧ (st.slots s).state ∈ rest

/-- A step of a caller that leaves the slot without a holder, and not free: it abandons the slot,
or it is outside and does not change the slot's state. -/
theorem Call.step_vacant {ready : Bool} {fresh : BufferId} {luck : Luck} {m : Move Call}
    (h : x.step c ready fresh luck σ = some m)
    (hheld : x.pc.holding = true → σ.holder = some c) (hnone : m.slot.holder = none)
    (hfree : m.slot.state ≠ .free) :
    m.slot.state = σ.state ∧ (x.pc = .abandon ∧ m.who = { x with pc := .sweep finished } ∨
      σ.holder = none ∧ ∀ rest, x.pc = .sweep rest → m.slot.state ∈ rest →
        ∃ rest', m.who.pc = .sweep rest' ∧ m.who.slot = x.slot ∧ m.slot.state ∈ rest') := by
  cases hpc : x.pc <;> simp only [Call.step, hpc] at h <;> rw [hpc] at hheld
  case unborn => cases h
  case returned => cases h
  case claim =>
    split at h
    next =>
      obtain rfl := Option.some.inj h
      cases hnone
    next =>
      split at h <;> obtain rfl := Option.some.inj h <;> exact ⟨rfl, .inr ⟨hnone, by simp⟩⟩
  case checkReady | unready =>
    obtain rfl := Option.some.inj h
    exact ⟨rfl, .inr ⟨hnone, by simp⟩⟩
  case sweep rest =>
    cases rest with
    | nil =>
      obtain rfl := Option.some.inj h
      refine ⟨rfl, .inr ⟨hnone, fun rest hrest hmem => ?_⟩⟩
      obtain rfl := CallPC.sweep.inj hrest
      cases hmem
    | cons value rest =>
      obtain rfl := Option.some.inj h
      by_cases hstate : σ.state = value
      · rw [if_pos hstate] at hfree
        exact absurd rfl hfree
      · rw [if_neg hstate] at hfree ⊢
        refine ⟨rfl, .inr ⟨hnone, fun all hall hmem => ?_⟩⟩
        obtain rfl := CallPC.sweep.inj hall
        exact ⟨rest, rfl, rfl, (List.mem_cons.mp hmem).resolve_left hstate⟩
  case abandon =>
    obtain rfl := Option.some.inj h
    exact ⟨rfl, .inl ⟨rfl, rfl⟩⟩
  case fill k =>
    split at h
    next store hstore =>
      obtain rfl := Option.some.inj h
      rw [(fills_keep (List.mem_of_getElem? hstore) σ).2, hheld rfl] at hnone
      cases hnone
    next =>
      obtain rfl := Option.some.inj h
      rw [hheld rfl] at hnone
      cases hnone
  case collect | leave =>
    obtain rfl := Option.some.inj h
    exact absurd rfl hfree
  case takeBack | withdraw =>
    split at h <;> obtain rfl := Option.some.inj h
    · exact absurd rfl hfree
    · rw [hheld rfl] at hnone
      cases hnone
  case readSize | decide =>
    split at h <;> obtain rfl := Option.some.inj h <;> rw [hheld rfl] at hnone <;> cases hnone
  all_goals
    obtain rfl := Option.some.inj h
    rw [hheld rfl] at hnone
    cases hnone

theorem Finishing.of_same (hf : Finishing st s) (hslot : st'.slots s = st.slots s)
    (hserve : (st'.serves s).pc = (st.serves s).pc)
    (hcall : ∀ d rest, (st.calls d).pc = .sweep rest → (st.calls d).slot = s →
      st'.calls d = st.calls d) : Finishing st' s := by
  intro hnone hfin
  rw [hslot] at hnone hfin ⊢
  rw [hserve]
  refine (hf hnone hfin).imp_right (Or.imp_right ?_)
  rintro ⟨d, rest, hpc, hat, hmem⟩
  have hsame := hcall d rest hpc hat
  exact ⟨d, rest, hsame ▸ hpc, hsame ▸ hat, hmem⟩

theorem Finishing.call_step {luck : Luck} (hi : Inv web st)
    (h : st.step web (.call c luck) = some st') (hf : Finishing st s) : Finishing st' s := by
  obtain ⟨m, hm, rfl⟩ := Option.map_eq_some_iff.mp h
  have hmoves : Moves st (st.moveCall c m) c m := moveCall_moves (Call.step_own hm)
  by_cases hs : s = (st.calls c).slot
  · obtain rfl := hs
    intro hnone hfin
    rw [hmoves.slot_self] at hnone hfin ⊢
    rw [hmoves.serves]
    obtain ⟨hstate, hcase⟩ := Call.step_vacant hm (hi.call c).holds hnone
      (resting_of_finished hfin).2.1
    rcases hcase with ⟨hpc, hwho⟩ | ⟨hold, hsweep⟩
    · -- the caller that has just abandoned the slot has all three values before it
      refine .inr (.inr ⟨c, finished, ?_, ?_, hfin⟩) <;> rw [hmoves.call_self, hwho]
    · rw [hstate] at hfin hsweep ⊢
      refine (hf hold hfin).imp_right (Or.imp_right ?_)
      rintro ⟨d, rest, hpc, hat, hmem⟩
      by_cases hdc : d = c
      · obtain rfl := hdc
        obtain ⟨rest', hpc', hat', hmem'⟩ := hsweep rest hpc hmem
        refine ⟨d, rest', ?_, ?_, hmem'⟩ <;> rw [hmoves.call_self]
        · exact hpc'
        · exact hat'
      · refine ⟨d, rest, ?_, ?_, hmem⟩ <;> rw [hmoves.call_ne hdc]
        · exact hpc
        · exact hat
  · refine hf.of_same (hmoves.slot_ne hs) (by rw [hmoves.serves]) fun d _ _ hat => ?_
    apply hmoves.call_ne
    rintro rfl
    exact hs hat.symm

/-- A slot whose serve is at work is not finished. -/
theorem Fits.unfinished {pc : ServePC} (h : Fits σ pc) (hpc : pc.active = true) :
    σ.state ∉ finished :=
  fun hfin => h.not_resting hpc (resting_of_finished hfin).1

/-- A serve stays at work until it finishes. -/
theorem Serve.step_active {memory : CallId → Request} {fate : Fate} {v : Serve} {m : Move Serve}
    (h : v.step web memory fate σ = some m) (hactive : v.pc.active = true) :
    m.who.pc.active = true ∨ ∃ state, v.pc = .finish state := by
  cases hpc : v.pc <;> simp only [Serve.step, hpc] at h <;> rw [hpc] at hactive
  case idle | claim | checkAbandoned | freeSlot => cases hactive
  case finish state => exact .inr ⟨state, rfl⟩
  case point part asked =>
    obtain rfl := Option.some.inj h
    refine .inl ?_
    dsimp only
    unfold pointed
    split <;> rfl
  case copy part ptr len asked =>
    split at h
    next =>
      obtain rfl := Option.some.inj h
      exact .inl rfl
    next =>
      obtain ⟨d, -, rfl⟩ := Option.map_eq_some_iff.mp h
      cases part <;> exact .inl rfl
  case copyHeader ptr count i asked =>
    split at h
    next =>
      split at h
      next =>
        obtain rfl := Option.some.inj h
        exact .inl rfl
      next =>
        obtain ⟨d, -, h⟩ := Option.bind_eq_some_iff.mp h
        obtain ⟨header, -, rfl⟩ := Option.map_eq_some_iff.mp h
        exact .inl rfl
    next =>
      obtain rfl := Option.some.inj h
      exact .inl rfl
  case fetching asked =>
    split at h
    next =>
      obtain rfl := Option.some.inj h
      exact .inl rfl
    next =>
      obtain rfl := Option.some.inj h
      exact .inl rfl
    next => cases h
  case awaitBuffer response =>
    split at h
    next =>
      obtain rfl := Option.some.inj h
      rw [hpc]
      exact .inl rfl
    next =>
      obtain rfl := Option.some.inj h
      exact .inl rfl
  case readBuffer response =>
    split at h <;> obtain rfl := Option.some.inj h <;> exact .inl rfl
  all_goals
    obtain rfl := Option.some.inj h
    exact .inl rfl

theorem Finishing.serve_step {t : Nat} {fate : Fate} (hi : Inv web st)
    (h : st.step web (.serve t fate) = some st') (hf : Finishing st s) : Finishing st' s := by
  have hi' := hi.serve_step h
  obtain ⟨m, hm, rfl⟩ := Option.map_eq_some_iff.mp h
  have hserves : Serves st (st.moveServe t m) t m := moveServe_serves (Serve.step_helpers hm)
  by_cases hs : s = t
  · obtain rfl := hs
    intro hnone hfin
    have hidle : m.who.pc.active = false := by
      rw [Bool.eq_false_iff]
      intro hactive
      rw [← hserves.serve_self] at hactive
      exact (hi'.slot s).fits.unfinished hactive hfin
    rw [hserves.slot_self] at hnone hfin ⊢
    rw [hserves.serve_self, hserves.calls]
    have hactive := Serve.step_active hm
    rw [hidle] at hactive
    cases hpc : (st.serves s).pc <;> simp only [Serve.step, hpc] at hm <;> rw [hpc] at hactive
    case idle => cases hm
    case claim =>
      split at hm <;> obtain rfl := Option.some.inj hm
      · cases hidle
      · refine (hf hnone hfin).elim (fun hcheck => ?_) (Or.elim · (fun hfree => ?_) fun hsweep => ?_)
        · rw [hpc] at hcheck
          cases hcheck
        · rw [hpc] at hfree
          cases hfree
        · exact .inr (.inr hsweep)
    case finish state =>
      obtain rfl := Option.some.inj hm
      exact .inl rfl
    case checkAbandoned state =>
      obtain rfl := Option.some.inj hm
      have habandoned := ((hi.slot s).vacant hnone).2.2 (resting_of_finished hfin).2.1
      rcases hf hnone hfin with hcheck | hfree | hsweep
      · rw [hpc] at hcheck
        refine .inr (.inl ?_)
        dsimp only
        rw [if_pos habandoned.2, ServePC.checkAbandoned.inj hcheck]
      · rw [hpc] at hfree
        cases hfree
      · exact .inr (.inr hsweep)
    case freeSlot state =>
      obtain rfl := Option.some.inj hm
      by_cases hstate : (st.slots s).state = state
      · rw [if_pos hstate] at hfin
        exact absurd rfl (resting_of_finished hfin).2.1
      · rw [if_neg hstate] at hfin ⊢
        rcases hf hnone hfin with hcheck | hfree | hsweep
        · rw [hpc] at hcheck
          cases hcheck
        · rw [hpc] at hfree
          exact absurd (ServePC.freeSlot.inj hfree).symm hstate
        · exact .inr (.inr hsweep)
    all_goals
      obtain hfalse | ⟨state, hfinish⟩ := hactive rfl
      · cases hfalse
      · cases hfinish
  · refine hf.of_same (hserves.slot_ne hs) (by rw [hserves.serve_ne hs]) fun d _ _ _ => ?_
    rw [hserves.calls]

theorem Finishing.step {ev : Event} (hi : Inv web st) (h : st.step web ev = some st')
    (hf : Finishing st s) : Finishing st' s := by
  cases ev with
  | call c luck => exact hf.call_step hi h
  | serve t fate => exact hf.serve_step hi h
  | ready =>
    obtain rfl := Option.some.inj h
    exact hf
  | start c r =>
    rw [Mailbox.step] at h
    split at h
    next hpc =>
      obtain rfl := Option.some.inj h
      refine hf.of_same rfl rfl fun d rest hsweep _ => ?_
      apply Function.update_of_ne
      rintro rfl
      rw [hpc] at hsweep
      cases hsweep
    next => cases h
  | scan t =>
    rw [Mailbox.step] at h
    split at h
    next hidle =>
      obtain rfl := Option.some.inj h
      by_cases hs : s = t
      · -- a request is not finished
        obtain rfl := hs
        intro _ hfin
        have hrequest : (st.slots s).state = .request := hidle.2.2
        exact absurd hrequest (resting_of_finished hfin).2.2.2
      · refine hf.of_same rfl ?_ fun _ _ _ _ => rfl
        dsimp only
        rw [Function.update_of_ne hs]
    next => cases h
  | watch t =>
    rw [Mailbox.step] at h
    split at h
    next asked hpc =>
      split at h
      next =>
        obtain rfl := Option.some.inj h
        refine hf.of_same rfl ?_ fun _ _ _ _ => rfl
        dsimp only
        by_cases hs : s = t
        · obtain rfl := hs
          rw [Function.update_self, hpc]
        · rw [Function.update_of_ne hs]
      next => cases h
    next => cases h
  | freeResult c =>
    rw [Mailbox.step] at h
    split at h
    next =>
      split at h
      next => cases h
      next =>
        obtain rfl := Option.some.inj h
        exact hf
    next => cases h

/-! ## Slots are not stranded -/

/-- A slot with a response on offer is not at rest, and its inputs are copied. -/
theorem Fits.offered (h : Fits (st.slots s) (st.serves s).pc) (hoffered : Offered st s) :
    (st.serves s).pc.active = true ∧ (st.slots s).copied = true := by
  rcases hoffered with hpc | hstate
  · cases hcase : (st.serves s).pc <;> rw [hcase] at hpc h <;> first
      | exact ⟨rfl, h.2⟩
      | cases hpc
  · obtain ⟨⟨bytes, hpc⟩, hcopied⟩ := h.awaits hstate
    rw [hpc]
    exact ⟨rfl, hcopied⟩

theorem stranded_call {luck : Luck} (hi : Inv web st) (htidy : Tidy st (.call c luck))
    (htimely : Timely st (.call c luck)) (h : st.step web (.call c luck) = some st')
    (hs : ¬ Stranded st s) : ¬ Stranded st' s := by
  have hi' := hi.call_step htidy h
  obtain ⟨m, hm, rfl⟩ := Option.map_eq_some_iff.mp h
  have hmoves : Moves st (st.moveCall c m) c m := moveCall_moves (Call.step_own hm)
  rintro ⟨hnone, hoffered⟩
  by_cases hat : s = (st.calls c).slot
  · obtain rfl := hat
    have hbusy : ¬ ((st.moveCall c m).slots (st.calls c).slot).state.resting :=
      (hi'.slot _).fits.not_resting ((hi'.slot _).fits.offered hoffered).1
    rw [hmoves.slot_self] at hnone hbusy
    have hfree : m.slot.state ≠ .free := by
      intro hfree
      rw [hfree] at hbusy
      exact hbusy True.intro
    obtain ⟨hstate, hcase⟩ := Call.step_vacant hm (hi.call c).holds hnone hfree
    have hold : Offered st (st.calls c).slot := by
      refine hoffered.imp ?_ ?_
      · rw [hmoves.serves]
        exact id
      · rw [hmoves.slot_self, hstate]
        exact id
    rcases hcase with ⟨hpc, -⟩ | ⟨hvacant, -⟩
    · exact htimely hpc hold
    · exact hs ⟨hvacant, hold⟩
  · apply hs
    rw [Stranded, Offered, hmoves.slot_ne hat, hmoves.serves] at *
    exact ⟨hnone, hoffered⟩

/-- A response is on offer because it was before, or because the `fetch` ends with one. -/
theorem Serve.step_offered {memory : CallId → Request} {fate : Fate} {v : Serve} {m : Move Serve}
    (h : v.step web memory fate σ = some m) (hfits : Fits σ v.pc)
    (hoffered : m.who.pc.offering = true ∨ m.slot.state = .needsBuffer) :
    m.slot.holder = σ.holder ∧ (v.pc.offering = true ∨ σ.state = .needsBuffer ∨
      ∃ asked response, v.pc = .fetching asked ∧ fate = .responds response) := by
  cases hpc : v.pc <;> simp only [Serve.step, hpc] at h <;> rw [hpc] at hfits
  case idle => cases h
  case storeSize | announce =>
    obtain rfl := Option.some.inj h
    exact ⟨rfl, .inl rfl⟩
  case fetching asked =>
    split at h
    next response =>
      obtain rfl := Option.some.inj h
      exact ⟨rfl, .inr (.inr ⟨asked, response, rfl, rfl⟩)⟩
    next =>
      obtain rfl := Option.some.inj h
      exact ⟨rfl, .inr (.inl (hoffered.resolve_left Bool.false_ne_true))⟩
    next => cases h
  case claim =>
    split at h <;> obtain rfl := Option.some.inj h
    · rcases hoffered with hpc' | hstate
      · cases hpc'
      · cases hstate
    · exact ⟨rfl, .inr (.inl (hoffered.resolve_left Bool.false_ne_true))⟩
  case point part asked =>
    obtain rfl := Option.some.inj h
    refine ⟨rfl, .inr (.inl (hoffered.resolve_left ?_))⟩
    dsimp only
    unfold pointed
    split <;> exact Bool.false_ne_true
  case copy part ptr len asked =>
    split at h
    next =>
      obtain rfl := Option.some.inj h
      exact ⟨rfl, .inr (.inl (hoffered.resolve_left Bool.false_ne_true))⟩
    next =>
      obtain ⟨d, -, rfl⟩ := Option.map_eq_some_iff.mp h
      refine ⟨rfl, .inr (.inl (hoffered.resolve_left ?_))⟩
      cases part <;> exact Bool.false_ne_true
  case copyHeader ptr count i asked =>
    split at h
    next =>
      split at h
      next =>
        obtain rfl := Option.some.inj h
        exact ⟨rfl, .inr (.inl (hoffered.resolve_left Bool.false_ne_true))⟩
      next =>
        obtain ⟨d, -, h⟩ := Option.bind_eq_some_iff.mp h
        obtain ⟨header, -, rfl⟩ := Option.map_eq_some_iff.mp h
        exact ⟨rfl, .inr (.inl (hoffered.resolve_left Bool.false_ne_true))⟩
    next =>
      obtain rfl := Option.some.inj h
      exact ⟨rfl, .inr (.inl (hoffered.resolve_left Bool.false_ne_true))⟩
  case awaitBuffer response =>
    split at h
    next hstate =>
      obtain rfl := Option.some.inj h
      exact ⟨rfl, .inr (.inl hstate)⟩
    next =>
      obtain rfl := Option.some.inj h
      exact ⟨rfl, .inr (.inl (hoffered.resolve_left Bool.false_ne_true))⟩
  case readBuffer response =>
    split at h <;> obtain rfl := Option.some.inj h <;>
      exact ⟨rfl, .inr (.inl (hoffered.resolve_left Bool.false_ne_true))⟩
  case finish state =>
    obtain rfl := Option.some.inj h
    have hstate : state = .needsBuffer := hoffered.resolve_left Bool.false_ne_true
    have hfin := hfits.2.2
    rw [hstate] at hfin
    simp [finished] at hfin
  case checkAbandoned state =>
    obtain rfl := Option.some.inj h
    refine ⟨rfl, .inr (.inl (hoffered.resolve_left ?_))⟩
    dsimp only
    split <;> exact Bool.false_ne_true
  case freeSlot state =>
    obtain rfl := Option.some.inj h
    refine ⟨rfl, .inr (.inl ?_)⟩
    have hstate := hoffered.resolve_left Bool.false_ne_true
    dsimp only at hstate
    split at hstate
    · cases hstate
    · exact hstate
  all_goals
    obtain rfl := Option.some.inj h
    exact ⟨rfl, .inr (.inl (hoffered.resolve_left Bool.false_ne_true))⟩

theorem stranded_serve {t : Nat} {fate : Fate} (hi : Inv web st)
    (htimely : Timely st (.serve t fate)) (h : st.step web (.serve t fate) = some st')
    (hs : ¬ Stranded st s) : ¬ Stranded st' s := by
  obtain ⟨m, hm, rfl⟩ := Option.map_eq_some_iff.mp h
  have hserves : Serves st (st.moveServe t m) t m := moveServe_serves (Serve.step_helpers hm)
  rintro ⟨hnone, hoffered⟩
  by_cases hat : s = t
  · obtain rfl := hat
    rw [Offered, hserves.slot_self, hserves.serve_self] at hoffered
    rw [hserves.slot_self] at hnone
    obtain ⟨hholder, hcase⟩ := Serve.step_offered hm (hi.slot s).fits hoffered
    rw [hholder] at hnone
    rcases hcase with hpc | hstate | ⟨asked, response, hpc, rfl⟩
    · exact hs ⟨hnone, .inl hpc⟩
    · exact hs ⟨hnone, .inr hstate⟩
    · -- a slot without a holder is abandoned
      have hfits := (hi.slot s).fits
      rw [hpc] at hfits
      have habandoned := (((hi.slot s).vacant hnone).2.2 (by rw [hfits.1]; nofun)).2
      have hkept : (st.slots s).abandoned = false := htimely
      rw [hkept] at habandoned
      cases habandoned
  · apply hs
    rw [Stranded, Offered, hserves.slot_ne hat, hserves.serve_ne hat] at *
    exact ⟨hnone, hoffered⟩

theorem stranded_step {ev : Event} (hi : Inv web st) (htidy : Tidy st ev) (htimely : Timely st ev)
    (h : st.step web ev = some st') (hs : ¬ Stranded st s) : ¬ Stranded st' s := by
  cases ev with
  | call c luck => exact stranded_call hi htidy htimely h hs
  | serve t fate => exact stranded_serve hi htimely h hs
  | ready =>
    obtain rfl := Option.some.inj h
    exact hs
  | start c r =>
    rw [Mailbox.step] at h
    split at h
    next =>
      obtain rfl := Option.some.inj h
      exact hs
    next => cases h
  | scan t =>
    rw [Mailbox.step] at h
    split at h
    next hidle =>
      obtain rfl := Option.some.inj h
      rintro ⟨hnone, hoffered⟩
      refine hs ⟨hnone, hoffered.imp_left fun hpc => ?_⟩
      dsimp only at hpc
      by_cases hat : s = t
      · rw [hat, Function.update_self] at hpc
        cases hpc
      · rw [Function.update_of_ne hat] at hpc
        exact hpc
    next => cases h
  | watch t =>
    rw [Mailbox.step] at h
    split at h
    next asked hpc =>
      split at h
      next =>
        obtain rfl := Option.some.inj h
        rintro ⟨hnone, hoffered⟩
        refine hs ⟨hnone, hoffered.imp_left fun hpc' => ?_⟩
        dsimp only at hpc'
        by_cases hat : s = t
        · rw [hat, Function.update_self] at hpc'
          cases hpc'
        · rw [Function.update_of_ne hat] at hpc'
          exact hpc'
      next => cases h
    next => cases h
  | freeResult c =>
    rw [Mailbox.step] at h
    split at h
    next =>
      split at h
      next => cases h
      next =>
        obtain rfl := Option.some.inj h
        exact hs
    next => cases h

/-! ## The way to `FREE` -/

namespace Leads

theorem cons {ev : Event} (hworking : Working st ev) (h : st.step web ev = some st')
    (hl : Leads web st' s) : Leads web st s := by
  obtain ⟨es, st₁, hrun, hfree⟩ := hl
  have hfirst : Run (Mailbox.step web) Working st [ev] st' := .snoc .nil hworking h
  exact ⟨_, st₁, hfirst.trans hrun, hfree⟩

theorem free (h : (st.slots s).state = .free) : Leads web st s := ⟨[], st, .nil, h⟩

/-- A step of the helper on the way. -/
theorem serve {m : Move Serve} (fate : Fate)
    (hm : (st.serves s).step web (fun c => (st.calls c).request) fate (st.slots s) = some m)
    (hl : ∀ st', Serves st st' s m → Leads web st' s) : Leads web st s := by
  refine cons (show Working st (.serve s fate) from trivial) ?_
    (hl _ (moveServe_serves (Serve.step_helpers hm)))
  rw [Mailbox.step, hm, Option.map_some]

/-- A step of the call on the way. -/
theorem call {m : Move Call} (luck : Luck)
    (hm : (st.calls c).step c st.ready st.fresh luck (st.slots (st.calls c).slot) = some m)
    (hl : ∀ st', Moves st st' c m → Leads web st' s) : Leads web st s := by
  refine cons (show Working st (.call c luck) from trivial) ?_ (hl _ (moveCall_moves (Call.step_own hm)))
  rw [Mailbox.step, hm, Option.map_some]

/-! ### The helper's -/

theorem freeSlot (hpc : (st.serves s).pc = .freeSlot (st.slots s).state) : Leads web st s := by
  refine serve .nothing (by rw [Serve.step, hpc]) fun st' hst' => free ?_
  rw [hst'.slot_self]
  exact if_pos rfl

theorem checkAbandoned (hpc : (st.serves s).pc = .checkAbandoned (st.slots s).state)
    (habandoned : (st.slots s).abandoned = true) : Leads web st s := by
  refine serve .nothing (by rw [Serve.step, hpc]) fun st' hst' => freeSlot ?_
  rw [hst'.serve_self, hst'.slot_self]
  exact if_pos habandoned

theorem finish (state : State) (hpc : (st.serves s).pc = .finish state)
    (habandoned : (st.slots s).abandoned = true) : Leads web st s := by
  refine serve .nothing (by rw [Serve.step, hpc]) fun st' hst' => checkAbandoned ?_ ?_
  · rw [hst'.serve_self, hst'.slot_self]
  · rw [hst'.slot_self]
    exact habandoned

theorem fetching {asked : Asked} (hpc : (st.serves s).pc = .fetching asked)
    (habandoned : (st.slots s).abandoned = true) : Leads web st s := by
  refine serve .rejects (by rw [Serve.step, hpc]) fun st' hst' => ?_
  refine finish (if (st.serves s).aborted then .cancelled else .failed) ?_ ?_
  · rw [hst'.serve_self]
  · rw [hst'.slot_self]
    exact habandoned

theorem write (b : BufferId) (bytes : List UInt8) (hpc : (st.serves s).pc = .write b bytes)
    (habandoned : (st.slots s).abandoned = true) : Leads web st s := by
  refine serve .nothing (by rw [Serve.step, hpc]) fun st' hst' => finish .done ?_ ?_
  · rw [hst'.serve_self]
  · rw [hst'.slot_self]
    exact habandoned

theorem readBuffer (bytes : List UInt8) (hpc : (st.serves s).pc = .readBuffer bytes)
    (habandoned : (st.slots s).abandoned = true) : Leads web st s := by
  cases hbuffer : (st.slots s).buffer with
  | none =>
    refine serve .nothing (by rw [Serve.step, hpc, hbuffer]) fun st' hst' => ?_
    refine finish .cancelled ?_ ?_
    · rw [hst'.serve_self]
    · rw [hst'.slot_self]
      exact habandoned
  | some b =>
    refine serve .nothing (by rw [Serve.step, hpc, hbuffer]) fun st' hst' => ?_
    refine write b bytes ?_ ?_
    · rw [hst'.serve_self]
    · rw [hst'.slot_self]
      exact habandoned

theorem awaitBuffer {bytes : List UInt8} (hpc : (st.serves s).pc = .awaitBuffer bytes)
    (hstate : (st.slots s).state ≠ .needsBuffer) (habandoned : (st.slots s).abandoned = true) :
    Leads web st s := by
  refine serve .nothing (by rw [Serve.step, hpc]; exact if_neg hstate) fun st' hst' => ?_
  refine readBuffer bytes ?_ ?_
  · rw [hst'.serve_self]
  · rw [hst'.slot_self]
    exact habandoned

/-! ### The callers' -/

theorem sweep {rest : List State} (hpc : (st.calls c).pc = .sweep rest)
    (hat : (st.calls c).slot = s) (hmem : (st.slots s).state ∈ rest) : Leads web st s := by
  induction rest generalizing st with
  | nil => cases hmem
  | cons value rest ih =>
    refine call .nothing (by rw [Call.step, hpc]) fun st' hst' => ?_
    have hslot := hst'.slot_self
    rw [hat] at hslot
    by_cases hstate : (st.slots s).state = value
    · apply free
      rw [hslot]
      exact if_pos hstate
    · rw [if_neg hstate] at hslot
      refine ih ?_ ?_ ?_
      · rw [hst'.call_self]
      · rw [hst'.call_self]
        exact hat
      · rw [hslot]
        exact (List.mem_cons.mp hmem).resolve_left hstate

theorem takeBack (hpc : (st.calls c).pc = .takeBack) (hat : (st.calls c).slot = s)
    (hstate : (st.slots s).state = .request) : Leads web st s := by
  obtain rfl := hat
  refine call .nothing (by rw [Call.step, hpc]; exact if_pos hstate) fun st' hst' => free ?_
  rw [hst'.slot_self]
  rfl

theorem recheck (hpc : (st.calls c).pc = .recheck) (hat : (st.calls c).slot = s)
    (hstate : (st.slots s).state = .request) : Leads web st s := by
  obtain rfl := hat
  refine call .overdue (by rw [Call.step, hpc]) fun st' hst' => takeBack (c := c) ?_ ?_ ?_
  · rw [hst'.call_self]
    exact if_pos ⟨hstate, rfl⟩
  · rw [hst'.call_self]
  · rw [hst'.slot_self, hstate]

theorem wait (hpc : (st.calls c).pc = .wait) (hat : (st.calls c).slot = s)
    (hstate : (st.slots s).state = .request) : Leads web st s := by
  obtain rfl := hat
  refine call .nothing (by rw [Call.step, hpc]) fun st' hst' => recheck (c := c) ?_ ?_ ?_
  · rw [hst'.call_self]
  · rw [hst'.call_self]
  · rw [hst'.slot_self, hstate]

theorem poll (hpc : (st.calls c).pc = .poll) (hat : (st.calls c).slot = s)
    (hstate : (st.slots s).state = .request) : Leads web st s := by
  obtain rfl := hat
  refine call .nothing (by rw [Call.step, hpc]) fun st' hst' => wait (c := c) ?_ ?_ ?_
  · rw [hst'.call_self, hstate]
    rfl
  · rw [hst'.call_self]
  · rw [hst'.slot_self, hstate]

/-- A request that is not posted yet is posted and, when nobody picks it up, taken back. -/
theorem fill {k n : Nat} (hpc : (st.calls c).pc = .fill k) (hat : (st.calls c).slot = s)
    (hleft : (fills c (st.calls c).request).length ≤ k + n) : Leads web st s := by
  obtain rfl := hat
  induction n generalizing st k with
  | zero =>
    have hnone : (fills c (st.calls c).request)[k]? = none := List.getElem?_eq_none hleft
    refine call .nothing (by rw [Call.step, hpc]; dsimp only; rw [hnone]) fun st' hst' => ?_
    have hslot := congrArg Call.slot hst'.call_self
    refine poll (c := c) ?_ hslot ?_
    · rw [hst'.call_self]
    · rw [hst'.slot_self]
  | succ n ih =>
    cases hstore : (fills c (st.calls c).request)[k]? with
    | none =>
      refine call .nothing (by rw [Call.step, hpc]; dsimp only; rw [hstore]) fun st' hst' => ?_
      have hslot := congrArg Call.slot hst'.call_self
      refine poll (c := c) ?_ hslot ?_
      · rw [hst'.call_self]
      · rw [hst'.slot_self]
    | some store =>
      refine call .nothing (by rw [Call.step, hpc]; dsimp only; rw [hstore]) fun st' hst' => ?_
      have hslot := congrArg Call.slot hst'.call_self
      have hnext : Leads web st' (st'.calls c).slot := ih (k := k + 1) (by rw [hst'.call_self]) (by
        rw [hst'.call_self]
        show (fills c (st.calls c).request).length ≤ k + 1 + n
        omega)
      rw [hslot] at hnext
      exact hnext

end Leads

/-- Only a holder that fills the lanes has a slot that is claimed. -/
theorem Agrees.filling (h : Agrees c x σ) (hstate : σ.state = .claimed) : ∃ k, x.pc = .fill k := by
  unfold Agrees at h
  rw [hstate] at h
  cases hpc : x.pc <;> rw [hpc] at h
  case fill k => exact ⟨k, rfl⟩
  case release | leave => rcases h.1 with h | h <;> cases h
  all_goals first
    | cases h.1
    | exact absurd rfl h.2.1

/-- An abandoned slot that is not stranded can be freed. -/
theorem Inv.leads (hi : Inv web st) (hf : Finishing st s) (hs : ¬ Stranded st s)
    (habandoned : (st.slots s).abandoned = true) : Leads web st s := by
  have hslot := hi.slot s
  cases hholder : (st.slots s).holder with
  | some c =>
    obtain ⟨-, hat, hagrees⟩ := hslot.held c hholder
    have hclaimed : (st.slots s).state = .claimed := by
      by_contra hstate
      have hkept := (hagrees.inputs hstate).kept
      rw [habandoned] at hkept
      cases hkept
    obtain ⟨k, hpc⟩ := hagrees.filling hclaimed
    exact Leads.fill hpc hat (Nat.le_add_left _ k)
  | none =>
    have hfits := hslot.fits
    obtain ⟨hclaimed, hrequest, hleft⟩ := hslot.vacant hholder
    by_cases hfree : (st.slots s).state = .free
    · exact .free hfree
    by_cases hfin : (st.slots s).state ∈ finished
    · rcases hf hholder hfin with hpc | hpc | ⟨c, rest, hpc, hat, hmem⟩
      · exact .checkAbandoned hpc habandoned
      · exact .freeSlot hpc
      · exact .sweep hpc hat hmem
    have hbusy : ¬ (st.slots s).state.resting := by
      intro hrest
      cases hstate : (st.slots s).state <;> rw [hstate] at hfree hclaimed hrequest hfin hrest <;>
        simp_all [finished, State.resting]
    have hcopied := (hleft hfree).1
    cases hpc : (st.serves s).pc <;> rw [hpc] at hfits
    case idle | claim => exact absurd hfits hbusy
    case checkAbandoned | freeSlot => exact absurd hfits.1 hbusy
    case fetching => exact .fetching hpc habandoned
    case finish state => exact .finish state hpc habandoned
    case write b bytes => exact .write b bytes hpc habandoned
    case readBuffer bytes => exact .readBuffer bytes hpc habandoned
    case awaitBuffer bytes =>
      exact .awaitBuffer hpc (fun hstate => hs ⟨hholder, .inr hstate⟩) habandoned
    case storeSize | announce =>
      refine absurd ⟨hholder, .inl ?_⟩ hs
      rw [hpc]
      rfl
    all_goals
      -- the inputs are not copied yet, so their caller is still there
      exact absurd (hcopied.symm.trans hfits.2) (by simp)

theorem finishing_of_run {es : List Event} (h : Run (Mailbox.step web) Tidy {} es st) (s : Nat) :
    Finishing st s := by
  have hboth : Inv web st ∧ Finishing st s := by
    refine h.invariant (P := fun st => Inv web st ∧ Finishing st s) ⟨.initial, ?_⟩ ?_
    · intro _ hfin
      exact absurd rfl (resting_of_finished hfin).2.1
    · exact fun st ev st' hi hok hs => ⟨hi.1.step hok hs, hi.2.step hi.1 hs⟩
  exact hboth.2

/-- **Abandoned slots are reclaimable**: in a run that is tidy and timely, a slot that is marked
abandoned can be led back to `FREE`. -/
theorem abandoned_reclaimable {es : List Event}
    (h : Run (Mailbox.step web) (fun st ev => Tidy st ev ∧ Timely st ev) {} es st) (s : Nat)
    (habandoned : (st.slots s).abandoned = true) : Leads web st s := by
  have htidy : Run (Mailbox.step web) Tidy {} es st := h.mono fun _ _ hok => hok.1
  have hstranded : Inv web st ∧ ¬ Stranded st s := by
    refine h.invariant (P := fun st => Inv web st ∧ ¬ Stranded st s) ⟨.initial, ?_⟩ ?_
    · rintro ⟨-, hpc | hstate⟩
      · cases hpc
      · cases hstate
    · exact fun st ev st' hi hok hs => ⟨hi.1.step hok.1 hs, stranded_step hi.1 hok.1 hok.2 hs hi.2⟩
  exact hstranded.1.leads (finishing_of_run htidy s) hstranded.2 habandoned

/-! ## Stranded slots -/

/-- A response is on offer, and no call is at a point where it would change the slot. -/
structure Doomed (st : Mailbox) (s : Nat) : Prop where
  offered : (st.serves s).pc.offering = true ∧ (st.slots s).state = .inFlight ∨
    (∃ bytes, (st.serves s).pc = .awaitBuffer bytes) ∧ (st.slots s).state = .needsBuffer
  outside : ∀ c, (st.calls c).slot = s → (st.calls c).pc.holding = false ∧
    ∀ rest, (st.calls c).pc = .sweep rest → ∀ value ∈ rest, value ∈ finished

theorem Doomed.busy (h : Doomed st s) : ¬ (st.slots s).state.resting := by
  rcases h.offered with ⟨-, hstate⟩ | ⟨-, hstate⟩ <;> rw [hstate] <;> exact id

theorem Inv.doomed (hi : Inv web st) (hs : Stranded st s) : Doomed st s := by
  refine ⟨?_, fun c hat => ⟨?_, (hi.call c).sweeps⟩⟩
  · rcases hs.2 with hpc | hstate
    · refine .inl ⟨hpc, ?_⟩
      have hfits := (hi.slot s).fits
      cases hcase : (st.serves s).pc <;> rw [hcase] at hpc hfits <;> first
        | exact hfits.1
        | cases hpc
    · exact .inr ⟨((hi.slot s).fits.awaits hstate).1, hstate⟩
  · rw [Bool.eq_false_iff]
    intro hholding
    have hholds := (hi.call c).holds hholding
    rw [hat, hs.1] at hholds
    cases hholds

/-- A call that does not hold a slot does not change one where a serve is under way. -/
theorem Call.step_outside {ready : Bool} {fresh : BufferId} {luck : Luck} {m : Move Call}
    (h : x.step c ready fresh luck σ = some m) (hpc : x.pc.holding = false)
    (hsweep : ∀ rest, x.pc = .sweep rest → ∀ value ∈ rest, value ∈ finished)
    (hbusy : ¬ σ.state.resting) :
    m.slot = σ ∧ m.who.pc.holding = false ∧
      ∀ rest, m.who.pc = .sweep rest → ∀ value ∈ rest, value ∈ finished := by
  cases hcase : x.pc <;> simp only [Call.step, hcase] at h <;> rw [hcase] at hpc
  case unborn => cases h
  case returned => cases h
  case checkReady =>
    obtain rfl := Option.some.inj h
    dsimp only
    split <;> exact ⟨rfl, rfl, fun _ => by simp⟩
  case unready =>
    obtain rfl := Option.some.inj h
    exact ⟨rfl, rfl, fun _ => by simp⟩
  case claim =>
    split at h
    next hfree =>
      rw [hfree] at hbusy
      exact absurd True.intro hbusy
    next =>
      split at h <;> obtain rfl := Option.some.inj h <;> exact ⟨rfl, rfl, fun _ => by simp⟩
  case sweep rest =>
    have hfin := hsweep rest hcase
    cases rest with
    | nil =>
      obtain rfl := Option.some.inj h
      exact ⟨rfl, rfl, fun _ => by simp⟩
    | cons value rest =>
      obtain rfl := Option.some.inj h
      have hne : σ.state ≠ value := by
        rintro rfl
        exact hbusy (resting_of_finished (hfin _ (.head _))).1
      refine ⟨?_, rfl, ?_⟩
      · rw [if_neg hne]
      · intro tail htail
        obtain rfl := CallPC.sweep.inj htail
        exact fun v hv => hfin v (.tail _ hv)
  all_goals cases hpc

/-- A call stays at its slot, or goes on to claim the next one. -/
theorem Call.step_slot {ready : Bool} {fresh : BufferId} {luck : Luck} {m : Move Call}
    (h : x.step c ready fresh luck σ = some m) : m.who.slot = x.slot ∨ m.who.pc = .claim := by
  cases hcase : x.pc <;> simp only [Call.step, hcase] at h
  case unborn => cases h
  case returned => cases h
  case claim =>
    repeat' split at h
    all_goals obtain rfl := Option.some.inj h
    · exact .inl rfl
    · exact .inr rfl
    · exact .inl rfl
  case sweep rest => cases rest <;> obtain rfl := Option.some.inj h <;> exact .inl rfl
  all_goals
    repeat' split at h
    all_goals
      obtain rfl := Option.some.inj h
      exact .inl rfl

theorem Doomed.of_same (h : Doomed st s) (hslot : st'.slots s = st.slots s)
    (hserve : (st'.serves s).pc = (st.serves s).pc)
    (hcall : ∀ d, (st'.calls d).slot = s → (st'.calls d).pc.holding = false ∧
      ∀ rest, (st'.calls d).pc = .sweep rest → ∀ value ∈ rest, value ∈ finished) :
    Doomed st' s := by
  refine ⟨?_, hcall⟩
  rw [hslot, hserve]
  exact h.offered

theorem Doomed.call_step {luck : Luck} (hd : Doomed st s)
    (h : st.step web (.call c luck) = some st') : Doomed st' s := by
  obtain ⟨m, hm, rfl⟩ := Option.map_eq_some_iff.mp h
  have hmoves : Moves st (st.moveCall c m) c m := moveCall_moves (Call.step_own hm)
  by_cases hat : (st.calls c).slot = s
  · obtain ⟨hholding, hsweep⟩ := hd.outside c hat
    have hbusy := hd.busy
    rw [← hat] at hbusy
    obtain ⟨hslot, hholding', hsweep'⟩ := Call.step_outside hm hholding hsweep hbusy
    refine hd.of_same ?_ (by rw [hmoves.serves]) fun d hdat => ?_
    · rw [← hat, hmoves.slot_self, hslot]
    · by_cases hdc : d = c
      · rw [hdc, hmoves.call_self]
        exact ⟨hholding', hsweep'⟩
      · rw [hmoves.call_ne hdc] at hdat ⊢
        exact hd.outside d hdat
  · refine hd.of_same (hmoves.slot_ne (Ne.symm hat)) (by rw [hmoves.serves]) fun d hdat => ?_
    by_cases hdc : d = c
    · -- a call that comes to the slot only tries to claim it
      rw [hdc, hmoves.call_self] at hdat ⊢
      rcases Call.step_slot hm with hslot | hpc
      · exact absurd (hslot.symm.trans hdat) hat
      · rw [hpc]
        exact ⟨rfl, fun _ => nofun⟩
    · rw [hmoves.call_ne hdc] at hdat ⊢
      exact hd.outside d hdat

theorem Doomed.serve_step {t : Nat} {fate : Fate} (hd : Doomed st s)
    (h : st.step web (.serve t fate) = some st') : Doomed st' s := by
  obtain ⟨m, hm, rfl⟩ := Option.map_eq_some_iff.mp h
  have hserves : Serves st (st.moveServe t m) t m := moveServe_serves (Serve.step_helpers hm)
  have hcalls : ∀ d, ((st.moveServe t m).calls d).slot = s →
      ((st.moveServe t m).calls d).pc.holding = false ∧ ∀ rest,
        ((st.moveServe t m).calls d).pc = .sweep rest → ∀ value ∈ rest, value ∈ finished := by
    rw [hserves.calls]
    exact hd.outside
  by_cases hs : s = t
  · obtain rfl := hs
    refine ⟨?_, hcalls⟩
    rw [hserves.serve_self, hserves.slot_self]
    rcases hd.offered with ⟨hpc, hstate⟩ | ⟨⟨bytes, hpc⟩, hstate⟩
    · cases hcase : (st.serves s).pc <;> rw [hcase] at hpc
      case storeSize =>
        simp only [Serve.step, hcase] at hm
        obtain rfl := Option.some.inj hm
        exact .inl ⟨rfl, hstate⟩
      case announce bytes =>
        simp only [Serve.step, hcase] at hm
        obtain rfl := Option.some.inj hm
        exact .inr ⟨⟨bytes, rfl⟩, rfl⟩
      all_goals cases hpc
    · simp only [Serve.step, hpc, hstate, if_true] at hm
      obtain rfl := Option.some.inj hm
      exact .inr ⟨⟨bytes, hpc⟩, hstate⟩
  · exact hd.of_same (hserves.slot_ne hs) (by rw [hserves.serve_ne hs]) hcalls

theorem Doomed.step {ev : Event} (hd : Doomed st s) (h : st.step web ev = some st') :
    Doomed st' s := by
  cases ev with
  | call c luck => exact hd.call_step h
  | serve t fate => exact hd.serve_step h
  | ready =>
    obtain rfl := Option.some.inj h
    exact hd.of_same rfl rfl hd.outside
  | start c r =>
    rw [Mailbox.step] at h
    split at h
    next =>
      obtain rfl := Option.some.inj h
      refine hd.of_same rfl rfl fun d hat => ?_
      dsimp only at hat ⊢
      by_cases hdc : d = c
      · rw [hdc, Function.update_self]
        exact ⟨rfl, fun _ => by simp⟩
      · rw [Function.update_of_ne hdc] at hat ⊢
        exact hd.outside d hat
    next => cases h
  | scan t =>
    rw [Mailbox.step] at h
    split at h
    next hidle =>
      obtain rfl := Option.some.inj h
      refine hd.of_same rfl ?_ hd.outside
      have hs : s ≠ t := by
        rintro rfl
        have hrequest : (st.slots s).state = .request := hidle.2.2
        rcases hd.offered with ⟨-, hstate⟩ | ⟨-, hstate⟩ <;> rw [hrequest] at hstate <;> cases hstate
      dsimp only
      rw [Function.update_of_ne hs]
    next => cases h
  | watch t =>
    rw [Mailbox.step] at h
    split at h
    next asked hpc =>
      split at h
      next =>
        obtain rfl := Option.some.inj h
        refine hd.of_same rfl ?_ hd.outside
        dsimp only
        by_cases hs : s = t
        · rw [hs, Function.update_self, hpc]
        · rw [Function.update_of_ne hs]
      next => cases h
    next => cases h
  | freeResult c =>
    rw [Mailbox.step] at h
    split at h
    next =>
      split at h
      next => cases h
      next =>
        obtain rfl := Option.some.inj h
        exact hd.of_same rfl rfl hd.outside
    next => cases h

/-- A stranded slot is never freed, whatever happens. -/
theorem Stranded.stays {es : List Event} (hs : Stranded st s) (hi : Inv web st)
    (h : Run (Mailbox.step web) Always st es st') : (st'.slots s).state ≠ .free := by
  have hd : Doomed st' s :=
    h.invariant (P := fun st => Doomed st s) (hi.doomed hs) fun _ _ _ hd _ hstep => hd.step hstep
  intro hfree
  apply hd.busy
  rw [hfree]
  exact True.intro

/-- In a tidy run a slot that is marked abandoned can be freed just when it is not stranded. -/
theorem reclaimable_iff {es : List Event} (h : Run (Mailbox.step web) Tidy {} es st) (s : Nat)
    (habandoned : (st.slots s).abandoned = true) : Leads web st s ↔ ¬ Stranded st s := by
  have hi : Inv web st := .of_run h
  constructor
  · rintro ⟨es', st', hrun, hfree⟩ hs
    exact hs.stays hi (hrun.mono fun _ _ _ => trivial) hfree
  · exact fun hs => hi.leads (finishing_of_run h s) hs habandoned

/-! ## Two runs -/

/-- Call 0 has raised abort and waits out the grace period when the response arrives; in the same
turn of its loop it finds the period over, and abandons the slot with the response on offer. -/
def lateResponse : List Event :=
  .ready :: posts 0 ++ copies ++ calling 0 3 ++ .call 0 .cancelled :: calling 0 2 ++
    .serve 0 (.responds emptyResponse) :: serving 2 ++ calling 0 2 ++ .call 0 .overdue :: calling 0 7

/-- **An abandoned slot leaks**: the helper waits for a buffer, the caller has returned, and the
slot is never freed. -/
theorem abandoned_slot_leaks : ∃ st, Run (Mailbox.step ascii) Tidy {} lateResponse st ∧
    (st.slots 0).abandoned = true ∧ (st.calls 0).pc = .returned .cancelled ∧
    (st.slots 0).state = .needsBuffer ∧ ∀ es st',
      Run (Mailbox.step ascii) Always st es st' → (st'.slots 0).state ≠ .free := by
  obtain ⟨st, hrun, hp⟩ := Run.exists_of_execute (show (execute (Mailbox.step ascii) Tidy {}
    lateResponse).map (fun st => decide ((st.slots 0).abandoned = true ∧
      (st.calls 0).pc = .returned .cancelled ∧ (st.slots 0).state = .needsBuffer ∧
      (st.slots 0).holder = none)) = some true by decide +kernel)
  obtain ⟨habandoned, hpc, hstate, hnone⟩ := of_decide_eq_true hp
  exact ⟨st, hrun, habandoned, hpc, hstate, fun es st' h =>
    Stranded.stays ⟨hnone, .inr hstate⟩ (.of_run hrun) h⟩

/-- Call 0 gives up while its fetch is under way. -/
def earlyGiveUp : List Event := .ready :: posts 0 ++ copies ++ givesUp 0

theorem abandoned_reclaimable_early : ∃ st, Run (Mailbox.step ascii)
    (fun st ev => Tidy st ev ∧ Timely st ev) {} earlyGiveUp st ∧
    (st.slots 0).abandoned = true ∧ Leads ascii st 0 := by
  obtain ⟨st, hrun, hp⟩ := Run.exists_of_execute (show (execute (Mailbox.step ascii)
    (fun st ev => Tidy st ev ∧ Timely st ev) {} earlyGiveUp).map
      (fun st => decide ((st.slots 0).abandoned = true)) = some true by decide +kernel)
  have habandoned := of_decide_eq_true hp
  exact ⟨st, hrun, habandoned, abandoned_reclaimable hrun 0 habandoned⟩

theorem reclaimable_iff_early : ∃ st, Run (Mailbox.step ascii) Tidy {} earlyGiveUp st ∧
    (st.slots 0).abandoned = true ∧ (Leads ascii st 0 ↔ ¬ Stranded st 0) := by
  obtain ⟨st, hrun, hp⟩ := Run.exists_of_execute (show (execute (Mailbox.step ascii) Tidy {}
    earlyGiveUp).map (fun st => decide ((st.slots 0).abandoned = true)) = some true by
      decide +kernel)
  have habandoned := of_decide_eq_true hp
  exact ⟨st, hrun, habandoned, reclaimable_iff hrun 0 habandoned⟩

end Haybarn.Http
