import Haybarn.Bridge.Ready

/-!
# What passes between an adapter and the bridge

The entry of an adapter and the conversation with its worker change together:
`AdapterStep` says what an event does to both. While the entry exists only its own
events speak to its worker, so the conversation is the log of one channel.
-/

namespace Haybarn.Bridge

open Haybarn.Lib

/-- The conversation with `w`, in the order of the messages. -/
def talk (log : List (WorkerId × Exchange)) (w : WorkerId) : List Exchange :=
  log.filterMap fun x => if x.1 = w then some x.2 else none

theorem talk_append (log new : List (WorkerId × Exchange)) (w : WorkerId) :
    talk (log ++ new) w = talk log w ++ talk new w := List.filterMap_append

theorem talk_quiet {new : List (WorkerId × Exchange)} {w : WorkerId}
    (h : ∀ x ∈ new, x.1 ≠ w) : talk new w = [] := by
  unfold talk
  rw [List.filterMap_eq_nil_iff]
  intro x hx
  rw [if_neg (h x hx)]

theorem talk_sent (ms : List Msg) (w : WorkerId) :
    talk (ms.map fun m => (w, Exchange.sent m)) w = ms.map .sent := by
  unfold talk
  rw [List.filterMap_map, ← List.filterMap_eq_map]
  refine List.filterMap_congr fun m _ => ?_
  simp

theorem talk_one (w : WorkerId) (x : Exchange) : talk [(w, x)] w = [x] := by
  simp [talk]

theorem talk_other {w w' : WorkerId} (h : w' ≠ w) (x : Exchange) : talk [(w', x)] w = [] :=
  talk_quiet (by simpa using h)

variable {opts : Options} {s s' : State} {ev : Event}

/-! ## Who speaks to the worker of an entry -/

/-- The worker of an entry is spoken to only by the entry's own events. -/
theorem Roles.entry_quiet (hr : Roles s) {new : List (WorkerId × Exchange)} {key : String}
    {e : AdapterEntry} (hl : Logged opts s ev new) (hk : s.adapters key = some e)
    (hbegin : ∀ i first second, ev ≠ .begin key i first second)
    (hreply : ∀ id ok, ev ≠ .registrationReply key id ok) : ∀ x ∈ new, x.1 ≠ e.worker := by
  have hold : Holds s e.worker key := .entry e hk rfl
  have hboot : ∀ k boot, s.pendingAdapters k = some boot → boot.worker ≠ some e.worker := by
    intro k boot hb hw
    obtain rfl := hr.unique _ k key (.boot boot hb hw) hold
    rw [hr.apart k (by rw [hb]; simp)] at hk
    cases hk
  intro x hx
  cases hl with
  | nothing => cases hx
  | bootInit k boot hb hw =>
    obtain rfl := List.mem_singleton.mp hx
    dsimp only
    split
    next happ =>
      intro he
      obtain rfl := (hr.appKey k boot hb happ).trans (hr.held key (he ▸ hold)).symm
      rw [hr.apart k (by rw [hb]; simp)] at hk
      cases hk
    next => exact Nat.ne_of_gt (hr.bound _ key hold)
  | bootReply k boot w ok hb hw =>
    obtain rfl := List.mem_singleton.mp hx
    exact fun he => hboot k boot hb (by rw [hw, ← he])
  | registering k i first second e' op gone hk' =>
    obtain ⟨m, -, rfl⟩ := List.mem_map.mp hx
    intro he
    obtain rfl := hr.unique _ k key (.entry e' hk' he) hold
    exact hbegin i first second rfl
  | registrationReply k e' id ok hk' =>
    obtain rfl := List.mem_singleton.mp hx
    intro he
    obtain rfl := hr.unique _ k key (.entry e' hk' he) hold
    exact hreply id ok rfl
  | legacyInit =>
    obtain rfl := List.mem_singleton.mp hx
    exact Nat.ne_of_gt (hr.bound _ key hold)
  | legacyReply w url ok hw =>
    obtain rfl := List.mem_singleton.mp hx
    rintro rfl
    exact (hr.listening _ url hw).2.2 key hold

/-! ## The entry and the conversation -/

/-- The targets and channels of an entry. -/
def bound (e : AdapterEntry) : List (String × Region) := e.regions.map fun r => (r.target, r.region)

/-- Whoever awaits a reply in `e'` did so in `e`. -/
def AwaitsFrom (e e' : AdapterEntry) : Prop :=
  ∀ (i : Nat) (op : Operation) (id : Nat) (next : TargetRegion),
    e'.operations[i]? = some op → op.status = .awaiting id next → e.operations[i]? = some op

/-- How an event changes an entry, and what it says to its worker. -/
inductive AdapterStep (opts : Options) (s : State) (key : String) :
    Event → AdapterEntry → AdapterEntry → List Exchange → Prop
  | quiet (ev : Event) (e e' : AdapterEntry) : bound e' = bound e → AwaitsFrom e e' →
      AdapterStep opts s key ev e e' []
  | registering (first second : Region → Lanes) (e : AdapterEntry) (i : Nat) (op : Operation)
      (gone : List TargetRegion) : e.operations[i]? = some op → op.status = .waiting →
      predecessorSettled e.operations i = true →
      displaced opts.maxTargetsPerAdapter e.regions op.target op.region first = some gone →
      (∀ r ∈ gone, regionIsIdle r.region (second r.region) = true) →
      AdapterStep opts s key (.begin key i first second) e { e with
        regions := without e.regions gone
        operations := setStatus e.operations i (.awaiting (s.registrationSequence + 1)
          { target := op.target, region := op.region, lastUsed := s.touch + 1 }) }
        ((registration gone (s.registrationSequence + 1) op.target op.region).map .sent)
  | registered (id : Nat) (e : AdapterEntry) (i : Nat) (op : Operation) (next : TargetRegion) :
      e.operations[i]? = some op → op.status = .awaiting id next →
      AdapterStep opts s key (.registrationReply key id true) e { e with
        regions := setRegion e.regions next
        operations := setStatus e.operations i .settled } [.got (.targetReady id)]
  /-- A refusal, in time or late. -/
  | refused (id : Nat) (e e' : AdapterEntry) : e'.regions = e.regions → AwaitsFrom e e' →
      (∀ op ∈ e'.operations, ∀ next, op.status ≠ .awaiting id next) →
      AdapterStep opts s key (.registrationReply key id false) e e' [.got (.targetError id)]
  /-- An acceptance that nobody awaits. -/
  | late (id : Nat) (e : AdapterEntry) : awaited e.operations id = none →
      AdapterStep opts s key (.registrationReply key id true) e e [.got (.targetReady id)]

theorem AwaitsFrom.refl (e : AdapterEntry) : AwaitsFrom e e := fun _ _ _ _ hop _ => hop

/-- Settling an operation lets nobody else wait. -/
theorem AwaitsFrom.settled {e : AdapterEntry} {regions : List TargetRegion} (i : Nat) :
    AwaitsFrom e { e with regions, operations := setStatus e.operations i .settled } := by
  intro j op id next hop hs
  dsimp only at hop
  rw [setStatus_get] at hop
  split at hop
  · obtain ⟨old, -, rfl⟩ := Option.map_eq_some_iff.mp hop
    cases hs
  · exact hop

theorem AwaitsFrom.queued {e : AdapterEntry} {op : Operation} (hw : op.status = .waiting) :
    AwaitsFrom e { e with operations := e.operations ++ [op] } := by
  intro j op' id next hop hs
  dsimp only at hop
  by_cases hlt : j < e.operations.length
  · rw [List.getElem?_append_left hlt] at hop
    exact hop
  · rw [List.getElem?_append_right (by omega)] at hop
    obtain rfl := List.mem_singleton.mp (List.mem_of_getElem? hop)
    rw [hw] at hs
    cases hs

theorem bound_touched (regions : List TargetRegion) (target : String) (t : Nat) :
    (regions.map fun r => if r.target = target then { r with lastUsed := t } else r).map
      (fun r => (r.target, r.region)) = regions.map fun r => (r.target, r.region) := by
  rw [List.map_map]
  refine List.map_congr_left fun r _ => ?_
  rw [Function.comp_apply]
  split <;> rfl

/-- The body of a registration: it settles the operation in silence, or posts. -/
theorem beginOperation_adapter {key : String} {i : Nat} {e : AdapterEntry} {op : Operation}
    {first second : Region → Lanes} (hop : e.operations[i]? = some op)
    (hw : op.status = .waiting) (hp : predecessorSettled e.operations i = true) :
    let s' := beginOperation opts.maxTargetsPerAdapter s key e i op first second
    ∃ e' xs, s'.adapters key = some e' ∧ talk s'.log e.worker = talk s.log e.worker ++ xs ∧
      AdapterStep opts s key (.begin key i first second) e e' xs := by
  dsimp only
  unfold beginOperation
  by_cases hcur : (current e.regions op.target).map (·.region) = some op.region
  · rw [if_pos hcur]
    exact ⟨_, [], Function.update_self .., (List.append_nil _).symm,
      .quiet _ _ _ (bound_touched ..) (.settled i)⟩
  · rw [if_neg hcur]
    rcases hgone : displaced opts.maxTargetsPerAdapter e.regions op.target op.region first with
      _ | gone
    · exact ⟨_, [], Function.update_self .., (List.append_nil _).symm,
        .quiet _ _ _ rfl (.settled i)⟩
    · dsimp only
      by_cases hbusy : gone.any (fun r => !regionIsIdle r.region (second r.region)) = true
      · rw [if_pos hbusy]
        exact ⟨_, [], Function.update_self .., (List.append_nil _).symm,
          .quiet _ _ _ rfl (.settled i)⟩
      · rw [if_neg hbusy]
        have hidle : ∀ r ∈ gone, regionIsIdle r.region (second r.region) = true := by
          intro r hr
          by_contra hi
          refine hbusy (List.any_eq_true.mpr ⟨r, hr, ?_⟩)
          rw [Bool.not_eq_true] at hi
          rw [hi]
          rfl
        refine ⟨_, _, Function.update_self .., ?_,
          .registering first second e i op gone hop hw hp hgone hidle⟩
        show talk (s.log ++ _) e.worker = _
        rw [talk_append, talk_sent]

theorem registrationReply_adapter {key : String} {e : AdapterEntry} (hi : EntryInv opts e)
    (hk : s.adapters key = some e) (id : Nat) (ok : Bool) :
    let s' := registrationReply s key e id ok
    ∃ e' xs, s'.adapters key = some e' ∧ talk s'.log e.worker = talk s.log e.worker ++ xs ∧
      AdapterStep opts s key (.registrationReply key id ok) e e' xs := by
  have htalk : ∀ x, talk (s.log ++ [(e.worker, x)]) e.worker = talk s.log e.worker ++ [x] :=
    fun x => by rw [talk_append, talk_one]
  unfold registrationReply
  dsimp only
  rcases haw : awaited e.operations id with _ | i
  · cases ok with
    | true => exact ⟨e, _, hk, htalk _, .late id e haw⟩
    | false =>
      refine ⟨e, _, hk, htalk _, .refused id e e rfl (.refl e) fun op hop next hs => ?_⟩
      have hnot := List.findIdx?_eq_none_iff.mp haw op hop
      rw [hs] at hnot
      simp at hnot
  · obtain ⟨op, next, hop, hs⟩ := awaited_some haw
    dsimp only
    rw [hop]
    dsimp only
    rw [hs]
    cases ok with
    | true => exact ⟨_, _, Function.update_self .., htalk _, .registered id e i op next hop hs⟩
    | false =>
      refine ⟨_, _, Function.update_self .., htalk _, .refused id _ _ rfl (.settled i) ?_⟩
      intro op' hop' next'
      obtain ⟨j, hj⟩ := List.mem_iff_getElem?.mp hop'
      exact nobody_awaits hi.chained hop (by rw [hs]; simp)
        (hi.chained.before_begun hop (by rw [hs]; simp)) (by simp) j op' id next' hj

/-- **Inversion**: what an event does to an entry and says to its worker. -/
theorem step_adapter (hi : Inv opts s) (hr : Roles s) (h : step opts s ev = some s') {key : String}
    {e : AdapterEntry} (hk : s.adapters key = some e) :
    ∃ e' xs, s'.adapters key = some e' ∧ e'.worker = e.worker ∧
      talk s'.log e.worker = talk s.log e.worker ++ xs ∧ AdapterStep opts s key ev e e' xs := by
  obtain ⟨e', he', hstep⟩ := (step_changes hr.apart h).kept key e hk
  obtain ⟨new, hlog, hs'⟩ := step_log h
  -- an event that is not the entry's own says nothing
  have hquiet : (∀ i first second, ev ≠ .begin key i first second) →
      (∀ id ok, ev ≠ .registrationReply key id ok) →
      talk s'.log e.worker = talk s.log e.worker ++ [] := by
    intro hb hreply
    rw [hs', talk_append, talk_quiet (hr.entry_quiet hlog hk hb hreply)]
  by_cases hb : ∃ i first second, ev = .begin key i first second
  · obtain ⟨i, first, second, rfl⟩ := hb
    rw [step, hk] at h
    dsimp only at h
    split at h
    next op hop =>
      split at h
      next hcan =>
        obtain rfl := Option.some.inj h
        obtain ⟨e₁, xs, he₁, htalk, hadapter⟩ :=
          beginOperation_adapter hop hcan.1 hcan.2
        rw [he₁] at he'
        obtain rfl := Option.some.inj he'
        exact ⟨e₁, xs, he₁, hstep.worker.1, htalk, hadapter⟩
      next => cases h
    next => cases h
  · by_cases hreply : ∃ id ok, ev = .registrationReply key id ok
    · obtain ⟨id, ok, rfl⟩ := hreply
      rw [step, hk] at h
      obtain rfl := Option.some.inj h
      obtain ⟨e₁, xs, he₁, htalk, hadapter⟩ :=
        registrationReply_adapter (hi.entries key e hk) hk id ok
      rw [he₁] at he'
      obtain rfl := Option.some.inj he'
      exact ⟨e₁, xs, he₁, hstep.worker.1, htalk, hadapter⟩
    · have hb' : ∀ i first second, ev ≠ .begin key i first second :=
        fun i first second he => hb ⟨i, first, second, he⟩
      have hreply' : ∀ id ok, ev ≠ .registrationReply key id ok :=
        fun id ok he => hreply ⟨id, ok, he⟩
      refine ⟨e', [], he', hstep.worker.1, hquiet hb' hreply', ?_⟩
      cases hstep with
      | same => exact .quiet _ _ _ rfl (.refl e)
      | queued => exact .quiet _ _ _ rfl (.queued rfl)
      | settled _ _ i => exact .quiet _ _ _ rfl (.settled i)
      | touched first second _ i => exact absurd rfl (hb' i first second)
      | registering first second _ i => exact absurd rfl (hb' i first second)
      | registered id => exact absurd rfl (hreply' id true)

/-! ## Request ids -/

theorem finish_sequence {key : String} {e : AdapterEntry} (j : Joined) :
    (finish s key e j).registrationSequence = s.registrationSequence := by
  unfold finish
  split <;> rfl

theorem finishAll_sequence {key : String} (js : List Joined) : ∀ s : State,
    (finishAll key js s).registrationSequence = s.registrationSequence := by
  induction js with
  | nil => exact fun _ => rfl
  | cons j js ih =>
    intro s
    rw [finishAll]
    split
    · rw [ih, finish_sequence]
    · rfl

/-- The id of a registration. -/
def Exchange.registers : Exchange → Option Nat
  | .sent (.register id _ _) => some id
  | _ => none

theorem registration_registers {gone : List TargetRegion} {id id' : Nat} {target : String}
    {region : Region} {x : Exchange} (hx : x ∈ (registration gone id target region).map .sent)
    (hid : x.registers = some id') : id' = id := by
  obtain ⟨m, hm, rfl⟩ := List.mem_map.mp hx
  rcases List.mem_append.mp hm with hm | hm
  · obtain ⟨v, -, rfl⟩ := List.mem_map.mp hm
    cases hid
  · obtain rfl := List.mem_singleton.mp hm
    exact (Option.some.inj hid).symm

/-- **Ids are fresh**: a registration takes the next id, and nothing else takes one. -/
theorem step_sequence (h : step opts s ev = some s') :
    s.registrationSequence ≤ s'.registrationSequence ∧
    ∀ x ∈ s'.log, ∀ id, x.2.registers = some id → x ∈ s.log ∨ id ≤ s'.registrationSequence := by
  -- an event that registers nothing
  have silent : s'.registrationSequence = s.registrationSequence →
      (∀ i key first second, ev ≠ .begin key i first second) →
      s.registrationSequence ≤ s'.registrationSequence ∧
      ∀ x ∈ s'.log, ∀ id, x.2.registers = some id →
        x ∈ s.log ∨ id ≤ s'.registrationSequence := by
    intro hseq hev
    obtain ⟨new, hlog, hs'⟩ := step_log h
    refine ⟨Nat.le_of_eq hseq.symm, fun x hx id hid => ?_⟩
    rw [hs'] at hx
    rcases List.mem_append.mp hx with hold | hnew
    · exact .inl hold
    · cases hlog with
      | nothing => cases hnew
      | bootInit => obtain rfl := List.mem_singleton.mp hnew; cases hid
      | bootReply => obtain rfl := List.mem_singleton.mp hnew; cases hid
      | registering key i first second => exact absurd rfl (hev i key first second)
      | registrationReply key e id' ok =>
        obtain rfl := List.mem_singleton.mp hnew
        cases hid
      | legacyInit => obtain rfl := List.mem_singleton.mp hnew; cases hid
      | legacyReply => obtain rfl := List.mem_singleton.mp hnew; cases hid
  cases ev with
  | ensure location region =>
    refine silent ?_ (by simp)
    obtain rfl := Option.some.inj h
    unfold ensure ensureAdapter ensureLegacy
    dsimp only
    split
    · rfl
    · split
      · split
        · exact finish_sequence _
        · split <;> rfl
      · rfl
    · split
      · rfl
      · split <;> rfl
  | spawned key ok =>
    refine silent ?_ (by simp)
    rw [step] at h
    split at h
    · split at h
      · split at h
        · obtain rfl := Option.some.inj h
          rfl
        · split at h
          · cases h
          · obtain rfl := Option.some.inj h
            rfl
      · cases h
    · cases h
  | bootReply key ok =>
    refine silent ?_ (by simp)
    rw [step] at h
    split at h
    · obtain ⟨w, -, rfl⟩ := Option.map_eq_some_iff.mp h
      cases ok with
      | true => exact finishAll_sequence _ _
      | false => rfl
    · cases h
  | begin key i first second =>
    rw [step] at h
    split at h
    next e hk =>
      split at h
      next op hop =>
        split at h
        · obtain rfl := Option.some.inj h
          unfold beginOperation
          split
          · exact ⟨Nat.le_refl _, fun x hx _ _ => .inl hx⟩
          · split
            · exact ⟨Nat.le_refl _, fun x hx _ _ => .inl hx⟩
            next gone _ =>
              split
              · exact ⟨Nat.le_refl _, fun x hx _ _ => .inl hx⟩
              · refine ⟨Nat.le_succ _, fun x hx id hid => ?_⟩
                rcases List.mem_append.mp hx with hold | hnew
                · exact .inl hold
                · obtain ⟨m, hm, rfl⟩ := List.mem_map.mp hnew
                  exact .inr (Nat.le_of_eq
                    (registration_registers (List.mem_map.mpr ⟨m, hm, rfl⟩) hid))
        · cases h
      next => cases h
    next => cases h
  | registrationReply key id ok =>
    refine silent ?_ (by simp)
    rw [step] at h
    split at h
    next e hk =>
      obtain rfl := Option.some.inj h
      unfold registrationReply
      dsimp only
      split
      · rfl
      · split
        · split
          · split <;> rfl
          · rfl
        · rfl
    next => cases h
  | timeout key i =>
    refine silent ?_ (by simp)
    rw [step] at h
    split at h
    · split at h
      · split at h
        · obtain rfl := Option.some.inj h
          rfl
        · cases h
      · cases h
    · cases h
  | legacySpawned u ok =>
    refine silent ?_ (by simp)
    rw [step] at h
    split at h
    · split at h
      · split at h
        · obtain rfl := Option.some.inj h
          rfl
        · obtain rfl := Option.some.inj h
          rfl
      · cases h
    · cases h
  | legacyReply w ok =>
    refine silent ?_ (by simp)
    rw [step] at h
    split at h
    · split at h
      · dsimp only at h
        split at h
        · split at h <;> · obtain rfl := Option.some.inj h; rfl
        · obtain rfl := Option.some.inj h
          rfl
      · dsimp only at h
        split at h
        · split at h <;> · obtain rfl := Option.some.inj h; rfl
        · obtain rfl := Option.some.inj h
          rfl
    · cases h

/-- The ids of the log are not above the counter. -/
def Numbered (s : State) : Prop :=
  ∀ x ∈ s.log, ∀ id, x.2.registers = some id → id ≤ s.registrationSequence

theorem Numbered.initial : Numbered State.initial := fun _ hx => by cases hx

theorem Numbered.step (hn : Numbered s) (h : step opts s ev = some s') : Numbered s' := by
  intro x hx id hid
  obtain ⟨hle, hfresh⟩ := step_sequence h
  rcases hfresh x hx id hid with hold | hnew
  · exact Nat.le_trans (hn x hold id hid) hle
  · exact hnew

end Haybarn.Bridge
