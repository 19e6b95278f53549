import Haybarn.Bridge.Machine
import Haybarn.Lib.Run

/-!
# What one step does to an adapter

Every invariant of an adapter's entry is proved from `EntryStep`: the ways one event
can change the entry of a key. An entry appears once, when its worker's boot is
acknowledged (`Fresh`), and is never removed or replaced (`Apart`).
-/

namespace Haybarn.Bridge

open Haybarn.Lib

/-- The entry of a boot that was just acknowledged: its first region, and the requests
that joined the boot still to be begun. -/
structure Fresh (boot : AdapterBoot) (w : WorkerId) (e : AdapterEntry) : Prop where
  regions : e.regions = [boot.firstRegion]
  worker : e.worker = w
  operations : ∀ op ∈ e.operations, op.status = .waiting ∧
    ∃ j ∈ boot.joined, op.req = j.req ∧ op.target = j.target ∧ op.region = j.region

/-- How an event can change the entry of `key` in `s`. -/
inductive EntryStep (opts : Options) (s : State) (key : String) :
    Event → AdapterEntry → AdapterEntry → Prop
  | same (ev : Event) (e : AdapterEntry) : EntryStep opts s key ev e e
  | queued (location : String) (region : Region) (url target : String) (app : Bool)
      (e : AdapterEntry) : route opts location = .adapter key url target app →
      EntryStep opts s key (.ensure location region) e { e with
        operations := e.operations ++
          [{ req := s.requests.length, target, region, status := .waiting }] }
  /-- An operation is over and the regions are as they were. -/
  | settled (ev : Event) (e : AdapterEntry) (i : Nat) (op : Operation) :
      e.operations[i]? = some op →
      (op.status = .waiting → predecessorSettled e.operations i = true) → op.status ≠ .settled →
      EntryStep opts s key ev e { e with operations := setStatus e.operations i .settled }
  /-- The target has the region already. -/
  | touched (first second : Region → Lanes) (e : AdapterEntry) (i : Nat) (op : Operation) :
      e.operations[i]? = some op → op.status = .waiting →
      predecessorSettled e.operations i = true →
      (current e.regions op.target).map (·.region) = some op.region →
      EntryStep opts s key (.begin key i first second) e { e with
        regions := e.regions.map fun r =>
          if r.target = op.target then { r with lastUsed := s.touch + 1 } else r
        operations := setStatus e.operations i .settled }
  /-- Regions are displaced and a registration is posted. -/
  | registering (first second : Region → Lanes) (e : AdapterEntry) (i : Nat) (op : Operation)
      (gone : List TargetRegion) : e.operations[i]? = some op →
      op.status = .waiting → predecessorSettled e.operations i = true →
      (current e.regions op.target).map (·.region) ≠ some op.region →
      displaced opts.maxTargetsPerAdapter e.regions op.target op.region first = some gone →
      (∀ r ∈ gone, regionIsIdle r.region (second r.region) = true) →
      EntryStep opts s key (.begin key i first second) e { e with
        regions := without e.regions gone
        operations := setStatus e.operations i (.awaiting (s.registrationSequence + 1)
          { target := op.target, region := op.region, lastUsed := s.touch + 1 }) }
  /-- A registration is acknowledged in time. -/
  | registered (id : Nat) (e : AdapterEntry) (i : Nat) (op : Operation) (next : TargetRegion) :
      e.operations[i]? = some op → op.status = .awaiting id next →
      EntryStep opts s key (.registrationReply key id true) e { e with
        regions := setRegion e.regions next
        operations := setStatus e.operations i .settled }

/-! ## The parts of a state a handler leaves alone -/

section

variable (s : State) (key : String) (entry : AdapterEntry) (req i : Nat) (ok : Bool)

@[simp] theorem signal_adapters : (s.signal req ok).adapters = s.adapters := rfl

theorem settle_adapters : (settle s key entry i req ok).adapters = Function.update s.adapters key
    (some { entry with operations := setStatus entry.operations i .settled }) := rfl

end

/-! ## Queueing -/

variable {opts : Options} {s s' : State} {ev : Event} {key : String} {e : AdapterEntry}

/-- The operation a request becomes. -/
def Joined.operation (j : Joined) : Operation :=
  { req := j.req, target := j.target, region := j.region, status := .waiting }

/-- A queued request: one more waiting operation, or a refusal. -/
theorem finish_adapters (j : Joined) (hk : s.adapters key = some e) :
    ∃ e', (finish s key e j).adapters = Function.update s.adapters key (some e') ∧
      (e' = e ∨ e' = { e with operations := e.operations ++ [j.operation] }) := by
  unfold finish
  by_cases hu : e.url = j.url
  · rw [if_pos hu]
    exact ⟨_, rfl, .inr rfl⟩
  · rw [if_neg hu]
    refine ⟨e, ?_, .inl rfl⟩
    rw [signal_adapters, ← hk, Function.update_eq_self]

/-- The requests that joined a boot: more waiting operations. -/
theorem finishAll_adapters (js : List Joined) : ∀ (s : State) (e : AdapterEntry),
    s.adapters key = some e → ∃ ops, (∀ op ∈ ops, ∃ j ∈ js, op = j.operation) ∧
      (finishAll key js s).adapters =
        Function.update s.adapters key (some { e with operations := e.operations ++ ops }) := by
  induction js with
  | nil =>
    intro s e hk
    refine ⟨[], by simp, ?_⟩
    rw [finishAll, List.append_nil, ← hk, Function.update_eq_self]
  | cons j js ih =>
    intro s e hk
    obtain ⟨e₁, hupd, hcase⟩ := finish_adapters j hk
    have hk₁ : (finish s key e j).adapters key = some e₁ := by
      rw [hupd, Function.update_self]
    obtain ⟨ops, hops, hall⟩ := ih (finish s key e j) e₁ hk₁
    have hmem : ∀ op ∈ ops, ∃ i ∈ j :: js, op = i.operation := by
      intro op hop
      obtain ⟨i, hi, he⟩ := hops op hop
      exact ⟨i, List.mem_cons_of_mem _ hi, he⟩
    have hstep : (finishAll key (j :: js) s).adapters =
        Function.update s.adapters key (some { e₁ with operations := e₁.operations ++ ops }) := by
      rw [finishAll, hk]
      show (finishAll key js (finish s key e j)).adapters = _
      rw [hall, hupd, Function.update_idem]
    rcases hcase with rfl | rfl
    · exact ⟨ops, hmem, hstep⟩
    · refine ⟨j.operation :: ops, ?_, ?_⟩
      · intro op hop
        rcases List.mem_cons.mp hop with rfl | hop
        · exact ⟨j, List.mem_cons_self .., rfl⟩
        · exact hmem op hop
      · rw [hstep, List.append_assoc]
        rfl

/-! ## Inversion of a step: entries -/

/-- An adapter that boots has no entry yet. -/
def Apart (s : State) : Prop := ∀ key, s.pendingAdapters key ≠ none → s.adapters key = none

/-- What a step does to the entries: an entry stays and takes an `EntryStep`, a missing
one may appear when its boot is acknowledged. -/
structure Changes (opts : Options) (ev : Event) (s s' : State) : Prop where
  kept : ∀ k e, s.adapters k = some e →
    ∃ e', s'.adapters k = some e' ∧ EntryStep opts s k ev e e'
  fresh : ∀ k, s.adapters k = none → s'.adapters k = none ∨
    ∃ boot w e', ev = .bootReply k true ∧ s.pendingAdapters k = some boot ∧
      boot.worker = some w ∧ s'.adapters k = some e' ∧ Fresh boot w e'

namespace Changes

theorem of_same (h : s'.adapters = s.adapters) : Changes opts ev s s' :=
  ⟨fun _ e hk => ⟨e, h ▸ hk, .same ev e⟩, fun _ hk => .inl (h ▸ hk)⟩

theorem of_update {e e' : AdapterEntry} (hk : s.adapters key = some e)
    (h : s'.adapters = Function.update s.adapters key (some e'))
    (hstep : EntryStep opts s key ev e e') : Changes opts ev s s' := by
  refine ⟨fun k e₁ hk₁ => ?_, fun _ hk₁ => .inl ?_⟩
  · by_cases hkey : k = key
    · subst hkey
      obtain rfl := Option.some.inj (hk.symm.trans hk₁)
      exact ⟨e', by rw [h, Function.update_self], hstep⟩
    · exact ⟨e₁, by rw [h, Function.update_of_ne hkey, hk₁], .same ev e₁⟩
  · rw [h, Function.update_of_ne ?_, hk₁]
    intro he
    rw [he, hk] at hk₁
    cases hk₁

end Changes

theorem ensureAdapter_changes {location url target : String} {app : Bool} (region : Region)
    (hroute : route opts location = .adapter key url target app) :
    Changes opts (.ensure location region) s (ensureAdapter
      { s with requests := s.requests ++ [{ location, region }] } s.requests.length region key url
      target app) := by
  unfold ensureAdapter
  split
  · split
    next entry hk =>
      have hk' : s.adapters key = some entry := hk
      let j : Joined := { req := s.requests.length, target, region, url }
      obtain ⟨e', hupd, hcase⟩ := finish_adapters j hk
      rcases hcase with rfl | rfl
      · exact .of_update hk' hupd (.same _ _)
      · exact .of_update hk' hupd (.queued location region url target app entry hroute)
    next =>
      split
      · exact .of_same rfl
      · exact .of_same rfl
  · exact .of_same rfl

theorem ensure_changes (location : String) (region : Region) :
    Changes opts (.ensure location region) s (ensure opts s location region) := by
  unfold ensure
  dsimp only
  split
  next => exact .of_same rfl
  next key url target app hroute => exact ensureAdapter_changes region hroute
  next =>
    unfold ensureLegacy
    split
    · exact .of_same rfl
    · split
      · exact .of_same rfl
      · exact .of_same rfl

theorem begin_changes {i : Nat} {op : Operation} {first second : Region → Lanes}
    (hk : s.adapters key = some e) (hop : e.operations[i]? = some op)
    (hw : op.status = .waiting) (hp : predecessorSettled e.operations i = true) :
    Changes opts (.begin key i first second) s
      (beginOperation opts.maxTargetsPerAdapter s key e i op first second) := by
  have hsettled : EntryStep opts s key (.begin key i first second) e
      { e with operations := setStatus e.operations i .settled } :=
    .settled _ e i op hop (fun _ => hp) (by rw [hw]; simp)
  unfold beginOperation
  by_cases hcur : (current e.regions op.target).map (·.region) = some op.region
  · rw [if_pos hcur]
    exact .of_update hk (settle_adapters ..) (.touched first second e i op hop hw hp hcur)
  · rw [if_neg hcur]
    rcases hgone : displaced opts.maxTargetsPerAdapter e.regions op.target op.region first with
      _ | gone
    · exact .of_update hk (settle_adapters ..) hsettled
    · dsimp only
      by_cases hbusy : gone.any (fun r => !regionIsIdle r.region (second r.region)) = true
      · rw [if_pos hbusy]
        exact .of_update hk (settle_adapters ..) hsettled
      · rw [if_neg hbusy]
        have hidle : ∀ r ∈ gone, regionIsIdle r.region (second r.region) = true := by
          intro r hr
          by_cases hi : regionIsIdle r.region (second r.region) = true
          · exact hi
          · refine absurd (List.any_eq_true.mpr ⟨r, hr, ?_⟩) hbusy
            rw [Bool.not_eq_true] at hi
            rw [hi]
            rfl
        exact .of_update hk rfl (.registering first second e i op gone hop hw hp hcur hgone hidle)

theorem awaited_some {ops : List Operation} {id i : Nat} (h : awaited ops id = some i) :
    ∃ op next, ops[i]? = some op ∧ op.status = .awaiting id next := by
  obtain ⟨hlt, hop, -⟩ := List.findIdx?_eq_some_iff_getElem.mp h
  refine ⟨ops[i], ?_⟩
  rcases hs : ops[i].status with _ | ⟨id', next⟩ | _
  · rw [hs] at hop
    cases hop
  · rw [hs] at hop
    obtain rfl : id' = id := of_decide_eq_true hop
    exact ⟨next, List.getElem?_eq_getElem hlt, rfl⟩
  · rw [hs] at hop
    cases hop

/-- A reply that nobody waits for changes no entry; otherwise it ends the operation. -/
theorem registrationReply_changes (hk : s.adapters key = some e) (id : Nat) (ok : Bool) :
    Changes opts (.registrationReply key id ok) s (registrationReply s key e id ok) := by
  unfold registrationReply
  dsimp only
  rcases haw : awaited e.operations id with _ | i
  · exact .of_same rfl
  · obtain ⟨op, next, hop, hs⟩ := awaited_some haw
    dsimp only
    rw [hop]
    dsimp only
    rw [hs]
    cases ok with
    | true => exact .of_update hk rfl (.registered id e i op next hop hs)
    | false =>
      refine .of_update hk rfl (.settled _ e i op hop (fun hw => ?_) (by rw [hs]; simp))
      rw [hs] at hw
      cases hw

theorem bootReady_changes {boot : AdapterBoot} {w : WorkerId} (hnone : s.adapters key = none)
    (hb : s.pendingAdapters key = some boot) (hw : boot.worker = some w) :
    Changes opts (.bootReply key true) s (bootReady s key boot w) := by
  unfold bootReady
  dsimp only
  let entry : AdapterEntry :=
    { url := boot.url, worker := w, regions := [boot.firstRegion], operations := [] }
  let s₁ := (((s.receive w .ready).setEntry key entry).setBoot key none).signal boot.req true
  have hs₁ : s₁.adapters = Function.update s.adapters key (some entry) := rfl
  obtain ⟨ops, hops, hall⟩ := finishAll_adapters boot.joined s₁ entry
    (by rw [hs₁, Function.update_self])
  rw [hs₁, Function.update_idem] at hall
  refine ⟨fun k e hk => ⟨e, ?_, .same _ e⟩, fun k hk => ?_⟩
  · have hkey : k ≠ key := by
      intro he
      rw [he, hnone] at hk
      cases hk
    show (finishAll key boot.joined s₁).adapters k = _
    rw [hall, Function.update_of_ne hkey, hk]
  · by_cases hkey : k = key
    · subst hkey
      refine .inr ⟨boot, w, { entry with operations := entry.operations ++ ops }, rfl, hb, hw, ?_,
        rfl, rfl, ?_⟩
      · show (finishAll k boot.joined s₁).adapters k = _
        rw [hall, Function.update_self]
      · intro op hop
        obtain ⟨j, hj, rfl⟩ := hops op hop
        exact ⟨rfl, j, hj, rfl, rfl, rfl⟩
    · left
      show (finishAll key boot.joined s₁).adapters k = _
      rw [hall, Function.update_of_ne hkey, hk]

/-- A boot that was acknowledged has an entry. -/
theorem bootReady_entry {boot : AdapterBoot} {w : WorkerId}
    (h : step opts s (.bootReply key true) = some s') (hb : s.pendingAdapters key = some boot)
    (hw : boot.worker = some w) : ∃ e, s'.adapters key = some e := by
  rw [step, hb] at h
  dsimp only at h
  rw [hw] at h
  obtain rfl := Option.some.inj h
  obtain ⟨ops, -, hall⟩ := finishAll_adapters boot.joined
    ((((s.receive w .ready).setEntry key
      { url := boot.url, worker := w, regions := [boot.firstRegion], operations := [] }).setBoot
        key none).signal boot.req true) _ (Function.update_self ..)
  have hself := congrFun hall key
  rw [Function.update_self] at hself
  exact ⟨_, hself⟩

/-- **Inversion**: what any event does to the entries. -/
theorem step_changes (hap : Apart s) (h : step opts s ev = some s') :
    Changes opts ev s s' := by
  cases ev with
  | ensure location region =>
    obtain rfl := Option.some.inj h
    exact ensure_changes location region
  | spawned key ok =>
    rw [step] at h
    split at h
    next boot hb =>
      split at h
      · split at h
        · obtain rfl := Option.some.inj h
          exact .of_same rfl
        · split at h
          · cases h
          · obtain rfl := Option.some.inj h
            exact .of_same rfl
      · cases h
    next => cases h
  | bootReply key ok =>
    rw [step] at h
    split at h
    next boot hb =>
      obtain ⟨w, hw, hs⟩ := Option.map_eq_some_iff.mp h
      subst hs
      cases ok with
      | true => exact bootReady_changes (hap key (by rw [hb]; simp)) hb hw
      | false => exact .of_same rfl
    next => cases h
  | begin key i first second =>
    rw [step] at h
    split at h
    next e hk =>
      split at h
      next op hop =>
        split at h
        next hcan =>
          obtain rfl := Option.some.inj h
          exact begin_changes hk hop hcan.1 hcan.2
        next => cases h
      next => cases h
    next => cases h
  | registrationReply key id ok =>
    rw [step] at h
    split at h
    next e hk =>
      obtain rfl := Option.some.inj h
      exact registrationReply_changes hk id ok
    next => cases h
  | timeout key i =>
    rw [step] at h
    split at h
    next e hk =>
      split at h
      next op hop =>
        split at h
        next id next hs =>
          obtain rfl := Option.some.inj h
          refine .of_update hk (settle_adapters ..)
            (.settled _ e i op hop (fun hw => ?_) (by rw [hs]; simp))
          rw [hs] at hw
          cases hw
        next => cases h
      next => cases h
    next => cases h
  | legacySpawned url ok =>
    rw [step] at h
    split at h
    next boot hb =>
      split at h
      · split at h
        · obtain rfl := Option.some.inj h
          exact .of_same rfl
        · obtain rfl := Option.some.inj h
          exact .of_same rfl
      · cases h
    next => cases h
  | legacyReply w ok =>
    rw [step] at h
    split at h
    next url hl =>
      split at h
      · dsimp only at h
        split at h
        · split at h <;> · obtain rfl := Option.some.inj h; exact .of_same rfl
        · obtain rfl := Option.some.inj h
          exact .of_same rfl
      · dsimp only at h
        split at h
        · split at h <;> · obtain rfl := Option.some.inj h; exact .of_same rfl
        · obtain rfl := Option.some.inj h
          exact .of_same rfl
    next => cases h

/-! ## Boots and entries stay apart -/

theorem finish_pendingAdapters (j : Joined) :
    (finish s key e j).pendingAdapters = s.pendingAdapters := by
  unfold finish
  split <;> rfl

theorem finishAll_pendingAdapters (js : List Joined) : ∀ s : State,
    (finishAll key js s).pendingAdapters = s.pendingAdapters := by
  induction js with
  | nil => exact fun _ => rfl
  | cons j js ih =>
    intro s
    rw [finishAll]
    split
    · rw [ih, finish_pendingAdapters]
    · rfl

/-- How an event can leave a boot of `key`. -/
inductive BootStep (opts : Options) (s : State) (key : String) : Event → AdapterBoot → Prop
  | same (ev : Event) (boot : AdapterBoot) : s.pendingAdapters key = some boot →
      (∀ ok, ev ≠ .bootReply key ok) → BootStep opts s key ev boot
  | joined (location : String) (region : Region) (url target : String) (app : Bool)
      (boot : AdapterBoot) : s.pendingAdapters key = some boot →
      route opts location = .adapter key url target app →
      BootStep opts s key (.ensure location region) { boot with
        joined := boot.joined ++ [{ req := s.requests.length, target, region, url }] }
  | begun (location : String) (region : Region) (url target : String) (app : Bool) :
      s.adapters key = none → s.pendingAdapters key = none →
      route opts location = .adapter key url target app →
      BootStep opts s key (.ensure location region) {
        url, app, worker := none, req := s.requests.length, joined := []
        firstRegion := { target, region, lastUsed := s.touch + 1 } }
  | spawned (boot : AdapterBoot) : s.pendingAdapters key = some boot → boot.worker = none →
      BootStep opts s key (.spawned key true) { boot with
        worker := some (if boot.app then appWorker else s.nextWorker) }

theorem update_eq_some {α : Type} {f : String → Option α} {key k : String} {x : Option α} {y : α}
    (h : Function.update f key x k = some y) : (k = key ∧ x = some y) ∨ (k ≠ key ∧ f k = some y) := by
  by_cases hk : k = key
  · subst hk
    rw [Function.update_self] at h
    exact .inl ⟨rfl, h⟩
  · rw [Function.update_of_ne hk] at h
    exact .inr ⟨hk, h⟩

theorem ensureAdapter_boots {location url target : String} {app : Bool} {region : Region}
    {key' : String} {boot : AdapterBoot}
    (hroute : route opts location = .adapter key url target app)
    (hk : (ensureAdapter { s with requests := s.requests ++ [{ location, region }] }
      s.requests.length region key url target app).pendingAdapters key' = some boot) :
    BootStep opts s key' (.ensure location region) boot := by
  unfold ensureAdapter at hk
  split at hk
  · split at hk
    next =>
      rw [finish_pendingAdapters] at hk
      exact .same _ _ hk (by simp)
    next hnone =>
      split at hk
      next old hold =>
        rcases update_eq_some hk with ⟨rfl, hboot⟩ | ⟨-, hboot⟩
        · obtain rfl := Option.some.inj hboot
          exact .joined location region url target app old hold hroute
        · exact .same _ _ hboot (by simp)
      next hold =>
        rcases update_eq_some hk with ⟨rfl, hboot⟩ | ⟨-, hboot⟩
        · obtain rfl := Option.some.inj hboot
          exact .begun location region url target app hnone hold hroute
        · exact .same _ _ hboot (by simp)
  · exact .same _ _ hk (by simp)

/-- **Inversion**: where a boot comes from. -/
theorem step_boots (h : step opts s ev = some s') {k : String} {boot : AdapterBoot}
    (hk : s'.pendingAdapters k = some boot) : BootStep opts s k ev boot := by
  cases ev with
  | ensure location region =>
    obtain rfl := Option.some.inj h
    unfold ensure at hk
    dsimp only at hk
    split at hk
    next => exact .same _ _ hk (by simp)
    next hroute => exact ensureAdapter_boots hroute hk
    next =>
      refine .same _ _ ?_ (by simp)
      unfold ensureLegacy at hk
      split at hk
      · exact hk
      · split at hk
        · exact hk
        · exact hk
  | spawned key ok =>
    rw [step] at h
    split at h
    next old hold =>
      split at h
      next hw =>
        split at h
        next hok =>
          obtain rfl := Option.some.inj h
          rcases update_eq_some hk with ⟨rfl, hboot⟩ | ⟨-, hboot⟩
          · obtain rfl := Option.some.inj hboot
            rw [hok]
            exact .spawned old hold hw
          · exact .same _ _ hboot (by simp)
        next =>
          split at h
          · cases h
          · obtain rfl := Option.some.inj h
            rcases update_eq_some hk with ⟨-, hboot⟩ | ⟨-, hboot⟩
            · cases hboot
            · exact .same _ _ hboot (by simp)
      next => cases h
    next => cases h
  | bootReply key ok =>
    rw [step] at h
    split at h
    next old hold =>
      obtain ⟨w, -, rfl⟩ := Option.map_eq_some_iff.mp h
      have hpend : Function.update s.pendingAdapters key none k = some boot := by
        cases ok with
        | true =>
          have hk' : (bootReady s key old w).pendingAdapters k = some boot := hk
          rw [bootReady, finishAll_pendingAdapters] at hk'
          exact hk'
        | false => exact hk
      rcases update_eq_some hpend with ⟨-, hboot⟩ | ⟨hne, hboot⟩
      · cases hboot
      · refine .same _ _ hboot fun ok' he => hne ?_
        injection he with hkey
        exact hkey.symm
    next => cases h
  | begin key i first second =>
    rw [step] at h
    split at h
    next e hk₁ =>
      split at h
      next op hop =>
        split at h
        · obtain rfl := Option.some.inj h
          refine .same _ _ ?_ (by simp)
          unfold beginOperation at hk
          split at hk
          · exact hk
          · split at hk
            · exact hk
            · split at hk
              · exact hk
              · exact hk
        · cases h
      next => cases h
    next => cases h
  | registrationReply key id ok =>
    rw [step] at h
    split at h
    next e hk₁ =>
      obtain rfl := Option.some.inj h
      refine .same _ _ ?_ (by simp)
      unfold registrationReply at hk
      dsimp only at hk
      split at hk
      · exact hk
      · split at hk
        · split at hk
          · split at hk
            · exact hk
            · exact hk
          · exact hk
        · exact hk
    next => cases h
  | timeout key i =>
    rw [step] at h
    split at h
    next e hk₁ =>
      split at h
      next op hop =>
        split at h
        · obtain rfl := Option.some.inj h
          exact .same _ _ hk (by simp)
        · cases h
      next => cases h
    next => cases h
  | legacySpawned url ok =>
    rw [step] at h
    split at h
    next old hold =>
      split at h
      · split at h
        · obtain rfl := Option.some.inj h
          exact .same _ _ hk (by simp)
        · obtain rfl := Option.some.inj h
          exact .same _ _ hk (by simp)
      · cases h
    next => cases h
  | legacyReply w ok =>
    rw [step] at h
    split at h
    next url hl =>
      split at h
      · dsimp only at h
        split at h
        · split at h <;> · obtain rfl := Option.some.inj h; exact .same _ _ hk (by simp)
        · obtain rfl := Option.some.inj h
          exact .same _ _ hk (by simp)
      · dsimp only at h
        split at h
        · split at h <;> · obtain rfl := Option.some.inj h; exact .same _ _ hk (by simp)
        · obtain rfl := Option.some.inj h
          exact .same _ _ hk (by simp)
    next => cases h

/-- **Boots and entries stay apart.** -/
theorem step_apart (hap : Apart s) (h : step opts s ev = some s') : Apart s' := by
  intro key hk
  obtain ⟨boot, hboot⟩ := Option.ne_none_iff_exists'.mp hk
  have hold : s.adapters key = none ∧ ∀ ok, ev ≠ .bootReply key ok := by
    cases step_boots h hboot with
    | same _ _ hb hne => exact ⟨hap key (by rw [hb]; simp), hne⟩
    | joined location region url target app boot hb => exact ⟨hap key (by rw [hb]; simp), by simp⟩
    | begun location region url target app hnone => exact ⟨hnone, by simp⟩
    | spawned boot hb => exact ⟨hap key (by rw [hb]; simp), by simp⟩
  rcases (step_changes hap h).fresh key hold.1 with hnone | ⟨-, -, -, hev, -⟩
  · exact hnone
  · exact absurd hev (hold.2 true)

end Haybarn.Bridge
