import Haybarn.Bridge.Registered

/-!
# Which worker plays which part

A worker belongs to one adapter or serves a URL, and never both: the bridge spawns a new
worker for every boot but the application's own, and that one boots under one key only
(`Roles`). With it come the inversions of a step for what the other parts of the state
record: what was told to whom (`Logged`), which requests were granted (`Granted`), and
where workers, listeners and terminations come from.
-/

namespace Haybarn.Bridge

open Haybarn.Lib

variable {opts : Options} {s s' : State} {ev : Event}

/-! ## What a step records -/

/-- The events that may pass without a message. -/
def Event.silent : Event → Bool
  | .ensure _ _ | .begin _ _ _ _ | .timeout _ _ => true
  | .spawned _ ok | .legacySpawned _ ok => !ok
  | .bootReply _ _ | .registrationReply _ _ _ | .legacyReply _ _ => false

/-- What an event adds to the log. -/
inductive Logged (opts : Options) (s : State) : Event → List (WorkerId × Exchange) → Prop
  | nothing (ev : Event) : ev.silent = true → Logged opts s ev []
  | bootInit (key : String) (boot : AdapterBoot) : s.pendingAdapters key = some boot →
      boot.worker = none → Logged opts s (.spawned key true)
        [(if boot.app then appWorker else s.nextWorker,
          .sent (.init (some boot.firstRegion.target) boot.firstRegion.region))]
  | bootReply (key : String) (boot : AdapterBoot) (w : WorkerId) (ok : Bool) :
      s.pendingAdapters key = some boot → boot.worker = some w →
      Logged opts s (.bootReply key ok) [(w, .got (if ok then .ready else .error))]
  | registering (key : String) (i : Nat) (first second : Region → Lanes) (e : AdapterEntry)
      (op : Operation) (gone : List TargetRegion) : s.adapters key = some e →
      e.operations[i]? = some op → op.status = .waiting →
      predecessorSettled e.operations i = true →
      (current e.regions op.target).map (·.region) ≠ some op.region →
      displaced opts.maxTargetsPerAdapter e.regions op.target op.region first = some gone →
      gone.any (fun r => !regionIsIdle r.region (second r.region)) = false →
      Logged opts s (.begin key i first second)
        ((registration gone (s.registrationSequence + 1) op.target op.region).map
          fun m => (e.worker, .sent m))
  | registrationReply (key : String) (e : AdapterEntry) (id : Nat) (ok : Bool) :
      s.adapters key = some e → Logged opts s (.registrationReply key id ok)
        [(e.worker, .got (if ok then .targetReady id else .targetError id))]
  | legacyInit (url : String) (boot : LegacyBoot) : s.pending url = some boot →
      boot.worker = none →
      Logged opts s (.legacySpawned url true) [(s.nextWorker, .sent (.init none boot.region))]
  | legacyReply (w : WorkerId) (url : String) (ok : Bool) : s.listening w = some url →
      Logged opts s (.legacyReply w ok) [(w, .got (if ok then .ready else .error))]

theorem finish_log {key : String} {e : AdapterEntry} (j : Joined) :
    (finish s key e j).log = s.log := by
  unfold finish
  split <;> rfl

theorem finishAll_log {key : String} (js : List Joined) : ∀ s : State,
    (finishAll key js s).log = s.log := by
  induction js with
  | nil => exact fun _ => rfl
  | cons j js ih =>
    intro s
    rw [finishAll]
    split
    · rw [ih, finish_log]
    · rfl

theorem beginOperation_log {key : String} {i : Nat} {e : AdapterEntry} {op : Operation}
    {first second : Region → Lanes} (hk : s.adapters key = some e)
    (hop : e.operations[i]? = some op) (hw : op.status = .waiting)
    (hp : predecessorSettled e.operations i = true) :
    ∃ new, Logged opts s (.begin key i first second) new ∧
      (beginOperation opts.maxTargetsPerAdapter s key e i op first second).log = s.log ++ new := by
  have hnothing : ∃ new, Logged opts s (.begin key i first second) new ∧ s.log = s.log ++ new :=
    ⟨[], .nothing _ rfl, (List.append_nil _).symm⟩
  unfold beginOperation
  split
  · exact hnothing
  next hcur =>
    split
    · exact hnothing
    next gone hgone =>
      split
      · exact hnothing
      next hidle =>
        exact ⟨_, .registering key i first second e op gone hk hop hw hp hcur hgone
          (by simpa using hidle), rfl⟩

/-- **Inversion**: what any event adds to the log. -/
theorem step_log (h : step opts s ev = some s') :
    ∃ new, Logged opts s ev new ∧ s'.log = s.log ++ new := by
  have hnothing : ∀ ev : Event, ev.silent = true →
      ∃ new, Logged opts s ev new ∧ s.log = s.log ++ new :=
    fun ev hev => ⟨[], .nothing ev hev, (List.append_nil _).symm⟩
  cases ev with
  | ensure location region =>
    obtain rfl := Option.some.inj h
    unfold ensure ensureAdapter ensureLegacy
    dsimp only
    split
    · exact hnothing _ rfl
    · split
      · split
        · rw [finish_log]
          exact hnothing _ rfl
        · split <;> exact hnothing _ rfl
      · exact hnothing _ rfl
    · split
      · exact hnothing _ rfl
      · split <;> exact hnothing _ rfl
  | spawned key ok =>
    rw [step] at h
    split at h
    next boot hb =>
      split at h
      next hw =>
        split at h
        next hok =>
          obtain rfl := Option.some.inj h
          rw [hok]
          exact ⟨_, .bootInit key boot hb hw, rfl⟩
        next hok =>
          split at h
          · cases h
          · obtain rfl := Option.some.inj h
            exact hnothing _ (by simpa [Event.silent] using hok)
      next => cases h
    next => cases h
  | bootReply key ok =>
    rw [step] at h
    split at h
    next boot hb =>
      obtain ⟨w, hw, rfl⟩ := Option.map_eq_some_iff.mp h
      refine ⟨_, .bootReply key boot w ok hb hw, ?_⟩
      cases ok with
      | true =>
        show (bootReady s key boot w).log = _
        rw [bootReady, finishAll_log]
        rfl
      | false => rfl
    next => cases h
  | begin key i first second =>
    rw [step] at h
    split at h
    next e hk =>
      split at h
      next op hop =>
        split at h
        next hcan =>
          obtain rfl := Option.some.inj h
          exact beginOperation_log hk hop hcan.1 hcan.2
        next => cases h
      next => cases h
    next => cases h
  | registrationReply key id ok =>
    rw [step] at h
    split at h
    next e hk =>
      obtain rfl := Option.some.inj h
      refine ⟨_, .registrationReply key e id ok hk, ?_⟩
      unfold registrationReply
      dsimp only
      split
      · rfl
      · split
        · split
          · split <;> rfl
          · rfl
        · rfl
    next => cases h
  | timeout key i =>
    rw [step] at h
    split at h
    next e hk =>
      split at h
      next op hop =>
        split at h
        · obtain rfl := Option.some.inj h
          exact hnothing _ rfl
        · cases h
      next => cases h
    next => cases h
  | legacySpawned url ok =>
    rw [step] at h
    split at h
    next boot hb =>
      split at h
      next hw =>
        split at h
        next hok =>
          obtain rfl := Option.some.inj h
          rw [hok]
          exact ⟨_, .legacyInit url boot hb hw, rfl⟩
        next hok =>
          obtain rfl := Option.some.inj h
          exact hnothing _ (by simpa [Event.silent] using hok)
      next => cases h
    next => cases h
  | legacyReply w ok =>
    rw [step] at h
    split at h
    next url hl =>
      refine ⟨_, .legacyReply w url ok hl, ?_⟩
      split at h
      next hok =>
        dsimp only at h
        rw [if_pos hok]
        split at h
        · split at h <;> · obtain rfl := Option.some.inj h; rfl
        · obtain rfl := Option.some.inj h
          rfl
      next hok =>
        dsimp only at h
        rw [if_neg hok]
        split at h
        · split at h <;> · obtain rfl := Option.some.inj h; rfl
        · obtain rfl := Option.some.inj h
          rfl
    next => cases h

/-! ## Which requests an event grants -/

/-- The requests that an event answers with success. -/
inductive Granted (opts : Options) (s : State) : Event → Nat → Prop
  | legacyRunning (location : String) (region : Region) (url : String) (w : WorkerId) :
      route opts location = .legacy url → s.workers url = some w →
      Granted opts s (.ensure location region) s.requests.length
  | bootReady (key : String) (boot : AdapterBoot) (w : WorkerId) :
      s.pendingAdapters key = some boot → boot.worker = some w →
      Granted opts s (.bootReply key true) boot.req
  | touched (key : String) (i : Nat) (first second : Region → Lanes) (e : AdapterEntry)
      (op : Operation) : s.adapters key = some e → e.operations[i]? = some op →
      (current e.regions op.target).map (·.region) = some op.region →
      Granted opts s (.begin key i first second) op.req
  | registered (key : String) (e : AdapterEntry) (id i : Nat) (op : Operation)
      (next : TargetRegion) : s.adapters key = some e → e.operations[i]? = some op →
      op.status = .awaiting id next → Granted opts s (.registrationReply key id true) op.req
  | legacyReady (w : WorkerId) (url : String) (boot : LegacyBoot) (req : Nat) :
      s.listening w = some url → s.pending url = some boot → boot.worker = some w →
      req ∈ boot.reqs → Granted opts s (.legacyReply w true) req

/-- A success among the signals after an event is old, or granted by the event. -/
def Grants (opts : Options) (s : State) (ev : Event) (s' : State) : Prop :=
  ∀ req, (req, true) ∈ s'.signals → (req, true) ∈ s.signals ∨ Granted opts s ev req

theorem Grants.of_same (h : s'.signals = s.signals) : Grants opts s ev s' :=
  fun _ hreq => .inl (h ▸ hreq)

theorem Grants.of_refused {reqs : List Nat}
    (h : s'.signals = s.signals ++ reqs.map fun req => (req, false)) : Grants opts s ev s' := by
  intro req hreq
  rw [h] at hreq
  rcases List.mem_append.mp hreq with hold | hnew
  · exact .inl hold
  · obtain ⟨_, -, he⟩ := List.mem_map.mp hnew
    cases he

theorem Grants.of_one {req : Nat} {ok : Bool} (h : s'.signals = s.signals ++ [(req, ok)])
    (hg : ok = true → Granted opts s ev req) : Grants opts s ev s' := by
  intro r hr
  rw [h] at hr
  rcases List.mem_append.mp hr with hold | hnew
  · exact .inl hold
  · injection List.mem_singleton.mp hnew with hreq hok
    rw [hreq]
    exact .inr (hg hok.symm)

/-- Queueing a request grants nothing. -/
theorem finish_signals (key : String) (e : AdapterEntry) (j : Joined) :
    ∃ reqs : List Nat, (finish s key e j).signals = s.signals ++ reqs.map fun req => (req, false) := by
  unfold finish
  split
  · exact ⟨[], (List.append_nil _).symm⟩
  · exact ⟨[j.req], rfl⟩

theorem finishAll_signals (key : String) (js : List Joined) : ∀ s : State,
    ∃ reqs : List Nat, (finishAll key js s).signals = s.signals ++ reqs.map fun req => (req, false) := by
  induction js with
  | nil => exact fun s => ⟨[], (List.append_nil _).symm⟩
  | cons j js ih =>
    intro s
    rw [finishAll]
    split
    next e _ =>
      obtain ⟨reqs, hreqs⟩ := finish_signals (s := s) key e j
      obtain ⟨more, hmore⟩ := ih (finish s key e j)
      refine ⟨reqs ++ more, ?_⟩
      rw [hmore, hreqs, List.map_append, List.append_assoc]
    next => exact ⟨[], (List.append_nil _).symm⟩

theorem beginOperation_grants {key : String} {i : Nat} {e : AdapterEntry} {op : Operation}
    {first second : Region → Lanes} (hk : s.adapters key = some e)
    (hop : e.operations[i]? = some op) :
    Grants opts s (.begin key i first second)
      (beginOperation opts.maxTargetsPerAdapter s key e i op first second) := by
  unfold beginOperation
  split
  next hcur => exact .of_one rfl fun _ => .touched key i first second e op hk hop hcur
  next =>
    split
    · exact .of_one rfl (by simp)
    · split
      · exact .of_one rfl (by simp)
      · exact .of_same rfl

/-- **Inversion**: which requests an event grants. -/
theorem step_grants (h : step opts s ev = some s') : Grants opts s ev s' := by
  cases ev with
  | ensure location region =>
    obtain rfl := Option.some.inj h
    unfold ensure ensureAdapter ensureLegacy
    dsimp only
    split
    · exact .of_one rfl (by simp)
    · split
      · split
        next e _ =>
          obtain ⟨reqs, hreqs⟩ := finish_signals _ e _
          exact .of_refused hreqs
        next => split <;> exact .of_same rfl
      · exact .of_one rfl (by simp)
    next url hroute =>
      split
      next w hw => exact .of_one rfl fun _ => .legacyRunning location region url w hroute hw
      next => split <;> exact .of_same rfl
  | spawned key ok =>
    rw [step] at h
    split at h
    · split at h
      · split at h
        · obtain rfl := Option.some.inj h
          exact .of_same rfl
        · split at h
          · cases h
          · obtain rfl := Option.some.inj h
            exact .of_refused rfl
      · cases h
    · cases h
  | bootReply key ok =>
    rw [step] at h
    split at h
    next boot hb =>
      obtain ⟨w, hw, rfl⟩ := Option.map_eq_some_iff.mp h
      cases ok with
      | true =>
        -- the boot's own request is granted, the others are queued
        intro req hreq
        have hsig : (req, true) ∈ (bootReady s key boot w).signals := hreq
        rw [bootReady] at hsig
        obtain ⟨reqs, hreqs⟩ := finishAll_signals key boot.joined
          (((s.receive w .ready).setEntry key
            { url := boot.url, worker := w, regions := [boot.firstRegion], operations := [] }).setBoot
              key none |>.signal boot.req true)
        rw [hreqs] at hsig
        rcases List.mem_append.mp hsig with hold | hnew
        · have hown : Grants opts s (.bootReply key true) (s.signal boot.req true) :=
            .of_one rfl fun _ => .bootReady key boot w hb hw
          exact hown req hold
        · obtain ⟨_, -, he⟩ := List.mem_map.mp hnew
          cases he
      | false => exact .of_refused rfl
    next => cases h
  | begin key i first second =>
    rw [step] at h
    split at h
    next e hk =>
      split at h
      next op hop =>
        split at h
        · obtain rfl := Option.some.inj h
          exact beginOperation_grants hk hop
        · cases h
      next => cases h
    next => cases h
  | registrationReply key id ok =>
    rw [step] at h
    split at h
    next e hk =>
      obtain rfl := Option.some.inj h
      unfold registrationReply
      dsimp only
      rcases haw : awaited e.operations id with _ | i
      · exact .of_same rfl
      · obtain ⟨op, next, hop, hs⟩ := awaited_some haw
        dsimp only
        rw [hop]
        dsimp only
        rw [hs]
        cases ok with
        | true => exact .of_one rfl fun _ => .registered key e id i op next hk hop hs
        | false => exact .of_one rfl (by simp)
    next => cases h
  | timeout key i =>
    rw [step] at h
    split at h
    · split at h
      · split at h
        · obtain rfl := Option.some.inj h
          exact .of_one rfl (by simp)
        · cases h
      · cases h
    · cases h
  | legacySpawned url ok =>
    rw [step] at h
    split at h
    · split at h
      · split at h
        · obtain rfl := Option.some.inj h
          exact .of_same rfl
        · obtain rfl := Option.some.inj h
          exact .of_refused rfl
      · cases h
    · cases h
  | legacyReply w ok =>
    rw [step] at h
    split at h
    next url hl =>
      cases ok with
      | true =>
        rw [if_pos rfl] at h
        dsimp only at h
        split at h
        next boot hb =>
          split at h
          next hw =>
            obtain rfl := Option.some.inj h
            intro req hreq
            rcases List.mem_append.mp hreq with hold | hnew
            · exact .inl hold
            · obtain ⟨r, hr, he⟩ := List.mem_map.mp hnew
              injection he with he _
              exact .inr (.legacyReady w url boot req hl hb hw (he ▸ hr))
          next =>
            obtain rfl := Option.some.inj h
            exact .of_same rfl
        next =>
          obtain rfl := Option.some.inj h
          exact .of_same rfl
      | false =>
        rw [if_neg (by simp)] at h
        dsimp only at h
        split at h
        · split at h
          · obtain rfl := Option.some.inj h
            exact .of_refused rfl
          · obtain rfl := Option.some.inj h
            exact .of_same rfl
        · obtain rfl := Option.some.inj h
          exact .of_same rfl
    next => cases h

/-! ## What belongs to no adapter -/

/-- The parts of a state that belong to no adapter. -/
structure Outer where
  nextWorker : WorkerId
  listening : WorkerId → Option String
  workers : String → Option WorkerId
  terminated : List WorkerId
  pending : String → Option LegacyBoot
  requests : List Request

def State.outer (s : State) : Outer where
  nextWorker := s.nextWorker
  listening := s.listening
  workers := s.workers
  terminated := s.terminated
  pending := s.pending
  requests := s.requests

/-- What an event asks for. -/
def Event.requests : Event → List Request
  | .ensure location region => [{ location, region }]
  | _ => []

/-- The events of the adapters alone. -/
def Event.inner : Event → Bool
  | .ensure _ _ | .legacySpawned _ _ | .legacyReply _ _ => false
  | _ => true

/-- What an event does to them. -/
inductive OuterStep (opts : Options) (s : State) : Event → Outer → Prop
  | same (ev : Event) : ev.inner = true → OuterStep opts s ev s.outer
  | asked (location : String) (region : Region) : OuterStep opts s (.ensure location region)
      { s.outer with requests := s.requests ++ [{ location, region }] }
  | joined (location : String) (region : Region) (url : String) (boot : LegacyBoot) :
      route opts location = .legacy url → s.pending url = some boot →
      OuterStep opts s (.ensure location region) { s.outer with
        requests := s.requests ++ [{ location, region }]
        pending := Function.update s.pending url
          (some { boot with reqs := boot.reqs ++ [s.requests.length] }) }
  | begun (location : String) (region : Region) (url : String) :
      route opts location = .legacy url → s.pending url = none →
      OuterStep opts s (.ensure location region) { s.outer with
        requests := s.requests ++ [{ location, region }]
        pending := Function.update s.pending url
          (some { worker := none, region, reqs := [s.requests.length] }) }
  | adapterSpawned (key : String) : OuterStep opts s (.spawned key true)
      { s.outer with nextWorker := s.nextWorker + 1 }
  | bootError (key : String) (boot : AdapterBoot) (w : WorkerId) :
      s.pendingAdapters key = some boot → boot.worker = some w → boot.app = false →
      OuterStep opts s (.bootReply key false) { s.outer with terminated := w :: s.terminated }
  | legacySpawned (url : String) (boot : LegacyBoot) : s.pending url = some boot →
      boot.worker = none → OuterStep opts s (.legacySpawned url true) { s.outer with
        nextWorker := s.nextWorker + 1
        listening := Function.update s.listening s.nextWorker (some url)
        pending := Function.update s.pending url
          (some { boot with worker := some s.nextWorker }) }
  | legacyFailed (url : String) : OuterStep opts s (.legacySpawned url false)
      { s.outer with pending := Function.update s.pending url none }
  | legacyReady (w : WorkerId) (url : String) (pending : String → Option LegacyBoot) :
      s.listening w = some url →
      pending = s.pending ∨ pending = Function.update s.pending url none →
      OuterStep opts s (.legacyReply w true)
        { s.outer with workers := Function.update s.workers url (some w), pending }
  | legacyError (w : WorkerId) (url : String) (pending : String → Option LegacyBoot) :
      s.listening w = some url →
      pending = s.pending ∨ pending = Function.update s.pending url none →
      OuterStep opts s (.legacyReply w false) { s.outer with
        listening := Function.update s.listening w none
        terminated := w :: s.terminated, pending }

theorem OuterStep.of_same (hev : ev.inner = true) (h : s'.outer = s.outer) :
    OuterStep opts s ev s'.outer := by
  rw [h]
  exact .same ev hev

theorem finish_outer {key : String} {e : AdapterEntry} (j : Joined) :
    (finish s key e j).outer = s.outer := by
  unfold finish
  split <;> rfl

theorem finishAll_outer {key : String} (js : List Joined) : ∀ s : State,
    (finishAll key js s).outer = s.outer := by
  induction js with
  | nil => exact fun _ => rfl
  | cons j js ih =>
    intro s
    rw [finishAll]
    split
    · rw [ih, finish_outer]
    · rfl

theorem ensureAdapter_outer (req : Nat) (region : Region) (key url target : String)
    (app : Bool) : (ensureAdapter s req region key url target app).outer = s.outer := by
  unfold ensureAdapter
  split
  · split
    · exact finish_outer _
    · split <;> rfl
  · rfl

theorem beginOperation_outer {max : Nat} {key : String} {e : AdapterEntry} {i : Nat}
    {op : Operation} {first second : Region → Lanes} :
    (beginOperation max s key e i op first second).outer = s.outer := by
  unfold beginOperation
  split
  · rfl
  · split
    · rfl
    · split <;> rfl

theorem registrationReply_outer {key : String} {e : AdapterEntry} {id : Nat} {ok : Bool} :
    (registrationReply s key e id ok).outer = s.outer := by
  unfold registrationReply
  dsimp only
  split
  · rfl
  · split
    · split
      · split <;> rfl
      · rfl
    · rfl

theorem bootReady_outer {key : String} {boot : AdapterBoot} {w : WorkerId} :
    (bootReady s key boot w).outer = s.outer := by
  unfold bootReady
  rw [finishAll_outer]
  rfl

theorem ensure_outer (location : String) (region : Region) :
    OuterStep opts s (.ensure location region) (ensure opts s location region).outer := by
  unfold ensure
  dsimp only
  split
  · exact .asked location region
  · rw [ensureAdapter_outer]
    exact .asked location region
  next url hroute =>
    unfold ensureLegacy
    split
    · exact .asked location region
    · split
      next boot hb => exact .joined location region url boot hroute hb
      next hb => exact .begun location region url hroute hb

/-- **Inversion**: what an event does to what belongs to no adapter. -/
theorem step_outer (h : step opts s ev = some s') : OuterStep opts s ev s'.outer := by
  cases ev with
  | ensure location region =>
    obtain rfl := Option.some.inj h
    exact ensure_outer location region
  | spawned key ok =>
    rw [step] at h
    split at h
    next boot hb =>
      split at h
      · split at h
        next hok =>
          obtain rfl := Option.some.inj h
          rw [hok]
          cases happ : boot.app with
          | true =>
            refine .of_same rfl ?_
            unfold spawned
            rw [happ]
            rfl
          | false =>
            have hs : (spawned s key boot).outer =
                { s.outer with nextWorker := s.nextWorker + 1 } := by
              unfold spawned
              rw [happ]
              rfl
            rw [hs]
            exact .adapterSpawned key
        next =>
          split at h
          · cases h
          · obtain rfl := Option.some.inj h
            exact .of_same rfl rfl
      · cases h
    next => cases h
  | bootReply key ok =>
    rw [step] at h
    split at h
    next boot hb =>
      obtain ⟨w, hw, rfl⟩ := Option.map_eq_some_iff.mp h
      cases ok with
      | true => exact .of_same rfl bootReady_outer
      | false =>
        rw [if_neg (by simp)]
        cases happ : boot.app with
        | true =>
          refine .of_same rfl ?_
          unfold bootError
          rw [happ]
          rfl
        | false =>
          have hs : (bootError s key boot w).outer =
              { s.outer with terminated := w :: s.terminated } := by
            unfold bootError
            rw [happ]
            rfl
          rw [hs]
          exact .bootError key boot w hb hw happ
    next => cases h
  | begin key i first second =>
    rw [step] at h
    split at h
    · split at h
      · split at h
        · obtain rfl := Option.some.inj h
          exact .of_same rfl beginOperation_outer
        · cases h
      · cases h
    · cases h
  | registrationReply key id ok =>
    rw [step] at h
    split at h
    · obtain rfl := Option.some.inj h
      exact .of_same rfl registrationReply_outer
    · cases h
  | timeout key i =>
    rw [step] at h
    split at h
    · split at h
      · split at h
        · obtain rfl := Option.some.inj h
          exact .of_same rfl rfl
        · cases h
      · cases h
    · cases h
  | legacySpawned url ok =>
    rw [step] at h
    split at h
    next boot hb =>
      split at h
      next hw =>
        cases ok with
        | true =>
          obtain rfl := Option.some.inj h
          exact .legacySpawned url boot hb hw
        | false =>
          obtain rfl := Option.some.inj h
          exact .legacyFailed url
      next => cases h
    next => cases h
  | legacyReply w ok =>
    rw [step] at h
    split at h
    next url hl =>
      cases ok with
      | true =>
        rw [if_pos rfl] at h
        dsimp only at h
        split at h
        · split at h
          · obtain rfl := Option.some.inj h
            exact .legacyReady w url _ hl (.inr rfl)
          · obtain rfl := Option.some.inj h
            exact .legacyReady w url _ hl (.inl rfl)
        · obtain rfl := Option.some.inj h
          exact .legacyReady w url _ hl (.inl rfl)
      | false =>
        rw [if_neg (by simp)] at h
        dsimp only at h
        split at h
        · split at h
          · obtain rfl := Option.some.inj h
            exact .legacyError w url _ hl (.inr rfl)
          · obtain rfl := Option.some.inj h
            exact .legacyError w url _ hl (.inl rfl)
        · obtain rfl := Option.some.inj h
          exact .legacyError w url _ hl (.inl rfl)
    next => cases h

/-! ## Where workers come from, and how they end -/

/-- What an event does to the workers: it may spawn the next one, serve a URL by one that
was listened to, and terminate one that has just posted an error. -/
structure WorkerChanges (s : State) (ev : Event) (o : Outer) : Prop where
  nextWorker : s.nextWorker ≤ o.nextWorker
  listening : ∀ w url, o.listening w = some url →
    (s.listening w = some url ∧ ev ≠ .legacyReply w false) ∨ (w = s.nextWorker ∧ s.nextWorker < o.nextWorker ∧ ev = .legacySpawned url true)
  workers : ∀ w url, o.workers url = some w → s.workers url = some w ∨
    (ev = .legacyReply w true ∧ s.listening w = some url)
  terminated : ∀ w, w ∈ o.terminated → w ∈ s.terminated ∨
    (∃ key boot, ev = .bootReply key false ∧ s.pendingAdapters key = some boot ∧
      boot.worker = some w ∧ boot.app = false) ∨
    (∃ url, ev = .legacyReply w false ∧ s.listening w = some url)

theorem OuterStep.workers {o : Outer} (h : OuterStep opts s ev o) : WorkerChanges s ev o := by
  have hle : s.nextWorker ≤ s.nextWorker := Nat.le_refl _
  have kept : (∀ w, ev ≠ .legacyReply w false) → ∀ w url, s.listening w = some url →
      (s.listening w = some url ∧ ev ≠ .legacyReply w false) ∨
        (w = s.nextWorker ∧ s.nextWorker < o.nextWorker ∧ ev = .legacySpawned url true) :=
    fun hev w _ hl => .inl ⟨hl, hev w⟩
  cases h with
  | same _ hev =>
    refine ⟨hle, kept ?_, fun _ _ => .inl, fun _ => .inl⟩
    rintro w rfl
    cases hev
  | asked => exact ⟨hle, kept (by simp), fun _ _ => .inl, fun _ => .inl⟩
  | joined => exact ⟨hle, kept (by simp), fun _ _ => .inl, fun _ => .inl⟩
  | begun => exact ⟨hle, kept (by simp), fun _ _ => .inl, fun _ => .inl⟩
  | legacyFailed => exact ⟨hle, kept (by simp), fun _ _ => .inl, fun _ => .inl⟩
  | adapterSpawned => exact ⟨Nat.le_succ _, kept (by simp), fun _ _ => .inl, fun _ => .inl⟩
  | bootError key boot w hb hw happ =>
    refine ⟨hle, kept (by simp), fun _ _ => .inl, fun w' h => ?_⟩
    rcases List.mem_cons.mp h with rfl | hold
    · exact .inr (.inl ⟨key, boot, rfl, hb, hw, happ⟩)
    · exact .inl hold
  | legacySpawned url boot hb hw =>
    refine ⟨Nat.le_succ _, fun w u hl => ?_, fun _ _ => .inl, fun _ => .inl⟩
    dsimp only at hl
    by_cases hw : w = s.nextWorker
    · rw [hw, Function.update_self] at hl
      obtain rfl := Option.some.inj hl
      exact .inr ⟨hw, Nat.lt_succ_self _, rfl⟩
    · rw [Function.update_of_ne hw] at hl
      exact .inl ⟨hl, by simp⟩
  | legacyReady w url pending hl =>
    refine ⟨hle, kept (by simp), fun w' u hu => ?_, fun _ => .inl⟩
    rcases update_eq_some hu with ⟨rfl, hw'⟩ | ⟨-, hold⟩
    · obtain rfl := Option.some.inj hw'
      exact .inr ⟨rfl, hl⟩
    · exact .inl hold
  | legacyError w url pending hl =>
    refine ⟨hle, fun w' u hu => ?_, fun _ _ => .inl, fun w' h => ?_⟩
    · dsimp only at hu
      by_cases hw' : w' = w
      · rw [hw', Function.update_self] at hu
        cases hu
      · rw [Function.update_of_ne hw'] at hu
        refine .inl ⟨hu, fun he => hw' ?_⟩
        injection he with he
        exact he.symm
    · rcases List.mem_cons.mp h with rfl | hold
      · exact .inr (.inr ⟨url, rfl, hl⟩)
      · exact .inl hold

/-- How an event can leave a legacy boot of `url`. -/
inductive PendingStep (opts : Options) (s : State) (url : String) : Event → LegacyBoot → Prop
  | same (ev : Event) (boot : LegacyBoot) : s.pending url = some boot →
      PendingStep opts s url ev boot
  | joined (location : String) (region : Region) (boot : LegacyBoot) :
      s.pending url = some boot → route opts location = .legacy url →
      PendingStep opts s url (.ensure location region)
        { boot with reqs := boot.reqs ++ [s.requests.length] }
  | begun (location : String) (region : Region) : s.pending url = none →
      route opts location = .legacy url →
      PendingStep opts s url (.ensure location region)
        { worker := none, region, reqs := [s.requests.length] }
  | spawned (boot : LegacyBoot) : s.pending url = some boot → boot.worker = none →
      PendingStep opts s url (.legacySpawned url true) { boot with worker := some s.nextWorker }

theorem OuterStep.boot {o : Outer} (h : OuterStep opts s ev o) {url : String} {boot : LegacyBoot}
    (hb : o.pending url = some boot) : PendingStep opts s url ev boot := by
  -- a boot that is over leaves the others as they were
  have others : ∀ u pending, pending = s.pending ∨ pending = Function.update s.pending u none →
      pending url = some boot → PendingStep opts s url ev boot := by
    intro u pending hp hb
    rcases hp with rfl | rfl
    · exact .same ev boot hb
    · rcases update_eq_some hb with ⟨-, hnone⟩ | ⟨-, hold⟩
      · cases hnone
      · exact .same ev boot hold
  cases h with
  | same => exact .same _ _ hb
  | asked => exact .same _ _ hb
  | joined location region u old hroute hold =>
    rcases update_eq_some hb with ⟨rfl, he⟩ | ⟨-, he⟩
    · obtain rfl := Option.some.inj he
      exact .joined location region old hold hroute
    · exact .same _ _ he
  | begun location region u hroute hold =>
    rcases update_eq_some hb with ⟨rfl, he⟩ | ⟨-, he⟩
    · obtain rfl := Option.some.inj he
      exact .begun location region hold hroute
    · exact .same _ _ he
  | adapterSpawned => exact .same _ _ hb
  | bootError => exact .same _ _ hb
  | legacySpawned u old hold hw =>
    rcases update_eq_some hb with ⟨rfl, he⟩ | ⟨-, he⟩
    · obtain rfl := Option.some.inj he
      exact .spawned old hold hw
    · exact .same _ _ he
  | legacyFailed u => exact others u _ (.inr rfl) hb
  | legacyReady w u pending hl hp => exact others u _ hp hb
  | legacyError w u pending hl hp => exact others u _ hp hb

/-- Only an ensure message is a request. -/
theorem OuterStep.requests {o : Outer} (h : OuterStep opts s ev o) :
    o.requests = s.requests ++ ev.requests := by
  cases h with
  | same ev hev =>
    cases ev with
    | ensure => cases hev
    | _ => exact (List.append_nil _).symm
  | asked => rfl
  | joined => rfl
  | begun => rfl
  | _ => exact (List.append_nil _).symm

/-! ## A worker has one role -/

/-- The worker that boots as adapter `key`, or is its worker. -/
inductive Holds (s : State) (w : WorkerId) (key : String) : Prop
  | boot (boot : AdapterBoot) : s.pendingAdapters key = some boot → boot.worker = some w →
      Holds s w key
  | entry (e : AdapterEntry) : s.adapters key = some e → e.worker = w → Holds s w key

theorem EntryStep.worker {key : String} {e e' : AdapterEntry}
    (h : EntryStep opts s key ev e e') : e'.worker = e.worker ∧ e'.url = e.url := by
  cases h <;> exact ⟨rfl, rfl⟩

/-- **Inversion**: where an adapter's worker comes from. -/
theorem step_holds (hap : Apart s) (h : step opts s ev = some s') {w : WorkerId} {key : String}
    (hw : Holds s' w key) : Holds s w key ∨ ∃ boot, ev = .spawned key true ∧
      s.pendingAdapters key = some boot ∧ w = if boot.app then appWorker else s.nextWorker := by
  cases hw with
  | boot boot hb hbw =>
    cases step_boots h hb with
    | same _ _ hold => exact .inl (.boot boot hold hbw)
    | joined _ _ _ _ _ old hold => exact .inl (.boot old hold hbw)
    | begun => cases hbw
    | spawned old hold _ => exact .inr ⟨old, rfl, hold, (Option.some.inj hbw).symm⟩
  | entry e he hew =>
    have hc := step_changes hap h
    rcases hk : s.adapters key with _ | old
    · rcases hc.fresh key hk with hnone | ⟨boot, w', e', -, hb, hbw, he', hfresh⟩
      · rw [hnone] at he
        cases he
      · rw [he'] at he
        obtain rfl := Option.some.inj he
        exact .inl (.boot boot hb (by rw [hbw, ← hfresh.worker, hew]))
    · obtain ⟨e', he', hstep⟩ := hc.kept key old hk
      rw [he'] at he
      obtain rfl := Option.some.inj he
      exact .inl (.entry old hk (by rw [← hstep.worker.1, hew]))

theorem spawned_nextWorker {key : String} {boot : AdapterBoot}
    (h : step opts s (.spawned key true) = some s') (hb : s.pendingAdapters key = some boot) :
    s'.nextWorker = if boot.app then s.nextWorker else s.nextWorker + 1 := by
  rw [step, hb] at h
  dsimp only at h
  split at h
  · obtain rfl := Option.some.inj h
    rfl
  · cases h

/-- What keeps the workers apart. Worker `0` is the application's: it boots under one key
and is nobody else's. -/
structure Roles (s : State) : Prop where
  apart : Apart s
  next_pos : appWorker < s.nextWorker
  appKey : ∀ key boot, s.pendingAdapters key = some boot → boot.app = true → key = appAdapterKey
  ownBoot : ∀ key boot, s.pendingAdapters key = some boot → boot.app = false →
    boot.worker ≠ some appWorker
  held : ∀ key, Holds s appWorker key → key = appAdapterKey
  bound : ∀ w key, Holds s w key → w < s.nextWorker
  unique : ∀ w key key', Holds s w key → Holds s w key' → key = key'
  listening : ∀ w url, s.listening w = some url →
    w < s.nextWorker ∧ w ≠ appWorker ∧ ∀ key, ¬Holds s w key
  terminated : ∀ w, w ∈ s.terminated → w < s.nextWorker ∧ w ≠ appWorker ∧ ∀ key, ¬Holds s w key

theorem Roles.initial : Roles State.initial where
  apart _ h := absurd rfl h
  next_pos := Nat.one_pos
  appKey _ _ h := by cases h
  ownBoot _ _ h := by cases h
  held _ h := by rcases h with ⟨_, h, _⟩ | ⟨_, h, _⟩ <;> cases h
  bound _ _ h := by rcases h with ⟨_, h, _⟩ | ⟨_, h, _⟩ <;> cases h
  unique _ _ _ h := by rcases h with ⟨_, h, _⟩ | ⟨_, h, _⟩ <;> cases h
  listening _ _ h := by cases h
  terminated _ h := by cases h

/-- A worker of no adapter stays one, unless it is the application's or the next one. -/
theorem Roles.still_free (hr : Roles s) (h : step opts s ev = some s') {w : WorkerId}
    (hlt : w < s.nextWorker) (happ : w ≠ appWorker) (hw : ∀ key, ¬Holds s w key) (key : String) :
    ¬Holds s' w key := by
  intro hnew
  rcases step_holds hr.apart h hnew with hold | ⟨boot, -, -, he⟩
  · exact hw key hold
  · split at he
    · exact happ he
    · exact absurd he (Nat.ne_of_lt hlt)

/-- A boot that failed leaves its worker without a key. -/
theorem Roles.freed (hr : Roles s) {key : String} {boot : AdapterBoot} {w : WorkerId}
    (h : step opts s (.bootReply key false) = some s') (hb : s.pendingAdapters key = some boot)
    (hw : boot.worker = some w) (key' : String) : ¬Holds s' w key' := by
  intro hnew
  rcases step_holds hr.apart h hnew with hold | ⟨_, hev, -⟩
  · obtain rfl := hr.unique w key' key hold (.boot boot hb hw)
    cases hnew with
    | boot boot' hb' _ =>
      cases step_boots h hb' with
      | same _ _ _ hne => exact hne false rfl
    | entry e he _ =>
      have hnone := hr.apart key' (by rw [hb]; simp)
      rcases (step_changes hr.apart h).fresh key' hnone with hn | ⟨_, _, _, hev, -⟩
      · rw [hn] at he
        cases he
      · cases hev
  · cases hev

/-- **Every step keeps the workers apart.** -/
theorem Roles.step (hr : Roles s) (h : step opts s ev = some s') : Roles s' := by
  have hc : WorkerChanges s ev s'.outer := (step_outer h).workers
  have hnext : s.nextWorker ≤ s'.nextWorker := hc.nextWorker
  have hpos := hr.next_pos
  refine ⟨step_apart hr.apart h, Nat.lt_of_lt_of_le hpos hnext, ?_, ?_, ?_, ?_, ?_, ?_, ?_⟩
  · intro key boot hb happ
    cases step_boots h hb with
    | same _ _ hold => exact hr.appKey key boot hold happ
    | joined _ _ _ _ _ old hold => exact hr.appKey key old hold happ
    | begun location region url target app _ _ hroute =>
      obtain rfl : app = true := happ
      exact route_app opts hroute
    | spawned old hold _ => exact hr.appKey key old hold happ
  · intro key boot hb happ
    cases step_boots h hb with
    | same _ _ hold => exact hr.ownBoot key boot hold happ
    | joined _ _ _ _ _ old hold => exact hr.ownBoot key old hold happ
    | begun => simp
    | spawned old hold _ =>
      have happ' : old.app = false := happ
      rw [happ']
      intro he
      have hw := Option.some.inj he
      rw [if_neg (by simp)] at hw
      exact absurd hw (Nat.ne_of_gt hpos)
  · intro key hw
    rcases step_holds hr.apart h hw with hold | ⟨boot, -, hb, he⟩
    · exact hr.held key hold
    · split at he
      next happ => exact hr.appKey key boot hb happ
      next => exact absurd he (Nat.ne_of_lt hpos)
  · intro w key hw
    rcases step_holds hr.apart h hw with hold | ⟨boot, rfl, hb, he⟩
    · exact Nat.lt_of_lt_of_le (hr.bound w key hold) hnext
    · rw [spawned_nextWorker h hb, he]
      split
      · exact hpos
      · exact Nat.lt_succ_self _
  · intro w key key' hw hw'
    -- a worker that was spawned just now has no other key
    have hspawned : ∀ k k' boot, ev = .spawned k true → s.pendingAdapters k = some boot →
        w = (if boot.app then appWorker else s.nextWorker) → Holds s w k' → k = k' := by
      intro k k' boot _ hb he hold
      split at he
      next happ =>
        rw [hr.appKey k boot hb happ]
        exact (hr.held k' (he ▸ hold)).symm
      next =>
        have hlt := hr.bound w k' hold
        exact absurd he (Nat.ne_of_lt hlt)
    rcases step_holds hr.apart h hw with hold | ⟨boot, hev, hb, he⟩
    · rcases step_holds hr.apart h hw' with hold' | ⟨boot, hev, hb, he⟩
      · exact hr.unique w key key' hold hold'
      · exact (hspawned key' key boot hev hb he hold).symm
    · rcases step_holds hr.apart h hw' with hold' | ⟨boot', hev', -⟩
      · exact hspawned key key' boot hev hb he hold'
      · rw [hev] at hev'
        injection hev'
  · intro w url hl
    rcases hc.listening w url hl with ⟨hold, -⟩ | ⟨hw, hlt, hev⟩
    · obtain ⟨hlt, happ, hfree⟩ := hr.listening w url hold
      exact ⟨Nat.lt_of_lt_of_le hlt hnext, happ, hr.still_free h hlt happ hfree⟩
    · have hlt' : s.nextWorker < s'.nextWorker := hlt
      subst hw
      refine ⟨hlt', Nat.ne_of_gt hpos, fun key hnew => ?_⟩
      rcases step_holds hr.apart h hnew with hold | ⟨_, hev', -⟩
      · exact Nat.lt_irrefl _ (hr.bound _ key hold)
      · rw [hev] at hev'
        cases hev'
  · intro w ht
    rcases hc.terminated w ht with hold | ⟨key, boot, rfl, hb, hw, happ⟩ | ⟨url, -, hl⟩
    · obtain ⟨hlt, happ, hfree⟩ := hr.terminated w hold
      exact ⟨Nat.lt_of_lt_of_le hlt hnext, happ, hr.still_free h hlt happ hfree⟩
    · refine ⟨Nat.lt_of_lt_of_le (hr.bound w key (.boot boot hb hw)) hnext, ?_, hr.freed h hb hw⟩
      rintro rfl
      exact hr.ownBoot key boot hb happ hw
    · obtain ⟨hlt, happ, hfree⟩ := hr.listening w url hl
      exact ⟨Nat.lt_of_lt_of_le hlt hnext, happ, hr.still_free h hlt happ hfree⟩

theorem Roles.of_run {es : List Event} {ok : State → Event → Prop}
    (h : Run (Bridge.step opts) ok State.initial es s) : Roles s :=
  h.invariant (P := Roles) .initial fun _ _ _ hr _ hs => hr.step hs

end Haybarn.Bridge
