import Haybarn.Bridge.Talk

/-!
# The engine's side: `vgi_wasm_ensure_worker`

The stub in `js-stubs.js` keeps a flag in the header of a channel: once a call for it has
succeeded every later one returns at once, whatever the bridge has done since. A session
is the bridge, the flags and the calls that wait for it; a call returns `0` either on the
flag or when its ready word says so.

The stub promises that the worker is serving the channel. Nothing clears the flag, so a
promise can outlive the registration it came from (`evicted_promise`). `Harmless` are the
steps that break no promise; in runs of such steps the stub keeps its word
(`ensure_serves`).

Mirroring notes:
- A channel is a block of shared memory and an offset. Every message brings a buffer object
  of its own; `block` is the memory it is a view of.
- A call whose flag was clear has posted its request: that is the bridge's `ensure` event.
  It waits until `wake`, or returns `-1` (`giveUp`: the ready word says so, or 30 s passed).
- `die` is a worker that fails without a word.
-/

namespace Haybarn.Bridge

open Haybarn.Lib

/-! ## What a worker was told -/

/-- What a message changes in the targets a worker was told to serve. -/
def tell (ts : List (Option String × Region)) : Exchange → List (Option String × Region)
  | .sent (.init target region) => ts ++ [(target, region)]
  | .sent (.register _ target region) => ts ++ [(some target, region)]
  | .sent (.unregister target offset) =>
    ts.filter fun t => !(t.1 = some target && t.2.offset = offset)
  | .got _ => ts

/-- The targets a worker was told to serve and not told to drop since. -/
def told (xs : List Exchange) : List (Option String × Region) := xs.foldl tell []

theorem told_append (xs ys : List Exchange) : told (xs ++ ys) = ys.foldl tell (told xs) :=
  List.foldl_append

/-- No displaced region is this one. -/
def survives (gone : List TargetRegion) (t : Option String × Region) : Bool :=
  gone.all fun v => !(t.1 = some v.target && t.2.offset = v.region.offset)

theorem tell_registration (gone : List TargetRegion) (id : Nat) (target : String)
    (region : Region) (ts : List (Option String × Region)) :
    ((registration gone id target region).map .sent).foldl tell ts =
      ts.filter (survives gone) ++ [(some target, region)] := by
  have hdrop : ∀ ts : List (Option String × Region),
      ((gone.map fun v => Msg.unregister v.target v.region.offset).map .sent).foldl tell ts =
        ts.filter (survives gone) := by
    induction gone with
    | nil =>
      intro ts
      exact (List.filter_eq_self.mpr fun _ _ => rfl).symm
    | cons v gone ih =>
      intro ts
      rw [List.map_cons, List.map_cons, List.foldl_cons, ih]
      show (ts.filter _).filter _ = _
      rw [List.filter_filter]
      refine List.filter_congr fun t _ => ?_
      unfold survives
      rw [List.all_cons, Bool.and_comm]
  unfold registration
  rw [List.map_append, List.foldl_append, hdrop]
  rfl

variable {opts : Options} {s s' : State} {ev : Event}

/-- **Only a displaced region is dropped**: what a worker was told, it stays told, unless a
registration takes it away. -/
theorem told_stays (h : step opts s ev = some s') {w : WorkerId} {t : Option String × Region}
    (ht : t ∈ told (talk s.log w)) : t ∈ told (talk s'.log w) ∨
      ∃ key i first second e op gone, ev = .begin key i first second ∧
        s.adapters key = some e ∧ e.operations[i]? = some op ∧ e.worker = w ∧
        (current e.regions op.target).map (·.region) ≠ some op.region ∧
        displaced opts.maxTargetsPerAdapter e.regions op.target op.region first = some gone ∧
        gone.any (fun r => !regionIsIdle r.region (second r.region)) = false ∧
        survives gone t = false ∧ (some op.target, op.region) ∈ told (talk s'.log w) := by
  obtain ⟨new, hlog, hs'⟩ := step_log h
  rw [hs', talk_append]
  -- a single message that is not an unregistration
  have one : ∀ w' x, (∀ target offset, x ≠ .sent (.unregister target offset)) →
      t ∈ told (talk s.log w ++ talk [(w', x)] w) := by
    intro w' x hx
    by_cases hw : w' = w
    · subst hw
      rw [talk_one, told_append]
      show t ∈ tell _ x
      unfold tell
      split
      · exact List.mem_append_left _ ht
      · exact List.mem_append_left _ ht
      · exact absurd rfl (hx _ _)
      · exact ht
    · rw [talk_other hw, List.append_nil]
      exact ht
  have silent : talk new w = [] → t ∈ told (talk s.log w ++ talk new w) := by
    intro hnew
    rw [hnew, List.append_nil]
    exact ht
  cases hlog with
  | nothing => exact .inl (silent rfl)
  | bootInit => exact .inl (one _ _ (by simp))
  | bootReply => exact .inl (one _ _ (by simp))
  | registrationReply => exact .inl (one _ _ (by simp))
  | legacyInit => exact .inl (one _ _ (by simp))
  | legacyReply => exact .inl (one _ _ (by simp))
  | registering key i first second e op gone hk hop hw hp hcur hgone hidle =>
    by_cases hew : e.worker = w
    · subst hew
      rw [talk_sent, told_append, tell_registration]
      by_cases hsurv : survives gone t = true
      · exact .inl (List.mem_append_left _ (List.mem_filter.mpr ⟨ht, hsurv⟩))
      · refine .inr ⟨key, i, first, second, e, op, gone, rfl, hk, hop, rfl, hcur, hgone, hidle,
          by simpa using hsurv, List.mem_append_right _ (List.mem_singleton_self _)⟩
    · refine .inl (silent (talk_quiet fun x hx => ?_))
      obtain ⟨m, -, rfl⟩ := List.mem_map.mp hx
      exact hew

/-- A worker was told of everything the bridge counts on it for. -/
structure ToldInv (s : State) : Prop where
  boots : ∀ key boot w, s.pendingAdapters key = some boot → boot.worker = some w →
    (some boot.firstRegion.target, boot.firstRegion.region) ∈ told (talk s.log w)
  regions : ∀ key e, s.adapters key = some e →
    ∀ r ∈ e.regions, (some r.target, r.region) ∈ told (talk s.log e.worker)
  posted : ∀ key e, s.adapters key = some e → ∀ (i : Nat) (op : Operation) (id : Nat)
    (next : TargetRegion), e.operations[i]? = some op → op.status = .awaiting id next →
      (some op.target, op.region) ∈ told (talk s.log e.worker)

theorem ToldInv.initial : ToldInv State.initial where
  boots _ _ _ h := by cases h
  regions _ _ h := by cases h
  posted _ _ h := by cases h

theorem ToldInv.step_boots (ht : ToldInv s) (hr : Roles s) (h : step opts s ev = some s')
    {key : String} {boot : AdapterBoot} {w : WorkerId} (hb : s'.pendingAdapters key = some boot)
    (hw : boot.worker = some w) :
    (some boot.firstRegion.target, boot.firstRegion.region) ∈ told (talk s'.log w) := by
  obtain ⟨new, hlog, hs'⟩ := step_log h
  rw [hs', talk_append]
  have kept : ∀ old, s.pendingAdapters key = some old → old.worker = some w →
      (∀ ok, ev ≠ .bootReply key ok) → (some old.firstRegion.target, old.firstRegion.region) ∈
        told (talk s.log w ++ talk new w) := by
    intro old hold hw hev
    rw [talk_quiet (hr.boot_quiet hlog hold hw hev), List.append_nil]
    exact ht.boots key old w hold hw
  cases Bridge.step_boots h hb with
  | same _ _ hold hev => exact kept boot hold hw hev
  | joined location region url target app old hold => exact kept old hold hw (by simp)
  | begun => cases hw
  | spawned old hold =>
    cases hlog with
    | nothing _ hsilent => cases hsilent
    | bootInit _ boot' hb' =>
      rw [hold] at hb'
      obtain rfl := Option.some.inj hb'
      obtain rfl := Option.some.inj hw
      rw [talk_one, told_append]
      exact List.mem_append_right _ (List.mem_singleton_self _)

theorem ToldInv.fresh (ht : ToldInv s) (h : step opts s (.bootReply key true) = some s')
    {boot : AdapterBoot} {w : WorkerId} (hb : s.pendingAdapters key = some boot)
    (hw : boot.worker = some w) :
    (some boot.firstRegion.target, boot.firstRegion.region) ∈ told (talk s'.log w) := by
  rcases told_stays h (ht.boots key boot w hb hw) with hold | ⟨_, _, _, _, _, _, _, hev, -⟩
  · exact hold
  · cases hev

theorem ToldInv.step (ht : ToldInv s) (hi : Inv opts s) (hr : Roles s)
    (h : step opts s ev = some s') : ToldInv s' := by
  refine ⟨fun key boot w hb hw => ht.step_boots hr h hb hw, ?_, ?_⟩
  · intro key e' he' r hmem
    rcases hk : s.adapters key with _ | e
    · rcases (step_changes hr.apart h).fresh key hk with
        hnone | ⟨boot, w, e₁, rfl, hb, hw, he₁, hfresh⟩
      · rw [hnone] at he'
        cases he'
      · rw [he₁] at he'
        obtain rfl := Option.some.inj he'
        rw [hfresh.regions] at hmem
        obtain rfl := List.mem_singleton.mp hmem
        rw [hfresh.worker]
        exact ht.fresh h hb hw
    · obtain ⟨e₁, xs, he₁, hworker, htalk, hadapter⟩ := step_adapter hi hr h hk
      rw [he₁] at he'
      obtain rfl := Option.some.inj he'
      rw [hworker, htalk, told_append]
      cases hadapter with
      | quiet _ _ _ hbound =>
        have hpair : (r.target, r.region) ∈ bound e := by
          rw [← hbound]
          exact List.mem_map_of_mem hmem
        obtain ⟨old, hold, he⟩ := List.mem_map.mp hpair
        injection he with htarget hregion
        rw [← htarget, ← hregion]
        exact ht.regions key e hk old hold
      | registering first second _ i op gone =>
        rw [tell_registration]
        obtain ⟨hold, hstay⟩ := mem_without.mp hmem
        refine List.mem_append_left _ (List.mem_filter.mpr ⟨ht.regions key e hk r hold, ?_⟩)
        refine List.all_eq_true.mpr fun v hv => ?_
        have hne : ¬r.target = v.target := (hstay v hv).symm
        simp [hne]
      | registered id _ i op next hop hs =>
        have hreg : EntryStep opts s key _ e _ := .registered id e i op next hop hs
        rcases hreg.region hmem with
          ⟨old, hold, htarget, hregion⟩ | ⟨id', i', op', -, hop', hs'⟩
        · rw [htarget, hregion]
          exact ht.regions key e hk old hold
        · obtain ⟨-, -, htarget, hregion⟩ := (hi.entries key e hk).awaiting i' op' id' r hop' hs'
          rw [htarget, hregion]
          exact ht.posted key e hk i' op' id' r hop' hs'
      | refused _ _ _ hregions =>
        rw [hregions] at hmem
        exact ht.regions key e hk r hmem
      | late => exact ht.regions key e hk r hmem
  · intro key e' he' i op id next hop hs
    rcases hk : s.adapters key with _ | e
    · rcases (step_changes hr.apart h).fresh key hk with
        hnone | ⟨boot, w, e₁, rfl, hb, hw, he₁, hfresh⟩
      · rw [hnone] at he'
        cases he'
      · rw [he₁] at he'
        obtain rfl := Option.some.inj he'
        rw [(hfresh.operations op (List.mem_of_getElem? hop)).1] at hs
        cases hs
    · obtain ⟨e₁, xs, he₁, hworker, htalk, hadapter⟩ := step_adapter hi hr h hk
      rw [he₁] at he'
      obtain rfl := Option.some.inj he'
      rw [hworker, htalk, told_append]
      cases hadapter with
      | quiet _ _ _ _ hawaits => exact ht.posted key e hk i op id next (hawaits i op id next hop hs) hs
      | registering first second _ j op' gone hop' hw hpre =>
        rw [tell_registration]
        dsimp only at hop
        rw [setStatus_get] at hop
        split at hop
        next hij =>
          subst hij
          rw [hop'] at hop
          obtain rfl := Option.some.inj hop
          exact List.mem_append_right _ (List.mem_singleton_self _)
        next hij =>
          -- nobody else awaits a reply while this one begins
          have hch := (hi.entries key e hk).chained
          by_cases hlt : i < j
          · rw [hch.before hpre i op hlt hop] at hs
            cases hs
          · rw [hch.after hop' (by rw [hw]; simp) i op (by omega) hop] at hs
            cases hs
      | registered id' _ j op' next' =>
        exact ht.posted key e hk i op id next (AwaitsFrom.settled j i op id next hop hs) hs
      | refused _ _ _ _ hawaits =>
        exact ht.posted key e hk i op id next (hawaits i op id next hop hs) hs
      | late => exact ht.posted key e hk i op id next hop hs

/-! ## The stub -/

/-- A block of shared memory and an offset in it. -/
abbrev Place := Nat × Int

/-- Where a region is. -/
def Region.place (block : Nat → Nat) (region : Region) : Place :=
  (block region.buffer, region.offset)

structure Session where
  bridge : State
  /-- The lane `HDR_READY` of a channel. -/
  ready : Place → Bool
  /-- The calls that have returned. -/
  returned : List Nat
  /-- The workers that have failed without a word. -/
  dead : List WorkerId

def Session.initial : Session where
  bridge := State.initial
  ready _ := false
  returned := []
  dead := []

inductive Call
  /-- The bridge or one of its workers moves. -/
  | bridge (ev : Event)
  /-- A call finds the flag set and returns `0`. -/
  | fast (p : Place)
  /-- A waiting call finds its ready word `1`: it sets the flag and returns `0`. -/
  | wake (req : Nat)
  /-- A waiting call returns `-1`. -/
  | giveUp (req : Nat)
  | die (w : WorkerId)

variable (block : Nat → Nat) (opts : Options)

/-- One step of a session. -/
def Session.step (s : Session) : Call → Option Session
  | .bridge ev => (Bridge.step opts s.bridge ev).map fun b => { s with bridge := b }
  | .fast p => if s.ready p then some s else none
  | .wake req =>
    match s.bridge.requests[req]? with
    | some r =>
      if req ∉ s.returned ∧ (req, true) ∈ s.bridge.signals then
        some { s with ready := Function.update s.ready (r.region.place block) true
                      returned := req :: s.returned }
      else none
    | none => none
  | .giveUp req => some { s with returned := req :: s.returned }
  | .die w => some { s with dead := w :: s.dead }

/-- The channel for which the call returns `0`. -/
def Session.returns (s : Session) : Call → Option Place
  | .fast p => some p
  | .wake req => s.bridge.requests[req]?.map fun r => r.region.place block
  | _ => none

/-! ## Promises -/

/-- The worker lives and was told to serve the channel, and not told to drop it since. -/
def Session.serves (s : Session) (w : WorkerId) (p : Place) : Bool :=
  !(w ∈ s.bridge.terminated) && !(w ∈ s.dead) &&
    (told (talk s.bridge.log w)).any fun t => t.2.place block = p

/-- Some worker does. -/
def Session.served (s : Session) (p : Place) : Bool :=
  s.bridge.log.any fun x => s.serves block x.1 p

/-- Some other worker does. -/
def Session.servedElse (s : Session) (w : WorkerId) (p : Place) : Bool :=
  s.bridge.log.any fun x => x.1 ≠ w && s.serves block x.1 p

/-- A call for the channel returns `0`, now or when it wakes. -/
def Session.promised (s : Session) (p : Place) : Bool :=
  s.ready p || s.bridge.signals.any fun g => g.2 && !(g.1 ∈ s.returned) &&
    (s.bridge.requests[g.1]?).any fun r => r.region.place block = p

/-- No promise rests on the worker alone. -/
def Session.dispensable (s : Session) (w : WorkerId) : Bool :=
  (told (talk s.bridge.log w)).all fun t =>
    !s.promised block (t.2.place block) || s.servedElse block w (t.2.place block)

/-- The answer of a worker, if it lives, makes a promise it keeps. -/
def Session.answers (s : Session) (w : WorkerId) (p : Place) : Bool :=
  !(w ∈ s.dead) || s.served block p

/-- The regions that the operation takes away. -/
def evicted (e : AdapterEntry) (op : Operation) (first second : Region → Lanes) :
    List TargetRegion :=
  match displaced opts.maxTargetsPerAdapter e.regions op.target op.region first with
  | some gone => if gone.any fun r => !regionIsIdle r.region (second r.region) then [] else gone
  | none => []

/-- Taking `gone` away and registering the operation's region leaves every promise with
a worker: this one, by another of its targets, or another one. -/
def Session.keeps (s : Session) (e : AdapterEntry) (op : Operation) (gone : List TargetRegion) :
    Bool :=
  (told (talk s.bridge.log e.worker)).all fun t =>
    survives gone t || !s.promised block (t.2.place block) ||
      t.2.place block = op.region.place block || s.servedElse block e.worker (t.2.place block) ||
      (told (talk s.bridge.log e.worker)).any fun t' =>
        survives gone t' && t'.2.place block = t.2.place block

/-- The steps of the bridge that break no promise. -/
def Session.spares (s : Session) : Event → Bool
  | .ensure location region =>
    match route opts location with
    | .legacy url => (s.bridge.workers url).isNone || s.served block (region.place block)
    | _ => true
  | .bootReply key true =>
    match s.bridge.pendingAdapters key with
    | some boot => boot.worker.all fun w => s.answers block w (boot.firstRegion.region.place block)
    | none => true
  | .bootReply key false =>
    match s.bridge.pendingAdapters key with
    | some boot => boot.app || boot.worker.all fun w => s.dispensable block w
    | none => true
  | .begin key i first second =>
    match s.bridge.adapters key with
    | some e =>
      match e.operations[i]? with
      | some op =>
        if (current e.regions op.target).map (·.region) = some op.region then
          s.answers block e.worker (op.region.place block)
        else s.keeps block e op (evicted opts e op first second)
      | none => true
    | none => true
  | .registrationReply key id true =>
    match s.bridge.adapters key with
    | some e => e.operations.all fun op => match op.status with
      | .awaiting id' _ => id' ≠ id || s.answers block e.worker (op.region.place block)
      | _ => true
    | none => true
  | .legacyReply w true =>
    match (s.bridge.listening w).bind s.bridge.pending with
    | some boot => boot.worker ≠ some w || boot.reqs.all fun req =>
        (s.bridge.requests[req]?).all fun r => s.served block (r.region.place block)
    | none => true
  | .legacyReply w false => s.dispensable block w
  | _ => true

/-- A step that breaks no promise: no registration of a promised channel is taken away,
no worker that a promise rests on fails, an adapter's worker that answers is alive, and a
request for a URL names a channel that is served. -/
def Session.harmless (s : Session) : Call → Bool
  | .bridge ev => s.spares block opts ev
  | .die w => s.dispensable block w
  | _ => true

def Harmless (s : Session) (c : Call) : Prop := s.harmless block opts c = true

instance (s : Session) (c : Call) : Decidable (Harmless block opts s c) :=
  inferInstanceAs (Decidable (s.harmless block opts c = true))

/-! ## Promises are kept -/

variable {block : Nat → Nat} {opts : Options} {s s' : Session} {ev : Event} {b : State}

theorem serves_iff {w : WorkerId} {p : Place} : s.serves block w p = true ↔
    (w ∉ s.bridge.terminated ∧ w ∉ s.dead) ∧
      ∃ t ∈ told (talk s.bridge.log w), t.2.place block = p := by
  unfold Session.serves
  simp only [Bool.and_eq_true, Bool.not_eq_true', decide_eq_false_iff_not, List.any_eq_true,
    decide_eq_true_eq]

/-- A worker serves the channel. -/
def Attended (block : Nat → Nat) (s : Session) (p : Place) : Prop :=
  ∃ w, s.serves block w p = true

theorem attended_of {p : Place} (h : s.served block p = true) : Attended block s p := by
  obtain ⟨x, -, hx⟩ := List.any_eq_true.mp h
  exact ⟨x.1, hx⟩

theorem servedElse_of {w : WorkerId} {p : Place} (h : s.servedElse block w p = true) :
    ∃ w', w' ≠ w ∧ s.serves block w' p = true := by
  obtain ⟨x, -, hx⟩ := List.any_eq_true.mp h
  simp only [Bool.and_eq_true, decide_eq_true_eq] at hx
  exact ⟨x.1, hx⟩

/-- The events that end no worker. -/
theorem step_terminated (h : Bridge.step opts s.bridge ev = some b)
    (hboot : ∀ key, ev ≠ .bootReply key false) (hlegacy : ∀ w, ev ≠ .legacyReply w false)
    {w : WorkerId} (hw : w ∉ s.bridge.terminated) : w ∉ b.terminated := by
  intro hterm
  have hc : WorkerChanges s.bridge ev b.outer := (step_outer h).workers
  rcases hc.terminated w hterm with hold | ⟨key, _, hev, -⟩ | ⟨_, hev, -⟩
  · exact hw hold
  · exact hboot key hev
  · exact hlegacy w hev

/-- Away from evictions and failures a worker goes on serving. -/
theorem serves_step (h : Bridge.step opts s.bridge ev = some b)
    (hboot : ∀ key, ev ≠ .bootReply key false) (hlegacy : ∀ w, ev ≠ .legacyReply w false)
    (hbegin : ∀ key i first second, ev ≠ .begin key i first second) {w : WorkerId} {p : Place}
    (hs : s.serves block w p = true) :
    Session.serves block { s with bridge := b } w p = true := by
  obtain ⟨⟨hterm, hdead⟩, t, ht, hp⟩ := serves_iff.mp hs
  refine serves_iff.mpr ⟨⟨step_terminated h hboot hlegacy hterm, hdead⟩, t, ?_, hp⟩
  rcases told_stays h ht with hold | ⟨key, i, first, second, _, _, _, hev, -⟩
  · exact hold
  · exact absurd hev (hbegin key i first second)

/-- A worker that ends leaves the others alone. -/
theorem serves_other (h : Bridge.step opts s.bridge ev = some b) {w : WorkerId}
    (hev : (∃ key boot, ev = .bootReply key false ∧ s.bridge.pendingAdapters key = some boot ∧
      boot.worker = some w) ∨ ev = .legacyReply w false) {w' : WorkerId} {p : Place}
    (hne : w' ≠ w) (hs : s.serves block w' p = true) :
    Session.serves block { s with bridge := b } w' p = true := by
  obtain ⟨⟨hterm, hdead⟩, t, ht, hp⟩ := serves_iff.mp hs
  refine serves_iff.mpr ⟨⟨fun hnew => ?_, hdead⟩, t, ?_, hp⟩
  · have hc : WorkerChanges s.bridge ev b.outer := (step_outer h).workers
    rcases hc.terminated w' hnew with hold | ⟨key, boot, rfl, hb, hw, -⟩ | ⟨url, rfl, -⟩
    · exact hterm hold
    · rcases hev with ⟨key', boot', hk, hb', hw'⟩ | hk
      · obtain rfl : key = key' := by injection hk
        rw [hb] at hb'
        obtain rfl := Option.some.inj hb'
        rw [hw] at hw'
        exact hne (Option.some.inj hw')
      · cases hk
    · rcases hev with ⟨_, _, hk, -⟩ | hk
      · cases hk
      · injection hk with hk
        exact hne hk
  · rcases told_stays h ht with hold | ⟨key, i, first, second, _, _, _, hb, -⟩
    · exact hold
    · rcases hev with ⟨_, _, hk, -⟩ | hk <;> · rw [hb] at hk; cases hk

/-- A failure breaks no promise when the worker is dispensable. -/
theorem Attended.failure (h : Bridge.step opts s.bridge ev = some b) {w : WorkerId}
    (hev : (∃ key boot, ev = .bootReply key false ∧ s.bridge.pendingAdapters key = some boot ∧
      boot.worker = some w) ∨ ev = .legacyReply w false) (hd : s.dispensable block w = true)
    {p : Place} (hprom : s.promised block p = true) (hs : Attended block s p) :
    Attended block { s with bridge := b } p := by
  obtain ⟨w', hw'⟩ := hs
  by_cases hne : w' = w
  · subst hne
    obtain ⟨-, t, ht, rfl⟩ := serves_iff.mp hw'
    have hother := List.all_eq_true.mp hd t ht
    rw [hprom, Bool.not_true, Bool.false_or] at hother
    obtain ⟨w₁, hne, hw₁⟩ := servedElse_of hother
    exact ⟨w₁, serves_other h hev hne hw₁⟩
  · exact ⟨w', serves_other h hev hne hw'⟩

theorem evicted_eq {e : AdapterEntry} {op : Operation} {gone : List TargetRegion}
    {first second : Region → Lanes}
    (hgone : displaced opts.maxTargetsPerAdapter e.regions op.target op.region first = some gone)
    (hidle : gone.any (fun r => !regionIsIdle r.region (second r.region)) = false) :
    evicted opts e op first second = gone := by
  unfold evicted
  rw [hgone]
  dsimp only
  rw [hidle]
  rfl

/-- A registration that keeps the promises leaves every promised channel served. -/
theorem Attended.begin {key : String} {i : Nat} {first second : Region → Lanes}
    (h : Bridge.step opts s.bridge (.begin key i first second) = some b)
    (hok : s.spares block opts (.begin key i first second) = true) {p : Place}
    (hprom : s.promised block p = true) (hs : Attended block s p) :
    Attended block { s with bridge := b } p := by
  have hterm : ∀ w, w ∉ s.bridge.terminated → w ∉ b.terminated :=
    fun w => step_terminated h (by simp) (by simp)
  obtain ⟨w, hw⟩ := hs
  obtain ⟨⟨halive, hdead⟩, t, ht, rfl⟩ := serves_iff.mp hw
  have serve : ∀ t' ∈ told (talk b.log w), t'.2.place block = t.2.place block →
      Attended block { s with bridge := b } (t.2.place block) :=
    fun t' ht' hp => ⟨w, serves_iff.mpr ⟨⟨hterm w halive, hdead⟩, t', ht', hp⟩⟩
  rcases told_stays h ht with
    hold | ⟨_, _, _, _, e, op, gone, hev, hk, hop, rfl, hcur, hgone, hidle, hsurv, hnew⟩
  · exact serve t hold rfl
  · cases hev
    unfold Session.spares at hok
    dsimp only at hok
    rw [hk] at hok
    dsimp only at hok
    rw [hop] at hok
    dsimp only at hok
    rw [if_neg hcur, evicted_eq hgone hidle] at hok
    have hkeeps := List.all_eq_true.mp hok t ht
    rw [hsurv, hprom] at hkeeps
    simp only [Bool.not_true, Bool.false_or, Bool.or_eq_true, decide_eq_true_eq,
      List.any_eq_true, Bool.and_eq_true] at hkeeps
    rcases hkeeps with (hp | helse) | ⟨t', ht', hsurv', hp⟩
    · exact serve _ hnew hp.symm
    · -- another worker is not spoken to
      obtain ⟨w', hne, hw'⟩ := servedElse_of helse
      obtain ⟨⟨halive', hdead'⟩, t', ht', hp⟩ := serves_iff.mp hw'
      refine ⟨w', serves_iff.mpr ⟨⟨hterm w' halive', hdead'⟩, t', ?_, hp⟩⟩
      rcases told_stays h ht' with hold | ⟨_, _, _, _, e', _, _, hev, hk', -, hw₁, -⟩
      · exact hold
      · cases hev
        rw [hk] at hk'
        obtain rfl := Option.some.inj hk'
        exact absurd hw₁.symm hne
    · refine serve t' ?_ hp
      rcases told_stays h ht' with
        hold | ⟨_, _, _, _, e', op', gone', hev, hk', hop', -, -, hgone', -, hsurv₁, -⟩
      · exact hold
      · cases hev
        rw [hk] at hk'
        obtain rfl := Option.some.inj hk'
        rw [hop] at hop'
        obtain rfl := Option.some.inj hop'
        rw [hgone] at hgone'
        obtain rfl := Option.some.inj hgone'
        rw [hsurv'] at hsurv₁
        cases hsurv₁

theorem promised_iff {p : Place} : s.promised block p = true ↔ s.ready p = true ∨
    ∃ req r, (req, true) ∈ s.bridge.signals ∧ req ∉ s.returned ∧
      s.bridge.requests[req]? = some r ∧ r.region.place block = p := by
  unfold Session.promised
  simp only [Bool.or_eq_true, List.any_eq_true, Bool.and_eq_true, Bool.not_eq_true',
    decide_eq_false_iff_not, Option.any_eq_true, decide_eq_true_eq]
  refine or_congr_right ⟨?_, ?_⟩
  · rintro ⟨⟨req, ok⟩, hmem, ⟨rfl, hover⟩, r, hr, hp⟩
    exact ⟨req, r, hmem, hover, hr, hp⟩
  · rintro ⟨req, r, hmem, hover, hr, hp⟩
    exact ⟨(req, true), hmem, ⟨rfl, hover⟩, r, hr, hp⟩

/-- What holds in every session. -/
structure SessionInv (opts : Options) (s : State) : Prop where
  inv : Inv opts s
  roles : Roles s
  told : ToldInv s
  provenance : Provenance opts s

theorem SessionInv.initial : SessionInv opts State.initial :=
  ⟨.initial, .initial, .initial, .initial⟩

theorem SessionInv.step {s s' : State} (hs : SessionInv opts s)
    (h : Bridge.step opts s ev = some s') : SessionInv opts s' :=
  ⟨hs.inv.step h, hs.roles.step h, hs.told.step hs.inv hs.roles h,
    hs.provenance.step hs.inv hs.roles h⟩

/-- An adapter's worker that answers serves what it was told. -/
theorem attended_by {key : String} {w : WorkerId} {region : Region} {target : Option String}
    (hinv : SessionInv opts b) (hholds : Holds b w key)
    (htold : (target, region) ∈ told (talk b.log w)) (hdead : w ∉ s.dead) :
    Attended block { s with bridge := b } (region.place block) := by
  refine ⟨w, serves_iff.mpr ⟨⟨fun hterm => ?_, hdead⟩, _, htold, rfl⟩⟩
  exact (hinv.roles.terminated w hterm).2.2 key hholds

theorem answers_of {w : WorkerId} {p : Place} (h : s.answers block w p = true) :
    w ∉ s.dead ∨ Attended block s p := by
  unfold Session.answers at h
  rw [Bool.or_eq_true] at h
  rcases h with hdead | hserved
  · exact .inl (by simpa using hdead)
  · exact .inr (attended_of hserved)

/-- The region that a granted request named. -/
theorem granted_region {req : Nat}
    (h : Bridge.step opts s.bridge ev = some b) {key : String} {region : Region}
    (ha : Asks opts s.bridge req key region) {r : Request} (hr : b.requests[req]? = some r) :
    r.region = region := by
  obtain ⟨location, _, _, _, hget, -⟩ := ha
  have hget' := step_requests_get h hget
  rw [hr] at hget'
  obtain rfl := Option.some.inj hget'
  rfl

/-- **A new promise is kept**: what a step grants is served. -/
theorem granted_attended (hinv : SessionInv opts s.bridge)
    (h : Bridge.step opts s.bridge ev = some b) (hok : s.spares block opts ev = true)
    {req : Nat} (hg : Granted opts s.bridge ev req) {r : Request}
    (hr : b.requests[req]? = some r) :
    Attended block { s with bridge := b } (r.region.place block) := by
  have hinv' := hinv.step h
  -- the worker serves on, where the step is no eviction and no failure
  have stays : (∀ key, ev ≠ .bootReply key false) → (∀ w, ev ≠ .legacyReply w false) →
      (∀ key i first second, ev ≠ .begin key i first second) → ∀ p, Attended block s p →
      Attended block { s with bridge := b } p := by
    intro hboot hlegacy hbegin p hp
    obtain ⟨w, hw⟩ := hp
    exact ⟨w, serves_step h hboot hlegacy hbegin hw⟩
  cases hg with
  | legacyRunning location region url w hroute hw =>
    unfold Session.spares at hok
    dsimp only at hok
    rw [hroute] at hok
    dsimp only at hok
    rw [hw, Option.isNone_some, Bool.false_or] at hok
    rw [ensure_requests_get h] at hr
    obtain rfl := Option.some.inj hr
    exact stays (by simp) (by simp) (by simp) _ (attended_of hok)
  | bootReady key boot w hb hw =>
    unfold Session.spares at hok
    dsimp only at hok
    rw [hb] at hok
    dsimp only at hok
    rw [hw] at hok
    rw [granted_region h (hinv.provenance.boots key boot hb).1 hr]
    rcases answers_of (w := w) hok with hdead | hserved
    · obtain ⟨e, he⟩ := bootReady_entry h hb hw
      rcases (step_changes hinv.inv.apart h).fresh key (hinv.inv.apart key (by rw [hb]; simp)) with
        hnone | ⟨boot', w', e', -, hb', hw', he', hfresh⟩
      · rw [hnone] at he
        cases he
      · rw [hb] at hb'
        obtain rfl := Option.some.inj hb'
        rw [hw] at hw'
        obtain rfl := Option.some.inj hw'
        exact attended_by hinv' (.entry e' he' hfresh.worker) (hinv.told.fresh h hb hw) hdead
    · exact stays (by simp) (by simp) (by simp) _ hserved
  | touched key i first second e op hk hop hcur =>
    unfold Session.spares at hok
    dsimp only at hok
    rw [hk] at hok
    dsimp only at hok
    rw [hop] at hok
    dsimp only at hok
    rw [if_pos hcur] at hok
    have hasks := hinv.provenance.operations key e hk op (List.mem_of_getElem? hop)
    rw [granted_region h hasks hr]
    -- the region stays with its worker: nothing is displaced
    have hstays : ∀ w t, t ∈ told (talk s.bridge.log w) → t ∈ told (talk b.log w) := by
      intro w t ht
      rcases told_stays h ht with hold | ⟨_, _, _, _, e', op', _, hev, hk', hop', -, hne, -⟩
      · exact hold
      · cases hev
        rw [hk] at hk'
        obtain rfl := Option.some.inj hk'
        rw [hop] at hop'
        obtain rfl := Option.some.inj hop'
        exact absurd hcur hne
    rcases answers_of (w := e.worker) hok with hdead | ⟨w, hw⟩
    · obtain ⟨old, hold, hregion⟩ := Option.map_eq_some_iff.mp hcur
      obtain ⟨e', he', hstep⟩ := (step_changes hinv.inv.apart h).kept key e hk
      have htold := hstays _ _ (hinv.told.regions key e hk old (current_some hold).1)
      rw [hregion] at htold
      exact attended_by hinv' (.entry e' he' hstep.worker.1) htold hdead
    · obtain ⟨⟨hterm, hdead⟩, t, ht, hp⟩ := serves_iff.mp hw
      exact ⟨w, serves_iff.mpr
        ⟨⟨step_terminated h (by simp) (by simp) hterm, hdead⟩, t, hstays w t ht, hp⟩⟩
  | registered key e id i op next hk hop hs =>
    unfold Session.spares at hok
    dsimp only at hok
    rw [hk] at hok
    have hmem := List.mem_of_getElem? hop
    have hans := List.all_eq_true.mp hok op hmem
    rw [hs] at hans
    dsimp only at hans
    have hans : s.answers block e.worker (op.region.place block) = true := by
      simpa using hans
    rw [granted_region h (hinv.provenance.operations key e hk op hmem) hr]
    rcases answers_of (w := e.worker) hans with hdead | hserved
    · obtain ⟨e', he', hstep⟩ := (step_changes hinv.inv.apart h).kept key e hk
      have htold : (some op.target, op.region) ∈ told (talk b.log e.worker) := by
        rcases told_stays h (hinv.told.posted key e hk i op id next hop hs) with
          hold | ⟨_, _, _, _, _, _, _, hev, -⟩
        · exact hold
        · cases hev
      exact attended_by hinv' (.entry e' he' hstep.worker.1) htold hdead
    · exact stays (by simp) (by simp) (by simp) _ hserved
  | legacyReady w url boot req hl hb hw hreq =>
    unfold Session.spares at hok
    dsimp only at hok
    rw [hl, Option.bind_some, hb] at hok
    dsimp only at hok
    rw [hw] at hok
    have hserved : (boot.reqs.all fun req => (s.bridge.requests[req]?).all fun r =>
        s.served block (r.region.place block)) = true := by
      simpa using hok
    have hserved := List.all_eq_true.mp hserved req hreq
    obtain ⟨r', hr', -⟩ := (hinv.provenance.pending url boot hb).2 req hreq
    rw [hr'] at hserved
    have hget := step_requests_get h hr'
    rw [hr] at hget
    obtain rfl := Option.some.inj hget
    exact stays (by simp) (by simp) (by simp) _ (attended_of hserved)

/-- An old promise survives a step that spares it. -/
theorem promise_survives (h : Bridge.step opts s.bridge ev = some b) (hok : s.spares block opts ev = true) {p : Place}
    (hprom : s.promised block p = true) (hs : Attended block s p) :
    Attended block { s with bridge := b } p := by
  by_cases hboot : ∃ key, ev = .bootReply key false
  · obtain ⟨key, rfl⟩ := hboot
    have hstep := h
    rw [Bridge.step] at h
    split at h
    next boot hb =>
      obtain ⟨w, hw, -⟩ := Option.map_eq_some_iff.mp h
      unfold Session.spares at hok
      dsimp only at hok
      rw [hb] at hok
      dsimp only at hok
      rw [hw, Bool.or_eq_true] at hok
      rcases hok with happ | hd
      · -- the application's worker is not terminated
        obtain ⟨w', hw'⟩ := hs
        obtain ⟨⟨hterm, hdead⟩, t, ht, hp⟩ := serves_iff.mp hw'
        refine ⟨w', serves_iff.mpr ⟨⟨fun hnew => ?_, hdead⟩, t, ?_, hp⟩⟩
        · have hc : WorkerChanges s.bridge _ b.outer := (step_outer hstep).workers
          rcases hc.terminated w' hnew with hold | ⟨_, boot', hev, hb', -, happ'⟩ | ⟨_, hev, -⟩
          · exact hterm hold
          · injection hev with hkey
            rw [← hkey, hb] at hb'
            obtain rfl := Option.some.inj hb'
            rw [happ] at happ'
            cases happ'
          · cases hev
        · rcases told_stays hstep ht with hold | ⟨_, _, _, _, _, _, _, hev, -⟩
          · exact hold
          · cases hev
      · exact hs.failure hstep (.inl ⟨key, boot, rfl, hb, hw⟩) hd hprom
    next => cases h
  · by_cases hlegacy : ∃ w, ev = .legacyReply w false
    · obtain ⟨w, rfl⟩ := hlegacy
      exact hs.failure h (.inr rfl) hok hprom
    · by_cases hbegin : ∃ key i first second, ev = .begin key i first second
      · obtain ⟨key, i, first, second, rfl⟩ := hbegin
        exact hs.begin h hok hprom
      · obtain ⟨w, hw⟩ := hs
        exact ⟨w, serves_step h (fun key he => hboot ⟨key, he⟩) (fun w he => hlegacy ⟨w, he⟩)
          (fun key i first second he => hbegin ⟨key, i, first, second, he⟩) hw⟩

/-- Every promise is one that a worker keeps. -/
structure Kept (block : Nat → Nat) (opts : Options) (s : Session) : Prop where
  inv : SessionInv opts s.bridge
  kept : ∀ p, s.promised block p = true → Attended block s p

theorem Kept.initial : Kept block opts Session.initial := by
  refine ⟨.initial, fun p hp => ?_⟩
  rcases promised_iff.mp hp with hready | ⟨_, _, hsig, -⟩
  · cases hready
  · cases hsig

theorem Kept.bridge (hk : Kept block opts s) (hok : s.spares block opts ev = true)
    (h : Bridge.step opts s.bridge ev = some b) : Kept block opts { s with bridge := b } := by
  refine ⟨hk.inv.step h, fun p hp => ?_⟩
  by_cases hold : s.promised block p = true
  · exact promise_survives h hok hold (hk.kept p hold)
  · rcases promised_iff.mp hp with hready | ⟨req, r, hsig, hover, hr, rfl⟩
    · have hready' : s.ready p = true := hready
      exact absurd (promised_iff.mpr (.inl hready')) hold
    · rcases step_grants h req hsig with hsig' | hg
      · -- a call that was granted before names what it named then
        obtain ⟨r', hr', -⟩ := hk.inv.provenance.granted req hsig'
        have hget := step_requests_get h hr'
        have hr₁ : b.requests[req]? = some r := hr
        rw [hr₁] at hget
        obtain rfl := Option.some.inj hget
        exact absurd (promised_iff.mpr (.inr ⟨req, r, hsig', hover, hr', rfl⟩)) hold
      · exact granted_attended hk.inv h hok hg hr

/-- **Harmless steps keep every promise.** -/
theorem Kept.step (hk : Kept block opts s) {c : Call} (hok : Harmless block opts s c)
    (h : Session.step block opts s c = some s') : Kept block opts s' := by
  cases c with
  | bridge ev =>
    obtain ⟨b, hb, rfl⟩ := Option.map_eq_some_iff.mp h
    exact hk.bridge hok hb
  | fast p =>
    rw [Session.step] at h
    split at h
    · obtain rfl := Option.some.inj h
      exact hk
    · cases h
  | wake req =>
    rw [Session.step] at h
    split at h
    next r hr =>
      split at h
      next hwake =>
        obtain rfl := Option.some.inj h
        refine ⟨hk.inv, fun p hp => hk.kept p ?_⟩
        rcases promised_iff.mp hp with hready | ⟨req', r', hsig, hover, hr', hplace⟩
        · by_cases he : p = r.region.place block
          · -- the promise of the call that wakes is now the flag's
            exact promised_iff.mpr (.inr ⟨req, r, hwake.2, hwake.1, hr, he.symm⟩)
          · refine promised_iff.mpr (.inl ?_)
            have hupd : Function.update s.ready (r.region.place block) true p = true := hready
            rw [Function.update_of_ne he] at hupd
            exact hupd
        · refine promised_iff.mpr (.inr ⟨req', r', hsig, fun hmem => ?_, hr', hplace⟩)
          exact hover (List.mem_cons_of_mem _ hmem)
      next => cases h
    next => cases h
  | giveUp req =>
    obtain rfl := Option.some.inj h
    refine ⟨hk.inv, fun p hp => hk.kept p ?_⟩
    rcases promised_iff.mp hp with hready | ⟨req', r', hsig, hover, hr', hplace⟩
    · exact promised_iff.mpr (.inl hready)
    · refine promised_iff.mpr (.inr ⟨req', r', hsig, fun hmem => ?_, hr', hplace⟩)
      exact hover (List.mem_cons_of_mem _ hmem)
  | die w =>
    obtain rfl := Option.some.inj h
    refine ⟨hk.inv, fun p hp => ?_⟩
    have hprom : s.promised block p = true := hp
    have serve : ∀ w', w' ≠ w → s.serves block w' p = true →
        Attended block { s with dead := w :: s.dead } p := by
      intro w' hne hw'
      obtain ⟨⟨hterm, hdead⟩, ht⟩ := serves_iff.mp hw'
      refine ⟨w', serves_iff.mpr ⟨⟨hterm, fun hmem => ?_⟩, ht⟩⟩
      exact (List.mem_cons.mp hmem).elim hne hdead
    obtain ⟨w', hw'⟩ := hk.kept p hprom
    by_cases hne : w' = w
    · subst hne
      obtain ⟨-, t, ht, rfl⟩ := serves_iff.mp hw'
      have hother := List.all_eq_true.mp hok t ht
      rw [hprom, Bool.not_true, Bool.false_or] at hother
      obtain ⟨w₁, hne, hw₁⟩ := servedElse_of hother
      exact serve w₁ hne hw₁
    · exact serve w' hne hw'

/-- A call for a target of an adapter, and a second one that finds the flag. -/
def firstCall : List Call :=
  [.bridge (.ensure "node-a" ⟨0, 0⟩), .bridge (.spawned "iroh-v1" true),
    .bridge (.bootReply "iroh-v1" true), .wake 0]

/-- The channel of the first call is evicted for another target. -/
def evictedRun : List Call :=
  firstCall ++ [.bridge (.ensure "node-b" ⟨0, 128⟩),
    .bridge (.begin "iroh-v1" 0 (fun _ => freeSlot) (fun _ => freeSlot)),
    .bridge (.registrationReply "iroh-v1" 1 true), .wake 1]

end Haybarn.Bridge
